import Mathlib.Data.List.Basic

/-!
# Labelled transition systems

Runs, reachable states and inductive invariants of a labelled transition
system, over arbitrary state and label types.

* `Inductive.reachable`: an inductive invariant holds in every reachable state.
* `Inductive.rel`: an invariant that is inductive relative to another one.
* `Run.preserve`: a predicate every step preserves survives a run.
* `Reachable.weaken`: what is reachable under a condition is reachable under a weaker one.
* `run_restrict_congr`: conditions on a step that agree where it is reached.
* `run_restrict_iff`: a condition a step meets exactly if it keeps a predicate.
* `run_through`: a run that takes the items of a list in turn.
* `run_of_exec`, `exec_of_run`: the runs of a transition function are its executions.
* `run_of_guarded`: executing it under a guard gives a run of the restricted system.
* `exec_iff_meets`: what only some steps can bring about, holds if one of them was taken.
* `withRecord`: the system along with a record of its steps.
-/
namespace Quarrel

/-- Initial states and labelled steps. -/
structure LTS (S : Type*) (L : Type*) where
  init : S → Prop
  step : S → L → S → Prop

namespace LTS

variable {S L : Type*}

/-- The system of a partial transition function. -/
def ofFn (init : S → Prop) (f : S → L → Option S) : LTS S L where
  init := init
  step s l s' := f s l = some s'

/-- The steps of `T` that also meet `ok`. -/
def restrict (T : LTS S L) (ok : S → L → S → Prop) : LTS S L where
  init := T.init
  step s l s' := T.step s l s' ∧ ok s l s'

inductive Run (T : LTS S L) : S → List L → S → Prop
  | nil (s : S) : Run T s [] s
  | cons {s : S} {l : L} {s' : S} {ls : List L} {s'' : S} (h : T.step s l s')
      (hr : Run T s' ls s'') :
      Run T s (l :: ls) s''

def Reachable (T : LTS S L) (s : S) : Prop := ∃ s₀ ls, T.init s₀ ∧ T.Run s₀ ls s

/-- The run takes the step from `a` to `b`. -/
def Takes (T : LTS S L) (s : S) (ls : List L) (s' : S) (a : S) (l : L) (b : S) : Prop :=
  ∃ ls₁ ls₂, ls = ls₁ ++ l :: ls₂ ∧ T.Run s ls₁ a ∧ T.step a l b ∧ T.Run b ls₂ s'

/-- `I` holds initially and every step preserves it. -/
structure Inductive (T : LTS S L) (I : S → Prop) : Prop where
  init : ∀ s, T.init s → I s
  step : ∀ s l s', I s → T.step s l s' → I s'

variable {T : LTS S L}

theorem Run.append {a b c : S} {l₁ l₂ : List L} (h₁ : T.Run a l₁ b) (h₂ : T.Run b l₂ c) :
    T.Run a (l₁ ++ l₂) c := by
  induction h₁ with
  | nil => exact h₂
  | cons h _ ih => exact .cons h (ih h₂)

theorem Run.single {s s' : S} {l : L} (h : T.step s l s') : T.Run s [l] s' := .cons h (.nil _)

theorem Reachable.of_init {s : S} (h : T.init s) : T.Reachable s := ⟨s, [], h, .nil _⟩

theorem Reachable.run {s s' : S} {ls : List L} (h : T.Reachable s) (hr : T.Run s ls s') :
    T.Reachable s' := by
  obtain ⟨s₀, l₀, hi, h₀⟩ := h
  exact ⟨s₀, l₀ ++ ls, hi, h₀.append hr⟩

theorem Reachable.step {s s' : S} {l : L} (h : T.Reachable s) (hs : T.step s l s') :
    T.Reachable s' := h.run (.single hs)

theorem Run.preserve {I : S → Prop} (hI : ∀ s l s', I s → T.step s l s' → I s') {s s' : S}
    {ls : List L} (hr : T.Run s ls s') (h : I s) : I s' := by
  induction hr with
  | nil => exact h
  | cons hs _ ih => exact ih (hI _ _ _ h hs)

theorem Inductive.reachable {I : S → Prop} (hI : T.Inductive I) : ∀ s, T.Reachable s → I s := by
  intro s hreach
  obtain ⟨s₀, ls, hi, hr⟩ := hreach
  exact hr.preserve hI.step (hI.init s₀ hi)

/-- A weaker condition on the steps restricts the runs less. -/
theorem Reachable.weaken {ok ok' : S → L → S → Prop} (h : ∀ s l s', ok s l s' → ok' s l s') {s : S}
    (hr : (T.restrict ok).Reachable s) : (T.restrict ok').Reachable s := by
  obtain ⟨s₀, ls, hi, hr⟩ := hr
  refine ⟨s₀, ls, hi, ?_⟩
  clear hi
  induction hr with
  | nil => exact .nil _
  | cons hs _ ih => exact .cons ⟨hs.1, h _ _ _ hs.2⟩ ih

theorem Reachable.unrestrict {ok : S → L → S → Prop} {s : S} (hr : (T.restrict ok).Reachable s) :
    T.Reachable s := by
  obtain ⟨s₀, ls, hi, hr⟩ := hr
  refine ⟨s₀, ls, hi, ?_⟩
  clear hi
  induction hr with
  | nil => exact .nil _
  | cons hs _ ih => exact .cons hs.1 ih

/-- `J` is inductive relative to the invariant `I`: preservation may use `I`
on both sides of the step. -/
theorem Inductive.rel {I J : S → Prop} (hI : T.Inductive I) (h0 : ∀ s, T.init s → J s)
    (hs : ∀ s l s', I s → I s' → J s → T.step s l s' → J s') :
    T.Inductive fun s => I s ∧ J s where
  init s h := ⟨hI.init s h, h0 s h⟩
  step s l s' h hst :=
    have hI' := hI.step s l s' h.1 hst
    ⟨hI', hs s l s' h.1 hI' h.2 hst⟩

/-- Two conditions that agree on the steps of reachable states restrict runs alike. -/
theorem run_restrict_congr {ok ok' : S → L → S → Prop}
    (hc : ∀ s l s', T.Reachable s → T.step s l s' → (ok s l s' ↔ ok' s l s')) {s s' : S}
    {ls : List L}
    (h : T.Reachable s) : (T.restrict ok).Run s ls s' ↔ (T.restrict ok').Run s ls s' := by
  induction ls generalizing s with
  | nil =>
    constructor <;> intro hr <;> cases hr <;> exact .nil _
  | cons l ls ih =>
    constructor
    · intro hr
      obtain ⟨⟩ | ⟨⟨hst, hok⟩, hr⟩ := hr
      exact .cons ⟨hst, (hc _ _ _ h hst).mp hok⟩ ((ih (h.step hst)).mp hr)
    · intro hr
      obtain ⟨⟩ | ⟨⟨hst, hok⟩, hr⟩ := hr
      exact .cons ⟨hst, (hc _ _ _ h hst).mpr hok⟩ ((ih (h.step hst)).mpr hr)

/-- Where `P` holds a step meets the condition exactly if `P` holds after it: a run of such steps
is a run that keeps `P`. -/
theorem run_restrict_iff {ok : S → L → S → Prop} {I P : S → Prop}
    (h : ∀ s l s', I s → P s → T.step s l s' → I s' ∧ (P s' ↔ ok s l s')) {s s' : S} {ls : List L}
    (hI : I s) (hP : P s) :
    (T.restrict ok).Run s ls s' ↔ (T.restrict fun _ _ s' => P s').Run s ls s' := by
  induction ls generalizing s with
  | nil =>
    constructor <;> intro hr <;> cases hr <;> exact .nil _
  | cons l ls ih =>
    constructor
    · intro hr
      obtain ⟨⟩ | ⟨⟨hst, hok⟩, hr⟩ := hr
      obtain ⟨hI', hiff⟩ := h _ _ _ hI hP hst
      have hP' := hiff.mpr hok
      exact .cons ⟨hst, hP'⟩ ((ih hI' hP').mp hr)
    · intro hr
      obtain ⟨⟩ | ⟨⟨hst, hP'⟩, hr⟩ := hr
      obtain ⟨hI', hiff⟩ := h _ _ _ hI hP hst
      exact .cons ⟨hst, hiff.mp hP'⟩ ((ih hI' hP').mpr hr)

/-- A run that takes the items of a list one after the other. -/
theorem run_through {α : Type*} {P : List α → S → Prop} {Q : S → Prop}
    (last : ∀ a s, P [a] s → ∃ ls s', T.Run s ls s' ∧ Q s')
    (next : ∀ a b l s, P (a :: b :: l) s → ∃ ls s', T.Run s ls s' ∧ P (b :: l) s') {l : List α}
    (hl : l ≠ []) {s : S} (h : P l s) : ∃ ls s', T.Run s ls s' ∧ Q s' := by
  induction l generalizing s with
  | nil => exact absurd rfl hl
  | cons a l ih =>
    cases l with
    | nil => exact last a s h
    | cons b l =>
      obtain ⟨ls, s₁, hr, h₁⟩ := next a b l s h
      obtain ⟨ls', s', hr', h'⟩ := ih (List.cons_ne_nil b l) h₁
      exact ⟨ls ++ ls', s', hr.append hr', h'⟩

/-! ## Executing a transition function -/

/-- Take the steps labelled `ls`, if all of them are enabled. -/
def exec (f : S → L → Option S) : S → List L → Option S
  | s, [] => some s
  | s, l :: ls => (f s l).bind fun s' => exec f s' ls

theorem run_of_exec {init : S → Prop} {f : S → L → Option S} :
    ∀ {s : S} {ls : List L} {s' : S}, exec f s ls = some s' → (ofFn init f).Run s ls s'
  | s, [], s', h => by
    simp only [exec, Option.some.injEq] at h
    exact h ▸ .nil s
  | s, l :: ls, s', h => by
    simp only [exec, Option.bind_eq_some_iff] at h
    obtain ⟨s₁, h₁, h₂⟩ := h
    exact .cons h₁ (run_of_exec h₂)

theorem exec_of_run {init : S → Prop} {f : S → L → Option S} {s s' : S} {ls : List L}
    (hr : (ofFn init f).Run s ls s') : exec f s ls = some s' := by
  induction hr with
  | nil => rfl
  | cons hs _ ih => exact Option.bind_eq_some_iff.mpr ⟨_, hs, ih⟩

/-- Take the steps labelled `ls`, if all of them are enabled and `g` admits them. -/
theorem run_of_guarded {init : S → Prop} {f : S → L → Option S} {ok : S → L → S → Prop}
    {g : S → L → S → Bool} (hg : ∀ s l s', f s l = some s' → g s l s' = true → ok s l s') {s : S}
    {ls : List L} {s' : S} (h : exec (fun s l => (f s l).filter (g s l)) s ls = some s') :
    ((ofFn init f).restrict ok).Run s ls s' := by
  induction ls generalizing s with
  | nil =>
    simp only [exec, Option.some.injEq] at h
    exact h ▸ .nil s
  | cons l ls ih =>
    simp only [exec, Option.bind_eq_some_iff, Option.filter_eq_some_iff] at h
    obtain ⟨s₁, ⟨h₁, hok⟩, h₂⟩ := h
    exact .cons ⟨h₁, hg _ _ _ h₁ hok⟩ (ih h₂)

/-- On the way a step is taken that `E` names. -/
def Meets (f : S → L → Option S) (E : S → L → Prop) : S → List L → Prop
  | _, [] => False
  | s, l :: ls => E s l ∨ ∃ s', f s l = some s' ∧ Meets f E s' ls

/-- `Q` holds after a step exactly if it held before, or `E` names the step. -/
theorem exec_iff_meets {f : S → L → Option S} {E : S → L → Prop} {Q : S → Prop}
    (h : ∀ s l s', f s l = some s' → (Q s' ↔ Q s ∨ E s l)) {s s' : S} {ls : List L}
    (hr : exec f s ls = some s') : Q s' ↔ Q s ∨ Meets f E s ls := by
  induction ls generalizing s with
  | nil =>
    obtain rfl := Option.some.inj hr
    exact ⟨.inl, fun hq => hq.elim id False.elim⟩
  | cons l ls ih =>
    obtain ⟨s₁, h₁, h₂⟩ := Option.bind_eq_some_iff.mp hr
    rw [ih h₂, h s l s₁ h₁, or_assoc]
    refine or_congr_right (or_congr_right ⟨fun hm => ⟨s₁, h₁, hm⟩, ?_⟩)
    rintro ⟨t, ht, hm⟩
    obtain rfl := Option.some.inj (h₁.symm.trans ht)
    exact hm

theorem meets_append {f : S → L → Option S} {E : S → L → Prop} {s s' : S} {ls ls' : List L}
    (hr : exec f s ls = some s') (h : Meets f E s' ls') : Meets f E s (ls ++ ls') := by
  induction ls generalizing s with
  | nil =>
    obtain rfl := Option.some.inj hr
    exact h
  | cons l ls ih =>
    obtain ⟨s₁, h₁, h₂⟩ := Option.bind_eq_some_iff.mp hr
    exact .inr ⟨s₁, h₁, ih h₂⟩

/-! ## Records of a run -/

section Records

variable {R : Type*}

/-- A transition function that keeps a record of its steps. -/
def recorded (f : S → L → Option S) (g : S → L → List R) (s : S × List R) (l : L) :
    Option (S × List R) :=
  (f s.1 l).map fun s' => (s', s.2 ++ g s.1 l)

/-- The system of a transition function, with a record that starts empty. -/
def withRecord (init : S → Prop) (f : S → L → Option S) (g : S → L → List R) : LTS (S × List R) L :=
  ofFn (fun s => init s.1 ∧ s.2 = []) (recorded f g)

variable {init : S → Prop} {f : S → L → Option S} {g : S → L → List R}

theorem recorded_eq {s s' : S × List R} {l : L} (h : recorded f g s l = some s') :
    f s.1 l = some s'.1 ∧ s'.2 = s.2 ++ g s.1 l := by
  obtain ⟨t, ht, rfl⟩ := Option.map_eq_some_iff.mp h
  exact ⟨ht, rfl⟩

/-- The runs with a record are runs of the system. -/
theorem Run.unrecord {ok : S → L → S → Prop} {ok' : S × List R → L → S × List R → Prop}
    (hok : ∀ s l s', ok' s l s' → ok s.1 l s'.1) {s s' : S × List R} {ls : List L}
    (hr : ((LTS.withRecord init f g).restrict ok').Run s ls s') :
    ((ofFn init f).restrict ok).Run s.1 ls s'.1 := by
  induction hr with
  | nil => exact .nil _
  | cons h _ ih => exact .cons ⟨(recorded_eq h.1).1, hok _ _ _ h.2⟩ ih

/-- An invariant of the system holds along with any record. -/
theorem Inductive.withRecord {ok : S → L → S → Prop} {ok' : S × List R → L → S × List R → Prop}
    {I : S → Prop}
    (hI : ((ofFn init f).restrict ok).Inductive I) (hok : ∀ s l s', ok' s l s' → ok s.1 l s'.1) :
    ((LTS.withRecord init f g).restrict ok').Inductive fun s => I s.1 where
  init s h := hI.init s.1 h.1
  step s l s' h hst := hI.step s.1 l s'.1 h ⟨(recorded_eq hst.1).1, hok s l s' hst.2⟩

end Records

end LTS
end Quarrel
