import Quarrel.Core.LTS
import Mathlib.Data.List.Nodup
import Mathlib.Logic.Function.Basic

/-!
# Refinement, and the log service

`Refines T A R`: whatever step `T` takes, `A` answers with steps of its own, perhaps
none, that keep the states related by `R`.

The log service is what a replicated log is for: calls are submitted, and each is committed
at most once, to the end of the log it is for, or given up.

* `Refines.run`, `Refines.reachable`: runs are answered by runs, reachable states are
  related to reachable ones.
* `LogService.sound_inductive`: the logs hold submitted calls, each once and in its own log,
  and none that was given up.
* `LogService.run_prefix`: no committed call is taken back.
-/
namespace Quarrel

namespace LTS

variable {S L P M : Type*}

structure Refines (T : LTS S L) (A : LTS P M) (R : S → P → Prop) : Prop where
  init : ∀ s, T.init s → ∃ p, A.init p ∧ R s p
  step : ∀ s l s' p, T.Reachable s → A.Reachable p → R s p → T.step s l s' →
    ∃ ms p', A.Run p ms p' ∧ R s' p'

variable {T : LTS S L} {A : LTS P M} {R : S → P → Prop}

theorem Refines.run (h : T.Refines A R) {s s' : S} {ls : List L} {p : P} (hs : T.Reachable s)
    (hp : A.Reachable p) (hR : R s p) (hr : T.Run s ls s') :
    ∃ ms p', A.Run p ms p' ∧ R s' p' := by
  induction hr generalizing p with
  | nil => exact ⟨[], p, .nil p, hR⟩
  | cons hst _ ih =>
    obtain ⟨ms, p₁, hrun, hR₁⟩ := h.step _ _ _ _ hs hp hR hst
    obtain ⟨ms', p₂, hrun', hR₂⟩ := ih (hs.step hst) (hp.run hrun) hR₁
    exact ⟨ms ++ ms', p₂, hrun.append hrun', hR₂⟩

theorem Refines.reachable (h : T.Refines A R) {s : S} (hs : T.Reachable s) :
    ∃ p, A.Reachable p ∧ R s p := by
  obtain ⟨s₀, ls, hi, hr⟩ := hs
  obtain ⟨p₀, hp₀, hR₀⟩ := h.init s₀ hi
  obtain ⟨ms, p, hrun, hR⟩ := h.run (.of_init hi) (.of_init hp₀) hR₀ hr
  exact ⟨p, ⟨p₀, ms, hp₀, hrun⟩, hR⟩

end LTS

/-! ## The log service -/

/-- `calls` are the calls submitted, `failed` those given up, `log i` those committed to
log `i`, in order. -/
structure LogService (ι C : Type*) where
  calls : List C
  failed : List C
  log : ι → List C

namespace LogService

variable {ι C : Type*}

inductive Op (C : Type*) where
  | submit (c : C)
  | commit (c : C)
  | fail (c : C)

variable [DecidableEq ι]

/-- `c` is committed to the log `inst c`. -/
def commitTo (inst : C → ι) (p : LogService ι C) (c : C) : LogService ι C :=
  { p with log := Function.update p.log (inst c) (p.log (inst c) ++ [c]) }

inductive Step (inst : C → ι) (p : LogService ι C) : Op C → LogService ι C → Prop
  | submit (c : C) (h : c ∉ p.calls) : Step inst p (.submit c) { p with calls := p.calls ++ [c] }
  | commit (c : C) (h : c ∈ p.calls) (hf : c ∉ p.failed) (hnew : c ∉ p.log (inst c)) :
      Step inst p (.commit c) (p.commitTo inst c)
  | fail (c : C) (h : c ∈ p.calls) (hf : c ∉ p.failed) (hnew : c ∉ p.log (inst c)) :
      Step inst p (.fail c) { p with failed := p.failed ++ [c] }

def sys (inst : C → ι) : LTS (LogService ι C) (Op C) where
  init p := p = ⟨[], [], fun _ => []⟩
  step := Step inst

variable {inst : C → ι} {p p' : LogService ι C} {op : Op C}

theorem commitTo_self (p : LogService ι C) (c : C) :
    (p.commitTo inst c).log (inst c) = p.log (inst c) ++ [c] := Function.update_self ..

theorem commitTo_other {i : ι} {c : C} (h : i ≠ inst c) :
    (p.commitTo inst c).log i = p.log i := Function.update_of_ne h ..

/-- The position of a call in a log after a commit. -/
theorem commitTo_get {c d : C} {i : ι} {n : Nat} :
    ((p.commitTo inst c).log i)[n]? = some d ↔
      (p.log i)[n]? = some d ∨ (i = inst c ∧ n = (p.log i).length ∧ d = c) := by
  by_cases hi : i = inst c
  · subst hi
    rw [commitTo_self]
    rcases Nat.lt_trichotomy n (p.log (inst c)).length with hlt | rfl | hgt
    · rw [List.getElem?_append_left hlt]
      exact ⟨.inl, fun h => h.resolve_right fun h => absurd h.2.1 (Nat.ne_of_lt hlt)⟩
    · simp [eq_comm]
    · rw [List.getElem?_eq_none (by simpa [Nat.succ_le_iff] using hgt), List.getElem?_eq_none (Nat.le_of_lt hgt)]
      exact ⟨.inl, fun h => h.resolve_right fun h => absurd h.2.1 (Nat.ne_of_gt hgt)⟩
  · rw [commitTo_other hi]
    exact ⟨.inl, fun h => h.resolve_right fun h => hi h.1⟩

/-- Each call is submitted once, committed once and to its own log, and not given up then. -/
structure Sound (inst : C → ι) (p : LogService ι C) : Prop where
  calls : p.calls.Nodup
  log : ∀ i, (p.log i).Nodup
  committed : ∀ i, ∀ c ∈ p.log i, c ∈ p.calls ∧ c ∉ p.failed ∧ inst c = i

theorem Sound.step (h : p.Sound inst) (hs : Step inst p op p') : p'.Sound inst := by
  cases hs with
  | submit c hc =>
    refine ⟨?_, h.log, fun i d hd => ?_⟩
    · rw [← List.concat_eq_append]
      exact h.calls.concat hc
    · obtain ⟨hmem, hrest⟩ := h.committed i d hd
      exact ⟨List.mem_append_left _ hmem, hrest⟩
  | commit c hc hf hnew =>
    refine ⟨h.calls, fun i => ?_, fun i d hd => ?_⟩
    · by_cases hi : i = inst c
      · subst hi
        rw [commitTo_self, ← List.concat_eq_append]
        exact (h.log _).concat hnew
      · rw [commitTo_other hi]
        exact h.log i
    · obtain ⟨n, hn⟩ := List.mem_iff_getElem?.mp hd
      rcases commitTo_get.mp hn with hn | ⟨rfl, _, rfl⟩
      · exact h.committed i d (List.mem_of_getElem? hn)
      · exact ⟨hc, hf, rfl⟩
  | fail c hc hf hnew =>
    refine ⟨h.calls, h.log, fun i d hd => ?_⟩
    obtain ⟨hmem, hnf, hinst⟩ := h.committed i d hd
    refine ⟨hmem, fun hd' => ?_, hinst⟩
    rcases List.mem_append.mp hd' with hd' | hd'
    · exact hnf hd'
    · rw [List.mem_singleton.mp hd'] at hd hinst
      exact hnew (hinst ▸ hd)

theorem sound_inductive (inst : C → ι) : (sys inst).Inductive (Sound inst) where
  init p hp := by
    subst hp
    exact ⟨List.nodup_nil, fun _ => List.nodup_nil, fun _ _ h => by cases h⟩
  step _ _ _ h hs := h.step hs

theorem Step.log_prefix (hs : Step inst p op p') (i : ι) : p.log i <+: p'.log i := by
  cases hs with
  | submit | fail => exact List.prefix_refl _
  | commit c =>
    by_cases hi : i = inst c
    · subst hi
      rw [commitTo_self]
      exact List.prefix_append _ _
    · exact commitTo_other hi ▸ List.prefix_refl _

theorem run_prefix {ops : List (Op C)} (hr : (sys inst).Run p ops p') (i : ι) :
    p.log i <+: p'.log i := by
  induction hr with
  | nil => exact List.prefix_refl _
  | cons hs _ ih => exact (hs.log_prefix i).trans ih

/-- Calls that are over, but not committed, can be given up one after the other. -/
theorem run_fail (cs : List C) (hnd : cs.Nodup)
    (h : ∀ c ∈ cs, c ∈ p.calls ∧ c ∉ p.failed ∧ c ∉ p.log (inst c)) :
    (sys inst).Run p (cs.map .fail) { p with failed := p.failed ++ cs } := by
  induction cs generalizing p with
  | nil =>
    rw [List.append_nil]
    exact .nil p
  | cons c cs ih =>
    obtain ⟨hc, hnd⟩ := List.nodup_cons.mp hnd
    obtain ⟨hmem, hf, hnew⟩ := h c (List.mem_cons_self ..)
    have hrest := ih (p := { p with failed := p.failed ++ [c] }) hnd fun d hd => by
      obtain ⟨hmem, hf, hnew⟩ := h d (List.mem_cons_of_mem _ hd)
      refine ⟨hmem, fun hd' => ?_, hnew⟩
      rcases List.mem_append.mp hd' with hd' | hd'
      · exact hf hd'
      · exact hc (List.mem_singleton.mp hd' ▸ hd)
    rw [List.append_assoc] at hrest
    exact .cons (.fail c hmem hf hnew) hrest

end LogService

end Quarrel
