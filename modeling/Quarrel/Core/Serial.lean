import Quarrel.Core.LTS
import Quarrel.Core.Machine
import Mathlib.Logic.Function.Basic

/-!
# Jobs that run at the same time

Workers that carry out jobs on a shared memory, access by access and in any order. Each job
is on one component, and the jobs on one component all go to the worker that owns it.

* `Serial`: the memory and the results are those of the jobs carried out one at a time, in
  the order they were finished. `Serial.start`, `Serial.access` and `Serial.finish` keep it.
-/
namespace Quarrel

/-- A program on a memory, as its accesses: what is written, and how it goes on, depends on
what was read. -/
inductive Prog (M R : Type*) where
  | ret (r : R)
  | access (write : M → M) (next : M → Prog M R)

namespace Prog

variable {M R : Type*}

/-- The program from its first to its last access. -/
def eval : Prog M R → M → R × M
  | .ret r, m => (r, m)
  | .access write next, m => (next m).eval (write m)

/-- A function as two accesses: what was read may be out of date when it is written. -/
def readWrite (f : M → R × M) : Prog M R :=
  .access id fun m => .access (fun _ => (f m).2) fun _ => .ret (f m).1

theorem eval_readWrite (f : M → R × M) (m : M) : (readWrite f).eval m = f m := rfl

end Prog

/-- `busy` is the job of each worker, with what is left of it; `out` are the jobs finished, with
their results. -/
structure Bench (ι ω J M R : Type*) where
  mem : ι → M
  busy : ω → Option (J × Prog M R)
  out : List (J × R)

inductive BenchOp (ω J : Type*) where
  | start (w : ω) (j : J)
  | access (w : ω)
  | finish (w : ω)

namespace Bench

variable {ι ω J M R : Type*} [DecidableEq ι] [DecidableEq ω]

/-- A step of one worker; `inst j` is the component of the job `j`. -/
def step (inst : J → ι) (code : J → Prog M R) (s : Bench ι ω J M R) :
    BenchOp ω J → Option (Bench ι ω J M R)
  | .start w j =>
    match s.busy w with
    | none => some { s with busy := Function.update s.busy w (some (j, code j)) }
    | some _ => none
  | .access w =>
    match s.busy w with
    | some (j, .access write next) => some { s with
        mem := Function.update s.mem (inst j) (write (s.mem (inst j)))
        busy := Function.update s.busy w (some (j, next (s.mem (inst j)))) }
    | _ => none
  | .finish w =>
    match s.busy w with
    | some (j, .ret r) => some { s with busy := Function.update s.busy w none, out := s.out ++ [(j, r)] }
    | _ => none

/-- A job carried out at once. -/
def handle (inst : J → ι) (code : J → Prog M R) (mem : ι → M) (j : J) : R × (ι → M) :=
  (((code j).eval (mem (inst j))).1, Function.update mem (inst j) ((code j).eval (mem (inst j))).2)

/-- `a` is the memory after the finished jobs, carried out one at a time. Where a job is under way
its worker will leave what the job would leave of `a`. -/
structure Serial (inst : J → ι) (code : J → Prog M R) (owner : ι → ω) (mem : ι → M)
    (s : Bench ι ω J M R) (a : ι → M) : Prop where
  jobs : Machine.outputs (handle inst code) mem (s.out.map Prod.fst) = (s.out.map Prod.snd, a)
  owned : ∀ w j p, s.busy w = some (j, p) → owner (inst j) = w
  idle : ∀ i, (∀ w j p, s.busy w = some (j, p) → inst j ≠ i) → s.mem i = a i
  under : ∀ w j p, s.busy w = some (j, p) → p.eval (s.mem (inst j)) = (code j).eval (a (inst j))
  results : ∀ x ∈ s.out, ∃ m, x.2 = ((code x.1).eval m).1

section

variable {inst : J → ι} {code : J → Prog M R} {owner : ι → ω} {mem : ι → M} {s s' : Bench ι ω J M R}
  {a : ι → M} {w : ω} {j : J} {p : Prog M R}

omit [DecidableEq ω] in
/-- The jobs of two workers are on different components. -/
theorem Serial.apart (h : Serial inst code owner mem s a) (hw : s.busy w = some (j, p)) {w' : ω} {j' : J}
    {p' : Prog M R} (hw' : s.busy w' = some (j', p')) (hne : w' ≠ w) : inst j' ≠ inst j := fun he =>
  hne (by rw [← h.owned w' j' p' hw', ← h.owned w j p hw, he])

omit [DecidableEq ι] in
/-- The jobs after one worker turned to another. -/
theorem busy_update {b : Option (J × Prog M R)} {w' : ω} {x : J × Prog M R} :
    Function.update s.busy w b w' = some x ↔ w' = w ∧ b = some x ∨ w' ≠ w ∧ s.busy w' = some x := by
  by_cases he : w' = w
  · rw [he, Function.update_self]
    exact ⟨fun h => .inl ⟨rfl, h⟩, fun h => h.elim (·.2) fun h => absurd rfl h.1⟩
  · rw [Function.update_of_ne he]
    exact ⟨fun h => .inr ⟨he, h⟩, fun h => h.elim (fun h => absurd h.1 he) (·.2)⟩

theorem Serial.start (h : Serial inst code owner mem s a) (hw : s.busy w = none) (hj : owner (inst j) = w) :
    Serial inst code owner mem { s with busy := Function.update s.busy w (some (j, code j)) } a := by
  have hfree : ∀ w' j' p', s.busy w' = some (j', p') → inst j' ≠ inst j := fun w' j' p' hb he => by
    have := h.owned w' j' p' hb
    rw [he, hj] at this
    rw [← this, hw] at hb
    cases hb
  refine ⟨h.jobs, fun w' j' p' hb => ?_, fun i hi => ?_, fun w' j' p' hb => ?_, h.results⟩
  · rcases busy_update.mp hb with ⟨rfl, he⟩ | ⟨-, hb⟩
    · cases he
      exact hj
    · exact h.owned w' j' p' hb
  · refine h.idle i fun w' j' p' hb => hi w' j' p' (busy_update.mpr (.inr ⟨fun he => ?_, hb⟩))
    rw [he, hw] at hb
    cases hb
  · rcases busy_update.mp hb with ⟨-, he⟩ | ⟨-, hb⟩
    · cases he
      exact congrArg _ (h.idle (inst j) hfree)
    · exact h.under w' j' p' hb

theorem Serial.access (h : Serial inst code owner mem s a) {write : M → M} {next : M → Prog M R}
    (hw : s.busy w = some (j, .access write next)) :
    Serial inst code owner mem { s with
      mem := Function.update s.mem (inst j) (write (s.mem (inst j)))
      busy := Function.update s.busy w (some (j, next (s.mem (inst j)))) } a := by
  refine ⟨h.jobs, fun w' j' p' hb => ?_, fun i hi => ?_, fun w' j' p' hb => ?_, h.results⟩
  · rcases busy_update.mp hb with ⟨rfl, he⟩ | ⟨-, hb⟩
    · cases he
      exact h.owned w' j _ hw
    · exact h.owned w' j' p' hb
  · have hne : i ≠ inst j := Ne.symm (hi w j _ (busy_update.mpr (.inl ⟨rfl, rfl⟩)))
    show Function.update s.mem (inst j) _ i = a i
    rw [Function.update_of_ne hne]
    refine h.idle i fun w' j' p' hb => ?_
    by_cases he : w' = w
    · rw [he, hw] at hb
      cases hb
      exact hne.symm
    · exact hi w' j' p' (busy_update.mpr (.inr ⟨he, hb⟩))
  · show p'.eval (Function.update s.mem (inst j) (write (s.mem (inst j))) (inst j')) = _
    rcases busy_update.mp hb with ⟨-, he⟩ | ⟨hne, hb⟩
    · cases he
      rw [Function.update_self]
      exact h.under w j _ hw
    · rw [Function.update_of_ne (h.apart hw hb hne)]
      exact h.under w' j' p' hb

theorem Serial.finish (h : Serial inst code owner mem s a) {r : R} (hw : s.busy w = some (j, .ret r)) :
    Serial inst code owner mem
      { s with busy := Function.update s.busy w none, out := s.out ++ [(j, r)] } (handle inst code a j).2 := by
  have hdone : (r, s.mem (inst j)) = (code j).eval (a (inst j)) := h.under w j _ hw
  have hold : ∀ {w' j' p'}, Function.update s.busy w none w' = some (j', p') →
      w' ≠ w ∧ s.busy w' = some (j', p') := fun hb =>
    (busy_update.mp hb).resolve_left fun he => by cases he.2
  refine ⟨?_, fun w' j' p' hb => h.owned w' j' p' (hold hb).2, fun i hi => ?_, fun w' j' p' hb => ?_,
    fun x hx => ?_⟩
  · rw [List.map_append, List.map_append, List.map_singleton, List.map_singleton, Machine.outputs_concat,
      h.jobs]
    show (_ ++ [((code j).eval (a (inst j))).1], _) = _
    rw [← hdone]
  · show s.mem i = Function.update a (inst j) ((code j).eval (a (inst j))).2 i
    by_cases hij : i = inst j
    · rw [hij, Function.update_self, ← hdone]
    · rw [Function.update_of_ne hij]
      refine h.idle i fun w' j' p' hb => ?_
      by_cases he : w' = w
      · rw [he, hw] at hb
        cases hb
        exact Ne.symm hij
      · exact hi w' j' p' (busy_update.mpr (.inr ⟨he, hb⟩))
  · obtain ⟨hne, hb⟩ := hold hb
    show _ = (code j').eval (Function.update a (inst j) _ (inst j'))
    rw [Function.update_of_ne (h.apart hw hb hne)]
    exact h.under w' j' p' hb
  · rcases List.mem_append.mp hx with hx | hx
    · exact h.results x hx
    · rw [List.mem_singleton.mp hx]
      exact ⟨_, congrArg Prod.fst hdone⟩

omit [DecidableEq ω] in
theorem serial_init (mem : ι → M) : Serial inst code owner mem ⟨mem, fun _ => none, []⟩ mem where
  jobs := rfl
  owned _ _ _ hb := by cases hb
  idle _ _ := rfl
  under _ _ _ hb := by cases hb
  results _ hx := (List.not_mem_nil hx).elim

end

end Bench
end Quarrel
