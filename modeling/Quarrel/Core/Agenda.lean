import Quarrel.Core.Ring
import Mathlib.Data.List.Range

/-!
# Agendas

Items that come due a fixed number of ticks after they were added, and the ring of slots
that stands for them: the slot `d` after the current one holds what is due in `d` ticks.

* `agenda_outputs`: each tick gives the items added that many ticks before, in order.
* `Slots.add`, `Slots.tick`: the ring, as long as every delay is shorter than the ring.
-/
namespace Quarrel

variable {α : Type*}

inductive AgendaOp (α : Type*) where
  | add (x : α)
  | tick

namespace Agenda

/-- The items with `d` ticks to go. -/
def due (d : Nat) (p : List (Nat × α)) : List α :=
  p.filterMap fun e => if e.1 = d then some e.2 else none

/-- What is left after a tick. -/
def pass (p : List (Nat × α)) : List (Nat × α) :=
  p.filterMap fun e => if e.1 = 0 then none else some (e.1 - 1, e.2)

/-- Each item with the ticks still to go; `c` is the delay of a new one. A tick gives the items
that are due. -/
def step (c : Nat) (p : List (Nat × α)) : AgendaOp α → Option (List α) × List (Nat × α)
  | .add x => (none, p ++ [(c, x)])
  | .tick => (some (due 0 p), pass p)

/-- The items added, each with the tick it is due at; the first tick is `k`. -/
def schedule (c : Nat) : Nat → List (AgendaOp α) → List (Nat × α)
  | _, [] => []
  | k, .add x :: ops => (k + c, x) :: schedule c k ops
  | k, .tick :: ops => schedule c (k + 1) ops

/-- The number of ticks. -/
def ticks : List (AgendaOp α) → Nat
  | [] => 0
  | .add _ :: ops => ticks ops
  | .tick :: ops => ticks ops + 1

variable {c d k : Nat} {p q : List (Nat × α)}

theorem due_append : due d (p ++ q) = due d p ++ due d q := List.filterMap_append

theorem pass_append : pass (p ++ q) = pass p ++ pass q := List.filterMap_append

theorem due_pass (d : Nat) (p : List (Nat × α)) : due d (pass p) = due (d + 1) p := by
  induction p with
  | nil => rfl
  | cons e p ih =>
    obtain ⟨n, x⟩ := e
    cases n with
    | zero => simpa [due, pass] using ih
    | succ n =>
      by_cases h : n = d
      · subst h
        simpa [due, pass] using ih
      · simpa [due, pass, h] using ih

theorem due_eq_nil (h : ∀ e ∈ p, e.1 ≠ d) : due d p = [] :=
  List.filterMap_eq_nil_iff.mpr fun e he => if_neg (h e he)

theorem mem_pass {e : Nat × α} (h : e ∈ pass p) : (e.1 + 1, e.2) ∈ p := by
  obtain ⟨⟨n, x⟩, hf, he⟩ := List.mem_filterMap.mp h
  cases n with
  | zero => cases he
  | succ n =>
    cases he
    exact hf

theorem mem_due {x : α} : x ∈ due d p ↔ (d, x) ∈ p := by
  simp only [due, List.mem_filterMap, Option.ite_none_right_eq_some, Option.some.injEq]
  constructor
  · rintro ⟨⟨n, y⟩, hp, rfl, rfl⟩
    exact hp
  · exact fun h => ⟨_, h, rfl, rfl⟩

/-- An item that is not due is one tick nearer. -/
theorem pass_mem {x : α} (h : (d + 1, x) ∈ p) : (d, x) ∈ pass p :=
  List.mem_filterMap.mpr ⟨_, h, rfl⟩

theorem le_schedule (ops : List (AgendaOp α)) : ∀ {k : Nat}, ∀ e ∈ schedule c k ops, k ≤ e.1 := by
  induction ops with
  | nil =>
    intro k e he
    cases he
  | cons op ops ih =>
    intro k e he
    cases op with
    | add x =>
      rcases List.mem_cons.mp he with rfl | he
      · exact Nat.le_add_right k c
      · exact ih e he
    | tick => exact Nat.le_of_succ_le (ih e he)

theorem schedule_replicate (c k m : Nat) :
    schedule c k (List.replicate m .tick : List (AgendaOp α)) = [] := by
  induction m generalizing k with
  | zero => rfl
  | succ m ih => exact ih (k + 1)

theorem ticks_replicate (m : Nat) : ticks (List.replicate m .tick : List (AgendaOp α)) = m := by
  induction m with
  | zero => rfl
  | succ m ih => exact congrArg (· + 1) ih

theorem pass_schedule (ops : List (AgendaOp α)) :
    ∀ k, pass (schedule c (k + 1) ops) = schedule c k ops := by
  induction ops with
  | nil => exact fun _ => rfl
  | cons op ops ih =>
    intro k
    cases op with
    | add x =>
      have hne : ¬ k + 1 + c = 0 := by omega
      have hsub : k + 1 + c - 1 = k + c := by omega
      have hcons : pass (schedule c (k + 1) (.add x :: ops)) =
          (k + 1 + c - 1, x) :: pass (schedule c (k + 1) ops) := by
        simp only [schedule, pass, List.filterMap_cons, if_neg hne]
      rw [hcons, ih, hsub]
      rfl
    | tick => exact ih (k + 1)

/-- Each tick gives what is due at it: what was there with that many ticks to go, and what was
added `c` ticks before. -/
theorem agenda_outputs (ops : List (AgendaOp α)) (p : List (Nat × α)) :
    (Machine.outputs (step c) p ops).1.filterMap id =
      (List.range (ticks ops)).map fun k => due k (p ++ schedule c 0 ops) := by
  induction ops generalizing p with
  | nil => rfl
  | cons op ops ih =>
    cases op with
    | add x =>
      have hp : p ++ schedule c 0 (.add x :: ops) = (p ++ [(c, x)]) ++ schedule c 0 ops := by
        rw [List.append_assoc, schedule, Nat.zero_add]
        rfl
      rw [hp]
      exact ih (p ++ [(c, x)])
    | tick =>
      have hnow : due 0 (p ++ schedule c 1 ops) = due 0 p := by
        rw [due_append, due_eq_nil fun e he h => absurd (le_schedule ops e he) (by omega),
          List.append_nil]
      have hlater : ∀ k, due (k + 1) (p ++ schedule c 1 ops) = due k (pass p ++ schedule c 0 ops) := by
        intro k
        rw [← due_pass, pass_append, pass_schedule]
      have hcons : (Machine.outputs (step c) p (.tick :: ops)).1.filterMap id =
          due 0 p :: (Machine.outputs (step c) (pass p) ops).1.filterMap id := rfl
      rw [hcons, ih, ticks, List.range_succ_eq_map, List.map_cons, List.map_map, ← hnow]
      exact congrArg (_ :: ·) (List.map_congr_left fun k _ => (hlater k).symm)

end Agenda

/-! ## The ring of slots -/

/-- The slot `d` after `pos` holds what is due in `d` ticks. -/
structure Slots (n pos : Nat) (p : List (Nat × α)) (slot : Nat → List α) : Prop where
  soon : ∀ e ∈ p, e.1 < n
  slot : ∀ d, d < n → slot ((pos + d) % n) = Agenda.due d p

variable {n pos c : Nat} {p : List (Nat × α)} {slot : Nat → List α}

theorem slots_empty (n pos : Nat) : Slots n pos [] fun _ => ([] : List α) :=
  ⟨fun _ h => absurd h List.not_mem_nil, fun _ _ => rfl⟩

theorem Slots.add (h : Slots n pos p slot) (hc : c < n) (x : α) :
    Slots n pos (p ++ [(c, x)])
      (Function.update slot ((pos + c) % n) (slot ((pos + c) % n) ++ [x])) := by
  refine ⟨fun e he => ?_, fun d hd => ?_⟩
  · rcases List.mem_append.mp he with he | he
    · exact h.soon e he
    · rw [List.mem_singleton.mp he]
      exact hc
  · rw [Agenda.due_append]
    by_cases hdc : d = c
    · subst hdc
      rw [Function.update_self, h.slot d hd]
      simp [Agenda.due]
    · have hne : (pos + d) % n ≠ (pos + c) % n := by
        rcases Nat.lt_or_gt_of_ne hdc with hlt | hlt
        · exact residue_ne hlt (by omega)
        · exact Ne.symm (residue_ne hlt (by omega))
      rw [Function.update_of_ne hne, h.slot d hd, Agenda.due_eq_nil (d := d) (p := [(c, x)]),
        List.append_nil]
      intro e he
      rw [List.mem_singleton.mp he]
      exact Ne.symm hdc

theorem Slots.now (h : Slots n pos p slot) (hpos : pos < n) : slot pos = Agenda.due 0 p := by
  have h0 := h.slot 0 (by omega)
  rwa [Nat.add_zero, Nat.mod_eq_of_lt hpos] at h0

theorem Slots.tick (h : Slots n pos p slot) (hpos : pos < n) :
    Slots n ((pos + 1) % n) (Agenda.pass p) (Function.update slot pos []) := by
  refine ⟨fun e he => Nat.lt_of_succ_lt (h.soon _ (Agenda.mem_pass he)), fun d hd => ?_⟩
  have hslot : ((pos + 1) % n + d) % n = (pos + (d + 1)) % n := by
    rw [Nat.mod_add_mod]
    congr 1
    omega
  rw [hslot, Agenda.due_pass]
  by_cases hlast : d + 1 = n
  · -- the slot just emptied is the last one
    rw [hlast, Nat.add_mod_right, Nat.mod_eq_of_lt hpos, Function.update_self]
    refine (Agenda.due_eq_nil fun e he heq => ?_).symm
    have := h.soon e he
    omega
  · have hne : (pos + (d + 1)) % n ≠ pos := by
      have hres : (pos + 0) % n ≠ (pos + (d + 1)) % n := residue_ne (by omega) (by omega)
      rw [Nat.add_zero, Nat.mod_eq_of_lt hpos] at hres
      exact Ne.symm hres
    rw [Function.update_of_ne hne]
    exact h.slot (d + 1) (by omega)

end Quarrel
