import Quarrel.Core.Machine
import Mathlib.Data.Nat.ModEq
import Mathlib.Logic.Function.Basic

/-!
# Rings and bounded FIFOs

`Ring n tail l c`: of the `n` cells of `c` those at the residues of `tail`, `tail + 1`, ...
hold the items of `l`, and the others are free. `Fifo` is the queue a ring stands for,
with the number of items taken so far.

* `Ring.push`, `Ring.pop`: writing the cell after the last item, and freeing the first.
* `Ring.read`: the items are read from the cells in order.
* `accepted_eq`: what a bounded FIFO accepted is what it gave back, in order, and what
  it still holds.
-/
namespace Quarrel

variable {α : Type*}

/-- The cells hold `l` from the residue of `tail` on. -/
structure Ring (n tail : Nat) (l : List α) (c : Nat → Option α) : Prop where
  length_le : l.length ≤ n
  item : ∀ i (h : i < l.length), c ((tail + i) % n) = some l[i]
  free : ∀ j, j < n → (∀ i, i < l.length → (tail + i) % n ≠ j) → c j = none

section

variable {n tail : Nat} {l : List α} {x : α} {c : Nat → Option α}

/-- Fewer than `n` steps lead to another residue. -/
theorem residue_ne {i j : Nat} (hij : i < j) (hj : j < i + n) : (tail + i) % n ≠ (tail + j) % n := by
  intro he
  have hdvd : n ∣ (tail + j) - (tail + i) := (Nat.modEq_iff_dvd' (by omega)).mp he
  have := Nat.le_of_dvd (by omega) hdvd
  omega

theorem ring_empty (n tail : Nat) : Ring n tail [] fun _ => (none : Option α) :=
  ⟨Nat.zero_le n, fun _ h => absurd h (Nat.not_lt_zero _), fun _ _ _ => rfl⟩

theorem Ring.next_free (h : Ring n tail l c) (hlt : l.length < n) :
    c ((tail + l.length) % n) = none :=
  h.free _ (Nat.mod_lt _ (by omega)) fun _ hi => residue_ne hi (by omega)

theorem Ring.push (h : Ring n tail l c) (hlt : l.length < n) (x : α) :
    Ring n tail (l ++ [x]) (Function.update c ((tail + l.length) % n) (some x)) := by
  refine ⟨?_, fun i hi => ?_, fun j hj hno => ?_⟩
  · rw [List.length_append, List.length_singleton]
    exact hlt
  · rw [List.length_append, List.length_singleton] at hi
    by_cases hlast : i = l.length
    · subst hlast
      simp
    · have hlt' : i < l.length := by omega
      rw [Function.update_of_ne (residue_ne hlt' (by omega)), h.item i hlt',
        List.getElem_append_left hlt']
  · rw [List.length_append, List.length_singleton] at hno
    rw [Function.update_of_ne (Ne.symm (hno l.length (Nat.lt_succ_self _)))]
    exact h.free j hj fun i hi => hno i (Nat.lt_succ_of_lt hi)

theorem Ring.first (h : Ring n tail (x :: l) c) : c (tail % n) = some x := h.item 0 (Nat.succ_pos _)

theorem Ring.pop (h : Ring n tail (x :: l) c) :
    Ring n (tail + 1) l (Function.update c (tail % n) none) := by
  have hle := h.length_le
  rw [List.length_cons] at hle
  refine ⟨Nat.le_of_succ_le hle, fun i hi => ?_, fun j hj hno => ?_⟩
  · have hne : tail % n ≠ (tail + (i + 1)) % n := residue_ne (Nat.succ_pos i) (by omega)
    rw [show tail + 1 + i = tail + (i + 1) by omega, Function.update_of_ne (Ne.symm hne),
      h.item (i + 1) (Nat.succ_lt_succ hi)]
    rfl
  · by_cases hj0 : j = tail % n
    · rw [hj0, Function.update_self]
    · rw [Function.update_of_ne hj0]
      refine h.free j hj fun i hi => ?_
      cases i with
      | zero => exact Ne.symm hj0
      | succ i =>
        rw [show tail + (i + 1) = tail + 1 + i by omega]
        exact hno i (Nat.lt_of_succ_lt_succ hi)

theorem filterMap_range (l : List α) (f : Nat → Option α) (h : ∀ i (hi : i < l.length), f i = some l[i]) :
    (List.range l.length).filterMap f = l := by
  induction l generalizing f with
  | nil => rfl
  | cons x l ih =>
    rw [List.length_cons, List.range_succ_eq_map, List.filterMap_cons, h 0 (Nat.succ_pos _),
      List.filterMap_map]
    exact congrArg (x :: ·) (ih (f ∘ Nat.succ) fun i hi => h (i + 1) (Nat.succ_lt_succ hi))

theorem Ring.read (h : Ring n tail l c) :
    (List.range l.length).filterMap (fun i => c ((tail + i) % n)) = l :=
  filterMap_range l _ h.item

end

/-! ## The bounded FIFO -/

/-- `taken` is the number of items taken out so far. -/
structure Fifo (α : Type*) where
  items : List α
  taken : Nat

inductive FifoOp (α : Type*) where
  | enqueue (x : α)
  | dequeue
  | size

inductive FifoRet (α : Type*) where
  | accepted
  | full
  | item (x : α)
  | empty
  | size (n : Nat)

namespace Fifo

def empty : Fifo α := ⟨[], 0⟩

/-- The number of items ever accepted. -/
def total (q : Fifo α) : Nat := q.taken + q.items.length

/-- A call on a queue of at most `n` items. -/
def step (n : Nat) (q : Fifo α) : FifoOp α → FifoRet α × Fifo α
  | .enqueue x =>
    if q.items.length = n then (.full, q) else (.accepted, { q with items := q.items ++ [x] })
  | .dequeue =>
    match q.items with
    | [] => (.empty, q)
    | x :: l => (.item x, ⟨l, q.taken + 1⟩)
  | .size => (.size q.items.length, q)

/-- The item a call stored. -/
def stored : FifoOp α → FifoRet α → List α
  | .enqueue x, .accepted => [x]
  | _, _ => []

/-- The item a call took out. -/
def taken1 : FifoRet α → List α
  | .item x => [x]
  | _ => []

/-- The items enqueued with success. -/
def accepted (ops : List (FifoOp α)) (rets : List (FifoRet α)) : List α :=
  (List.zipWith stored ops rets).flatten

/-- The items dequeued. -/
def delivered (rets : List (FifoRet α)) : List α := rets.flatMap taken1

variable {n : Nat}

theorem total_step (q : Fifo α) (op : FifoOp α) : q.total ≤ (q.step n op).2.total := by
  obtain ⟨items, taken⟩ := q
  cases op with
  | enqueue x =>
    simp only [step]
    split
    · exact Nat.le_refl _
    · simp only [total, List.length_append, List.length_singleton]
      omega
  | dequeue =>
    cases items with
    | nil => exact Nat.le_refl _
    | cons x l =>
      simp only [step, total, List.length_cons]
      omega
  | size => exact Nat.le_refl _

theorem total_outputs (q : Fifo α) (ops : List (FifoOp α)) :
    q.total ≤ (Machine.outputs (step n) q ops).2.total := by
  induction ops generalizing q with
  | nil => exact Nat.le_refl _
  | cons op ops ih => exact Nat.le_trans (total_step q op) (ih _)

theorem stored_eq (q : Fifo α) (op : FifoOp α) :
    q.items ++ stored op (q.step n op).1 = taken1 (q.step n op).1 ++ (q.step n op).2.items := by
  obtain ⟨items, taken⟩ := q
  cases op with
  | enqueue x =>
    simp only [step]
    split <;> simp [stored, taken1]
  | dequeue => cases items <;> simp [step, stored, taken1]
  | size => simp [step, stored, taken1]

/-- Nothing is lost, duplicated or reordered. -/
theorem accepted_eq (ops : List (FifoOp α)) (q : Fifo α) :
    q.items ++ accepted ops (Machine.outputs (step n) q ops).1 =
      delivered (Machine.outputs (step n) q ops).1 ++ (Machine.outputs (step n) q ops).2.items := by
  induction ops generalizing q with
  | nil => simp [Machine.outputs, accepted, delivered]
  | cons op ops ih =>
    have hrest := ih (q.step n op).2
    simp only [accepted, delivered] at hrest
    simp only [Machine.outputs, accepted, delivered, List.zipWith_cons_cons, List.flatten_cons,
      List.flatMap_cons]
    rw [← List.append_assoc, stored_eq, List.append_assoc, hrest, List.append_assoc]

end Fifo

end Quarrel
