import Quarrel.Core.Ring
import Mathlib.Algebra.BigOperators.Group.Finset.Basic
import Mathlib.Data.Fintype.BigOperators
import Mathlib.Data.Nat.Count

/-!
# Counting threads, tickets and items

Finitely many threads, each at one location; tickets dealt out to the cells of a ring; and
the items in an array of cells.

* `sum_update`, `census_update`: what a thread that moves changes in a measure, and in the
  count of a location.
* `count_window`: of `n` tickets in a row at most one is for a cell.
* `sum_count`: each ticket is for one cell.
* `perm_set`, `length_filterMap`: what writing one cell changes in the items; their number.
-/
namespace Quarrel

variable {θ α β : Type*}

section

variable [Fintype θ] {P : β → Prop} [DecidablePred P]

/-- The number of threads at a location in `P`. -/
def census (P : β → Prop) [DecidablePred P] (pc : θ → β) : Nat :=
  (Finset.univ.filter fun i => P (pc i)).card

theorem census_pos {pc : θ → β} : 0 < census P pc ↔ ∃ i, P (pc i) := by
  rw [census, Finset.card_pos]
  constructor
  · rintro ⟨i, hi⟩
    exact ⟨i, (Finset.mem_filter.mp hi).2⟩
  · rintro ⟨i, hi⟩
    exact ⟨i, Finset.mem_filter.mpr ⟨Finset.mem_univ i, hi⟩⟩

theorem census_zero {pc : θ → β} (h : ∀ i, ¬ P (pc i)) : census P pc = 0 := by
  by_contra hne
  obtain ⟨i, hi⟩ := census_pos.mp (Nat.pos_of_ne_zero hne)
  exact h i hi

theorem census_unique {pc : θ → β} (h : census P pc ≤ 1) {i k : θ} (hi : P (pc i)) (hk : P (pc k)) :
    i = k :=
  Finset.card_le_one.mp h i (Finset.mem_filter.mpr ⟨Finset.mem_univ i, hi⟩) k
    (Finset.mem_filter.mpr ⟨Finset.mem_univ k, hk⟩)

theorem sum_update [DecidableEq θ] (f : β → Nat) (pc : θ → β) (i : θ) (b : β) :
    ∑ k, f (Function.update pc i b k) + f (pc i) = ∑ k, f (pc k) + f b := by
  have hsplit : ∀ g : θ → β, ∑ k, f (g k) = f (g i) + ∑ k ∈ Finset.univ.erase i, f (g k) := fun g =>
    (Finset.add_sum_erase _ (fun k => f (g k)) (Finset.mem_univ i)).symm
  have hrest : ∑ k ∈ Finset.univ.erase i, f (Function.update pc i b k) =
      ∑ k ∈ Finset.univ.erase i, f (pc k) :=
    Finset.sum_congr rfl fun k hk => by rw [Function.update_of_ne (Finset.ne_of_mem_erase hk)]
  rw [hsplit (Function.update pc i b), hsplit pc, hrest, Function.update_self]
  omega

theorem sum_update_lt [DecidableEq θ] (f : β → Nat) (pc : θ → β) {i : θ} {b : β} (h : f b < f (pc i)) :
    ∑ k, f (Function.update pc i b k) < ∑ k, f (pc k) := by
  have := sum_update f pc i b
  omega

theorem census_update [DecidableEq θ] (pc : θ → β) (i : θ) (b : β) :
    census P (Function.update pc i b) + (if P (pc i) then 1 else 0) =
      census P pc + if P b then 1 else 0 := by
  have h := sum_update (fun b => if P b then 1 else 0) pc i b
  rwa [← Finset.card_filter, ← Finset.card_filter] at h

end

theorem count_window (n t j : Nat) :
    Nat.count (· % n = j) (t + n) ≤ Nat.count (· % n = j) t + 1 := by
  rw [Nat.count_add, Nat.count_eq_card_filter_range (fun k => (t + k) % n = j)]
  refine Nat.add_le_add_left (Finset.card_le_one.mpr fun a ha b hb => ?_) _
  obtain ⟨han, haj⟩ := Finset.mem_filter.mp ha
  obtain ⟨hbn, hbj⟩ := Finset.mem_filter.mp hb
  rw [Finset.mem_range] at han hbn
  rcases Nat.lt_trichotomy a b with hlt | heq | hlt
  · exact absurd (haj.trans hbj.symm) (residue_ne hlt (by omega))
  · exact heq
  · exact absurd (hbj.trans haj.symm) (residue_ne hlt (by omega))

open scoped List in
/-- Where one cell is written, what it held goes and what it holds comes. -/
theorem perm_set (g : α → Option β) {l : List α} {n : Nat} {x : α} (y : α) (h : l[n]? = some x) :
    ((l.set n y).filterMap g ++ (g x).toList).Perm (l.filterMap g ++ (g y).toList) := by
  have hcons : ∀ (z : α) (l' : List α), (z :: l').filterMap g = (g z).toList ++ l'.filterMap g :=
    fun z l' => by cases hz : g z <;> simp [hz]
  induction l generalizing n with
  | nil => cases h
  | cons z l ih =>
    cases n with
    | zero =>
      obtain rfl := Option.some.inj h
      rw [List.set_cons_zero, hcons, hcons]
      calc (g y).toList ++ l.filterMap g ++ (g z).toList
        _ ~ (g z).toList ++ ((g y).toList ++ l.filterMap g) := List.perm_append_comm
        _ ~ (g z).toList ++ (l.filterMap g ++ (g y).toList) := List.perm_append_comm.append_left _
        _ = (g z).toList ++ l.filterMap g ++ (g y).toList := (List.append_assoc ..).symm
    | succ n =>
      rw [List.set_cons_succ, hcons, hcons, List.append_assoc, List.append_assoc]
      exact (ih h).append_left _

theorem length_filterMap (g : α → Option β) (l : List α) :
    (l.filterMap g).length = ∑ j ∈ Finset.range l.length, (l[j]?.bind g).toList.length := by
  induction l with
  | nil => rfl
  | cons x l ih =>
    rw [List.length_cons, Finset.sum_range_succ']
    simp only [List.getElem?_cons_succ, List.getElem?_cons_zero, Option.bind_some, ← ih]
    cases hx : g x <;> simp [hx]

theorem sum_count {n k : Nat} (hn : 0 < n) (hk : n ≤ k) (m : Nat) :
    ∑ j ∈ Finset.range k, Nat.count (· % n = j) m = m := by
  induction m with
  | zero => simp
  | succ m ih =>
    have hcell : m % n ∈ Finset.range k := Finset.mem_range.mpr (Nat.lt_of_lt_of_le (Nat.mod_lt m hn) hk)
    simp only [Nat.count_succ, Finset.sum_add_distrib, ih, Finset.sum_ite_eq, hcell, if_true]

end Quarrel
