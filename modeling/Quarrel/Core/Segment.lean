import Mathlib.Order.Bounds.Basic
import Mathlib.Order.Lattice.Nat

/-!
# The segment of a set above a bound

`segment c s` are the `n` from `c` on such that `s` has no gap in `(c, n]`. Its
largest element is where a counter stands that starts at `c` and goes up as long as
the next number is in `s`.

* `not_mem_of_isGreatest_segment`: the number after the segment is not in the set.
* `isGreatest_segment_insert`: a new element that is not the next one changes nothing.
* `isGreatest_segment_extend`: the next one, above all others, is the new end.
-/
namespace Quarrel

def segment (c : Nat) (s : Set Nat) : Set Nat := {n | c ≤ n ∧ ∀ k, c < k → k ≤ n → k ∈ s}

variable {c n x : Nat} {s : Set Nat}

theorem self_mem_segment (c : Nat) (s : Set Nat) : c ∈ segment c s :=
  ⟨Nat.le_refl c, fun k h1 h2 => by omega⟩

theorem succ_mem_segment (h : n ∈ segment c s) (hx : n + 1 ∈ s) : n + 1 ∈ segment c s := by
  refine ⟨Nat.le_succ_of_le h.1, fun k h1 h2 => ?_⟩
  by_cases hk : k = n + 1
  · exact hk ▸ hx
  · exact h.2 k h1 (by omega)

theorem isGreatest_segment_empty (c : Nat) : IsGreatest (segment c ∅) c := by
  refine ⟨self_mem_segment c ∅, fun n hn => ?_⟩
  by_contra hlt
  exact hn.2 n (by omega) (Nat.le_refl n)

theorem not_mem_of_isGreatest_segment (h : IsGreatest (segment c s) n) : n + 1 ∉ s := by
  intro hx
  have := h.2 (succ_mem_segment h.1 hx)
  omega

/-- What ends at `n` and has a gap at `n + 1`. -/
theorem isGreatest_segment (h : n ∈ segment c s) (hx : n + 1 ∉ s) : IsGreatest (segment c s) n := by
  refine ⟨h, fun k hk => ?_⟩
  by_contra hlt
  have hc := h.1
  exact hx (hk.2 (n + 1) (by omega) (by omega))

theorem isGreatest_segment_insert (h : IsGreatest (segment c s) n) (hx : x ≠ n + 1) :
    IsGreatest (segment c (insert x s)) n := by
  refine isGreatest_segment ⟨h.1.1, fun k h1 h2 => .inr (h.1.2 k h1 h2)⟩ ?_
  intro hm
  rcases hm with hm | hm
  · exact hx hm.symm
  · exact not_mem_of_isGreatest_segment h hm

theorem isGreatest_segment_extend (h : IsGreatest (segment c s) n) (htop : ∀ k ∈ s, k < n + 1) :
    IsGreatest (segment c (insert (n + 1) s)) (n + 1) := by
  have hmem : n ∈ segment c (insert (n + 1) s) := ⟨h.1.1, fun k h1 h2 => .inr (h.1.2 k h1 h2)⟩
  refine isGreatest_segment (succ_mem_segment hmem (.inl rfl)) ?_
  intro hm
  rcases hm with hm | hm
  · omega
  · have := htop _ hm
    omega

end Quarrel
