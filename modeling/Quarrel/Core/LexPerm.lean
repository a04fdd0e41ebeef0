import Mathlib.Data.List.Perm.Basic

/-!
# Permutations in lexicographic order

`lexPerms l` lists the permutations of a list in the order `next_permutation`
visits them when `l` is sorted: first every permutation that starts with the
first element, then with the second, and so on.
-/
namespace Quarrel

variable {α : Type*} [DecidableEq α]

/-- The permutations of a list of length `n`. -/
def lexPermsLen : Nat → List α → List (List α)
  | 0, _ => [[]]
  | n + 1, l => l.flatMap fun x => (lexPermsLen n (l.erase x)).map (x :: ·)

def lexPerms (l : List α) : List (List α) := lexPermsLen l.length l

theorem perm_of_mem_lexPermsLen :
    ∀ (n : Nat) (l p : List α), l.length = n → p ∈ lexPermsLen n l → p.Perm l
  | 0, l, p, hl, hp => by
    obtain rfl : l = [] := List.length_eq_zero_iff.mp hl
    simp only [lexPermsLen, List.mem_singleton] at hp
    rw [hp]
  | n + 1, l, p, hl, hp => by
    simp only [lexPermsLen, List.mem_flatMap, List.mem_map] at hp
    obtain ⟨x, hx, q, hq, rfl⟩ := hp
    have hlen : (l.erase x).length = n := by rw [List.length_erase_of_mem hx]; omega
    have ih := perm_of_mem_lexPermsLen n (l.erase x) q hlen hq
    exact (ih.cons x).trans (List.perm_cons_erase hx).symm

theorem perm_of_mem_lexPerms {l p : List α} (h : p ∈ lexPerms l) : p.Perm l :=
  perm_of_mem_lexPermsLen l.length l p rfl h

example : lexPerms [0, 1, 2] = [[0, 1, 2], [0, 2, 1], [1, 0, 2], [1, 2, 0], [2, 0, 1], [2, 1, 0]] := by
  decide

end Quarrel
