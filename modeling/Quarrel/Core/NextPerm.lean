import Quarrel.Core.LexPerm
import Mathlib.Data.List.Chain
import Mathlib.Data.List.Nodup
import Mathlib.Algebra.BigOperators.Group.List.Basic
import Mathlib.Data.Nat.Factorial.Basic
import Mathlib.Data.Nat.Count
import Mathlib.Order.Basic

/-!
# The next permutation

`nextPerm` is the step of `std::next_permutation`: it moves the rightmost
element that has a greater one behind it, to the least of those, and puts the
rest in increasing order. From a list in increasing order it visits
`lexPerms` and stops at its end (`lexPerms_walks`). `lexPerms` has every
permutation (`mem_lexPerms`, `length_lexPerms`), and every element stands at
every place in `(n - 1)!` of them (`countP_lexPerms`).
-/
namespace Quarrel

variable {α : Type*} [LinearOrder α]

/-- `none` after the last permutation. Where the tail has no next permutation it
is in decreasing order, so that its reverse is in increasing order. -/
def nextPerm : List α → Option (List α)
  | [] => none
  | x :: l =>
    match nextPerm l with
    | some l' => some (x :: l')
    | none =>
      match l.reverse.find? (x < ·) with
      | none => none
      | some y => some (y :: l.reverse.replace y x)

theorem nextPerm_cons_some {l l' : List α} (x : α) (h : nextPerm l = some l') :
    nextPerm (x :: l) = some (x :: l') := by
  rw [nextPerm, h]

theorem nextPerm_cons_none {l : List α} (x : α) (h : nextPerm l = none) :
    nextPerm (x :: l) = (l.reverse.find? (x < ·)).map fun y => y :: l.reverse.replace y x := by
  rw [nextPerm, h]
  cases l.reverse.find? (x < ·) <;> rfl

theorem nextPerm_eq_none : ∀ {l : List α}, l.Pairwise (· > ·) → nextPerm l = none
  | [], _ => rfl
  | x :: l, h => by
    obtain ⟨hx, hl⟩ := List.pairwise_cons.mp h
    have hfind : l.reverse.find? (x < ·) = none :=
      List.find?_eq_none.mpr fun y hy => by simpa using (hx y (List.mem_reverse.mp hy)).le
    rw [nextPerm_cons_none x (nextPerm_eq_none hl), hfind]
    rfl

theorem nextPerm_lt : ∀ {p q : List α}, nextPerm p = some q → p < q
  | [], _, h => by cases h
  | x :: l, q, h => by
    cases hl : nextPerm l with
    | some l' =>
      rw [nextPerm_cons_some x hl] at h
      cases h
      exact List.cons_lt_cons_iff.mpr (.inr ⟨rfl, nextPerm_lt hl⟩)
    | none =>
      rw [nextPerm_cons_none x hl, Option.map_eq_some_iff] at h
      obtain ⟨y, hy, rfl⟩ := h
      exact List.cons_lt_cons_iff.mpr (.inl (by simpa using List.find?_some hy))

/-- From the last list that starts with `x` to the first one that starts with
`y`, the element after `x`. -/
theorem nextPerm_step {a b : List α} {x y : α} (h : (a ++ x :: y :: b).Pairwise (· < ·)) :
    nextPerm (x :: ((a ++ x :: y :: b).erase x).reverse) = some (y :: (a ++ x :: y :: b).erase y) := by
  obtain ⟨ha, hxy, hcross⟩ := List.pairwise_append.mp h
  have hx : x ∉ a := fun hm => lt_irrefl x (hcross x hm x List.mem_cons_self)
  have hy : y ∉ a := fun hm => lt_irrefl y (hcross y hm y (by simp))
  have hlt : x < y := List.rel_of_pairwise_cons hxy List.mem_cons_self
  have herase : (a ++ x :: y :: b).erase x = a ++ y :: b := by
    rw [List.erase_append_right _ hx, List.erase_cons_head]
  have herase' : (a ++ x :: y :: b).erase y = a ++ x :: b := by
    rw [List.erase_append_right _ hy, List.erase_cons_tail (by simpa using hlt.ne), List.erase_cons_head]
  have hnone : nextPerm (a ++ y :: b).reverse = none := by
    refine nextPerm_eq_none (List.pairwise_reverse.mpr (h.sublist ?_))
    exact (List.sublist_cons_self x _).append_left a
  have hfind : (a ++ y :: b).find? (x < ·) = some y := by
    have hskip : a.find? (x < ·) = none :=
      List.find?_eq_none.mpr fun z hz => by simpa using (hcross z hz x List.mem_cons_self).le
    rw [List.find?_append, hskip, List.find?_cons_of_pos (by simpa using hlt)]
    rfl
  have hreplace : (a ++ y :: b).replace y x = a ++ x :: b := by
    rw [List.replace_append_right hy, List.replace_cons_self]
  rw [herase, herase', nextPerm_cons_none x hnone, List.reverse_reverse, hfind, Option.map_some, hreplace]

/-- `L` is what the steps visit from `l` on, to the end. -/
structure Walks (L : List (List α)) (l : List α) : Prop where
  head : L.head? = some l
  chain : L.IsChain fun p q => nextPerm p = some q
  last : L.getLast? = some l.reverse

theorem lexPermsLen_ne_nil : ∀ (n : Nat) {l : List α}, l.length = n → lexPermsLen n l ≠ []
  | 0, _, _ => by simp [lexPermsLen]
  | n + 1, [], h => by simp at h
  | n + 1, z :: t, h => by
    have ih := lexPermsLen_ne_nil n (l := t) (by simpa using h)
    simp [lexPermsLen, ih]

theorem lexPermsLen_walks : ∀ (n : Nat) {l : List α}, l.length = n → l.Pairwise (· < ·) →
    Walks (lexPermsLen n l) l
  | 0, l, hl, _ => by
    obtain rfl : l = [] := List.length_eq_zero_iff.mp hl
    exact ⟨rfl, List.isChain_singleton _, rfl⟩
  | n + 1, l, hl, hsorted => by
    have hlen : ∀ x ∈ l, (l.erase x).length = n := fun x hx => by
      rw [List.length_erase_of_mem hx]; omega
    have block : ∀ x ∈ l, Walks (lexPermsLen n (l.erase x)) (l.erase x) := fun x hx =>
      lexPermsLen_walks n (hlen x hx) (hsorted.sublist List.erase_sublist)
    refine ⟨?_, ?_, ?_⟩
    · obtain ⟨z, t, rfl⟩ := List.exists_cons_of_length_eq_add_one hl
      rw [lexPermsLen, List.flatMap_cons, List.head?_append, List.head?_map,
        (block z List.mem_cons_self).head, List.erase_cons_head]
      rfl
    · rw [lexPermsLen, List.flatMap, List.isChain_flatten]
      · refine ⟨fun b hb => ?_, ?_⟩
        · obtain ⟨x, hx, rfl⟩ := List.mem_map.mp hb
          rw [List.isChain_map]
          exact (block x hx).chain.imp fun p q h => nextPerm_cons_some x h
        · rw [List.isChain_map, List.isChain_iff_forall_rel_of_append_cons_cons]
          rintro x y a b rfl p hp q hq
          rw [List.getLast?_map, (block x (by simp)).last] at hp
          rw [List.head?_map, (block y (by simp)).head] at hq
          cases hp
          cases hq
          exact nextPerm_step hsorted
      · intro hnil
        obtain ⟨x, hx, h⟩ := List.mem_map.mp hnil
        exact lexPermsLen_ne_nil n (hlen x hx) (List.map_eq_nil_iff.mp h)
    · obtain rfl | ⟨s, w, rfl⟩ := List.eq_nil_or_concat l
      · simp at hl
      rw [List.concat_eq_append] at *
      have hw : w ∉ s := fun hm => by
        have := (List.pairwise_append.mp hsorted).2.2 w hm w List.mem_cons_self
        exact lt_irrefl w this
      rw [lexPermsLen, List.flatMap_append, List.getLast?_append, List.flatMap_singleton, List.getLast?_map,
        (block w (by simp)).last, List.erase_append_right _ hw, List.erase_cons_head]
      simp

theorem lexPerms_walks {l : List α} (h : l.Pairwise (· < ·)) : Walks (lexPerms l) l :=
  lexPermsLen_walks l.length rfl h

/-! ## Every permutation, once -/

theorem mem_lexPermsLen : ∀ (n : Nat) {l p : List α}, l.length = n → p.Perm l → p ∈ lexPermsLen n l
  | 0, l, p, hl, h => by
    obtain rfl : l = [] := List.length_eq_zero_iff.mp hl
    rw [h.eq_nil]
    exact List.mem_singleton_self []
  | n + 1, l, [], hl, h => by
    obtain rfl := h.nil_eq
    cases hl
  | n + 1, l, x :: q, hl, h => by
    obtain ⟨hx, hq⟩ := List.cons_perm_iff_perm_erase.mp h
    have hlen : (l.erase x).length = n := by rw [List.length_erase_of_mem hx]; omega
    exact List.mem_flatMap.mpr ⟨x, hx, List.mem_map_of_mem (mem_lexPermsLen n hlen hq)⟩

theorem mem_lexPerms {l p : List α} : p ∈ lexPerms l ↔ p.Perm l :=
  ⟨perm_of_mem_lexPerms, mem_lexPermsLen l.length rfl⟩

theorem length_lexPermsLen : ∀ (n : Nat) {l : List α}, l.length = n → (lexPermsLen n l).length = n.factorial
  | 0, _, _ => rfl
  | n + 1, l, hl => by
    have hblock : ∀ x ∈ l, ((lexPermsLen n (l.erase x)).map (x :: ·)).length = n.factorial := fun x hx => by
      rw [List.length_map]
      exact length_lexPermsLen n (by rw [List.length_erase_of_mem hx]; omega)
    rw [lexPermsLen, List.length_flatMap, List.map_congr_left hblock, List.map_const', List.sum_const_nat,
      hl, Nat.factorial_succ]

theorem length_lexPerms (l : List α) : (lexPerms l).length = l.length.factorial :=
  length_lexPermsLen l.length rfl

theorem countP_flatMap_erase {β : Type*} {g : α → List β} {q : β → Bool} {l : List α} {y : α} {c : Nat}
    (hy : y ∈ l) (h : ∀ x ∈ l.erase y, (g x).countP q = c) :
    (l.flatMap g).countP q = (g y).countP q + (l.erase y).length * c := by
  have hrest : (l.erase y).map (List.countP q ∘ g) = (l.erase y).map fun _ => c := List.map_congr_left h
  rw [List.countP_flatMap, ← List.sum_map_erase _ hy, hrest, List.map_const', List.sum_const_nat]
  rfl

theorem countP_lexPermsLen : ∀ (n : Nat) {l : List α} {j : Nat} {y : α}, l.length = n + 1 → l.Nodup → j ≤ n →
    y ∈ l → (lexPermsLen (n + 1) l).countP (fun p => p[j]? = some y) = n.factorial
  | n, l, 0, y, hl, hnd, _, hy => by
    have hrest : ∀ x ∈ l.erase y, ((lexPermsLen n (l.erase x)).map (x :: ·)).countP
        (fun p => p[0]? = some y) = 0 := fun x hx => by
      have hne : x ≠ y := fun he => hnd.not_mem_erase (he ▸ hx)
      rw [List.countP_eq_zero]
      intro p hp
      obtain ⟨q, -, rfl⟩ := List.mem_map.mp hp
      simpa using hne
    have hfirst : ((lexPermsLen n (l.erase y)).map (y :: ·)).countP (fun p => p[0]? = some y) =
        n.factorial := by
      have hall : ∀ p ∈ (lexPermsLen n (l.erase y)).map (y :: ·),
          (decide (p[0]? = some y)) = true := fun p hp => by
        obtain ⟨q, -, rfl⟩ := List.mem_map.mp hp
        simp
      rw [List.countP_eq_length.mpr hall, List.length_map]
      exact length_lexPermsLen n (by rw [List.length_erase_of_mem hy]; omega)
    rw [lexPermsLen, countP_flatMap_erase hy hrest, hfirst, Nat.mul_zero, Nat.add_zero]
  | n + 1, l, j + 1, y, hl, hnd, hj, hy => by
    have hlen : ∀ x ∈ l, (l.erase x).length = n + 1 := fun x hx => by
      rw [List.length_erase_of_mem hx]; omega
    have hfirst : ((lexPermsLen (n + 1) (l.erase y)).map (y :: ·)).countP
        (fun p => p[j + 1]? = some y) = 0 := by
      rw [List.countP_eq_zero]
      intro p hp
      obtain ⟨q, hq, rfl⟩ := List.mem_map.mp hp
      have hperm := perm_of_mem_lexPermsLen (n + 1) _ q (hlen y hy) hq
      have hnot : y ∉ q := fun hm => hnd.not_mem_erase (hperm.mem_iff.mp hm)
      simp only [List.getElem?_cons_succ, decide_eq_true_eq]
      exact fun he => hnot (List.mem_of_getElem? he)
    have hrest : ∀ x ∈ l.erase y, ((lexPermsLen (n + 1) (l.erase x)).map (x :: ·)).countP
        (fun p => p[j + 1]? = some y) = n.factorial := fun x hx => by
      have hne : x ≠ y := fun he => hnd.not_mem_erase (he ▸ hx)
      have hxl := List.mem_of_mem_erase hx
      rw [List.countP_map]
      exact countP_lexPermsLen n (hlen x hxl) (hnd.erase x) (by omega)
        ((List.mem_erase_of_ne hne.symm).mpr hy)
    rw [lexPermsLen, countP_flatMap_erase hy hrest, hfirst, hlen y hy, Nat.zero_add, Nat.factorial_succ]

theorem countP_lexPerms {l : List α} {j : Nat} {y : α} (h : l.Nodup) (hj : j < l.length) (hy : y ∈ l) :
    (lexPerms l).countP (fun p => p[j]? = some y) = (l.length - 1).factorial := by
  obtain ⟨n, hn⟩ : ∃ n, l.length = n + 1 := ⟨l.length - 1, by omega⟩
  rw [lexPerms, hn]
  exact countP_lexPermsLen n hn h (by omega) hy

/-- Counting the places of a list, or its elements. -/
theorem count_getElem? {β : Type*} (q : β → Bool) : ∀ L : List β,
    Nat.count (fun i => (L[i]?).any q = true) L.length = L.countP q
  | [] => rfl
  | x :: L => by
    rw [List.length_cons, Nat.count_succ', List.countP_cons]
    simp only [List.getElem?_cons_succ, List.getElem?_cons_zero, Option.any_some]
    rw [count_getElem? q L]

end Quarrel
