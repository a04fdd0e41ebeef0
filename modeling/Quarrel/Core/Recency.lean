import Mathlib.Data.List.Nodup

/-!
# Recency lists

A list of keys and values, the most recently used first. `touch` puts a key to the
front, `put n` keeps the first `n` after it.

* `cache_put`, `cache_touch`, `cache_erase`: the keys stay distinct and at most `n`.
* `find?_put_of`, `find?_touch`, `find?_erase_ne`: what the others find does not change.
-/
namespace Quarrel.Recency

variable {κ ν : Type*} [DecidableEq κ]

def find? (l : List (κ × ν)) (k : κ) : Option ν := (l.find? (·.1 = k)).map (·.2)

/-- The list without the key. -/
def erase (l : List (κ × ν)) (k : κ) : List (κ × ν) := l.filter (·.1 ≠ k)

/-- The key with its value in front. -/
def touch (l : List (κ × ν)) (k : κ) (v : ν) : List (κ × ν) := (k, v) :: erase l k

/-- The `n` most recent keys after `k` was put. -/
def put (n : Nat) (l : List (κ × ν)) (k : κ) (v : ν) : List (κ × ν) := (touch l k v).take n

/-- At most `n` keys, all distinct. -/
structure Cache (n : Nat) (l : List (κ × ν)) : Prop where
  nodup : (l.map Prod.fst).Nodup
  length_le : l.length ≤ n

variable {n : Nat} {l : List (κ × ν)} {k k' : κ} {v w : ν}

theorem find?_eq_none : find? l k = none ↔ k ∉ l.map Prod.fst := by
  simp only [find?, Option.map_eq_none_iff, List.find?_eq_none, decide_eq_true_eq, List.mem_map,
    not_exists, not_and]

theorem find?_isSome : (find? l k).isSome ↔ k ∈ l.map Prod.fst := by
  rw [Option.isSome_iff_ne_none, ne_eq, find?_eq_none, not_not]

theorem find?_of_mem (hn : (l.map Prod.fst).Nodup) (h : (k, v) ∈ l) : find? l k = some v := by
  induction l with
  | nil => cases h
  | cons p l ih =>
    rw [List.map_cons, List.nodup_cons] at hn
    rcases List.mem_cons.mp h with rfl | h
    · simp [find?]
    · have hne : p.1 ≠ k := fun he => hn.1 (List.mem_map.mpr ⟨(k, v), h, he.symm⟩)
      unfold find?
      rw [List.find?_cons_of_neg (by simpa using hne)]
      exact ih hn.2 h

theorem erase_of_none (h : find? l k = none) : erase l k = l := by
  refine List.filter_eq_self.mpr fun p hp => ?_
  have hne : p.1 ≠ k := by
    rintro rfl
    exact find?_eq_none.mp h (List.mem_map_of_mem hp)
  simpa using hne

theorem nodup_erase (hn : (l.map Prod.fst).Nodup) : ((erase l k).map Prod.fst).Nodup :=
  hn.sublist (List.filter_sublist.map Prod.fst)

theorem not_mem_erase : k ∉ (erase l k).map Prod.fst := by
  simp [erase]

theorem nodup_touch (hn : (l.map Prod.fst).Nodup) : ((touch l k v).map Prod.fst).Nodup :=
  List.nodup_cons.mpr ⟨not_mem_erase, nodup_erase hn⟩

theorem length_erase_le : (erase l k).length ≤ l.length := List.length_filter_le _ _

theorem length_erase_lt (h : k ∈ l.map Prod.fst) : (erase l k).length < l.length := by
  obtain ⟨p, hp, rfl⟩ := List.mem_map.mp h
  exact List.length_filter_lt_length_iff_exists.mpr ⟨p, hp, by simp⟩

omit [DecidableEq κ] in
theorem cache_nil : Cache n ([] : List (κ × ν)) := ⟨List.nodup_nil, Nat.zero_le n⟩

theorem cache_put (h : Cache n l) : Cache n (put n l k v) :=
  ⟨(nodup_touch h.nodup).sublist ((List.take_sublist _ _).map Prod.fst), List.length_take_le n _⟩

theorem cache_touch (h : Cache n l) (hk : find? l k = some w) : Cache n (touch l k v) := by
  have hlt := length_erase_lt (find?_isSome.mp (Option.isSome_iff_exists.mpr ⟨w, hk⟩))
  refine ⟨nodup_touch h.nodup, ?_⟩
  show (erase l k).length + 1 ≤ n
  exact Nat.le_trans hlt h.length_le

theorem cache_erase (h : Cache n l) : Cache n (erase l k) :=
  ⟨nodup_erase h.nodup, Nat.le_trans length_erase_le h.length_le⟩

/-! ## Finding -/

theorem find?_erase_self : find? (erase l k) k = none := find?_eq_none.mpr not_mem_erase

theorem find?_erase_ne (h : k' ≠ k) : find? (erase l k) k' = find? l k' := by
  unfold find? erase
  rw [List.find?_filter]
  congr 2
  funext p
  by_cases hp : p.1 = k' <;> simp [hp, h]

theorem find?_touch_self : find? (touch l k v) k = some v := by
  simp [find?, touch]

theorem find?_touch_ne (h : k' ≠ k) : find? (touch l k v) k' = find? l k' := by
  rw [← find?_erase_ne (l := l) h]
  unfold find? touch
  rw [List.find?_cons_of_neg (by simpa using Ne.symm h)]

/-- A key that is there finds the same after it was moved to the front. -/
theorem find?_touch (h : find? l k = some v) : find? (touch l k v) k' = find? l k' := by
  by_cases hk : k' = k
  · rw [hk, find?_touch_self, h]
  · exact find?_touch_ne hk

theorem find?_of_take (h : find? (l.take n) k = some v) : find? l k = some v := by
  obtain ⟨p, hp, rfl⟩ := Option.map_eq_some_iff.mp h
  unfold find?
  rw [← List.take_append_drop n l, List.find?_append, hp]
  rfl

theorem find?_put_of (h : find? (put n l k v) k' = some w) :
    (k' = k ∧ w = v) ∨ (k' ≠ k ∧ find? l k' = some w) := by
  have ht := find?_of_take h
  by_cases hk : k' = k
  · rw [hk, find?_touch_self] at ht
    exact .inl ⟨hk, (Option.some.inj ht).symm⟩
  · rw [find?_touch_ne hk] at ht
    exact .inr ⟨hk, ht⟩

end Quarrel.Recency
