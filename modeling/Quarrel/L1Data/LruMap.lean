import Mathlib.Data.List.Basic

/-!
# The LRU map (`util/lrumap.hpp`)

`order` is the recency list, most recent first; the index `kv_` only finds
nodes of that list, so `find?` is a search of the list. `Put` evicts at most
one node, the last.

* `find?_put_self`: with a capacity of at least one, a key just put is found.
* `find?_of_put`, `find?_of_getPtr`, `find?_del_ne`, `find?_modify_ne`: no operation
  on one key makes another key appear or change; only eviction makes one disappear.
-/
namespace Quarrel

/-- mirrors util/lrumap.hpp:11-77 -/
structure LruMap (κ ν : Type) where
  maxSize : Nat
  order : List (κ × ν)
  deriving DecidableEq, Repr

namespace LruMap

variable {κ ν : Type} [DecidableEq κ]

def empty (maxSize : Nat) : LruMap κ ν := ⟨maxSize, []⟩

/-- `kv_.find(key)`. -/
def find? (m : LruMap κ ν) (key : κ) : Option ν := (m.order.find? (·.1 = key)).map (·.2)

/-- The list without the node of `key`. -/
def erase (m : LruMap κ ν) (key : κ) : List (κ × ν) := m.order.filter (·.1 ≠ key)

/-- mirrors util/lrumap.hpp:19-33 -/
def put (m : LruMap κ ν) (key : κ) (value : ν) : LruMap κ ν :=
  let order := (key, value) :: m.erase key
  { m with order := if order.length > m.maxSize then order.dropLast else order }

/-- The value, and the map with its node moved to the front.
mirrors util/lrumap.hpp:44-52 -/
def getPtr (m : LruMap κ ν) (key : κ) : Option (ν × LruMap κ ν) :=
  (m.find? key).map fun v => (v, { m with order := (key, v) :: m.erase key })

/-- mirrors util/lrumap.hpp:54-61 -/
def del (m : LruMap κ ν) (key : κ) : LruMap κ ν := { m with order := m.erase key }

/-- A write through the pointer `GetPtr` returned. -/
def modify (m : LruMap κ ν) (key : κ) (f : ν → ν) : LruMap κ ν :=
  { m with order := m.order.map fun p => if p.1 = key then (p.1, f p.2) else p }

/-- mirrors util/lrumap.hpp:63-66 -/
def clear (m : LruMap κ ν) : LruMap κ ν := { m with order := [] }

@[simp] theorem find?_empty (n : Nat) (k : κ) : (empty n : LruMap κ ν).find? k = none := rfl

theorem getPtr_eq_none {m : LruMap κ ν} {k : κ} : m.getPtr k = none ↔ m.find? k = none := by
  simp [getPtr]

theorem getPtr_eq_some {m m' : LruMap κ ν} {k : κ} {v : ν} (h : m.getPtr k = some (v, m')) :
    m.find? k = some v ∧ m' = { m with order := (k, v) :: m.erase k } := by
  simp only [getPtr, Option.map_eq_some_iff, Prod.mk.injEq] at h
  obtain ⟨w, hw, rfl, rfl⟩ := h
  exact ⟨hw, rfl⟩

theorem find?_erase_ne (l : List (κ × ν)) {k k' : κ} (h : k' ≠ k) :
    (l.filter (·.1 ≠ k)).find? (·.1 = k') = l.find? (·.1 = k') := by
  rw [List.find?_filter]
  congr 1
  funext p
  by_cases hp : p.1 = k' <;> simp [hp, h]

theorem find?_of_dropLast {α : Type} {l : List α} {p : α → Bool} {x : α}
    (h : l.dropLast.find? p = some x) : l.find? p = some x := by
  rw [List.dropLast_eq_take] at h
  have hl := List.take_append_drop (l.length - 1) l
  rw [← hl, List.find?_append, h]
  rfl

theorem find?_put_self (m : LruMap κ ν) (k : κ) (v : ν) (hpos : 0 < m.maxSize) :
    (m.put k v).find? k = some v := by
  simp only [put, find?]
  split
  · rename_i hgt
    cases he : m.erase k with
    | nil => rw [he] at hgt; simp at hgt; omega
    | cons p rest => simp
  · simp

theorem find?_of_put {m : LruMap κ ν} {k k' : κ} {v w : ν} (hne : k' ≠ k)
    (h : (m.put k v).find? k' = some w) : m.find? k' = some w := by
  have hfull : (((k, v) :: m.erase k).find? (·.1 = k')).map (·.2) = some w → m.find? k' = some w := by
    intro hf
    rw [List.find?_cons_of_neg (by simpa using Ne.symm hne), erase, find?_erase_ne _ hne] at hf
    exact hf
  simp only [put, find?] at h
  split at h
  · simp only [Option.map_eq_some_iff] at h
    obtain ⟨p, hp, rfl⟩ := h
    exact hfull (by rw [find?_of_dropLast hp]; rfl)
  · exact hfull h

theorem find?_put_eq {m : LruMap κ ν} {k : κ} {v w : ν} (h : (m.put k v).find? k = some w) :
    w = v := by
  have hhead : (((k, v) :: m.erase k).find? (·.1 = k)) = some (k, v) :=
    List.find?_cons_of_pos (by simp)
  simp only [put, find?, Option.map_eq_some_iff] at h
  obtain ⟨p, hp, rfl⟩ := h
  split at hp
  · rw [find?_of_dropLast hp] at hhead
    rw [Option.some.inj hhead]
  · rw [hhead] at hp
    rw [← Option.some.inj hp]

@[simp] theorem find?_del_self (m : LruMap κ ν) (k : κ) : (m.del k).find? k = none := by
  simp [del, find?, erase]

theorem find?_del_ne (m : LruMap κ ν) {k k' : κ} (h : k' ≠ k) :
    (m.del k).find? k' = m.find? k' := by
  simp only [del, find?, erase]
  rw [find?_erase_ne _ h]

theorem find?_of_getPtr {m m' : LruMap κ ν} {k : κ} {v : ν}
    (h : m.getPtr k = some (v, m')) (k' : κ) :
    m'.find? k' = m.find? k' := by
  obtain ⟨hf, rfl⟩ := getPtr_eq_some h
  by_cases hk : k' = k
  · subst hk; rw [hf]; simp [find?]
  · simp only [find?]
    rw [List.find?_cons_of_neg (by simpa using Ne.symm hk), erase, find?_erase_ne _ hk]

@[simp] theorem find?_modify_self (m : LruMap κ ν) (k : κ) (f : ν → ν) :
    (m.modify k f).find? k = (m.find? k).map f := by
  simp only [modify, find?, List.find?_map, Option.map_map]
  have hp : ((fun x : κ × ν => decide (x.1 = k)) ∘ fun p : κ × ν => if p.1 = k then (p.1, f p.2) else p) =
      fun p : κ × ν => decide (p.1 = k) := by
    funext p
    by_cases h : p.1 = k <;> simp [h]
  rw [hp]
  cases hf : m.order.find? (fun p => decide (p.1 = k)) with
  | none => rfl
  | some p =>
    have hk : p.1 = k := by simpa using List.find?_some hf
    simp [hk]

theorem find?_modify_ne (m : LruMap κ ν) {k k' : κ} (f : ν → ν) (hne : k' ≠ k) :
    (m.modify k f).find? k' = m.find? k' := by
  simp only [modify, find?, List.find?_map, Option.map_map]
  have hp : ((fun x : κ × ν => decide (x.1 = k')) ∘ fun p : κ × ν => if p.1 = k then (p.1, f p.2) else p) =
      fun p : κ × ν => decide (p.1 = k') := by
    funext p
    by_cases h : p.1 = k <;> simp [h]
  rw [hp]
  cases hf : m.order.find? (fun p => decide (p.1 = k')) with
  | none => rfl
  | some p =>
    have hk : p.1 = k' := by simpa using List.find?_some hf
    simp [hk, hne]

end LruMap
end Quarrel
