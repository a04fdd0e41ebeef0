import Quarrel.Core.Machine
import Quarrel.Core.Recency
import Quarrel.L1Data.LruMap
import Mathlib.Data.Finmap

/-!
# The list and the index of the LRU map (`util/lrumap.hpp`)

`LruMap` keeps its nodes in a list and, in `kv_`, an iterator to the node of each key.
An iterator is the address of its node here. The list and the index are updated one
after the other, as in the source: `Put` inserts the new node before it erases the old
one, and evicts through the last node's key.

* `Linked`: the index holds the address of the one node of each key, and nothing else.
* `refines_step`: with linked nodes, a call is one on a recency list.
* `lruMap_refines`: so is any sequence of calls.
* `view_put`, `view_getPtr`, `view_del`: the map the plog cache uses is this one, with
  the index left out.
-/
namespace Quarrel

/-- A node of `order_`. -/
structure LruNode (κ ν : Type) where
  addr : Nat
  key : κ
  value : ν

/-- `fresh` is an address no node has had.
mirrors util/lrumap.hpp:11-18,71-76 -/
structure LruTable (κ ν : Type) where
  maxSize : Nat
  order : List (LruNode κ ν)
  kv : Finmap fun _ : κ => Nat
  fresh : Nat

namespace LruTable

variable {κ ν : Type} [DecidableEq κ]

def empty (maxSize : Nat) : LruTable κ ν := ⟨maxSize, [], ∅, 0⟩

/-- `order_.begin()` is put into the index for `key`. -/
def indexBegin (kv : Finmap fun _ : κ => Nat) (key : κ) : List (LruNode κ ν) → Finmap fun _ : κ => Nat
  | [] => kv
  | node :: _ => kv.insert key node.addr

/-- mirrors util/lrumap.hpp:19-33 -/
def put (m : LruTable κ ν) (key : κ) (value : ν) : LruTable κ ν :=
  let it := m.kv.lookup key
  let order := ⟨m.fresh, key, value⟩ :: m.order
  let order := match it with
    | some a => order.filter (·.addr ≠ a)
    | none => order
  let kv := indexBegin m.kv key order
  if kv.keys.card > m.maxSize then
    match order.getLast? with
    | some last => { m with order := order.dropLast, kv := kv.erase last.key, fresh := m.fresh + 1 }
    | none => { m with order := order, kv := kv, fresh := m.fresh + 1 }
  else { m with order := order, kv := kv, fresh := m.fresh + 1 }

/-- The value of the node, which has been spliced to the front.
mirrors util/lrumap.hpp:44-52 -/
def getPtr (m : LruTable κ ν) (key : κ) : Option ν × LruTable κ ν :=
  match m.kv.lookup key with
  | none => (none, m)
  | some a =>
    ((m.order.find? (·.addr = a)).map (·.value),
      { m with order := m.order.filter (·.addr = a) ++ m.order.filter (·.addr ≠ a) })

/-- mirrors util/lrumap.hpp:35-42 -/
def get (m : LruTable κ ν) (key : κ) : Except String ν × LruTable κ ν :=
  match m.getPtr key with
  | (none, m) => (.error "key not exists", m)
  | (some v, m) => (.ok v, m)

/-- mirrors util/lrumap.hpp:54-61 -/
def del (m : LruTable κ ν) (key : κ) : Bool × LruTable κ ν :=
  match m.kv.lookup key with
  | none => (false, m)
  | some a => (true, { m with order := m.order.filter (·.addr ≠ a), kv := m.kv.erase key })

/-- mirrors util/lrumap.hpp:63-66 -/
def clear (m : LruTable κ ν) : LruTable κ ν := { m with order := [], kv := ∅ }

/-- mirrors util/lrumap.hpp:68 -/
def existsKey (m : LruTable κ ν) (key : κ) : Bool := (m.kv.lookup key).isSome

/-- mirrors util/lrumap.hpp:70 -/
def size (m : LruTable κ ν) : Nat := m.kv.keys.card

/-- The keys and values, in the order of the list. -/
def contents (m : LruTable κ ν) : List (κ × ν) := m.order.map fun node => (node.key, node.value)

end LruTable

/-- The calls. -/
inductive LruOp (κ ν : Type) where
  | put (key : κ) (value : ν)
  | get (key : κ)
  | getPtr (key : κ)
  | del (key : κ)
  | clear
  | existsKey (key : κ)
  | size

/-- What a call returns. -/
inductive LruRet (ν : Type) where
  | none
  | value (r : Except String ν)
  | ptr (r : Option ν)
  | flag (b : Bool)
  | size (n : Nat)

section

variable {κ ν : Type} [DecidableEq κ]

def LruTable.step (m : LruTable κ ν) : LruOp κ ν → Option (LruRet ν × LruTable κ ν)
  | .put key value => some (.none, m.put key value)
  | .get key => some (.value (m.get key).1, (m.get key).2)
  | .getPtr key => some (.ptr (m.getPtr key).1, (m.getPtr key).2)
  | .del key => some (.flag (m.del key).1, (m.del key).2)
  | .clear => some (.none, m.clear)
  | .existsKey key => some (.flag (m.existsKey key), m)
  | .size => some (.size m.size, m)

/-- The same calls on a recency list of at most `n` keys. -/
def lruSpec (n : Nat) (l : List (κ × ν)) : LruOp κ ν → LruRet ν × List (κ × ν)
  | .put key value => (.none, Recency.put n l key value)
  | .get key =>
    match Recency.find? l key with
    | none => (.value (.error "key not exists"), l)
    | some v => (.value (.ok v), Recency.touch l key v)
  | .getPtr key =>
    match Recency.find? l key with
    | none => (.ptr none, l)
    | some v => (.ptr (some v), Recency.touch l key v)
  | .del key => (.flag (Recency.find? l key).isSome, Recency.erase l key)
  | .clear => (.none, [])
  | .existsKey key => (.flag (Recency.find? l key).isSome, l)
  | .size => (.size l.length, l)

/-- The value of the last `Put` of `key`, unless it was deleted since. -/
def putLast (key : κ) (prev : Option ν) : LruOp κ ν → Option ν
  | .put k v => if k = key then some v else prev
  | .del k => if k = key then none else prev
  | .clear => none
  | _ => prev

/-! ## The nodes and the index -/

namespace LruTable

/-- The index leads to the one node of each key. -/
structure Linked (m : LruTable κ ν) : Prop where
  addrs : (m.order.map LruNode.addr).Nodup
  keys : (m.order.map LruNode.key).Nodup
  index : ∀ k a, m.kv.lookup k = some a ↔ ∃ node ∈ m.order, node.key = k ∧ node.addr = a
  fresh : ∀ node ∈ m.order, node.addr < m.fresh

variable {m : LruTable κ ν} {n : Nat} {k : κ} {a : Nat} {v : ν}

omit [DecidableEq κ] in
theorem contents_keys : m.contents.map Prod.fst = m.order.map LruNode.key := by
  unfold contents
  rw [List.map_map]
  rfl

omit [DecidableEq κ] in
theorem contents_length : m.contents.length = m.order.length := List.length_map _

theorem Linked.node (h : Linked m) (hk : m.kv.lookup k = some a) :
    ∃ node ∈ m.order, node.key = k ∧ node.addr = a := (h.index k a).mp hk

/-- Without the node of `k` the list has no node with its key. -/
theorem Linked.filter_addr (h : Linked m) (hk : m.kv.lookup k = some a) :
    m.order.filter (·.addr ≠ a) = m.order.filter (·.key ≠ k) := by
  obtain ⟨node, hmem, hkey, haddr⟩ := h.node hk
  refine List.filter_congr fun x hx => ?_
  have hiff : x.addr = a ↔ x.key = k := by
    constructor
    · intro he
      rw [List.inj_on_of_nodup_map h.addrs hx hmem (he.trans haddr.symm), hkey]
    · intro he
      rw [List.inj_on_of_nodup_map h.keys hx hmem (he.trans hkey.symm), haddr]
  simp only [ne_eq, hiff]

theorem contents_filter : (m.order.filter (·.key ≠ k)).map (fun node => (node.key, node.value)) =
    Recency.erase m.contents k := by
  unfold Recency.erase contents
  rw [List.filter_map]
  rfl

theorem Linked.lookup_none (h : Linked m) : m.kv.lookup k = none ↔ Recency.find? m.contents k = none := by
  rw [Recency.find?_eq_none, contents_keys, Option.eq_none_iff_forall_ne_some]
  constructor
  · intro hno hk
    obtain ⟨node, hmem, rfl⟩ := List.mem_map.mp hk
    exact hno node.addr ((h.index _ _).mpr ⟨node, hmem, rfl, rfl⟩)
  · intro hk a ha
    obtain ⟨node, hmem, rfl, -⟩ := h.node ha
    exact hk (List.mem_map_of_mem hmem)

theorem Linked.lookup_isSome (h : Linked m) :
    (m.kv.lookup k).isSome = (Recency.find? m.contents k).isSome := by
  have hnone := h.lookup_none (k := k)
  cases hl : m.kv.lookup k with
  | none =>
    rw [hnone.mp hl]
    rfl
  | some a =>
    cases hf : Recency.find? m.contents k with
    | none => rw [hnone.mpr hf] at hl; cases hl
    | some v => rfl

theorem Linked.card (h : Linked m) : m.kv.keys.card = m.order.length := by
  have hkeys : m.kv.keys = (m.order.map LruNode.key).toFinset := by
    ext k
    rw [Finmap.mem_keys, Finmap.mem_iff, List.mem_toFinset, List.mem_map]
    constructor
    · intro hk
      obtain ⟨a, ha⟩ := hk
      obtain ⟨node, hmem, hkey, -⟩ := h.node ha
      exact ⟨node, hmem, hkey⟩
    · intro hk
      obtain ⟨node, hmem, hkey⟩ := hk
      exact ⟨node.addr, (h.index _ _).mpr ⟨node, hmem, hkey, rfl⟩⟩
  rw [hkeys, List.toFinset_card_of_nodup h.keys, List.length_map]

theorem linked_empty : Linked (empty n : LruTable κ ν) where
  addrs := List.nodup_nil
  keys := List.nodup_nil
  index k a := by simp [empty]
  fresh node hmem := by cases hmem

/-! ## The operations -/

/-- The list and the index after the new node, before the eviction. -/
theorem Linked.pushed (h : Linked m) (k : κ) (v : ν) :
    Linked { m with
      order := ⟨m.fresh, k, v⟩ :: m.order.filter (·.key ≠ k)
      kv := m.kv.insert k m.fresh
      fresh := m.fresh + 1 } where
  addrs := by
    refine List.nodup_cons.mpr ⟨?_, h.addrs.sublist (List.filter_sublist.map _)⟩
    intro hmem
    obtain ⟨node, hnode, he⟩ := List.mem_map.mp hmem
    have := h.fresh node (List.mem_of_mem_filter hnode)
    exact absurd he (Nat.ne_of_lt this)
  keys := by
    refine List.nodup_cons.mpr ⟨?_, h.keys.sublist (List.filter_sublist.map _)⟩
    simp
  index k' a := by
    by_cases hk : k' = k
    · subst hk
      simp only [Finmap.lookup_insert, List.mem_cons, exists_eq_or_imp, true_and]
      constructor
      · intro ha
        exact .inl (Option.some.inj ha)
      · intro ha
        rcases ha with ha | ⟨node, hmem, hkey, -⟩
        · rw [ha]
        · have := (List.mem_filter.mp hmem).2
          simp [hkey] at this
    · simp only [Finmap.lookup_insert_of_ne _ hk, h.index k' a, List.mem_cons, exists_eq_or_imp,
        Ne.symm hk, false_and, false_or]
      constructor
      · intro ha
        obtain ⟨node, hmem, hkey, haddr⟩ := ha
        exact ⟨node, List.mem_filter.mpr ⟨hmem, by simpa [hkey] using hk⟩, hkey, haddr⟩
      · intro ha
        obtain ⟨node, hmem, hkey, haddr⟩ := ha
        exact ⟨node, List.mem_of_mem_filter hmem, hkey, haddr⟩
  fresh node hmem := by
    rcases List.mem_cons.mp hmem with rfl | hmem
    · exact Nat.lt_succ_self _
    · exact Nat.lt_succ_of_lt (h.fresh node (List.mem_of_mem_filter hmem))

/-- The last node goes, with its key. -/
theorem Linked.popped (h : Linked m) {node : LruNode κ ν} {rest : List (LruNode κ ν)}
    (ho : m.order = rest ++ [node]) :
    Linked { m with order := rest, kv := m.kv.erase node.key } where
  addrs := by
    have ha := h.addrs
    rw [ho, List.map_append] at ha
    exact (List.nodup_append.mp ha).1
  keys := by
    have hk := h.keys
    rw [ho, List.map_append] at hk
    exact (List.nodup_append.mp hk).1
  index k' a := by
    have hk := h.keys
    rw [ho, List.map_append, List.map_singleton] at hk
    have hlast : ∀ x ∈ rest, x.key ≠ node.key := fun x hx he =>
      (List.nodup_append.mp hk).2.2 x.key (List.mem_map_of_mem hx) node.key (List.mem_singleton_self _) he
    by_cases he : k' = node.key
    · subst he
      simp only [Finmap.lookup_erase, reduceCtorEq, false_iff, not_exists, not_and]
      exact fun x hx hkey _ => hlast x hx hkey
    · simp only [Finmap.lookup_erase_ne he, h.index k' a, ho, List.mem_append, List.mem_singleton]
      constructor
      · intro ha
        obtain ⟨x, hx | rfl, hkey, haddr⟩ := ha
        · exact ⟨x, hx, hkey, haddr⟩
        · exact absurd hkey.symm he
      · intro ha
        obtain ⟨x, hx, hkey, haddr⟩ := ha
        exact ⟨x, .inl hx, hkey, haddr⟩
  fresh x hx := h.fresh x (by rw [ho]; exact List.mem_append_left _ hx)

theorem put_eq (h : Linked m) (k : κ) (v : ν) :
    m.put k v =
      let order := ⟨m.fresh, k, v⟩ :: m.order.filter (·.key ≠ k)
      let kv := m.kv.insert k m.fresh
      if kv.keys.card > m.maxSize then
        match order.getLast? with
        | some last => { m with order := order.dropLast, kv := kv.erase last.key, fresh := m.fresh + 1 }
        | none => { m with order := order, kv := kv, fresh := m.fresh + 1 }
      else { m with order := order, kv := kv, fresh := m.fresh + 1 } := by
  unfold put
  cases hl : m.kv.lookup k with
  | none =>
    have hsame : m.order.filter (·.key ≠ k) = m.order := by
      refine List.filter_eq_self.mpr fun x hx => ?_
      have hne : x.key ≠ k := by
        rintro rfl
        rw [(h.index _ _).mpr ⟨x, hx, rfl, rfl⟩] at hl
        cases hl
      simpa using hne
    simp only [hsame]
    rfl
  | some a =>
    obtain ⟨node, hmem, -, haddr⟩ := h.node hl
    have hne : m.fresh ≠ a := haddr ▸ Nat.ne_of_gt (h.fresh node hmem)
    have herase : (⟨m.fresh, k, v⟩ :: m.order : List (LruNode κ ν)).filter (·.addr ≠ a) =
        ⟨m.fresh, k, v⟩ :: m.order.filter (·.key ≠ k) := by
      rw [← h.filter_addr hl]
      exact List.filter_cons_of_pos (by simpa using hne)
    simp only [herase]
    rfl

theorem refines_put (h : Linked m) (hlen : m.order.length ≤ m.maxSize) (k : κ) (v : ν) :
    Linked (m.put k v) ∧ (m.put k v).contents = Recency.put m.maxSize m.contents k v ∧
      (m.put k v).maxSize = m.maxSize := by
  have hp := h.pushed k v
  have hcard : (m.kv.insert k m.fresh).keys.card = (m.order.filter (·.key ≠ k)).length + 1 := hp.card
  have hfull : (⟨m.fresh, k, v⟩ :: m.order.filter (·.key ≠ k) : List (LruNode κ ν)).map
      (fun node => (node.key, node.value)) = Recency.touch m.contents k v := by
    rw [List.map_cons, contents_filter]
    rfl
  have hle : (m.order.filter (·.key ≠ k)).length ≤ m.maxSize :=
    Nat.le_trans (List.length_filter_le _ _) hlen
  rw [put_eq h]
  dsimp only
  rw [hcard]
  split
  · rename_i hgt
    obtain ⟨rest, node, ho⟩ : ∃ rest node,
        (⟨m.fresh, k, v⟩ :: m.order.filter (·.key ≠ k) : List (LruNode κ ν)) = rest ++ [node] :=
      ⟨_, _, (List.dropLast_append_getLast (List.cons_ne_nil _ _)).symm⟩
    have hpop := hp.popped ho
    rw [ho, List.getLast?_append, List.dropLast_concat]
    refine ⟨hpop, ?_, rfl⟩
    unfold Recency.put
    rw [← hfull, ho, List.map_append]
    have hrest : (rest.map fun node => (node.key, node.value)).length = m.maxSize := by
      have := congrArg List.length ho
      rw [List.length_cons, List.length_append, List.length_singleton] at this
      rw [List.length_map]
      omega
    rw [← hrest, List.take_left]
    rfl
  · rename_i hroom
    refine ⟨hp, ?_, rfl⟩
    unfold Recency.put
    rw [← hfull, List.take_of_length_le]
    · rfl
    · rw [List.length_map, List.length_cons]
      omega

theorem Linked.found (h : Linked m) (hk : m.kv.lookup k = some a) :
    ∃ v, m.order.find? (·.addr = a) = some ⟨a, k, v⟩ ∧ m.order.filter (·.addr = a) = [⟨a, k, v⟩] ∧
      Recency.find? m.contents k = some v := by
  obtain ⟨node, hmem, rfl, rfl⟩ := h.node hk
  have hone : m.order.filter (·.addr = node.addr) = [node] := by
    have hnd := h.addrs.of_map.filter (·.addr = node.addr)
    refine List.perm_singleton.mp ((List.perm_ext_iff_of_nodup hnd (List.nodup_singleton _)).mpr ?_)
    intro x
    rw [List.mem_filter, List.mem_singleton, decide_eq_true_eq]
    exact ⟨fun hx => List.inj_on_of_nodup_map h.addrs hx.1 hmem hx.2, fun hx => by rw [hx]; exact ⟨hmem, rfl⟩⟩
  refine ⟨node.value, ?_, hone, ?_⟩
  · rw [← List.head?_filter, hone]
    rfl
  · refine Recency.find?_of_mem (by rw [contents_keys]; exact h.keys) ?_
    exact List.mem_map.mpr ⟨node, hmem, rfl⟩

theorem refines_getPtr (h : Linked m) (k : κ) :
    Linked (m.getPtr k).2 ∧ (m.getPtr k).2.maxSize = m.maxSize ∧
      (m.getPtr k).1 = Recency.find? m.contents k ∧
      (m.getPtr k).2.contents = match Recency.find? m.contents k with
        | none => m.contents
        | some v => Recency.touch m.contents k v := by
  unfold getPtr
  cases hl : m.kv.lookup k with
  | none =>
    rw [h.lookup_none.mp hl]
    exact ⟨h, rfl, rfl, rfl⟩
  | some a =>
    obtain ⟨v, hfind, hone, hf⟩ := h.found hl
    rw [hf]
    dsimp only
    rw [hone, hfind, h.filter_addr hl]
    have hperm : ([⟨a, k, v⟩] ++ m.order.filter (·.key ≠ k) : List (LruNode κ ν)).Perm m.order := by
      rw [← h.filter_addr hl, ← hone]
      have hp := List.filter_append_perm (fun node : LruNode κ ν => decide (node.addr = a)) m.order
      refine (List.Perm.append_left _ (List.Perm.of_eq ?_)).trans hp
      exact List.filter_congr fun x _ => by simp
    refine ⟨⟨?_, ?_, fun k' b => ?_, fun node hmem => h.fresh node (hperm.mem_iff.mp hmem)⟩, rfl, rfl, ?_⟩
    · exact (hperm.map _).nodup_iff.mpr h.addrs
    · exact (hperm.map _).nodup_iff.mpr h.keys
    · rw [h.index k' b]
      simp only [hperm.mem_iff]
    · unfold contents
      rw [List.map_append, contents_filter]
      rfl

theorem refines_del (h : Linked m) (k : κ) :
    Linked (m.del k).2 ∧ (m.del k).2.maxSize = m.maxSize ∧
      (m.del k).1 = (Recency.find? m.contents k).isSome ∧
      (m.del k).2.contents = Recency.erase m.contents k := by
  rw [← h.lookup_isSome]
  unfold del
  cases hl : m.kv.lookup k with
  | none => exact ⟨h, rfl, rfl, (Recency.erase_of_none (h.lookup_none.mp hl)).symm⟩
  | some a =>
    refine ⟨⟨?_, ?_, fun k' b => ?_, fun node hmem => h.fresh node (List.mem_of_mem_filter hmem)⟩,
      rfl, rfl, ?_⟩
    · exact h.addrs.sublist (List.filter_sublist.map _)
    · exact h.keys.sublist (List.filter_sublist.map _)
    · dsimp only
      rw [h.filter_addr hl]
      by_cases hk : k' = k
      · subst hk
        simp only [Finmap.lookup_erase, reduceCtorEq, List.mem_filter, false_iff, not_exists, not_and]
        intro x hx hkey
        simp [hkey] at hx
      · rw [Finmap.lookup_erase_ne hk, h.index k' b]
        refine exists_congr fun x => and_congr_left fun hx => ?_
        rw [List.mem_filter]
        simp [hx.1, hk]
    · show (m.order.filter _).map _ = _
      rw [h.filter_addr hl, contents_filter]

/-- The recency list a table with linked nodes stands for. -/
structure Refines (n : Nat) (m : LruTable κ ν) (l : List (κ × ν)) : Prop where
  linked : Linked m
  maxSize : m.maxSize = n
  contents : m.contents = l
  cache : Recency.Cache n l

theorem refines_step {l : List (κ × ν)} (h : Refines n m l) (op : LruOp κ ν) :
    ∃ m', m.step op = some ((lruSpec n l op).1, m') ∧ Refines n m' (lruSpec n l op).2 := by
  obtain ⟨hlink, rfl, rfl, hcache⟩ := h
  have hlen : m.order.length ≤ m.maxSize := contents_length (m := m) ▸ hcache.length_le
  have hget := refines_getPtr hlink
  cases op with
  | put k v =>
    obtain ⟨h1, h2, h3⟩ := refines_put hlink hlen k v
    exact ⟨_, rfl, h1, h3, h2, Recency.cache_put hcache⟩
  | get k =>
    obtain ⟨h1, h2, h3, h4⟩ := hget k
    cases hf : Recency.find? m.contents k with
    | none =>
      simp only [hf] at h3 h4
      simp only [lruSpec, hf]
      refine ⟨(m.getPtr k).2, ?_, h1, h2, h4, hcache⟩
      simp only [step, get]
      generalize m.getPtr k = r at h3 ⊢
      obtain ⟨o, m'⟩ := r
      subst h3
      rfl
    | some v =>
      simp only [hf] at h3 h4
      simp only [lruSpec, hf]
      refine ⟨(m.getPtr k).2, ?_, h1, h2, h4, Recency.cache_touch hcache hf⟩
      simp only [step, get]
      generalize m.getPtr k = r at h3 ⊢
      obtain ⟨o, m'⟩ := r
      subst h3
      rfl
  | getPtr k =>
    obtain ⟨h1, h2, h3, h4⟩ := hget k
    cases hf : Recency.find? m.contents k with
    | none =>
      simp only [hf] at h3 h4
      simp only [lruSpec, hf, step, h3]
      exact ⟨_, rfl, h1, h2, h4, hcache⟩
    | some v =>
      simp only [hf] at h3 h4
      simp only [lruSpec, hf, step, h3]
      exact ⟨_, rfl, h1, h2, h4, Recency.cache_touch hcache hf⟩
  | del k =>
    obtain ⟨h1, h2, h3, h4⟩ := refines_del hlink k
    simp only [lruSpec, step, h3]
    exact ⟨_, rfl, h1, h2, h4, Recency.cache_erase hcache⟩
  | clear =>
    refine ⟨m.clear, rfl, ⟨List.nodup_nil, List.nodup_nil, fun k a => ?_, fun node hmem => ?_⟩, rfl, rfl,
      Recency.cache_nil⟩
    · simp [clear]
    · cases hmem
  | existsKey k =>
    simp only [lruSpec, step, existsKey, hlink.lookup_isSome]
    exact ⟨m, rfl, hlink, rfl, rfl, hcache⟩
  | size =>
    simp only [lruSpec, step, size, hlink.card, contents_length]
    exact ⟨m, rfl, hlink, rfl, rfl, hcache⟩

/-! ## The map of the plog cache -/

/-- The map without its index. -/
def view (m : LruTable κ ν) : LruMap κ ν := ⟨m.maxSize, m.contents⟩

/-- Keeping the first `n` of at most `n + 1` is leaving out the last one where there are more. -/
theorem take_eq_dropLast {α : Type} {l : List α} (h : l.length ≤ n + 1) :
    l.take n = if l.length > n then l.dropLast else l := by
  split
  · rw [List.dropLast_eq_take]
    congr 1
    omega
  · exact List.take_of_length_le (by omega)

theorem view_put (h : Linked m) (hlen : m.order.length ≤ m.maxSize) :
    (m.put k v).view = m.view.put k v := by
  obtain ⟨-, hcontents, hmax⟩ := refines_put h hlen k v
  have htouch : (Recency.touch m.contents k v).length ≤ m.maxSize + 1 := by
    refine Nat.succ_le_succ (Nat.le_trans Recency.length_erase_le ?_)
    rw [contents_length]
    exact hlen
  unfold view LruMap.put
  rw [hcontents, hmax, Recency.put, take_eq_dropLast htouch]
  rfl

theorem view_getPtr (h : Linked m) :
    m.view.getPtr k = (m.getPtr k).1.map fun v => (v, (m.getPtr k).2.view) := by
  obtain ⟨-, hmax, hret, hcontents⟩ := refines_getPtr h k
  unfold LruMap.getPtr view
  rw [hret, hmax, hcontents]
  show (Recency.find? m.contents k).map _ = _
  cases Recency.find? m.contents k with
  | none => rfl
  | some v => rfl

theorem view_del (h : Linked m) : (m.del k).2.view = m.view.del k := by
  obtain ⟨-, hmax, -, hcontents⟩ := refines_del h k
  unfold view LruMap.del
  rw [hmax, hcontents]
  rfl

end LruTable

/-! ## Runs -/

theorem putLast_step {n : Nat} {l : List (κ × ν)} {k : κ} {prev : Option ν} (op : LruOp κ ν)
    (h : ∀ v, Recency.find? l k = some v → prev = some v) :
    ∀ v, Recency.find? (lruSpec n l op).2 k = some v → putLast k prev op = some v := by
  intro v hv
  cases op with
  | put k' v' =>
    rcases Recency.find?_put_of hv with ⟨rfl, rfl⟩ | ⟨hne, hold⟩
    · exact if_pos rfl
    · exact (if_neg (Ne.symm hne)).trans (h v hold)
  | get k' =>
    simp only [lruSpec] at hv
    split at hv
    · exact h v hv
    · rename_i hf
      exact h v (Recency.find?_touch hf ▸ hv)
  | getPtr k' =>
    simp only [lruSpec] at hv
    split at hv
    · exact h v hv
    · rename_i hf
      exact h v (Recency.find?_touch hf ▸ hv)
  | del k' =>
    simp only [lruSpec] at hv
    by_cases hk : k' = k
    · subst hk
      rw [Recency.find?_erase_self] at hv
      cases hv
    · rw [Recency.find?_erase_ne (Ne.symm hk)] at hv
      exact (if_neg hk).trans (h v hv)
  | clear => cases hv
  | existsKey k' => exact h v hv
  | size => exact h v hv

/-- Any sequence of calls on a new map answers as on a recency list of at most `n` keys,
and leaves that list; the list and the index have the same keys, and lookups find what
was put last. -/
theorem lruMap_refines (n : Nat) (ops : List (LruOp κ ν)) :
    ∃ m : LruTable κ ν, Machine.run LruTable.step (LruTable.empty n) ops =
        some ((Machine.outputs (lruSpec n) [] ops).1, m) ∧
      m.contents = (Machine.outputs (lruSpec n) [] ops).2 ∧
      (m.order.map LruNode.key).Nodup ∧ (∀ k, k ∈ m.kv ↔ k ∈ m.order.map LruNode.key) ∧
      m.size = m.order.length ∧ m.size ≤ n ∧
      ∀ k v, Recency.find? m.contents k = some v → ops.foldl (putLast k) none = some v := by
  obtain ⟨m, hrun, hm⟩ := Machine.run_refines (f := LruTable.step) (g := lruSpec n)
    (R := LruTable.Refines n) (C := fun _ _ => True) (fun _ _ _ _ => trivial)
    (fun m l op _ h _ => LruTable.refines_step h op) ops (LruTable.empty n) []
    ⟨LruTable.linked_empty, rfl, rfl, Recency.cache_nil⟩ trivial
  have hlen : m.order.length ≤ n := by
    rw [← LruTable.contents_length, hm.contents]
    exact hm.cache.length_le
  have hsize : m.size = m.order.length := hm.linked.card
  refine ⟨m, hrun, hm.contents, hm.linked.keys, fun k => ?_, hsize, hsize ▸ hlen, fun k v hv => ?_⟩
  · rw [← Finmap.lookup_isSome, hm.linked.lookup_isSome, Recency.find?_isSome, LruTable.contents_keys]
  · rw [hm.contents] at hv
    exact Machine.outputs_preserve (g := lruSpec n) (r := putLast k)
      (P := fun prev l => ∀ v, Recency.find? l k = some v → prev = some v)
      (fun prev l op h => putLast_step op h) ops none [] (fun v hv => by cases hv) v hv

end

end Quarrel
