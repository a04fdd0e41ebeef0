import Quarrel.Core.NextPerm
import Quarrel.L1Data.Config
import Mathlib.Data.Nat.Periodic

/-!
# The tables of member ids (`core/paxos_group.cpp`)

A group of `N` servers has a table of `M` rows, filled by `next_permutation`
and checked by two assertions, and the table of the inverses of its rows. The
source has `M = 6` for three servers and `M = 120` for five.

* `tables`: the assertions hold exactly when `M = N!`; then the rows are the
  permutations of the servers, each once, in increasing order.
* `ids_inverse`: on every instance the two lookups are inverse on `0 .. N - 1`
  and give `-1` elsewhere, the row has what they give, and no index leaves a table.
* `members_even`: on `N!` instances in a row every server has every member id
  equally often. The proposer with member id 0 may skip the first phase.
-/
namespace Quarrel

/-- The `rows` of `out` that are not written yet; `none` is an assertion that fails.
mirrors core/paxos_group.cpp:10-21 -/
def genGroup : Nat → List Nat → Option (List (List Nat))
  | 0, _ => none
  | rows + 1, arr =>
    match nextPerm arr with
    | some arr' => (genGroup rows arr').map (arr :: ·)
    | none => if rows = 0 then some [arr] else none

/-- The first `k` with `in[i][k] == j`, `-1` if there is none.
mirrors core/paxos_group.cpp:27-33 -/
def placeFrom : Nat → List Nat → Nat → Int
  | _, [], _ => -1
  | k, x :: row, j => if x = j then k else placeFrom (k + 1) row j

/-- mirrors core/paxos_group.cpp:23-39 -/
def genGroupRervse (n : Nat) (mapping : List (List Nat)) : List (List Int) :=
  mapping.map fun row => (List.range n).map (placeFrom 0 row)

/-- mirrors core/paxos_group.h:20-48 -/
structure PaxosGroup where
  rows : Nat
  members : Nat
  mapping : List (List Nat)
  mappingReverse : List (List Int)

namespace PaxosGroup

/-- mirrors core/paxos_group.cpp:41-45,69-73 -/
def new (m n : Nat) : Option PaxosGroup :=
  (genGroup m (List.range n)).map fun mapping => ⟨m, n, mapping, genGroupRervse n mapping⟩

def paxosGroup3 : Option PaxosGroup := new 6 3

def paxosGroup5 : Option PaxosGroup := new 120 5

/-- mirrors core/paxos_group.cpp:97-107 -/
def createGroup (type : Nat) : Option PaxosGroup :=
  if type = 3 then paxosGroup3
  else if type = 5 then paxosGroup5
  else none

/-- `none` is an index past the end of a table.
mirrors core/paxos_group.cpp:47-52,75-80 -/
def getMemberIdBySvrId (g : PaxosGroup) (pinst : Nat) (id : Int) : Option Int :=
  if id < 0 ∨ g.members ≤ id then some (-1)
  else (g.mappingReverse[pinst % g.rows]?).bind fun row => row[id.toNat]?

/-- mirrors core/paxos_group.cpp:54-59,82-87 -/
def getSvrIdByMemberId (g : PaxosGroup) (pinst : Nat) (id : Int) : Option Int :=
  if id < 0 ∨ g.members ≤ id then some (-1)
  else (g.mapping[pinst % g.rows]?).bind fun row => (row[id.toNat]?).map Int.ofNat

/-- The returned number and `out`.
mirrors core/paxos_group.cpp:61-67,89-95 -/
def getPaxosGroupMember (g : PaxosGroup) (pinst : Nat) (out : List Nat) (sz : Int) :
    Option (Int × List Nat) :=
  if sz ≠ g.members then some (-1, out)
  else (g.mapping[pinst % g.rows]?).map fun row => (g.members, row)

end PaxosGroup

/-! ## The loop of `GenGroup` -/

/-- The loop visits what the steps visit, and has to stop at the last row. -/
theorem genGroup_walks : ∀ {L : List (List Nat)} {l : List Nat} (m : Nat),
    L.IsChain (fun p q => nextPerm p = some q) → L.head? = some l → (∀ p ∈ L.getLast?, nextPerm p = none) →
    genGroup m l = if m = L.length then some L else none
  | [], _, _, _, hh, _ => by cases hh
  | [p], l, 0, _, _, _ => rfl
  | [p], l, rows + 1, _, hh, hlast => by
    cases hh
    rw [genGroup, hlast p rfl]
    simp
  | p :: q :: L, l, 0, _, _, _ => rfl
  | p :: q :: L, l, rows + 1, hc, hh, hlast => by
    cases hh
    obtain ⟨hstep, hrest⟩ := List.isChain_cons_cons.mp hc
    have ih := genGroup_walks rows hrest rfl fun r hr => hlast r (by rwa [List.getLast?_cons_cons])
    rw [genGroup, hstep]
    simp only [ih, List.length_cons, Nat.add_right_cancel_iff]
    split <;> rfl

theorem genGroup_range (m n : Nat) : genGroup m (List.range n) =
    if m = n.factorial then some (lexPerms (List.range n)) else none := by
  have hsorted : (List.range n).Pairwise (· < ·) := List.pairwise_lt_range
  have hw := lexPerms_walks hsorted
  rw [genGroup_walks m hw.chain hw.head, length_lexPerms, List.length_range]
  intro p hp
  rw [hw.last] at hp
  cases hp
  exact nextPerm_eq_none (List.pairwise_reverse.mpr hsorted)

theorem placeFrom_mem : ∀ {row : List Nat} {j : Nat} (k : Nat), j ∈ row →
    placeFrom k row j = ((k + row.idxOf j : Nat) : Int)
  | x :: row, j, k, h => by
    by_cases hx : x = j
    · subst hx
      rw [placeFrom, if_pos rfl, List.idxOf_cons_self, Nat.add_zero]
    · have hj : j ∈ row := (List.mem_cons.mp h).resolve_left (Ne.symm hx)
      rw [placeFrom, if_neg hx, placeFrom_mem (k + 1) hj, List.idxOf_cons_ne _ hx]
      congr 1
      omega

namespace PaxosGroup

variable {m n : Nat} {g : PaxosGroup}

theorem new_eq (m n : Nat) : new m n = if m = n.factorial then
    some ⟨m, n, lexPerms (List.range n), genGroupRervse n (lexPerms (List.range n))⟩ else none := by
  rw [new, genGroup_range]
  split <;> rfl

theorem of_new (h : new m n = some g) : m = n.factorial ∧
    g = ⟨m, n, lexPerms (List.range n), genGroupRervse n (lexPerms (List.range n))⟩ := by
  rw [new_eq] at h
  split at h
  · next hm => exact ⟨hm, (Option.some.inj h).symm⟩
  · cases h

theorem createGroup_new {type : Nat} (h : createGroup type = some g) : new type.factorial type = some g := by
  unfold createGroup at h
  split at h
  · next ht => subst ht; exact h
  · split at h
    · next ht => subst ht; exact h
    · cases h

theorem row_eq (n pinst : Nat) :
    (lexPerms (List.range n))[pinst % n.factorial]? = some (groupMapping n pinst) := by
  have hlt : pinst % n.factorial < (lexPerms (List.range n)).length := by
    rw [length_lexPerms, List.length_range]
    exact Nat.mod_lt _ n.factorial_pos
  rw [groupMapping, List.getElem?_eq_getElem hlt]
  rfl

theorem member_eq (h : new m n = some g) (pinst : Nat) {id : Nat} (hid : id < n) :
    g.getMemberIdBySvrId pinst id = some (Quarrel.getMemberIdBySvrId n pinst id : Int) := by
  obtain ⟨rfl, rfl⟩ := of_new h
  have hmem : id ∈ groupMapping n pinst := (groupMapping_perm n pinst).mem_iff.mpr (List.mem_range.mpr hid)
  rw [getMemberIdBySvrId, if_neg (by simp only [not_or]; omega)]
  simp only [genGroupRervse, List.getElem?_map, row_eq, Option.map_some, Option.bind_some, Int.toNat_natCast,
    List.getElem?_range hid]
  rw [placeFrom_mem 0 hmem, Nat.zero_add]
  rfl

theorem server_eq (h : new m n = some g) (pinst : Nat) {k : Nat} (hk : k < n) :
    g.getSvrIdByMemberId pinst k = ((groupMapping n pinst)[k]?).map Int.ofNat := by
  obtain ⟨rfl, rfl⟩ := of_new h
  rw [getSvrIdByMemberId, if_neg (by simp only [not_or]; omega)]
  simp only [row_eq, Option.bind_some, Int.toNat_natCast]

theorem server_lt (h : new m n = some g) (pinst : Nat) {k : Nat} (hk : k < n) :
    ∃ id < n, g.getSvrIdByMemberId pinst k = some (id : Int) := by
  have hperm := groupMapping_perm n pinst
  have hlt : k < (groupMapping n pinst).length := by rwa [hperm.length_eq, List.length_range]
  refine ⟨(groupMapping n pinst)[k], List.mem_range.mp (hperm.mem_iff.mp (List.getElem_mem hlt)), ?_⟩
  rw [server_eq h pinst hk, List.getElem?_eq_getElem hlt]
  rfl

theorem member_iff (h : new m n = some g) (pinst : Nat) {id k : Nat} (hid : id < n) (hk : k < n) :
    g.getMemberIdBySvrId pinst id = some (k : Int) ↔ g.getSvrIdByMemberId pinst k = some (id : Int) := by
  have hperm := groupMapping_perm n pinst
  have hmem : id ∈ groupMapping n pinst := hperm.mem_iff.mpr (List.mem_range.mpr hid)
  have hnd : (groupMapping n pinst).Nodup := hperm.nodup_iff.mpr List.nodup_range
  rw [member_eq h pinst hid, server_eq h pinst hk]
  constructor
  · intro he
    have hk : (groupMapping n pinst).idxOf id = k := by simpa [Quarrel.getMemberIdBySvrId] using he
    rw [← hk, List.getElem?_idxOf hmem]
    rfl
  · intro he
    have hget : (groupMapping n pinst)[k]? = some id := by simpa using he
    obtain ⟨hlt, hget⟩ := List.getElem?_eq_some_iff.mp hget
    rw [← hget, Quarrel.getMemberIdBySvrId, hnd.idxOf_getElem]

/-! ## Results -/

/-- `assert(idx < M)` and `assert(idx == M)` hold when `M` is the number of the permutations, and
only then. -/
theorem tables (m n : Nat) : ((new m n).isSome ↔ m = n.factorial) ∧
    ∀ g, new m n = some g → g.mapping.length = m ∧ g.mapping.Pairwise (· < ·) ∧
      ∀ p, p ∈ g.mapping ↔ p.Perm (List.range n) := by
  refine ⟨?_, fun g h => ?_⟩
  · rw [new_eq]
    split <;> simp [*]
  · obtain ⟨rfl, rfl⟩ := of_new h
    have hw := lexPerms_walks (l := List.range n) List.pairwise_lt_range
    refine ⟨?_, ?_, fun p => mem_lexPerms⟩
    · rw [length_lexPerms, List.length_range]
    · exact (hw.chain.imp fun p q => nextPerm_lt).pairwise

/-- The two lookups on one instance are inverse, and a member id or server id is one of the group. -/
theorem ids_inverse (h : new m n = some g) (pinst : Nat) :
    (∀ id : Int, ¬ (0 ≤ id ∧ id < n) →
      g.getMemberIdBySvrId pinst id = some (-1) ∧ g.getSvrIdByMemberId pinst id = some (-1)) ∧
    (∀ id < n, g.getMemberIdBySvrId pinst id = some (Quarrel.getMemberIdBySvrId n pinst id : Int) ∧
      Quarrel.getMemberIdBySvrId n pinst id < n) ∧
    (∀ k < n, ∃ id < n, g.getSvrIdByMemberId pinst k = some (id : Int)) ∧
    (∀ id < n, ∀ k < n, g.getMemberIdBySvrId pinst id = some (k : Int) ↔
      g.getSvrIdByMemberId pinst k = some (id : Int)) ∧
    ∃ row, (∀ k < n, g.getSvrIdByMemberId pinst k = (row[k]?).map Int.ofNat) ∧
      ∀ out sz, g.getPaxosGroupMember pinst out sz = if sz = n then some (sz, row) else some (-1, out) := by
  refine ⟨fun id hid => ?_, fun id hid => ⟨member_eq h pinst hid, memberId_lt hid⟩,
    fun k hk => server_lt h pinst hk, fun id hid k hk => member_iff h pinst hid hk,
    groupMapping n pinst, fun k hk => server_eq h pinst hk, fun out sz => ?_⟩
  · obtain ⟨rfl, rfl⟩ := of_new h
    have hout : id < 0 ∨ (n : Int) ≤ id := by omega
    rw [getMemberIdBySvrId, getSvrIdByMemberId, if_pos hout, if_pos hout]
    exact ⟨rfl, rfl⟩
  · obtain ⟨rfl, rfl⟩ := of_new h
    rw [getPaxosGroupMember, row_eq]
    by_cases hsz : sz = n
    · rw [if_neg (not_not.mpr hsz), if_pos hsz, hsz]
      rfl
    · rw [if_pos hsz, if_neg hsz]

theorem createGroup3_isSome : (createGroup 3).isSome = true := by decide

def group3 : PaxosGroup := (createGroup 3).get createGroup3_isSome

theorem group3_new : new (Nat.factorial 3) 3 = some group3 :=
  createGroup_new (Option.some_get createGroup3_isSome).symm

theorem ids_inverse_three : group3.getMemberIdBySvrId 4 3 = some (-1) ∧
    (group3.getMemberIdBySvrId 4 (2 : Nat) = some ((0 : Nat) : Int) ↔
      group3.getSvrIdByMemberId 4 (0 : Nat) = some ((2 : Nat) : Int)) :=
  ⟨((ids_inverse group3_new 4).1 3 (by decide)).1,
    (ids_inverse group3_new 4).2.2.2.1 2 (by decide) 0 (by decide)⟩

/-- Any `N!` instances in a row. -/
theorem members_even (h : new m n = some g) (a : Nat) {id k : Nat} (hid : id < n) (hk : k < n) :
    ((Finset.Ico a (a + m)).filter fun i => g.getMemberIdBySvrId i id = some (k : Int)).card =
      (n - 1).factorial := by
  obtain ⟨hm, hg⟩ := of_new h
  let holds : Option (List Nat) → Prop := fun row => row.any (fun p => p[k]? = some id) = true
  have hrow : ∀ i, g.getMemberIdBySvrId i id = some (k : Int) ↔ holds (lexPerms (List.range n))[i % m]? := fun i => by
    rw [member_iff h i hid hk, server_eq h i hk, hm, row_eq]
    simp [holds]
  have hperiodic : Function.Periodic (fun i => holds (lexPerms (List.range n))[i % m]?) m := fun i => by
    simp only [Nat.add_mod_right]
  have hlen : (lexPerms (List.range n)).length = m := by rw [length_lexPerms, List.length_range, hm]
  have hbase : Nat.count (fun i => holds (lexPerms (List.range n))[i % m]?) m =
      Nat.count (fun i => holds (lexPerms (List.range n))[i]?) m := by
    rw [Nat.count_eq_card_filter_range, Nat.count_eq_card_filter_range]
    congr 1
    refine Finset.filter_congr fun i hi => ?_
    rw [Nat.mod_eq_of_lt (Finset.mem_range.mp hi)]
  simp only [hrow]
  calc _ = Nat.count (fun i => holds (lexPerms (List.range n))[i % m]?) m :=
        Nat.filter_Ico_card_eq_of_periodic a m _ hperiodic
    _ = (lexPerms (List.range n)).countP (fun p => p[k]? = some id) := by
        rw [hbase, ← hlen]
        exact count_getElem? _ _
    _ = (n - 1).factorial := by
        rw [countP_lexPerms List.nodup_range (by rwa [List.length_range]) (List.mem_range.mpr hid),
          List.length_range]

theorem members_even_three : ((Finset.Ico 100 (100 + Nat.factorial 3)).filter fun i =>
    group3.getMemberIdBySvrId i (0 : Nat) = some ((1 : Nat) : Int)).card = 2 :=
  members_even group3_new 100 (by decide) (by decide)

end PaxosGroup
end Quarrel
