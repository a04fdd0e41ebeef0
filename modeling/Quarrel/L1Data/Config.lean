import Quarrel.Core.LexPerm
import Quarrel.L1Data.Ptype
import Mathlib.Data.Nat.Factorial.Basic

/-!
# Configuration and member ids (`core/config.h`, `core/paxos_group.cpp`)

A `Configure` carries the bounds without which the program divides by zero,
keeps a dangling reference (an empty entry cache) or overflows its 8-bit
response counters.

`getMemberIdBySvrId` is the per-instance permutation of the servers: the row
of `mapping_` picked by the instance, read backwards. On every instance two
servers have different member ids (`memberId_inj`), and ids are below the
number of members (`memberId_lt`).
-/
namespace Quarrel

/-- The fields the modelled functions read; the widths are those of the source.
mirrors core/config.h:23-43 -/
structure Configure where
  timeout : Nat
  pidCookie : Nat
  totalAcceptor : Nat
  totalProposer : Nat
  entryCacheNum : Nat
  plogInstNum : Nat
  msgVersion : Nat
  localId : Nat
  acceptor_pos : 0 < totalAcceptor
  acceptor_le : totalAcceptor ≤ maxAcceptorNum
  proposer_pos : 0 < totalProposer
  cache_pos : 0 < entryCacheNum
  inst_pos : 0 < plogInstNum

namespace Configure

/-- The field initialisers, on server `id`.
mirrors core/config.h:23-43 -/
def init (id : Nat) : Configure where
  timeout := 20
  pidCookie := 0
  totalAcceptor := 3
  totalProposer := 3
  entryCacheNum := 100000
  plogInstNum := 64
  msgVersion := 0
  localId := id
  acceptor_pos := by decide
  acceptor_le := by decide
  proposer_pos := by decide
  cache_pos := by decide
  inst_pos := by decide

/-- The configuration of server `id` of the same group. -/
def on (cfg : Configure) (id : Nat) : Configure := { cfg with localId := id }

/-- `total_acceptor_ / 2 + 1`. -/
def majority (cfg : Configure) : Nat := cfg.totalAcceptor / 2 + 1

theorem acceptor_lt_256 (cfg : Configure) : cfg.totalAcceptor < 256 := by
  have := cfg.acceptor_le
  unfold maxAcceptorNum at this
  omega

end Configure

/-! The numbers of the servers of a group as `Configure.init` has it. -/

theorem first_of_three : 0 < 3 := by decide

theorem second_of_three : 1 < 3 := by decide

theorem third_of_three : 2 < 3 := by decide

/-- The workers of a proposer or an acceptor, each with a queue of its own.
mirrors core/config.h:30-33, util/worker_pool.hpp:58-71 -/
structure PoolSize where
  workers : Nat
  queueSize : Nat
  workers_pos : 0 < workers

/-- Row `pinst % n!` of `mapping_`: member ids to server ids.
mirrors core/paxos_group.cpp:10-21,41-45,69-73 -/
def groupMapping (n pinst : Nat) : List Nat :=
  ((lexPerms (List.range n))[pinst % n.factorial]?).getD (List.range n)

/-- The member id of server `id`, which is one of the `n` servers.
mirrors core/paxos_group.cpp:23-39,47-52,75-80 -/
def getMemberIdBySvrId (n pinst id : Nat) : Nat := (groupMapping n pinst).idxOf id

theorem groupMapping_perm (n pinst : Nat) : (groupMapping n pinst).Perm (List.range n) := by
  unfold groupMapping
  cases h : (lexPerms (List.range n))[pinst % n.factorial]? with
  | none => exact List.Perm.refl _
  | some p => exact perm_of_mem_lexPerms (List.mem_of_getElem? h)

theorem memberId_lt {n pinst id : Nat} (h : id < n) : getMemberIdBySvrId n pinst id < n := by
  have hp := groupMapping_perm n pinst
  have hm : id ∈ groupMapping n pinst := hp.mem_iff.mpr (List.mem_range.mpr h)
  have := List.idxOf_lt_length_of_mem hm
  rw [hp.length_eq, List.length_range] at this
  exact this

theorem memberId_inj {n pinst i j : Nat} (hi : i < n)
    (h : getMemberIdBySvrId n pinst i = getMemberIdBySvrId n pinst j) : i = j := by
  have hp := groupMapping_perm n pinst
  have hm : i ∈ groupMapping n pinst := hp.mem_iff.mpr (List.mem_range.mpr hi)
  exact (List.idxOf_inj hm).mp h

example : (List.range 3).map (getMemberIdBySvrId 3 4) = [1, 2, 0] := by decide

end Quarrel
