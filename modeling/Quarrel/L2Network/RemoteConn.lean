import Quarrel.L1Data.IdGen
import Quarrel.L1Data.LruMap
import Quarrel.L1Data.Ptype
import Mathlib.Logic.Function.Basic

/-!
# A connection to a peer (`network/conn.h`)

Requests written to the peer wait in an LRU map for their responses, under the id
the connection numbered them with. The stream from the peer carries responses and
the peer's own requests; `HandleRecv` takes a message for a response when its id
is in the map.

A request points to its message, and the id is written into the message. The
requests of a broadcast share one message, on all the connections, and so do the
phases of a round: a message is known by its place in `Msgs`.

`DoRpcRequest` takes the lock twice: to register the request, and to forget it
when `DoWrite` fails. The two are separate operations here, so that others can come
between them. A callback is a value of the parameter `κ`.

* `handleRecv_of_pending`, `handleRecv_of_none`: where a message goes.
* `pending_of_register`, `pending_of_writeFailed`: what is waiting afterwards.
-/
namespace Quarrel

/-- The messages in memory, by their place. -/
abbrev Msgs := Nat → PaxosMsg

/-- `data` is the place `data_` points to.
mirrors network/conn.h:23-27 -/
structure RpcReqData (κ : Type) where
  timeoutMs : Nat
  cb : κ
  data : Nat

/-- mirrors network/conn.h:75-148 -/
structure RemoteConn (κ : Type) where
  reqid : IdGen
  reqToRemote : LruMap Nat (RpcReqData κ)

/-- Where `HandleRecv` hands a message. -/
inductive Recv (κ : Type) where
  | callback (cb : κ) (msg : PaxosMsg)
  | onReq (msg : PaxosMsg)

namespace RemoteConn

variable {κ : Type}

/-- A connection constructed at second `sec`.
mirrors network/conn.h:77-80 -/
def new (concurNum sec : Nat) : RemoteConn κ := ⟨IdGen.byDate sec 0xff 1, LruMap.empty concurNum⟩

/-- The id is written into the message, for all that share it.
mirrors network/conn.h:93 -/
def numbered (c : RemoteConn κ) (msgs : Msgs) (data : Nat) : Msgs :=
  Function.update msgs data { msgs data with reqid := c.reqid.getAndInc.1 }

/-- mirrors network/conn.h:91-95 -/
def register (c : RemoteConn κ) (msgs : Msgs) (rd : RpcReqData κ) : Msgs × RemoteConn κ :=
  let msgs := c.numbered msgs rd.data
  (msgs, ⟨c.reqid.getAndInc.2, c.reqToRemote.put (msgs rd.data).reqid rd⟩)

/-- `DoWrite` of a request has failed. The id is read from the message again.
mirrors network/conn.h:99-103 -/
def writeFailed (c : RemoteConn κ) (msgs : Msgs) (data : Nat) : RemoteConn κ :=
  { c with reqToRemote := c.reqToRemote.del (msgs data).reqid }

/-- mirrors network/conn.h:111-139 -/
def handleRecv (c : RemoteConn κ) (msg : PaxosMsg) : Recv κ × RemoteConn κ :=
  match c.reqToRemote.getPtr msg.reqid with
  | some (rd, table) => (.callback rd.cb msg, { c with reqToRemote := table.del msg.reqid })
  | none => (.onReq msg, c)

/-- The request waiting under an id. -/
def pending (c : RemoteConn κ) (reqid : Nat) : Option (RpcReqData κ) := c.reqToRemote.find? reqid

@[simp] theorem numbered_reqid (c : RemoteConn κ) (msgs : Msgs) (data : Nat) :
    (c.numbered msgs data data).reqid = c.reqid.id := by
  rw [numbered, Function.update_self]
  rfl

@[simp] theorem register_reqid (c : RemoteConn κ) (msgs : Msgs) (rd : RpcReqData κ) :
    (c.register msgs rd).2.reqid = c.reqid.getAndInc.2 := rfl
@[simp] theorem writeFailed_reqid (c : RemoteConn κ) (msgs : Msgs) (data : Nat) :
    (c.writeFailed msgs data).reqid = c.reqid := rfl

section

variable {c : RemoteConn κ} {msgs : Msgs} {msg : PaxosMsg} {rd : RpcReqData κ}

theorem handleRecv_of_none (h : c.pending msg.reqid = none) :
    c.handleRecv msg = (.onReq msg, c) := by
  unfold handleRecv
  rw [LruMap.getPtr_eq_none.mpr h]

/-- A message whose id is waiting goes to the callback, and nothing waits under the id any more. -/
theorem handleRecv_of_pending (h : c.pending msg.reqid = some rd) :
    (c.handleRecv msg).1 = .callback rd.cb msg ∧ (c.handleRecv msg).2.reqid = c.reqid ∧
      (c.handleRecv msg).2.pending msg.reqid = none ∧
      ∀ k, k ≠ msg.reqid → (c.handleRecv msg).2.pending k = c.pending k := by
  have hrd : c.reqToRemote.find? msg.reqid = some rd := h
  unfold handleRecv
  cases hp : c.reqToRemote.getPtr msg.reqid with
  | none =>
    rw [LruMap.getPtr_eq_none.mp hp] at hrd
    cases hrd
  | some r =>
    obtain ⟨rd', table⟩ := r
    have hfound := (LruMap.getPtr_eq_some hp).1
    rw [hrd] at hfound
    obtain rfl := Option.some.inj hfound
    refine ⟨rfl, rfl, LruMap.find?_del_self _ _, fun k hk => ?_⟩
    exact (LruMap.find?_del_ne _ hk).trans (LruMap.find?_of_getPtr hp k)

/-- What waits after a registration waited before, or is the request registered. -/
theorem pending_of_register {new : RpcReqData κ} {k : Nat}
    (h : (c.register msgs new).2.pending k = some rd) :
    (k = c.reqid.id ∧ rd = new) ∨ (k ≠ c.reqid.id ∧ c.pending k = some rd) := by
  have hput : (c.reqToRemote.put c.reqid.id new).find? k = some rd := by
    rw [← numbered_reqid c msgs new.data]
    exact h
  by_cases hk : k = c.reqid.id
  · subst hk
    exact .inl ⟨rfl, LruMap.find?_put_eq hput⟩
  · exact .inr ⟨hk, LruMap.find?_of_put hk hput⟩

theorem pending_of_writeFailed {k data : Nat} (h : (c.writeFailed msgs data).pending k = some rd) :
    c.pending k = some rd := by
  by_cases hk : k = (msgs data).reqid
  · subst hk
    rw [show (c.writeFailed msgs data).pending (msgs data).reqid = none from LruMap.find?_del_self _ _] at h
    cases h
  · exact (LruMap.find?_del_ne _ hk).symm.trans h

end

end RemoteConn
end Quarrel
