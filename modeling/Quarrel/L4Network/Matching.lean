import Quarrel.Core.LTS
import Quarrel.L2Network.RemoteConn

/-!
# Responses and requests of a peer on one connection

`Link` is a connection with the messages its requests point to, everything that was
written to the peer, everything the peer wrote, and the calls whose callback was
invoked. The peer answers a message under the id it was written with, and numbers
its own requests with its own generator. What it wrote is delivered in any order,
any number of times, or never; a registration may evict another one.

`DoWrite` is asynchronous, and the id of a call stands in its message only. Until the
message goes out its other holders may write to it (`edit`): another connection of
the same broadcast gives it a number of its own, the proposer makes an ACCEPT of it.

The two generators count from the same small range, and `HandleRecv` looks at the
id only: what comes under an id that waits here is taken for the response, also a
request of the peer, and the response to a message written under another id.

* `matched_iff_unclashed`: in a run every message goes where it belongs if and only
  if nothing else than the response to a message written under the id of its call
  is delivered while its id waits.
* `not_alwaysMatched`: both sides number their first request 1.
-/
namespace Quarrel

/-- A message the peer wrote: its response to a call, or a request of its own. -/
inductive PeerMsg where
  | response (call : Nat) (msg : PaxosMsg)
  | request (msg : PaxosMsg)

def PeerMsg.msg : PeerMsg → PaxosMsg
  | .response _ msg => msg
  | .request msg => msg

/-- The place of a call's message, and the id the call was registered under. -/
structure LinkCall where
  data : Nat
  reqid : Nat

/-- A call is known by its position in `calls`; `written` is what went out, with the
call it went out for. -/
structure Link where
  msgs : Msgs
  conn : RemoteConn Nat
  peer : IdGen
  calls : List LinkCall
  written : List (Nat × PaxosMsg)
  wire : List PeerMsg
  invoked : List Nat

/-- `edit` is a write to a message by another holder, `write` the message of a call
going out; `respond k` answers what went out as number `k`. -/
inductive LinkOp where
  | edit (data : Nat) (msg : PaxosMsg)
  | call (timeoutMs data : Nat)
  | write (call : Nat)
  | writeFailed (call : Nat)
  | respond (k : Nat) (msg : PaxosMsg)
  | ask (msg : PaxosMsg)
  | deliver (i : Nat)

namespace Link

/-- Both sides constructed, at seconds `sec` and `peerSec`. -/
def new (concurNum sec peerSec : Nat) : Link where
  msgs _ := allocProposalMsg 0
  conn := .new concurNum sec
  peer := IdGen.byDate peerSec 0xff 1
  calls := []
  written := []
  wire := []
  invoked := []

/-- The call to be made. -/
def nextCall (l : Link) (timeoutMs data : Nat) : RpcReqData Nat := ⟨timeoutMs, l.calls.length, data⟩

/-- A message of the peer reaches `HandleRecv`. -/
def receive (l : Link) (w : PeerMsg) : Link :=
  match l.conn.handleRecv w.msg with
  | (.callback cb _, conn) => { l with conn := conn, invoked := cb :: l.invoked }
  | (.onReq _, conn) => { l with conn := conn }

def step (l : Link) : LinkOp → Option Link
  | .edit data msg => some { l with msgs := Function.update l.msgs data msg }
  | .call timeoutMs data =>
    let (msgs, conn) := l.conn.register l.msgs (l.nextCall timeoutMs data)
    some { l with msgs := msgs, conn := conn, calls := l.calls ++ [⟨data, (msgs data).reqid⟩] }
  | .write call =>
    (l.calls[call]?).map fun c => { l with written := l.written ++ [(call, l.msgs c.data)] }
  | .writeFailed call =>
    (l.calls[call]?).map fun c => { l with conn := l.conn.writeFailed l.msgs c.data }
  | .respond k msg =>
    (l.written[k]?).map fun out =>
      { l with wire := l.wire ++ [.response out.1 { msg with reqid := out.2.reqid }] }
  | .ask msg =>
    some { l with
      peer := l.peer.getAndInc.2, wire := l.wire ++ [.request { msg with reqid := l.peer.getAndInc.1 }] }
  | .deliver i => (l.wire[i]?).map l.receive

/-- A callback that is invoked was not invoked before, and gets the response to its
own call; a request goes to `onReq_` and leaves the connection as it is. -/
structure Received (l : Link) (w : PeerMsg) : Prop where
  callback : ∀ cb msg, (l.conn.handleRecv w.msg).1 = .callback cb msg → cb ∉ l.invoked ∧
    w = .response cb msg
  onReq : ∀ msg, w = .request msg → l.conn.handleRecv msg = (.onReq msg, l.conn)

/-- The response to a message that was written under the id its call was registered under. -/
def AsNumbered (l : Link) : PeerMsg → Prop
  | .response call msg => (l.calls[call]?).map LinkCall.reqid = some msg.reqid
  | .request _ => False

instance (l : Link) : DecidablePred l.AsNumbered
  | .response call msg => inferInstanceAs (Decidable ((l.calls[call]?).map LinkCall.reqid = some msg.reqid))
  | .request _ => inferInstanceAs (Decidable False)

end Link

/-- A link from its construction on. -/
def linkSys : LTS Link LinkOp :=
  .ofFn (fun l => ∃ concurNum sec peerSec, l = Link.new concurNum sec peerSec) Link.step

/-- What is delivered goes where it belongs. -/
def Matched (l : Link) (op : LinkOp) (_ : Link) : Prop :=
  ∀ i w, op = .deliver i → l.wire[i]? = some w → l.Received w

/-- No request of the peer, and no response to a message that was written under
another id than its call's, is delivered while its id waits here. -/
def Unclashed (l : Link) (op : LinkOp) (_ : Link) : Prop :=
  ∀ i w, op = .deliver i → l.wire[i]? = some w → ¬ l.AsNumbered w → l.conn.pending w.msg.reqid = none

/-! ## What waits is what was called -/

/-- Calls have ids of their own, and what waits is a call not yet invoked. -/
structure Link.Inv (l : Link) : Prop where
  stepPos : 0 < l.conn.reqid.step
  below : ∀ (i : Nat) (c : LinkCall), l.calls[i]? = some c → c.reqid < l.conn.reqid.id
  distinct : ∀ (i j : Nat) (c d : LinkCall), l.calls[i]? = some c → l.calls[j]? = some d →
    c.reqid = d.reqid → i = j
  waiting : ∀ k rd, l.conn.pending k = some rd → ∃ c, l.calls[rd.cb]? = some c ∧ c.reqid = k
  fresh : ∀ k rd, l.conn.pending k = some rd → rd.cb ∉ l.invoked
  made : ∀ i ∈ l.invoked, i < l.calls.length

namespace Link.Inv

variable {l : Link}

theorem init {concurNum sec peerSec : Nat} : (Link.new concurNum sec peerSec).Inv where
  stepPos := by
    show 0 < (IdGen.setGreaterThan ⟨1, 1⟩ _).step
    rw [IdGen.setGreaterThan_step]
    decide
  below i c h := by simp [Link.new] at h
  distinct i j c d h := by simp [Link.new] at h
  waiting k rd h := by cases h
  fresh k rd h := by cases h
  made i h := by cases h

/-- What is not in the table and not a call may change. -/
theorem reframe (h : l.Inv) (msgs : Msgs) (peer : IdGen) (written : List (Nat × PaxosMsg))
    (wire : List PeerMsg) :
    ({ l with msgs := msgs, peer := peer, written := written, wire := wire } : Link).Inv :=
  ⟨h.stepPos, h.below, h.distinct, h.waiting, h.fresh, h.made⟩

theorem drop (h : l.Inv) {conn : RemoteConn Nat} (hid : conn.reqid = l.conn.reqid)
    (hp : ∀ k rd, conn.pending k = some rd → l.conn.pending k = some rd) :
    ({ l with conn := conn } : Link).Inv where
  stepPos := hid ▸ h.stepPos
  below i c hc := hid ▸ h.below i c hc
  distinct := h.distinct
  waiting k rd hk := h.waiting k rd (hp k rd hk)
  fresh k rd hk := h.fresh k rd (hp k rd hk)
  made := h.made

theorem getElem?_call {calls : List LinkCall} {new c : LinkCall} {i : Nat}
    (h : (calls ++ [new])[i]? = some c) : calls[i]? = some c ∨ (i = calls.length ∧ c = new) := by
  rw [List.getElem?_append] at h
  split at h
  · exact .inl h
  · obtain ⟨hi, he⟩ := List.getElem?_eq_some_iff.mp h
    simp only [List.length_cons, List.length_nil] at hi
    refine .inr ⟨by omega, ?_⟩
    rw [← he]
    simp

theorem step_call (timeoutMs data : Nat) :
    l.step (.call timeoutMs data) = some { l with
      msgs := l.conn.numbered l.msgs data
      conn := (l.conn.register l.msgs (l.nextCall timeoutMs data)).2
      calls := l.calls ++ [⟨data, l.conn.reqid.id⟩] } := by
  rw [← RemoteConn.numbered_reqid l.conn l.msgs data]
  rfl

theorem call (h : l.Inv) {l' : Link} {timeoutMs data : Nat} (hs : l.step (.call timeoutMs data) = some l') :
    l'.Inv := by
  rw [step_call] at hs
  obtain rfl := Option.some.inj hs
  have hstep := h.stepPos
  have hold : ∀ {i : Nat} {c new : LinkCall}, l.calls[i]? = some c → (l.calls ++ [new])[i]? = some c := by
    intro i c new hc
    rw [List.getElem?_append_left (List.getElem?_eq_some_iff.mp hc).1]
    exact hc
  constructor
  · exact hstep
  · intro i c hc
    show c.reqid < l.conn.reqid.id + l.conn.reqid.step
    rcases getElem?_call hc with hc | ⟨_, rfl⟩
    · have := h.below i c hc
      omega
    · show l.conn.reqid.id < _
      omega
  · intro i j c d hc hd heq
    rcases getElem?_call hc with hc | ⟨rfl, rfl⟩
    · rcases getElem?_call hd with hd | ⟨rfl, rfl⟩
      · exact h.distinct i j c d hc hd heq
      · have := h.below i c hc
        exact absurd heq (Nat.ne_of_lt this)
    · rcases getElem?_call hd with hd | ⟨rfl, rfl⟩
      · have := h.below j d hd
        exact absurd heq.symm (Nat.ne_of_lt this)
      · rfl
  · intro k rd hk
    rcases RemoteConn.pending_of_register hk with ⟨rfl, rfl⟩ | ⟨_, hk⟩
    · exact ⟨_, List.getElem?_concat_length, rfl⟩
    · obtain ⟨c, hc, hr⟩ := h.waiting k rd hk
      exact ⟨c, hold hc, hr⟩
  · intro k rd hk
    rcases RemoteConn.pending_of_register hk with ⟨rfl, rfl⟩ | ⟨_, hk⟩
    · intro hmem
      exact absurd (h.made _ hmem) (Nat.lt_irrefl _)
    · exact h.fresh k rd hk
  · intro i hi
    have := h.made i hi
    simp only [List.length_append, List.length_cons, List.length_nil]
    omega

theorem receive (h : l.Inv) (w : PeerMsg) : (l.receive w).Inv := by
  unfold Link.receive
  cases hp : l.conn.pending w.msg.reqid with
  | none =>
    rw [RemoteConn.handleRecv_of_none hp]
    exact h
  | some rd =>
    obtain ⟨hout, hid, hself, hother⟩ := RemoteConn.handleRecv_of_pending hp
    generalize l.conn.handleRecv w.msg = r at *
    obtain ⟨out, conn⟩ := r
    obtain rfl : out = .callback rd.cb w.msg := hout
    have hsub : ∀ k x, conn.pending k = some x → k ≠ w.msg.reqid ∧ l.conn.pending k = some x := by
      intro k x hk
      by_cases he : k = w.msg.reqid
      · subst he
        rw [show conn.pending w.msg.reqid = none from hself] at hk
        cases hk
      · exact ⟨he, (hother k he).symm.trans hk⟩
    have hd := h.drop hid fun k x hk => (hsub k x hk).2
    refine ⟨hd.stepPos, hd.below, hd.distinct, hd.waiting, fun k x hk => ?_, fun c hc => ?_⟩
    · obtain ⟨hne, hk⟩ := hsub k x hk
      refine fun hmem => (List.mem_cons.mp hmem).elim (fun he => hne ?_) (h.fresh k x hk)
      -- one call waits under one id only
      obtain ⟨c, hc, hr⟩ := h.waiting k x hk
      obtain ⟨d, hd, hr'⟩ := h.waiting _ rd hp
      rw [he, hd] at hc
      rw [← hr, ← hr', Option.some.inj hc]
    · rcases List.mem_cons.mp hc with rfl | hc
      · obtain ⟨c, hc, _⟩ := h.waiting _ rd hp
        exact (List.getElem?_eq_some_iff.mp hc).1
      · exact h.made c hc

theorem step {l' : Link} {op : LinkOp} (h : l.Inv) (hs : l.step op = some l') : l'.Inv := by
  cases op with
  | edit data msg =>
    obtain rfl := Option.some.inj hs
    exact h.reframe _ _ _ _
  | call timeoutMs data => exact h.call hs
  | write c =>
    obtain ⟨_, _, rfl⟩ := Option.map_eq_some_iff.mp hs
    exact h.reframe _ _ _ _
  | writeFailed c =>
    obtain ⟨_, _, rfl⟩ := Option.map_eq_some_iff.mp hs
    exact h.drop rfl fun k rd hk => RemoteConn.pending_of_writeFailed hk
  | respond k msg =>
    obtain ⟨_, _, rfl⟩ := Option.map_eq_some_iff.mp hs
    exact h.reframe _ _ _ _
  | ask msg =>
    obtain rfl := Option.some.inj hs
    exact h.reframe _ _ _ _
  | deliver i =>
    obtain ⟨w, _, rfl⟩ := Option.map_eq_some_iff.mp hs
    exact h.receive w

/-- A message goes where it belongs, unless its id waits and it is not the response to
a message written under the id of its call. -/
theorem received_iff (h : l.Inv) {w : PeerMsg} :
    l.Received w ↔ (¬ l.AsNumbered w → l.conn.pending w.msg.reqid = none) := by
  constructor
  · intro hrec hn
    cases hp : l.conn.pending w.msg.reqid with
    | none => rfl
    | some rd =>
      have hw := (hrec.callback _ _ (RemoteConn.handleRecv_of_pending hp).1).2
      obtain ⟨c, hc, hr⟩ := h.waiting _ rd hp
      refine absurd ?_ hn
      rw [hw]
      show (l.calls[rd.cb]?).map LinkCall.reqid = some w.msg.reqid
      rw [hc, ← hr]
      rfl
  · intro hn
    constructor
    · intro cb msg hc
      cases hp : l.conn.pending w.msg.reqid with
      | none =>
        rw [RemoteConn.handleRecv_of_none hp] at hc
        cases hc
      | some rd =>
        rw [(RemoteConn.handleRecv_of_pending hp).1] at hc
        obtain ⟨rfl, rfl⟩ := Recv.callback.inj hc
        refine ⟨h.fresh _ _ hp, ?_⟩
        have has : l.AsNumbered w := by
          by_contra hno
          rw [hn hno] at hp
          cases hp
        cases w with
        | request msg => exact has.elim
        | response i msg =>
          obtain ⟨c, hcall, hr⟩ := Option.map_eq_some_iff.mp has
          obtain ⟨d, hcall', hr'⟩ := h.waiting _ rd hp
          rw [h.distinct _ _ _ _ hcall hcall' (hr.trans hr'.symm)]
          rfl
    · intro msg he
      subst he
      exact RemoteConn.handleRecv_of_none (hn id)

end Link.Inv

theorem link_inv : ∀ l, linkSys.Reachable l → l.Inv := by
  refine LTS.Inductive.reachable (LTS.Inductive.mk (fun l hi => ?_) fun l op l' h hs => h.step hs)
  obtain ⟨concurNum, sec, peerSec, rfl⟩ := hi
  exact Link.Inv.init

theorem matched_step {l l' : Link} {op : LinkOp} (h : l.Inv) :
    Matched l op l' ↔ Unclashed l op l' := by
  constructor
  · intro hm i w hop hw
    exact h.received_iff.mp (hm i w hop hw)
  · intro hu i w hop hw
    exact h.received_iff.mpr (hu i w hop hw)

/-- In a run every callback is invoked at most once, with the response to its own
call, and every request of the peer is handed to `onReq_`, if and only if nothing is
delivered while its id waits, other than the response to a message that was written
under the id of its call. -/
theorem matched_iff_unclashed {l₀ l : Link} {ops : List LinkOp} (h : linkSys.init l₀) :
    (linkSys.restrict Matched).Run l₀ ops l ↔ (linkSys.restrict Unclashed).Run l₀ ops l :=
  LTS.run_restrict_congr (fun s _ _ hs _ => matched_step (link_inv s hs)) (.of_init h)

/-- `Unclashed`, as a test. -/
def unclashed (l : Link) : LinkOp → Bool
  | .deliver i => (l.wire[i]?).all fun w => decide (l.AsNumbered w) || (l.conn.pending w.msg.reqid).isNone
  | _ => true

theorem unclashed_sound {l l' : Link} {op : LinkOp} (h : unclashed l op = true) : Unclashed l op l' := by
  intro i w hop hw hn
  subst hop
  simp only [unclashed, hw, Option.all_some, Bool.or_eq_true, decide_eq_true_eq, Option.isNone_iff_eq_none] at h
  exact h.resolve_left hn

/-- A call and its response, a request of the peer in between. The peer numbers from 5 on. -/
def servedOps : List LinkOp :=
  [.call 20 0, .write 0, .ask (allocProposalMsg 0), .deliver 0, .respond 0 (allocProposalMsg 0), .deliver 1]

def ranUnclashed (l : Link) (ops : List LinkOp) : Option Link :=
  LTS.exec (fun l op => (l.step op).filter fun _ => unclashed l op) l ops

theorem served_some : (ranUnclashed (Link.new 100 0 5) servedOps).isSome = true := by decide +kernel

def served : Link := (ranUnclashed (Link.new 100 0 5) servedOps).get served_some

theorem matched_iff_unclashed_served :
    (linkSys.restrict Matched).Run (Link.new 100 0 5) servedOps served ∧ served.invoked = [0] := by
  refine ⟨(matched_iff_unclashed ⟨100, 0, 5, rfl⟩).mpr ?_, by decide +kernel⟩
  exact LTS.run_of_guarded (g := fun l op _ => unclashed l op) (fun l op l' _ => unclashed_sound)
    (show _ = some served from (Option.some_get served_some).symm)

/-- A call, and the peer's first request. -/
def clashing : List LinkOp := [.call 20 0, .ask (allocProposalMsg 0), .deliver 0]

/-- Both numbered their request 1, and the peer's is handed to the callback of the call. -/
theorem not_alwaysMatched :
    ¬ ∀ (l₀ l : Link) (ops : List LinkOp), linkSys.init l₀ → linkSys.Run l₀ ops l →
      (linkSys.restrict Matched).Run l₀ ops l := by
  intro hall
  have hrun : linkSys.Run (Link.new 100 0 0) clashing
      ((LTS.exec Link.step (Link.new 100 0 0) clashing).get rfl) := LTS.run_of_exec (Option.some_get _).symm
  have hm := hall _ _ _ ⟨100, 0, 0, rfl⟩ hrun
  obtain ⟨⟩ | ⟨⟨h₁, _⟩, hm⟩ := hm
  obtain ⟨⟩ | ⟨⟨h₂, _⟩, hm⟩ := hm
  obtain ⟨⟩ | ⟨⟨_, hok⟩, _⟩ := hm
  obtain rfl := Option.some.inj h₁
  obtain rfl := Option.some.inj h₂
  have hrec := hok 0 _ rfl rfl
  cases (hrec.onReq _ rfl)

/-- Two calls; before the message of the first goes out another connection numbers it 2. -/
def renumbered : List LinkOp :=
  [.call 20 0, .edit 0 { allocProposalMsg 0 with reqid := 2 }, .write 0, .call 20 1,
    .respond 0 (allocProposalMsg 0), .deliver 0]

/-- The second call gets the response to the first. -/
example : (LTS.exec Link.step (Link.new 100 0 0) renumbered).map Link.invoked = some [1] := by decide +kernel

end Quarrel
