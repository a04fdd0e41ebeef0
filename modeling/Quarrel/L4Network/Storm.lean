import Quarrel.L2Network.RemoteConn
import Quarrel.L3Role.Acceptor

/-!
# Answers to answers

Two nodes joined by a pair of connections. `onReq_` hands a message to the
acceptor, and what the acceptor answers is written back. The catch-all branch of
`doHandleMsg` answers whatever has no handler with INVALID_REQ, and INVALID_REQ has
no handler: an answer that nobody waits for is answered, and so is that answer,
without end.

What a callback does with a response, a proposer's next round for one, is not an
answer to it and is no part of the chain.

* `emits_of_none`, `not_emits_of_pending`: a message is answered where nothing
  waits for it.
* `not_finite_of_echo`: an answer that neither side waits for never comes to rest.
* `noStorm_iff`: when the chain is finite and no answer is answered.
-/
namespace Quarrel

/-- mirrors core/ptype.h:42-53; the types `doHandleMsg` gives to its answers. -/
def PaxosMsgType.IsAnswer (t : PaxosMsgType) : Prop :=
  t = .prepareRsp ∨ t = .acceptRsp ∨ t = .chosenRsp ∨ t = .invalidReq

instance (t : PaxosMsgType) : Decidable t.IsAnswer := by
  unfold PaxosMsgType.IsAnswer; exact inferInstance

/-- An acceptor and the connection to the other node. -/
structure Node (κ : Type) where
  cfg : Configure
  conn : RemoteConn κ
  acceptor : Acceptor

/-- A message on its way to the node `dest`. -/
structure Delivery (κ : Type) where
  nodes : Bool → Node κ
  dest : Bool
  msg : PaxosMsg

section

variable {κ : Type}

/-- `HandleRecv` with `Acceptor::AddMsg` as `onReq_`: the message written back, and
the node after it. A full queue (`room`) drops the request.
mirrors network/conn.h:111-139, core/acceptor.cpp:42-56 -/
def Node.recv (n : Node κ) (room : Bool) (saves : Saves) (msg : PaxosMsg) :
    Option PaxosMsg × Node κ :=
  match n.conn.handleRecv msg with
  | (.callback _ _, conn) => (none, { n with conn := conn })
  | (.onReq msg, conn) =>
    if room then
      match n.acceptor.doHandleMsg n.cfg saves msg with
      | (rsp, acceptor) => (rsp, { n with conn := conn, acceptor := acceptor })
    else (none, { n with conn := conn })

/-- The message makes its receiver write one back. -/
def Emits (d d' : Delivery κ) : Prop :=
  ∃ room saves rsp, ((d.nodes d.dest).recv room saves d.msg).1 = some rsp ∧
    d' = ⟨Function.update d.nodes d.dest ((d.nodes d.dest).recv room saves d.msg).2, !d.dest, rsp⟩

/-- The chain of messages that follows comes to an end. -/
def FiniteChain (d : Delivery κ) : Prop := Acc (fun d' d => Emits d d') d

/-- The chain ends, and an answer makes its receiver write nothing. -/
def NoStorm (d : Delivery κ) : Prop := FiniteChain d ∧ (d.msg.type.IsAnswer → ∀ d', ¬ Emits d d')

/-- The node waits for a message with this id. -/
def Node.Awaits (n : Node κ) (msg : PaxosMsg) : Prop := n.conn.pending msg.reqid ≠ none

/-! ## One message -/

theorem doHandleMsg_catchup {cfg : Configure} {a : Acceptor} {saves : Saves} {msg : PaxosMsg}
    (h : msg.type = .choreCatchup) : (a.doHandleMsg cfg saves msg).1 = none := by
  unfold Acceptor.doHandleMsg
  rw [show handlerOf msg.type = none by rw [h]; rfl]
  simp only [h, if_true]

theorem doHandleMsg_answer (cfg : Configure) (a : Acceptor) (saves : Saves) {msg : PaxosMsg}
    (h : msg.type ≠ .choreCatchup) :
    ∃ rsp, (a.doHandleMsg cfg saves msg).1 = some rsp ∧ rsp.reqid = msg.reqid ∧
    rsp.type.IsAnswer := by
  unfold Acceptor.doHandleMsg
  cases ht : msg.type with
  | prepareReq => exact ⟨_, rfl, rfl, .inl rfl⟩
  | acceptReq => exact ⟨_, rfl, rfl, .inr (.inl rfl)⟩
  | chosenReq => exact ⟨_, rfl, rfl, .inr (.inr (.inl rfl))⟩
  | choreCatchup => exact absurd ht h
  | invalid | prepareRsp | acceptRsp | chosenRsp | choreReq | invalidReq =>
    exact ⟨_, rfl, rfl, .inr (.inr (.inr rfl))⟩

variable {d d' : Delivery κ}

theorem not_emits_of_pending (h : (d.nodes d.dest).Awaits d.msg) : ¬ Emits d d' := by
  intro he
  obtain ⟨room, saves, rsp, hr, _⟩ := he
  obtain ⟨rd, hrd⟩ := Option.ne_none_iff_exists'.mp h
  have hcb := (RemoteConn.handleRecv_of_pending hrd).1
  unfold Node.recv at hr
  generalize (d.nodes d.dest).conn.handleRecv d.msg = r at hcb hr
  obtain ⟨out, conn⟩ := r
  obtain rfl : out = .callback rd.cb d.msg := hcb
  cases hr

theorem recv_of_none {n : Node κ} {msg : PaxosMsg} (h : ¬ n.Awaits msg) (saves : Saves) :
    n.recv true saves msg =
      ((n.acceptor.doHandleMsg n.cfg saves msg).1,
        { n with acceptor := (n.acceptor.doHandleMsg n.cfg saves msg).2 }) := by
  unfold Node.recv
  rw [RemoteConn.handleRecv_of_none (not_not.mp h)]
  rfl

/-- A message nobody waits for is answered, and the connections stay as they are. -/
theorem emits_of_none (h : ¬ (d.nodes d.dest).Awaits d.msg) (ht : d.msg.type ≠ .choreCatchup) :
    ∃ d', Emits d d' ∧ d'.dest = (!d.dest) ∧ d'.msg.reqid = d.msg.reqid ∧ d'.msg.type.IsAnswer ∧
      ∀ b, (d'.nodes b).conn = (d.nodes b).conn := by
  obtain ⟨rsp, hrsp, hid, hans⟩ := doHandleMsg_answer (d.nodes d.dest).cfg (d.nodes d.dest).acceptor
    Saves.good ht
  have hrecv := recv_of_none h Saves.good
  refine ⟨_, ⟨true, Saves.good, rsp, by rw [hrecv]; exact hrsp, rfl⟩, rfl, hid, hans, fun b => ?_⟩
  show (Function.update d.nodes d.dest ((d.nodes d.dest).recv true Saves.good d.msg).2 b).conn =
    (d.nodes b).conn
  by_cases hb : b = d.dest
  · subst hb
    rw [hrecv, Function.update_self]
  · rw [Function.update_of_ne hb]

/-- What a message makes its receiver write is an answer to the sender, under the
same id, and the sender waits for it exactly if it did before. -/
theorem Emits.answer (h : Emits d d') :
    d.msg.type ≠ .choreCatchup ∧ d'.msg.reqid = d.msg.reqid ∧ d'.dest = (!d.dest) ∧
      d'.nodes (!d.dest) = d.nodes (!d.dest) := by
  have hn : ¬ (d.nodes d.dest).Awaits d.msg := fun hp => not_emits_of_pending hp h
  obtain ⟨room, saves, rsp, hr, rfl⟩ := h
  cases room with
  | false =>
    unfold Node.recv at hr
    rw [RemoteConn.handleRecv_of_none (not_not.mp hn)] at hr
    cases hr
  | true =>
    rw [recv_of_none hn saves] at hr
    have hc : d.msg.type ≠ .choreCatchup := by
      intro hc
      rw [doHandleMsg_catchup hc] at hr
      cases hr
    obtain ⟨rsp', hrsp, hid, _⟩ := doHandleMsg_answer (d.nodes d.dest).cfg (d.nodes d.dest).acceptor
      saves hc
    rw [hrsp] at hr
    obtain rfl := Option.some.inj hr
    exact ⟨hc, hid, rfl, Function.update_of_ne (by cases d.dest <;> decide) _ _⟩

/-! ## Chains -/

/-- An answer neither side waits for. -/
structure Echo (d : Delivery κ) : Prop where
  answer : d.msg.type.IsAnswer
  unawaited : ∀ b, ¬ (d.nodes b).Awaits d.msg

theorem Echo.emits (h : Echo d) : ∃ d', Emits d d' ∧ Echo d' := by
  have hc : d.msg.type ≠ .choreCatchup := by
    intro hc
    have := h.answer
    rw [hc] at this
    exact absurd this (by decide)
  obtain ⟨d', he, _, hid, hans, hconn⟩ := emits_of_none (h.unawaited d.dest) hc
  refine ⟨d', he, hans, fun b => ?_⟩
  unfold Node.Awaits
  rw [hconn, hid]
  exact h.unawaited b

theorem not_finite_of_echo (h : Echo d) : ¬ FiniteChain d := by
  intro hf
  induction hf with
  | intro d _ ih =>
    obtain ⟨d', he, hecho⟩ := h.emits
    exact ih d' he hecho

theorem finite_of_awaited (h : (d.nodes d.dest).Awaits d.msg) : FiniteChain d :=
  .intro d fun _ he => absurd he (not_emits_of_pending h)

/-- For every message and every state of the two nodes: the chain is finite and an
answer makes its receiver write nothing, if and only if the receiver waits for the
message, or it is no answer and is either CHORE_CATCHUP or awaited by the sender. -/
theorem noStorm_iff (d : Delivery κ) :
    NoStorm d ↔ (d.nodes d.dest).Awaits d.msg ∨
      (¬ d.msg.type.IsAnswer ∧
        (d.msg.type = .choreCatchup ∨ (d.nodes (!d.dest)).Awaits d.msg)) := by
  constructor
  · intro h
    obtain ⟨hf, hans⟩ := h
    by_cases hp : (d.nodes d.dest).Awaits d.msg
    · exact .inl hp
    by_cases hc : d.msg.type = .choreCatchup
    · exact .inr ⟨by rw [hc]; decide, .inl hc⟩
    obtain ⟨d', he, hdest, hid, ht, hconn⟩ := emits_of_none hp hc
    refine .inr ⟨fun hm => hans hm d' he, .inr ?_⟩
    by_contra hs
    refine not_finite_of_echo ⟨ht, fun b => ?_⟩ (hf.inv he)
    unfold Node.Awaits at hp hs ⊢
    rw [hconn, hid]
    cases hb : d.dest <;> rw [hb] at hp hs <;> cases b <;> first | exact hp | exact hs
  · intro h
    rcases h with hp | ⟨hm, hc | hs⟩
    · exact ⟨finite_of_awaited hp, fun _ d' => not_emits_of_pending hp⟩
    · exact ⟨.intro d fun d' he => absurd hc he.answer.1, fun hm' => absurd hm' hm⟩
    · refine ⟨.intro d fun d' he => finite_of_awaited ?_, fun hm' => absurd hm' hm⟩
      obtain ⟨_, hid, hdest, hnode⟩ := he.answer
      unfold Node.Awaits
      rw [hdest, hnode, hid]
      exact hs

end

/-- A node that has called nobody. -/
def idleNode (id : Nat) : Node Unit where
  cfg := Configure.init id
  conn := .new 100 0
  acceptor := .new (Configure.init id) fun _ _ => none

/-- A response delivered a second time, when nobody waits for it any more. -/
def lateResponse : Delivery Unit where
  nodes b := idleNode b.toNat
  dest := false
  msg := { allocProposalMsg 0 with type := .prepareRsp, reqid := 1 }

theorem not_alwaysNoStorm : ¬ ∀ d : Delivery Unit, NoStorm d := by
  intro hall
  refine not_finite_of_echo (d := lateResponse) ⟨.inl rfl, fun b => ?_⟩ (hall lateResponse).1
  unfold Node.Awaits
  exact not_not.mpr rfl

end Quarrel
