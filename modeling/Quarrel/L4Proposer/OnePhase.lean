import Quarrel.Core.LTS
import Quarrel.L4Proposer.Fields

/-!
# The one-phase rule of a slave

A proposer whose id is not 0 may send an ACCEPT without a PREPARE once it has had
the entry before chosen itself, since its construction. The guard compares
`last_chosen_from_` with the proposer's own id, and the field starts as no
proposer's id. Rounds of its own set it, and so does `OnEntryChosen`: it turns away
what comes from the plog, but a peer's notification of an entry the proposer had
chosen before a restart names the same id.

* `Session`: one proposer since its construction, with everything it has broadcast.
* `OwnLast`: the invariant, with `step_ownLast` for one step.
* `slave_one_phase`: the rule, in runs whose notifications name another proposer or
  an entry the instance has itself had chosen.
* `not_slaveRule`: a late notification, and a call.
-/
namespace Quarrel

open InstanceState

/-! ## One proposer since its construction -/

structure Session where
  prop : Proposer
  sent : List PaxosMsg

inductive SessionOp where
  | propose (opaqueData : Nat) (val : List UInt8) (pinst promise : Nat) (oom : Bool)
  | response (m : RpcResponseMsg)
  | entryChosen (msg : PaxosMsg) (fromPlog : Bool)

namespace Session

/-- The state of the instance that a number picks. -/
def inst (s : Session) (cfg : Configure) (pinst : Nat) :
    InstanceState := s.prop (pinst % cfg.plogInstNum)

/-- Responses are any, and `none` for a timeout. -/
def step (cfg : Configure) (s : Session) : SessionOp → Option Session
  | .propose opaqueData val pinst promise oom =>
    let r := s.prop.proposeAsync cfg opaqueData val pinst promise oom
    some ⟨r.1, s.sent ++ broadcasts r.2⟩
  | .response m => (s.prop.handleRpcResponse cfg m).map fun r => ⟨r.1, s.sent ++ broadcasts r.2⟩
  | .entryChosen msg fromPlog => some { s with prop := s.prop.onEntryChosen cfg msg fromPlog }

/-- A round of the instance's own has had the entry chosen: its CHOSEN was broadcast. -/
def HadChosen (s : Session) (i e : Nat) : Prop :=
  ∃ m ∈ s.sent, m.type = .chosenReq ∧ m.pp.pinst = i ∧ m.pp.pentry = e

end Session

/-- The sessions of one proposer, constructed at any second. -/
def sessionSys (cfg : Configure) : LTS Session SessionOp :=
  .ofFn (fun s => ∃ sec, s = ⟨Proposer.new cfg sec, []⟩) (Session.step cfg)

/-- An instance whose id is not 0 sends an ACCEPT at a call only if it has itself
had the entry before chosen. -/
def SlaveRule (cfg : Configure) (s : Session) (op : SessionOp) (_ : Session) : Prop :=
  ∀ opaqueData val pinst promise oom, op = .propose opaqueData val pinst promise oom →
    (s.inst cfg pinst).proposerId ≠ 0 →
    ∀ m ∈ broadcasts (s.prop.proposeAsync cfg opaqueData val pinst promise oom).2, m.type = .acceptReq →
      s.HadChosen (pinst % cfg.plogInstNum) (m.pp.pentry - 1)

/-- A peer's notification that is recorded names another proposer, or an entry the
instance has itself had chosen. -/
def NamesOthers (cfg : Configure) (s : Session) (op : SessionOp) (_ : Session) : Prop :=
  ∀ msg, op = .entryChosen msg false → msg.pp.pentry ≠ 0 → msg.pp.pentry ≠ noEntry →
    (s.inst cfg msg.pp.pinst).lastChosenEntry ≤ msg.pp.pentry →
    u32 msg.pp.proposer = (s.inst cfg msg.pp.pinst).proposerId →
    s.HadChosen (msg.pp.pinst % cfg.plogInstNum) msg.pp.pentry

/-- A slave's instance whose last chosen entry is from itself has had it chosen. -/
def OwnLast (s : Session) : Prop :=
  ∀ i, (s.prop i).proposerId ≠ 0 → (s.prop i).lastChosenFrom = (s.prop i).proposerId →
    s.HadChosen i (s.prop i).lastChosenEntry

section

variable {cfg : Configure} {s s' : Session}

theorem Session.HadChosen.more {i e : Nat} (h : s.HadChosen i e) {p : Proposer}
    {new : List PaxosMsg} :
    (⟨p, s.sent ++ new⟩ : Session).HadChosen i e := by
  obtain ⟨m, hm, hrest⟩ := h
  exact ⟨m, List.mem_append_left _ hm, hrest⟩

theorem OwnLast.update (h : OwnLast s) {j : Nat} {st : InstanceState} {new : List PaxosMsg}
    (hj : st.proposerId ≠ 0 → st.lastChosenFrom = st.proposerId →
      (⟨s.prop, s.sent ++ new⟩ : Session).HadChosen j st.lastChosenEntry) :
    OwnLast ⟨Function.update s.prop j st, s.sent ++ new⟩ := by
  intro i hne hfrom
  by_cases hi : i = j
  · subst hi
    simp only [Function.update_self] at hne hfrom ⊢
    exact hj hne hfrom
  · simp only [Function.update_of_ne hi] at hne hfrom ⊢
    exact (h i hne hfrom).more

theorem OwnLast.same (h : OwnLast s) {j : Nat} {st : InstanceState} (hs : KeepsChosen (s.prop j) st)
    (new : List PaxosMsg) : OwnLast ⟨Function.update s.prop j st, s.sent ++ new⟩ := by
  refine h.update fun hne hfrom => ?_
  rw [hs.entry]
  rw [hs.proposerId] at hne hfrom
  rw [hs.source] at hfrom
  exact (h j hne hfrom).more

theorem OwnLast.unmoved (h : OwnLast s) (new : List PaxosMsg) : OwnLast ⟨s.prop, s.sent ++ new⟩ :=
  fun i hne hfrom => (h i hne hfrom).more

theorem OwnLast.response {m : RpcResponseMsg} {p : Proposer} {outs : List Out} (h : OwnLast s)
    (hr : s.prop.handleRpcResponse cfg m = some (p, outs)) :
    OwnLast ⟨p, s.sent ++ broadcasts outs⟩ := by
  cases Proposer.handleRpcResponse_done hr with
  | late | phaseless => exact h.unmoved _
  | timeout =>
    have hsame : KeepsChosen (s.prop (m.pinst % cfg.plogInstNum))
        (s.prop (m.pinst % cfg.plogInstNum)).handleTimeout.1 := ⟨rfl, rfl, rfl⟩
    exact h.same hsame _
  | prepare rsp haw hmsg hph hs => exact h.same (handlePrepareRsp_ids hs).toKeepsChosen _
  | accept rsp haw hmsg hph hs =>
    rcases handleAcceptRsp_ids hs with hkeep | ⟨hrec, hsent, _⟩
    · exact h.same hkeep.toKeepsChosen _
    · refine h.update fun _ _ => ?_
      rw [hrec.entry]
      exact ⟨_, List.mem_append_right _ hsent, rfl, rfl, rfl⟩

theorem OwnLast.entryChosen {msg : PaxosMsg} {fromPlog : Bool} (h : OwnLast s)
    (hok : NamesOthers cfg s (.entryChosen msg fromPlog) s') :
    OwnLast ⟨s.prop.onEntryChosen cfg msg fromPlog, s.sent⟩ := by
  have hupd : ∀ st : InstanceState, (st.proposerId ≠ 0 → st.lastChosenFrom = st.proposerId →
      s.HadChosen (msg.pp.pinst % cfg.plogInstNum) st.lastChosenEntry) →
      OwnLast ⟨Function.update s.prop (msg.pp.pinst % cfg.plogInstNum) st, s.sent⟩ := by
    intro st hst
    rw [← List.append_nil s.sent]
    exact h.update fun hne hfrom => (hst hne hfrom).more
  have hkeep := h (msg.pp.pinst % cfg.plogInstNum)
  unfold Proposer.onEntryChosen InstanceState.onEntryChosen
  dsimp only
  split
  · exact hupd _ hkeep
  · rename_i hplog
    rcases updateChosenInfo_cases (s.prop (msg.pp.pinst % cfg.plogInstNum)) msg.pp.pentry msg.pp.proposer with
      ⟨_, hu⟩ | ⟨h0, h1, hle, hu⟩
    · rw [hu]
      exact hupd _ hkeep
    · rw [hu]
      refine hupd _ fun hne hfrom => ?_
      cases fromPlog with
      | true => exact absurd ⟨rfl, hne⟩ hplog
      | false => exact hok msg rfl h0 h1 hle hfrom

theorem step_ownLast {op : SessionOp} (h : OwnLast s) (hs : s.step cfg op = some s')
    (hok : NamesOthers cfg s op s') :
    OwnLast s' := by
  cases op with
  | propose opaqueData val pinst promise oom =>
    obtain rfl := Option.some.inj hs
    exact h.same (proposeAsync_chosen cfg _ _ _ _ _ _) _
  | response m =>
    obtain ⟨⟨p, outs⟩, hr, rfl⟩ := Option.map_eq_some_iff.mp hs
    exact h.response hr
  | entryChosen msg fromPlog =>
    obtain rfl := Option.some.inj hs
    exact h.entryChosen hok

/-- An ACCEPT at a call: the guard has let it through. -/
theorem OwnLast.slaveRule (h : OwnLast s) (op : SessionOp) : SlaveRule cfg s op s' := by
  intro opaqueData val pinst promise oom _ hne m hm ht
  have hd :=
    proposeAsync_done cfg (s.inst cfg pinst) (pinst % cfg.plogInstNum) opaqueData val promise oom
  have hm' : m ∈ broadcasts ((s.inst cfg pinst).proposeAsync cfg (pinst % cfg.plogInstNum)
      opaqueData val promise
      oom).2 := hm
  generalize (s.inst cfg pinst).proposeAsync cfg (pinst % cfg.plogInstNum) opaqueData val promise
    oom = r at hd hm'
  obtain ⟨st, outs⟩ := r
  cases hd with
  | rejected => cases hm'
  | prepare q _ hq _ =>
    obtain rfl := List.mem_singleton.mp hm'
    rw [hq] at ht
    cases ht
  | fast q _ hq _ hskip =>
    obtain rfl := List.mem_singleton.mp hm'
    obtain ⟨hentry, hfrom, _⟩ := of_decide_eq_true hskip
    rw [← hentry]
    exact h _ hne hfrom

end

/-- The id of a server of the group is below the number of proposers, and no
instance starts with itself as the proposer of the last chosen entry. -/
theorem ownLast_start {cfg : Configure} (hid : cfg.localId < cfg.totalProposer)
    (hcount : cfg.totalProposer < 2 ^ 32) (sec : Nat) : OwnLast ⟨Proposer.new cfg sec, []⟩ := by
  intro i _ hfrom
  have hlt : getMemberIdBySvrId cfg.totalProposer i cfg.localId < cfg.totalProposer :=
    memberId_lt hid
  have hfrom' : noProposer = getMemberIdBySvrId cfg.totalProposer i cfg.localId := hfrom
  unfold noProposer at hfrom'
  omega

/-- In a run from the construction whose peers' notifications name another proposer,
or an entry the instance has itself had chosen, a slave sends an ACCEPT without a
PREPARE only for the entry after one that a round of its own had chosen. -/
theorem slave_one_phase {cfg : Configure} (hid : cfg.localId < cfg.totalProposer)
    (hcount : cfg.totalProposer < 2 ^ 32) {s₀ s : Session} {ops : List SessionOp}
    (h : (sessionSys cfg).init s₀)
    (hr : ((sessionSys cfg).restrict (NamesOthers cfg)).Run s₀ ops s) :
    ((sessionSys cfg).restrict (SlaveRule cfg)).Run s₀ ops s := by
  obtain ⟨sec, rfl⟩ := h
  have hown := ownLast_start hid hcount sec
  generalize (⟨Proposer.new cfg sec, []⟩ : Session) = s₀ at hr hown
  induction hr with
  | nil => exact .nil _
  | cons hs _ ih => exact .cons ⟨hs.1, hown.slaveRule _⟩ (ih (step_ownLast hown hs.1 hs.2))

/-- Proposer 1 has entry 1 chosen, and calls again. -/
def secondCall : List SessionOp :=
  let m := asPrepareReq ((Proposer.new (Configure.init 1) 7 0).proposalMsg (Configure.init 1) 0 0 [8])
  let promise := { m with type := .prepareRsp, pp := { m.pp with status := .promised } }
  let accept := { m with type := .acceptRsp, pp := { m.pp with status := .accepted } }
  [.propose 0 [8] 0 1 false, .response (rpcResponseOf m promise), .response (rpcResponseOf m promise),
    .response (rpcResponseOf m accept), .response (rpcResponseOf m accept), .propose 0 [9] 0 2 false]

def isNotified : SessionOp → Bool
  | .entryChosen .. => true
  | _ => false

def secondCalled : Session :=
  (LTS.exec (fun s op => (Session.step (Configure.init 1) s op).filter fun _ => !isNotified op)
    ⟨Proposer.new (Configure.init 1) 7, []⟩ secondCall).get (by decide +kernel)

/-- The second call sends no PREPARE. -/
theorem slave_one_phase_second :
    secondCalled.sent.map (·.type) = [.prepareReq, .acceptReq, .chosenReq, .acceptReq] ∧
    ((sessionSys (Configure.init 1)).restrict (SlaveRule (Configure.init 1))).Run
      ⟨Proposer.new (Configure.init 1) 7, []⟩ secondCall secondCalled := by
  refine ⟨by decide +kernel, slave_one_phase (by decide) (by decide) ⟨7, rfl⟩ ?_⟩
  refine LTS.run_of_guarded (g := fun _ op _ => !isNotified op) (fun s op s' _ hg msg he => ?_)
    (Option.some_get _).symm
  rw [he] at hg
  cases hg

/-! ## After a restart -/

/-- A proposal of proposer 1 for entry 5. -/
def ownProposal : PaxosMsg :=
  { allocProposalMsg 0 with pp := { allocProposal 0 with pentry := 5, proposer := 1 } }

/-- A peer tells proposer 1, just constructed, of entry 5, which it had chosen before. -/
def notifiedLate : Session :=
  ⟨(Proposer.new (Configure.init 1) 7).onEntryChosen (Configure.init 1) ownProposal false, []⟩

/-- Its first call is an ACCEPT for entry 6. -/
theorem not_slaveRule :
    ¬ ∀ (cfg : Configure) (s₀ s : Session) (ops : List SessionOp), cfg.localId < cfg.totalProposer →
      cfg.totalProposer < 2 ^ 32 → (sessionSys cfg).init s₀ → (sessionSys cfg).Run s₀ ops s →
      ((sessionSys cfg).restrict (SlaveRule cfg)).Run s₀ ops s := by
  intro hall
  have hrun : (sessionSys (Configure.init 1)).Run ⟨Proposer.new (Configure.init 1) 7, []⟩
      [.entryChosen ownProposal false, .propose 0 [8] 0 1 false]
      ⟨(notifiedLate.prop.proposeAsync (Configure.init 1) 0 [8] 0 1 false).1,
        [] ++ broadcasts (notifiedLate.prop.proposeAsync (Configure.init 1) 0 [8] 0 1 false).2⟩ :=
    .cons rfl (.cons rfl (.nil _))
  have hrule := hall _ _ _ _ (by decide) (by decide) ⟨7, rfl⟩ hrun
  obtain ⟨⟩ | ⟨⟨h₁, _⟩, hrule⟩ := hrule
  obtain ⟨⟩ | ⟨⟨_, hok⟩, _⟩ := hrule
  obtain rfl := Option.some.inj h₁
  obtain ⟨m, hm, _⟩ := hok 0 [8] 0 1 false rfl (by decide) _ (List.mem_cons_self ..) rfl
  cases hm

end Quarrel
