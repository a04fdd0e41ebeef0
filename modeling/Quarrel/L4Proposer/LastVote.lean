import Quarrel.L3Role.AcceptorSpec
import Quarrel.L3Role.ProposerSpec

/-!
# The last vote between acceptor and proposer

An acceptor that has accepted a proposal answers a PREPARE with that proposal,
under status ACCEPTED. The proposer gives up on every answer whose status is not
PROMISED before it looks at the value id, so the branch that adopts a peer's
vote never sees one.

* `prepareReq_voted`: the answer of an entry that holds a vote.
* `vote_never_taken`: no such answer is counted as a promise.
* `not_voteTaken`: a vote of id 1, and a round that prepares id 2.
-/
namespace Quarrel

open EntryMng InstanceState

/-- The PREPARE `pp` of the round `req` outstanding meets the vote `a` of another
value, of a lower id and not yet chosen, at an entry above the last chosen one. -/
structure MeetsVote (m : EntryMng) (pp a : Proposal) (s : InstanceState) (req : PaxosMsg) :
    Prop where
  cap : 0 < m.entries.maxSize
  above : ¬ Behind m pp
  vote : (m.opened pp.pentry).accepted = some a
  status : a.status ≠ .chosen
  size : 0 < a.size
  lower : a.pid < pp.pid
  outstanding : s.req = some req
  phase : s.phase = preparingPhase
  same : Same pp req.pp
  other : a.valueId ≠ req.pp.valueId

/-- The answer is counted as a promise, and the vote kept is of an id not below `q`. -/
def TakesVote (cfg : Configure) (s : InstanceState) (rsp : PaxosMsg) (q : Nat) : Prop :=
  ∃ s' outs, s.handlePrepareRsp cfg rsp = some (s', outs) ∧ s'.validRspCount = s.validRspCount + 1 ∧
    ∃ v, s'.lastv = some v ∧ q ≤ v.pp.pid

/-- An entry that holds a vote is answered with it, under status ACCEPTED. -/
theorem prepareReq_voted {m : EntryMng} {pp a : Proposal} (hpos : 0 < m.entries.maxSize)
    (hb : ¬ Behind m pp) (ha : (m.opened pp.pentry).accepted = some a) (saves : Saves) :
    (handlePrepareReq m saves pp).rsp.pp.status = .accepted := by
  cases handlePrepareReq_done hpos saves pp with
  | behind hb' => exact absurd hb' hb
  | voted _ _ _ _ hr => rw [hr, prepareRsp_status]
  | kept _ _ hn | probed _ hn | promised _ hn | failed _ hn =>
    rw [ha] at hn
    cases hn

theorem InstanceState.PrepareRspDone.uncounted {cfg : Configure} {s s' : InstanceState}
    {req rsp : PaxosMsg}
    {outs : List Out} (h : PrepareRspDone cfg s req rsp s' outs) (hst : rsp.pp.status ≠ .promised) :
    s'.validRspCount = s.validRspCount := by
  cases h with
  | wrongType => rfl
  | refused _ _ _ _ _ _ _ _ ho =>
    rw [prepareOut_state ho]
    split <;> rfl
  | pending hv | probed hv | accepting _ hv => exact absurd hv.status hst

/-- In no state of an acceptor and of a proposer is the vote taken. -/
theorem vote_never_taken {cfg : Configure} {m : EntryMng} {pp a : Proposal} {s : InstanceState}
    {req : PaxosMsg} (h : MeetsVote m pp a s req) (saves : Saves) :
    ¬ TakesVote cfg s (handlePrepareReq m saves pp).rsp a.pid := by
  intro htakes
  obtain ⟨s', outs, hd, hcount, _⟩ := htakes
  have hst : (handlePrepareReq m saves pp).rsp.pp.status ≠ .promised := by
    rw [prepareReq_voted h.cap h.above h.vote saves]
    decide
  have hsame := (handlePrepareRsp_done h.outstanding hd).uncounted hst
  omega

/-! ## A vote of id 1 -/

/-- The master's proposal of the value `[7]`. -/
def votedProposal : Proposal :=
  ((InstanceState.new 0 3 7).proposalMsg (Configure.init 0) 0 0 [7]).pp

/-- An acceptor's manager that has accepted it. -/
def votedMng : EntryMng :=
  (handleAcceptReq (EntryMng.new (Configure.init 0) 0 fun _ => none) Saves.good votedProposal).mng

/-- Proposer 1 after `ProposeAsync` of the value `[8]`. -/
def preparingState : InstanceState :=
  ((InstanceState.new 1 3 9).proposeAsync (Configure.init 1) 0 0 [8] 1 false).1

/-- Its request outstanding. -/
def preparingReq : PaxosMsg := (InstanceState.new 1 3 9).proposalMsg (Configure.init 1) 0 0 [8]

theorem meetsVote_first : MeetsVote votedMng (asPrepareReq preparingReq).pp (asAccepted votedProposal)
    preparingState preparingReq :=
  ⟨by decide, by decide, rfl, by decide, by decide, by decide, rfl, rfl, ⟨rfl, rfl, rfl, rfl⟩, by decide⟩

theorem vote_never_taken_first : ¬ TakesVote (Configure.init 1) preparingState
    (handlePrepareReq votedMng Saves.good (asPrepareReq preparingReq).pp).rsp
      (asAccepted votedProposal).pid :=
  vote_never_taken meetsVote_first Saves.good

/-- Acceptor and proposer do not agree on what a vote looks like. -/
theorem not_voteTaken :
    ¬ ∀ (cfg : Configure) (m : EntryMng) (pp a : Proposal) (s : InstanceState) (req : PaxosMsg)
    (saves : Saves),
      MeetsVote m pp a s req → TakesVote cfg s (handlePrepareReq m saves pp).rsp a.pid := by
  intro hall
  obtain ⟨s', outs, hd, hcount, _⟩ :=
    hall (Configure.init 1) votedMng (asPrepareReq preparingReq).pp
    (asAccepted votedProposal) preparingState preparingReq Saves.good meetsVote_first
  have hrun : preparingState.handlePrepareRsp (Configure.init 1)
      (handlePrepareReq votedMng Saves.good (asPrepareReq preparingReq).pp).rsp =
        some ({ preparingState with rspCount := 1 }, []) := by decide +kernel
  rw [hrun] at hd
  obtain ⟨rfl, -⟩ := Prod.mk.inj (Option.some.inj hd)
  exact absurd hcount (by decide)

end Quarrel
