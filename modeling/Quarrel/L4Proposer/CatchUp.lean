import Quarrel.Core.LTS
import Quarrel.L4Proposer.Fields
import Quarrel.L4Proposer.OneReply

/-!
# Catching up (`core/proposer.cpp`)

An acceptor that turns a request down because it is behind, or because the proposer is, reports
its last chosen entry in the response. The comment in `handlePrepareRsp` counts on that: the first
attempt fails, the last chosen entry is set to the largest one reported, and the second attempt is
for a later entry. Both handlers take their error exit before they look at the report.

* `Hears`: what an instance does learn chosen entries from.
* `step_hears`, `exec_hears`: the last chosen entry reaches `c` with such a step and no other.
* `catchesUp_iff`: after a failed round that was told of the entry `c`.
* `not_catchesUp`: every acceptor reports entry 5, and the second attempt is for entry 1 again.
-/
namespace Quarrel

open InstanceState

/-- `chosen` is an entry, and not below `c`. -/
structure Reaches (c chosen : Nat) : Prop where
  pos : chosen ≠ 0
  real : chosen ≠ noEntry
  le : c ≤ chosen

/-- The answer `rsp` completes a majority for the request of the ACCEPT phase, and its entry is not
below `c`. -/
structure InstanceState.Completes (cfg : Configure) (s : InstanceState) (rsp : PaxosMsg) (c : Nat) :
    Prop where
  valid : ∃ req, s.req = some req ∧ ValidAccept req rsp
  majority : cfg.majority ≤ u8 (s.validRspCount + 1)
  reaches : Reaches c rsp.pp.pentry

/-- Instance `i` hears of a chosen entry not below `c`: it is notified, or has a majority for its
own round. -/
def Hears (cfg : Configure) (i c : Nat) (r : ProposerRun) : ProposerOp → Prop
  | .propose .. => False
  | .response m => ∃ rsp, m.msg = some rsp ∧ rsp.pp.pinst = i ∧
      (r.states (m.pinst % cfg.plogInstNum)).Awaits m.term ∧
      (r.states (m.pinst % cfg.plogInstNum)).phase = acceptingPhase ∧ (r.states i).Completes cfg rsp c
  | .entryChosen msg fromPlog => msg.pp.pinst % cfg.plogInstNum = i ∧
      ¬ (fromPlog ∧ (r.states i).proposerId ≠ 0) ∧ Reaches c msg.pp.pentry

/-! ## One step -/

section

variable {cfg : Configure} {s s' : InstanceState} {rsp : PaxosMsg} {outs : List Out} {c : Nat}

theorem unchanged_reaches {P : Prop} (he : s'.lastChosenEntry = s.lastChosenEntry) (hno : ¬ P) :
    c ≤ s'.lastChosenEntry ↔ c ≤ s.lastChosenEntry ∨ P := by
  rw [he]
  exact ⟨.inl, fun h => h.elim id fun hp => absurd hp hno⟩

theorem updateChosenInfo_reaches (s : InstanceState) (chosen source : Nat) :
    c ≤ (s.updateChosenInfo chosen source).lastChosenEntry ↔
      c ≤ s.lastChosenEntry ∨ Reaches c chosen := by
  rcases updateChosenInfo_cases s chosen source with ⟨hno, he⟩ | ⟨hpos, hreal, hle, he⟩
  · rw [he]
    refine ⟨.inl, fun h => h.elim id fun hc => ?_⟩
    rcases hno with h0 | h1 | hlt
    · exact absurd h0 hc.pos
    · exact absurd h1 hc.real
    · exact Nat.le_of_lt (Nat.lt_of_le_of_lt hc.le hlt)
  · rw [he]
    refine ⟨fun h => .inr ⟨hpos, hreal, h⟩, fun h => ?_⟩
    exact h.elim (fun hc => Nat.le_trans hc hle) fun hc => hc.le

theorem handleAcceptRsp_completes (h : s.handleAcceptRsp cfg rsp = (s', outs)) :
    c ≤ s'.lastChosenEntry ↔ c ≤ s.lastChosenEntry ∨ s.Completes cfg rsp c := by
  cases hq : s.req with
  | none =>
    refine unchanged_reaches ?_ ?_
    · unfold handleAcceptRsp at h
      rw [hq] at h
      cases h
      rfl
    · rintro ⟨⟨req, hreq, -⟩, -, -⟩
      rw [hq] at hreq
      cases hreq
  | some q =>
    have hvalid : s.Completes cfg rsp c → ValidAccept q rsp := by
      rintro ⟨⟨req, hreq, hv⟩, -, -⟩
      rw [hq] at hreq
      obtain rfl := Option.some.inj hreq
      exact hv
    cases handleAcceptRsp_done hq h with
    | wrongType ht => exact unchanged_reaches rfl fun hc => ht (hvalid hc).type
    | refused ret req' ig ht hv hret hreq hig ho =>
      refine unchanged_reaches ?_ fun hc => hv (hvalid hc)
      exact (KeepsIds.acceptOut (refused_ids hig) ho).entry
    | pending hv hno ho =>
      refine unchanged_reaches ?_ fun hc => hno hc.majority
      rw [acceptOut_state ho]
      split <;> rfl
    | chosen hv hmaj hs ho =>
      rw [hs]
      refine (updateChosenInfo_reaches (s.afterAccept q rsp) _ _).trans (or_congr_right ?_)
      exact ⟨fun hc => ⟨⟨q, hq, hv⟩, hmaj, hc⟩, fun hc => hc.reaches⟩

end

section

variable {cfg : Configure} {p p' : Proposer} {r r' : ProposerRun} {i c : Nat}

theorem update_reaches {P : Prop} {j : Nat} {s : InstanceState}
    (hs : j = i → (c ≤ s.lastChosenEntry ↔ c ≤ (p i).lastChosenEntry ∨ P)) (hno : j ≠ i → ¬ P) :
    c ≤ (Function.update p j s i).lastChosenEntry ↔ c ≤ (p i).lastChosenEntry ∨ P := by
  by_cases hj : j = i
  · subst hj
    rw [Function.update_self]
    exact hs rfl
  · rw [Function.update_of_ne (Ne.symm hj)]
    exact ⟨.inl, fun h => h.elim id fun hp => absurd hp (hno hj)⟩

theorem response_hears {m : RpcResponseMsg} {outs : List Out}
    (h : r.states.handleRpcResponse cfg m = some (p', outs)) :
    c ≤ (p' i).lastChosenEntry ↔ c ≤ (r.states i).lastChosenEntry ∨ Hears cfg i c r (.response m) := by
  cases Proposer.handleRpcResponse_done h with
  | late haw =>
    refine unchanged_reaches rfl ?_
    rintro ⟨rsp, -, -, haw', -⟩
    exact haw haw'
  | timeout haw hmsg =>
    have hno : ¬ Hears cfg i c r (.response m) := by
      rintro ⟨rsp, hrsp, -⟩
      rw [hmsg] at hrsp
      cases hrsp
    refine update_reaches (fun hj => ?_) fun _ => hno
    subst hj
    exact unchanged_reaches rfl hno
  | prepare rsp haw hmsg hph hs =>
    have hno : ¬ Hears cfg i c r (.response m) := by
      rintro ⟨-, -, -, -, hacc, -⟩
      rw [hph] at hacc
      exact absurd hacc (by decide)
    refine update_reaches (fun hj => ?_) fun _ => hno
    subst hj
    exact unchanged_reaches (handlePrepareRsp_ids hs).entry hno
  | accept rsp haw hmsg hph hs =>
    have hears : Hears cfg i c r (.response m) ↔
        rsp.pp.pinst = i ∧ (r.states i).Completes cfg rsp c := by
      constructor
      · rintro ⟨rsp', hrsp', hi, -, -, hc⟩
        obtain rfl := Option.some.inj (hmsg.symm.trans hrsp')
        exact ⟨hi, hc⟩
      · rintro ⟨hi, hc⟩
        exact ⟨rsp, hmsg, hi, haw, hph, hc⟩
    rw [hears]
    refine update_reaches (fun hj => ?_) fun hj hc => hj hc.1
    subst hj
    refine (handleAcceptRsp_completes hs).trans (or_congr_right ?_)
    exact ⟨fun hc => ⟨rfl, hc⟩, fun hc => hc.2⟩
  | phaseless rsp hmsg hp ha =>
    refine unchanged_reaches rfl ?_
    rintro ⟨-, -, -, -, hacc, -⟩
    exact ha hacc

/-- The last chosen entry of the instance reaches `c` with a step it hears of such an entry. -/
theorem step_hears {op : ProposerOp} (h : r.step cfg op = some r') :
    c ≤ (r'.states i).lastChosenEntry ↔ c ≤ (r.states i).lastChosenEntry ∨ Hears cfg i c r op := by
  cases op with
  | propose opaqueData val pinst oom =>
    obtain rfl := Option.some.inj h
    refine update_reaches (fun hj => ?_) fun _ => id
    subst hj
    exact unchanged_reaches (proposeAsync_chosen cfg _ _ _ _ _ _).entry id
  | response m =>
    obtain ⟨⟨p', outs⟩, hres, rfl⟩ := Option.map_eq_some_iff.mp h
    exact response_hears hres
  | entryChosen msg fromPlog =>
    obtain rfl := Option.some.inj h
    refine update_reaches (fun hj => ?_) fun hj hc => hj hc.1
    subst hj
    unfold onEntryChosen
    split
    · rename_i hskip
      refine unchanged_reaches rfl ?_
      rintro ⟨-, hno, -⟩
      exact hno hskip
    · rename_i hno
      rw [updateChosenInfo_reaches]
      exact or_congr_right ⟨fun hc => ⟨rfl, hno, hc⟩, fun hc => hc.2.2⟩

theorem exec_hears {ops : List ProposerOp} (h : LTS.exec (ProposerRun.step cfg) r ops = some r') :
    c ≤ (r'.states i).lastChosenEntry ↔
      c ≤ (r.states i).lastChosenEntry ∨ LTS.Meets (ProposerRun.step cfg) (Hears cfg i c) r ops :=
  LTS.exec_iff_meets (Q := fun r => c ≤ (r.states i).lastChosenEntry)
    (fun _ _ _ hs => step_hears hs) h

end

/-! ## The attempt after a failed one -/

/-- A response that turns the request down and says that `c` is the last chosen entry. -/
structure ReportsLag (rsp : PaxosMsg) (c : Nat) : Prop where
  type : rsp.type = .prepareRsp ∨ rsp.type = .acceptRsp
  status : rsp.pp.status = .localLagBehind ∨ rsp.pp.status = .remoteLagBehind
  chosen : rsp.pp.lastChosen = c

/-- The proposer `p` before any call is counted. -/
def ProposerRun.uncalled (p : Proposer) : ProposerRun := ⟨p, fun _ => ⟨0, []⟩⟩

/-- A call starts a round for the entry after the last chosen one; `ops` is what happens until the
next call of the instance. The round fails, and one of its responses reports the entry `c`. -/
structure LagRound (cfg : Configure) (p : Proposer) (opaqueData : Nat) (val : List UInt8) (pinst : Nat)
    (ops : List ProposerOp) (r : ProposerRun) (c : Nat) : Prop where
  idle : (p (pinst % cfg.plogInstNum)).req = none
  run : LTS.exec (ProposerRun.step cfg) (.uncalled p) (.propose opaqueData val pinst false :: ops) = some r
  reported : ∃ m rsp, ProposerOp.response m ∈ ops ∧ m.msg = some rsp ∧
    m.pinst % cfg.plogInstNum = pinst % cfg.plogInstNum ∧
    m.term = (p (pinst % cfg.plogInstNum)).term ∧ ReportsLag rsp c
  real : c ≠ noEntry
  ahead : (p (pinst % cfg.plogInstNum)).lastChosenEntry + 1 ≤ c
  ended : (r.states (pinst % cfg.plogInstNum)).req = none
  failed : ∃ code, (1, code) ∈ (r.replies (pinst % cfg.plogInstNum)).set ∧ code ≠ ErrCode.ok

/-- A call to an idle instance is for the entry after the last chosen one. -/
theorem proposeAsync_idle {cfg : Configure} {s : InstanceState} (h : s.req = none) (i opaqueData : Nat)
    (val : List UInt8) (promise : Nat) :
    ∃ m, broadcasts (s.proposeAsync cfg i opaqueData val promise false).2 = [m] ∧
      m.pp.pentry = s.lastChosenEntry + 1 := by
  rcases proposeAsync_draws cfg s i opaqueData val promise false with ⟨-, hno⟩ | ⟨m, hm, hd⟩
  · unfold proposeAsync at hno
    simp only [h, Option.isSome_none, Bool.false_eq_true, if_false] at hno
    split at hno <;> cases hno
  · exact ⟨m, hm, hd.pentry⟩

/-- The second attempt is for an entry above the reported one exactly if the instance has heard in
some other way of an entry as high as that. -/
theorem catchesUp_iff {cfg : Configure} {p : Proposer} {opaqueData pinst c : Nat} {val : List UInt8}
    {ops : List ProposerOp} {r : ProposerRun} (h : LagRound cfg p opaqueData val pinst ops r c)
    (opaqueData' : Nat) (val' : List UInt8) (promise : Nat) :
    ∃ m, broadcasts (r.states.proposeAsync cfg opaqueData' val' pinst promise false).2 = [m] ∧
      (c < m.pp.pentry ↔ LTS.Meets (ProposerRun.step cfg) (Hears cfg (pinst % cfg.plogInstNum) c)
        (.uncalled p) (.propose opaqueData val pinst false :: ops)) := by
  obtain ⟨m, hm, hentry⟩ := @proposeAsync_idle cfg _ h.ended (pinst % cfg.plogInstNum) opaqueData' val'
    promise
  refine ⟨m, hm, ?_⟩
  rw [hentry, Nat.lt_succ_iff, exec_hears h.run]
  have hbelow : ¬ c ≤ (p (pinst % cfg.plogInstNum)).lastChosenEntry := Nat.not_le.mpr h.ahead
  exact ⟨fun hc => hc.elim (fun hle => absurd hle hbelow) id, .inr⟩

/-- The answer of an acceptor that has chosen entry 5 to a PREPARE for entry 1. -/
def lagAtFive : PaxosMsg :=
  { allocProposalMsg 0 with
    type := .prepareRsp
    errcode := ErrCode.remoteNeedCatchup
    pp := { allocProposal 0 with pentry := 1, status := .remoteLagBehind, lastChosen := 5 } }

/-- All three acceptors answer that. -/
def lagOps : List ProposerOp := List.replicate 3 (.response ⟨0, 0, 1, some lagAtFive⟩)

/-- The plog notifies the master of entry 5. -/
def notifyFive : ProposerOp :=
  .entryChosen { lagAtFive with pp := { lagAtFive.pp with pentry := 5 } } true

/-- The first call of the master and what follows. -/
def afterCall (ops : List ProposerOp) : Option ProposerRun :=
  LTS.exec (ProposerRun.step (Configure.init 0)) (.uncalled (Proposer.new (Configure.init 0) 7))
    (.propose 1 [9] 0 false :: ops)

/-- What a run has done to instance 0. -/
def ranTo (r : ProposerRun) : Nat × Nat × Bool × List (Nat × Int) :=
  ((r.states 0).lastChosenEntry, (r.states 0).proposerId, (r.states 0).req.isNone, (r.replies 0).set)

theorem lagRound_five {ops : List ProposerOp} {r : ProposerRun} {last id : Nat}
    (hrun : afterCall (lagOps ++ ops) = some r)
    (hr : (afterCall (lagOps ++ ops)).map ranTo = some (last, id, true, [(1, ErrCode.prepareNotQuoraum)])) :
    LagRound (Configure.init 0) (Proposer.new (Configure.init 0) 7) 1 [9] 0 (lagOps ++ ops) r 5 ∧
      (r.states 0).lastChosenEntry = last ∧ (r.states 0).proposerId = id := by
  rw [hrun] at hr
  obtain ⟨hlast, hid, hended, hset⟩ : (r.states 0).lastChosenEntry = last ∧
      (r.states 0).proposerId = id ∧ (r.states 0).req.isNone = true ∧
      (r.replies 0).set = [(1, ErrCode.prepareNotQuoraum)] := by
    simpa only [ranTo, Option.map_some, Option.some.injEq, Prod.mk.injEq] using hr
  refine ⟨⟨rfl, hrun, ?_, by decide, by decide, Option.isNone_iff_eq_none.mp hended, ?_⟩, hlast, hid⟩
  · refine ⟨⟨0, 0, 1, some lagAtFive⟩, lagAtFive, ?_, rfl, rfl, rfl, .inl rfl, .inr rfl, rfl⟩
    exact List.mem_append_left _ (List.mem_cons_self ..)
  · refine ⟨ErrCode.prepareNotQuoraum, ?_, by decide⟩
    change _ ∈ (r.replies 0).set
    rw [hset]
    exact List.mem_singleton.mpr rfl

/-- The master is notified of entry 5 after the round: the next call is for a later entry. -/
theorem catchesUp_iff_notified : ∃ r, afterCall (lagOps ++ [notifyFive]) = some r ∧
    ∃ m, broadcasts (r.states.proposeAsync (Configure.init 0) 1 [9] 0 2 false).2 = [m] ∧
      5 < m.pp.pentry := by
  obtain ⟨r₁, hr₁⟩ := Option.isSome_iff_exists.mp
    (show (afterCall (lagOps ++ [])).isSome by decide +kernel)
  obtain ⟨r, hr⟩ := Option.isSome_iff_exists.mp
    (show (afterCall (lagOps ++ [notifyFive])).isSome by decide +kernel)
  obtain ⟨hround, -⟩ := lagRound_five hr (show _ = some (5, 0, true, _) by decide +kernel)
  obtain ⟨-, -, hid⟩ := lagRound_five hr₁ (show _ = some (0, 0, true, _) by decide +kernel)
  obtain ⟨m, hm, hiff⟩ := catchesUp_iff hround 1 [9] 2
  have hears : LTS.Meets (ProposerRun.step (Configure.init 0)) (Hears (Configure.init 0) 0 5) r₁
      [notifyFive] := .inl ⟨rfl, fun hno => hno.2 hid, by decide, by decide, Nat.le_refl _⟩
  exact ⟨r, hr, m, hm, hiff.mpr (LTS.meets_append hr₁ hears)⟩

/-- All three acceptors report entry 5, and the next call is for entry 1 again. -/
theorem not_catchesUp :
    ¬ ∀ (cfg : Configure) (p : Proposer) (opaqueData pinst c : Nat) (val : List UInt8)
      (ops : List ProposerOp) (r : ProposerRun), LagRound cfg p opaqueData val pinst ops r c →
      ∀ (opaqueData' : Nat) (val' : List UInt8) (promise : Nat),
        ∀ m ∈ broadcasts (r.states.proposeAsync cfg opaqueData' val' pinst promise false).2,
          c < m.pp.pentry := by
  intro h
  obtain ⟨r, hr⟩ := Option.isSome_iff_exists.mp
    (show (afterCall (lagOps ++ [])).isSome by decide +kernel)
  obtain ⟨hround, hlast, -⟩ := lagRound_five hr (show _ = some (0, 0, true, _) by decide +kernel)
  obtain ⟨m, hm, hentry⟩ := @proposeAsync_idle (Configure.init 0) _ hround.ended 0 1 [9] 2
  have hlt := h _ _ _ _ _ _ _ _ hround 1 [9] 2 m ((congrArg (m ∈ ·) hm).mpr (List.mem_singleton.mpr rfl))
  rw [hentry] at hlt
  change 5 < (r.states 0).lastChosenEntry + 1 at hlt
  rw [hlast] at hlt
  exact absurd hlt (by decide)

end Quarrel
