import Quarrel.L4Acceptor.Answers
import Quarrel.L4Proposer.OneReply

/-!
# Instance isolation

A response is routed twice: the callback's instance picks the state whose term
and phase are checked, the instance in the response body picks the state that is
updated. The acceptor copies the instance into every body but one: the early
exit of ACCEPT answers with a zeroed proposal, that is, for instance 0.

* `isolated_iff`: handling the answer stays within the instance exactly when it
  is not that early exit reaching an instance, other than 0, that waits for it.
* `not_isolated`: an ACCEPT of instance 1 for an entry already chosen.
-/
namespace Quarrel

open EntryMng InstanceState

/-- The requests of the proposers; restarts read the whole log. -/
def ProposerRequests (cfg : Configure) (a : Acceptor) (op : AcceptorOp) (_ : Acceptor) : Prop :=
  match op with
  | .request msg _ => msg.pp.pinst < cfg.plogInstNum
  | .restart i batch _ _ => ReadsLog batch (a.mngs i).disk

/-- The response is the awaited answer of the outstanding round. -/
def InstanceState.AnswersRound (s : InstanceState) (term : Nat) (type : PaxosMsgType) : Prop :=
  s.Awaits term ∧ ((s.phase = preparingPhase ∧ type = .prepareRsp) ∨
    (s.phase = acceptingPhase ∧ type = .acceptRsp))

/-- Handling `m` reads and changes the state of instance `i` only, sets no promise
but its own, and counts an answer of the outstanding round there. The count
starts again when the answer opens the ACCEPT phase. -/
structure Isolated (cfg : Configure) (p : Proposer) (i : Nat) (m : RpcResponseMsg)
    (type : PaxosMsgType) :
    Prop where
  reads : ∀ q : Proposer, q i = p i → (q.handleRpcResponse cfg m).map (fun r => (r.1 i, r.2)) =
    (p.handleRpcResponse cfg m).map fun r => (r.1 i, r.2)
  others : ∀ p' outs, p.handleRpcResponse cfg m = some (p', outs) → ∀ j, j ≠ i → p' j = p j
  promises : ∀ p' outs, p.handleRpcResponse cfg m = some (p', outs) →
    ∀ k ∈ promiseIds outs, k = (p i).ret
  counted : ∀ p' outs, p.handleRpcResponse cfg m = some (p', outs) →
    (p i).AnswersRound m.term type →
    (p' i).rspCount = u8 ((p i).rspCount + 1) ∨
      ((p i).phase = preparingPhase ∧ (p' i).phase = acceptingPhase ∧ (p' i).rspCount = 0)

/-! ## The instance of an answer -/

theorem ownProposals_reachable {cfg : Configure} {a : Acceptor}
    (h : ((acceptorSys cfg).restrict (ProposerRequests cfg)).Reachable a) (i : Nat) :
    0 < (a.mngs i).entries.maxSize ∧ OwnProposals i (a.mngs i) := by
  refine acceptor_invariant (I := OwnProposals) (ownProposals_new cfg) ?_ ?_ a h i
  · intro a a' msg saves h hI hlt hs
    exact hs.ownProposals (hI _).2 (Nat.mod_eq_of_lt hlt).symm
  · intro a a' j batch lastCommitted fuel m hI hlog hm
    have hf := loadAllFromDisk_fromLog hlog hm
    exact ⟨hf.cap, (hI j).2.recovered hf⟩

/-! ## Handling the answer -/

section

variable {cfg : Configure} {s s' : InstanceState} {req rsp : PaxosMsg} {outs : List Out}

/-- A PREPARE answer is counted, or opens the ACCEPT phase. -/
theorem InstanceState.PrepareRspDone.counted (h : PrepareRspDone cfg s req rsp s' outs)
    (ht : rsp.type = .prepareRsp) :
    s'.rspCount = u8 (s.rspCount + 1) ∨ (s'.phase = acceptingPhase ∧ s'.rspCount = 0) := by
  have hcount := afterPromise_rspCount s req rsp
  let counted (t : InstanceState) : Prop := t.rspCount = u8 (s.rspCount + 1)
  cases h with
  | wrongType hne => exact absurd ht hne
  | refused _ _ _ _ _ _ _ _ ho => exact .inl (prepareOut_keeps (P := counted) ho rfl rfl)
  | pending _ _ _ ho => exact .inl (prepareOut_keeps (P := counted) ho hcount hcount)
  | probed _ _ _ _ _ ho => exact .inl (prepareOut_keeps (P := counted) ho hcount hcount)
  | accepting m _ _ _ _ _ _ hs _ =>
    refine .inr ⟨?_, by rw [hs]; rfl⟩
    rw [hs]
    exact accepting_phase _

theorem InstanceState.AcceptRspDone.counted (h : AcceptRspDone cfg s req rsp s' outs)
    (ht : rsp.type = .acceptRsp) : s'.rspCount = u8 (s.rspCount + 1) := by
  let counted (t : InstanceState) : Prop := t.rspCount = u8 (s.rspCount + 1)
  cases h with
  | wrongType hne => exact absurd ht hne
  | refused _ _ _ _ _ _ _ _ ho => exact acceptOut_keeps (P := counted) ho rfl rfl
  | pending _ _ ho => exact acceptOut_keeps (P := counted) ho rfl rfl
  | chosen _ _ hs _ =>
    rw [hs]
    exact (updateChosenInfo_keeps (s.afterAccept req rsp) rsp.pp.pentry rsp.pp.proposer).rspCount

end

section

variable {cfg : Configure} {p : Proposer} {m : RpcResponseMsg} {rsp : PaxosMsg}

theorem isolated_own (hm : m.msg = some rsp) (hi : m.pinst < cfg.plogInstNum)
    (hb : rsp.pp.pinst = m.pinst) : Isolated cfg p m.pinst m rsp.type := by
  have hmod : m.pinst % cfg.plogInstNum = m.pinst := Nat.mod_eq_of_lt hi
  have hown : ∀ q : Proposer, q.handleRpcResponse cfg m =
      ((q m.pinst).handleRsp cfg m.term rsp).map fun r => (Function.update q m.pinst r.1, r.2) := by
    intro q
    rw [Proposer.handleRpcResponse_own hm (hb.trans hmod.symm), hmod]
  have hstep : ∀ p' outs, p.handleRpcResponse cfg m = some (p', outs) →
      ∃ s', (p m.pinst).handleRsp cfg m.term rsp = some (s', outs) ∧
      p' = Function.update p m.pinst s' := by
    intro p' outs h
    rw [hown, Option.map_eq_some_iff] at h
    obtain ⟨⟨s', o⟩, hd, he⟩ := h
    cases he
    exact ⟨s', hd, rfl⟩
  constructor
  · intro q hq
    rw [hown, hown, hq, Option.map_map, Option.map_map]
    congr 1
    funext r
    simp
  · intro p' outs h j hj
    obtain ⟨s', _, rfl⟩ := hstep p' outs h
    exact Function.update_of_ne hj _ _
  · intro p' outs h k hk
    obtain ⟨s', hd, _⟩ := hstep p' outs h
    rcases handleRsp_answers hd with ⟨_, rfl⟩ | ⟨_, ha⟩
    · cases hk
    · cases ha with
      | waiting _ _ _ hk' => rw [hk'] at hk; cases hk
      | early _ _ _ _ hk' => rw [hk'] at hk; exact List.mem_singleton.mp hk
      | done _ hk' =>
        rw [hk'] at hk
        split at hk
        · cases hk
        · exact List.mem_singleton.mp hk
  · intro p' outs h hans
    obtain ⟨s', hd, rfl⟩ := hstep p' outs h
    rw [Function.update_self]
    obtain ⟨haw, hphase⟩ := hans
    obtain ⟨req, hreq⟩ := Option.isSome_iff_exists.mp haw.2
    unfold handleRsp at hd
    rw [if_neg (not_not.mpr haw)] at hd
    rcases hphase with ⟨hph, ht⟩ | ⟨hph, ht⟩
    · rw [if_pos hph] at hd
      rcases (handlePrepareRsp_done hreq hd).counted ht with hc | ⟨hph', hc⟩
      · exact .inl hc
      · exact .inr ⟨hph, hph', hc⟩
    · rw [hph, if_neg (by decide), if_pos rfl] at hd
      exact .inl ((handleAcceptRsp_done hreq (Option.some.inj hd)).counted ht)

/-- A response that changes nothing, whatever the other instances are in. -/
theorem isolated_ignored {i : Nat} {type : PaxosMsgType}
    (h : ∀ q : Proposer, q i = p i → q.handleRpcResponse cfg m = some (q, []))
    (hno : ¬ (p i).AnswersRound m.term type) : Isolated cfg p i m type := by
  have hp := h p rfl
  refine ⟨fun q hq => ?_, fun p' outs he j _ => ?_, fun p' outs he k hk => ?_,
    fun p' outs _ ha => absurd ha hno⟩
  · rw [h q hq, hp]
    simp [hq]
  · rw [hp] at he
    cases he
    rfl
  · rw [hp] at he
    cases he
    cases hk

/-- An ACCEPT answer is dropped by an instance that does not wait for one. -/
theorem handleRpcResponse_dropped (hm : m.msg = some rsp) (hi : m.pinst < cfg.plogInstNum)
    (ht : rsp.type = .acceptRsp) (hno : ¬ (p m.pinst).AnswersRound m.term .acceptRsp) :
    p.handleRpcResponse cfg m = some (p, []) := by
  unfold Proposer.handleRpcResponse
  rw [hm, Nat.mod_eq_of_lt hi]
  dsimp only
  split
  · rfl
  rename_i haw
  rw [not_not] at haw
  split
  · rw [handlePrepareRsp_wrongType (by rw [ht]; decide)]
    simp
  · split
    · rename_i hph
      exact absurd ⟨haw, .inr ⟨hph, rfl⟩⟩ hno
    · rfl

/-- The answer of the early exit, counted for instance 0. -/
theorem not_isolated_of_lag (hm : m.msg = some rsp) (hi : m.pinst < cfg.plogInstNum)
    (hne : rsp.pp.pinst ≠ m.pinst) (ht : rsp.type = .acceptRsp)
    (hans : (p m.pinst).AnswersRound m.term .acceptRsp) : ¬ Isolated cfg p m.pinst m rsp.type := by
  intro hiso
  obtain ⟨haw, hphase⟩ := hans
  have hph : (p m.pinst).phase = acceptingPhase := by
    rcases hphase with ⟨_, h⟩ | ⟨h, _⟩
    · cases h
    · exact h
  have hstep : p.handleRpcResponse cfg m = some
      (Function.update p rsp.pp.pinst ((p rsp.pp.pinst).handleAcceptRsp cfg rsp).1,
        ((p rsp.pp.pinst).handleAcceptRsp cfg rsp).2) := by
    unfold Proposer.handleRpcResponse
    rw [hm, Nat.mod_eq_of_lt hi]
    dsimp only
    rw [if_neg (not_not.mpr haw), hph, if_neg (by decide), if_pos rfl]
  have hc := hiso.counted _ _ hstep ⟨haw, ht ▸ hphase⟩
  rw [Function.update_of_ne (Ne.symm hne)] at hc
  rcases hc with hc | ⟨hp, _, _⟩
  · unfold u8 at hc
    omega
  · rw [hph] at hp
    exact absurd hp (by decide)

end

/-- Handling the answer to a request of instance `req.pp.pinst` stays within that
instance if and only if it is not the early exit of an ACCEPT, reaching an
instance other than 0 that waits for the answer. -/
theorem isolated_iff {cfg : Configure} {id : Nat} {a : Acceptor} {saves : Saves} {p : Proposer}
    {req rsp : PaxosMsg}
    (h : ((acceptorSys (cfg.on id)).restrict (ProposerRequests (cfg.on id))).Reachable a)
    (hi : req.pp.pinst < cfg.plogInstNum) (ht : handlerOf req.type ≠ none)
    (hrsp : (a.doHandleMsg (cfg.on id) saves req).1 = some rsp) :
    Isolated cfg p req.pp.pinst (rpcResponseOf req rsp) rsp.type ↔
      ¬ (req.type = .acceptReq ∧ Behind (a.mngs req.pp.pinst) req.pp ∧ req.pp.pinst ≠ 0 ∧
        (p req.pp.pinst).AnswersRound req.pp.term .acceptRsp) := by
  have hmng : (cfg.on id).mngOf req.pp.pinst = req.pp.pinst := Nat.mod_eq_of_lt hi
  have hinv := ownProposals_reachable h
  have hbody : rsp.pp.pinst = if req.type = .acceptReq ∧ Behind (a.mngs req.pp.pinst) req.pp then 0
      else req.pp.pinst := by
    rcases doHandleMsg_cases (cfg.on id) a saves req (hinv _).1 with ⟨_, hn⟩ | ⟨hd, rt, hs, _, hr⟩
    · exact absurd hn ht
    · rw [hr] at hrsp
      obtain rfl := Option.some.inj hrsp
      rw [hmng] at hs
      exact hs.rsp_pinst (hinv _).2 rfl
  by_cases hlag : req.type = .acceptReq ∧ Behind (a.mngs req.pp.pinst) req.pp
  · obtain ⟨hacc, hbehind⟩ := hlag
    rw [if_pos ⟨hacc, hbehind⟩] at hbody
    have htype : rsp.type = .acceptRsp := doHandleMsg_type hrsp (by rw [hacc]; rfl)
    by_cases h0 : req.pp.pinst = 0
    · exact ⟨fun _ hc => hc.2.2.1 h0, fun _ => isolated_own (m := rpcResponseOf req rsp) rfl hi
        (hbody.trans h0.symm)⟩
    by_cases hans : (p req.pp.pinst).AnswersRound req.pp.term .acceptRsp
    · exact ⟨fun hiso => absurd hiso (not_isolated_of_lag (m := rpcResponseOf req rsp) rfl hi
        (fun he => h0 (he.symm.trans hbody)) htype hans), fun hno => absurd ⟨hacc, hbehind, h0, hans⟩ hno⟩
    · refine ⟨fun _ hc => hans hc.2.2.2,
        fun _ => isolated_ignored (fun q hq => ?_) (by rw [htype]; exact hans)⟩
      exact handleRpcResponse_dropped (m := rpcResponseOf req rsp) rfl hi htype
        (show ¬ (q req.pp.pinst).AnswersRound req.pp.term .acceptRsp by rw [hq]; exact hans)
  · rw [if_neg hlag] at hbody
    exact ⟨fun _ hc => hlag ⟨hc.1, hc.2.1⟩,
      fun _ => isolated_own (m := rpcResponseOf req rsp) rfl hi hbody⟩

/-- A request of instance 1, entry 1. -/
def requestAtOne (type : PaxosMsgType) (valueId : Nat) : PaxosMsg :=
  let m := requestOf type 1 valueId 1 []
  { m with pp := { m.pp with pinst := 1 } }

/-- Instance 1 has proposed value 8 at entry 1 and waits for the answers to its ACCEPT. -/
def acceptingAtOne : Proposer :=
  Function.update (Proposer.new (Configure.init 0) 7) 1
    { Proposer.new (Configure.init 0) 7 1 with
      term := 1
      state := acceptingPhase
      req := some (requestAtOne .acceptReq 8) }

/-- The acceptor has value 7 chosen at entry 1 of instance 1. -/
def chosenAtOne : Acceptor :=
  let cfg := Configure.init 0
  let voted :=
    ((Acceptor.new cfg fun _ _ => none).doHandleMsg cfg Saves.good (requestAtOne .acceptReq 7)).2
  (voted.doHandleMsg cfg Saves.good (requestAtOne .chosenReq 7)).2

theorem chosenAtOne_reachable :
    ((acceptorSys ((Configure.init 0).on 0)).restrict
      (ProposerRequests ((Configure.init 0).on 0))).Reachable chosenAtOne := by
  have h1 : (requestAtOne .acceptReq 7).pp.pinst < (Configure.init 0).plogInstNum := by decide
  have h2 : (requestAtOne .chosenReq 7).pp.pinst < (Configure.init 0).plogInstNum := by decide
  exact LTS.Reachable.step (LTS.Reachable.step (.of_init rfl)
    ⟨acceptorSys_request _ _ (requestAtOne .acceptReq 7) Saves.good, h1⟩)
    ⟨acceptorSys_request _ _ (requestAtOne .chosenReq 7) Saves.good, h2⟩

theorem isolated_at_one :
    ∃ rsp, (chosenAtOne.doHandleMsg (Configure.init 0) Saves.good (requestAtOne .acceptReq 8)).1 = some rsp ∧
      (Isolated (Configure.init 0) acceptingAtOne 1 (rpcResponseOf (requestAtOne .acceptReq 8) rsp) rsp.type ↔
        ¬ (PaxosMsgType.acceptReq = .acceptReq ∧
          Behind (chosenAtOne.mngs 1) (requestAtOne .acceptReq 8).pp ∧
          1 ≠ 0 ∧ (acceptingAtOne 1).AnswersRound 0 .acceptRsp)) :=
  ⟨_, rfl, @isolated_iff (Configure.init 0) 0 _ Saves.good acceptingAtOne (requestAtOne .acceptReq 8) _
    chosenAtOne_reachable (by decide) (by decide) rfl⟩

/-- The ACCEPT of instance 1 for its chosen entry 1: the answer is counted for instance 0. -/
theorem not_isolated :
    ¬ ∀ (cfg : Configure) (id : Nat) (a : Acceptor) (saves : Saves) (p : Proposer)
    (req rsp : PaxosMsg),
      ((acceptorSys (cfg.on id)).restrict (ProposerRequests (cfg.on id))).Reachable a →
      req.pp.pinst < cfg.plogInstNum → handlerOf req.type ≠ none →
      (a.doHandleMsg (cfg.on id) saves req).1 = some rsp →
      Isolated cfg p req.pp.pinst (rpcResponseOf req rsp) rsp.type := by
  intro hall
  have hiso :=
    hall (Configure.init 0) 0 chosenAtOne Saves.good acceptingAtOne (requestAtOne .acceptReq 8) _
    chosenAtOne_reachable (by decide) (by decide) rfl
  have hans : (acceptingAtOne 1).AnswersRound 0 .acceptRsp :=
    ⟨⟨rfl, rfl⟩, .inr ⟨by decide, rfl⟩⟩
  exact not_isolated_of_lag (m := rpcResponseOf (requestAtOne .acceptReq 8) _) rfl (by decide)
    (by decide +kernel)
    (by decide +kernel) hans hiso

end Quarrel
