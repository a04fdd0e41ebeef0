import Quarrel.L3Role.ProposerSpec

/-!
# The moves of an instance

What a step of the proposer does to one instance, told by what it broadcasts.
`Moved` has one constructor for each: nothing is broadcast and the round goes on
or ends, a valid response is counted, a majority opens the ACCEPT phase, a
majority chooses, a call starts a round.

The votes of other proposers are left out: `OwnAnswers` says that a valid promise
with another value carries no bytes, which the handler asserts against.

* `handleRsp_moved`, `handleRpcResponse_stray`, `handleTimeout_kept`,
  `onEntryChosen_kept`, `proposeAsync_moved`: each function makes one of the moves.
-/
namespace Quarrel.InstanceState

/-- The id generator may jump ahead, or start again. -/
def GenMoved (s s' : InstanceState) : Prop :=
  s'.ig = s.ig ∨ (∃ v, s'.ig = s.ig.setGreaterThan v) ∨ s'.ig = s.ig.reset (s.proposerId + 1)

/-- The round is over, or goes on with the same request and at most `n` more valid responses. -/
structure Kept (n : Nat) (s s' : InstanceState) : Prop where
  proposerId : s'.proposerId = s.proposerId
  term : s'.term = s.term
  vig : s'.vig = s.vig
  ig : GenMoved s s'
  chosen : s.lastChosenEntry ≤ s'.lastChosenEntry
  req : ∀ q', s'.req = some q' → ∃ q, s.req = some q ∧ Same q'.pp q.pp
  state : s'.req ≠ none → s'.state = s.state
  count : s'.req ≠ none → s'.validRspCount ≤ s.validRspCount + n

/-- The response passes the checks of the phase. -/
def Approves (s : InstanceState) (q rsp : PaxosMsg) : Prop :=
  (s.phase = preparingPhase ∧ ValidPromise q rsp) ∨ (s.phase = acceptingPhase ∧ ValidAccept q rsp)

/-- The instance waits for the answers to `m`, none of which has arrived. -/
structure Waits (s : InstanceState) (phase : UInt8) (m : PaxosMsg) : Prop where
  req : s.req = some m
  phase : s.phase = phase
  notified : s.notified = false
  count : s.validRspCount = 0

/-- What an instance reacts to. -/
inductive Event where
  | notice
  | answer (rsp : PaxosMsg)
  | call (opaqueData : Nat) (val : List UInt8)

/-- A step of instance `i` from `s` to `s'` on the event `ev`. -/
inductive Moved (cfg : Configure) (i : Nat) (s : InstanceState) (ev : Event)
    (s' : InstanceState) : List PaxosMsg → Prop
  | kept (h : Kept 0 s s') : Moved cfg i s ev s' []
  | counted (q a : PaxosMsg) (hev : ev = .answer a) (hq : s.req = some q) (hv : Approves s q a)
      (hown : s.phase = preparingPhase → ¬ OtherValue q a) (h : Kept 1 s s') :
      Moved cfg i s ev s' []
  | accepting (q a m : PaxosMsg) (hev : ev = .answer a) (hq : s.req = some q)
      (hph : s.phase = preparingPhase) (hv : ValidPromise q a) (hown : ¬ OtherValue q a)
      (hmaj : cfg.majority ≤ s.validRspCount + 1) (hpos : 0 < a.pp.pid)
      (hm : m = asAcceptReq cfg s (merge q a)) (hw : s'.Waits acceptingPhase m)
      (hkept : s'.proposerId = s.proposerId ∧ s'.term = s.term ∧ s'.vig = s.vig ∧ s'.ig = s.ig ∧
        s'.lastChosenEntry = s.lastChosenEntry) : Moved cfg i s ev s' [m]
  | chosen (q a : PaxosMsg) (hev : ev = .answer a) (hq : s.req = some q)
      (hph : s.phase = acceptingPhase) (hv : ValidAccept q a)
      (hmaj : cfg.majority ≤ s.validRspCount + 1) (h : Kept 0 s s') (hreq : s'.req = none)
      (hlast : a.pp.pentry ≠ 0 → a.pp.pentry ≠ noEntry → a.pp.pentry ≤ s'.lastChosenEntry) :
      Moved cfg i s ev s' [asChosenReq cfg a]
  | prepare (m : PaxosMsg) (opaqueData : Nat) (val : List UInt8) (promise : Nat)
      (hev : ev = .call opaqueData val) (hi : i < cfg.plogInstNum) (hidle : s.req = none)
      (hm : m = s.proposalMsg cfg i opaqueData val)
      (hs : s' = s.begun cfg i opaqueData val promise preparingPhase m) :
      Moved cfg i s ev s' [asPrepareReq m]
  | fast (m : PaxosMsg) (opaqueData : Nat) (val : List UInt8) (promise : Nat)
      (hev : ev = .call opaqueData val) (hi : i < cfg.plogInstNum) (hidle : s.req = none)
      (hm : m = asAcceptReq cfg s (s.proposalMsg cfg i opaqueData val)) (hval : ¬ val.isEmpty)
      (hskip : s.canSkipPrepare m.pp)
      (hs : s' = s.begun cfg i opaqueData val promise acceptingPhase m) : Moved cfg i s ev s' [m]

/-- Valid promises of another value carry no bytes. -/
def OwnAnswers (s : InstanceState) (rsp : PaxosMsg) : Prop :=
  ∀ q, s.req = some q → ValidPromise q rsp → OtherValue q rsp → rsp.pp.size = 0

/-! ## Steps that keep the round -/

theorem Kept.refl (n : Nat) (s : InstanceState) : Kept n s s :=
  ⟨rfl, rfl, rfl, .inl rfl, Nat.le_refl _, fun q h => ⟨q, h, Same.refl _⟩, fun _ => rfl,
    fun _ => Nat.le_add_right _ _⟩

theorem Kept.end {n : Nat} {s s' : InstanceState} (h : Kept n s s') :
    Kept n s { s' with req := none } :=
  ⟨h.proposerId, h.term, h.vig, h.ig, h.chosen, (fun _ hq => by cases hq), fun hne => absurd rfl hne,
    fun hne => absurd rfl hne⟩

theorem merge_same (q rsp : PaxosMsg) : Same (merge q rsp).pp q.pp := ⟨rfl, rfl, rfl, rfl⟩

section

variable {cfg : Configure} {s s' s₁ : InstanceState} {q rsp : PaxosMsg} {ret : Int} {n i : Nat}
  {done first : Bool} {outs : List Out}

theorem Kept.prepareOut (h : Kept n s s₁) (ho : (s', outs) = s₁.prepareOut ret done first) :
    Kept n s s' := prepareOut_keeps ho h h.end

theorem Kept.acceptOut (h : Kept n s s₁) (ho : (s', outs) = s₁.acceptOut ret done) :
    Kept n s s' := acceptOut_keeps ho h h.end

theorem refused_kept {req' : PaxosMsg} {ig : IdGen} (hq : s.req = some q)
    (hreq : req' = q ∨ req' = merge q rsp) (hig : ig = s.ig ∨ ig = s.ig.setGreaterThan rsp.pp.pid) :
    Kept 0 s { s with rspCount := u8 (s.rspCount + 1), req := some req', ig := ig } := by
  refine ⟨rfl, rfl, rfl, ?_, Nat.le_refl _, fun q' h => ?_, fun _ => rfl, fun _ => Nat.le_refl _⟩
  · rcases hig with rfl | rfl
    · exact .inl rfl
    · exact .inr (.inl ⟨_, rfl⟩)
  · obtain rfl := Option.some.inj h
    refine ⟨q, hq, ?_⟩
    rcases hreq with rfl | rfl
    · exact Same.refl _
    · exact merge_same _ _

theorem prepareOut_broadcasts (ho : (s', outs) = s₁.prepareOut ret done first) :
    broadcasts outs = [] := by
  have h : outs = (s₁.prepareOut ret done first).2 := congrArg Prod.snd ho
  rw [h]
  unfold InstanceState.prepareOut broadcasts
  cases done <;> cases s₁.notified <;> cases first <;> rfl

theorem acceptOut_broadcasts (ho : (s', outs) = s₁.acceptOut ret done) : broadcasts outs = [] := by
  have h : outs = (s₁.acceptOut ret done).2 := congrArg Prod.snd ho
  rw [h]
  unfold InstanceState.acceptOut broadcasts
  cases done <;> cases s₁.notified <;> rfl

theorem afterPromise_kept (hq : s.req = some q) (hown : ¬ OtherValue q rsp) :
    Kept 1 s (s.afterPromise q rsp) := by
  rw [afterPromise_own hown]
  refine ⟨rfl, rfl, rfl, .inl rfl, Nat.le_refl _, fun q' h => ?_, fun _ => rfl,
    fun _ => Nat.mod_le _ _⟩
  obtain rfl := Option.some.inj h
  exact ⟨q, hq, merge_same _ _⟩

theorem afterAccept_kept (hq : s.req = some q) : Kept 1 s (s.afterAccept q rsp) := by
  refine ⟨rfl, rfl, rfl, .inl rfl, Nat.le_refl _, fun q' h => ?_, fun _ => rfl,
    fun _ => Nat.mod_le _ _⟩
  obtain rfl := Option.some.inj h
  exact ⟨q, hq, merge_same _ _⟩

theorem updateChosenInfo_chosen (s : InstanceState) (chosen source : Nat) :
    s.lastChosenEntry ≤ (s.updateChosenInfo chosen source).lastChosenEntry ∧
      GenMoved s (s.updateChosenInfo chosen source) ∧
      (chosen ≠ 0 → chosen ≠ noEntry →
        chosen ≤ (s.updateChosenInfo chosen source).lastChosenEntry) := by
  unfold updateChosenInfo
  split
  · rename_i h
    refine ⟨Nat.le_refl _, .inl rfl, fun h0 h1 => ?_⟩
    exact (h.elim h0 h1).elim
  · split
    · rename_i _ h
      exact ⟨Nat.le_refl _, .inl rfl, fun _ _ => Nat.le_of_lt h⟩
    · rename_i _ h
      exact ⟨Nat.not_lt.mp h, .inr (.inr rfl), fun _ _ => Nat.le_refl _⟩

theorem updateChosenInfo_kept (s : InstanceState) (chosen source : Nat) :
    Kept 0 s (s.updateChosenInfo chosen source) := by
  have hkeeps := updateChosenInfo_keeps s chosen source
  obtain ⟨hle, hgen, _⟩ := updateChosenInfo_chosen s chosen source
  exact ⟨hkeeps.proposerId, hkeeps.term, hkeeps.vig, hgen, hle,
    fun q' h => ⟨q', hkeeps.req ▸ h, Same.refl _⟩, fun _ => hkeeps.state,
    fun _ => Nat.le_of_eq hkeeps.validRspCount⟩

theorem onEntryChosen_kept (s : InstanceState) (pp : Proposal) (fromPlog : Bool) :
    Kept 0 s (s.onEntryChosen pp fromPlog) := by
  unfold onEntryChosen
  split
  · exact Kept.refl 0 s
  · exact updateChosenInfo_kept s pp.pentry pp.proposer

theorem handleTimeout_kept (s : InstanceState) :
    Kept 0 s s.handleTimeout.1 ∧ broadcasts s.handleTimeout.2 = [] := by
  refine ⟨⟨rfl, rfl, rfl, .inl rfl, Nat.le_refl _, (fun _ hq => by cases hq), fun hne => absurd rfl hne,
    fun hne => absurd rfl hne⟩, ?_⟩
  unfold handleTimeout
  dsimp only
  split <;> rfl

/-! ## Responses and calls -/

theorem PrepareRspDone.moved (h : PrepareRspDone cfg s q rsp s' outs) (hq : s.req = some q)
    (hph : s.phase = preparingPhase) (hn : s.notified = false) (hown : OwnAnswers s rsp) :
    Moved cfg i s (.answer rsp) s' (broadcasts outs) := by
  have hmine : ValidPromise q rsp → (OtherValue q rsp → 0 < rsp.pp.size) → ¬ OtherValue q rsp := by
    intro hv hsz ho
    have := hsz ho
    rw [hown q hq hv ho] at this
    exact Nat.lt_irrefl 0 this
  cases h with
  | wrongType _ => exact .kept (Kept.refl 0 s)
  | refused ret req' ig _ _ _ hreq hig ho =>
    rw [prepareOut_broadcasts ho]
    exact .kept ((refused_kept hq hreq hig).prepareOut ho)
  | pending hv hsz _ ho =>
    rw [prepareOut_broadcasts ho]
    have hmy := hmine hv hsz
    exact .counted q rsp rfl hq (.inl ⟨hph, hv⟩) (fun _ => hmy)
      ((afterPromise_kept hq hmy).prepareOut ho)
  | probed hv hsz _ _ _ ho =>
    rw [prepareOut_broadcasts ho]
    have hmy := hmine hv hsz
    exact .counted q rsp rfl hq (.inl ⟨hph, hv⟩) (fun _ => hmy)
      ((afterPromise_kept hq hmy).prepareOut ho)
  | accepting m hv hsz hmaj _ hpos hm hs ho =>
    have hmy := hmine hv hsz
    have hafter := afterPromise_own (s := s) hmy
    have hn' : (s.afterPromise q rsp).notified = false := by
      rw [hafter]; exact hn
    have hme : m = merge q rsp := by
      unfold acceptSource at hm
      rw [hn'] at hm
      exact (Option.some.inj hm).symm
    have hvalid : (s.afterPromise q rsp).validRspCount = u8 (s.validRspCount + 1) := by rw [hafter]
    have hb : broadcasts outs = [asAcceptReq cfg s (merge q rsp)] := by
      rw [ho, hme]
      split <;> rfl
    have hs' : s' = { s.afterPromise q rsp with
        rspCount := 0, validRspCount := 0, lastv := none,
        state := acceptingPhase ||| ((s.afterPromise q rsp).state &&& 0x80),
        req := some (asAcceptReq cfg s (merge q rsp)) } := by
      rw [hs, hme]
      unfold enterAccept
      rw [hn']
      rfl
    rw [hb]
    refine .accepting q rsp _ rfl hq hph hv hmy ?_ hpos rfl ⟨?_, ?_, ?_, ?_⟩ ?_
    · rw [hvalid] at hmaj
      exact Nat.le_trans hmaj (Nat.mod_le _ _)
    · rw [hs']
    · rw [hs']
      exact accepting_phase _
    · rw [hs']
      simpa only [notified, accepting_bit] using hn'
    · rw [hs']
    · rw [hs', hafter]
      exact ⟨rfl, rfl, rfl, rfl, rfl⟩

theorem AcceptRspDone.moved (h : AcceptRspDone cfg s q rsp s' outs) (hq : s.req = some q)
    (hph : s.phase = acceptingPhase) : Moved cfg i s (.answer rsp) s' (broadcasts outs) := by
  have hne : s.phase ≠ preparingPhase := by
    rw [hph]; decide
  cases h with
  | wrongType _ => exact .kept (Kept.refl 0 s)
  | refused ret req' ig _ _ _ hreq hig ho =>
    rw [acceptOut_broadcasts ho]
    exact .kept ((refused_kept hq hreq hig).acceptOut ho)
  | pending hv _ ho =>
    rw [acceptOut_broadcasts ho]
    exact .counted q rsp rfl hq (.inr ⟨hph, hv⟩) (fun hp => absurd hp hne)
      ((afterAccept_kept hq).acceptOut ho)
  | chosen hv hmaj hs ho =>
    have hb : broadcasts outs = [asChosenReq cfg rsp] := by
      rw [ho]
      split <;> rfl
    have hkeeps := updateChosenInfo_keeps (s.afterAccept q rsp) rsp.pp.pentry rsp.pp.proposer
    obtain ⟨hle, hgen, hlast⟩ :=
      updateChosenInfo_chosen (s.afterAccept q rsp) rsp.pp.pentry rsp.pp.proposer
    rw [hb]
    refine .chosen q rsp rfl hq hph hv (Nat.le_trans hmaj (Nat.mod_le _ _)) ?_ (by rw [hs]) ?_
    · rw [hs]
      exact ⟨hkeeps.proposerId, hkeeps.term, hkeeps.vig, hgen, hle, (fun _ hq => by cases hq),
        fun hne => absurd rfl hne, fun hne => absurd rfl hne⟩
    · rw [hs]
      exact hlast

theorem handleRsp_moved {term : Nat} (h : s.handleRsp cfg term rsp = some (s', outs))
    (hn : s.req ≠ none → s.notified = false) (hown : OwnAnswers s rsp) :
    (Kept 0 s s' ∧ broadcasts outs = []) ∨
    (s.Awaits term ∧ Moved cfg i s (.answer rsp) s' (broadcasts outs)) := by
  unfold handleRsp at h
  split at h
  · cases h
    exact .inl ⟨Kept.refl 0 s, rfl⟩
  rename_i haw
  rw [not_not] at haw
  obtain ⟨q, hq⟩ := Option.isSome_iff_exists.mp haw.2
  split at h
  · rename_i hph
    exact .inr ⟨haw, (handlePrepareRsp_done hq h).moved hq hph (hn (by rw [hq]; simp)) hown⟩
  · split at h
    · rename_i _ hph
      exact .inr ⟨haw, (handleAcceptRsp_done hq (Option.some.inj h)).moved hq hph⟩
    · cases h
      exact .inl ⟨Kept.refl 0 s, rfl⟩

/-- A failed answer of another instance that is counted here. -/
theorem handleAcceptRsp_stray (cfg : Configure) (s : InstanceState)
    (he : rsp.errcode ≠ ErrCode.ok) :
    Kept 0 s (s.handleAcceptRsp cfg rsp).1 ∧ broadcasts (s.handleAcceptRsp cfg rsp).2 = [] := by
  generalize h : s.handleAcceptRsp cfg rsp = r
  obtain ⟨s', outs⟩ := r
  cases hq : s.req with
  | none =>
    unfold handleAcceptRsp at h
    rw [hq] at h
    cases h
    exact ⟨Kept.refl 0 s, rfl⟩
  | some q =>
    cases handleAcceptRsp_done hq h with
    | wrongType _ => exact ⟨Kept.refl 0 s, rfl⟩
    | refused ret req' ig _ _ _ hreq hig ho =>
      exact ⟨(refused_kept hq hreq hig).acceptOut ho, acceptOut_broadcasts ho⟩
    | pending hv | chosen hv => exact absurd hv.errcode he

/-- A failed ACCEPT answer, whatever instance its body names. -/
theorem handleRpcResponse_stray {p p' : Proposer} {m : RpcResponseMsg} (hm : m.msg = some rsp)
    (ht : rsp.type = .acceptRsp) (he : rsp.errcode ≠ ErrCode.ok)
    (h : p.handleRpcResponse cfg m = some (p', outs)) :
    ∃ st, p' = Function.update p rsp.pp.pinst st ∧ Kept 0
    (p rsp.pp.pinst) st ∧ broadcasts outs = [] := by
  have hsame : Function.update p rsp.pp.pinst (p rsp.pp.pinst) = p := Function.update_eq_self _ _
  cases Proposer.handleRpcResponse_done h with
  | late | phaseless => exact ⟨_, hsame.symm, Kept.refl 0 _, rfl⟩
  | timeout haw hmsg =>
    rw [hm] at hmsg
    cases hmsg
  | prepare rsp' haw hmsg hph hs =>
    obtain rfl := Option.some.inj (hm.symm.trans hmsg)
    rw [handlePrepareRsp_wrongType (by rw [ht]; decide)] at hs
    cases hs
    exact ⟨_, rfl, Kept.refl 0 _, rfl⟩
  | accept rsp' haw hmsg hph hs =>
    obtain rfl := Option.some.inj (hm.symm.trans hmsg)
    have hstray := handleAcceptRsp_stray cfg (p rsp.pp.pinst) he
    rw [hs] at hstray
    exact ⟨_, rfl, hstray.1, hstray.2⟩

theorem proposeAsync_moved (s : InstanceState) (hi : i < cfg.plogInstNum) (opaqueData : Nat)
    (val : List UInt8) (promise : Nat) (oom : Bool) :
    Moved cfg i s (.call opaqueData val) (s.proposeAsync cfg i opaqueData val promise oom).1
      (broadcasts (s.proposeAsync cfg i opaqueData val promise oom).2) := by
  have hd := proposeAsync_done cfg s i opaqueData val promise oom
  generalize s.proposeAsync cfg i opaqueData val promise oom = r at hd
  obtain ⟨s', outs⟩ := r
  cases hd with
  | rejected _ _ => exact .kept (Kept.refl 0 _)
  | prepare m hidle hm _ => exact .prepare m opaqueData val promise rfl hi hidle hm rfl
  | fast m hidle hm hval hskip =>
    exact .fast m opaqueData val promise rfl hi hidle hm hval hskip rfl

end

end Quarrel.InstanceState
