import Quarrel.L4Proposer.Node

/-!
# The timeouts of a proposer

While the wheel runs the timeout of every outstanding round is in the wheel or in the
queue of its worker, and ends the round if nothing else does.

* `handleRpcResponse_round`: a response keeps the round of every instance, or ends it.
* `Due`: the timeout of a round is in the queue, or in the wheel and due in time.
* `Sound.step`: every outstanding round has its timeout.
* `caller_answered`: five turns of the wheel later, once the worker has nothing left to
  handle, every call has its answer.
-/
namespace Quarrel

open InstanceState

/-! ## Rounds -/

/-- The round goes on, or is over. -/
structure SameRound (s s' : InstanceState) : Prop where
  term : s'.term = s.term
  kept : s'.req ≠ none → s.req ≠ none ∧ s'.ret = s.ret

theorem SameRound.refl (s : InstanceState) : SameRound s s := ⟨rfl, fun h => ⟨h, rfl⟩⟩

theorem SameRound.end {s s' : InstanceState} (h : SameRound s s') : SameRound s { s' with req := none } :=
  ⟨h.term, fun h => absurd rfl h⟩

section

variable {cfg : Configure} {s s' : InstanceState} {req rsp : PaxosMsg} {outs : List Out}

theorem InstanceState.PrepareRspDone.round (h : PrepareRspDone cfg s req rsp s' outs)
    (hreq : s.req = some req) : SameRound s s' := by
  have hne : s.req ≠ none := by
    rw [hreq]
    exact Option.some_ne_none _
  have hkeeps := afterPromise_keeps s req rsp
  have hafter : SameRound s (s.afterPromise req rsp) := ⟨hkeeps.term, fun _ => ⟨hne, hkeeps.ret⟩⟩
  cases h with
  | wrongType _ => exact .refl s
  | refused ret req' ig _ _ _ _ _ ho =>
    have hcounted : SameRound s { s with rspCount := u8 (s.rspCount + 1), req := some req', ig := ig } :=
      ⟨rfl, fun _ => ⟨hne, rfl⟩⟩
    exact prepareOut_keeps ho hcounted hcounted.end
  | pending _ _ _ ho => exact prepareOut_keeps ho hafter hafter.end
  | probed _ _ _ _ _ ho => exact prepareOut_keeps ho hafter hafter.end
  | accepting m _ _ _ _ _ _ hs _ =>
    rw [hs]
    exact ⟨hkeeps.term, fun _ => ⟨hne, hkeeps.ret⟩⟩

theorem InstanceState.AcceptRspDone.round (h : AcceptRspDone cfg s req rsp s' outs)
    (hreq : s.req = some req) : SameRound s s' := by
  have hne : s.req ≠ none := by
    rw [hreq]
    exact Option.some_ne_none _
  cases h with
  | wrongType _ => exact .refl s
  | refused ret req' ig _ _ _ _ _ ho =>
    have hcounted : SameRound s { s with rspCount := u8 (s.rspCount + 1), req := some req', ig := ig } :=
      ⟨rfl, fun _ => ⟨hne, rfl⟩⟩
    exact acceptOut_keeps ho hcounted hcounted.end
  | pending _ _ ho =>
    have hafter : SameRound s (s.afterAccept req rsp) := ⟨rfl, fun _ => ⟨hne, rfl⟩⟩
    exact acceptOut_keeps ho hafter hafter.end
  | chosen _ _ hs _ =>
    rw [hs]
    exact ⟨(updateChosenInfo_keeps (s.afterAccept req rsp) rsp.pp.pentry rsp.pp.proposer).term,
      fun h => absurd rfl h⟩

theorem handlePrepareRsp_round (h : s.handlePrepareRsp cfg rsp = some (s', outs)) : SameRound s s' := by
  cases hreq : s.req with
  | none =>
    unfold handlePrepareRsp at h
    rw [hreq] at h
    cases h
    exact .refl s
  | some req => exact (handlePrepareRsp_done hreq h).round hreq

theorem handleAcceptRsp_round (h : s.handleAcceptRsp cfg rsp = (s', outs)) : SameRound s s' := by
  cases hreq : s.req with
  | none =>
    unfold handleAcceptRsp at h
    rw [hreq] at h
    cases h
    exact .refl s
  | some req => exact (handleAcceptRsp_done hreq h).round hreq

end

/-- A response keeps the round of every instance, or ends it. -/
theorem handleRpcResponse_round {cfg : Configure} {p p' : Proposer} {m : RpcResponseMsg} {outs : List Out}
    (h : p.handleRpcResponse cfg m = some (p', outs)) (j : Nat) : SameRound (p j) (p' j) := by
  cases Proposer.handleRpcResponse_done h with
  | late | phaseless => exact .refl _
  | timeout =>
    have htimeout : SameRound (p (m.pinst % cfg.plogInstNum))
        (p (m.pinst % cfg.plogInstNum)).handleTimeout.1 := ⟨rfl, fun h => absurd rfl h⟩
    exact update_keeps SameRound.refl htimeout j
  | prepare rsp _ _ _ hs => exact update_keeps SameRound.refl (handlePrepareRsp_round hs) j
  | accept rsp _ _ _ hs => exact update_keeps SameRound.refl (handleAcceptRsp_round hs) j

theorem handleRpcResponse_timeout {cfg : Configure} {p p' : Proposer} {m : RpcResponseMsg}
    {outs : List Out} (h : p.handleRpcResponse cfg m = some (p', outs)) (hmsg : m.msg = none)
    (hterm : m.term + 1 = (p (m.pinst % cfg.plogInstNum)).term) :
    (p' (m.pinst % cfg.plogInstNum)).req = none := by
  cases Proposer.handleRpcResponse_done h with
  | late haw =>
    by_contra hne
    exact haw ⟨hterm, Option.isSome_iff_ne_none.mpr hne⟩
  | timeout =>
    rw [Function.update_self]
    rfl
  | prepare rsp _ hm | accept rsp _ hm | phaseless rsp hm =>
    rw [hmsg] at hm
    cases hm

namespace ProposerNode

/-! ## The timeout of a round -/

/-- The timeout of round `t` of instance `i` is in the queue of its worker, or in the wheel with
less than `d` turns to go. -/
def Due (pool : PoolSize) (s : ProposerNode) (p : List (Nat × (TimeoutCall × UInt64))) (i t d : Nat) : Prop :=
  ∃ c : TimeoutCall, c.pinst = i ∧ c.term = t ∧
    (c.msg ∈ s.queues (i % pool.workers) ∨ ∃ d' < d, ∃ o, (d', (c, o)) ∈ p)

/-- What an operation turns the wheel by. -/
def tick : NodeOp → Nat
  | .turn => 1
  | _ => 0

/-- `p` is what the wheel of `n` slots holds. -/
structure Sound (cfg : Configure) (pool : PoolSize) (n : Nat) (s : ProposerNode)
    (p : List (Nat × (TimeoutCall × UInt64))) : Prop extends Replied cfg s where
  running : s.stopped = false
  free : ∀ i, s.held i = false
  wheel : TimingWheel.Turns (UInt32.ofNat cfg.timeout) n s.wheel p
  armed : ∀ i, i < cfg.plogInstNum → (s.run.states i).req ≠ none →
    ∃ t, t + 1 = (s.run.states i).term ∧ s.Due pool p i t 5

/-- What a step does to the timeouts and to the rounds they are for. -/
structure Moves (cfg : Configure) (pool : PoolSize) (n : Nat) (s : ProposerNode)
    (p : List (Nat × (TimeoutCall × UInt64))) (op : NodeOp) (s' : ProposerNode)
    (p' : List (Nat × (TimeoutCall × UInt64))) : Prop where
  free : ∀ i, s'.held i = false
  wheel : TimingWheel.Turns (UInt32.ofNat cfg.timeout) n s'.wheel p'
  due : ∀ i t d, i < cfg.plogInstNum → s.Due pool p i t d →
    s'.Due pool p' i t (d - tick op) ∨ ((s'.run.states i).term = t + 1 → (s'.run.states i).req = none)
  round : ∀ i, i < cfg.plogInstNum → SameRound (s.run.states i) (s'.run.states i) ∨
    (s.run.states i).req = none ∧ ∃ t, t + 1 = (s'.run.states i).term ∧ s'.Due pool p' i t 5

section

variable {cfg : Configure} {pool : PoolSize} {n : Nat} {s s' : ProposerNode}
  {p p' : List (Nat × (TimeoutCall × UInt64))}

/-- What is in the queues and in the wheel stays there. -/
theorem Due.mono {i t d : Nat} (h : s.Due pool p i t d) (hq : ∀ w, s.queues w ⊆ s'.queues w)
    (hp : p ⊆ p') : s'.Due pool p' i t d := by
  obtain ⟨c, hi, ht, hc⟩ := h
  exact ⟨c, hi, ht, hc.imp (fun hm => hq _ hm) fun ⟨d', hd', o, hm⟩ => ⟨d', hd', o, hp hm⟩⟩

theorem Due.later {i t d e : Nat} (h : s.Due pool p i t d) (hle : d ≤ e) : s.Due pool p i t e := by
  obtain ⟨c, hi, ht, hc⟩ := h
  exact ⟨c, hi, ht, hc.imp id fun ⟨d', hd', o, hm⟩ => ⟨d', Nat.lt_of_lt_of_le hd' hle, o, hm⟩⟩

/-- A turn queues what was due, and brings the rest one turn nearer. -/
theorem Due.turn {i t d : Nat} (h : s.Due pool p i t d)
    (hq : ∀ w, s.queues w ⊆ s'.queues w)
    (hdue : ∀ c ∈ Agenda.due 0 p, c.1.msg ∈ s'.queues (c.1.pinst % pool.workers)) :
    s'.Due pool (Agenda.pass p) i t (d - 1) := by
  obtain ⟨c, hi, ht, hm | ⟨d', hd', o, hm⟩⟩ := h
  · exact ⟨c, hi, ht, .inl (hq _ hm)⟩
  · refine ⟨c, hi, ht, ?_⟩
    cases d' with
    | zero => exact .inl (hi ▸ hdue _ (Agenda.mem_due.mpr hm))
    | succ d' => exact .inr ⟨d', by omega, o, Agenda.pass_mem hm⟩

theorem delay_lt (h2 : 2 ≤ cfg.timeout) (hmax : cfg.timeout ≤ 4001) (n : Nat) :
    2 ≤ UInt32.ofNat cfg.timeout ∧ (UInt32.ofNat cfg.timeout).toNat < 2 ^ 31 ∧
      TimingWheel.delay (UInt32.ofNat cfg.timeout) % n < 5 := by
  have hnat : (UInt32.ofNat cfg.timeout).toNat = cfg.timeout :=
    UInt32.toNat_ofNat_of_lt' (Nat.lt_of_le_of_lt hmax (by decide))
  have hle : 2 ≤ UInt32.ofNat cfg.timeout := by
    rw [UInt32.le_iff_toNat_le, hnat]
    exact h2
  have hlt : (UInt32.ofNat cfg.timeout).toNat < 2 ^ 31 := by
    rw [hnat]
    exact Nat.lt_of_le_of_lt hmax (by decide)
  refine ⟨hle, hlt, Nat.lt_of_le_of_lt (Nat.mod_le _ _) ?_⟩
  rw [TimingWheel.delay_eq hle hlt]
  split <;> decide

/-- A call is answered at once, or starts a round with a timeout in the wheel. -/
theorem Sound.propose (h : s.Sound cfg pool n p) (h2 : 2 ≤ cfg.timeout) (hmax : cfg.timeout ≤ 4001)
    (hn : n ≤ 4000) {opaqueData pinst : Nat} {val : List UInt8} {oom : Bool} {run : ProposerRun}
    {wheel : TimingWheel TimeoutCall}
    (hrun : s.run.step cfg (.propose opaqueData val pinst oom) = some run)
    (harm : armAll (UInt32.ofNat cfg.timeout) s.wheel (proposeOuts cfg s.run opaqueData val pinst oom) =
      some wheel) :
    ∃ p', s.Moves cfg pool n p (.propose opaqueData val pinst oom) { s with run := run, wheel := wheel } p' := by
  obtain ⟨hle, hlt, hdelay⟩ := delay_lt h2 hmax n
  let j := pinst % cfg.plogInstNum
  have hother : ∀ i, i ≠ j → run.states i = s.run.states i := fun i hi => by
    cases hrun
    exact Function.update_of_ne hi ..
  have hself : run.states j =
      ((s.run.states j).proposeAsync cfg j opaqueData val ((s.run.replies j).calls + 1) oom).1 := by
    cases hrun
    exact Function.update_self ..
  have houts : proposeOuts cfg s.run opaqueData val pinst oom =
      ((s.run.states j).proposeAsync cfg j opaqueData val ((s.run.replies j).calls + 1) oom).2 := rfl
  rw [houts] at harm
  -- a round that starts has the term before the one to come
  have hstarted : ∀ (entry : Nat) (st : InstanceState), (s.run.states j).req = none →
      st.term = (s.run.states j).term + 1 → run.states j = st →
      s.wheel.arm (UInt32.ofNat cfg.timeout) (⟨j, entry, (s.run.states j).term⟩,
        UInt64.ofNat (s.run.states j).term) = some wheel →
      ∃ p', s.Moves cfg pool n p (.propose opaqueData val pinst oom)
        { s with run := run, wheel := wheel } p' := by
    intro entry st hidle hterm hst harm
    obtain ⟨w', harm', hturns⟩ := TimingWheel.turns_add hle hlt hn h.wheel
      (⟨j, entry, (s.run.states j).term⟩, UInt64.ofNat (s.run.states j).term)
    obtain rfl := Option.some.inj (harm.symm.trans harm')
    refine ⟨_, h.free, hturns, fun i t d _ hdue =>
      .inl (hdue.mono (fun _ => List.Subset.refl _) (List.subset_append_left _ _)), fun i _ => ?_⟩
    by_cases hi : i = j
    · subst hi
      refine .inr ⟨hidle, (s.run.states j).term, ?_, ⟨j, entry, (s.run.states j).term⟩, rfl, rfl,
        .inr ⟨_, hdelay, _, List.mem_append_right _ (List.mem_singleton_self _)⟩⟩
      show _ = (run.states j).term
      rw [hst, hterm]
    · refine .inl ?_
      show SameRound _ (run.states i)
      rw [hother i hi]
      exact .refl _
  have hdone := proposeAsync_done cfg (s.run.states j) j opaqueData val ((s.run.replies j).calls + 1) oom
  generalize ((s.run.states j).proposeAsync cfg j opaqueData val ((s.run.replies j).calls + 1) oom).1 = st
    at hself hdone
  generalize ((s.run.states j).proposeAsync cfg j opaqueData val ((s.run.replies j).calls + 1) oom).2 = outs
    at harm hdone
  cases hdone with
  | rejected code _ =>
    cases harm
    refine ⟨p, h.free, h.wheel, fun i t d _ hdue => .inl hdue, fun i _ => .inl ?_⟩
    show SameRound _ (run.states i)
    by_cases hi : i = j
    · rw [hi, hself]
      exact .refl _
    · rw [hother i hi]
      exact .refl _
  | prepare m hidle hm =>
    subst hm
    obtain ⟨w, harm, hw⟩ := Option.bind_eq_some_iff.mp harm
    cases hw
    exact hstarted _ _ hidle rfl hself harm
  | fast m hidle hm =>
    subst hm
    obtain ⟨w, harm, hw⟩ := Option.bind_eq_some_iff.mp harm
    cases hw
    exact hstarted _ _ hidle rfl hself harm

theorem Sound.answer (h : s.Sound cfg pool n p) (m : RpcResponseMsg) :
    s.Moves cfg pool n p (.answer m) { s with queues := (addRpcResponse pool s.queues m).getD s.queues } p := by
  cases hadd : addRpcResponse pool s.queues m with
  | none => exact ⟨h.free, h.wheel, fun i t d _ hdue => .inl hdue, fun i _ => .inl (.refl _)⟩
  | some q =>
    exact ⟨h.free, h.wheel, fun i t d _ hdue => .inl (hdue.mono (addRpcResponse_mem hadd).1 (List.Subset.refl _)),
      fun i _ => .inl (.refl _)⟩

theorem Sound.turn (h : s.Sound cfg pool n p) (hn : n ≤ 4000)
    {r : List (TimeoutCall × UInt64) × TimingWheel TimeoutCall} {queues : Nat → List RpcResponseMsg}
    (hworker : s.wheel.worker = some r) (hnotify : notifyAll pool s.queues r.1 = some (queues, false)) :
    s.Moves cfg pool n p .turn { s with wheel := r.2, queues := queues } (Agenda.pass p) := by
  obtain ⟨w', hworker', hturns⟩ := TimingWheel.turns_tick hn h.wheel
  obtain rfl := Option.some.inj (hworker.symm.trans hworker')
  obtain ⟨hsub, hall, -⟩ := notifyAll_mem hnotify
  exact ⟨h.free, hturns, fun i t d _ hdue => .inl (hdue.turn hsub (hall rfl)), fun i _ => .inl (.refl _)⟩

/-- A message that is handled leaves the queue, and the round it is the timeout of is over. -/
theorem Sound.handle (h : s.Sound cfg pool n p) {w k : Nat} {m : RpcResponseMsg} {run : ProposerRun}
    (hm : (s.queues w)[k]? = some m) (hrun : s.run.step cfg (.response m) = some run) :
    s.Moves cfg pool n p (.handle w k) { s with
      run := run, queues := Function.update s.queues w ((s.queues w).eraseIdx k) } p := by
  obtain ⟨⟨states, outs⟩, hp, rfl⟩ := Option.map_eq_some_iff.mp hrun
  refine ⟨h.free, h.wheel, fun i t d hi hdue => ?_, fun i _ => .inl (handleRpcResponse_round hp i)⟩
  obtain ⟨c, hci, hct, hc | hc⟩ := hdue
  · by_cases hmc : m = c.msg
    · subst hmc
      have hpinst : c.msg.pinst % cfg.plogInstNum = i := by
        show c.pinst % cfg.plogInstNum = i
        rw [hci]
        exact Nat.mod_eq_of_lt hi
      refine .inr fun hterm => ?_
      have hsame := (handleRpcResponse_round hp i).term
      have hend := handleRpcResponse_timeout hp rfl
      rw [hpinst] at hend
      refine hend ?_
      show c.term + 1 = _
      rw [hct, ← hsame]
      exact hterm.symm
    · refine .inl ⟨c, hci, hct, .inl ?_⟩
      show c.msg ∈ Function.update s.queues w ((s.queues w).eraseIdx k) (i % pool.workers)
      by_cases hw : i % pool.workers = w
      · rw [← hw, Function.update_self]
        rw [← hw] at hm
        exact (List.mem_eraseIdx_iff_getElem?.mpr (by
          obtain ⟨l, hl⟩ := List.mem_iff_getElem?.mp hc
          refine ⟨l, fun hlk => hmc ?_, hl⟩
          rw [hlk, hm] at hl
          exact Option.some.inj hl))
      · rw [Function.update_of_ne hw]
        exact hc
  · exact .inl ⟨c, hci, hct, .inr hc⟩

theorem Sound.entryChosen (h : s.Sound cfg pool n p) (msg : PaxosMsg) (fromPlog : Bool) :
    s.Moves cfg pool n p (.entryChosen msg fromPlog) { s with
      run := { s.run with states := s.run.states.onEntryChosen cfg msg fromPlog } } p := by
  refine ⟨h.free, h.wheel, fun i t d _ hdue => .inl hdue, fun i _ => .inl ?_⟩
  have hchosen : SameRound (s.run.states (msg.pp.pinst % cfg.plogInstNum))
      ((s.run.states (msg.pp.pinst % cfg.plogInstNum)).onEntryChosen msg.pp fromPlog) := by
    unfold onEntryChosen
    split
    · exact .refl _
    · have hkeeps := updateChosenInfo_keeps (s.run.states (msg.pp.pinst % cfg.plogInstNum)) msg.pp.pentry
        msg.pp.proposer
      exact ⟨hkeeps.term, fun hne => ⟨hkeeps.req ▸ hne, hkeeps.ret⟩⟩
  exact update_keeps SameRound.refl hchosen i

theorem Sound.moves (h : s.Sound cfg pool n p) (h2 : 2 ≤ cfg.timeout) (hmax : cfg.timeout ≤ 4001)
    (hn : n ≤ 4000) {op : NodeOp} (hst : step cfg pool s op = some s') (hgo : s'.stopped = false) :
    ∃ p', s.Moves cfg pool n p op s' p' := by
  cases step_done hst with
  | propose run wheel _ hrun harm => exact h.propose h2 hmax hn hrun harm
  | hung run hstop =>
    rw [h.running] at hstop
    cases hstop
  | answer m => exact ⟨p, h.answer m⟩
  | turn r queues _ hworker hnotify => exact ⟨_, h.turn hn hworker hnotify⟩
  | full => cases hgo
  | handle m run hm _ hrun => exact ⟨p, h.handle hm hrun⟩
  | blocked m hheld =>
    rw [h.free] at hheld
    cases hheld
  | entryChosen msg fromPlog => exact ⟨p, h.entryChosen msg fromPlog⟩

/-- Every outstanding round keeps its timeout. -/
theorem Sound.step (h : s.Sound cfg pool n p) {op : NodeOp} (hm : s.Moves cfg pool n p op s' p')
    (hst : ProposerNode.step cfg pool s op = some s') (hown : OwnAnswers cfg s op s') (hgo : s'.stopped = false) :
    s'.Sound cfg pool n p' := by
  refine ⟨h.toReplied.step hst hown, hgo, hm.free, hm.wheel, fun i hi hreq => ?_⟩
  rcases hm.round i hi with hr | ⟨-, hnew⟩
  · obtain ⟨t, ht, hdue⟩ := h.armed i hi (hr.kept hreq).1
    rw [← hr.term] at ht
    rcases hm.due i t 5 hi hdue with hdue | hend
    · exact ⟨t, ht, hdue.later (Nat.sub_le _ _)⟩
    · exact absurd (hend ht.symm) hreq
  · exact hnew

/-- Call `k` has its answer, or its round has its timeout, with less than `d` turns to go. -/
def Awaited (pool : PoolSize) (s : ProposerNode) (p : List (Nat × (TimeoutCall × UInt64))) (i k d : Nat) : Prop :=
  k ∈ (s.run.replies i).set.map Prod.fst ∨
    (s.run.states i).req ≠ none ∧ (s.run.states i).ret = k ∧
      ∃ t, t + 1 = (s.run.states i).term ∧ s.Due pool p i t d

theorem Sound.awaited (h : s.Sound cfg pool n p) {i k : Nat} (hi : i < cfg.plogInstNum) (h1 : 1 ≤ k)
    (hk : k ≤ (s.run.replies i).calls) : s.Awaited pool p i k 5 := by
  by_cases hreq : (s.run.states i).req = none
  · exact .inl ((h.replies i).idle hreq k h1 hk)
  · by_cases hret : k = (s.run.states i).ret
    · exact .inr ⟨hreq, hret.symm, h.armed i hi hreq⟩
    · exact .inl ((h.replies i).others hreq k h1 hk hret)

theorem Sound.awaited_step (h : s.Sound cfg pool n p) {op : NodeOp} (hm : s.Moves cfg pool n p op s' p')
    (hst : ProposerNode.step cfg pool s op = some s') {i k d : Nat} (hi : i < cfg.plogInstNum) (h1 : 1 ≤ k)
    (hk : k ≤ (s.run.replies i).calls) (ha : s.Awaited pool p i k d) : s'.Awaited pool p' i k (d - tick op) := by
  obtain ⟨hreply, hcalls, hset, -⟩ := h.replies_step hst i
  rcases ha with hmem | ⟨hreq, hret, t, ht, hdue⟩
  · exact .inl (List.map_subset _ hset hmem)
  · rcases hm.round i hi with hr | ⟨hidle, -⟩
    · by_cases hreq' : (s'.run.states i).req = none
      · exact .inl (hreply.idle hreq' k h1 (Nat.le_trans hk hcalls))
      · rw [← hr.term] at ht
        refine .inr ⟨hreq', (hr.kept hreq').2.trans hret, t, ht, ?_⟩
        exact (hm.due i t d hi hdue).resolve_right fun hend => hreq' (hend ht.symm)
    · exact absurd hidle hreq

/-! ## Runs -/

theorem running_run {ops : List NodeOp} (hr : ((sys cfg pool).restrict (OwnAnswers cfg)).Run s ops s')
    (hgo : s'.stopped = false) : s.stopped = false := by
  induction hr with
  | nil => exact hgo
  | cons hst _ ih =>
    by_contra hstop
    rw [(step_stopped hst.1).mpr (.inl (Bool.not_eq_false _ ▸ hstop))] at ih
    cases ih hgo

theorem Sound.run (h2 : 2 ≤ cfg.timeout) (hmax : cfg.timeout ≤ 4001) (hn : n ≤ 4000) {ops : List NodeOp}
    (hr : ((sys cfg pool).restrict (OwnAnswers cfg)).Run s ops s') (hgo : s'.stopped = false) :
    ∀ {p}, s.Sound cfg pool n p → ∃ p', s'.Sound cfg pool n p' ∧
      ∀ i k d, i < cfg.plogInstNum → 1 ≤ k → k ≤ (s.run.replies i).calls → s.Awaited pool p i k d →
        s'.Awaited pool p' i k (d - turns ops) := by
  induction hr with
  | nil s => exact fun {p} h => ⟨p, h, fun _ _ _ _ _ _ ha => ha⟩
  | @cons s op s₁ ops s' hst hrest₁ ih =>
    intro p h
    have hgo₁ := running_run hrest₁ hgo
    obtain ⟨p₁, hm⟩ := h.moves h2 hmax hn hst.1 hgo₁
    obtain ⟨p', h', hrest⟩ := ih hgo (h.step hm hst.1 hst.2 hgo₁)
    refine ⟨p', h', fun i k d hi h1 hk ha => ?_⟩
    have hnext := hrest i k _ hi h1 (Nat.le_trans hk (h.replies_step hst.1 i).2.1)
      (h.awaited_step hm hst.1 hi h1 hk ha)
    have hturns : turns (op :: ops) = tick op + turns ops := by
      cases op <;> simp only [turns, tick, Nat.zero_add, Nat.add_comm]
    rw [hturns, ← Nat.sub_sub]
    exact hnext

end

/-! A call nobody responds to, on a wheel of four slots. -/

def lonely : Configure := { Configure.init 0 with timeout := 1001 }

def fivePool : PoolSize := ⟨5, 10000, Nat.succ_pos 4⟩

def notAnswer : NodeOp → Bool
  | .answer _ => false
  | _ => true

/-- What is left of the operations that are no responses. -/
def ranLonely (s : ProposerNode) (ops : List NodeOp) : Option ProposerNode :=
  LTS.exec (fun s op => (step lonely fivePool s op).filter fun _ => notAnswer op) s ops

def called? : Option ProposerNode :=
  ranLonely (start lonely 7 ⟨0, 1000, List.replicate 4 []⟩) [.propose 1 [9] 0 false]

theorem called_some : called?.isSome = true := by decide +kernel

def called : ProposerNode := called?.get called_some

def lonelyOps : List NodeOp := [.turn, .turn, .turn, .turn, .handle 0 0, .turn]

theorem answered_some : (ranLonely called lonelyOps).isSome = true := by decide +kernel

def answered : ProposerNode := (ranLonely called lonelyOps).get answered_some

end ProposerNode

end Quarrel
