import Quarrel.L4Proposer.CatchUp
import Quarrel.L5Synod.Stall
import Mathlib.Data.Finset.Lattice.Fold

/-!
# Entries that can still be chosen

The other side of `stalls`. Every call raises the id of its proposer, so one that nobody
competes with outbids all promises in the end, and a majority of acceptors that have not
voted promise and accept what it then calls for.

* `Welcomes`: the manager approves proposals of an entry whose ids are above `p`.
* `Collects`: an instance has counted `n` answers to its broadcast, all of them valid.
* `Asked`: one acceptor is asked, and its answer is handled.
* `Polling.prepares`, `Polling.accepts`: a majority is, one after the other.
* `outbids`: an idle proposer draws ids above any that are promised.
* `choosable_iff`: an entry can still be chosen exactly when a majority has not voted for it.
-/
namespace Quarrel

open InstanceState EntryMng

/-! ## Acceptors that approve -/

/-- The manager is not past the entry, and has not lost what it stored of it. -/
structure EntryMng.Ready (m : EntryMng) (e : Nat) : Prop where
  behind : m.lastChosenEntry = noEntry ∨ m.lastChosenEntry < e
  remembers : Remembers m e

/-- Nothing is accepted at the entry, and no id above `p` is promised. -/
structure EntryMng.Welcomes (m : EntryMng) (e p : Nat) : Prop extends Ready m e where
  unvoted : (m.opened e).accepted = none
  below : ∀ pr, (m.opened e).promised = some pr → pr.pid ≤ p

/-- The answer approves the proposal `pp`. -/
structure Consents (rsp : PaxosMsg) (pp : Proposal) (status : PaxosState) : Prop where
  errcode : rsp.errcode = ErrCode.ok
  status : rsp.pp.status = status
  same : Same rsp.pp pp
  term : rsp.pp.term = pp.term

section

variable {m m' : EntryMng} {e p : Nat} {pp : Proposal} {hd : Handled}

theorem EntryMng.Welcomes.mono {p' : Nat} (h : m.Welcomes e p) (hle : p ≤ p') : m.Welcomes e p' :=
  ⟨h.toReady, h.unvoted, fun pr hpr => Nat.le_trans (h.below pr hpr) hle⟩

theorem EntryMng.Ready.not_behind (h : m.Ready pp.pentry) : ¬ Behind m pp := by
  intro hb
  obtain ⟨hne, hle⟩ := hb
  have := h.behind.resolve_left hne
  omega

theorem EntryMng.Ready.written {ent : Entry} {d : Nat → Option Entry} (h : m.Ready e)
    (hm : Acts m m' e ent d m.lastChosenEntry) (ha : ent.accepted = none)
    (hp : ∀ pr, ent.promised = some pr → pr.pid ≤ p) : m'.Welcomes e p := by
  have hopen := opened_of_cached hm.cached
  refine ⟨⟨hm.lastChosen.symm ▸ h.behind, .inl ?_⟩, ?_, ?_⟩
  · rw [hm.cached]
    exact Option.some_ne_none ent
  · rw [hopen]
    exact ha
  · rw [hopen]
    exact hp

theorem EntryMng.Welcomes.prepare (h : m.Welcomes pp.pentry p)
    (hs : Served m Saves.good pp .prepareReq hd) (hlt : p < pp.pid) :
    Consents hd.rsp pp .promised ∧ hd.mng.Welcomes pp.pentry pp.pid := by
  have hnb := h.not_behind
  cases hs with
  | prepare hd =>
    cases hd with
    | behind hb => exact absurd hb hnb
    | voted a _ ha =>
      rw [h.unvoted] at ha
      cases ha
    | kept pr _ _ hpr hle =>
      have := h.below pr hpr
      omega
    | probed _ _ _ h0 => omega
    | promised _ ha _ _ _ hm hr =>
      refine ⟨by rw [hr]; exact ⟨rfl, rfl, ⟨rfl, rfl, rfl, rfl⟩, rfl⟩, h.written hm ha fun pr hpr => ?_⟩
      obtain rfl := Option.some.inj hpr
      exact Nat.le_refl _
    | failed _ _ _ _ hs => cases hs

theorem EntryMng.Welcomes.accept (h : m.Welcomes pp.pentry pp.pid)
    (hs : Served m Saves.good pp .acceptReq hd) : Consents hd.rsp pp .accepted := by
  have hnb := h.not_behind
  have hadm : (m.opened pp.pentry).Admits pp := by
    unfold Entry.Admits
    rw [h.unvoted]
    exact h.below
  cases hs with
  | accept hd =>
    cases hd with
    | behind hb => exact absurd hb hnb
    | repeated a _ ha =>
      rw [Entry.Repeats, h.unvoted] at ha
      cases ha.1
    | accepted _ _ _ _ hr =>
      rw [hr]
      exact ⟨rfl, rfl, ⟨rfl, rfl, rfl, rfl⟩, rfl⟩
    | failed _ _ hs => cases hs
    | refused _ _ _ hno => exact absurd hadm hno

theorem InSync.stored {q : Proposal} (h : InSync m) (hq : HeldAccepted m e q) :
    ∃ x, m.disk e = some x ∧ x.accepted = some q := by
  obtain ⟨x, hx | hx, hxq⟩ := hq
  · have hc := h.cached e x hx
    cases hd : m.disk e with
    | none =>
      rw [hd] at hc
      rw [hc.1] at hxq
      cases hxq
    | some y =>
      rw [hd] at hc
      exact ⟨y, rfl, hc.1.symm.trans hxq⟩
  · exact ⟨x, hx, hxq⟩

end

/-! ## An instance that is answered -/

section

variable {q m rsp : PaxosMsg}

/-- The own proposal stays the request, whatever metadata an answer brings. -/
theorem Consents.merged {status : PaxosState} (hg : Consents rsp m.pp status)
    (hq : Same q.pp m.pp ∧ q.pp.term = m.pp.term) :
    Same (merge q rsp).pp m.pp ∧ (merge q rsp).pp.term = m.pp.term := by
  refine ⟨(merge_same q rsp).trans hq.1, ?_⟩
  show (if rsp.pp.term > q.pp.term then rsp.pp.term else q.pp.term) = _
  rw [hg.term, hq.2, ite_self]

theorem Consents.congr {rsp' : PaxosMsg} {pp : Proposal} {status : PaxosState} (hg : Consents rsp pp status)
    (hpp : rsp'.pp = rsp.pp) (herr : rsp'.errcode = rsp.errcode) : Consents rsp' pp status :=
  ⟨herr.trans hg.errcode, hpp ▸ hg.status, hpp ▸ hg.same, hpp ▸ hg.term⟩

theorem Consents.promise (hg : Consents rsp m.pp .promised) (ht : rsp.type = .prepareRsp)
    (hq : Same q.pp m.pp) : ValidPromise q rsp ∧ ¬ OtherValue q rsp :=
  ⟨⟨ht, hg.errcode, hg.status, Nat.le_of_eq (hg.same.pid.trans hq.pid.symm)⟩,
    not_not.mpr (hg.same.valueId.trans hq.valueId.symm)⟩

theorem Consents.accept (hg : Consents rsp m.pp .accepted) (ht : rsp.type = .acceptRsp)
    (hq : Same q.pp m.pp) : ValidAccept q rsp :=
  ⟨ht, hg.errcode, hg.status, hg.same.pid.trans hq.pid.symm, hg.same.valueId.trans hq.valueId.symm⟩

end

namespace InstanceState

/-- The instance waits for answers to `m`, and has counted `n`, all of them valid. -/
structure Collects (st : InstanceState) (phase : UInt8) (m : PaxosMsg) (n : Nat) : Prop where
  req : ∃ q, st.req = some q ∧ Same q.pp m.pp ∧ q.pp.term = m.pp.term
  term : m.pp.term + 1 = st.term
  phase : st.phase = phase
  notified : st.notified = false
  rsps : st.rspCount = n
  valid : st.validRspCount = n

section

variable {cfg : Configure} {st : InstanceState} {q m rsp : PaxosMsg} {n : Nat}

theorem u8_succ (h : n < cfg.majority) : u8 (n + 1) = n + 1 := by
  have := cfg.acceptor_lt_256
  have := cfg.acceptor_pos
  unfold Configure.majority at h
  exact Nat.mod_eq_of_lt (by omega)

theorem Collects.awaits {phase : UInt8} (h : st.Collects phase m n) : st.Awaits m.pp.term := by
  obtain ⟨q, hq, _⟩ := h.req
  exact ⟨h.term, by rw [hq]; rfl⟩

theorem Collects.handleRsp_prepare (h : st.Collects preparingPhase m n) :
    st.handleRsp cfg m.pp.term rsp = st.handlePrepareRsp cfg rsp := by
  unfold handleRsp
  rw [if_neg (not_not.mpr h.awaits), if_pos h.phase]

theorem Collects.handleRsp_accept (h : st.Collects acceptingPhase m n) :
    st.handleRsp cfg m.pp.term rsp = some (st.handleAcceptRsp cfg rsp) := by
  unfold handleRsp
  rw [if_neg (not_not.mpr h.awaits), if_neg (by rw [h.phase]; decide), if_pos h.phase]

theorem Collects.not_last {phase : UInt8} (h : st.Collects phase m n) (hn : n + 1 < cfg.majority) :
    st.lastRsp cfg = false := by
  have := cfg.acceptor_pos
  unfold lastRsp
  rw [h.rsps, u8_succ (Nat.lt_of_succ_lt hn)]
  refine decide_eq_false fun heq => ?_
  unfold Configure.majority at hn
  omega

/-- A promise of the own proposal does not trip the assertion on the votes of others. -/
theorem handlePrepareRsp_own (hq : st.req = some q) (hown : ¬ OtherValue q rsp)
    (hn : st.notified = false) : ∃ st' outs, st.handlePrepareRsp cfg rsp = some (st', outs) := by
  have hafter : (st.afterPromise q rsp).notified = false := by
    rw [afterPromise_notified, hn, decide_eq_false hown]
    rfl
  cases hr : st.handlePrepareRsp cfg rsp with
  | some r => exact ⟨r.1, r.2, rfl⟩
  | none =>
    unfold handlePrepareRsp at hr
    rw [hq] at hr
    dsimp only at hr
    split at hr
    · cases hr
    split at hr
    · cases hr
    split at hr
    · cases hr
    split at hr
    · cases hr
    unfold preparePromised at hr
    rw [if_neg fun h => hown h.1] at hr
    dsimp only at hr
    split at hr
    · split at hr
      · change startAccept cfg (st.afterPromise q rsp) (merge q rsp) _ = none at hr
        unfold startAccept at hr
        rw [hafter] at hr
        cases hr
      · cases hr
    · cases hr

theorem Collects.promise (h : st.Collects preparingPhase m n) (hg : Consents rsp m.pp .promised)
    (ht : rsp.type = .prepareRsp) (hn : n + 1 < cfg.majority) :
    ∃ st', st.handlePrepareRsp cfg rsp = some (st', []) ∧ st'.Collects preparingPhase m (n + 1) := by
  obtain ⟨q, hq, hsame⟩ := h.req
  obtain ⟨hv, hown⟩ := hg.promise ht hsame.1
  obtain ⟨st', outs, hr⟩ := @handlePrepareRsp_own cfg st q rsp hq hown h.notified
  have hcount := u8_succ (Nat.lt_of_succ_lt hn)
  have hkeeps := afterPromise_keeps st q rsp
  cases handlePrepareRsp_done hq hr with
  | wrongType hne => exact absurd ht hne
  | refused _ _ _ _ hno => exact absurd hv hno
  | pending _ _ _ ho =>
    rw [h.not_last hn] at ho
    obtain ⟨rfl, rfl⟩ : st' = st.afterPromise q rsp ∧ outs = [] := by
      have hfirst : decide (OtherValue q rsp ∧ ¬ st.notified) = false := decide_eq_false fun hh => hown hh.1
      rw [hfirst] at ho
      exact Prod.mk.inj ho
    refine ⟨_, hr, ⟨_, afterPromise_req .., hg.merged hsame⟩, h.term.trans hkeeps.term.symm,
      hkeeps.phase.trans h.phase, ?_, ?_, ?_⟩
    · rw [afterPromise_notified, h.notified, decide_eq_false hown]
      rfl
    · rw [afterPromise_rspCount, h.rsps, hcount]
    · rw [afterPromise_validRspCount, h.valid, hcount]
  | probed _ _ hmaj | accepting _ _ _ hmaj =>
    rw [afterPromise_validRspCount, h.valid, hcount] at hmaj
    omega

/-- The promise that makes a majority: the own proposal is to be accepted. -/
theorem Collects.promised (h : st.Collects preparingPhase m n) (hg : Consents rsp m.pp .promised)
    (ht : rsp.type = .prepareRsp) (hpos : 0 < m.pp.pid) (hn : n + 1 = cfg.majority) :
    ∃ st' outs m', st.handlePrepareRsp cfg rsp = some (st', outs) ∧ broadcasts outs = [m'] ∧
      m'.type = .acceptReq ∧ Same m'.pp m.pp ∧ st'.Collects acceptingPhase m' 0 := by
  obtain ⟨q, hq, hsame⟩ := h.req
  obtain ⟨hv, hown⟩ := hg.promise ht hsame.1
  obtain ⟨st', outs, hr⟩ := @handlePrepareRsp_own cfg st q rsp hq hown h.notified
  have hcount := @u8_succ cfg n (by omega)
  have hterm := (afterPromise_keeps st q rsp).term
  have hafter : (st.afterPromise q rsp).notified = false := by
    rw [afterPromise_notified, h.notified, decide_eq_false hown]
    rfl
  cases handlePrepareRsp_done hq hr with
  | wrongType hne => exact absurd ht hne
  | refused _ _ _ _ hno => exact absurd hv hno
  | pending _ _ hno =>
    refine absurd ⟨?_, fun hh => ?_⟩ hno
    · rw [afterPromise_validRspCount, h.valid, hcount]
      omega
    · rw [hafter] at hh
      cases hh
  | probed _ _ _ _ h0 =>
    rw [hg.same.pid] at h0
    omega
  | accepting m' _ _ _ _ _ hm hs ho =>
    have hme : m' = merge q rsp := by
      unfold acceptSource at hm
      rw [hafter] at hm
      exact (Option.some.inj hm).symm
    obtain ⟨hmsame, hmterm⟩ := hg.merged hsame
    subst hme
    refine ⟨st', outs, asAcceptReq cfg st (merge q rsp), hr, ?_, rfl,
      ⟨hmsame.pid, hmsame.valueId, hmsame.pinst, hmsame.pentry⟩, ?_⟩
    · rw [ho]
      split <;> rfl
    · rw [hs]
      unfold enterAccept
      rw [hafter]
      refine ⟨⟨_, rfl, Same.refl _, rfl⟩, ?_, accepting_phase _, ?_, rfl, rfl⟩
      · show (merge q rsp).pp.term + 1 = (st.afterPromise q rsp).term
        rw [hmterm, hterm]
        exact h.term
      · simpa only [InstanceState.notified, accepting_bit] using hafter

theorem Collects.accept (h : st.Collects acceptingPhase m n) (hg : Consents rsp m.pp .accepted)
    (ht : rsp.type = .acceptRsp) (hn : n + 1 < cfg.majority) :
    ∃ st', st.handleAcceptRsp cfg rsp = (st', []) ∧ st'.Collects acceptingPhase m (n + 1) := by
  obtain ⟨q, hq, hsame⟩ := h.req
  have hv := hg.accept ht hsame.1
  have hcount := u8_succ (Nat.lt_of_succ_lt hn)
  generalize hr : st.handleAcceptRsp cfg rsp = r
  obtain ⟨st', outs⟩ := r
  cases handleAcceptRsp_done hq hr with
  | wrongType hne => exact absurd ht hne
  | refused _ _ _ _ hno => exact absurd hv hno
  | pending _ _ ho =>
    rw [h.not_last hn] at ho
    obtain ⟨rfl, rfl⟩ := Prod.mk.inj ho
    refine ⟨_, rfl, ⟨⟨_, rfl, hg.merged hsame⟩, h.term, h.phase, h.notified, ?_, ?_⟩⟩
    · show u8 (st.rspCount + 1) = _
      rw [h.rsps, hcount]
    · show u8 (st.validRspCount + 1) = _
      rw [h.valid, hcount]
  | chosen _ hmaj =>
    rw [h.valid, hcount] at hmaj
    omega

/-- The acceptance that makes a majority: the proposal is chosen. -/
theorem Collects.accepted (h : st.Collects acceptingPhase m n) (hg : Consents rsp m.pp .accepted)
    (ht : rsp.type = .acceptRsp) (hn : n + 1 = cfg.majority) :
    ∃ st' outs, st.handleAcceptRsp cfg rsp = (st', outs) ∧ broadcasts outs = [asChosenReq cfg rsp] := by
  obtain ⟨q, hq, hsame⟩ := h.req
  have hv := hg.accept ht hsame.1
  have hcount := @u8_succ cfg n (by omega)
  generalize hr : st.handleAcceptRsp cfg rsp = r
  obtain ⟨st', outs⟩ := r
  refine ⟨_, _, rfl, ?_⟩
  cases handleAcceptRsp_done hq hr with
  | wrongType hne => exact absurd ht hne
  | refused _ _ _ _ hno => exact absurd hv hno
  | pending _ hno =>
    rw [h.valid, hcount] at hno
    omega
  | chosen _ _ _ ho =>
    rw [ho]
    split <;> rfl

/-! ## Calls -/

theorem proposeAsync_prepares {i opaqueData promise : Nat} {val : List UInt8} (hidle : st.req = none)
    (hno : ¬ st.SkipsPrepare cfg i opaqueData val) :
    ∃ timeout, st.proposeAsync cfg i opaqueData val promise false =
      (st.begun cfg i opaqueData val promise preparingPhase (st.proposalMsg cfg i opaqueData val),
        [.rpc (asPrepareReq (st.proposalMsg cfg i opaqueData val)), timeout]) ∧
      broadcasts [timeout] = [] := by
  have hpath : val.isEmpty ∨ ¬ st.canSkipPrepare (st.proposalMsg cfg i opaqueData val).pp := by
    by_contra hh
    rw [not_or, not_not] at hh
    exact hno ⟨hidle, hh⟩
  refine ⟨.addTimeout i (st.lastChosenEntry + 1) st.term, ?_, rfl⟩
  unfold proposeAsync
  rw [if_neg (by rw [hidle]; exact Bool.false_ne_true), if_neg Bool.false_ne_true]
  exact if_pos hpath

/-- The one-phase path is for the first id only. -/
theorem not_skipsPrepare {i opaqueData : Nat} {val : List UInt8} (h : st.proposerId + 1 < st.ig.id) :
    ¬ st.SkipsPrepare cfg i opaqueData val := by
  intro hs
  have hpid : (st.proposalMsg cfg i opaqueData val).pp.pid = st.proposerId + 1 :=
    (of_decide_eq_true hs.2.2).2.2
  change (if u32 val.length ≠ 0 then st.ig.id ||| cfg.pidCookie else 0) = _ at hpid
  split at hpid
  · have := @Nat.left_le_or st.ig.id cfg.pidCookie
    omega
  · omega

end

end InstanceState

namespace Synod

variable {cfg : Configure}

/-- What has happened once acceptor `a` has been asked to answer broadcast `b`, which is `c`, and its
answer has been handled. -/
structure Asked (s s' : Synod cfg) (b : Nat) (a : Fin cfg.totalAcceptor) (c : Bcast cfg) (m : EntryMng)
    (st : InstanceState) (sent : List PaxosMsg) : Prop where
  run : ((sys cfg).restrict SteadyStep).Run s [.deliver b a Saves.good, .reply s.rsps.length] s'
  called : s'.called = s.called ++ [(b, a)]
  bcasts : s'.bcasts = s.bcasts ++ sent.map fun x => ⟨c.src, c.inst, st.term, x⟩
  inst : s'.props c.src c.inst = st
  mng : (s'.accs a).mngs c.inst = m
  others : ∀ a', a' ≠ a → s'.accs a' = s.accs a'

section

variable {s : Synod cfg} {c : Bcast cfg} {b : Nat} {a : Fin cfg.totalAcceptor}

theorem step_reply_own {rid : Nat} {x : Answer cfg} {st : InstanceState} {outs : List Out}
    (hx : s.rsps[rid]? = some x) (hc : s.bcasts[x.bid]? = some c) (hok : RequestOk c)
    (hpin : x.msg.pp.pinst = c.inst)
    (hh : (s.props c.src c.inst).handleRsp (cfg.on c.src) c.msg.pp.term x.msg = some (st, outs)) :
    ∃ s', s.step (.reply rid) = some s' ∧ s'.accs = s.accs ∧ s'.props c.src c.inst = st ∧
      s'.called = s.called ++ [(x.bid, x.acc)] ∧
      s'.bcasts = s.bcasts ++ (broadcasts outs).map fun m => ⟨c.src, c.inst, st.term, m⟩ := by
  have hmod : c.msg.pp.pinst % (cfg.on c.src).plogInstNum = c.inst := by
    rw [hok.pinst]
    exact Nat.mod_eq_of_lt hok.inst_lt
  have hr : (s.props c.src).handleRpcResponse (cfg.on c.src) (rpcResponseOf c.msg x.msg) =
      some (Function.update (s.props c.src) c.inst st, outs) := by
    have hinst : (rpcResponseOf c.msg x.msg).pinst % (cfg.on c.src).plogInstNum = c.inst := hmod
    rw [Proposer.handleRpcResponse_own (m := rpcResponseOf c.msg x.msg) rfl (hpin.trans hinst.symm), hinst]
    exact Option.map_eq_some_iff.mpr ⟨_, hh, rfl⟩
  have hs : s.step (.reply rid) = some
      { s.send c.src (Function.update (s.props c.src) c.inst st) x.msg.pp.pinst (broadcasts outs) with
        called := s.called ++ [(x.bid, x.acc)]
        counted := s.counted ++
          countedOf (s.props c.src x.msg.pp.pinst) c.src c.msg.pp.term x.acc x.msg } := by
    simp only [step, hx, hc, hr, Option.map_some]
  refine ⟨_, hs, rfl, ?_, rfl, ?_⟩
  · show Function.update s.props c.src (Function.update (s.props c.src) c.inst st) c.src c.inst = st
    rw [Function.update_self, Function.update_self]
  · show s.bcasts ++ (broadcasts outs).map (fun m => ⟨c.src, x.msg.pp.pinst,
      (Function.update (s.props c.src) c.inst st x.msg.pp.pinst).term, m⟩) = _
    rw [hpin, Function.update_self]

theorem steady_deliver {s' : Synod cfg} (hc : s.bcasts[b]? = some c)
    (hr : Remembers ((s.accs a).mngs c.inst) c.msg.pp.pentry) :
    SteadyStep s (.deliver b a Saves.good) s' := by
  refine ⟨⟨fun _ _ _ hl => ?_, readsLogs_of_not_restart rfl, fun _ _ _ c' hl hc' _ => ?_⟩,
    skipsWithin_of_skipsLowest rfl, told_of_told rfl⟩
  · cases hl
    rfl
  · cases hl
    obtain rfl := Option.some.inj (hc.symm.trans hc')
    exact hr

/-- An acceptor that remembers the entry answers, and the answer is handled in the round it is for. -/
theorem Requests.ask (h : s.Requests) (hc : s.bcasts[b]? = some c) {rt : PaxosMsgType}
    {f : EntryMng → Saves → Proposal → Handled} (ht : handlerOf c.msg.type = some (rt, f))
    (hr : Remembers ((s.accs a).mngs c.inst) c.msg.pp.pentry) :
    ∃ hd rsp, Served ((s.accs a).mngs c.inst) Saves.good c.msg.pp c.msg.type hd ∧ rsp.pp = hd.rsp.pp ∧
      rsp.errcode = hd.rsp.errcode ∧ rsp.type = rt ∧ (rsp.pp.pinst = c.inst → ∀ st outs,
        (s.props c.src c.inst).handleRsp (cfg.on c.src) c.msg.pp.term rsp = some (st, outs) →
        ∃ s', s.Asked s' b a c hd.mng st (broadcasts outs)) := by
  have hmem := List.mem_of_getElem? hc
  obtain ⟨hd, rt', hsv, hm, hrsp⟩ := h.handled hmem a Saves.good
  generalize hx : ({ hd.rsp with
    type := rt', fromId := (cfg.on a).localId, version := c.msg.version, magic := c.msg.magic,
    reqid := c.msg.reqid } : PaxosMsg) = rsp at hrsp
  refine ⟨hd, rsp, hsv, by rw [← hx], by rw [← hx], doHandleMsg_type hrsp ht, fun hpin st outs hh => ?_⟩
  let s₁ : Synod cfg := { s with
    accs := Function.update s.accs a ((s.accs a).doHandleMsg (cfg.on a) Saves.good c.msg).2
    rsps := s.rsps ++ [⟨b, a, rsp⟩]
    votes := s.votes ++ voteOf a ((s.accs a).doHandleMsg (cfg.on a) Saves.good c.msg).2 c.msg }
  have h₁ : s.step (.deliver b a Saves.good) = some s₁ := by
    simp only [Synod.step, hc, hrsp]
    rfl
  obtain ⟨s', h', haccs, hinst, hcalled, hbcasts⟩ := @step_reply_own cfg s₁ c s.rsps.length ⟨b, a, rsp⟩ st outs
    (List.getElem?_concat_length ..) hc (h.bcast c hmem) hpin hh
  refine ⟨s', .cons ⟨h₁, steady_deliver hc hr⟩ (.single ⟨h', remembering_of_remembering rfl,
    skipsWithin_of_skipsLowest rfl, told_of_told rfl⟩), hcalled, hbcasts, hinst, ?_, fun a' ha => ?_⟩
  · rw [haccs]
    show (Function.update s.accs a _ a).mngs c.inst = hd.mng
    rw [Function.update_self, hm, Function.update_self]
  · rw [haccs]
    exact Function.update_of_ne ha _ _

end

/-- A majority is being asked to answer broadcast `b`, which is `c`; `as` are still to be asked. -/
structure Polling (s : Synod cfg) (b : Nat) (c : Bcast cfg) (phase : UInt8)
    (as : List (Fin cfg.totalAcceptor)) : Prop where
  reach : ((sys cfg).restrict SteadyStep).Reachable s
  bcast : s.bcasts[b]? = some c
  collects : ∃ n, n + as.length = cfg.majority ∧ (s.props c.src c.inst).Collects phase c.msg n
  nodup : as.Nodup
  fresh : ∀ a ∈ as, (b, a) ∉ s.called
  once : s.called.Nodup

theorem called_lt {ok : Synod cfg → SynodOp cfg → Synod cfg → Prop} {s : Synod cfg}
    (h : ((sys cfg).restrict ok).Reachable s) : ∀ x ∈ s.called, x.1 < s.bcasts.length := by
  have hind : ((sys cfg).restrict ok).Inductive fun s => ∀ x ∈ s.called, x.1 < s.bcasts.length := by
    refine ⟨fun s hi x hx => ?_, fun s l s' ih hs x hx => ?_⟩
    · obtain ⟨sec, rfl⟩ := hi
      cases hx
    obtain ⟨new, hg⟩ := step_grows hs.1
    have hlt : x.1 < s.bcasts.length := by
      rcases step_called hs.1 with he | ⟨_, y, _, _, hy, he⟩
      · exact ih x (he ▸ hx)
      · rw [he] at hx
        rcases List.mem_append.mp hx with hx | hx
        · exact ih x hx
        · exact List.mem_singleton.mp hx ▸ hy
    rw [hg.bcasts, List.length_append]
    exact Nat.lt_add_right _ hlt
  exact hind.reachable s h

section

variable {s s' : Synod cfg} {c : Bcast cfg} {b p : Nat} {a : Fin cfg.totalAcceptor} {phase : UInt8}
  {as L : List (Fin cfg.totalAcceptor)} {m : EntryMng} {st : InstanceState} {sent : List PaxosMsg}

theorem Asked.once (hs : s.Asked s' b a c m st sent) (hnew : (b, a) ∉ s.called) (hnd : s.called.Nodup) :
    s'.called.Nodup := by
  rw [hs.called]
  exact List.nodup_append.mpr ⟨hnd, List.nodup_singleton _, fun x hx y hy => by
    rw [List.mem_singleton.mp hy]
    rintro rfl
    exact hnew hx⟩

theorem Polling.next (h : s.Polling b c phase (a :: as)) (hs : s.Asked s' b a c m st [])
    {n : Nat} (hn : n + as.length = cfg.majority) (hcol : st.Collects phase c.msg n) :
    s'.Polling b c phase as := by
  have hbcasts : s'.bcasts = s.bcasts := hs.bcasts.trans (List.append_nil _)
  refine ⟨h.reach.run hs.run, hbcasts ▸ h.bcast, ⟨n, hn, ?_⟩, (List.nodup_cons.mp h.nodup).2,
    fun a' ha' hmem => ?_, hs.once (h.fresh a (List.mem_cons_self ..)) h.once⟩
  · rw [hs.inst]
    exact hcol
  · rw [hs.called] at hmem
    rcases List.mem_append.mp hmem with hmem | hmem
    · exact h.fresh a' (List.mem_cons_of_mem _ ha') hmem
    · obtain rfl := (Prod.mk.inj (List.mem_singleton.mp hmem)).2
      exact (List.nodup_cons.mp h.nodup).1 ha'

theorem Asked.welcomes (hs : s.Asked s' b a c m st sent) {a' : Fin cfg.totalAcceptor} {e p : Nat}
    (hself : a' = a → m.Welcomes e p) (hother : ((s.accs a').mngs c.inst).Welcomes e p) :
    ((s'.accs a').mngs c.inst).Welcomes e p := by
  by_cases ha : a' = a
  · rw [ha, hs.mng]
    exact hself ha
  · rw [hs.others a' ha]
    exact hother

/-- The next acceptor is asked, and promises. -/
theorem Polling.promise (h : s.Polling b c preparingPhase (a :: as)) (ht : c.msg.type = .prepareReq)
    (hlt : p < c.msg.pp.pid) (hw : ((s.accs a).mngs c.inst).Welcomes c.msg.pp.pentry p) :
    ∃ m rsp, Consents rsp c.msg.pp .promised ∧ rsp.type = .prepareRsp ∧
      m.Welcomes c.msg.pp.pentry c.msg.pp.pid ∧ ∀ st outs,
      (s.props c.src c.inst).handlePrepareRsp (cfg.on c.src) rsp = some (st, outs) →
      ∃ s', s.Asked s' b a c m st (broadcasts outs) := by
  have hreq := (Steadied.of_reachable h.reach).sane.requests
  obtain ⟨n, _, hcol⟩ := h.collects
  obtain ⟨hd, rsp, hsv, hpp, herr, htype, hgo⟩ := hreq.ask (a := a) h.bcast (by rw [ht]; rfl) hw.remembers
  rw [ht] at hsv
  obtain ⟨hg, hw'⟩ := hw.prepare hsv hlt
  have hg' := hg.congr hpp herr
  refine ⟨hd.mng, rsp, hg', htype, hw', fun st outs hh => ?_⟩
  refine hgo (hg'.same.pinst.trans (hreq.bcast c (List.mem_of_getElem? h.bcast)).pinst) st outs ?_
  rw [hcol.handleRsp_prepare]
  exact hh

/-- The next acceptor is asked, and accepts. -/
theorem Polling.acceptance (h : s.Polling b c acceptingPhase (a :: as)) (ht : c.msg.type = .acceptReq)
    (hw : ((s.accs a).mngs c.inst).Welcomes c.msg.pp.pentry c.msg.pp.pid) :
    ∃ m rsp, Consents rsp c.msg.pp .accepted ∧ rsp.type = .acceptRsp ∧ ∀ st outs,
      (s.props c.src c.inst).handleAcceptRsp (cfg.on c.src) rsp = (st, outs) →
      ∃ s', s.Asked s' b a c m st (broadcasts outs) := by
  have hreq := (Steadied.of_reachable h.reach).sane.requests
  obtain ⟨n, _, hcol⟩ := h.collects
  obtain ⟨hd, rsp, hsv, hpp, herr, htype, hgo⟩ := hreq.ask (a := a) h.bcast (by rw [ht]; rfl) hw.remembers
  rw [ht] at hsv
  have hg := (hw.accept hsv).congr hpp herr
  refine ⟨hd.mng, rsp, hg, htype, fun st outs hh => ?_⟩
  refine hgo (hg.same.pinst.trans (hreq.bcast c (List.mem_of_getElem? h.bcast)).pinst) st outs ?_
  rw [hcol.handleRsp_accept, hh]

/-- The acceptors of `L` are asked to promise; `as` of them have not been. -/
structure Preparing (s : Synod cfg) (b : Nat) (c : Bcast cfg) (p : Nat)
    (L as : List (Fin cfg.totalAcceptor)) : Prop where
  polling : s.Polling b c preparingPhase as
  unasked : ∀ a ∈ as, ((s.accs a).mngs c.inst).Welcomes c.msg.pp.pentry p
  all : ∀ a ∈ L, ((s.accs a).mngs c.inst).Welcomes c.msg.pp.pentry c.msg.pp.pid

theorem Preparing.last (h : s.Preparing b c p L [a]) (ht : c.msg.type = .prepareReq)
    (hlt : p < c.msg.pp.pid) (hnd : L.Nodup) (hlen : L.length = cfg.majority) :
    ∃ ls s', ((sys cfg).restrict SteadyStep).Run s ls s' ∧ ∃ b' c', s'.Polling b' c' acceptingPhase L ∧
      c'.msg.type = .acceptReq ∧ c'.inst = c.inst ∧ Same c'.msg.pp c.msg.pp ∧
      ∀ a ∈ L, ((s'.accs a).mngs c.inst).Welcomes c.msg.pp.pentry c.msg.pp.pid := by
  have hmem := List.mem_singleton_self a
  obtain ⟨m, rsp, hg, htype, hw, hgo⟩ := h.polling.promise ht hlt (h.unasked a hmem)
  obtain ⟨n, hn, hcol⟩ := h.polling.collects
  obtain ⟨st, outs, m', hh, hb, hm't, hsame, hcol'⟩ :=
    @Collects.promised (cfg.on c.src) _ _ _ _ hcol hg htype (by omega) hn
  obtain ⟨s', hs⟩ := hgo st outs hh
  rw [hb] at hs
  have hbcasts : s'.bcasts = s.bcasts ++ [⟨c.src, c.inst, st.term, m'⟩] := hs.bcasts
  refine ⟨_, s', hs.run, s.bcasts.length, ⟨c.src, c.inst, st.term, m'⟩,
    ⟨h.polling.reach.run hs.run, ?_, ⟨0, ?_, ?_⟩, hnd, fun a' _ hcalled => ?_,
      hs.once (h.polling.fresh a hmem) h.polling.once⟩, hm't, rfl, hsame,
    fun a' ha' => hs.welcomes (fun _ => hw) (h.all a' ha')⟩
  · rw [hbcasts]
    exact List.getElem?_concat_length ..
  · omega
  · rw [hs.inst]
    exact hcol'
  · rw [hs.called] at hcalled
    rcases List.mem_append.mp hcalled with hcalled | hcalled
    · exact Nat.lt_irrefl _ (called_lt h.polling.reach _ hcalled)
    · have hlt := (List.getElem?_eq_some_iff.mp h.polling.bcast).1
      have := (Prod.mk.inj (List.mem_singleton.mp hcalled)).1
      omega

theorem Preparing.next {a' : Fin cfg.totalAcceptor} (h : s.Preparing b c p L (a :: a' :: as))
    (ht : c.msg.type = .prepareReq) (hlt : p < c.msg.pp.pid) :
    ∃ ls s', ((sys cfg).restrict SteadyStep).Run s ls s' ∧ s'.Preparing b c p L (a' :: as) := by
  obtain ⟨m, rsp, hg, htype, hw, hgo⟩ := h.polling.promise ht hlt (h.unasked a (List.mem_cons_self ..))
  obtain ⟨n, hn, hcol⟩ := h.polling.collects
  simp only [List.length_cons] at hn
  obtain ⟨st, hh, hcol'⟩ := @Collects.promise (cfg.on c.src) _ _ _ _ hcol hg htype
    (show n + 1 < cfg.majority by omega)
  obtain ⟨s', hs⟩ := hgo st [] hh
  refine ⟨_, s', hs.run, h.polling.next hs (by simp only [List.length_cons]; omega) hcol',
    fun x hx => ?_, fun x hx => hs.welcomes (fun _ => hw) (h.all x hx)⟩
  refine hs.welcomes (fun he => ?_) (h.unasked x (List.mem_cons_of_mem _ hx))
  subst he
  exact absurd hx (List.nodup_cons.mp h.polling.nodup).1

/-- A majority is asked to promise, and the proposal is broadcast to be accepted. -/
theorem Polling.prepares (h : s.Polling b c preparingPhase L) (ht : c.msg.type = .prepareReq)
    (hlt : p < c.msg.pp.pid) (hL : ∀ a ∈ L, ((s.accs a).mngs c.inst).Welcomes c.msg.pp.pentry p)
    (hlen : L.length = cfg.majority) :
    ∃ ls s', ((sys cfg).restrict SteadyStep).Run s ls s' ∧ ∃ b' c', s'.Polling b' c' acceptingPhase L ∧
      c'.msg.type = .acceptReq ∧ c'.inst = c.inst ∧ Same c'.msg.pp c.msg.pp ∧
      ∀ a ∈ L, ((s'.accs a).mngs c.inst).Welcomes c.msg.pp.pentry c.msg.pp.pid := by
  have hne : L ≠ [] := by
    rintro rfl
    exact absurd hlen (Nat.succ_ne_zero _).symm
  exact LTS.run_through (P := fun as s => s.Preparing b c p L as)
    (fun _ _ hp => hp.last ht hlt h.nodup hlen) (fun _ _ _ _ hp => hp.next ht hlt) hne
    ⟨h, hL, fun a ha => (hL a ha).mono (Nat.le_of_lt hlt)⟩

/-- The acceptors `as` are to be asked to accept. -/
structure Accepting (s : Synod cfg) (b : Nat) (c : Bcast cfg) (as : List (Fin cfg.totalAcceptor)) :
    Prop where
  polling : s.Polling b c acceptingPhase as
  unasked : ∀ a ∈ as, ((s.accs a).mngs c.inst).Welcomes c.msg.pp.pentry c.msg.pp.pid

theorem Accepting.last (h : s.Accepting b c [a]) (ht : c.msg.type = .acceptReq) :
    ∃ ls s', ((sys cfg).restrict SteadyStep).Run s ls s' ∧ s'.called.Nodup ∧
      s'.Chosen c.inst c.msg.pp.pentry := by
  have hmem := List.mem_singleton_self a
  obtain ⟨m, rsp, hg, htype, hgo⟩ := h.polling.acceptance ht (h.unasked a hmem)
  obtain ⟨n, hn, hcol⟩ := h.polling.collects
  obtain ⟨st, outs, hh, hb⟩ := @Collects.accepted (cfg.on c.src) _ _ _ _ hcol hg htype hn
  obtain ⟨s', hs⟩ := hgo st outs hh
  rw [hb] at hs
  refine ⟨_, s', hs.run, hs.once (h.polling.fresh a hmem) h.polling.once,
    ⟨c.src, c.inst, st.term, asChosenReq (cfg.on c.src) rsp⟩, ?_, rfl, rfl, hg.same.pentry⟩
  rw [hs.bcasts]
  exact List.mem_append_right _ (List.mem_singleton_self _)

theorem Accepting.next {a' : Fin cfg.totalAcceptor} (h : s.Accepting b c (a :: a' :: as))
    (ht : c.msg.type = .acceptReq) :
    ∃ ls s', ((sys cfg).restrict SteadyStep).Run s ls s' ∧ s'.Accepting b c (a' :: as) := by
  obtain ⟨m, rsp, hg, htype, hgo⟩ := h.polling.acceptance ht (h.unasked a (List.mem_cons_self ..))
  obtain ⟨n, hn, hcol⟩ := h.polling.collects
  simp only [List.length_cons] at hn
  obtain ⟨st, hh, hcol'⟩ := @Collects.accept (cfg.on c.src) _ _ _ _ hcol hg htype
    (show n + 1 < cfg.majority by omega)
  obtain ⟨s', hs⟩ := hgo st [] hh
  refine ⟨_, s', hs.run, h.polling.next hs (by simp only [List.length_cons]; omega) hcol',
    fun x hx => ?_⟩
  rw [hs.others x fun he => (List.nodup_cons.mp h.polling.nodup).1 (he ▸ hx)]
  exact h.unasked x (List.mem_cons_of_mem _ hx)

/-- A majority is asked to accept, and the proposal is chosen. -/
theorem Polling.accepts (h : s.Polling b c acceptingPhase L) (ht : c.msg.type = .acceptReq)
    (hL : ∀ a ∈ L, ((s.accs a).mngs c.inst).Welcomes c.msg.pp.pentry c.msg.pp.pid) (hne : L ≠ []) :
    ∃ ls s', ((sys cfg).restrict SteadyStep).Run s ls s' ∧ s'.called.Nodup ∧
      s'.Chosen c.inst c.msg.pp.pentry :=
  LTS.run_through (P := fun as s => s.Accepting b c as) (fun _ _ hp => hp.last ht)
    (fun _ _ _ _ hp => hp.next ht) hne ⟨h, hL⟩

end

/-! ## Calls that come to nothing -/

section

variable {s s' s'' : Synod cfg} {k : Fin cfg.totalProposer} {i : Nat}

/-- Proposer `k` has drawn ids on instance `i`, and nothing has come of it. -/
structure Wasted (s s' : Synod cfg) (k : Fin cfg.totalProposer) (i : Nat) : Prop where
  accs : s'.accs = s.accs
  called : s'.called = s.called
  idle : (s'.props k i).req = none
  entry : (s'.props k i).lastChosenEntry = (s.props k i).lastChosenEntry

theorem Wasted.trans (h : Wasted s s' k i) (h' : Wasted s' s'' k i) : Wasted s s'' k i :=
  ⟨h'.accs.trans h.accs, h'.called.trans h.called, h'.idle, h'.entry.trans h.entry⟩

theorem steady_propose (hi : i < cfg.plogInstNum) {opaqueData : Nat} {val : List UInt8} {promise : Nat}
    (hskip : (s.props k i).SkipsPrepare (cfg.on k) i opaqueData val → lowest cfg k i) :
    SteadyStep s (.propose k opaqueData val i promise false) s' := by
  refine ⟨remembering_of_remembering rfl, fun _ _ _ _ _ _ hl hs => ?_, told_of_told rfl⟩
  cases hl
  rw [Nat.mod_eq_of_lt hi] at hs ⊢
  exact hskip hs

/-- Once an instance has drawn an id, it is off the one-phase path. -/
theorem not_skips_again (h : ((sys cfg).restrict SteadyStep).Reachable s)
    (h' : ((sys cfg).restrict SteadyStep).Reachable s')
    (hlt : (s.props k i).ig.id < (s'.props k i).ig.id) (opaqueData : Nat) (val : List UInt8) :
    ¬ (s'.props k i).SkipsPrepare (cfg.on k) i opaqueData val := by
  have hrounds := (Steadied.of_reachable h).sane.rounds k i
  have hrounds' := (Steadied.of_reachable h').sane.rounds k i
  obtain ⟨_, j, hj⟩ := hrounds.ig
  refine not_skipsPrepare ?_
  rw [hrounds'.proposerId, ← hrounds.proposerId]
  omega

theorem step_timeout_own (hi : i < cfg.plogInstNum) {term : Nat} (haw : (s.props k i).Awaits term) :
    ∃ s', s.step (.timeout k term i 0) = some s' ∧ s'.accs = s.accs ∧ s'.called = s.called ∧
      s'.props k i = (s.props k i).handleTimeout.1 := by
  have hmod : i % (cfg.on k).plogInstNum = i := Nat.mod_eq_of_lt hi
  have hr : (s.props k).handleRpcResponse (cfg.on k) ⟨term, i, 0, none⟩ =
      some (Function.update (s.props k) i (s.props k i).handleTimeout.1, (s.props k i).handleTimeout.2) := by
    unfold Proposer.handleRpcResponse
    simp only [hmod]
    rw [if_neg (not_not.mpr haw)]
  have hs : s.step (.timeout k term i 0) = some (s.send k
      (Function.update (s.props k) i (s.props k i).handleTimeout.1) (i % cfg.plogInstNum)
      (broadcasts (s.props k i).handleTimeout.2)) := by
    simp only [step, hr, Option.map_some]
  refine ⟨_, hs, rfl, rfl, ?_⟩
  show Function.update s.props k (Function.update (s.props k) i _) k i = _
  rw [Function.update_self, Function.update_self]

/-- A call that times out before anybody answers. -/
theorem wastes (h : ((sys cfg).restrict SteadyStep).Reachable s) (hi : i < cfg.plogInstNum)
    (hidle : (s.props k i).req = none)
    (hskip : ∀ opaqueData val, (s.props k i).SkipsPrepare (cfg.on k) i opaqueData val → lowest cfg k i) :
    ∃ ls s', ((sys cfg).restrict SteadyStep).Run s ls s' ∧ Wasted s s' k i ∧
      (s.props k i).ig.id < (s'.props k i).ig.id := by
  obtain ⟨m₀, hb₀, _⟩ := @proposeAsync_idle (cfg.on k) _ hidle i 0 [0] 0
  rcases proposeAsync_draws (cfg.on k) (s.props k i) i 0 [0] 0 false with ⟨_, hb⟩ | ⟨m, hb, hd⟩
  · rw [hb₀] at hb
    cases hb
  obtain ⟨s₁, h₁⟩ : ∃ s₁, s.step (.propose k 0 [0] i 0 false) = some s₁ := ⟨_, rfl⟩
  have hsame : s₁.accs = s.accs ∧ s₁.called = s.called := by
    obtain rfl := Option.some.inj h₁
    exact ⟨rfl, rfl⟩
  rw [← (step_propose h₁ (Nat.mod_eq_of_lt hi).symm).1] at hd
  obtain ⟨q, hq, _⟩ := hd.req
  obtain ⟨s₂, h₂, haccs, hcalled, hp⟩ := step_timeout_own (s := s₁) hi ⟨hd.term.symm, by rw [hq]; rfl⟩
  have hpos : 0 < (s.props k i).ig.step := by
    rw [((Steadied.of_reachable h).sane.rounds k i).ig.1]
    exact cfg.proposer_pos
  refine ⟨_, s₂, .cons ⟨h₁, steady_propose hi (hskip 0 [0])⟩ (.single ⟨h₂,
    remembering_of_remembering rfl, skipsWithin_of_skipsLowest rfl, told_of_told rfl⟩),
    ⟨haccs.trans hsame.1, hcalled.trans hsame.2, ?_, ?_⟩, ?_⟩
  · rw [hp]
    rfl
  · rw [hp]
    exact hd.entry
  · rw [hp]
    show _ < (s₁.props k i).ig.id
    rw [hd.ig]
    exact Nat.lt_add_of_pos_right hpos

/-- An idle proposer draws an id as large as it takes. -/
theorem outbids (p : Nat) (h : ((sys cfg).restrict SteadyStep).Reachable s) (hi : i < cfg.plogInstNum)
    (hidle : (s.props k i).req = none)
    (hskip : ∀ opaqueData val, (s.props k i).SkipsPrepare (cfg.on k) i opaqueData val → lowest cfg k i) :
    ∃ ls s', ((sys cfg).restrict SteadyStep).Run s ls s' ∧ Wasted s s' k i ∧
      (s.props k i).ig.id + p ≤ (s'.props k i).ig.id := by
  induction p generalizing s with
  | zero => exact ⟨[], s, .nil s, ⟨rfl, rfl, hidle, rfl⟩, Nat.le_refl _⟩
  | succ p ih =>
    obtain ⟨ls, s₁, hr, hw, hlt⟩ := wastes h hi hidle hskip
    obtain ⟨ls', s', hr', hw', hle⟩ := ih (h.run hr) hw.idle fun od val hs =>
      absurd hs (not_skips_again h (h.run hr) hlt od val)
    exact ⟨ls ++ ls', s', hr.append hr', hw.trans hw', by omega⟩

theorem calls_prepare (h : ((sys cfg).restrict SteadyStep).Reachable s) (hi : i < cfg.plogInstNum)
    (hidle : (s.props k i).req = none)
    (hno : ∀ opaqueData val, ¬ (s.props k i).SkipsPrepare (cfg.on k) i opaqueData val)
    {L : List (Fin cfg.totalAcceptor)} (hnd : L.Nodup) (hlen : L.length = cfg.majority)
    (honce : s.called.Nodup) :
    ∃ l s' b c, ((sys cfg).restrict SteadyStep).step s l s' ∧ s'.accs = s.accs ∧
      s'.Polling b c preparingPhase L ∧ c.msg.type = .prepareReq ∧ c.inst = i ∧
      c.msg.pp.pentry = (s.props k i).lastChosenEntry + 1 ∧ (s.props k i).ig.id ≤ c.msg.pp.pid := by
  obtain ⟨timeout, hr, hb⟩ := @proposeAsync_prepares (cfg.on k) _ _ _ 0 _ hidle (hno 0 [0])
  obtain ⟨s₁, h₁⟩ : ∃ s₁, s.step (.propose k 0 [0] i 0 false) = some s₁ := ⟨_, rfl⟩
  have hst : ((sys cfg).restrict SteadyStep).step s (.propose k 0 [0] i 0 false) s₁ :=
    ⟨h₁, steady_propose hi fun hs => absurd hs (hno 0 [0])⟩
  obtain ⟨hp, hg⟩ := step_propose h₁ (Nat.mod_eq_of_lt hi).symm
  have hsame : s₁.accs = s.accs ∧ s₁.called = s.called := by
    obtain rfl := Option.some.inj h₁
    exact ⟨rfl, rfl⟩
  rw [hr] at hp hg
  generalize hm : (s.props k i).proposalMsg (cfg.on k) i 0 [0] = m at hp hg
  have hbs := hg.bcasts
  rw [show broadcasts [Out.rpc (asPrepareReq m), timeout] = [asPrepareReq m] from
    congrArg (asPrepareReq m :: ·) hb] at hbs
  obtain ⟨hnot, hph, _⟩ := begun_state (cfg.on k) (s.props k i) i 0 [0] 0 m
  refine ⟨_, s₁, s.bcasts.length, ⟨k, i, (s₁.props k i).term, asPrepareReq m⟩, hst, hsame.1,
    ⟨h.step hst, ?_, ⟨0, by omega, ?_⟩, hnd, fun a _ hmem => ?_, hsame.2 ▸ honce⟩, ?_, rfl, ?_, ?_⟩
  · rw [hbs]
    exact List.getElem?_concat_length ..
  · show (s₁.props k i).Collects preparingPhase (asPrepareReq m) 0
    rw [hp]
    exact ⟨⟨m, rfl, ⟨rfl, rfl, rfl, rfl⟩, rfl⟩, by rw [← hm]; rfl, hph, hnot, rfl, rfl⟩
  · rw [hsame.2] at hmem
    exact Nat.lt_irrefl _ (called_lt h _ hmem)
  · rw [← hm]
    rfl
  · rw [← hm]
    rfl
  · rw [← hm]
    exact Nat.left_le_or

end

/-! ## Runs -/

theorem voted_inductive {ok : Synod cfg → SynodOp cfg → Synod cfg → Prop}
    (hkeep : ∀ s l s', ok s l s' → Remembering s l s') :
    ((sys cfg).restrict ok).Inductive fun s =>
      (s.Sane ∧ (∀ a i, InSync ((s.accs a).mngs i)) ∧ ∀ i e a, s.Keeper i e a) ∧
      ∀ a i e q, HeldAccepted ((s.accs a).mngs i) e q → s.VotedAt i e a := by
  refine (keeper_inductive hkeep).rel ?_ ?_
  · intro s hinit a i e q hq
    obtain ⟨sec, rfl⟩ := hinit
    obtain ⟨x, hx, _⟩ := hq
    exact absurd hx new_empty
  intro s l s' hI hI' h hst a i e q hq
  obtain ⟨hs, hok⟩ := hst
  obtain ⟨hsane, _, _⟩ := hI
  obtain ⟨new, hg⟩ := step_grows hs
  have hold : ∀ {e q}, HeldAccepted ((s.accs a).mngs i) e q → s'.VotedAt i e a := fun hq => by
    obtain ⟨v, hv, hat⟩ := h a i _ _ hq
    exact ⟨v, hg.votes hv, hat⟩
  cases hsane.requests.step_mng hs a i with
  | same _ hm => exact hold (hm ▸ hq)
  | restart batch lastCommitted fuel hm =>
    obtain ⟨x, hx, hxq⟩ := hq
    have hf := loadAllFromDisk_fromLog ((hkeep _ _ _ hok).logs _ _ _ _ _ rfl) hm
    exact hold ⟨x, .inr (hf.stored hx), hxq⟩
  | served bid saves c hd hc hinst hsv hm =>
    rcases hsv.heldAccepted (hm ▸ hq) with hq' | ⟨ht, rfl, rfl⟩ | ⟨_, rfl, q₀, _, hq₀, _⟩
    · exact hold hq'
    · obtain ⟨x, hx, hxq⟩ := (hI'.2.1 a i).stored hq
      have hmem := List.mem_of_getElem? hc
      cases step_net hs with
      | other _ haccs => exact hold (haccs ▸ hq)
      | deliver _ _ _ c' hc' haccs _ hvotes =>
        obtain rfl := Option.some.inj (hc.symm.trans hc')
        have hheld : Holds cfg ((s.accs a).doHandleMsg (cfg.on a) saves c.msg).2 c.msg.pp := by
          refine ⟨x, _, ?_, hxq, rfl, rfl⟩
          rw [hsane.requests.mngOf hmem, hinst, ← hx, haccs, Function.update_self]
        refine ⟨⟨a, c.msg.pp.pinst, c.msg.pp.pentry, c.msg.pp.pid, c.msg.pp.valueId⟩, ?_, rfl,
          (hsane.bcast hmem).pinst.trans hinst, rfl⟩
        rw [hvotes]
        unfold voteOf
        rw [if_pos ⟨ht, hheld⟩]
        exact List.mem_append_right _ (List.mem_singleton_self _)
    · exact hold hq₀

section

variable {s : Synod cfg} {k : Fin cfg.totalProposer} {i e : Nat}

theorem exists_promised_le (Q : Finset (Fin cfg.totalAcceptor)) (i e : Nat) : ∃ p, ∀ a ∈ Q, ∀ pr,
    (((s.accs a).mngs i).opened e).promised = some pr → pr.pid ≤ p := by
  refine ⟨Q.sup fun a => ((((s.accs a).mngs i).opened e).promised.map (·.pid)).getD 0, fun a ha pr hpr => ?_⟩
  have := Finset.le_sup (f := fun a => ((((s.accs a).mngs i).opened e).promised.map (·.pid)).getD 0) ha
  simpa only [hpr, Option.map_some, Option.getD_some] using this

/-- A proposer that nobody competes with has its next entry chosen by a majority that has not voted
for it. -/
theorem chooses (h : ((sys cfg).restrict SteadyStep).Reachable s) (honce : s.called.Nodup)
    (hi : i < cfg.plogInstNum) (hidle : (s.props k i).req = none)
    (hskip : ∀ opaqueData val, (s.props k i).SkipsPrepare (cfg.on k) i opaqueData val → lowest cfg k i)
    (he : (s.props k i).lastChosenEntry + 1 = e) {Q : Finset (Fin cfg.totalAcceptor)} (hQ : Majority Q)
    (hready : ∀ a ∈ Q, ((s.accs a).mngs i).Ready e) (hno : ∀ a ∈ Q, ¬ s.VotedAt i e a) :
    ∃ ls s', ((sys cfg).restrict SteadyStep).Run s ls s' ∧ s'.called.Nodup ∧ s'.Chosen i e := by
  have hlen : (Q.toList.take cfg.majority).length = cfg.majority := by
    rw [List.length_take, Finset.length_toList]
    unfold Majority at hQ
    rw [Fintype.card_fin] at hQ
    exact Nat.min_eq_left hQ
  have hsub : ∀ a ∈ Q.toList.take cfg.majority, a ∈ Q := fun a ha =>
    Finset.mem_toList.mp (List.mem_of_mem_take ha)
  obtain ⟨p, hp⟩ := exists_promised_le (s := s) Q i e
  have hwelcome : ∀ a ∈ Q, ((s.accs a).mngs i).Welcomes e p := fun a ha => by
    refine ⟨hready a ha, Option.eq_none_iff_forall_not_mem.mpr fun q hq => hno a ha ?_, hp a ha⟩
    exact ((voted_inductive fun _ _ _ hok => hok.keeps).reachable s h).2 a i e q (heldAccepted_opened hq)
  obtain ⟨ls, s₁, hr, hw, hid⟩ := outbids (p + 1) h hi hidle hskip
  have h₁ := h.run hr
  have hno₁ := not_skips_again (k := k) (i := i) h h₁ (by omega)
  obtain ⟨l, s₂, b, c, hs, haccs, hpoll, ht, rfl, hentry, hpid⟩ := calls_prepare h₁ hi hw.idle hno₁
    ((Finset.nodup_toList Q).sublist (List.take_sublist _ _)) hlen (hw.called ▸ honce)
  rw [hw.entry, he] at hentry
  subst hentry
  obtain ⟨ls₂, s₃, hr₂, b', c', hpoll', ht', hinst, hsame, hall⟩ := hpoll.prepares ht (p := p) (by omega)
    (fun a ha => by
      rw [haccs, hw.accs]
      exact hwelcome a (hsub a ha)) hlen
  rw [← hsame.pentry, ← hsame.pid, ← hinst] at hall
  obtain ⟨ls₃, s₄, hr₃, hnd, hch⟩ := hpoll'.accepts ht' hall fun hnil => by
    rw [hnil] at hlen
    exact absurd hlen (Nat.succ_ne_zero _).symm
  rw [hinst, hsame.pentry] at hch
  exact ⟨_, s₄, (hr.append (.single hs)).append (hr₂.append hr₃), hnd, hch⟩

/-- While no round of an instance is running, its next entry can still be chosen exactly when a
majority of the acceptors has not voted for it. -/
theorem choosable_iff (h : ((sys cfg).restrict SteadyStep).Reachable s) (honce : s.called.Nodup)
    (hi : i < cfg.plogInstNum) (hidle : ∀ k, (s.props k i).req = none) (hun : ¬ s.Chosen i e)
    (hnext : (s.props k i).lastChosenEntry + 1 = e)
    (hskip : ∀ opaqueData val, (s.props k i).SkipsPrepare (cfg.on k) i opaqueData val → lowest cfg k i)
    (hready : ∀ a, ((s.accs a).mngs i).Ready e) :
    (∃ ls s', ((sys cfg).restrict SteadyStep).Run s ls s' ∧ s'.called.Nodup ∧ s'.Chosen i e) ↔
      ∃ Q : Finset (Fin cfg.totalAcceptor), Majority Q ∧ ∀ a ∈ Q, ¬ s.VotedAt i e a := by
  constructor
  · intro hrun
    obtain ⟨ls, s', hr, honce', hch⟩ := hrun
    by_contra hall
    have hblocked : s.Blocked i e := ⟨fun Q hQ => by
      by_contra hno
      exact hall ⟨Q, hQ, fun a ha hv => hno ⟨a, ha, hv⟩⟩, hidle, hun⟩
    have hinv := Steadied.of_reachable h
    exact ((hblocked.stalled hinv.sane).run hblocked.voted h hr honce').unchosen hch
  · intro hQ
    obtain ⟨Q, hmaj, hno⟩ := hQ
    exact chooses h honce hi (hidle k) hskip hnext hmaj (fun a _ => hready a) hno

end

/-! ## One acceptance -/

/-- Acceptors 0 and 1 promise, acceptor 0 accepts, and the round times out. -/
def oneAccepted : Synod (Configure.init 0) :=
  (ranSteps (start _ fun _ => 7) [.propose ⟨0, first_of_three⟩ 0 [7] 0 0 false,
    .deliver 0 ⟨0, first_of_three⟩ Saves.good, .deliver 0 ⟨1, second_of_three⟩ Saves.good, .reply 0, .reply 1,
    .deliver 1 ⟨0, first_of_three⟩ Saves.good, .timeout ⟨0, first_of_three⟩ 0 0 1]).get (by decide +kernel)

/-- Proposer 1 can have the entry chosen by acceptors 1 and 2. -/
theorem choosable_iff_one : oneAccepted.VotedAt 0 1 ⟨0, first_of_three⟩ ∧
    ∃ ls s', ((sys _).restrict SteadyStep).Run oneAccepted ls s' ∧ s'.called.Nodup ∧ s'.Chosen 0 1 := by
  have hrun := run_of_ranSteps (show _ = some oneAccepted from (Option.some_get _).symm)
  have hmaj : Majority ({⟨1, second_of_three⟩, ⟨2, third_of_three⟩} : Finset (Fin (Configure.init 0).totalAcceptor)) :=
    show Fintype.card _ / 2 + 1 ≤ Finset.card _ by decide
  have hvotes : oneAccepted.VotedAt 0 1 ⟨0, first_of_three⟩ ∧
      ∀ a ∈ ({⟨1, second_of_three⟩, ⟨2, third_of_three⟩} : Finset (Fin (Configure.init 0).totalAcceptor)),
        ¬ oneAccepted.VotedAt 0 1 a := by
    unfold VotedAt Vote.At
    decide +kernel
  have hready : ∀ a, ((oneAccepted.accs a).mngs 0).lastChosenEntry = noEntry ∧
      ((((oneAccepted.accs a).mngs 0).cached 1).isSome ∨ (((oneAccepted.accs a).mngs 0).disk 1).isNone) := by
    decide +kernel
  refine ⟨hvotes.1, (choosable_iff (k := ⟨1, second_of_three⟩) ⟨_, _, ⟨_, rfl⟩, hrun⟩ (by decide +kernel)
    (by decide) (by decide +kernel) ?_ (by decide +kernel) (fun _ _ hs => ?_) fun a => ?_).mpr
    ⟨_, hmaj, hvotes.2⟩⟩
  · unfold Chosen
    decide +kernel
  · exact absurd (of_decide_eq_true hs.2.2).2.1 (by decide +kernel)
  · obtain ⟨hlast, hstored⟩ := hready a
    exact ⟨.inl hlast, hstored.imp Option.isSome_iff_ne_none.mp fun h => .inr (Option.isNone_iff_eq_none.mp h)⟩

end Synod
end Quarrel
