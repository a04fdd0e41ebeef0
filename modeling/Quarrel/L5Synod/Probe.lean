import Quarrel.L4Proposer.Round
import Quarrel.L5Synod.ChosenSound
import Quarrel.L5Synod.Fields

/-!
# Read probes

A `ProposeAsync` without a value prepares with id 0 and stores nothing. OK means that
no value is chosen for the entry: a majority has answered with a promise, and an
acceptor that holds a vote does not promise while its entry stays in the cache.

A probe is also answered OK when its last response is a promise, whatever the ones
before it were, since the result is that of the response at hand.

* `reported`: the codes a step reports for an instance.
* `Reports`: a step that reports OK for the probe of one call.
* `ProbeCount`: the promises counted for the probe. `ProbeCount.step` keeps it.
* `probe_sound`: OK is sound, unless the last response has ended the probe short.
* `not_alwaysSound`: two votes and one promise.
-/
namespace Quarrel

open InstanceState EntryMng

variable {cfg : Configure}

/-! ## What is reported as OK -/

/-- OK is reported on a valid promise that completes the majority or is the last response. -/
theorem InstanceState.PrepareRspDone.ok {s s' : InstanceState} {q rsp : PaxosMsg} {outs : List Out}
    (h : PrepareRspDone cfg s q rsp s' outs) (hok : ErrCode.ok ∈ codes outs) :
    ValidPromise q rsp ∧ (cfg.majority ≤ u8 (s.validRspCount + 1) ∨ s.lastRsp cfg = true) := by
  have hcount : (s.afterPromise q rsp).validRspCount = u8 (s.validRspCount + 1) :=
    afterPromise_validRspCount s q rsp
  cases h with
  | wrongType => cases hok
  | refused ret _ _ _ _ hret _ _ ho => exact absurd ((Round.prepareOut_codes ho).1.mp hok).2.1 hret
  | pending hv _ _ ho => exact ⟨hv, .inr ((Round.prepareOut_codes ho).1.mp hok).1⟩
  | probed hv _ hmaj _ _ ho => exact ⟨hv, .inl (hcount ▸ hmaj)⟩
  | accepting _ _ _ _ _ _ _ _ ho =>
    rw [ho] at hok
    split at hok <;> simp at hok

theorem proposeAsync_codes (cfg : Configure) (s : InstanceState) (i opaqueData : Nat)
    (val : List UInt8)
    (promise : Nat) (oom : Bool) :
    ErrCode.ok ∉ codes (s.proposeAsync cfg i opaqueData val promise oom).2 := by
  have hd := proposeAsync_done cfg s i opaqueData val promise oom
  generalize s.proposeAsync cfg i opaqueData val promise oom = r at hd
  obtain ⟨s', outs⟩ := r
  cases hd with
  | rejected code hc => simpa using hc.symm
  | prepare => simp
  | fast => simp

theorem Proposer.handleRpcResponse_timeout {p p' : Proposer} {m : RpcResponseMsg} {outs : List Out}
    (hm : m.msg = none)
    (h : p.handleRpcResponse cfg m = some (p', outs)) : ErrCode.ok ∉ codes outs := by
  cases Proposer.handleRpcResponse_done h with
  | late => simp
  | timeout =>
    rw [Round.handleTimeout_codes]
    split <;> simp
  | prepare rsp _ hrsp | accept rsp _ hrsp | phaseless rsp hrsp =>
    rw [hm] at hrsp
    cases hrsp

/-- A failed ACCEPT answer reports its own code, whatever instance its body names. -/
theorem Proposer.handleRpcResponse_fails {p p' : Proposer} {m : RpcResponseMsg} {rsp : PaxosMsg}
    {outs : List Out}
    (hm : m.msg = some rsp) (ht : rsp.type = .acceptRsp) (he : rsp.errcode ≠ ErrCode.ok)
    (h : p.handleRpcResponse cfg m = some (p', outs)) : ErrCode.ok ∉ codes outs := by
  cases Proposer.handleRpcResponse_done h with
  | late | phaseless => simp
  | timeout haw hrsp =>
    rw [hm] at hrsp
    cases hrsp
  | prepare rsp' haw hrsp hph hs =>
    obtain rfl := Option.some.inj (hm.symm.trans hrsp)
    rw [handlePrepareRsp_wrongType (by rw [ht]; decide)] at hs
    cases hs
    simp
  | accept rsp' haw hrsp hph hs =>
    obtain rfl := Option.some.inj (hm.symm.trans hrsp)
    unfold handleAcceptRsp at hs
    split at hs
    · cases hs
      simp
    · dsimp only at hs
      rw [if_neg (by simp [ht]), if_pos he] at hs
      exact fun hok => he (((Round.acceptOut_codes hs.symm).1.mp hok).2.1)

namespace Synod

/-- The codes step `l` reports for instance `i` of proposer `k`. -/
def reported (s : Synod cfg) (k : Fin cfg.totalProposer) (i : Nat) : SynodOp cfg → List Int
  | .propose k' opaqueData val pinst promise oom =>
    if k' = k ∧ pinst % cfg.plogInstNum = i then
      codes ((s.props k).proposeAsync (cfg.on k) opaqueData val pinst promise oom).2
    else []
  | .timeout k' term pinst entry =>
    if k' = k ∧ pinst % cfg.plogInstNum = i then
      (((s.props k).handleRpcResponse (cfg.on k) ⟨term, pinst, entry, none⟩).map fun r => codes r.2).getD []
    else []
  | .reply rid =>
    match s.rsps[rid]? with
    | none => []
    | some x =>
      match s.bcasts[x.bid]? with
      | none => []
      | some c =>
        if c.src = k ∧ x.msg.pp.pinst = i then
          (((s.props k).handleRpcResponse (cfg.on k) (rpcResponseOf c.msg x.msg)).map fun r => codes r.2).getD []
        else []
  | _ => []

/-- Step `l` brings instance `i` of proposer `k` a valid promise, the last response to
its PREPARE, and fewer than a majority of the responses are valid. -/
def EndsShort (s : Synod cfg) (k : Fin cfg.totalProposer) (i : Nat) (l : SynodOp cfg) : Prop :=
  ∃ rid x c q, l = .reply rid ∧ s.rsps[rid]? = some x ∧ s.bcasts[x.bid]? = some c ∧ c.src = k ∧
  x.msg.pp.pinst = i ∧
    (s.props k i).Awaits c.msg.pp.term ∧ (s.props k i).req = some q ∧ ValidPromise q x.msg ∧
    (s.props k i).lastRsp (cfg.on k) = true ∧ u8 ((s.props k i).validRspCount + 1) < cfg.majority

section

variable {s s' : Synod cfg} {l : SynodOp cfg} {k : Fin cfg.totalProposer} {i : Nat}

/-- In the PREPARE phase OK is reported on a valid promise, which completes the majority
or ends the round short. -/
theorem Sane.reported_ok (h : s.Sane) (hs : s.step l = some s')
    (hph : (s.props k i).req ≠ none → (s.props k i).phase = preparingPhase)
    (hok : ErrCode.ok ∈ s.reported k i l) :
    ∃ x q, Reaches s s' k i x ∧ (s.props k i).req = some q ∧ ValidPromise q x.msg ∧
      (cfg.majority ≤ u8 ((s.props k i).validRspCount + 1) ∨ s.EndsShort k i l) := by
  have hresponse : ∀ {m : RpcResponseMsg},
      ErrCode.ok ∈ (((s.props k).handleRpcResponse (cfg.on k) m).map fun r => codes r.2).getD [] →
      ∃ p' outs, (s.props k).handleRpcResponse (cfg.on k) m = some (p', outs) ∧
      ErrCode.ok ∈ codes outs := by
    intro m hm
    cases hr : (s.props k).handleRpcResponse (cfg.on k) m with
    | none =>
      rw [hr] at hm
      cases hm
    | some r =>
      rw [hr] at hm
      exact ⟨r.1, r.2, rfl, hm⟩
  cases l with
  | propose k' opaqueData val pinst promise oom =>
    simp only [reported] at hok
    split at hok
    · exact absurd hok (proposeAsync_codes _ _ _ _ _ _ _)
    · cases hok
  | timeout k' term pinst entry =>
    simp only [reported] at hok
    split at hok
    · obtain ⟨p', outs, hr, hok⟩ := hresponse hok
      exact absurd hok (Proposer.handleRpcResponse_timeout rfl hr)
    · cases hok
  | reply rid =>
    simp only [reported] at hok
    split at hok
    · cases hok
    rename_i x hx
    split at hok
    · cases hok
    rename_i c hc
    split at hok
    swap
    · cases hok
    rename_i hof
    obtain ⟨rfl, rfl⟩ := hof
    obtain ⟨p', outs, hr, hok⟩ := hresponse hok
    have hans := h.requests.answerOk (List.mem_of_getElem? hx) hc
    have hb := h.bcast (List.mem_of_getElem? hc)
    rcases hans.pinst with hown | ⟨hne, ht⟩
    · have hinst : (rpcResponseOf c.msg x.msg).pinst % (cfg.on c.src).plogInstNum = x.msg.pp.pinst := by
        have hlt : c.msg.pp.pinst < cfg.plogInstNum := hb.pinst ▸ hb.inst_lt
        rw [hown]
        exact Nat.mod_eq_of_lt hlt
      rw [Proposer.handleRpcResponse_own (m := rpcResponseOf c.msg x.msg) rfl hinst.symm,
        hinst] at hr
      obtain ⟨⟨st, o⟩, hd, he⟩ := Option.map_eq_some_iff.mp hr
      obtain ⟨rfl, rfl⟩ := Prod.mk.inj he
      by_cases haw : (s.props c.src x.msg.pp.pinst).Awaits (rpcResponseOf c.msg x.msg).term
      swap
      · unfold handleRsp at hd
        rw [if_pos haw] at hd
        cases hd
        cases hok
      obtain ⟨q, hq⟩ := Option.isSome_iff_exists.mp haw.2
      have hprep := hph (by rw [hq]; simp)
      have hd : (s.props c.src x.msg.pp.pinst).handlePrepareRsp (cfg.on c.src) x.msg = some (st, o) := by
        unfold handleRsp at hd
        rwa [if_neg (not_not.mpr haw), if_pos hprep] at hd
      obtain ⟨hv, hcount⟩ := (handlePrepareRsp_done hq hd).ok hok
      have hcalled : s'.called = s.called ++ [(x.bid, x.acc)] := by
        simp only [Synod.step, hx, hc] at hs
        obtain ⟨_, _, rfl⟩ := Option.map_eq_some_iff.mp hs
        rfl
      refine ⟨x, q, ⟨⟨List.mem_of_getElem? hx, c, hc, rfl, hown.symm, haw⟩, hcalled⟩, hq, hv, ?_⟩
      by_cases hmaj : cfg.majority ≤ u8 ((s.props c.src x.msg.pp.pinst).validRspCount + 1)
      · exact .inl hmaj
      · exact .inr ⟨rid, x, c, q, rfl, hx, hc, rfl, rfl, haw, hq, hv, hcount.resolve_left hmaj,
          Nat.not_le.mp hmaj⟩
    · exact absurd hok (Proposer.handleRpcResponse_fails rfl ht hne hr)
  | _ => cases hok

end

/-! ## Votes stay -/

/-- No acceptor restarts, and entry `e` of instance `i` stays in the caches. -/
structure KeepsCached (i e : Nat) (s : Synod cfg) (l : SynodOp cfg) (s' : Synod cfg) : Prop where
  restart : ∀ acc inst batch lastCommitted fuel, l ≠ .restart acc inst batch lastCommitted fuel
  cached : ∀ a, ((s.accs a).mngs i).cached e ≠ none → ((s'.accs a).mngs i).cached e ≠ none

theorem readsLogs_of_keepsCached {i e : Nat} {s s' : Synod cfg} {l : SynodOp cfg}
    (h : KeepsCached i e s l s') :
    ReadsLogs s l s' :=
  fun _ _ _ _ _ hl => absurd hl (h.restart _ _ _ _ _)

section

variable {s s' : Synod cfg} {l : SynodOp cfg} {i e : Nat}

/-- What a request for the entry keeps, and what only reads the entry, survives a step. -/
theorem Sane.step_entry {P : EntryMng → Prop} (h : s.Sane) (hs : s.step l = some s')
    (hk : KeepsCached i e s l s')
    (hserved : ∀ {m : EntryMng} {saves : Saves} {pp : Proposal} {t : PaxosMsgType} {hd : Handled},
      Served m saves pp t hd → pp.pentry = e → P m → P hd.mng)
    (hframe : ∀ {m m' : EntryMng}, m'.cached e = m.cached e → m'.disk e = m.disk e → P m → P m')
    (a : Fin cfg.totalAcceptor) (hP : P ((s.accs a).mngs i)) : P ((s'.accs a).mngs i) := by
  have hkeep := hk.cached a
  cases h.requests.step_mng hs a i with
  | same _ hm =>
    rw [hm]
    exact hP
  | served bid saves c hd hc hinst hsv hm =>
    rw [hm] at hkeep ⊢
    by_cases he : c.msg.pp.pentry = e
    · exact hserved hsv he hP
    · have hne : e ≠ c.msg.pp.pentry := fun h => he h.symm
      exact hframe (hsv.unevicted hne hkeep) (hsv.other hne).1 hP
  | restart => exact absurd rfl (hk.restart _ _ _ _ _)

theorem Sane.step_voted (h : s.Sane) (hs : s.step l = some s') (hk : KeepsCached i e s l s')
    (a : Fin cfg.totalAcceptor)
    (hv : Voted ((s.accs a).mngs i) e) : Voted ((s'.accs a).mngs i) e := by
  refine h.step_entry (P := fun m => Voted m e) hs hk ?_ ?_ a hv
  · intro m saves pp t hd hsv heq hm
    subst heq
    exact hsv.voted hm
  · intro m m' hc _ hheld
    obtain ⟨x, hx, hxa⟩ := hheld
    exact ⟨x, hc.trans hx, hxa⟩

theorem Sane.step_voteCached (h : s.Sane) (hs : s.step l = some s') (hk : KeepsCached i e s l s')
    (a : Fin cfg.totalAcceptor) (hv : VoteCached ((s.accs a).mngs i) e) :
    VoteCached ((s'.accs a).mngs i) e := by
  refine h.step_entry (P := fun m => VoteCached m e) hs hk ?_ ?_ a hv
  · intro m saves pp t hd hsv heq hm
    subst heq
    exact hsv.voteCached hm
  · intro m m' hc hd hm x hx hxa
    obtain ⟨y, hy, hya⟩ := hm x (hd.symm.trans hx) hxa
    exact ⟨y, hc.trans hy, hya⟩

end

theorem voteCached_inductive (i e : Nat) : ((sys cfg).restrict (KeepsCached i e)).Inductive fun s =>
    s.Sane ∧ ∀ a, VoteCached ((s.accs a).mngs i) e := by
  refine (sane_inductive fun _ _ _ h => readsLogs_of_keepsCached h).rel ?_ ?_
  · intro s hinit a x hx
    obtain ⟨sec, rfl⟩ := hinit
    simp [start, Acceptor.new, EntryMng.new] at hx
  · intro s l s' hsane _ h hst a
    exact hsane.step_voteCached hst.1 hst.2 a (h a)

/-! ## One probe -/

/-- The answer is a promise, with no larger id than `pid`. -/
structure Grants (x : Answer cfg) (pid : Nat) : Prop where
  type : x.msg.type = .prepareRsp
  errcode : x.msg.errcode = ErrCode.ok
  status : x.msg.pp.status = .promised
  pid_le : x.msg.pp.pid ≤ pid

/-- A callback of broadcast `b` has been invoked for acceptor `a`, which has granted the PREPARE. -/
def Granted (s : Synod cfg) (b : Nat) (a : Fin cfg.totalAcceptor) : Prop :=
  (b, a) ∈ s.called ∧ ∃ x ∈ s.rsps, x.bid = b ∧ x.acc = a ∧ Grants x 0

/-- Broadcast `b` is the PREPARE of a probe for entry `e`, in round `r` of instance `i` of
proposer `k`. -/
def ProbeSent (k : Fin cfg.totalProposer) (i e b r : Nat) (s : Synod cfg) : Prop :=
  ∃ c, s.bcasts[b]? = some c ∧ c.Of k i ∧ c.round = r ∧ c.msg.type = .prepareReq ∧
  c.msg.pp.pid = 0 ∧
    c.msg.pp.pentry = e

/-- While the round of the probe is outstanding, the valid responses counted are promises of as
many acceptors. -/
structure ProbeCount (k : Fin cfg.totalProposer) (i e b r : Nat) (s : Synod cfg) : Prop where
  sent : ProbeSent k i e b r s
  phase : (s.props k i).term = r → (s.props k i).req ≠ none → (s.props k i).phase = preparingPhase
  count : (s.props k i).term = r → (s.props k i).req ≠ none →
    ∃ Q : Finset (Fin cfg.totalAcceptor), (s.props k i).validRspCount ≤ Q.card ∧
    ∀ a ∈ Q, s.Granted b a

section

variable {s s' : Synod cfg} {l : SynodOp cfg} {k : Fin cfg.totalProposer} {i e b r : Nat}
  {new : List (Bcast cfg)}

theorem ProbeSent.later (h : ProbeSent k i e b r s) (hg : Grows s s' new) :
    ProbeSent k i e b r s' := by
  obtain ⟨c, hc, hrest⟩ := h
  exact ⟨c, hg.get hc, hrest⟩

theorem Granted.later {a : Fin cfg.totalAcceptor} (h : s.Granted b a) (hg : Grows s s' new) :
    s'.Granted b a := by
  obtain ⟨hc, x, hx, hrest⟩ := h
  exact ⟨hg.called.subset hc, x, hg.rsps hx, hrest⟩

/-- A valid promise to the probe, by a callback not invoked before, is one more acceptor's. -/
theorem ProbeCount.answered (h : ProbeCount k i e b r s) (hsane : s.Sane) (hg : Grows s s' new)
    (hnd : s'.called.Nodup)
    {x : Answer cfg} {q : PaxosMsg} (hr : Reaches s s' k i x) (hround : (s.props k i).term = r)
    (hq : (s.props k i).req = some q) (hv : ValidPromise q x.msg) :
    x.bid = b ∧ q.pp.pid = 0 ∧
      ∃ Q : Finset (Fin cfg.totalAcceptor), (s.props k i).validRspCount + 1 ≤ Q.card ∧
      ∀ a ∈ Q, s'.Granted b a := by
  have hne : (s.props k i).req ≠ none := by
    rw [hq]
    simp
  have hph := h.phase hround hne
  obtain ⟨c₀, hb₀, ho₀, hr₀, ht₀, hp₀, _⟩ := h.sent
  obtain ⟨c, hans, ho, hcur⟩ := hsane.answered hr.awaited hq (.inl ⟨hph, hv⟩)
  have hbid : x.bid = b :=
    (hsane.rounds k i).unique _ _ _ _ hans.bcast hb₀ ho ho₀
      ((hcur.round.trans hround).trans hr₀.symm)
    ((hcur.type.trans (awaited_preparing hph)).trans ht₀.symm)
  have hb := hans.bcast
  rw [hbid] at hb
  obtain rfl := Option.some.inj (hb.symm.trans hb₀)
  have hpid : q.pp.pid = 0 := hcur.same.pid.trans hp₀
  refine ⟨hbid, hpid, ?_⟩
  obtain ⟨Q, hQ, hall⟩ := h.count hround hne
  have hnew : x.acc ∉ Q := by
    intro hmem
    have hcalled := hr.called
    rw [hbid] at hcalled
    rw [hcalled, List.nodup_append] at hnd
    exact hnd.2.2 _ (hall x.acc hmem).1 _ (List.mem_singleton_self _) rfl
  refine ⟨insert x.acc Q, card_insert_new hQ hnew, fun a ha => ?_⟩
  rcases Finset.mem_insert.mp ha with rfl | ha
  · refine ⟨?_, x, hg.rsps hr.awaited.mem, hbid, rfl, hv.type, hv.errcode, hv.status,
      hpid ▸ hv.pid_le⟩
    rw [hr.called, hbid]
    exact List.mem_append_right _ (List.mem_singleton_self _)
  · exact (hall a ha).later hg

theorem ProbeCount.step (h : ProbeCount k i e b r s) (hsane : s.Sane) (hs : s.step l = some s')
    (hnd : s'.called.Nodup) :
    ProbeCount k i e b r s' := by
  obtain ⟨c₀, hb₀, ho₀, hr₀, _⟩ := h.sent
  have hle : r ≤ (s.props k i).term := by
    rw [← hr₀]
    exact ((hsane.rounds k i).bcast c₀ (List.mem_of_getElem? hb₀) ho₀).round_le
  have hsent : ∀ {new : List (Bcast cfg)}, Grows s s' new → ProbeSent k i e b r s' :=
    fun hg => h.sent.later hg
  -- the round goes on, and at most `n` more answers are counted
  have hkept : ∀ {new : List (Bcast cfg)} {n : Nat}, Grows s s' new →
      Kept n (s.props k i) (s'.props k i) →
      ((s.props k i).term = r → (s.props k i).req ≠ none → ∃ Q : Finset (Fin cfg.totalAcceptor),
        (s.props k i).validRspCount + n ≤ Q.card ∧ ∀ a ∈ Q, s'.Granted b a) →
      ProbeCount k i e b r s' := by
    intro new n hg hk hcount
    have hreq : (s'.props k i).req ≠ none → (s.props k i).req ≠ none := by
      intro hne
      obtain ⟨q', hq'⟩ := Option.ne_none_iff_exists'.mp hne
      obtain ⟨q, hq, _⟩ := hk.req q' hq'
      rw [hq]
      simp
    refine ⟨hsent hg, fun ht hne => ?_, fun ht hne => ?_⟩
    · rw [phase_of_state (hk.state hne)]
      exact h.phase (hk.term.symm.trans ht) (hreq hne)
    · obtain ⟨Q, hQ, hall⟩ := hcount (hk.term.symm.trans ht) (hreq hne)
      exact ⟨Q, Nat.le_trans (hk.count hne) hQ, hall⟩
  have hquiet : ∀ {new : List (Bcast cfg)}, Grows s s' new → Kept 0 (s.props k i) (s'.props k i) →
      ProbeCount k i e b r s' := by
    intro new hg hk
    refine hkept hg hk fun ht hne => ?_
    obtain ⟨Q, hQ, hall⟩ := h.count ht hne
    exact ⟨Q, hQ, fun a ha => (hall a ha).later hg⟩
  have hbegun : ∀ {new : List (Bcast cfg)}, Grows s s' new →
      (s'.props k i).term = (s.props k i).term + 1 →
      ProbeCount k i e b r s' := by
    intro new hg hterm
    exact ⟨hsent hg, fun ht => by omega, fun ht => by omega⟩
  cases hsane.instStep hs k i with
  | same new hg hst _ => exact hquiet hg (by rw [hst]; exact Kept.refl 0 _)
  | moved ev sent hg hc hm =>
    cases hm with
    | kept hk => exact hquiet hg hk
    | counted q a hev hq hv hown hk =>
      obtain ⟨x, rfl, hr⟩ := hc.answer a hev
      refine hkept hg hk fun ht hne => ?_
      rcases hv with ⟨_, hv⟩ | ⟨hacc, _⟩
      · exact (h.answered hsane hg hnd hr ht hq hv).2.2
      · rw [h.phase ht hne] at hacc
        exact absurd hacc (by decide)
    | accepting q a m hev hq hph hv hown hmaj hpos hm hw hst =>
      refine ⟨hsent hg, fun ht _ => ?_, fun ht _ => ?_⟩
      all_goals
        obtain ⟨x, rfl, hr⟩ := hc.answer a hev
        obtain ⟨_, hpid, _⟩ := h.answered hsane hg hnd hr (hst.2.1.symm.trans ht) hq hv
        have := hv.pid_le
        omega
    | chosen q a hev hq hph hv hmaj hk hreq hlast =>
      exact ⟨hsent hg, fun _ hne => absurd hreq hne, fun _ hne => absurd hreq hne⟩
    | prepare m opaqueData val promise hev hi hidle hm hst => exact hbegun hg (by rw [hst]; rfl)
    | fast m opaqueData val promise hev hi hidle hm hval hskip hst =>
      exact hbegun hg (by rw [hst]; rfl)

end

/-! ## The report -/

/-- A probe is issued at `s₀`, for the entry `e` after the last chosen one, and step `l` from `s`
reports OK for its round. The entry stays in the caches, and no callback is invoked twice. -/
structure Reports (s₀ s₁ s s' : Synod cfg) (k : Fin cfg.totalProposer) (i e : Nat)
    (l : SynodOp cfg) : Prop where
  reachable : ((sys cfg).restrict (KeepsCached i e)).Reachable s₀
  entry : e = (s₀.props k i).lastChosenEntry + 1
  idle : (s₀.props k i).req = none
  issued : ∃ opaqueData pinst promise, i = pinst % cfg.plogInstNum ∧
    s₀.step (.propose k opaqueData [] pinst promise false) = some s₁
  run : ∃ ls, ((sys cfg).restrict (KeepsCached i e)).Run s₁ ls s
  step : ((sys cfg).restrict (KeepsCached i e)).step s l s'
  round : (s.props k i).term = (s₁.props k i).term
  ok : ErrCode.ok ∈ s.reported k i l
  once : s'.called.Nodup

/-- A majority has granted the PREPARE of the probe, and no majority had a vote for the entry when
it was issued. -/
def SoundReport (s₀ s' : Synod cfg) (i e : Nat) : Prop :=
  (∃ Q : Finset (Fin cfg.totalAcceptor), Majority Q ∧ ∀ a ∈ Q, s'.Granted s₀.bcasts.length a) ∧
    ∀ Q : Finset (Fin cfg.totalAcceptor), Majority Q →
    ∃ a ∈ Q, ∀ p, ¬ HeldAccepted ((s₀.accs a).mngs i) e p

/-- The acceptor has a vote for the entry, and has not granted the PREPARE `b`. -/
structure Barred (i e b : Nat) (s : Synod cfg) (a : Fin cfg.totalAcceptor) : Prop where
  voted : Voted ((s.accs a).mngs i) e
  answers : ∀ x ∈ s.rsps, x.bid = b → x.acc = a → ¬ Grants x 0

section

variable {s₀ s₁ s s' : Synod cfg} {l : SynodOp cfg} {k : Fin cfg.totalProposer} {i e b r : Nat}
  {a : Fin cfg.totalAcceptor}

theorem Barred.step (h : Barred i e b s a) (hsane : s.Sane) (hp : ProbeSent k i e b r s)
    (hs : s.step l = some s') (hk : KeepsCached i e s l s') : Barred i e b s' a := by
  refine ⟨hsane.step_voted hs hk a h.voted, ?_⟩
  intro x hx hb ha hgrant
  rcases hsane.requests.step_rsps hs hx with hx | ⟨saves, c, hd, _, hc, hsv, hpp⟩
  · exact h.answers x hx hb ha hgrant
  subst hb
  subst ha
  obtain ⟨c₀, hb₀, ho, _, ht, _, he⟩ := hp
  obtain rfl := Option.some.inj (hc.symm.trans hb₀)
  rw [ht, ho.2] at hsv
  have hvoted : Voted ((s.accs x.acc).mngs i) c.msg.pp.pentry := he ▸ h.voted
  exact hsv.refuses hvoted (hpp ▸ hgrant.status)

theorem proposeAsync_probe (st : InstanceState) (hidle : st.req = none) (opaqueData promise : Nat) :
    st.proposeAsync cfg i opaqueData [] promise false =
      (st.begun cfg i opaqueData [] promise preparingPhase (st.proposalMsg cfg i opaqueData []),
        [.rpc (asPrepareReq (st.proposalMsg cfg i opaqueData [])),
          .addTimeout i (st.proposalMsg cfg i opaqueData []).pp.pentry
            (st.proposalMsg cfg i opaqueData []).pp.term]) := by
  unfold proposeAsync
  rw [hidle]
  rfl

theorem Reports.probeCount (h : Reports s₀ s₁ s s' k i e l) :
    ProbeCount k i e s₀.bcasts.length (s₁.props k i).term s₁ ∧ s₁.accs = s₀.accs ∧ s₁.rsps = s₀.rsps := by
  obtain ⟨opaqueData, pinst, promise, hi, hs⟩ := h.issued
  obtain ⟨hst, hg⟩ := step_propose hs hi
  rw [proposeAsync_probe _ h.idle] at hst hg
  refine ⟨⟨⟨⟨k, i, (s₁.props k i).term,
    asPrepareReq ((s₀.props k i).proposalMsg (cfg.on k) i opaqueData [])⟩, ?_,
    ⟨rfl, rfl⟩, rfl, rfl, rfl, h.entry.symm⟩, fun _ _ => ?_, fun _ _ => ⟨∅, ?_, fun a ha => ?_⟩⟩, ?_⟩
  · rw [hg.bcasts]
    exact List.getElem?_concat_length
  · rw [hst]
    exact (begun_state (cfg.on k) (s₀.props k i) i opaqueData [] promise _).2.1
  · rw [hst]
    exact Nat.zero_le _
  · exact absurd ha (Finset.notMem_empty _)
  · obtain rfl := Option.some.inj hs
    exact ⟨rfl, rfl⟩

/-- What holds in the run from the issue on; `voters` had a vote then. -/
structure Probed (k : Fin cfg.totalProposer) (i e b r : Nat) (voters : Fin cfg.totalAcceptor → Prop)
    (s : Synod cfg) :
    Prop where
  sane : s.Sane
  sent : ProbeSent k i e b r s
  count : s.called.Nodup → ProbeCount k i e b r s
  barred : ∀ a, voters a → Barred i e b s a

theorem Probed.step {voters : Fin cfg.totalAcceptor → Prop} (h : Probed k i e b r voters s)
    (hs : ((sys cfg).restrict (KeepsCached i e)).step s l s') : Probed k i e b r voters s' := by
  obtain ⟨hstep, hk⟩ := hs
  obtain ⟨new, hg⟩ := step_grows hstep
  refine ⟨h.sane.step hstep (readsLogs_of_keepsCached hk), h.sent.later hg, fun hnd => ?_,
    fun a ha => ?_⟩
  · exact (h.count (hnd.sublist hg.called.sublist)).step h.sane hstep hnd
  · exact (h.barred a ha).step h.sane h.sent hstep hk

theorem Reports.probed (h : Reports s₀ s₁ s s' k i e l) :
    Probed k i e s₀.bcasts.length (s₁.props k i).term
    (fun a => ∃ p, HeldAccepted ((s₀.accs a).mngs i) e p) s := by
  obtain ⟨hcount, haccs, hrsps⟩ := h.probeCount
  obtain ⟨hsane, hcached⟩ := (voteCached_inductive i e).reachable s₀ h.reachable
  obtain ⟨_, _, _, _, hissue⟩ := h.issued
  obtain ⟨ls, hrun⟩ := h.run
  refine hrun.preserve (fun _ _ _ hp hst => hp.step hst)
    ⟨?_, hcount.sent, fun _ => hcount, fun a ha => ⟨?_, ?_⟩⟩
  · exact hsane.step hissue fun _ _ _ _ _ hl => by cases hl
  · obtain ⟨p, hp⟩ := ha
    rw [haccs]
    exact (hcached a).voted hp
  · intro x hx hb
    rw [hrsps] at hx
    obtain ⟨c, hc⟩ := hsane.answers x hx
    have hlt := (List.getElem?_eq_some_iff.mp hc.bcast).1
    omega

/-- OK is reported for a probe, on a response that does not end it short: a majority has granted
its PREPARE, and no majority had a vote for the entry when it was issued. -/
theorem probe_sound (h : Reports s₀ s₁ s s' k i e l) (hshort : ¬ s.EndsShort k i l) :
    SoundReport s₀ s' i e := by
  have hp := h.probed
  obtain ⟨new, hg⟩ := step_grows h.step.1
  have hcount := hp.count (h.once.sublist hg.called.sublist)
  obtain ⟨x, q, hr, hq, hv, hmaj⟩ := hp.sane.reported_ok h.step.1 (hcount.phase h.round) h.ok
  obtain ⟨_, _, Q, hQ, hall⟩ := hcount.answered hp.sane hg h.once hr h.round hq hv
  have hmajority : Majority Q := by
    unfold Majority
    rw [Fintype.card_fin]
    exact Nat.le_trans (hmaj.resolve_right hshort) (Nat.le_trans (Nat.mod_le _ _) hQ)
  refine ⟨⟨Q, hmajority, hall⟩, fun Q' hQ' => ?_⟩
  -- an acceptor of both majorities has granted the PREPARE, so it had no vote
  obtain ⟨a, haQ, haQ'⟩ := hmajority.inter hQ'
  refine ⟨a, haQ', fun p hheld => ?_⟩
  obtain ⟨_, y, hy, hb, ha, hgrant⟩ := hall a haQ
  exact ((hp.step h.step).barred a ⟨p, hheld⟩).answers y hy hb ha hgrant

end

/-- The step keeps the entry in the caches, and is no restart. -/
def keepsCached (i e : Nat) (s : Synod cfg) (l : SynodOp cfg) (s' : Synod cfg) : Bool :=
  !isRestart l && decide (∀ a, ((s.accs a).mngs i).cached e ≠ none → ((s'.accs a).mngs i).cached e ≠ none)

theorem keepsCached_of {i e : Nat} {s s' : Synod cfg} {l : SynodOp cfg}
    (h : keepsCached i e s l s' = true) :
    KeepsCached i e s l s' := by
  obtain ⟨hl, hc⟩ := Bool.and_eq_true_iff.mp h
  refine ⟨?_, of_decide_eq_true hc⟩
  intro acc inst batch lastCommitted fuel heq
  subst heq
  cases hl

/-- Steps that keep entry 1 of instance 0 in the caches. -/
def ranKeeping (s : Synod (Configure.init 0)) (ls : List (SynodOp (Configure.init 0))) :
    Option (Synod (Configure.init 0)) :=
  LTS.exec (fun s l => (s.step l).filter (keepsCached 0 1 s l)) s ls

theorem run_of_ranKeeping {s s' : Synod (Configure.init 0)} {ls : List (SynodOp (Configure.init 0))}
    (h : ranKeeping s ls = some s') :
    ((sys (Configure.init 0)).restrict (KeepsCached 0 1)).Run s ls s' :=
  LTS.run_of_guarded (fun _ _ _ _ h => keepsCached_of h) h

/-- Proposer 0 probes an empty synod, and acceptors 0 and 1 answer. -/
def probeIssued : Synod (Configure.init 0) :=
  (step (start _ fun _ => 7) (.propose ⟨0, first_of_three⟩ 0 [] 0 0 false)).get (by decide +kernel)

def probeAnswered : Synod (Configure.init 0) :=
  (ranKeeping probeIssued
    [.deliver 0 ⟨0, first_of_three⟩ Saves.good, .deliver 0 ⟨1, second_of_three⟩ Saves.good, .reply 0]).get
    (by decide +kernel)

def probeReported : Synod (Configure.init 0) :=
  (probeAnswered.step (.reply 1)).get (by decide +kernel)

theorem probe_sound_first : SoundReport (start (Configure.init 0) fun _ => 7) probeReported 0 1 := by
  have hreports : Reports (start (Configure.init 0) fun _ => 7) probeIssued probeAnswered
      probeReported ⟨0, by decide⟩ 0 1
      (.reply 1) :=
    ⟨.of_init ⟨_, rfl⟩, rfl, rfl, ⟨0, 0, 0, rfl, (Option.some_get _).symm⟩,
      ⟨_, run_of_ranKeeping (Option.some_get _).symm⟩,
      ⟨(Option.some_get _).symm, keepsCached_of (by decide +kernel)⟩, by decide +kernel, by decide +kernel,
      by decide +kernel⟩
  refine probe_sound hreports ?_
  intro hshort
  obtain ⟨_, _, _, _, _, _, _, _, _, _, _, _, _, hlt⟩ := hshort
  exact absurd hlt (by decide +kernel)

/-! ## Two votes and one promise -/

/-- Acceptors 0 and 1 have accepted the value of proposer 0. -/
def votedByTwo : Synod (Configure.init 0) :=
  (ranKeeping (start _ fun _ => 7) firstRound).get (by decide +kernel)

/-- Proposer 2 probes. -/
def lateIssued : Synod (Configure.init 0) :=
  (votedByTwo.step (.propose ⟨2, third_of_three⟩ 0 [] 0 1 false)).get (by decide +kernel)

/-- The two voters have answered, and so has acceptor 2, whose answer is next. -/
def lateAnswered : Synod (Configure.init 0) :=
  (ranKeeping lateIssued [.deliver 2 ⟨0, first_of_three⟩ Saves.good,
    .deliver 2 ⟨1, second_of_three⟩ Saves.good, .deliver 2 ⟨2, third_of_three⟩ Saves.good, .reply 4,
    .reply 5]).get (by decide +kernel)

def lateReported : Synod (Configure.init 0) :=
  (lateAnswered.step (.reply 6)).get (by decide +kernel)

def theVoters : Finset (Fin (Configure.init 0).totalAcceptor) := {⟨0, first_of_three⟩, ⟨1, second_of_three⟩}

/-- OK is reported for the probe although a majority had accepted the value. -/
theorem not_alwaysSound :
    ¬ ∀ (cfg : Configure) (s₀ s₁ s s' : Synod cfg) (k : Fin cfg.totalProposer) (i e : Nat)
    (l : SynodOp cfg),
      Reports s₀ s₁ s s' k i e l → SoundReport s₀ s' i e := by
  intro hall
  have hreports : Reports votedByTwo lateIssued lateAnswered lateReported ⟨2, by decide⟩ 0 1 (.reply 6) :=
    ⟨⟨_, _, ⟨_, rfl⟩, run_of_ranKeeping (Option.some_get _).symm⟩, by decide +kernel, by decide +kernel,
      ⟨0, 0, 1, rfl, (Option.some_get _).symm⟩, ⟨_, run_of_ranKeeping (Option.some_get _).symm⟩,
      ⟨(Option.some_get _).symm, keepsCached_of (by decide +kernel)⟩, by decide +kernel, by decide +kernel,
      by decide +kernel⟩
  have hmajority : Majority theVoters := by
    unfold Majority
    decide
  have hvotes : ∀ a ∈ theVoters,
      (((votedByTwo.accs a).mngs 0).disk 1).any fun x => x.accepted.isSome := by decide +kernel
  obtain ⟨a, ha, hno⟩ := (hall _ _ _ _ _ _ _ _ _ hreports).2 theVoters hmajority
  obtain ⟨x, hx, hxa⟩ := (Option.any_eq_true _ _).mp (hvotes a ha)
  obtain ⟨p, hp⟩ := Option.isSome_iff_exists.mp hxa
  exact hno p ⟨x, .inr hx, hp⟩

end Synod
end Quarrel
