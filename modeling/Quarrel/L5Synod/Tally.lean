import Quarrel.L5Synod.Rounds

/-!
# Counting the callbacks of a synod

The proposer counts valid answers and not the acceptors they come from. Where
every connection invokes a callback at most once (`called` repeats nothing), a
count is no larger than the number of acceptors that approved the broadcast.

* `Counted`: at least so many acceptors have approved a broadcast.
* `Tally`: what the answers counted by one instance stand for. An ACCEPT follows
  a majority of promises or the one-phase path, a CHOSEN follows a majority of
  acceptances.
* `tally_inductive`: every step keeps it; `fast k i` is where the one-phase path
  may be taken.
-/
namespace Quarrel

open InstanceState EntryMng

variable {cfg : Configure}

/-- A call with the value takes the one-phase path. -/
def InstanceState.SkipsPrepare (cfg : Configure) (st : InstanceState) (i opaqueData : Nat)
    (val : List UInt8) : Prop :=
  st.req = none ∧ ¬ val.isEmpty ∧ st.canSkipPrepare (st.proposalMsg cfg i opaqueData val).pp

instance (cfg : Configure) (st : InstanceState) (i opaqueData : Nat) (val : List UInt8) :
    Decidable (st.SkipsPrepare cfg i opaqueData val) := by
  unfold InstanceState.SkipsPrepare; exact inferInstance

namespace Synod

/-- A callback has brought the valid answer of acceptor `a` to broadcast `b`. -/
def Approved (s : Synod cfg) (b : Nat) (a : Fin cfg.totalAcceptor) : Prop :=
  (b, a) ∈ s.called ∧ ∃ x ∈ s.rsps, x.bid = b ∧ x.acc = a ∧ x.msg.errcode = ErrCode.ok ∧
    ((x.msg.type = .prepareRsp ∧ x.msg.pp.status = .promised) ∨
      (x.msg.type = .acceptRsp ∧ x.msg.pp.status = .accepted))

def Counted (s : Synod cfg) (b v : Nat) : Prop :=
  ∃ Q : Finset (Fin cfg.totalAcceptor), v ≤ Q.card ∧ ∀ a ∈ Q, s.Approved b a

/-- A majority has approved the broadcast of type `t` of the round of `c`. -/
def Backed (s : Synod cfg) (c : Bcast cfg) (t : PaxosMsgType) : Prop :=
  ∃ b c', s.bcasts[b]? = some c' ∧ c'.Of c.src c.inst ∧ c'.round = c.round ∧ c'.msg.type = t ∧
    s.Counted b cfg.majority

/-- What the answers counted by instance `i` of proposer `k` stand for. -/
structure Tally (fast : Fin cfg.totalProposer → Nat → Prop) (s : Synod cfg)
    (k : Fin cfg.totalProposer) (i : Nat) : Prop where
  waiting : ∀ (b : Nat) (c : Bcast cfg), s.bcasts[b]? = some c → c.Of k i →
    c.round = (s.props k i).term → c.msg.type = (s.props k i).awaited → (s.props k i).req ≠ none →
    s.Counted b (s.props k i).validRspCount
  accept : ∀ c ∈ s.bcasts, c.Of k i → c.msg.type = .acceptReq →
    (fast k i ∧ c.msg.pp.pid = getMemberIdBySvrId cfg.totalProposer i k + 1) ∨
    s.Backed c .prepareReq
  chosen : ∀ c ∈ s.bcasts, c.Of k i → c.msg.type = .chosenReq → s.Backed c .acceptReq

section

variable {s s' : Synod cfg} {k : Fin cfg.totalProposer} {i b v : Nat} {a : Fin cfg.totalAcceptor}
  {new : List (Bcast cfg)} {fast : Fin cfg.totalProposer → Nat → Prop}

/-! ## Approvals -/

theorem Approved.later (h : s.Approved b a) (hg : Grows s s' new) : s'.Approved b a := by
  obtain ⟨hc, x, hx, hok⟩ := h
  exact ⟨hg.called.subset hc, x, hg.rsps hx, hok⟩

theorem Counted.later (h : s.Counted b v) (hg : Grows s s' new) : s'.Counted b v := by
  obtain ⟨Q, hQ, hall⟩ := h
  exact ⟨Q, hQ, fun a ha => (hall a ha).later hg⟩

theorem Counted.mono {w : Nat} (h : s.Counted b v) (hw : w ≤ v) : s.Counted b w := by
  obtain ⟨Q, hQ, hall⟩ := h
  exact ⟨Q, Nat.le_trans hw hQ, hall⟩

theorem counted_zero (s : Synod cfg) (b : Nat) : s.Counted b 0 :=
  ⟨∅, Nat.zero_le _, fun _ ha => absurd ha (Finset.notMem_empty _)⟩

theorem Counted.succ (h : s.Counted b v) (hg : Grows s s' new)
    (hcalled : s'.called = s.called ++ [(b, a)])
    (hnd : s'.called.Nodup) (ha : s'.Approved b a) : s'.Counted b (v + 1) := by
  obtain ⟨Q, hQ, hall⟩ := h
  have hnew : a ∉ Q := by
    intro hmem
    rw [hcalled, List.nodup_append] at hnd
    exact hnd.2.2 _ (hall a hmem).1 _ (List.mem_singleton_self _) rfl
  refine ⟨insert a Q, card_insert_new hQ hnew, fun a' ha' => ?_⟩
  rcases Finset.mem_insert.mp ha' with rfl | ha'
  · exact ha
  · exact (hall a' ha').later hg

theorem Backed.later {c : Bcast cfg} {t : PaxosMsgType} (h : s.Backed c t) (hg : Grows s s' new) :
    s'.Backed c t := by
  obtain ⟨b, c', hc', ho, hr, ht, hcount⟩ := h
  exact ⟨b, c', hg.get hc', ho, hr, ht, hcount.later hg⟩

/-- The approvals of a broadcast a majority has approved. -/
theorem Counted.majority (h : s.Counted b cfg.majority) :
    ∃ Q : Finset (Fin cfg.totalAcceptor), Majority Q ∧ ∀ a ∈ Q, s.Approved b a := by
  obtain ⟨Q, hQ, hall⟩ := h
  refine ⟨Q, ?_, hall⟩
  unfold Majority
  rw [Fintype.card_fin]
  exact hQ

/-! ## One instance -/

/-- What is said about old broadcasts stays; the rest is about the new ones and the count. -/
theorem Tally.grow (h : s.Tally fast k i) (hg : Grows s s' new)
    (hwait : ∀ (b : Nat) (c : Bcast cfg), s'.bcasts[b]? = some c → c.Of k i →
      c.round = (s'.props k i).term → c.msg.type = (s'.props k i).awaited → (s'.props k i).req ≠ none →
      s'.Counted b (s'.props k i).validRspCount)
    (hacc : ∀ c ∈ new, c.Of k i → c.msg.type = .acceptReq →
      (fast k i ∧ c.msg.pp.pid = getMemberIdBySvrId cfg.totalProposer i k + 1) ∨
      s'.Backed c .prepareReq)
    (hch : ∀ c ∈ new, c.Of k i → c.msg.type = .chosenReq → s'.Backed c .acceptReq) :
    s'.Tally fast k i := by
  refine ⟨hwait, fun c hc ho ht => ?_, fun c hc ho ht => ?_⟩
  · rw [hg.bcasts] at hc
    rcases List.mem_append.mp hc with hc | hc
    · exact (h.accept c hc ho ht).imp id fun hb => hb.later hg
    · exact hacc c hc ho ht
  · rw [hg.bcasts] at hc
    rcases List.mem_append.mp hc with hc | hc
    · exact (h.chosen c hc ho ht).later hg
    · exact hch c hc ho ht

theorem Tally.quiet (h : s.Tally fast k i) (hg : Grows s s' new) (hnew : ∀ c ∈ new, ¬ c.Of k i)
    (hk : Kept 0 (s.props k i) (s'.props k i)) : s'.Tally fast k i := by
  refine h.grow hg ?_ (fun c hc ho => absurd ho (hnew c hc)) fun c hc ho => absurd ho (hnew c hc)
  intro b c hc ho hr ht hne
  have hst := hk.state hne
  have hreq : (s.props k i).req ≠ none := by
    obtain ⟨q', hq'⟩ := Option.ne_none_iff_exists'.mp hne
    obtain ⟨q, hq, _⟩ := hk.req q' hq'
    rw [hq]
    simp
  exact ((h.waiting b c (hg.old_get hnew hc ho) ho (hr.trans hk.term) (ht.trans (awaited_of_state hst))
    hreq).later hg).mono (hk.count hne)

/-- A counted answer adds one to the approvals of the broadcast the instance waits on. -/
theorem Tally.answered (h : s.Tally fast k i) (hsane : s.Sane) (hg : Grows s s' new)
    (hnd : s'.called.Nodup)
    {x : Answer cfg} {q : PaxosMsg} (hr : Reaches s s' k i x) (hq : (s.props k i).req = some q)
    (hv : (s.props k i).Approves q x.msg) :
    ∃ c, s.bcasts[x.bid]? = some c ∧ c.Of k i ∧ Current (s.props k i) q c ∧
      s'.Counted x.bid ((s.props k i).validRspCount + 1) := by
  obtain ⟨c, hx, ho, hcur⟩ := hsane.answered hr.awaited hq hv
  refine ⟨c, hx.bcast, ho, hcur, ?_⟩
  refine (h.waiting x.bid c hx.bcast ho hcur.round hcur.type (by rw [hq]; simp)).succ hg hr.called
    hnd ?_
  refine ⟨by rw [hr.called]; exact List.mem_append_right _ (List.mem_singleton_self _), x,
    hg.rsps hr.awaited.mem,
    rfl, rfl, ?_⟩
  rcases hv with ⟨_, hv⟩ | ⟨_, hv⟩
  · exact ⟨hv.errcode, .inl ⟨hv.type, hv.status⟩⟩
  · exact ⟨hv.errcode, .inr ⟨hv.type, hv.status⟩⟩

theorem Tally.step {l : SynodOp cfg} (h : s.Tally fast k i) (hsane : s.Sane)
    (hst : InstStep s s' l k i) (hnd : s'.called.Nodup)
    (hfast : ∀ opaqueData val pinst promise oom, l = .propose k opaqueData val pinst promise oom →
      i = pinst % cfg.plogInstNum → (s.props k i).SkipsPrepare (cfg.on k) i opaqueData val → fast k i) :
    s'.Tally fast k i := by
  have hnone : ∀ c ∈ ([] : List (Bcast cfg)), ¬ c.Of k i := fun _ hc => by cases hc
  cases hst with
  | same new hg hst hnew => exact h.quiet hg hnew (by rw [hst]; exact Kept.refl 0 _)
  | moved ev sent hg hc hm =>
    have hans : ∀ q a, ev = .answer a → (s.props k i).req = some q → (s.props k i).Approves q a →
        ∃ b c, s.bcasts[b]? = some c ∧ c.Of k i ∧ Current (s.props k i) q c ∧
          s'.Counted b ((s.props k i).validRspCount + 1) := by
      intro q a hev hq hv
      obtain ⟨x, rfl, hr⟩ := hc.answer a hev
      obtain ⟨c, hx⟩ := h.answered hsane hg hnd hr hq hv
      exact ⟨x.bid, c, hx⟩
    cases hm with
    | kept hk => exact h.quiet hg hnone hk
    | counted q a hev hq hv hown hk =>
      obtain ⟨b, c, hb, ho, hcur, hcount⟩ := hans q a hev hq hv
      refine h.grow hg ?_ (fun _ hc => by cases hc) fun _ hc => by cases hc
      intro b' c' hc' ho' hr ht hne
      have hst := hk.state hne
      obtain rfl := (hsane.rounds k i).unique b b' c c' hb (hg.old_get hnone hc' ho') ho ho'
        (hcur.round.trans (hr.trans hk.term).symm) (hcur.type.trans (ht.trans (awaited_of_state hst)).symm)
      exact hcount.mono (hk.count hne)
    | accepting q a m hev hq hph hv hown hmaj hpos hm hw hkept =>
      obtain ⟨b, c, hb, ho, hcur, hcount⟩ := hans q a hev hq (.inl ⟨hph, hv⟩)
      refine h.grow hg (fun _ _ _ _ _ _ _ => hw.count ▸ counted_zero s' _) ?_ ?_
      · intro c' hc' ho' _
        obtain rfl := List.mem_singleton.mp hc'
        exact .inr ⟨b, c, hg.get hb, ho, hcur.round.trans hkept.2.1.symm,
          hcur.type.trans (awaited_preparing hph), hcount.mono hmaj⟩
      · intro c' hc' _ ht
        obtain rfl := List.mem_singleton.mp hc'
        rw [hm] at ht
        cases ht
    | chosen q a hev hq hph hv hmaj hk hreq hlast =>
      obtain ⟨b, c, hb, ho, hcur, hcount⟩ := hans q a hev hq (.inr ⟨hph, hv⟩)
      refine h.grow hg (fun _ _ _ _ _ _ hne => absurd hreq hne) ?_ ?_
      · intro c' hc' _ ht
        obtain rfl := List.mem_singleton.mp hc'
        cases ht
      · intro c' hc' ho' _
        obtain rfl := List.mem_singleton.mp hc'
        exact ⟨b, c, hg.get hb, ho, hcur.round.trans hk.term.symm,
          hcur.type.trans (awaited_accepting hph), hcount.mono hmaj⟩
    | prepare m opaqueData val promise hev hi hidle hm hs =>
      have hcount : (s'.props k i).validRspCount = 0 := by rw [hs]; rfl
      refine h.grow hg (fun _ _ _ _ _ _ _ => hcount ▸ counted_zero s' _) ?_ ?_ <;>
        (intro c' hc' _ ht; obtain rfl := List.mem_singleton.mp hc'; rw [hm] at ht; cases ht)
    | fast m opaqueData val promise hev hi hidle hm hval hskip hs =>
      have hcount : (s'.props k i).validRspCount = 0 := by rw [hs]; rfl
      refine h.grow hg (fun _ _ _ _ _ _ _ => hcount ▸ counted_zero s' _) ?_ ?_
      · intro c' hc' _ _
        obtain rfl := List.mem_singleton.mp hc'
        obtain ⟨pinst, promise', oom, hl, hpin⟩ := hc.call opaqueData val hev
        have hskip' : (s.props k i).SkipsPrepare (cfg.on k) i opaqueData val := by
          rw [hm] at hskip
          exact ⟨hidle, hval, hskip⟩
        refine .inl ⟨hfast opaqueData val pinst promise' oom hl hpin hskip', ?_⟩
        rw [← (hsane.rounds k i).proposerId]
        exact (of_decide_eq_true hskip).2.2
      · intro c' hc' _ ht
        obtain rfl := List.mem_singleton.mp hc'
        rw [hm] at ht
        cases ht

end

/-! ## Every step -/

/-- Calls take the one-phase path only where `fast` allows it. -/
def SkipsWithin (fast : Fin cfg.totalProposer → Nat → Prop) (s : Synod cfg) (l : SynodOp cfg) :
    Prop :=
  ∀ k opaqueData val pinst promise oom, l = .propose k opaqueData val pinst promise oom →
    (s.props k (pinst % cfg.plogInstNum)).SkipsPrepare (cfg.on k) (pinst % cfg.plogInstNum) opaqueData val →
    fast k (pinst % cfg.plogInstNum)

section

variable {ok : Synod cfg → SynodOp cfg → Synod cfg → Prop}
  {fast : Fin cfg.totalProposer → Nat → Prop}

/-- Which callbacks have been invoked twice is a matter of the whole run. -/
theorem tally_inductive (hlog : ∀ s l s', ok s l s' → ReadsLogs s l s')
    (hfast : ∀ s l s', ok s l s' → SkipsWithin fast s l) :
    ((sys cfg).restrict ok).Inductive fun s => s.Sane ∧
    (s.called.Nodup → ∀ k i, s.Tally fast k i) := by
  refine (sane_inductive hlog).rel ?_ ?_
  · intro s hinit _ k i
    obtain ⟨sec, rfl⟩ := hinit
    exact ⟨(fun b c hc => by cases hc), (fun c hc => by cases hc), fun c hc => by cases hc⟩
  · intro s l s' hsane _ h hstep hnd k i
    obtain ⟨hs, hok⟩ := hstep
    obtain ⟨new, hg⟩ := step_grows hs
    have hold := h (hnd.sublist hg.called.sublist) k i
    refine hold.step hsane (hsane.instStep hs k i) hnd ?_
    intro od val pinst promise oom hl heq hskip
    subst heq
    exact hfast s l s' hok k od val pinst promise oom hl hskip

end

end Synod
end Quarrel
