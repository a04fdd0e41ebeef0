import Quarrel.Core.Ballot
import Quarrel.L4Acceptor.Promise
import Quarrel.L5Synod.Rounds

/-!
# The barrier of a counted promise

An acceptor that answers PREPARE `p` with status PROMISED holds no accepted
proposal then, and a promise of at least `p`. From there on its entry admits no
ACCEPT below `p`: the promise is only replaced by a larger one, and the proposal
that clears it only by proposals of larger ids.

* `Voter`: what holds of one acceptor and one entry, as long as the entry stays
  in the cache and its saves succeed (`KeepsEntryOf`).
* `Sourced`: a promise counted by a proposer is such an answer.
* `promise_barrier`: a majority of promises counted for `p` keeps every id below
  `p` from being accepted, before and after.
-/
namespace Quarrel

open InstanceState EntryMng

variable {cfg : Configure}

/-- The entry refuses every ACCEPT below `p`, by its promise or by its vote. -/
def Entry.Bars (x : Entry) (p : Nat) : Prop :=
  (∃ q, x.accepted = some q ∧ p ≤ q.pid) ∨
  (x.accepted = none ∧ ∃ pr, x.promised = some pr ∧ p ≤ pr.pid)

/-- The entry holds a vote of id `p` and value id `vid`, or one that came after it. -/
def Entry.Covers (x : Entry) (p vid : Nat) : Prop :=
  ∃ q, x.accepted = some q ∧ p ≤ q.pid ∧ (p = q.pid → vid = q.valueId)

section

variable {x x' : Entry} {pp : Proposal} {p vid : Nat}

theorem EntryStep.bars (h : EntryStep x pp x') (hx : x.Bars p) : x'.Bars p := by
  cases h with
  | same => exact hx
  | promised ha hp =>
    refine .inr ⟨ha, asPromised pp, rfl, ?_⟩
    rcases hx with ⟨q, hq, _⟩ | ⟨_, pr, hpr, hle⟩
    · rw [ha] at hq; cases hq
    · have := hp pr hpr
      rw [asPromised_pid]
      omega
  | cleared a ha =>
    rcases hx with hq | ⟨hn, _⟩
    · exact .inl hq
    · rw [ha] at hn; cases hn
  | accepted ha =>
    refine .inl ⟨asAccepted pp, rfl, ?_⟩
    rw [asAccepted_pid]
    unfold Entry.Admits at ha
    rcases hx with ⟨q, hq, hle⟩ | ⟨hn, pr, hpr, hle⟩
    · rw [hq] at ha
      have := ha.2
      omega
    · rw [hn] at ha
      have := ha pr hpr
      omega
  | chosen a ha =>
    rcases hx with ⟨q, hq, hle⟩ | ⟨hn, _⟩
    · rw [ha] at hq
      obtain rfl := Option.some.inj hq
      exact .inl ⟨_, rfl, hle⟩
    · rw [ha] at hn; cases hn

theorem EntryStep.covers (h : EntryStep x pp x') (hx : x.Covers p vid) : x'.Covers p vid := by
  obtain ⟨q, hq, hle, heq⟩ := hx
  cases h with
  | same => exact ⟨q, hq, hle, heq⟩
  | promised ha _ => rw [ha] at hq; cases hq
  | cleared a ha => exact ⟨q, hq, hle, heq⟩
  | accepted ha =>
    -- only a larger id replaces a vote
    unfold Entry.Admits at ha
    rw [hq] at ha
    have hlt := ha.2
    refine ⟨asAccepted pp, rfl, ?_, fun he => ?_⟩
    · rw [asAccepted_pid]
      omega
    · rw [asAccepted_pid] at he
      omega
  | chosen a ha =>
    rw [ha] at hq
    obtain rfl := Option.some.inj hq
    exact ⟨_, rfl, hle, heq⟩

end

section

variable {m : EntryMng} {pp : Proposal} {t : PaxosMsgType} {h : Handled}

/-- A PREPARE answered PROMISED leaves the entry without a vote and with a promise. -/
theorem Served.promises (hs : Served m Saves.good pp .prepareReq h) (hp : 0 < pp.pid)
    (hok : h.rsp.errcode = ErrCode.ok) (hst : h.rsp.pp.status = .promised) :
    ∃ x pr, h.mng.cached pp.pentry = some x ∧ x.accepted = none ∧ x.promised = some pr ∧
    pp.pid ≤ pr.pid := by
  cases hs with
  | prepare hd =>
    cases hd with
    | behind _ _ hr => rw [hr] at hok; simp at hok
    | voted _ _ _ _ hr => rw [hr] at hst; simp at hst
    | kept pr _ ha hpr hle hm _ => exact ⟨_, pr, hm.cached, ha, hpr, hle⟩
    | probed _ _ _ h0 => omega
    | promised _ ha _ _ _ hm _ => exact ⟨_, asPromised pp, hm.cached, ha, rfl, Nat.le_refl _⟩
    | failed _ _ _ _ _ _ hr => rw [hr] at hok; simp at hok

end

/-- The vote is one of acceptor `a` for entry `e` of instance `i`. -/
def Vote.At (v : Vote cfg) (a : Fin cfg.totalAcceptor) (i e : Nat) : Prop :=
  v.acc = a ∧ v.inst = i ∧ v.entry = e

/-- Acceptor `a` promises entry `e` of instance `i` to the PREPARE `c`. -/
structure Answer.Promises (x : Answer cfg) (c : Bcast cfg) (a : Fin cfg.totalAcceptor) (i e : Nat) :
    Prop where
  acc : x.acc = a
  inst : c.inst = i
  entry : c.msg.pp.pentry = e
  pos : 0 < c.msg.pp.pid
  type : x.msg.type = .prepareRsp
  errcode : x.msg.errcode = ErrCode.ok
  status : x.msg.pp.status = .promised

namespace Synod

/-- Every save succeeds, no acceptor restarts, and entry `e` of instance `i` stays in the caches. -/
structure KeepsEntryOf (i e : Nat) (s : Synod cfg) (l : SynodOp cfg) (s' : Synod cfg) : Prop where
  saves : ∀ bid acc saves, l = .deliver bid acc saves → saves = Saves.good
  restart : ∀ acc inst batch lastCommitted fuel, l ≠ .restart acc inst batch lastCommitted fuel
  cached : ∀ a, ((s.accs a).mngs i).cached e ≠ none → ((s'.accs a).mngs i).cached e ≠ none

/-- What holds of acceptor `a` and entry `e` of instance `i`. -/
structure Voter (i e : Nat) (s : Synod cfg) (a : Fin cfg.totalAcceptor) : Prop where
  synced : Synced ((s.accs a).mngs i) e
  vote : ∀ v ∈ s.votes, v.At a i e → ∃ x, ((s.accs a).mngs i).cached e = some x ∧
    x.Covers v.pid v.valueId
  one : ∀ v ∈ s.votes, ∀ v' ∈ s.votes, v.At a i e → v'.At a i e → v.pid = v'.pid →
    v.valueId = v'.valueId
  barred : ∀ x ∈ s.rsps, ∀ c, s.bcasts[x.bid]? = some c → x.Promises c a i e →
    (∃ y, ((s.accs a).mngs i).cached e = some y ∧ y.Bars c.msg.pp.pid) ∧
      ∀ v ∈ s.votes, v.At a i e → c.msg.pp.pid ≤ v.pid

section

variable {s s' : Synod cfg} {a : Fin cfg.totalAcceptor} {i e : Nat}

theorem Voter.frame (h : s.Voter i e a)
    (hc : ((s'.accs a).mngs i).cached e = ((s.accs a).mngs i).cached e)
    (hd : ((s'.accs a).mngs i).disk e = ((s.accs a).mngs i).disk e)
    (hv : ∀ v ∈ s'.votes, v.At a i e → v ∈ s.votes)
    (hr : ∀ x ∈ s'.rsps, ∀ c, s'.bcasts[x.bid]? = some c → x.Promises c a i e →
      x ∈ s.rsps ∧ s.bcasts[x.bid]? = some c) : s'.Voter i e a := by
  refine ⟨?_, fun v hm hat => ?_, fun v hm v' hm' hat hat' => ?_, fun x hx c hb hp => ?_⟩
  · unfold Synced
    rw [hc, hd]
    exact h.synced
  · rw [hc]
    exact h.vote v (hv v hm hat) hat
  · exact h.one v (hv v hm hat) v' (hv v' hm' hat') hat hat'
  · rw [hc]
    obtain ⟨hx', hb'⟩ := hr x hx c hb hp
    obtain ⟨hbars, hall⟩ := h.barred x hx' c hb' hp
    exact ⟨hbars, fun v hm hat => hall v (hv v hm hat) hat⟩

theorem Voter.served {t : PaxosMsgType} {hd : Handled} {c : Bcast cfg} (h : s.Voter i e a)
    (hs : Served ((s.accs a).mngs i) Saves.good c.msg.pp t hd) (he : c.msg.pp.pentry = e)
    (hm : (s'.accs a).mngs i = hd.mng)
    (hv : ∀ v ∈ s'.votes, v.At a i e → v ∈ s.votes ∨
      ∃ x q, hd.mng.disk e = some x ∧ x.accepted = some q ∧ q.pid = v.pid ∧ q.valueId = v.valueId)
    (hr : ∀ x ∈ s'.rsps, ∀ c', s'.bcasts[x.bid]? = some c' → x.Promises c' a i e →
      (x ∈ s.rsps ∧ s.bcasts[x.bid]? = some c') ∨
        (c' = c ∧ t = .prepareReq ∧ hd.rsp.errcode = ErrCode.ok ∧ hd.rsp.pp.status = .promised)) :
    s'.Voter i e a := by
  subst he
  have hsynced := hs.synced h.synced
  have hcover : ∀ v ∈ s'.votes, v.At a i c.msg.pp.pentry →
      ∃ x, hd.mng.cached c.msg.pp.pentry = some x ∧ x.Covers v.pid v.valueId := by
    intro v hmem hat
    rcases hv v hmem hat with hold | ⟨x, q, hx, hq, hpid, hvid⟩
    · exact hs.keeps (fun x x' hst => hst.covers) (h.vote v hold hat)
    · exact ⟨x, hsynced x hx, q, hq, Nat.le_of_eq hpid.symm, fun _ => hvid.symm⟩
  -- the vote stored last is the one that covers the others
  have hlast : ∀ v v' : Vote cfg, (∃ x q, hd.mng.disk c.msg.pp.pentry = some x ∧
      x.accepted = some q ∧ q.pid = v.pid ∧
      q.valueId = v.valueId) → v' ∈ s'.votes → v'.At a i c.msg.pp.pentry → v.pid = v'.pid →
      v.valueId = v'.valueId := by
    intro v v' hheld hmem hat heq
    obtain ⟨x, q, hx, hq, hpid, hvid⟩ := hheld
    obtain ⟨y, hy, q', hq', _, hsame⟩ := hcover v' hmem hat
    rw [hsynced x hx] at hy
    obtain rfl := Option.some.inj hy
    rw [hq] at hq'
    obtain rfl := Option.some.inj hq'
    rw [← hvid]
    exact (hsame (by omega)).symm
  refine ⟨by rw [hm]; exact hsynced, by rw [hm]; exact hcover, fun v hmem v' hmem' hat hat' heq => ?_,
    fun x hx c' hb hp => ?_⟩
  · rcases hv v hmem hat with hold | hnew
    · rcases hv v' hmem' hat' with hold' | hnew'
      · exact h.one v hold v' hold' hat hat' heq
      · exact (hlast v' v hnew' hmem hat heq.symm).symm
    · exact hlast v v' hnew hmem' hat' heq
  · rw [hm]
    rcases hr x hx c' hb hp with ⟨hx', hb'⟩ | ⟨rfl, ht, hok, hst⟩
    · obtain ⟨hbars, hall⟩ := h.barred x hx' c' hb' hp
      have hbars' := hs.keeps (fun x x' hst => hst.bars) hbars
      refine ⟨hbars', fun v hmem hat => ?_⟩
      rcases hv v hmem hat with hold | ⟨y, q, hy, hq, hpid, _⟩
      · exact hall v hold hat
      · obtain ⟨z, hz, hbz⟩ := hbars'
        rw [hsynced y hy] at hz
        obtain rfl := Option.some.inj hz
        rcases hbz with ⟨q', hq', hle⟩ | ⟨hn, _⟩
        · rw [hq] at hq'
          obtain rfl := Option.some.inj hq'
          omega
        · rw [hq] at hn; cases hn
    · subst ht
      obtain ⟨y, pr, hy, hn, hpr, hle⟩ := hs.promises hp.pos hok hst
      refine ⟨⟨y, hy, .inr ⟨hn, pr, hpr, hle⟩⟩, fun v hmem hat => ?_⟩
      obtain ⟨z, hz, q, hq, _⟩ := hcover v hmem hat
      rw [hy] at hz
      obtain rfl := Option.some.inj hz
      rw [hn] at hq
      cases hq

/-- The request an answer belongs to does not change. -/
theorem Sane.request (h : s.Sane) {new : List (Bcast cfg)} (hg : Grows s s' new) {x : Answer cfg}
    {c : Bcast cfg}
    (hx : x ∈ s.rsps) (hc : s'.bcasts[x.bid]? = some c) : s.bcasts[x.bid]? = some c := by
  obtain ⟨c₀, hok⟩ := h.answers x hx
  rw [hg.get hok.bcast] at hc
  exact Option.some.inj hc ▸ hok.bcast

theorem mem_voteOf {acc : Fin cfg.totalAcceptor} {b : Acceptor} {msg : PaxosMsg} {v : Vote cfg}
    (h : v ∈ voteOf acc b msg) :
    v = ⟨acc, msg.pp.pinst, msg.pp.pentry, msg.pp.pid, msg.pp.valueId⟩ ∧ msg.type = .acceptReq ∧
      Holds cfg b msg.pp := by
  unfold voteOf at h
  split at h
  · rename_i hh
    exact ⟨List.mem_singleton.mp h, hh⟩
  · cases h

/-- A delivery that does not concern the entry leaves it alone. -/
theorem Sane.unconcerned (hsane : s.Sane) {bid : Nat} {acc : Fin cfg.totalAcceptor} {saves : Saves}
    {c : Bcast cfg} (hs : s.step (.deliver bid acc saves) = some s') (hc : s.bcasts[bid]? = some c)
    (hk : KeepsEntryOf i e s (.deliver bid acc saves) s')
    (hno : ¬ (acc = a ∧ c.inst = i ∧ c.msg.pp.pentry = e)) :
    ((s'.accs a).mngs i).cached e = ((s.accs a).mngs i).cached e ∧
      ((s'.accs a).mngs i).disk e = ((s.accs a).mngs i).disk e := by
  cases hsane.requests.step_mng hs a i with
  | same _ hm => rw [hm]; exact ⟨rfl, rfl⟩
  | served bid saves c' hd hc' hinst hsv hm =>
    rw [hc] at hc'
    obtain rfl := Option.some.inj hc'
    have hne : e ≠ c.msg.pp.pentry := fun he => hno ⟨rfl, hinst, he.symm⟩
    have hkc := hk.cached a
    rw [hm] at hkc ⊢
    exact ⟨hsv.unevicted hne hkc, (hsv.other hne).1⟩

theorem Voter.step {l : SynodOp cfg} (h : s.Voter i e a) (hsane : s.Sane) (hs : s.step l = some s')
    (hk : KeepsEntryOf i e s l s') : s'.Voter i e a := by
  obtain ⟨new, hg⟩ := step_grows hs
  cases step_net hs with
  | other _ haccs hrsps hvotes =>
    refine h.frame (by rw [haccs]) (by rw [haccs]) (fun v hv _ => hvotes ▸ hv) fun x hx c hc _ => ?_
    rw [hrsps] at hx
    exact ⟨hx, hsane.request hg hx hc⟩
  | restart acc inst batch lastCommitted fuel => exact absurd rfl (hk.restart _ _ _ _ _)
  | deliver bid acc saves c hc haccs hrsps hvotes hbcasts =>
    obtain rfl := hk.saves _ _ _ rfl
    have hmem := List.mem_of_getElem? hc
    have hok := hsane.bcast hmem
    have hv : ∀ v ∈ s'.votes, v.At a i e → v ∈ s.votes ∨
        ((acc = a ∧ c.inst = i ∧ c.msg.pp.pentry = e) ∧
        v = ⟨acc, c.msg.pp.pinst, c.msg.pp.pentry, c.msg.pp.pid, c.msg.pp.valueId⟩ ∧
        Holds cfg ((s.accs acc).doHandleMsg (cfg.on acc) Saves.good c.msg).2 c.msg.pp) := by
      intro v hv hat
      rw [hvotes] at hv
      refine (List.mem_append.mp hv).imp id fun hv => ?_
      obtain ⟨rfl, _, hh⟩ := mem_voteOf hv
      exact ⟨⟨hat.1, hok.pinst.symm.trans hat.2.1, hat.2.2⟩, rfl, hh⟩
    have hr : ∀ x ∈ s'.rsps, ∀ c', s'.bcasts[x.bid]? = some c' → x.Promises c' a i e →
        (x ∈ s.rsps ∧ s.bcasts[x.bid]? = some c') ∨
        ((acc = a ∧ c.inst = i ∧ c.msg.pp.pentry = e) ∧ c' = c ∧
          ((s.accs acc).doHandleMsg (cfg.on acc) Saves.good c.msg).1 = some x.msg) := by
      intro x hx c' hc' hp
      rw [hrsps] at hx
      rcases List.mem_append.mp hx with hx | hx
      · exact .inl ⟨hx, hsane.request hg hx hc'⟩
      · obtain ⟨rsp, hrsp, rfl⟩ := List.mem_map.mp hx
        rw [hbcasts, hc] at hc'
        obtain rfl := Option.some.inj hc'
        exact .inr ⟨⟨hp.acc, hp.inst, hp.entry⟩, rfl, Option.mem_toList.mp hrsp⟩
    by_cases hmain : acc = a ∧ c.inst = i ∧ c.msg.pp.pentry = e
    · obtain ⟨rfl, rfl, rfl⟩ := hmain
      obtain ⟨hd, rt, hsv, hm, hans⟩ := hsane.requests.handled hmem acc Saves.good
      have hself : (s'.accs acc) = ((s.accs acc).doHandleMsg (cfg.on acc) Saves.good c.msg).2 := by
        rw [haccs, Function.update_self]
      have hmng' : (s'.accs acc).mngs c.inst = hd.mng := by rw [hself, hm, Function.update_self]
      refine h.served hsv rfl hmng' (fun v hvm hat => (hv v hvm hat).imp id ?_) fun x hx c' hc' hp =>
        (hr x hx c' hc' hp).imp id ?_
      · intro hheld
        obtain ⟨_, rfl, x, q, hx, hq, hpid, hvid⟩ := hheld
        rw [hsane.requests.mngOf hmem, ← hself, hmng'] at hx
        exact ⟨x, q, hx, hq, hpid, hvid⟩
      · intro hheld
        obtain ⟨_, rfl, hx'⟩ := hheld
        rw [hans] at hx'
        have hmsg := Option.some.inj hx'
        have herr := hp.errcode
        have hst := hp.status
        have hty := hp.type
        have hsane' : s'.Sane := hsane.step hs fun _ _ _ _ _ hl => by cases hl
        have hans := hsane'.requests.answerOk hx hc'
        rw [← hmsg] at herr hst
        exact ⟨rfl, hans.prepare hty, herr, hst⟩
    · obtain ⟨hcached, hdisk⟩ := hsane.unconcerned hs hc hk hmain
      exact h.frame hcached hdisk (fun v hm hat => (hv v hm hat).resolve_right fun hh => hmain hh.1)
        fun x hx c' hc' hp => (hr x hx c' hc' hp).resolve_right fun hh => hmain hh.1

/-! ## What a proposer has counted -/

/-- A promise newly counted is the answer of a callback. -/
theorem step_counted {l : SynodOp cfg} (h : s.step l = some s') {r : Promise cfg}
    (hr : r ∈ s'.counted) :
    r ∈ s.counted ∨ ∃ x ∈ s.rsps, ∃ c q, s.bcasts[x.bid]? = some c ∧
      (s.props c.src x.msg.pp.pinst).req = some q ∧
      (s.props c.src x.msg.pp.pinst).Awaits c.msg.pp.term ∧
      (s.props c.src x.msg.pp.pinst).phase = preparingPhase ∧ ValidPromise q x.msg ∧
      r = ⟨c.src, q.pp.pinst, q.pp.pentry, q.pp.pid, x.acc⟩ := by
  cases l with
  | propose | entryChosen =>
    obtain rfl := Option.some.inj h
    exact .inl hr
  | timeout | restart =>
    obtain ⟨_, _, rfl⟩ := Option.map_eq_some_iff.mp h
    exact .inl hr
  | deliver bid acc saves =>
    simp only [step] at h
    split at h
    · cases h
    · obtain rfl := Option.some.inj h
      exact .inl hr
  | reply rid =>
    simp only [step] at h
    split at h
    · cases h
    rename_i x hx
    split at h
    · cases h
    rename_i c hc
    obtain ⟨_, _, rfl⟩ := Option.map_eq_some_iff.mp h
    refine (List.mem_append.mp hr).imp id fun hr => ?_
    unfold countedOf at hr
    split at hr
    · cases hr
    rename_i q hq
    split at hr
    · rename_i hcond
      exact ⟨x, List.mem_of_getElem? hx, c, q, hc, hq, hcond.1, hcond.2.1, hcond.2.2,
        List.mem_singleton.mp hr⟩
    · cases hr

/-- Every promise counted, of an id above that of a read probe, is an acceptor's. -/
def Sourced (s : Synod cfg) : Prop :=
  ∀ r ∈ s.counted, 0 < r.pid → ∃ x ∈ s.rsps, ∃ c, s.bcasts[x.bid]? = some c ∧
    x.Promises c r.acc r.inst r.entry ∧ c.msg.pp.pid = r.pid

theorem Sourced.step {l : SynodOp cfg} (h : s.Sourced) (hsane : s.Sane) (hs : s.step l = some s') :
    s'.Sourced := by
  obtain ⟨new, hg⟩ := step_grows hs
  intro r hr hpos
  rcases step_counted hs hr with hr | ⟨x, hx, c, q, hc, hq, haw, hph, hv, rfl⟩
  · obtain ⟨x, hx, c, hc, hp⟩ := h r hr hpos
    exact ⟨x, hg.rsps hx, c, hg.get hc, hp⟩
  · have hok := hsane.requests.answerOk hx hc
    have hb := hsane.bcast (List.mem_of_getElem? hc)
    have hpin : x.msg.pp.pinst = c.msg.pp.pinst := by
      refine hok.pinst.resolve_right fun hno => ?_
      have := hv.type
      rw [hno.2] at this
      cases this
    have hinst : x.msg.pp.pinst = c.inst := hpin.trans hb.pinst
    rw [hinst] at hq haw hph
    obtain ⟨c', hok', _, hcur⟩ := hsane.answered (k := c.src) (i := c.inst)
      ⟨hx, c, hc, rfl, hb.pinst, haw⟩ hq (.inl ⟨hph, hv⟩)
    obtain rfl := Option.some.inj (hc.symm.trans hok'.bcast)
    exact ⟨x, hg.rsps hx, c, hg.get hc,
      ⟨rfl, hb.pinst.symm.trans hcur.same.pinst.symm, hcur.same.pentry.symm,
      hcur.same.pid ▸ hpos, hv.type, hv.errcode, hv.status⟩, hcur.same.pid.symm⟩

end

section

variable {ok : Synod cfg → SynodOp cfg → Synod cfg → Prop} {i e : Nat}

theorem readsLogs_of_keepsEntryOf {s s' : Synod cfg} {l : SynodOp cfg}
    (h : KeepsEntryOf i e s l s') :
    ReadsLogs s l s' :=
  fun _ _ _ _ _ hl => absurd hl (h.restart _ _ _ _ _)

theorem voter_inductive (hkeep : ∀ s l s', ok s l s' → KeepsEntryOf i e s l s') :
    ((sys cfg).restrict ok).Inductive fun s => s.Sane ∧ s.Sourced ∧ ∀ a, s.Voter i e a := by
  refine (sane_inductive fun s l s' h => readsLogs_of_keepsEntryOf (hkeep s l s' h)).rel ?_ ?_
  · intro s hinit
    obtain ⟨sec, rfl⟩ := hinit
    refine ⟨(fun r hr => by cases hr), fun a => ⟨?_, ?_, ?_, ?_⟩⟩
    · intro x hx
      cases hx
    · intro v hv
      cases hv
    · intro v hv
      cases hv
    · intro x hx
      cases hx
  · intro s l s' hsane _ hbars hstep
    obtain ⟨hsrc, hvoter⟩ := hbars
    obtain ⟨hs, hok⟩ := hstep
    exact ⟨hsrc.step hsane hs, fun a => (hvoter a).step hsane hs (hkeep s l s' hok)⟩

theorem counted_run {s s' : Synod cfg} {ops : List (SynodOp cfg)}
    (hr : ((sys cfg).restrict ok).Run s ops s') :
    s.counted ⊆ s'.counted := by
  induction hr with
  | nil => exact fun _ h => h
  | cons hs _ ih =>
    obtain ⟨_, hg⟩ := step_grows hs.1
    exact fun _ h => ih (hg.counted h)

end

/-- Once a proposer has counted promises for `p` from the acceptors of a majority
`Q`, none of them has accepted or holds, then or later, a proposal of an id below
`p`, and no such id is accepted by a majority. -/
theorem promise_barrier {s s' : Synod cfg} {ops : List (SynodOp cfg)} {i e p : Nat}
    {k : Fin cfg.totalProposer} {Q : Finset (Fin cfg.totalAcceptor)}
    (h : ((sys cfg).restrict (KeepsEntryOf i e)).Reachable s) (hp : 0 < p) (hQ : Majority Q)
    (hall : ∀ a ∈ Q, ⟨k, i, e, p, a⟩ ∈ s.counted)
    (hrun : ((sys cfg).restrict (KeepsEntryOf i e)).Run s ops s') :
    (∀ a ∈ Q, ∀ p' vid, ⟨a, i, e, p', vid⟩ ∈ s'.votes → p ≤ p') ∧
      (∀ a ∈ Q, ∀ q, HeldAccepted ((s'.accs a).mngs i) e q → p ≤ q.pid) ∧
      ∀ p' < p, ¬ ∃ P : Finset (Fin cfg.totalAcceptor), Majority P ∧
        ∀ a ∈ P, ∃ vid, ⟨a, i, e, p', vid⟩ ∈ s'.votes := by
  obtain ⟨_, hsrc, hvoter⟩ := (voter_inductive fun _ _ _ h => h).reachable s' (h.run hrun)
  -- the entry of each of them bars the ids below `p`
  have hbar : ∀ a ∈ Q, (∃ y, ((s'.accs a).mngs i).cached e = some y ∧ y.Bars p) ∧
      ∀ v ∈ s'.votes, v.At a i e → p ≤ v.pid := by
    intro a ha
    obtain ⟨x, hx, c, hc, hpr, hpid⟩ := hsrc _ (counted_run hrun (hall a ha)) hp
    have := (hvoter a).barred x hx c hc hpr
    rw [hpid] at this
    exact this
  have hvotes : ∀ a ∈ Q, ∀ p' vid, ⟨a, i, e, p', vid⟩ ∈ s'.votes → p ≤ p' :=
    fun a ha p' vid hv => (hbar a ha).2 _ hv ⟨rfl, rfl, rfl⟩
  refine ⟨hvotes, ?_, ?_⟩
  · intro a ha q hheld
    obtain ⟨x, hx, hq⟩ := hheld
    have hcached : ((s'.accs a).mngs i).cached e = some x :=
      hx.elim id fun hx => (hvoter a).synced x hx
    obtain ⟨y, hy, hbars⟩ := (hbar a ha).1
    rw [hcached] at hy
    obtain rfl := Option.some.inj hy
    rcases hbars with ⟨q', hq', hle⟩ | ⟨hn, _⟩
    · rw [hq] at hq'
      exact Option.some.inj hq' ▸ hle
    · rw [hq] at hn; cases hn
  · intro p' hlt
    have hclosed : ClosedBelow (fun a p' vid => (⟨a, i, e, p', vid⟩ : Vote cfg) ∈ s'.votes) p :=
      ⟨Q, hQ, hvotes⟩
    exact hclosed.not_majority hlt

/-! ## A run without evictions -/

/-- Checks that a step keeps every entry: the saves succeed, and what the manager at work
had in its cache is there afterwards. -/
def keepsAll (s : Synod cfg) (l : SynodOp cfg) (s' : Synod cfg) : Bool :=
  match l with
  | .deliver bid acc saves =>
    saves = Saves.good ∧ ∀ c ∈ s.bcasts[bid]?,
      ∀ x ∈ ((s.accs acc).mngs (cfg.mngOf c.msg.pp.pinst)).entries.order,
        (((s'.accs acc).mngs (cfg.mngOf c.msg.pp.pinst)).cached x.1).isSome
  | .restart .. => false
  | _ => true

theorem keepsEntryOf_of_keepsAll {s s' : Synod cfg} {l : SynodOp cfg} (hs : s.step l = some s')
    (h : keepsAll s l s' = true) (i e : Nat) : KeepsEntryOf i e s l s' := by
  cases step_net hs with
  | other _ haccs =>
    refine ⟨fun bid acc saves hl => ?_, fun _ _ _ _ _ hl => ?_, fun a => by rw [haccs]; exact id⟩
    · subst hl
      exact (of_decide_eq_true h).1
    · subst hl
      cases h
  | restart => cases h
  | deliver bid acc saves c hc haccs =>
    obtain ⟨hgood, hkept⟩ := of_decide_eq_true h
    refine ⟨(fun _ _ _ hl => by cases hl; exact hgood), (fun _ _ _ _ _ hl => by cases hl), fun a hne => ?_⟩
    rw [haccs, Function.update_apply] at hkept ⊢
    split
    · rename_i ha
      subst ha
      by_cases hi : i = cfg.mngOf c.msg.pp.pinst
      · subst hi
        unfold EntryMng.cached LruMap.find? at hne
        obtain ⟨x, hx⟩ := Option.ne_none_iff_exists'.mp hne
        obtain ⟨p, hp, _⟩ := Option.map_eq_some_iff.mp hx
        have hkey : p.1 = e := by simpa using List.find?_some hp
        have := hkept c hc p (List.mem_of_find?_eq_some hp)
        rw [if_pos rfl, hkey] at this
        exact Option.isSome_iff_ne_none.mp this
      · rw [show ((s.accs a).doHandleMsg (cfg.on a) saves c.msg).2.mngs i = (s.accs a).mngs i from
          doHandleMsg_other hi]
        exact hne
    · exact hne

/-- Proposer 1 counts the promises of acceptors 0 and 1 for id 2. -/
def promisedRun : List (SynodOp (Configure.init 0)) :=
  [.propose ⟨1, second_of_three⟩ 0 [7] 0 0 false,
    .deliver 0 ⟨0, first_of_three⟩ Saves.good, .deliver 0 ⟨1, second_of_three⟩ Saves.good, .reply 0, .reply 1]

/-- Then proposer 0 is promised id 1 by acceptor 2, and acceptor 0 accepts id 2. -/
def acceptedRun : List (SynodOp (Configure.init 0)) :=
  [.propose ⟨0, first_of_three⟩ 0 [9] 0 0 false, .deliver 2 ⟨2, third_of_three⟩ Saves.good, .reply 2,
    .deliver 1 ⟨0, first_of_three⟩ Saves.good]

def twoPromises : Synod (Configure.init 0) :=
  (LTS.exec (fun s l => (s.step l).filter (s.keepsAll l)) (start _ fun _ => 7) promisedRun).get
    (by decide +kernel)

def afterPromises : Synod (Configure.init 0) :=
  (LTS.exec (fun s l => (s.step l).filter (s.keepsAll l)) twoPromises acceptedRun).get
    (by decide +kernel)

def firstTwo : Finset (Fin (Configure.init 0).totalAcceptor) := {⟨0, first_of_three⟩, ⟨1, second_of_three⟩}

theorem promise_barrier_two : (⟨⟨0, by decide⟩, 0, 1, 2, 7⟩ : Vote (Configure.init 0)) ∈ afterPromises.votes ∧
    ∀ p' < 2, ¬ ∃ P : Finset (Fin (Configure.init 0).totalAcceptor), Majority P ∧
      ∀ a ∈ P, ∃ vid, ⟨a, 0, 1, p', vid⟩ ∈ afterPromises.votes := by
  have hrun : ∀ {s s' : Synod (Configure.init 0)} {ops : List (SynodOp (Configure.init 0))},
      LTS.exec (fun s l => (s.step l).filter (s.keepsAll l)) s ops = some s' →
      ((sys _).restrict (KeepsEntryOf 0 1)).Run s ops s' :=
    fun h => LTS.run_of_guarded (fun s l s' hs hk => keepsEntryOf_of_keepsAll hs hk 0 1) h
  have hstart : ((sys _).restrict (KeepsEntryOf 0 1)).Run _ promisedRun twoPromises :=
    hrun (Option.some_get _).symm
  have hthen : ((sys _).restrict (KeepsEntryOf 0 1)).Run _ acceptedRun afterPromises :=
    hrun (Option.some_get _).symm
  refine ⟨by decide +kernel, (promise_barrier (k := ⟨1, by decide⟩) (Q := firstTwo)
    ⟨_, _, ⟨_, rfl⟩, hstart⟩ (by decide) (by unfold Majority; decide) ?_ hthen).2.2⟩
  decide +kernel

end Synod
end Quarrel
