import Quarrel.Core.Refinement
import Quarrel.L5Synod.Remembering
import Quarrel.L5Synod.Replies
import Quarrel.L5Synod.Validity

/-!
# The log

What the synod is for. Instance `i` stands for log `i` of a log service: a call that starts
a round submits its value, the CHOSEN broadcast of the round commits it to the end of the
log, and a round that is over without one has given it up.

* `Steady`: the runs this holds of. Callbacks are invoked once, and values fit their field.
* `Settled`: the invariants of such runs, together.
* `log_refines`: each step is answered by submitting, committing or giving up calls.
* `refused_gaveUp`: the call of a caller that is told an error is given up.
* `log_service`: the replies, the acceptors' marks and the proposers' last chosen entries agree
  with the log.
-/
namespace Quarrel

open InstanceState EntryMng

variable {cfg : Configure}

/-- The reply goes to the call `v`. -/
def Reply.To (r : Reply cfg) (v : Passed cfg) : Prop := v.Of r.src r.inst ∧ v.round = r.round

namespace Synod

/-- The acceptors remember what they store, the one-phase path is with the lowest id, and
proposers are told of chosen entries only. -/
structure SteadyStep (s : Synod cfg) (l : SynodOp cfg) (s' : Synod cfg) : Prop where
  keeps : Remembering s l s'
  skips : SkipsWithin (lowest cfg) s l
  told : s.Told l

structure Steady (s : Synod cfg × List (Passed cfg)) (l : SynodOp cfg)
    (s' : Synod cfg × List (Passed cfg)) : Prop extends SteadyStep s.1 l s'.1 where
  short : ShortValues l
  once : s'.1.called.Nodup

structure Settled (s : Synod cfg × List (Passed cfg)) : Prop where
  sane : s.1.Sane
  stored : s.1.Stored
  tally : ∀ k i, s.1.Tally (lowest cfg) k i
  sworn : ∀ i e a, s.1.Sworn i e a
  contiguous : ∀ k i, s.1.Contiguous k i
  values : ∀ k i, s.1.Values s.2 k i

/-- The entries of the logs are the CHOSEN broadcasts. -/
structure Logs (s : Synod cfg) (p : LogService Nat (Passed cfg)) : Prop where
  chosen : ∀ c ∈ s.bcasts, c.msg.type = .chosenReq → ∃ n v, c.msg.pp.pentry = n + 1 ∧
    (p.log c.inst)[n]? = some v ∧ v.Of c.src c.inst ∧ v.round = c.round
  entry : ∀ i n v, (p.log i)[n]? = some v → ∃ c ∈ s.bcasts, c.msg.type = .chosenReq ∧
    c.Of v.src i ∧ v.inst = i ∧ c.round = v.round ∧ c.msg.pp.pentry = n + 1

structure LogOf (s : Synod cfg × List (Passed cfg)) (p : LogService Nat (Passed cfg)) :
    Prop where
  calls : p.calls = s.2
  logs : s.1.Logs p
  failed : ∀ v, v ∈ p.failed ↔ v ∈ s.2 ∧ s.1.GaveUp v.src v.inst v.round

/-! ## What holds of the runs -/

theorem Settled.of_reachable {s : Synod cfg × List (Passed cfg)}
    (h : ((passSys cfg).restrict Steady).Reachable s) : Settled s := by
  have hlog : ∀ (s : Synod cfg) l s', SteadyStep s l s' → ReadsLogs s l s' :=
    fun _ _ _ hok => hok.keeps.logs
  have hproj : ∀ (s : Synod cfg × List (Passed cfg)) l s', Steady s l s' → SteadyStep s.1 l s'.1 :=
    fun _ _ _ hok => hok.toSteadyStep
  have honce : ((passSys cfg).restrict Steady).Inductive fun s => s.1.called.Nodup := by
    refine ⟨fun s hi => ?_, fun s l s' _ hst => hst.2.once⟩
    obtain ⟨⟨sec, hs⟩, _⟩ := hi
    rw [hs]
    exact List.nodup_nil
  obtain ⟨hsane, htally⟩ :=
    ((tally_inductive hlog fun _ _ _ hok => hok.skips).withRecord hproj).reachable s h
  obtain ⟨_, hstored⟩ := ((stored_inductive hlog).withRecord hproj).reachable s h
  obtain ⟨_, hcont⟩ :=
    ((contiguous_inductive hlog fun _ _ _ hok => hok.told).withRecord hproj).reachable s h
  obtain ⟨_, hvalues, _⟩ := values_inductive.reachable s
    (h.weaken fun s l s' hok => ⟨hlog _ _ _ (hproj s l s' hok), hok.short⟩)
  obtain ⟨_, _, hkeeper⟩ :=
    ((keeper_inductive fun _ _ _ hok => hok.keeps).withRecord hproj).reachable s h
  exact ⟨hsane, hstored, htally (honce.reachable s h), fun i e a => (hkeeper i e a).sworn, hcont, hvalues⟩

section

variable {s : Synod cfg × List (Passed cfg)} {p : LogService Nat (Passed cfg)}

/-- One CHOSEN is broadcast for an entry, in the whole run. -/
theorem Settled.chosen_once (h : Settled s) (hcookie : cfg.pidCookie = 0) {b b' : Nat}
    {c c' : Bcast cfg} (hb : s.1.bcasts[b]? = some c) (hb' : s.1.bcasts[b']? = some c')
    (ht : c.msg.type = .chosenReq) (ht' : c'.msg.type = .chosenReq) (hinst : c.inst = c'.inst)
    (hentry : c.msg.pp.pentry = c'.msg.pp.pentry) : b = b' := by
  obtain ⟨hsrc, hround, _⟩ := chosen_unique hcookie h.sane h.stored h.tally h.sworn
    (List.mem_of_getElem? hb) (List.mem_of_getElem? hb') ht ht' hinst hentry
  exact (h.sane.rounds c.src c.inst).unique b b' c c' hb hb' ⟨rfl, rfl⟩ ⟨hsrc.symm, hinst.symm⟩
    hround (ht.trans ht'.symm)

/-- The call whose round a CHOSEN is of, and the ACCEPT of the round. -/
theorem Settled.call_of_chosen (h : Settled s) {c : Bcast cfg} (hc : c ∈ s.1.bcasts)
    (ht : c.msg.type = .chosenReq) : ∃ v ∈ s.2, v.Of c.src c.inst ∧ v.round = c.round := by
  obtain ⟨b, r, hb, ho, hround, hty, _⟩ := (h.tally c.src c.inst).chosen c hc ⟨rfl, rfl⟩ ht
  obtain ⟨v, hv, hov, hr, _⟩ := (h.values c.src c.inst).sent r (List.mem_of_getElem? hb) ho hty
  exact ⟨v, hv, hov, hr.trans hround⟩

theorem Settled.call_unique (h : Settled s) {v v' : Passed cfg} (hv : v ∈ s.2) (hv' : v' ∈ s.2)
    (hsrc : v.src = v'.src) (hinst : v.inst = v'.inst) (hround : v.round = v'.round) : v = v' := by
  have hval := (h.values v.src v.inst).unique v hv v' hv' ⟨rfl, rfl⟩ ⟨hsrc.symm, hinst.symm⟩ hround
  obtain ⟨src, inst, round, val⟩ := v
  obtain ⟨src', inst', round', val'⟩ := v'
  obtain rfl := hsrc
  obtain rfl := hinst
  obtain rfl := hround
  obtain rfl := hval
  rfl

theorem Logs.committed (h : s.1.Logs p) {i : Nat} {v : Passed cfg} (hv : v ∈ p.log i) :
    s.1.Committed v.src v.inst v.round := by
  obtain ⟨n, hn⟩ := List.mem_iff_getElem?.mp hv
  obtain ⟨c, hc, ht, ho, rfl, hr, _⟩ := h.entry i n v hn
  exact ⟨c, hc, ht, ho, hr⟩

end

/-! ## The steps -/

section

variable {s s' : Synod cfg × List (Passed cfg)} {l : SynodOp cfg} {p : LogService Nat (Passed cfg)}

/-- The call that a step is, if it starts a round, is submitted. -/
theorem submits (h : Settled s) (hcalls : p.calls = s.2) :
    ∃ ops, (LogService.sys Passed.inst).Run p ops { p with calls := s.2 ++ passed s.1 l } := by
  have hnone : passed s.1 l = [] →
      ∃ ops, (LogService.sys Passed.inst).Run p ops { p with calls := s.2 ++ passed s.1 l } := by
    intro hnil
    rw [hnil, List.append_nil, ← hcalls]
    exact ⟨[], .nil p⟩
  cases l with
  | propose k opaqueData val pinst promise oom =>
    rcases proposeAsync_draws (cfg.on k) (s.1.props k (pinst % cfg.plogInstNum)) (pinst % cfg.plogInstNum)
        opaqueData val promise oom with ⟨_, hb⟩ | ⟨m, hb, _⟩
    · refine hnone ?_
      rw [passed_propose rfl, hb]
      rfl
    · have hpassed : passed s.1 (.propose k opaqueData val pinst promise oom) =
          [⟨k, pinst % cfg.plogInstNum, (s.1.props k (pinst % cfg.plogInstNum)).term + 1, val⟩] := by
        rw [passed_propose rfl, hb]
        rfl
      rw [hpassed, ← hcalls]
      refine ⟨_, .single (.submit _ fun hmem => ?_)⟩
      rw [hcalls] at hmem
      have := (h.values k (pinst % cfg.plogInstNum)).rounds _ hmem ⟨rfl, rfl⟩
      exact absurd this (Nat.not_succ_le_self _)
  | _ => exact hnone rfl

/-- The CHOSEN broadcast of a step is for the entry after the last one of its log. -/
theorem chosen_length (h' : Settled s') (hcookie : cfg.pidCookie = 0) (hlogs : s.1.Logs p)
    {c : Bcast cfg} (hb : s'.1.bcasts = s.1.bcasts ++ [c]) (ht : c.msg.type = .chosenReq) :
    c.msg.pp.pentry = (p.log c.inst).length + 1 := by
  have hc : c ∈ s'.1.bcasts := by
    rw [hb]
    exact List.mem_append_right _ (List.mem_singleton_self c)
  obtain ⟨d, hd, hprev⟩ := next_of_bcast h'.contiguous hc
  have hle : d ≤ (p.log c.inst).length := by
    rcases hprev with rfl | ⟨c', hc', hinst, ht', he⟩
    · exact Nat.zero_le _
    rw [hb] at hc'
    rcases List.mem_append.mp hc' with hc' | hc'
    · obtain ⟨n, v, hn, hget, _⟩ := hlogs.chosen c' hc' ht'
      have := (List.getElem?_eq_some_iff.mp hget).1
      rw [hinst] at this
      omega
    · obtain rfl := List.mem_singleton.mp hc'
      omega
  have hge : ¬ d < (p.log c.inst).length := by
    intro hlt
    obtain ⟨c', hc', ht', ho, _, _, he⟩ := hlogs.entry c.inst d _ (List.getElem?_eq_getElem hlt)
    obtain ⟨b', hb'⟩ := List.mem_iff_getElem?.mp hc'
    have hlt' := (List.getElem?_eq_some_iff.mp hb').1
    have hold : s'.1.bcasts[b']? = some c' := by
      rw [hb, List.getElem?_append_left hlt']
      exact hb'
    have hnew : s'.1.bcasts[s.1.bcasts.length]? = some c := by
      rw [hb]
      exact List.getElem?_concat_length ..
    have := h'.chosen_once hcookie hold hnew ht' ht ho.2 (he.trans hd.symm)
    omega
  omega

theorem Sane.fresh {s s' : Synod cfg} (hsane : s'.Sane) {c : Bcast cfg}
    (hb : s'.bcasts = s.bcasts ++ [c]) (ht : c.msg.type = .chosenReq) :
    ¬ s.Committed c.src c.inst c.round := by
  intro hv
  obtain ⟨c', hc', ht', ho, hr⟩ := hv
  obtain ⟨b', hb'⟩ := List.mem_iff_getElem?.mp hc'
  have hlt := (List.getElem?_eq_some_iff.mp hb').1
  have hold : s'.bcasts[b']? = some c' := by
    rw [hb, List.getElem?_append_left hlt]
    exact hb'
  have hnew : s'.bcasts[s.bcasts.length]? = some c := by
    rw [hb]
    exact List.getElem?_concat_length ..
  have := (hsane.rounds c.src c.inst).unique b' _ c' c hold hnew ho ⟨rfl, rfl⟩ hr (ht'.trans ht.symm)
  omega

/-- The call of the CHOSEN a step broadcasts, if it does, is committed. -/
theorem commits (h : Settled s) (h' : Settled s') (hcookie : cfg.pidCookie = 0)
    (hs : s.1.step l = some s'.1) (hcalls : p.calls = s'.2) (hlogs : s.1.Logs p)
    (hfailed : ∀ v, v ∈ p.failed → s.1.GaveUp v.src v.inst v.round) :
    ∃ ops p', (LogService.sys Passed.inst).Run p ops p' ∧ p'.calls = p.calls ∧
      p'.failed = p.failed ∧ s'.1.Logs p' := by
  obtain ⟨new, hg⟩ := step_grows hs
  by_cases hch : ∃ c ∈ new, c.msg.type = .chosenReq
  · obtain ⟨c, hc, ht⟩ := hch
    obtain ⟨rfl, hterm⟩ := h.sane.new_bcast hs hg hc ⟨rfl, rfl⟩
    obtain ⟨hterm, hreq⟩ := hterm ht
    have hlen := chosen_length h' hcookie hlogs hg.bcasts ht
    obtain ⟨v, hv, hov, hround⟩ := h'.call_of_chosen (hg.bcasts ▸ List.mem_append_right _ hc) ht
    have hfresh := h'.sane.fresh hg.bcasts ht
    rw [← hov.1, ← hov.2, ← hround] at hfresh
    have hnf : v ∉ p.failed := by
      intro hf
      obtain ⟨hover, _⟩ := hfailed v hf
      unfold Over at hover
      rw [hov.1, hov.2] at hover
      exact hover.elim (fun hlt => by omega) hreq
    refine ⟨[.commit v], p.commitTo Passed.inst v,
      .single (.commit v (hcalls ▸ hv) hnf fun hmem => hfresh (hlogs.committed hmem)), rfl, rfl,
      fun d hd ht' => ?_, fun i n w hw => ?_⟩
    · rw [hg.bcasts] at hd
      rcases List.mem_append.mp hd with hd | hd
      · obtain ⟨n, w, hn, hget, hrest⟩ := hlogs.chosen d hd ht'
        exact ⟨n, w, hn, LogService.commitTo_get.mpr (.inl hget), hrest⟩
      · obtain rfl := List.mem_singleton.mp hd
        exact ⟨_, v, hlen, LogService.commitTo_get.mpr (.inr ⟨hov.2.symm, rfl, rfl⟩), hov, hround⟩
    · rcases LogService.commitTo_get.mp hw with hw | ⟨rfl, rfl, rfl⟩
      · obtain ⟨d, hd, hrest⟩ := hlogs.entry i n w hw
        exact ⟨d, hg.mem hd, hrest⟩
      · refine ⟨c, hg.bcasts ▸ List.mem_append_right _ hc, ht, ⟨hov.1.symm, hov.2.symm⟩, rfl,
          hround.symm, ?_⟩
        rw [hlen, hov.2]
  · refine ⟨[], p, .nil p, rfl, rfl, fun d hd ht => ?_, fun i n v hv => ?_⟩
    · rw [hg.bcasts] at hd
      rcases List.mem_append.mp hd with hd | hd
      · exact hlogs.chosen d hd ht
      · exact absurd ⟨d, hd, ht⟩ hch
    · obtain ⟨d, hd, hrest⟩ := hlogs.entry i n v hv
      exact ⟨d, hg.mem hd, hrest⟩

end

open Classical in
/-- The synod refines the log service: a step submits, commits and gives up calls. -/
theorem log_refines (hcookie : cfg.pidCookie = 0) :
    ((passSys cfg).restrict Steady).Refines (LogService.sys Passed.inst) LogOf := by
  refine ⟨fun s hi => ?_, fun s l s' p hreach hp hR hst => ?_⟩
  · obtain ⟨s, vs⟩ := s
    obtain ⟨⟨sec, rfl⟩, rfl⟩ := hi
    refine ⟨_, rfl, rfl, ⟨?_, ?_⟩, fun v => ⟨?_, ?_⟩⟩
    · intro c hc
      cases hc
    · intro i n v hv
      cases hv
    · intro hv
      cases hv
    · intro hv
      cases hv.1
  have h := Settled.of_reachable hreach
  have h' := Settled.of_reachable (hreach.step hst)
  obtain ⟨hs, hvs⟩ := LTS.recorded_eq hst.1
  obtain ⟨ops₁, hrun₁⟩ := submits (l := l) h hR.calls
  rw [← hvs] at hrun₁
  obtain ⟨ops₂, p₂, hrun₂, hcalls, hfailed, hlogs⟩ := commits h h' hcookie hs
    (p := { p with calls := s'.2 }) rfl ⟨hR.logs.chosen, hR.logs.entry⟩
    fun v hv => ((hR.failed v).mp hv).2
  have hsound := (LogService.sound_inductive Passed.inst).reachable p₂ ((hp.run hrun₁).run hrun₂)
  let lost := s'.2.filter fun v => s'.1.GaveUp v.src v.inst v.round ∧ v ∉ p₂.failed
  have hlost : ∀ v, v ∈ lost ↔ v ∈ s'.2 ∧ s'.1.GaveUp v.src v.inst v.round ∧ v ∉ p₂.failed := fun v => by
    simp [lost, List.mem_filter]
  have hrun₃ : (LogService.sys Passed.inst).Run p₂ (lost.map .fail) { p₂ with failed := p₂.failed ++ lost } :=
    LogService.run_fail lost ((hcalls ▸ hsound.calls).filter _) fun v hv => by
      obtain ⟨hmem, hgave, hnf⟩ := (hlost v).mp hv
      exact ⟨hcalls ▸ hmem, hnf, fun hin => hgave.2 (hlogs.committed hin)⟩
  refine ⟨_, _, (hrun₁.append hrun₂).append hrun₃, hcalls, ⟨hlogs.chosen, hlogs.entry⟩, fun v => ?_⟩
  show v ∈ p₂.failed ++ lost ↔ _
  rw [List.mem_append, hlost]
  constructor
  · rintro (hf | ⟨hmem, hgave, _⟩)
    · rw [hfailed] at hf
      obtain ⟨hmem, hgave⟩ := (hR.failed v).mp hf
      refine ⟨hvs ▸ List.mem_append_left _ hmem, h.sane.step_gaveUp hs ?_ hgave⟩
      exact (h.values v.src v.inst).rounds v hmem ⟨rfl, rfl⟩
    · exact ⟨hmem, hgave⟩
  · rintro ⟨hmem, hgave⟩
    by_cases hf : v ∈ p₂.failed
    · exact .inl hf
    · exact .inr ⟨hmem, hgave, hf⟩

/-- What the acceptors mark as chosen is in the log, under the bytes of its call. -/
theorem LogOf.marked {s : Synod cfg × List (Passed cfg)} {p : LogService Nat (Passed cfg)}
    (hR : LogOf s p) (h : Settled s) (hsound : p.Sound Passed.inst) (hcookie : cfg.pidCookie = 0)
    {a : Fin cfg.totalAcceptor} {i e : Nat} {q : Proposal}
    (hq : HeldAccepted ((s.1.accs a).mngs i) e q) (hst : q.status = .chosen) :
    ∃ n v, e = n + 1 ∧ (p.log i)[n]? = some v ∧ v.val ≠ [] ∧ q.data = v.val := by
  obtain ⟨r, hr⟩ := h.stored.held a i e q hq
  obtain ⟨c, hc, ht, rfl, rfl, hpid, hvid⟩ := hr.chosen hst
  obtain ⟨n, v, hn, hget, hov, hround⟩ := hR.logs.chosen c hc ht
  have hv : v ∈ s.2 := hR.calls ▸ (hsound.committed _ v (List.mem_of_getElem? hget)).1
  -- the ACCEPT it was stored from is of the round of the CHOSEN
  have hrpid : r.msg.pp.pid = c.msg.pp.pid := by
    rw [hpid, hr.content]
    rfl
  have hrvid : r.msg.pp.valueId = c.msg.pp.valueId := by
    rw [hvid, hr.content]
    rfl
  obtain ⟨hsrc, hrr⟩ := h.sane.same_round hcookie hr.mem hc hr.inst ((h.sane.bcast hr.mem).accept hr.type)
    hrpid hrvid
  obtain ⟨w, hw, how, hwr, hcar⟩ := (h.values r.src r.inst).sent r hr.mem ⟨rfl, rfl⟩ hr.type
  obtain rfl := h.call_unique hv hw (by rw [hov.1, how.1, hsrc]) (by rw [hov.2, how.2, hr.inst])
    (by rw [hround, hwr, hrr])
  refine ⟨n, v, hn, hget, hcar.probe ((h.sane.bcast hr.mem).accept hr.type), ?_⟩
  rw [hr.content]
  show r.msg.pp.data.take r.msg.pp.size = v.val
  rw [hcar.data, hcar.size, List.take_length]

/-- A proposer knows of no entry the log does not have. -/
theorem LogOf.last {s : Synod cfg × List (Passed cfg)} {p : LogService Nat (Passed cfg)}
    (hR : LogOf s p) (h : Settled s) (k : Fin cfg.totalProposer) (i : Nat) :
    (s.1.props k i).lastChosenEntry ≤ (p.log i).length := by
  rcases (h.contiguous k i).last with h0 | ⟨c, hc, rfl, ht, he⟩
  · rw [h0]
    exact Nat.zero_le _
  · obtain ⟨n, v, hn, hget, _⟩ := hR.logs.chosen c hc ht
    have := (List.getElem?_eq_some_iff.mp hget).1
    omega

/-! ## Runs -/

/-- Reply `r` is made in the run. -/
def RepliedIn (s : Synod cfg × List (Passed cfg)) (ls : List (SynodOp cfg))
    (s' : Synod cfg × List (Passed cfg)) (r : Reply cfg) : Prop :=
  ∃ a l b, ((passSys cfg).restrict Steady).Takes s ls s' a l b ∧ r ∈ replies a.1 l

theorem Settled.call_of_reply {s : Synod cfg × List (Passed cfg)} (h : Settled s)
    {l : SynodOp cfg} {s' : Synod cfg} (hs : s.1.step l = some s') {r : Reply cfg}
    (hr : r ∈ replies s.1 l) : ∃ v ∈ s.2, r.To v := by
  obtain ⟨hreq, hround⟩ := h.sane.replies_waiting hs hr
  obtain ⟨q, hq⟩ := Option.ne_none_iff_exists'.mp hreq
  obtain ⟨v, hv, ho, hterm, _⟩ := (h.values r.src r.inst).waiting q hq
  exact ⟨v, hv, ho, hterm.trans hround.symm⟩

/-- Whoever is told an error in a run has passed a value, which is given up for good. -/
theorem refused_gaveUp {s s' : Synod cfg × List (Passed cfg)} {ls : List (SynodOp cfg)}
    (h : ((passSys cfg).restrict Steady).Reachable s) {r : Reply cfg} (ht : RepliedIn s ls s' r)
    (hcode : r.code ≠ ErrCode.ok) :
    (∃ v ∈ s'.2, r.To v) ∧ s'.1.GaveUp r.src r.inst r.round := by
  obtain ⟨a, l, b, ⟨ls₁, ls₂, _, hra, hst, hrb⟩, hmem⟩ := ht
  have hreads : ∀ (s : Synod cfg × List (Passed cfg)) l s', Steady s l s' → ReadsLogs s.1 l s'.1 :=
    fun _ _ _ hok => hok.keeps.logs
  have ha := h.run hra
  obtain ⟨hs, hvs⟩ := LTS.recorded_eq hst.1
  obtain ⟨v, hv, hto⟩ := (Settled.of_reachable ha).call_of_reply hs hmem
  refine ⟨⟨v, ?_, hto⟩, ?_⟩
  · refine hrb.preserve (I := fun s => v ∈ s.2) (fun s l s' hv hst => ?_) (hvs ▸ List.mem_append_left _ hv)
    rw [(LTS.recorded_eq hst.1).2]
    exact List.mem_append_left _ hv
  · obtain ⟨s₀, l₀, hinit, hr₀⟩ := ha
    exact (replies_true ⟨s₀.1, l₀, hinit.1, hr₀.unrecord hreads⟩ ⟨hs, hreads _ _ _ hst.2⟩).1 r hmem hcode
      ls₂ s'.1 (hrb.unrecord hreads)

/-- Every run of the synod is one of the log service: the log of an instance only grows at its
end, and holds values passed to its calls, each call's at most once and none of a caller that is
told an error. What the acceptors mark as chosen, and the proposers know as chosen, is in the log. -/
theorem log_service {s s' : Synod cfg × List (Passed cfg)} {ls : List (SynodOp cfg)}
    (hcookie : cfg.pidCookie = 0) (h : ((passSys cfg).restrict Steady).Reachable s)
    (hr : ((passSys cfg).restrict Steady).Run s ls s') :
    ∃ p ops p', LogOf s p ∧ LogOf s' p' ∧ (LogService.sys Passed.inst).Run p ops p' ∧
      (∀ i, p.log i <+: p'.log i ∧ (p'.log i).Nodup ∧
        ∀ v ∈ p'.log i, v ∈ s'.2 ∧ v.inst = i ∧ v ∉ p'.failed) ∧
      (∀ r, RepliedIn s ls s' r → r.code ≠ ErrCode.ok →
        (∃ v ∈ s'.2, r.To v) ∧ ∀ v ∈ s'.2, r.To v → v ∈ p'.failed) ∧
      (∀ a i e q, HeldAccepted ((s'.1.accs a).mngs i) e q → q.status = .chosen →
        ∃ n v, e = n + 1 ∧ (p'.log i)[n]? = some v ∧ v.val ≠ [] ∧ q.data = v.val) ∧
      ∀ k i, (s'.1.props k i).lastChosenEntry ≤ (p'.log i).length := by
  have hrefines := log_refines hcookie
  obtain ⟨p, hp, hR⟩ := hrefines.reachable h
  obtain ⟨ops, p', hrun, hR'⟩ := hrefines.run h hp hR hr
  have hsound := (LogService.sound_inductive Passed.inst).reachable p' (hp.run hrun)
  have h' := Settled.of_reachable (h.run hr)
  refine ⟨p, ops, p', hR, hR', hrun, fun i => ⟨LogService.run_prefix hrun i, hsound.log i, fun v hv => ?_⟩,
    fun r ht hcode => ?_, fun a i e q hq hst => hR'.marked h' hsound hcookie hq hst, fun k i => hR'.last h' k i⟩
  · obtain ⟨hmem, hnf, hinst⟩ := hsound.committed i v hv
    exact ⟨hR'.calls ▸ hmem, hinst, hnf⟩
  · obtain ⟨hcall, hgave⟩ := refused_gaveUp h ht hcode
    refine ⟨hcall, fun v hv hto => (hR'.failed v).mpr ⟨hv, ?_⟩⟩
    obtain ⟨⟨hsrc, hinst⟩, hround⟩ := hto
    rw [hsrc, hinst, hround]
    exact hgave

/-- Checks the steps of a steady run that are no restarts. -/
def steady (s : Synod cfg × List (Passed cfg)) (l : SynodOp cfg)
    (s' : Synod cfg × List (Passed cfg)) : Bool :=
  s.1.remembering l && s.1.skipsLowest l && s.1.told l && passesShort l && decide s'.1.called.Nodup

theorem steady_of_steady {s s' : Synod cfg × List (Passed cfg)} {l : SynodOp cfg}
    (h : steady s l s' = true) : Steady s l s' := by
  simp only [steady, Bool.and_eq_true, decide_eq_true_eq] at h
  obtain ⟨⟨⟨⟨h1, h2⟩, h3⟩, h4⟩, h5⟩ := h
  exact ⟨⟨remembering_of_remembering h1, skipsWithin_of_skipsLowest h2, told_of_told h3⟩,
    (show PassesShort s l s' from ok_of_passesShort h4).2, h5⟩

def ranSteady (s : Synod (Configure.init 0) × List (Passed (Configure.init 0)))
    (ops : List (SynodOp (Configure.init 0))) :
    Option (Synod (Configure.init 0) × List (Passed (Configure.init 0))) :=
  LTS.exec (fun s l => (LTS.recorded step passed s l).filter (steady s l)) s ops

/-- The first call of `twoRounds`, and then the second one. -/
def loggedOne : Synod (Configure.init 0) × List (Passed (Configure.init 0)) :=
  (ranSteady (start _ fun _ => 7, []) (twoRounds.take 9)).get (by decide +kernel)

def loggedTwo : Synod (Configure.init 0) × List (Passed (Configure.init 0)) :=
  (ranSteady loggedOne (twoRounds.drop 9)).get (by decide +kernel)

theorem loggedTwo_length : loggedTwo.1.bcasts.length = 5 := by decide +kernel

theorem log_service_two : ∃ p p', LogOf loggedOne p ∧ LogOf loggedTwo p' ∧ p.log 0 <+: p'.log 0 ∧
    2 ≤ (p'.log 0).length := by
  have hrun : ∀ {s s' : Synod (Configure.init 0) × List (Passed (Configure.init 0))}
      {ops : List (SynodOp (Configure.init 0))}, ranSteady s ops = some s' →
      ((passSys _).restrict Steady).Run s ops s' := fun h =>
    LTS.run_of_guarded (f := LTS.recorded step passed) (g := steady)
      (fun _ _ _ _ hk => steady_of_steady hk) h
  have hone := hrun (show _ = some loggedOne from (Option.some_get _).symm)
  have htwo := hrun (show _ = some loggedTwo from (Option.some_get _).symm)
  obtain ⟨p, _, p', hR, hR', _, hlogs, _⟩ := log_service rfl ⟨_, _, ⟨⟨_, rfl⟩, rfl⟩, hone⟩ htwo
  have hmem := List.get_mem loggedTwo.1.bcasts ((4 : Fin 5).cast loggedTwo_length.symm)
  obtain ⟨n, v, hn, hget, _⟩ := hR'.logs.chosen _ hmem (by decide +kernel)
  rw [show (loggedTwo.1.bcasts.get ((4 : Fin 5).cast loggedTwo_length.symm)).msg.pp.pentry = 2 by decide +kernel] at hn
  rw [show (loggedTwo.1.bcasts.get ((4 : Fin 5).cast loggedTwo_length.symm)).inst = 0 by decide +kernel] at hget
  have := (List.getElem?_eq_some_iff.mp hget).1
  exact ⟨p, p', hR, hR', (hlogs 0).1, by omega⟩

end Synod
end Quarrel
