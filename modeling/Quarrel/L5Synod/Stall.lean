import Quarrel.L5Synod.Log

/-!
# Entries that stall

An acceptor that holds an accepted proposal answers a PREPARE with status ACCEPTED, and the
proposer counts PROMISED answers only. A repeated ACCEPT is answered with an error, and one
under a lower id is refused. So a round that ends between its ACCEPT and its CHOSEN can leave
an entry that no later round completes: with a vote in every majority nobody gathers promises
again, and the id of the one-phase path is too low.

* `Blocked`: every majority has a vote for the entry, no proposer has a request of its
  instance outstanding, and the entry is not chosen.
* `Stalled`: what holds from then on. `Stalled.step`: every step keeps it.
* `stalls`: the entry is never chosen, and nobody calls for a later one.
-/
namespace Quarrel

open InstanceState EntryMng

variable {cfg : Configure}

/-- The answer is one a proposer may count. -/
def Answer.Approving (x : Answer cfg) : Prop :=
  x.msg.errcode = ErrCode.ok ∧ ((x.msg.type = .prepareRsp ∧ x.msg.pp.status = .promised) ∨
    (x.msg.type = .acceptRsp ∧ x.msg.pp.status = .accepted))

namespace Synod

/-- The acceptor has voted for a proposal of entry `e` of instance `i`. -/
def VotedAt (s : Synod cfg) (i e : Nat) (a : Fin cfg.totalAcceptor) : Prop :=
  ∃ v ∈ s.votes, v.At a i e

structure Blocked (s : Synod cfg) (i e : Nat) : Prop where
  voted : Blocking (s.VotedAt i e)
  idle : ∀ k, (s.props k i).req = none
  unchosen : ¬ s.Chosen i e

/-- The acceptors of `V` approve nothing for entry `e` of instance `i` in the rounds after
those of `T`. -/
def Refuses (s : Synod cfg) (T : Fin cfg.totalProposer → Nat) (V : Fin cfg.totalAcceptor → Prop)
    (i e : Nat) : Prop :=
  ∀ x ∈ s.rsps, ∀ c, s.bcasts[x.bid]? = some c → c.inst = i → c.msg.pp.pentry = e →
    T c.src < c.round → V x.acc → ¬ x.Approving

structure Stalled (s : Synod cfg) (T : Fin cfg.totalProposer → Nat) (V : Fin cfg.totalAcceptor → Prop)
    (i e : Nat) : Prop where
  voted : ∀ a, V a → s.VotedAt i e a
  ended : ∀ k, s.Over k i (T k) ∧ T k ≤ (s.props k i).term
  refused : s.Refuses T V i e
  unchosen : ¬ s.Chosen i e

section

variable {s s' : Synod cfg} {T : Fin cfg.totalProposer → Nat} {V : Fin cfg.totalAcceptor → Prop}
  {i e : Nat} {l : SynodOp cfg} {c : Bcast cfg}

/-! ## What the acceptors refuse -/

/-- No later round has the approvals of a majority. -/
theorem Refuses.not_backed (h : s.Refuses T V i e) (hV : Blocking V) (hsane : s.Sane)
    (hc : c ∈ s.bcasts) (hi : c.inst = i) (he : c.msg.pp.pentry = e) (hlate : T c.src < c.round)
    (t : PaxosMsgType) : ¬ s.Backed c t := by
  intro hbacked
  obtain ⟨b, c', hb, ho, hround, _, hcount⟩ := hbacked
  obtain ⟨Q, hQ, hall⟩ := hcount.majority
  obtain ⟨a, ha, hVa⟩ := hV Q hQ
  obtain ⟨_, x, hx, rfl, rfl, happ⟩ := hall a ha
  have hsame :=
    (hsane.rounds c.src c.inst).same c' (List.mem_of_getElem? hb) c hc ho ⟨rfl, rfl⟩ hround
  refine h x hx c' hb (ho.2.trans hi) (hsame.pentry.trans he) ?_ hVa happ
  rw [ho.1, hround]
  exact hlate

/-- What a later round asks to accept, it asks for under the lowest id. -/
theorem Refuses.accept_pid (h : s.Refuses T V i e) (hV : Blocking V) (hsane : s.Sane)
    (htally : s.Tally (lowest cfg) c.src c.inst) (hc : c ∈ s.bcasts) (hi : c.inst = i)
    (he : c.msg.pp.pentry = e) (hlate : T c.src < c.round) (ht : c.msg.type = .acceptReq) :
    c.msg.pp.pid = 1 := by
  rcases htally.accept c hc ⟨rfl, rfl⟩ ht with ⟨hlow, hpid⟩ | hbacked
  · rw [hpid, hlow]
  · exact absurd hbacked (h.not_backed hV hsane hc hi he hlate _)

/-- An acceptor that has voted approves neither a PREPARE nor an ACCEPT under the lowest id. -/
theorem Keeper.refuses {a : Fin cfg.totalAcceptor} {hd : Handled}
    (h : s.Keeper c.inst c.msg.pp.pentry a) (hstored : s.Stored)
    (hin : InSync ((s.accs a).mngs c.inst)) (hv : s.VotedAt c.inst c.msg.pp.pentry a)
    (hsv : Served ((s.accs a).mngs c.inst) Saves.good c.msg.pp c.msg.type hd)
    (hopen : Opens ((s.accs a).mngs c.inst) c.msg → Remembers ((s.accs a).mngs c.inst) c.msg.pp.pentry)
    (hlow : c.msg.type = .acceptReq → c.msg.pp.pid = 1) (hok : hd.rsp.errcode = ErrCode.ok) :
    (c.msg.type = .prepareReq → hd.rsp.pp.status ≠ .promised) ∧
      (c.msg.type = .acceptReq → hd.rsp.pp.status ≠ .accepted) := by
  obtain ⟨v, hmem, hat⟩ := hv
  obtain ⟨x, hx, q, hq, hle, _⟩ := h.vote v hmem hat
  have hpos := hstored.votes v hmem
  have hvote : Opens ((s.accs a).mngs c.inst) c.msg →
      (((s.accs a).mngs c.inst).opened c.msg.pp.pentry).accepted = some q := by
    intro ho
    have hc := hin.opened (hopen ho)
    rw [hx] at hc
    exact hc.1.trans hq
  refine ⟨fun ht => ?_, fun ht => ?_⟩
  · rw [ht] at hsv
    refine hsv.refuses_opened fun hb => ?_
    rw [hvote (.inr ⟨.inl ht, hb⟩)]
    exact Option.some_ne_none q
  · rw [ht] at hsv
    refine hsv.refuses_accept (fun hb => ⟨q, hvote (.inr ⟨.inr ht, hb⟩), ?_⟩) hok
    rw [hlow ht]
    omega

/-! ## Every step -/

theorem Stalled.refuses (h : s.Stalled T V i e) (hV : Blocking V) (hsane : s.Sane)
    (hstored : s.Stored) (htally : ∀ k i, s.Tally (lowest cfg) k i)
    (hin : ∀ a i, InSync ((s.accs a).mngs i)) (hkeeper : ∀ a, s.Keeper i e a)
    (hs : s.step l = some s') (hk : Remembering s l s') : s'.Refuses T V i e := by
  intro x hx c hc hi he hlate hVx
  obtain ⟨new, hg⟩ := step_grows hs
  have hold : x ∈ s.rsps → ¬ x.Approving := fun hx =>
    h.refused x hx c (hsane.request hg hx hc) hi he hlate hVx
  have hsane' : s'.Sane := hsane.step hs hk.logs
  have hans := hsane'.requests.answerOk hx hc
  cases step_net hs with
  | other _ _ hrsps | restart _ _ _ _ _ _ _ _ hrsps => exact hold (hrsps ▸ hx)
  | deliver bid acc saves c₀ hc₀ _ hrsps _ hbcasts =>
    obtain rfl := hk.saves _ _ _ rfl
    rw [hrsps] at hx
    rcases List.mem_append.mp hx with hx | hx
    · exact hold hx
    obtain ⟨rsp, hrsp, rfl⟩ := List.mem_map.mp hx
    rw [hbcasts] at hc
    obtain rfl := Option.some.inj (hc₀.symm.trans hc)
    have hmem := List.mem_of_getElem? hc
    obtain ⟨hd, hsv, _, hpp, herr⟩ := hsane.requests.handled_rsp hmem (Option.mem_toList.mp hrsp)
    subst hi he
    have hlow := h.refused.accept_pid hV hsane (htally _ _) hmem rfl rfl hlate
    intro happ
    obtain ⟨hok, hkind⟩ := happ
    obtain ⟨hprep, hacc⟩ := (hkeeper acc).refuses hstored (hin acc _) (h.voted acc hVx) hsv
      (hk.opened _ _ _ _ rfl hc) hlow (herr ▸ hok)
    rcases hkind with ⟨ht, hst⟩ | ⟨ht, hst⟩
    · exact hprep (hans.prepare ht) (hpp ▸ hst)
    · exact hacc (hans.accept ht) (hpp ▸ hst)

theorem Stalled.step (h : s.Stalled T V i e) (hV : Blocking V) (hsane : s.Sane)
    (hstored : s.Stored) (htally : ∀ k i, s.Tally (lowest cfg) k i)
    (htally' : ∀ k i, s'.Tally (lowest cfg) k i) (hin : ∀ a i, InSync ((s.accs a).mngs i))
    (hkeeper : ∀ a, s.Keeper i e a) (hs : s.step l = some s') (hk : Remembering s l s') :
    s'.Stalled T V i e := by
  obtain ⟨new, hg⟩ := step_grows hs
  have hsane' : s'.Sane := hsane.step hs hk.logs
  have hrefused := h.refuses hV hsane hstored htally hin hkeeper hs hk
  refine ⟨fun a ha => ?_, fun k => hsane.step_over hs (h.ended k).1 (h.ended k).2, hrefused, fun hch => ?_⟩
  · obtain ⟨v, hv, hat⟩ := h.voted a ha
    exact ⟨v, hg.votes hv, hat⟩
  · -- a CHOSEN that is new is of a later round, which no majority backs
    obtain ⟨c, hc, hi, ht, he⟩ := hch
    have hcb := hc
    rw [hg.bcasts] at hcb
    rcases List.mem_append.mp hcb with hcs | hnew
    · exact h.unchosen ⟨c, hcs, hi, ht, he⟩
    subst hi
    obtain ⟨hround, hreq⟩ := (hsane.new_bcast hs hg hnew ⟨rfl, rfl⟩).2 ht
    have hlate : T c.src < c.round := by
      rcases (h.ended c.src).1 with hlt | hnone
      · omega
      · exact absurd hnone hreq
    exact hrefused.not_backed hV hsane' hc rfl he hlate _ ((htally' _ _).chosen c hc ⟨rfl, rfl⟩ ht)

/-- A blocked entry stalls, its voters refusing the rounds to come. -/
theorem Blocked.stalled (h : s.Blocked i e) (hsane : s.Sane) :
    s.Stalled (fun k => (s.props k i).term) (s.VotedAt i e) i e := by
  refine ⟨fun _ ha => ha, fun k => ⟨.inr (h.idle k), Nat.le_refl _⟩, fun x hx c hc hi _ hlate => ?_,
    h.unchosen⟩
  subst hi
  have := (hsane.bcast (List.mem_of_getElem? hc)).round_le
  omega

end

/-! ## Runs -/

/-- What holds in every state of a steady run. -/
structure Steadied (s : Synod cfg) : Prop where
  sane : s.Sane
  stored : s.Stored
  tally : s.called.Nodup → ∀ k i, s.Tally (lowest cfg) k i
  inSync : ∀ a i, InSync ((s.accs a).mngs i)
  keeper : ∀ i e a, s.Keeper i e a
  contiguous : ∀ k i, s.Contiguous k i

theorem Steadied.of_reachable {s : Synod cfg} (h : ((sys cfg).restrict SteadyStep).Reachable s) :
    s.Steadied := by
  have hlog : ∀ (s : Synod cfg) l s', SteadyStep s l s' → ReadsLogs s l s' :=
    fun _ _ _ hok => hok.keeps.logs
  obtain ⟨hsane, htally⟩ := (tally_inductive hlog fun _ _ _ hok => hok.skips).reachable s h
  obtain ⟨_, hstored⟩ := (stored_inductive hlog).reachable s h
  obtain ⟨_, hin, hkeeper⟩ := (keeper_inductive fun _ _ _ hok => hok.keeps).reachable s h
  obtain ⟨_, hcont⟩ := (contiguous_inductive hlog fun _ _ _ hok => hok.told).reachable s h
  exact ⟨hsane, hstored, htally, hin, hkeeper, hcont⟩

section

variable {s s' : Synod cfg} {ls : List (SynodOp cfg)} {i e : Nat}

theorem run_called {ok : Synod cfg → SynodOp cfg → Synod cfg → Prop}
    (hr : ((sys cfg).restrict ok).Run s ls s') : s.called <+: s'.called := by
  induction hr with
  | nil => exact List.prefix_refl _
  | cons hs _ ih =>
    obtain ⟨_, hg⟩ := step_grows hs.1
    exact hg.called.trans ih

theorem Stalled.run {T : Fin cfg.totalProposer → Nat} {V : Fin cfg.totalAcceptor → Prop}
    (h : s.Stalled T V i e) (hV : Blocking V)
    (hreach : ((sys cfg).restrict SteadyStep).Reachable s)
    (hr : ((sys cfg).restrict SteadyStep).Run s ls s') (honce : s'.called.Nodup) :
    s'.Stalled T V i e := by
  induction hr with
  | nil => exact h
  | @cons s l s₁ ls s' hs hr ih =>
    have hreach₁ := hreach.step hs
    have hinv := Steadied.of_reachable hreach
    have hinv₁ := Steadied.of_reachable hreach₁
    have hnd₁ := honce.sublist (run_called hr).sublist
    obtain ⟨_, hg⟩ := step_grows hs.1
    have hnd := hnd₁.sublist hg.called.sublist
    exact ih (h.step hV hinv.sane hinv.stored (hinv.tally hnd) (hinv₁.tally hnd₁) hinv.inSync
      (hinv.keeper i e) hs.1 hs.2.keeps) hreach₁ honce

theorem Steadied.pos (h : s.Steadied) {a : Fin cfg.totalAcceptor} (hv : s.VotedAt i e a) : 0 < e := by
  obtain ⟨v, hmem, hat⟩ := hv
  obtain ⟨x, hx, q, hq, _⟩ := (h.keeper i e a).vote v hmem hat
  obtain ⟨r, hr⟩ := h.stored.held a i e q ⟨x, .inr hx, hq⟩
  obtain ⟨d, hd, _⟩ := next_of_bcast h.contiguous hr.mem
  have := hr.entry
  omega

/-- Once every majority has a vote for an entry while no round of its instance is running and
none has had it chosen, no round to come has it chosen, and the instance never gets past it. -/
theorem stalls (h : ((sys cfg).restrict SteadyStep).Reachable s)
    (hr : ((sys cfg).restrict SteadyStep).Run s ls s') (honce : s'.called.Nodup)
    (hb : s.Blocked i e) :
    ¬ s'.Chosen i e ∧ (∀ c ∈ s'.bcasts, c.inst = i → c.msg.pp.pentry ≤ e) ∧
      ∀ k, (s'.props k i).lastChosenEntry < e := by
  have hinv := Steadied.of_reachable h
  have hinv' := Steadied.of_reachable (h.run hr)
  have hno := ((hb.stalled hinv.sane).run hb.voted h hr honce).unchosen
  have : Nonempty (Fin cfg.totalAcceptor) := ⟨⟨0, cfg.acceptor_pos⟩⟩
  obtain ⟨a, _, ha⟩ := hb.voted Finset.univ majority_univ
  have hpos := hinv.pos ha
  have hbelow : ∀ d, s'.Chosen i d → d < e := fun d hd =>
    Nat.lt_of_not_le fun hle => hno (chosen_below hinv'.contiguous hd e hpos hle)
  refine ⟨hno, fun c hc hi => ?_, fun k => ?_⟩
  · obtain ⟨d, hd, hprev⟩ := next_of_bcast hinv'.contiguous hc
    rcases hprev with rfl | hch
    · omega
    · rw [hi] at hch
      have := hbelow d hch
      omega
  · rcases (hinv'.contiguous k i).last with hzero | hch
    · omega
    · exact hbelow _ hch

end

/-! ## Two acceptances, nobody told -/

/-- A run of three acceptors, with its steps checked. -/
def ranSteps (s : Synod (Configure.init 0)) (ops : List (SynodOp (Configure.init 0))) :
    Option (Synod (Configure.init 0)) :=
  LTS.exec (fun s l => (s.step l).filter fun _ => s.remembering l && s.skipsLowest l && s.told l) s ops

theorem run_of_ranSteps {s s' : Synod (Configure.init 0)} {ops : List (SynodOp (Configure.init 0))}
    (h : ranSteps s ops = some s') : ((sys _).restrict SteadyStep).Run s ops s' := by
  refine LTS.run_of_guarded (f := step) (g := fun s l _ => s.remembering l && s.skipsLowest l && s.told l)
    (fun s l s' _ hk => ?_) h
  obtain ⟨hk, h3⟩ := Bool.and_eq_true_iff.mp hk
  obtain ⟨h1, h2⟩ := Bool.and_eq_true_iff.mp hk
  exact ⟨remembering_of_remembering h1, skipsWithin_of_skipsLowest h2, told_of_told h3⟩

/-- Acceptors 0 and 1 accept the value, and the round times out before their answers arrive. -/
def timedOut : Synod (Configure.init 0) :=
  (ranSteps (start _ fun _ => 7) [.propose ⟨0, first_of_three⟩ 0 [7] 0 0 false,
    .deliver 0 ⟨0, first_of_three⟩ Saves.good, .deliver 0 ⟨1, second_of_three⟩ Saves.good, .reply 0, .reply 1,
    .deliver 1 ⟨0, first_of_three⟩ Saves.good, .deliver 1 ⟨1, second_of_three⟩ Saves.good,
    .timeout ⟨0, first_of_three⟩ 0 0 1]).get (by decide +kernel)

/-- Proposer 1 calls, and all three acceptors answer. -/
def calledAgain : Synod (Configure.init 0) :=
  (ranSteps timedOut [.propose ⟨1, second_of_three⟩ 0 [8] 0 1 false,
    .deliver 2 ⟨0, first_of_three⟩ Saves.good, .deliver 2 ⟨1, second_of_three⟩ Saves.good,
    .deliver 2 ⟨2, by decide⟩ Saves.good, .reply 4, .reply 5, .reply 6]).get (by decide +kernel)

theorem blocked_timedOut : timedOut.Blocked 0 1 := by
  have hmaj : Majority firstTwo := show Fintype.card _ / 2 + 1 ≤ firstTwo.card by decide
  refine ⟨hmaj.blocking ?_, by decide +kernel, ?_⟩
  · unfold VotedAt Vote.At
    decide +kernel
  · unfold Chosen
    decide +kernel

theorem stalls_timedOut : calledAgain.bcasts.map (·.msg.type) = [.prepareReq, .acceptReq, .prepareReq] ∧
    (calledAgain.props ⟨1, second_of_three⟩ 0).req = none ∧ ¬ calledAgain.Chosen 0 1 := by
  have hone := run_of_ranSteps (show _ = some timedOut from (Option.some_get _).symm)
  have htwo := run_of_ranSteps (show _ = some calledAgain from (Option.some_get _).symm)
  exact ⟨by decide +kernel, by decide +kernel,
    (stalls ⟨_, _, ⟨_, rfl⟩, hone⟩ htwo (by decide +kernel) blocked_timedOut).1⟩

end Synod
end Quarrel
