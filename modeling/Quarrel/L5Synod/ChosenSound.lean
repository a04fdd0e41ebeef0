import Quarrel.L5Synod.Tally

/-!
# The CHOSEN broadcasts

* `Order`: the entries one instance broadcasts as chosen strictly increase, those for
  the "no entry" number apart, which the proposer does not take note of. The entry of
  the request outstanding is above all of them, whatever entries the proposer is told
  about.
* `chosen_sound`: a CHOSEN is broadcast after a majority has accepted the very
  proposal, once in a round, and in the order of the entries.
-/
namespace Quarrel

open InstanceState EntryMng

variable {cfg : Configure}

namespace Synod

/-- The CHOSEN broadcasts of instance `i` of proposer `k`, in order. -/
def chosenOf (s : Synod cfg) (k : Fin cfg.totalProposer) (i : Nat) : List (Bcast cfg) :=
  s.bcasts.filter fun c => c.src = k ∧ c.inst = i ∧ c.msg.type = .chosenReq

structure Order (s : Synod cfg) (k : Fin cfg.totalProposer) (i : Nat) : Prop where
  below : ∀ c ∈ s.chosenOf k i, c.msg.pp.pentry ≠ noEntry → c.msg.pp.pentry ≤ (s.props k i).lastChosenEntry
  ahead : ∀ q, (s.props k i).req = some q → ∀ c ∈ s.chosenOf k i, c.msg.pp.pentry ≠ noEntry →
    c.msg.pp.pentry < q.pp.pentry
  increasing : (s.chosenOf k i).Pairwise fun c c' => c.msg.pp.pentry ≠ noEntry →
    c'.msg.pp.pentry ≠ noEntry → c.msg.pp.pentry < c'.msg.pp.pentry

section

variable {s s' : Synod cfg} {k : Fin cfg.totalProposer} {i : Nat} {new : List (Bcast cfg)}

/-! ## The order of the entries -/

theorem chosenOf_grow (hg : Grows s s' new) (hnew : ∀ c ∈ new, ¬ (c.Of k i ∧ c.msg.type = .chosenReq)) :
    s'.chosenOf k i = s.chosenOf k i := by
  have hnil : (new.filter fun c => decide (c.src = k ∧ c.inst = i ∧
      c.msg.type = .chosenReq)) = [] := by
    refine List.filter_eq_nil_iff.mpr fun c hc h => ?_
    obtain ⟨h1, h2, h3⟩ := of_decide_eq_true h
    exact hnew c hc ⟨⟨h1, h2⟩, h3⟩
  unfold chosenOf
  rw [hg.bcasts, List.filter_append, hnil, List.append_nil]

theorem Order.quiet (h : s.Order k i) (hg : Grows s s' new)
    (hnew : ∀ c ∈ new, ¬ (c.Of k i ∧ c.msg.type = .chosenReq))
    (hlast : (s.props k i).lastChosenEntry ≤ (s'.props k i).lastChosenEntry)
    (hreq : ∀ q', (s'.props k i).req = some q' →
      (∃ q, (s.props k i).req = some q ∧ q'.pp.pentry = q.pp.pentry) ∨
        (s.props k i).lastChosenEntry < q'.pp.pentry) : s'.Order k i := by
  have he := chosenOf_grow hg hnew
  refine ⟨fun c hc hne => ?_, fun q' hq' c hc hne => ?_, by rw [he]; exact h.increasing⟩
  · rw [he] at hc
    exact Nat.le_trans (h.below c hc hne) hlast
  · rw [he] at hc
    rcases hreq q' hq' with ⟨q, hq, hpe⟩ | hlt
    · rw [hpe]
      exact h.ahead q hq c hc hne
    · exact Nat.lt_of_le_of_lt (h.below c hc hne) hlt

theorem Order.kept {n : Nat} (h : s.Order k i) (hg : Grows s s' new)
    (hnew : ∀ c ∈ new, ¬ (c.Of k i ∧ c.msg.type = .chosenReq))
    (hk : Kept n (s.props k i) (s'.props k i)) : s'.Order k i := by
  refine h.quiet hg hnew hk.chosen fun q' hq' => ?_
  obtain ⟨q, hq, hsame⟩ := hk.req q' hq'
  exact .inl ⟨q, hq, hsame.pentry⟩

theorem Order.step {l : SynodOp cfg} (h : s.Order k i) (hsane : s.Sane) (hst : InstStep s s' l k i) :
    s'.Order k i := by
  have hnone : ∀ c ∈ ([] : List (Bcast cfg)), ¬ (c.Of k i ∧ c.msg.type = .chosenReq) :=
    fun _ hc => by cases hc
  have hone : ∀ m : PaxosMsg, m.type ≠ .chosenReq →
      ∀ c ∈ [(⟨k, i, (s'.props k i).term, m⟩ : Bcast cfg)], ¬ (c.Of k i ∧
        c.msg.type = .chosenReq) := by
    intro m hm c hc hch
    obtain rfl := List.mem_singleton.mp hc
    exact hm hch.2
  cases hst with
  | same new hg hst hnew =>
    exact h.kept (n := 0) hg (fun c hc hch => hnew c hc hch.1) (by rw [hst]; exact Kept.refl 0 _)
  | moved ev sent hg hc hm =>
    cases hm with
    | kept hk => exact h.kept hg hnone hk
    | counted _ _ _ _ _ _ hk => exact h.kept hg hnone hk
    | accepting q a m hev hq hph hv hown hmaj hpos hm hw hkept =>
      have hnot : m.type ≠ .chosenReq := fun ht => by rw [hm] at ht; cases ht
      refine h.quiet hg (hone m hnot) (Nat.le_of_eq hkept.2.2.2.2.symm) fun q' hq' => ?_
      rw [hw.req] at hq'
      obtain rfl := Option.some.inj hq'
      exact .inl ⟨q, hq, by rw [hm]; rfl⟩
    | prepare m opaqueData val promise hev hi hidle hm hs =>
      have hnot : (asPrepareReq m).type ≠ .chosenReq := fun ht => by rw [hm] at ht; cases ht
      refine h.quiet hg (hone _ hnot) (by rw [hs]; exact Nat.le_refl _) fun q' hq' => .inr ?_
      rw [hs] at hq'
      obtain rfl := Option.some.inj hq'
      rw [hm]
      exact Nat.lt_succ_self _
    | fast m opaqueData val promise hev hi hidle hm hval hskip hs =>
      have hnot : m.type ≠ .chosenReq := fun ht => by rw [hm] at ht; cases ht
      refine h.quiet hg (hone m hnot) (by rw [hs]; exact Nat.le_refl _) fun q' hq' => .inr ?_
      rw [hs] at hq'
      obtain rfl := Option.some.inj hq'
      rw [hm]
      exact Nat.lt_succ_self _
    | chosen q a hev hq hph hv hmaj hk hreq hlast =>
      obtain ⟨x, rfl, hr⟩ := hc.answer a hev
      obtain ⟨c, hx, _, hcur⟩ := hsane.answered hr.awaited hq (.inr ⟨hph, hv⟩)
      have hentry : x.msg.pp.pentry = q.pp.pentry :=
        ((hx.vote hv.type hv.errcode hv.status).1.trans hcur.same.symm).pentry
      have hle : x.msg.pp.pentry ≠ noEntry → x.msg.pp.pentry ≤ (s'.props k i).lastChosenEntry := by
        intro hne
        by_cases h0 : x.msg.pp.pentry = 0
        · omega
        · exact hlast h0 hne
      have he : s'.chosenOf k i =
          s.chosenOf k i ++ [⟨k, i, (s'.props k i).term, asChosenReq (cfg.on k) x.msg⟩] := by
        unfold chosenOf
        rw [hg.bcasts, List.filter_append]
        congr 1
        exact List.filter_cons_of_pos (decide_eq_true ⟨rfl, rfl, rfl⟩)
      refine ⟨fun c hc hne => ?_, fun q' hq' => ?_, ?_⟩
      · rw [he] at hc
        rcases List.mem_append.mp hc with hc | hc
        · exact Nat.le_trans (h.below c hc hne) hk.chosen
        · obtain rfl := List.mem_singleton.mp hc
          exact hle hne
      · rw [hreq] at hq'
        cases hq'
      · rw [he, List.pairwise_append]
        refine ⟨h.increasing, List.pairwise_singleton _ _, fun c hc c' hc' hne _ => ?_⟩
        obtain rfl := List.mem_singleton.mp hc'
        have := h.ahead q hq c hc hne
        show c.msg.pp.pentry < x.msg.pp.pentry
        omega

end

theorem order_inductive {ok : Synod cfg → SynodOp cfg → Synod cfg → Prop}
    (hlog : ∀ s l s', ok s l s' → ReadsLogs s l s') :
    ((sys cfg).restrict ok).Inductive fun s => s.Sane ∧ ∀ k i, s.Order k i := by
  refine (sane_inductive hlog).rel ?_ ?_
  · intro s hinit k i
    obtain ⟨sec, rfl⟩ := hinit
    exact ⟨(fun c hc => by cases hc), (fun q hq => by cases hq), List.Pairwise.nil⟩
  · intro s l s' hsane _ h hstep k i
    exact (h k i).step hsane (hsane.instStep hstep.1 k i)

/-! ## The votes behind a CHOSEN -/

/-- A majority has accepted the very proposal `pp`. -/
def AcceptedByMajority (s : Synod cfg) (pp : Proposal) : Prop :=
  ∃ Q : Finset (Fin cfg.totalAcceptor), Majority Q ∧
    ∀ a ∈ Q, ⟨a, pp.pinst, pp.pentry, pp.pid, pp.valueId⟩ ∈ s.votes

/-- An approved ACCEPT was accepted by a majority. -/
theorem Backed.votes {s : Synod cfg} {c : Bcast cfg} (h : s.Backed c .acceptReq) (hsane : s.Sane)
    (hc : c ∈ s.bcasts) : s.AcceptedByMajority c.msg.pp := by
  obtain ⟨b, c', hb, ho, hr, ht, hcount⟩ := h
  obtain ⟨Q, hQ, hall⟩ := hcount.majority
  have hsame := (hsane.rounds c.src c.inst).same c' (List.mem_of_getElem? hb) c hc ho ⟨rfl, rfl⟩ hr
  refine ⟨Q, hQ, fun a ha => ?_⟩
  obtain ⟨_, x, hx, rfl, rfl, herr, hkind⟩ := hall a ha
  have hok := hsane.requests.answerOk hx hb
  rcases hkind with ⟨hp, _⟩ | ⟨hp, hst⟩
  · have := hok.prepare hp
    rw [ht] at this
    cases this
  · have hv := (hok.vote hp herr hst).2
    rw [hsame.pinst, hsame.pentry, hsame.pid, hsame.valueId] at hv
    exact hv

/-- Before a step broadcasts a CHOSEN, a majority has accepted the very proposal. A round
broadcasts one CHOSEN, and the entries of an instance's CHOSENs increase, up to the "no entry"
number. -/
theorem chosen_sound {s s' : Synod cfg} {l : SynodOp cfg}
    (h : ((sys cfg).restrict ReadsLogs).Reachable s)
    (hs : ((sys cfg).restrict ReadsLogs).step s l s')
    (honce : s'.called.Nodup) :
    (∀ c ∈ s'.bcasts, c.msg.type = .chosenReq → s.AcceptedByMajority c.msg.pp) ∧
      (∀ (b b' : Nat) (c c' : Bcast cfg), s'.bcasts[b]? = some c → s'.bcasts[b']? = some c' →
        c.msg.type = .chosenReq → c'.msg.type = .chosenReq → c'.src = c.src → c'.inst = c.inst →
        c'.round = c.round → b' = b) ∧
      ∀ k i, (s'.chosenOf k i).Pairwise fun c c' => c.msg.pp.pentry ≠ noEntry →
        c'.msg.pp.pentry ≠ noEntry → c.msg.pp.pentry < c'.msg.pp.pentry := by
  have hlog : ∀ (t : Synod cfg) l t', ReadsLogs t l t' → ReadsLogs t l t' := fun _ _ _ h => h
  have hfast : ∀ (t : Synod cfg) l t', ReadsLogs t l t' → SkipsWithin (fun _ _ => True) t l :=
    fun _ _ _ _ _ _ _ _ _ _ _ _ => trivial
  have htally := (tally_inductive hlog hfast).reachable
  have hs' := h.step hs
  obtain ⟨hsane, hold⟩ := htally s h
  obtain ⟨hsane', hnew⟩ := htally s' hs'
  obtain ⟨new, hg⟩ := step_grows hs.1
  refine ⟨fun c hc ht => ?_, fun b b' c c' hb hb' ht ht' hsrc hinst hr => ?_, fun k i => ?_⟩
  · have hv := ((hnew honce c.src c.inst).chosen c hc ⟨rfl, rfl⟩ ht).votes hsane' hc
    -- only a delivery adds votes, and it broadcasts nothing
    cases step_net hs.1 with
    | other _ _ _ hvotes =>
      unfold AcceptedByMajority
      rw [← hvotes]
      exact hv
    | restart _ _ _ _ _ _ _ _ _ hvotes =>
      unfold AcceptedByMajority
      rw [← hvotes]
      exact hv
    | deliver _ _ _ _ _ _ _ _ hbcasts =>
      rw [hbcasts] at hc
      exact ((hold (honce.sublist hg.called.sublist) c.src c.inst).chosen c hc ⟨rfl, rfl⟩ ht).votes
        hsane hc
  · exact (hsane'.rounds c.src c.inst).unique b' b c' c hb' hb ⟨hsrc, hinst⟩ ⟨rfl, rfl⟩ hr
      (ht'.trans ht.symm)
  · exact (((order_inductive hlog).reachable s' hs').2 k i).increasing

/-- Proposer 0 proposes a value on instance 0; acceptors 0 and 1 promise and accept it. -/
def firstRound : List (SynodOp (Configure.init 0)) :=
  [.propose ⟨0, first_of_three⟩ 0 [7] 0 0 false,
    .deliver 0 ⟨0, first_of_three⟩ Saves.good, .deliver 0 ⟨1, second_of_three⟩ Saves.good, .reply 0, .reply 1,
    .deliver 1 ⟨0, first_of_three⟩ Saves.good, .deliver 1 ⟨1, second_of_three⟩ Saves.good, .reply 2]

def ranFirstRound : Option (Synod (Configure.init 0)) :=
  LTS.exec (fun s l => (s.step l).filter fun _ => !isRestart l) (start _ fun _ => 7) firstRound

/-- The proposer has one acceptance, and the callback of the second is next. -/
def oneAcceptance : Synod (Configure.init 0) := ranFirstRound.get (by decide +kernel)

def twoAcceptances : Synod (Configure.init 0) :=
  (oneAcceptance.step (.reply 3)).get (by decide +kernel)

theorem chosen_sound_first : (twoAcceptances.chosenOf ⟨0, by decide⟩ 0).length = 1 ∧
    ∀ c ∈ twoAcceptances.bcasts, c.msg.type = .chosenReq →
    oneAcceptance.AcceptedByMajority c.msg.pp := by
  have hrun : ((sys (Configure.init 0)).restrict ReadsLogs).Run (start _ fun _ => 7) firstRound
      oneAcceptance :=
    LTS.run_of_guarded (g := fun _ l _ => !isRestart l) (fun _ _ _ _ h => readsLogs_of_not_restart h)
      (Option.some_get _).symm
  refine ⟨by decide +kernel, (chosen_sound (l := .reply 3) ⟨_, _, ⟨_, rfl⟩, hrun⟩
    ⟨(Option.some_get _).symm, readsLogs_of_not_restart rfl⟩ (by decide +kernel)).1⟩

end Synod
end Quarrel
