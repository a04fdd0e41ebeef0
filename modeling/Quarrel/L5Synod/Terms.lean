import Quarrel.L5Synod.ChosenSound
import Quarrel.L5Synod.Fields

/-!
# The terms of the rounds

The callback of a broadcast carries the term of the message, and a response is
taken for the round outstanding by that term. The PREPARE carries the term of its
round. The ACCEPT carries the term of the request, into which every promise has
been merged: `CopyProposalMeta` takes the larger term, and an acceptor that keeps
an older promise answers with the term of the proposer it was given to.

* `TermsBound`: what the callbacks rely on.
* `OwnTerms`: no promise that is merged has a larger term than its round.
* `terms_bound`: in runs that meet it the terms are those of the rounds.
* `not_alwaysBound`: a refused PREPARE whose promise comes from a later round of
  another proposer.
-/
namespace Quarrel

open InstanceState EntryMng

variable {cfg : Configure}

namespace Synod

/-- A PREPARE and an ACCEPT carry the term of their round, and their answers are
taken for the round outstanding if and only if it is theirs. -/
def TermsBound (s : Synod cfg) : Prop :=
  ∀ c ∈ s.bcasts, c.msg.type = .prepareReq ∨ c.msg.type = .acceptReq →
    c.msg.pp.term + 1 = c.round ∧
      ((s.props c.src (cfg.mngOf c.msg.pp.pinst)).Awaits c.msg.pp.term ↔
        (s.props c.src (cfg.mngOf c.msg.pp.pinst)).req.isSome ∧
          c.round = (s.props c.src (cfg.mngOf c.msg.pp.pinst)).term)

/-- A promise to the round outstanding has no larger term than the PREPARE. -/
def OwnTerms (s : Synod cfg) (l : SynodOp cfg) (_ : Synod cfg) : Prop :=
  ∀ (rid : Nat) (x : Answer cfg) (c : Bcast cfg), l = .reply rid → s.rsps[rid]? = some x →
  s.bcasts[x.bid]? = some c →
    (s.props c.src c.inst).Awaits c.msg.pp.term → (s.props c.src c.inst).phase = preparingPhase →
    x.msg.type = .prepareRsp → x.msg.errcode = ErrCode.ok → x.msg.pp.status = .promised →
    x.msg.pp.term ≤ c.msg.pp.term

/-- The terms of instance `i` of proposer `k`. -/
structure Terms (s : Synod cfg) (k : Fin cfg.totalProposer) (i : Nat) : Prop where
  sent : ∀ c ∈ s.bcasts, c.Of k i → c.msg.type = .acceptReq → c.msg.pp.term + 1 = c.round
  waiting : ∀ q, (s.props k i).req = some q → (s.props k i).phase = preparingPhase →
    q.pp.term + 1 = (s.props k i).term

section

variable {s s' : Synod cfg} {l : SynodOp cfg} {k : Fin cfg.totalProposer} {i : Nat}
  {new : List (Bcast cfg)}

/-- A request in the PREPARE phase keeps the term of its round. -/
theorem Terms.follows (h : s.Terms k i) (hsane : s.Sane) (hs : s.step l = some s')
    (hok : OwnTerms s l s')
    {q q' : PaxosMsg} (hq : (s.props k i).req = some q) (hph : (s.props k i).phase = preparingPhase)
    (hq' : (s'.props k i).req = some q') : q'.pp.term + 1 = (s.props k i).term := by
  have hterm := h.waiting q hq hph
  rcases (step_req hs hq hq').term with ht | ⟨a, ha, ht⟩
  · rw [ht]
    exact hterm
  · obtain ⟨rid, x, c, hl, hx, hans, ho, rfl, haw, hkind⟩ := hsane.merged ha
    obtain ⟨rfl, rfl⟩ := ho
    rcases hkind with ⟨_, htype, herr, hst⟩ | ⟨hacc, _⟩
    · have hle := hok rid x c hl hx hans.bcast haw hph htype herr hst
      have hround := haw.1
      omega
    · rw [hph] at hacc
      exact absurd hacc (by decide)

theorem Terms.grow (h : s.Terms k i) (hg : Grows s s' new)
    (hnew : ∀ c ∈ new, c.Of k i → c.msg.type = .acceptReq → c.msg.pp.term + 1 = c.round)
    (hwait : ∀ q, (s'.props k i).req = some q → (s'.props k i).phase = preparingPhase →
      q.pp.term + 1 = (s'.props k i).term) : s'.Terms k i := by
  refine ⟨fun c hc ho ht => ?_, hwait⟩
  rw [hg.bcasts] at hc
  rcases List.mem_append.mp hc with hc | hc
  · exact h.sent c hc ho ht
  · exact hnew c hc ho ht

theorem Terms.quiet {n : Nat} (h : s.Terms k i) (hsane : s.Sane) (hs : s.step l = some s')
    (hok : OwnTerms s l s') (hg : Grows s s' new) (hnew : ∀ c ∈ new, ¬ c.Of k i)
    (hk : Kept n (s.props k i) (s'.props k i)) :
    s'.Terms k i := by
  refine h.grow hg (fun c hc ho => absurd ho (hnew c hc)) fun q' hq' hph => ?_
  obtain ⟨q, hq, _⟩ := hk.req q' hq'
  rw [phase_of_state (hk.state (by rw [hq']; simp))] at hph
  rw [hk.term]
  exact h.follows hsane hs hok hq hph hq'

theorem Terms.step (h : s.Terms k i) (hsane : s.Sane) (hs : s.step l = some s')
    (hok : OwnTerms s l s') :
    s'.Terms k i := by
  have hnone : ∀ c ∈ ([] : List (Bcast cfg)), ¬ c.Of k i := fun _ hc => by cases hc
  cases hsane.instStep hs k i with
  | same new hg hst hnew => exact h.quiet hsane hs hok hg hnew (by rw [hst]; exact Kept.refl 0 _)
  | moved ev sent hg hc hm =>
    cases hm with
    | kept hk => exact h.quiet hsane hs hok hg hnone hk
    | counted _ _ _ _ _ _ hk => exact h.quiet hsane hs hok hg hnone hk
    | accepting q a m hev hq hph hv hown hmaj hpos hm hw hkept =>
      have hterm := h.follows hsane hs hok hq hph hw.req
      refine h.grow hg ?_ fun q' _ hph' => ?_
      · intro c hc _ _
        obtain rfl := List.mem_singleton.mp hc
        exact hterm.trans hkept.2.1.symm
      · rw [hw.phase] at hph'
        exact absurd hph' (by decide)
    | chosen q a hev hq hph hv hmaj hk hreq hlast =>
      refine h.grow hg ?_ fun q' hq' => ?_
      · intro c hc _ ht
        obtain rfl := List.mem_singleton.mp hc
        cases ht
      · rw [hreq] at hq'
        cases hq'
    | prepare m opaqueData val promise hev hi hidle hm hs =>
      refine h.grow hg ?_ fun q' hq' _ => ?_
      · intro c hc _ ht
        obtain rfl := List.mem_singleton.mp hc
        rw [hm] at ht
        cases ht
      · rw [hs] at hq' ⊢
        obtain rfl := Option.some.inj hq'
        rw [hm]
        rfl
    | fast m opaqueData val promise hev hi hidle hm hval hskip hs =>
      refine h.grow hg ?_ fun q' hq' _ => ?_
      · intro c hc _ _
        obtain rfl := List.mem_singleton.mp hc
        rw [hm, hs]
        rfl
      · rw [hs] at hq' ⊢
        obtain rfl := Option.some.inj hq'
        rw [hm]
        rfl

theorem terms_bound_of (hsane : s.Sane) (h : ∀ k i, s.Terms k i) : s.TermsBound := by
  intro c hc htype
  have hround : c.msg.pp.term + 1 = c.round := by
    rcases htype with ht | ht
    · exact ((hsane.bcast hc).prepare ht).1
    · exact (h c.src c.inst).sent c hc ⟨rfl, rfl⟩ ht
  refine ⟨hround, ?_⟩
  unfold Awaits
  rw [hround]
  exact And.comm

end

theorem terms_inductive : ((sys cfg).restrict fun s l s' => ReadsLogs s l s' ∧ OwnTerms s l s').Inductive
    fun s => s.Sane ∧ ∀ k i, s.Terms k i := by
  refine (sane_inductive fun _ _ _ h => h.1).rel ?_ ?_
  · intro s hinit k i
    obtain ⟨sec, rfl⟩ := hinit
    exact ⟨(fun c hc => by cases hc), fun q hq => by cases hq⟩
  · intro s l s' hsane _ h hst k i
    exact (h k i).step hsane hst.1 hst.2.2

/-- In a run in which no promise to the round outstanding has a larger term than its
PREPARE, the callbacks of every PREPARE and ACCEPT carry the term of their round. -/
theorem terms_bound {s : Synod cfg}
    (h : ((sys cfg).restrict fun s l s' => ReadsLogs s l s' ∧ OwnTerms s l s').Reachable s) :
    s.TermsBound :=
  have ⟨hsane, hterms⟩ := terms_inductive.reachable s h
  terms_bound_of hsane hterms

/-- The step is no restart, and an answer has no larger term than its request. -/
def keepsTerm (s : Synod cfg) : SynodOp cfg → Bool
  | .reply rid =>
    match s.rsps[rid]? with
    | none => true
    | some x => s.bcasts[x.bid]?.all fun c => x.msg.pp.term ≤ c.msg.pp.term
  | l => !isRestart l

theorem ok_of_keepsTerm {s s' : Synod cfg} {l : SynodOp cfg} (h : keepsTerm s l = true) :
    ReadsLogs s l s' ∧ OwnTerms s l s' := by
  refine ⟨?_, ?_⟩
  · refine readsLogs_of_not_restart ?_
    cases l with
    | restart => exact h
    | _ => rfl
  · intro rid x c heq hx hc _ _ _ _ _
    subst heq
    unfold keepsTerm at h
    simp only [hx, hc, Option.all_some, decide_eq_true_eq] at h
    exact h

def ranInTerm : Option (Synod (Configure.init 0)) :=
  LTS.exec (fun s l => (s.step l).filter fun _ => keepsTerm s l) (start _ fun _ => 7)
    (firstRound ++ [.reply 3])

/-- The round of proposer 0: a PREPARE, an ACCEPT and a CHOSEN. -/
theorem terms_bound_first : (ranInTerm.get (by decide +kernel)).TermsBound :=
  terms_bound ⟨_, _, ⟨_, rfl⟩, LTS.run_of_guarded (g := fun s l _ => keepsTerm s l)
    (fun _ _ _ _ h => ok_of_keepsTerm h) (Option.some_get _).symm⟩

/-! ## A foreign term -/

/-- Proposer 2 calls, times out and calls again, and acceptor 0 promises its second
round. Proposer 0 calls: acceptor 0 answers with the promise it keeps, the other two
promise. -/
def foreignTerm : List (SynodOp (Configure.init 0)) :=
  [.propose ⟨2, third_of_three⟩ 0 [8] 0 0 false, .timeout ⟨2, third_of_three⟩ 0 0 1,
    .propose ⟨2, third_of_three⟩ 0 [8] 0 1 false, .deliver 1 ⟨0, first_of_three⟩ Saves.good,
    .propose ⟨0, first_of_three⟩ 0 [7] 0 2 false, .deliver 2 ⟨0, first_of_three⟩ Saves.good,
    .deliver 2 ⟨1, second_of_three⟩ Saves.good, .deliver 2 ⟨2, third_of_three⟩ Saves.good, .reply 1,
    .reply 2, .reply 3]

def ranForeignTerm : Option (Synod (Configure.init 0)) :=
  LTS.exec (fun s l => (s.step l).filter fun _ => !isRestart l) (start _ fun _ => 7) foreignTerm

/-- The ACCEPT of proposer 0's first round carries term 1. -/
theorem not_alwaysBound :
    ¬ ∀ (cfg : Configure) (s : Synod cfg), ((sys cfg).restrict ReadsLogs).Reachable s →
    s.TermsBound := by
  intro hall
  have hrun : ((sys (Configure.init 0)).restrict ReadsLogs).Run (start _ fun _ => 7) foreignTerm
      (ranForeignTerm.get (by decide +kernel)) :=
    LTS.run_of_guarded (g := fun _ l _ => !isRestart l) (fun _ _ _ _ h => readsLogs_of_not_restart h)
      (Option.some_get _).symm
  have hbound := hall _ _ ⟨_, _, ⟨_, rfl⟩, hrun⟩
  obtain ⟨c, hc, ht, hne⟩ : ∃ c ∈ (ranForeignTerm.get (by decide +kernel)).bcasts,
      c.msg.type = .acceptReq ∧ c.msg.pp.term + 1 ≠ c.round := by decide +kernel
  exact hne (hbound c hc (.inr ht)).1

end Synod
end Quarrel
