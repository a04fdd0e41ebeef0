import Quarrel.L5Synod.Barrier
import Quarrel.L5Synod.ChosenSound

/-!
# Agreement

The one-phase path accepts under id `proposer_id_ + 1` without a PREPARE. That id
is the lowest of all for proposer 0 only: any other proposer renews, on that
path, proposals that were accepted, and chosen, under the lower ids. And a proposer
counts answers, not acceptors: one whose callback is invoked twice counts twice.

* `agreement`: where only proposers with id 0 take the one-phase path and no callback
  is invoked twice, one proposal is chosen at each entry, and the acceptors mark no other.
* `not_agreement`: three acceptors, and proposer 1 on the one-phase path.
-/
namespace Quarrel

open InstanceState EntryMng

variable {cfg : Configure}

namespace Synod

/-- `q`, held at entry `e` of instance `i`, was broadcast by `r`. It is marked CHOSEN
only once a CHOSEN has been broadcast for it. -/
structure StoredFrom (s : Synod cfg) (i e : Nat) (q : Proposal) (r : Bcast cfg) : Prop where
  mem : r ∈ s.bcasts
  type : r.msg.type = .acceptReq
  inst : r.inst = i
  entry : r.msg.pp.pentry = e
  content : q = { asAccepted r.msg.pp with status := q.status }
  chosen : q.status = .chosen → ∃ c ∈ s.bcasts, c.msg.type = .chosenReq ∧ c.inst = i ∧
    c.msg.pp.pentry = e ∧ c.msg.pp.pid = q.pid ∧ c.msg.pp.valueId = q.valueId

structure Stored (s : Synod cfg) : Prop where
  held : ∀ a i e q, HeldAccepted ((s.accs a).mngs i) e q → ∃ r, s.StoredFrom i e q r
  votes : ∀ v ∈ s.votes, 0 < v.pid

/-- The CHOSEN broadcast `c` comes from the proposal of the ACCEPT `r`. -/
def ComesFrom (s : Synod cfg) (c r : Bcast cfg) : Prop :=
  r ∈ s.bcasts ∧ r.msg.type = .acceptReq ∧ r.Of c.src c.inst ∧ r.round = c.round

structure Agreement (s : Synod cfg) : Prop where
  -- CHOSEN broadcasts for one entry come from proposals of one value
  value : ∀ c ∈ s.bcasts, ∀ c' ∈ s.bcasts, ∀ r r', c.msg.type = .chosenReq →
    c'.msg.type = .chosenReq →
    c.msg.pp.pinst = c'.msg.pp.pinst → c.msg.pp.pentry = c'.msg.pp.pentry → s.ComesFrom c r →
    s.ComesFrom c' r' → r.msg.pp.data = r'.msg.pp.data
  -- no two acceptors mark different proposals
  marked : ∀ a a' i e q q', HeldAccepted ((s.accs a).mngs i) e q →
    HeldAccepted ((s.accs a').mngs i) e q' →
    q.status = .chosen → q'.status = .chosen → q = q'

section

variable {s s' : Synod cfg} {i e : Nat}

/-! ## What the acceptors store -/

theorem StoredFrom.later {new : List (Bcast cfg)} {q : Proposal} {r : Bcast cfg}
    (h : s.StoredFrom i e q r) (hg : Grows s s' new) : s'.StoredFrom i e q r := by
  refine ⟨hg.mem h.mem, h.type, h.inst, h.entry, h.content, fun hc => ?_⟩
  obtain ⟨c, hmem, hc⟩ := h.chosen hc
  exact ⟨c, hg.mem hmem, hc⟩

theorem Stored.served {saves : Saves} {h : Handled} {m : EntryMng} {c : Bcast cfg}
    {t : PaxosMsgType}
    (hm : ∀ e q, HeldAccepted m e q → ∃ r, s.StoredFrom c.inst e q r) (hc : c ∈ s.bcasts)
    (ht : c.msg.type = t) (hs : Served m saves c.msg.pp t h) {q : Proposal}
    (hq : HeldAccepted h.mng e q) :
    ∃ r, s.StoredFrom c.inst e q r := by
  rcases hs.heldAccepted hq
      with hq | ⟨rfl, rfl, rfl⟩ | ⟨rfl, rfl, q₀, st, hq₀, hpid, hvid, hst, rfl⟩
  · exact hm e q hq
  · exact ⟨c, hc, ht, rfl, rfl, rfl, fun hch => by cases hch⟩
  · obtain ⟨r, hr⟩ := hm _ q₀ hq₀
    refine ⟨r, hr.mem, hr.type, hr.inst, hr.entry, ?_, fun _ => ⟨c, hc, ht, rfl, rfl, hpid, hvid⟩⟩
    have := hr.content
    generalize q₀.status = st₀ at this
    subst this
    rfl

theorem Stored.step {l : SynodOp cfg} (h : s.Stored) (hsane : s.Sane) (hs : s.step l = some s')
    (hlog : ReadsLogs s l s') : s'.Stored := by
  obtain ⟨new, hg⟩ := step_grows hs
  have hold : ∀ a i e q, HeldAccepted ((s.accs a).mngs i) e q → ∃ r, s'.StoredFrom i e q r := by
    intro a i e q hq
    obtain ⟨r, hr⟩ := h.held a i e q hq
    exact ⟨r, hr.later hg⟩
  refine ⟨fun a i e q hq => ?_, fun v hv => ?_⟩
  · cases hsane.requests.step_mng hs a i with
    | same _ hm => exact hold a i e q (hm ▸ hq)
    | served bid saves c hd hc hinst hsv hm =>
      subst hinst
      exact Stored.served (hold a c.inst) (hg.mem (List.mem_of_getElem? hc)) rfl hsv (hm ▸ hq)
    | restart batch lastCommitted fuel hm =>
      have hf := loadAllFromDisk_fromLog (hlog _ _ _ _ _ rfl) hm
      obtain ⟨x, hx, hxq⟩ := hq
      exact hold a i e q ⟨x, .inr (hf.stored hx), hxq⟩
  · cases step_net hs with
    | other _ _ _ hvotes | restart _ _ _ _ _ _ _ _ _ hvotes => exact h.votes v (hvotes ▸ hv)
    | deliver bid acc saves c hc _ _ hvotes =>
      rw [hvotes] at hv
      rcases List.mem_append.mp hv with hv | hv
      · exact h.votes v hv
      · obtain ⟨rfl, ht, _⟩ := mem_voteOf hv
        exact (hsane.bcast (List.mem_of_getElem? hc)).accept ht

theorem stored_inductive {ok : Synod cfg → SynodOp cfg → Synod cfg → Prop}
    (hlog : ∀ s l s', ok s l s' → ReadsLogs s l s') :
    ((sys cfg).restrict ok).Inductive fun s => s.Sane ∧ s.Stored := by
  refine (sane_inductive hlog).rel ?_ ?_
  · intro s hinit
    obtain ⟨sec, rfl⟩ := hinit
    refine ⟨?_, fun v hv => by cases hv⟩
    intro a i e q hq
    obtain ⟨x, hx, _⟩ := hq
    exact absurd hx new_empty
  · intro s l s' hsane _ h hstep
    obtain ⟨hs, hok⟩ := hstep
    exact h.step hsane hs (hlog s l s' hok)

/-! ## One proposal an id -/

/-- Broadcasts of one instance, id and value id are of one round. -/
theorem Sane.same_round (h : s.Sane) (hcookie : cfg.pidCookie = 0) {c c' : Bcast cfg}
    (hc : c ∈ s.bcasts) (hc' : c' ∈ s.bcasts) (hinst : c.inst = c'.inst) (hpos : 0 < c.msg.pp.pid)
    (hpid : c.msg.pp.pid = c'.msg.pp.pid) (hvid : c.msg.pp.valueId = c'.msg.pp.valueId) :
    c.src = c'.src ∧ c.round = c'.round := by
  have hok := h.bcast hc
  have hok' := h.bcast hc'
  have hid := (h.rounds c.src c.inst).proposerId
  have hid' := (h.rounds c'.src c'.inst).proposerId
  obtain ⟨j, hj⟩ := hok.pid hcookie hpos
  obtain ⟨j', hj'⟩ := hok'.pid hcookie (hpid ▸ hpos)
  rw [hid] at hj
  rw [hid', ← hinst] at hj'
  have hlt : ∀ k : Fin cfg.totalProposer, getMemberIdBySvrId cfg.totalProposer c.inst k < cfg.totalProposer :=
    fun k => memberId_lt k.isLt
  have hmember := IdGen.onStep_inj (hlt c.src) (hlt c'.src) (hj.symm.trans (hpid.trans hj'))
  have hsrc : c.src = c'.src := Fin.ext (memberId_inj c.src.isLt hmember)
  refine ⟨hsrc, ?_⟩
  have hv := hok.valueId
  have hv' := hok'.valueId
  rw [← hsrc, ← hinst] at hv'
  omega

/-- The ids an instance and an entry have been voted for, and by whom. -/
def voteAt (s : Synod cfg) (i e : Nat) : Fin cfg.totalAcceptor → Nat → Nat → Prop :=
  fun a p vid => ⟨a, i, e, p, vid⟩ ∈ s.votes

end

/-- Only proposers with id 0 take the one-phase path. -/
def lowest (cfg : Configure) (k : Fin cfg.totalProposer) (i : Nat) : Prop :=
  getMemberIdBySvrId cfg.totalProposer i k = 0

/-- What the chosen proposals rest on: the votes of acceptor `a` for entry `e` of instance `i`
are of one value an id, and none is below an id it has promised. -/
structure Sworn (s : Synod cfg) (i e : Nat) (a : Fin cfg.totalAcceptor) : Prop where
  one : ∀ v ∈ s.votes, ∀ v' ∈ s.votes, v.At a i e → v'.At a i e → v.pid = v'.pid →
    v.valueId = v'.valueId
  barred : ∀ x ∈ s.rsps, ∀ c, s.bcasts[x.bid]? = some c → x.Promises c a i e →
    ∀ v ∈ s.votes, v.At a i e → c.msg.pp.pid ≤ v.pid

section

variable {s : Synod cfg}

theorem Voter.sworn {i e : Nat} {a : Fin cfg.totalAcceptor} (h : s.Voter i e a) : s.Sworn i e a :=
  ⟨h.one, fun x hx c hc hp => (h.barred x hx c hc hp).2⟩

/-- Below the id of an ACCEPT nothing has been accepted by a majority. -/
theorem closedBelow_accept (hsane : s.Sane) (hstored : s.Stored) {r : Bcast cfg}
    (htally : s.Tally (lowest cfg) r.src r.inst) (hsworn : ∀ a, s.Sworn r.inst r.msg.pp.pentry a)
    (hr : r ∈ s.bcasts) (ht : r.msg.type = .acceptReq) :
    ClosedBelow (s.voteAt r.inst r.msg.pp.pentry) r.msg.pp.pid := by
  have hok := hsane.bcast hr
  rcases htally.accept r hr ⟨rfl, rfl⟩ ht with ⟨hlow, hpid⟩ | ⟨b, r', hb, ho, hround, hty, hcount⟩
  · have : Nonempty (Fin cfg.totalAcceptor) := ⟨⟨0, cfg.acceptor_pos⟩⟩
    refine ⟨Finset.univ, majority_univ, fun a _ p vid hv => ?_⟩
    have hpos : 0 < p := hstored.votes _ hv
    rw [hpid, hlow]
    omega
  · obtain ⟨Q, hQ, hall⟩ := hcount.majority
    have hsame :=
      (hsane.rounds r.src r.inst).same r' (List.mem_of_getElem? hb) r hr ho ⟨rfl, rfl⟩ hround
    refine ⟨Q, hQ, fun a ha p vid hv => ?_⟩
    obtain ⟨_, x, hx, rfl, rfl, herr, hkind⟩ := hall a ha
    have hx' := hsane.requests.answerOk hx hb
    rcases hkind with ⟨hp, hst⟩ | ⟨hp, _⟩
    · have hpromise : x.Promises r' x.acc r.inst r.msg.pp.pentry :=
        ⟨rfl, ho.2, hsame.pentry, by rw [hsame.pid]; exact hok.accept ht, hp, herr, hst⟩
      have := (hsworn x.acc).barred x hx r' hb hpromise _ hv ⟨rfl, rfl, rfl⟩
      rw [hsame.pid] at this
      exact this
    · have := hx'.accept hp
      rw [hty] at this
      cases this

/-- The ACCEPT a CHOSEN comes from, its votes and the barrier below it. -/
theorem chosen_closed (hsane : s.Sane) (hstored : s.Stored) {c : Bcast cfg}
    (htally : s.Tally (lowest cfg) c.src c.inst) (hsworn : ∀ e a, s.Sworn c.inst e a)
    (hc : c ∈ s.bcasts)
    (ht : c.msg.type = .chosenReq) :
    ∃ r, s.ComesFrom c r ∧ Same r.msg.pp c.msg.pp ∧
      VotedFor (s.voteAt c.inst c.msg.pp.pentry) c.msg.pp.pid c.msg.pp.valueId ∧
      ClosedBelow (s.voteAt c.inst c.msg.pp.pentry) c.msg.pp.pid := by
  have hbacked := htally.chosen c hc ⟨rfl, rfl⟩ ht
  obtain ⟨Q, hQ, hvotes⟩ := hbacked.votes hsane hc
  obtain ⟨b, r, hb, ho, hround, hty, _⟩ := hbacked
  have hr := List.mem_of_getElem? hb
  have hsame := (hsane.rounds c.src c.inst).same r hr c hc ho ⟨rfl, rfl⟩ hround
  have hclosed := closedBelow_accept hsane hstored (by rw [ho.1, ho.2]; exact htally)
    (by rw [ho.2]; exact hsworn _) hr hty
  rw [ho.2, hsame.pentry, hsame.pid] at hclosed
  refine ⟨r, ⟨hr, hty, ho, hround⟩, hsame, ⟨Q, hQ, fun a ha => ?_⟩, hclosed⟩
  have := hvotes a ha
  rw [(hsane.bcast hc).pinst] at this
  exact this

/-- The proposal of a CHOSEN broadcast is the one of any other for the same entry. -/
theorem chosen_unique (hcookie : cfg.pidCookie = 0) (hsane : s.Sane) (hstored : s.Stored)
    (htally : ∀ k i, s.Tally (lowest cfg) k i) (hsworn : ∀ i e a, s.Sworn i e a) {c c' : Bcast cfg}
    (hc : c ∈ s.bcasts) (hc' : c' ∈ s.bcasts) (ht : c.msg.type = .chosenReq)
    (ht' : c'.msg.type = .chosenReq)
    (hinst : c.inst = c'.inst) (hentry : c.msg.pp.pentry = c'.msg.pp.pentry) :
    c.src = c'.src ∧ c.round = c'.round ∧ c.msg.pp.pid = c'.msg.pp.pid ∧
      c.msg.pp.valueId = c'.msg.pp.valueId := by
  obtain ⟨r, hr, hsame, hvoted, hclosed⟩ :=
    chosen_closed hsane hstored (htally c.src c.inst) (hsworn c.inst) hc ht
  obtain ⟨r', _, _, hvoted', hclosed'⟩ :=
    chosen_closed hsane hstored (htally c'.src c'.inst) (hsworn c'.inst) hc' ht'
  rw [← hinst, ← hentry] at hvoted' hclosed'
  have hone : ∀ a p v v', s.voteAt c.inst c.msg.pp.pentry a p v →
      s.voteAt c.inst c.msg.pp.pentry a p v' → v = v' :=
    fun a p v v' hv hv' => (hsworn c.inst c.msg.pp.pentry a).one _ hv _ hv' ⟨rfl, rfl, rfl⟩ ⟨rfl, rfl, rfl⟩ rfl
  obtain ⟨hpid, hvid⟩ := hvoted.agree hone hvoted' hclosed hclosed'
  have hpos : 0 < c.msg.pp.pid := by
    rw [← hsame.pid]
    exact (hsane.bcast hr.1).accept hr.2.1
  obtain ⟨hsrc, hround⟩ := hsane.same_round hcookie hc hc' hinst hpos hpid hvid
  exact ⟨hsrc, hround, hpid, hvid⟩

theorem comesFrom_unique (hsane : s.Sane) {c c' r r' : Bcast cfg} (hr : s.ComesFrom c r)
    (hr' : s.ComesFrom c' r') (hsrc : c.src = c'.src) (hinst : c.inst = c'.inst)
    (hround : c.round = c'.round) :
    r = r' := by
  obtain ⟨hmem, hty, ho, hro⟩ := hr
  obtain ⟨hmem', hty', ho', hro'⟩ := hr'
  obtain ⟨b, hb⟩ := List.mem_iff_getElem?.mp hmem
  obtain ⟨b', hb'⟩ := List.mem_iff_getElem?.mp hmem'
  rw [← hsrc, ← hinst] at ho'
  obtain rfl := (hsane.rounds c.src c.inst).unique b b' r r' hb hb' ho ho'
    (hro.trans (hround.trans hro'.symm)) (hty.trans hty'.symm)
  rw [hb] at hb'
  exact Option.some.inj hb'

theorem agreement_of_sworn (hcookie : cfg.pidCookie = 0) (hsane : s.Sane) (hstored : s.Stored)
    (htally : ∀ k i, s.Tally (lowest cfg) k i) (hsworn : ∀ i e a, s.Sworn i e a) : s.Agreement := by
  refine ⟨fun c hc c' hc' r r' ht ht' hpin hentry hr hr' => ?_,
    fun a a' i e q q' hq hq' hst hst' => ?_⟩
  · have hinst : c.inst = c'.inst := by
      rw [← (hsane.bcast hc).pinst, ← (hsane.bcast hc').pinst, hpin]
    obtain ⟨hsrc, hround, _, _⟩ :=
      chosen_unique hcookie hsane hstored htally hsworn hc hc' ht ht' hinst hentry
    rw [comesFrom_unique hsane hr hr' hsrc hinst hround]
  · obtain ⟨r, hr⟩ := hstored.held a i e q hq
    obtain ⟨r', hr'⟩ := hstored.held a' i e q' hq'
    obtain ⟨c, hc, ht, hi, he, hpid, hvid⟩ := hr.chosen hst
    obtain ⟨c', hc', ht', hi', he', hpid', hvid'⟩ := hr'.chosen hst'
    obtain ⟨_, _, hpp, hvv⟩ := chosen_unique hcookie hsane hstored htally hsworn hc hc' ht ht'
      (hi.trans hi'.symm) (he.trans he'.symm)
    have hqr : ∀ {q : Proposal} {r : Bcast cfg}, s.StoredFrom i e q r →
        r.msg.pp.pid = q.pid ∧ r.msg.pp.valueId = q.valueId := by
      intro q r h
      rw [h.content]
      exact ⟨rfl, rfl⟩
    obtain ⟨h1, h2⟩ := hqr hr
    obtain ⟨h1', h2'⟩ := hqr hr'
    obtain ⟨hsrc, hround⟩ := hsane.same_round hcookie hr.mem hr'.mem (hr.inst.trans hr'.inst.symm)
      ((hsane.bcast hr.mem).accept hr.type) (by omega) (by omega)
    have hself : s.ComesFrom r r := ⟨hr.mem, hr.type, ⟨rfl, rfl⟩, rfl⟩
    have hself' : s.ComesFrom r' r' := ⟨hr'.mem, hr'.type, ⟨rfl, rfl⟩, rfl⟩
    obtain rfl := comesFrom_unique hsane hself hself' hsrc (hr.inst.trans hr'.inst.symm) hround
    rw [hr.content, hr'.content, hst, hst']

theorem agreement_of_invariants (hcookie : cfg.pidCookie = 0) (hsane : s.Sane) (hstored : s.Stored)
    (htally : ∀ k i, s.Tally (lowest cfg) k i) (hvoter : ∀ i e a, s.Voter i e a) : s.Agreement :=
  agreement_of_sworn hcookie hsane hstored htally fun i e a => (hvoter i e a).sworn

end

/-! ## Runs -/

/-- Every save succeeds, no acceptor restarts and nothing is evicted. -/
def KeepsEntries (s : Synod cfg) (l : SynodOp cfg) (s' : Synod cfg) :
    Prop := ∀ i e, KeepsEntryOf i e s l s'

/-- A callback is invoked for the first time. -/
def CallsOnce (s : Synod cfg) (l : SynodOp cfg) : Prop :=
  ∀ rid x, l = .reply rid → s.rsps[rid]? = some x → (x.bid, x.acc) ∉ s.called

theorem called_nodup {ok : Synod cfg → SynodOp cfg → Synod cfg → Prop}
    (hok : ∀ s l s', ok s l s' → CallsOnce s l) :
    ((sys cfg).restrict ok).Inductive fun s => s.called.Nodup := by
  refine ⟨fun s hinit => ?_, fun s l s' ih hs => ?_⟩
  · obtain ⟨sec, rfl⟩ := hinit
    exact List.nodup_nil
  · rcases step_called hs.1 with he | ⟨rid, x, hl, hx, _, he⟩
    · rw [he]
      exact ih
    · rw [he]
      refine List.nodup_append.mpr ⟨ih, List.nodup_singleton _, fun y hy z hz heq => ?_⟩
      obtain rfl := List.mem_singleton.mp hz
      exact hok s l s' hs.2 rid x hl hx (heq ▸ hy)

/-- What the steps of a run must keep for its states to agree. -/
structure KeepsAgreement (s : Synod cfg) (l : SynodOp cfg) (s' : Synod cfg) : Prop where
  entries : KeepsEntries s l s'
  skips : SkipsWithin (lowest cfg) s l
  once : CallsOnce s l

/-- In every run in which only proposers with id 0 take the one-phase path and no callback is
invoked twice, every state agrees. -/
theorem agreement {s : Synod cfg} (hcookie : cfg.pidCookie = 0)
    (h : ((sys cfg).restrict KeepsAgreement).Reachable s) : s.Agreement := by
  have hlog : ∀ (s : Synod cfg) l s', KeepsAgreement s l s' → ReadsLogs s l s' :=
    fun s l s' hok => readsLogs_of_keepsEntryOf (hok.entries 0 0)
  obtain ⟨hsane, htally⟩ := (tally_inductive hlog fun _ _ _ hok => hok.skips).reachable s h
  obtain ⟨_, hstored⟩ := (stored_inductive hlog).reachable s h
  have honce := (called_nodup fun _ _ _ hok => hok.once).reachable s h
  refine agreement_of_invariants hcookie hsane hstored (htally honce) fun i e => ?_
  exact ((voter_inductive fun _ _ _ hok => hok.entries i e).reachable s h).2.2

/-- Checks the steps of a run that only proposers with id 0 shorten. -/
def skipsLowest (s : Synod cfg) (l : SynodOp cfg) : Bool :=
  match l with
  | .propose k opaqueData val pinst _ _ =>
    (s.props k (pinst % cfg.plogInstNum)).SkipsPrepare (cfg.on k) (pinst % cfg.plogInstNum) opaqueData val →
      getMemberIdBySvrId cfg.totalProposer (pinst % cfg.plogInstNum) k = 0
  | _ => true

theorem skipsWithin_of_skipsLowest {s : Synod cfg} {l : SynodOp cfg} (h : skipsLowest s l = true) :
    SkipsWithin (lowest cfg) s l := by
  intro k opaqueData val pinst promise oom hl hskip
  subst hl
  exact of_decide_eq_true h hskip

def callsOnce (s : Synod cfg) (l : SynodOp cfg) : Bool :=
  match l with
  | .reply rid => ∀ x ∈ s.rsps[rid]?, (x.bid, x.acc) ∉ s.called
  | _ => true

theorem callsOnce_of_callsOnce {s : Synod cfg} {l : SynodOp cfg} (h : callsOnce s l = true) :
    CallsOnce s l := by
  intro rid x hl hx
  subst hl
  exact of_decide_eq_true h x hx

/-- Proposer 0 has one value chosen with a PREPARE, and the next one without. -/
def twoRounds : List (SynodOp (Configure.init 0)) :=
  firstRound ++ [.reply 3, .propose ⟨0, first_of_three⟩ 0 [8] 0 1 false,
    .deliver 3 ⟨0, first_of_three⟩ Saves.good, .deliver 3 ⟨1, second_of_three⟩ Saves.good, .reply 4, .reply 5]

def ranTwoRounds : Synod (Configure.init 0) :=
  (LTS.exec (fun s l => (s.step l).filter fun s' => s.keepsAll l s' && (s.skipsLowest l && s.callsOnce l))
    (start _ fun _ => 7) twoRounds).get (by decide +kernel)

theorem agreement_two_rounds :
    ranTwoRounds.bcasts.map (·.msg.type) = [.prepareReq, .acceptReq, .chosenReq, .acceptReq, .chosenReq] ∧
      ranTwoRounds.Agreement := by
  have hrun : ((sys _).restrict KeepsAgreement).Run (start _ fun _ => 7) twoRounds ranTwoRounds := by
    refine LTS.run_of_guarded (fun s l s' hs hk => ?_) (Option.some_get _).symm
    obtain ⟨h1, h2⟩ := Bool.and_eq_true_iff.mp hk
    obtain ⟨h2, h3⟩ := Bool.and_eq_true_iff.mp h2
    exact ⟨keepsEntryOf_of_keepsAll hs h1, skipsWithin_of_skipsLowest h2, callsOnce_of_callsOnce h3⟩
  exact ⟨by decide +kernel, agreement rfl ⟨_, _, ⟨_, rfl⟩, hrun⟩⟩

/-! ## Proposer 1 on the one-phase path -/

/-- A proposer is told of an entry by a CHOSEN that has been broadcast. -/
def Told (s : Synod cfg) (l : SynodOp cfg) : Prop :=
  ∀ k msg fromPlog, l = .entryChosen k msg fromPlog → ∃ c ∈ s.bcasts, c.msg.type = .chosenReq ∧
  c.msg = msg

def told (s : Synod cfg) (l : SynodOp cfg) : Bool :=
  match l with
  | .entryChosen _ msg _ => ∃ c ∈ s.bcasts, c.msg.type = .chosenReq ∧ c.msg = msg
  | _ => true

theorem told_of_told {s : Synod cfg} {l : SynodOp cfg} (h : told s l = true) : Told s l := by
  intro k msg fromPlog hl
  subst hl
  exact of_decide_eq_true h

/-- Proposer 1 has entry 1 chosen with id 2. -/
def entryOne : List (SynodOp (Configure.init 0)) :=
  [.propose ⟨1, second_of_three⟩ 0 [1] 0 0 false,
    .deliver 0 ⟨0, first_of_three⟩ Saves.good, .deliver 0 ⟨1, second_of_three⟩ Saves.good, .reply 0, .reply 1,
    .deliver 1 ⟨0, first_of_three⟩ Saves.good, .deliver 1 ⟨1, second_of_three⟩ Saves.good, .reply 2, .reply 3]

def afterEntryOne : Synod (Configure.init 0) :=
  (LTS.exec (fun s l => (s.step l).filter fun s' => s.keepsAll l s' && s.told l) (start _ fun _ => 7)
    entryOne).get (by decide +kernel)

/-- Proposer 0, told of it, has entry 2 chosen with id 1. Proposer 1 then has entry 2
chosen with id 2, without a PREPARE. -/
def entryTwo : List (SynodOp (Configure.init 0)) :=
  [.entryChosen ⟨0, first_of_three⟩ (afterEntryOne.bcasts.get ⟨2, by decide +kernel⟩).msg false,
    .propose ⟨0, first_of_three⟩ 0 [2] 0 1 false,
    .deliver 3 ⟨0, first_of_three⟩ Saves.good, .deliver 3 ⟨1, second_of_three⟩ Saves.good, .reply 4, .reply 5,
    .deliver 4 ⟨0, first_of_three⟩ Saves.good, .deliver 4 ⟨1, second_of_three⟩ Saves.good, .reply 6, .reply 7,
    .propose ⟨1, second_of_three⟩ 0 [3] 0 2 false,
    .deliver 6 ⟨0, first_of_three⟩ Saves.good, .deliver 6 ⟨1, second_of_three⟩ Saves.good, .reply 8, .reply 9]

def afterEntryTwo : Synod (Configure.init 0) :=
  (LTS.exec (fun s l => (s.step l).filter fun s' => s.keepsAll l s' && s.told l) afterEntryOne
    entryTwo).get (by decide +kernel)

theorem afterEntryTwo_length : afterEntryTwo.bcasts.length = 8 := by decide +kernel

/-- What has been broadcast by then. -/
def sentByThen (b : Fin 8) : Bcast (Configure.init 0) :=
  afterEntryTwo.bcasts.get (b.cast afterEntryTwo_length.symm)

theorem not_agreement : ¬ ∀ (cfg : Configure) (s : Synod cfg), cfg.pidCookie = 0 →
    cfg.totalProposer = cfg.totalAcceptor → cfg.totalAcceptor = 3 ∨ cfg.totalAcceptor = 5 →
    ((sys cfg).restrict fun s l s' => KeepsEntries s l s' ∧ Told s l).Reachable s → s.called.Nodup →
    s.Agreement := by
  intro hall
  have hrun : ∀ {s s' : Synod (Configure.init 0)} {ops : List (SynodOp (Configure.init 0))},
      LTS.exec (fun s l => (s.step l).filter fun s' => s.keepsAll l s' && s.told l) s ops = some s' →
      ((sys _).restrict fun s l s' => KeepsEntries s l s' ∧ Told s l).Run s ops s' := by
    intro s s' ops h
    refine LTS.run_of_guarded (fun s l s' hs hk => ?_) h
    obtain ⟨h1, h2⟩ := Bool.and_eq_true_iff.mp hk
    exact ⟨keepsEntryOf_of_keepsAll hs h1, told_of_told h2⟩
  have hone := hrun (show _ = some afterEntryOne from (Option.some_get _).symm)
  have htwo := hrun (show _ = some afterEntryTwo from (Option.some_get _).symm)
  have hagree := hall (Configure.init 0) afterEntryTwo rfl rfl (.inl rfl)
    ⟨_, _, ⟨_, rfl⟩, hone.append htwo⟩ (by decide +kernel)
  have hmem : ∀ b, sentByThen b ∈ afterEntryTwo.bcasts := fun b => List.get_mem _ _
  have hvalue :=
    hagree.value _ (hmem 5) _ (hmem 7) (sentByThen 4) (sentByThen 6) (by decide +kernel)
    (by decide +kernel) (by decide +kernel) (by decide +kernel)
    ⟨hmem 4, by decide +kernel, ⟨by decide +kernel, by decide +kernel⟩, by decide +kernel⟩
    ⟨hmem 6, by decide +kernel, ⟨by decide +kernel, by decide +kernel⟩, by decide +kernel⟩
  exact absurd hvalue (by decide +kernel)

end Synod
end Quarrel
