import Quarrel.L5Synod.Requests

/-!
# The rounds of a synod

Every `ProposeAsync` that is not turned down starts a round, numbered by the
term of its instance. A round broadcasts at most one PREPARE, one ACCEPT and one
CHOSEN, all of one proposal, and the terms and the value ids tell the rounds
apart.

* `Rounds`: what holds of one instance and its broadcasts.
* `Sane`: this of every instance, and `Requests`. `sane_inductive`: every step keeps it,
  whatever is saved, evicted, delivered twice or not at all.
* `Sane.answered`: a counted answer is for the broadcast the instance waits on.
-/
namespace Quarrel

open InstanceState EntryMng

variable {cfg : Configure}

/-- A broadcast of instance `i`, which is in state `st` by now. -/
structure BcastOk (i : Nat) (st : InstanceState) (c : Bcast cfg) : Prop where
  round_pos : 1 ≤ c.round
  round_le : c.round ≤ st.term
  pinst : c.msg.pp.pinst = i
  inst_lt : i < cfg.plogInstNum
  valueId : c.msg.pp.valueId + st.term + 1 = st.vig.id + c.round
  type : c.msg.type = .prepareReq ∨ c.msg.type = .acceptReq ∨ c.msg.type = .chosenReq
  prepare : c.msg.type = .prepareReq → c.msg.pp.term + 1 = c.round ∧ c.msg.pp.size = 0
  accept : c.msg.type = .acceptReq → 0 < c.msg.pp.pid
  pid : cfg.pidCookie = 0 → 0 < c.msg.pp.pid →
    ∃ j, c.msg.pp.pid = st.proposerId + 1 + j * cfg.totalProposer

theorem BcastOk.later {i : Nat} {st st' : InstanceState} {c : Bcast cfg} {d : Nat}
    (h : BcastOk i st c) (hp : st'.proposerId = st.proposerId) (ht : st'.term = st.term + d)
    (hv : st'.vig.id = st.vig.id + d) : BcastOk i st' c := by
  have hle := h.round_le
  have hvid := h.valueId
  exact ⟨h.round_pos, by omega, h.pinst, h.inst_lt, by omega, h.type, h.prepare, h.accept, hp ▸ h.pid⟩

theorem BcastOk.request {st : InstanceState} {c : Bcast cfg} (h : BcastOk c.inst st c) :
    RequestOk c :=
  ⟨h.pinst, h.inst_lt, h.type, fun ht => (h.prepare ht).2⟩

namespace InstanceState

/-- The type of the broadcast whose answers the instance waits for. -/
def awaited (st : InstanceState) : PaxosMsgType :=
  if st.phase = preparingPhase then .prepareReq else .acceptReq

theorem awaited_preparing {st : InstanceState} (h : st.phase = preparingPhase) :
    st.awaited = .prepareReq :=
  if_pos h

theorem awaited_accepting {st : InstanceState} (h : st.phase = acceptingPhase) :
    st.awaited = .acceptReq :=
  if_neg (by rw [h]; decide)

theorem awaited_of_state {st st' : InstanceState} (h : st'.state = st.state) :
    st'.awaited = st.awaited := by
  unfold awaited
  rw [phase_of_state h]

end InstanceState

/-- The instance, with the request `q` outstanding, waits for the answers to `c`. -/
structure Current (st : InstanceState) (q : PaxosMsg) (c : Bcast cfg) : Prop where
  round : c.round = st.term
  same : Same q.pp c.msg.pp
  type : c.msg.type = st.awaited

namespace Synod

/-- What holds of instance `i` of proposer `k` and its broadcasts. -/
structure Rounds (s : Synod cfg) (k : Fin cfg.totalProposer) (i : Nat) : Prop where
  proposerId : (s.props k i).proposerId = getMemberIdBySvrId cfg.totalProposer i k
  ig : IdGen.OnStep ((s.props k i).proposerId + 1) cfg.totalProposer (s.props k i).ig
  vig : (s.props k i).vig.step = 1
  bcast : ∀ c ∈ s.bcasts, c.Of k i → BcastOk i (s.props k i) c
  unique : ∀ (b b' : Nat) (c c' : Bcast cfg), s.bcasts[b]? = some c → s.bcasts[b']? = some c' →
    c.Of k i → c'.Of k i →
    c.round = c'.round → c.msg.type = c'.msg.type → b = b'
  same : ∀ c ∈ s.bcasts, ∀ c' ∈ s.bcasts, c.Of k i → c'.Of k i → c.round = c'.round →
    Same c.msg.pp c'.msg.pp
  notified : (s.props k i).req ≠ none → (s.props k i).notified = false
  current : ∀ q, (s.props k i).req = some q → ∃ c ∈ s.bcasts, c.Of k i ∧ Current (s.props k i) q c
  pending : (s.props k i).req ≠ none → ∀ c ∈ s.bcasts, c.Of k i → c.round = (s.props k i).term →
    c.msg.type = .prepareReq ∨ c.msg.type = (s.props k i).awaited

structure Sane (s : Synod cfg) : Prop where
  rounds : ∀ k i, s.Rounds k i
  accs : ∀ a i, 0 < ((s.accs a).mngs i).entries.maxSize ∧ OwnProposals i ((s.accs a).mngs i) ∧
    EmptyPromises ((s.accs a).mngs i)
  answers : ∀ x ∈ s.rsps, ∃ c, s.AnswerOk x c

section

variable {s s' : Synod cfg} {k : Fin cfg.totalProposer} {i : Nat} {new : List (Bcast cfg)}

/-! ## Rounds of one instance -/

theorem onStep_of_genMoved {st st' : InstanceState} {n : Nat} (h : GenMoved st st')
    (hs : IdGen.OnStep (st.proposerId + 1) n st.ig) :
    IdGen.OnStep (st.proposerId + 1) n st'.ig := by
  rcases h with h | ⟨v, h⟩ | h
  · rw [h]; exact hs
  · rw [h]; exact IdGen.setGreaterThan_onStep hs
  · rw [h]; exact IdGen.reset_onStep hs

theorem Rounds.quiet {n : Nat} (h : s.Rounds k i) (hg : Grows s s' new)
    (hnew : ∀ c ∈ new, ¬ c.Of k i) (hk : Kept n (s.props k i) (s'.props k i)) : s'.Rounds k i := by
  have hreq : (s'.props k i).req ≠ none → (s.props k i).req ≠ none := by
    intro hne
    obtain ⟨q', hq'⟩ := Option.ne_none_iff_exists'.mp hne
    obtain ⟨q, hq, _⟩ := hk.req q' hq'
    rw [hq]
    simp
  refine ⟨hk.proposerId.trans h.proposerId, ?_, by rw [hk.vig]; exact h.vig, ?_, ?_, ?_, ?_, ?_, ?_⟩
  · rw [hk.proposerId]
    exact onStep_of_genMoved hk.ig h.ig
  · intro c hc ho
    exact (h.bcast c (hg.old_mem hnew hc ho) ho).later (d := 0) hk.proposerId hk.term
      (by rw [hk.vig]; rfl)
  · intro b b' c c' hc hc' ho ho'
    exact h.unique b b' c c' (hg.old_get hnew hc ho) (hg.old_get hnew hc' ho') ho ho'
  · intro c hc c' hc' ho ho'
    exact h.same c (hg.old_mem hnew hc ho) c' (hg.old_mem hnew hc' ho') ho ho'
  · intro hne
    rw [notified_of_state (hk.state hne)]
    exact h.notified (hreq hne)
  · intro q' hq'
    obtain ⟨q, hq, hsame⟩ := hk.req q' hq'
    obtain ⟨c, hc, ho, hcur⟩ := h.current q hq
    have hst := hk.state (by rw [hq']; simp)
    exact ⟨c, hg.mem hc, ho, hcur.round.trans hk.term.symm, hsame.trans hcur.same,
      hcur.type.trans (awaited_of_state hst).symm⟩
  · intro hne c hc ho hr
    rw [awaited_of_state (hk.state hne)]
    exact h.pending (hreq hne) c (hg.old_mem hnew hc ho) ho (hr.trans hk.term)

theorem Rounds.push {m : PaxosMsg} {d : Nat} (h : s.Rounds k i)
    (hg : Grows s s' [⟨k, i, (s'.props k i).term, m⟩])
    (hp : (s'.props k i).proposerId = (s.props k i).proposerId)
    (hig : IdGen.OnStep ((s.props k i).proposerId + 1) cfg.totalProposer (s'.props k i).ig)
    (ht : (s'.props k i).term = (s.props k i).term + d)
    (hv : (s'.props k i).vig = ⟨(s.props k i).vig.id + d, (s.props k i).vig.step⟩)
    (hok : BcastOk i (s'.props k i) (⟨k, i, (s'.props k i).term, m⟩ : Bcast cfg))
    (hold : ∀ c ∈ s.bcasts, c.Of k i → c.round = (s'.props k i).term →
      c.msg.type ≠ m.type ∧ Same c.msg.pp m.pp)
    (hwait : ∀ q, (s'.props k i).req = some q → Same q.pp m.pp ∧ (s'.props k i).notified = false ∧
      m.type = (s'.props k i).awaited ∧
      ∀ c ∈ s.bcasts, c.Of k i → c.round = (s'.props k i).term → c.msg.type = .prepareReq) :
    s'.Rounds k i := by
  have hnew : ∀ {c : Bcast cfg}, c ∈ s'.bcasts → c ∈ s.bcasts ∨
      c = ⟨k, i, (s'.props k i).term, m⟩ :=
    fun hc => hg.mem_push hc
  refine ⟨hp.trans h.proposerId, by rw [hp]; exact hig, by rw [hv]; exact h.vig, ?_, ?_, ?_, ?_, ?_, ?_⟩
  · intro c hc ho
    rcases hnew hc with hc | rfl
    · exact (h.bcast c hc ho).later hp ht (by rw [hv])
    · exact hok
  · intro b b' c c' hc hc' ho ho' hr hty
    rcases hg.get_push hc with hc | ⟨rfl, rfl⟩
    · rcases hg.get_push hc' with hc' | ⟨rfl, rfl⟩
      · exact h.unique b b' c c' hc hc' ho ho' hr hty
      · exact absurd hty (hold c (List.mem_of_getElem? hc) ho hr).1
    · rcases hg.get_push hc' with hc' | ⟨rfl, rfl⟩
      · exact absurd hty.symm (hold c' (List.mem_of_getElem? hc') ho' hr.symm).1
      · rfl
  · intro c hc c' hc' ho ho' hr
    rcases hnew hc with hc | rfl
    · rcases hnew hc' with hc' | rfl
      · exact h.same c hc c' hc' ho ho' hr
      · exact (hold c hc ho hr).2
    · rcases hnew hc' with hc' | rfl
      · exact (hold c' hc' ho' hr.symm).2.symm
      · exact Same.refl _
  · intro hne
    obtain ⟨q, hq⟩ := Option.ne_none_iff_exists'.mp hne
    exact (hwait q hq).2.1
  · intro q hq
    obtain ⟨hsame, _, hty, _⟩ := hwait q hq
    refine ⟨⟨k, i, (s'.props k i).term, m⟩, ?_, ⟨rfl, rfl⟩, rfl, hsame, hty⟩
    rw [hg.bcasts]
    exact List.mem_append_right _ (List.mem_singleton_self _)
  · intro hne c hc ho hr
    obtain ⟨q, hq⟩ := Option.ne_none_iff_exists'.mp hne
    obtain ⟨_, _, hty, hprep⟩ := hwait q hq
    rcases hnew hc with hc | rfl
    · exact .inl (hprep c hc ho hr)
    · exact .inr hty

/-- The broadcast of the request outstanding, with the state's facts about it. -/
theorem Rounds.outstanding {q : PaxosMsg} (h : s.Rounds k i) (hq : (s.props k i).req = some q) :
    ∃ c ∈ s.bcasts, c.Of k i ∧ Current (s.props k i) q c ∧ BcastOk i (s.props k i) c := by
  obtain ⟨c, hc, ho, hcur⟩ := h.current q hq
  exact ⟨c, hc, ho, hcur, h.bcast c hc ho⟩

theorem Rounds.begin {m m' : PaxosMsg} {opaqueData promise : Nat} {val : List UInt8} {phase : UInt8}
    (h : s.Rounds k i) (hi : i < cfg.plogInstNum)
    (hs : s'.props k i = (s.props k i).begun (cfg.on k) i opaqueData val promise phase m)
    (hg : Grows s s' [⟨k, i, (s'.props k i).term, m'⟩])
    (hsame : Same m.pp ((s.props k i).proposalMsg (cfg.on k) i opaqueData val).pp)
    (hm' : Same m'.pp m.pp)
    (hnot : (s'.props k i).notified = false) (haw : m'.type = (s'.props k i).awaited)
    (hprep : m'.type = .prepareReq → m'.pp.term = (s.props k i).term ∧ m'.pp.size = 0)
    (hacc : m'.type = .acceptReq → 0 < m'.pp.pid) : s'.Rounds k i := by
  have hall := hm'.trans hsame
  have hterm : (s'.props k i).term = (s.props k i).term + 1 := by rw [hs]; rfl
  have hvig : (s'.props k i).vig = ⟨(s.props k i).vig.id + 1, (s.props k i).vig.step⟩ := by
    rw [hs]
    show (s.props k i).vig.getAndInc.2 = _
    simp [IdGen.getAndInc, h.vig]
  have hpid : (s'.props k i).proposerId = (s.props k i).proposerId := by rw [hs]; rfl
  have hid : m'.pp.pid = if u32 val.length ≠ 0 then (s.props k i).ig.id ||| cfg.pidCookie else 0 :=
    hall.pid
  refine h.push (d := 1) hg hpid ?_ hterm hvig ?_ ?_ ?_
  · rw [hs]
    show IdGen.OnStep _ _ (if u32 val.length ≠ 0 then (s.props k i).ig.getAndInc.2 else (s.props k i).ig)
    split
    · exact IdGen.getAndInc_onStep h.ig
    · exact h.ig
  · refine ⟨by show 1 ≤ (s'.props k i).term; omega, Nat.le_refl _, hall.pinst, hi, ?_, ?_, ?_, hacc,
      ?_⟩
    · have hvid : m'.pp.valueId = (s.props k i).vig.id := hall.valueId
      simp only [hvig, hvid]
      omega
    · rw [haw]
      unfold awaited
      split
      · exact .inl rfl
      · exact .inr (.inl rfl)
    · intro ht
      obtain ⟨h1, h2⟩ := hprep ht
      exact ⟨by rw [h1]; exact hterm.symm, h2⟩
    · intro hcookie hpos
      obtain ⟨_, j, hj⟩ := h.ig
      refine ⟨j, ?_⟩
      show m'.pp.pid = _
      rw [hid] at hpos ⊢
      split at hpos
      · rename_i hne
        rw [if_pos hne, hcookie, Nat.or_zero, hpid, hj]
      · exact absurd hpos (Nat.lt_irrefl 0)
  · intro c hc ho hr
    have := (h.bcast c hc ho).round_le
    omega
  · intro q hq
    have hqm : q = m := by
      rw [hs] at hq
      exact (Option.some.inj hq).symm
    refine ⟨hqm ▸ hm'.symm, hnot, haw, fun c hc ho hr => ?_⟩
    have := (h.bcast c hc ho).round_le
    omega

/-- The request outstanding is followed by the next broadcast of its round, of the same proposal. -/
theorem Rounds.next {m q : PaxosMsg} (h : s.Rounds k i)
    (hg : Grows s s' [⟨k, i, (s'.props k i).term, m⟩])
    (hp : (s'.props k i).proposerId = (s.props k i).proposerId)
    (hig : IdGen.OnStep ((s.props k i).proposerId + 1) cfg.totalProposer (s'.props k i).ig)
    (ht : (s'.props k i).term = (s.props k i).term) (hv : (s'.props k i).vig = (s.props k i).vig)
    (hq : (s.props k i).req = some q) (hsame : Same m.pp q.pp)
    (htype : (m.type = .acceptReq ∧ 0 < m.pp.pid) ∨ m.type = .chosenReq)
    (hne : (s.props k i).awaited ≠ m.type)
    (hwait : ∀ q', (s'.props k i).req = some q' → Same q'.pp m.pp ∧
      (s'.props k i).notified = false ∧
      m.type = (s'.props k i).awaited ∧ (s.props k i).awaited = .prepareReq) :
    s'.Rounds k i := by
  obtain ⟨c, hc, ho, hcur, hok⟩ := h.outstanding hq
  have hall : Same m.pp c.msg.pp := hsame.trans hcur.same
  have hpend := h.pending (by rw [hq]; simp)
  have hnot : m.type ≠ .prepareReq := by
    rcases htype with ⟨ht, _⟩ | ht <;> (rw [ht]; decide)
  refine h.push (d := 0) hg hp hig ht (by rw [hv]; rfl) ?_ ?_ ?_
  · refine ⟨ht ▸ hcur.round ▸ hok.round_pos, Nat.le_refl _, hall.pinst.trans hok.pinst, hok.inst_lt,
      ?_,
      .inr (htype.imp And.left id), fun h => absurd h hnot, ?_, ?_⟩
    · have hvid := hok.valueId
      rw [hcur.round, ← hall.valueId] at hvid
      rw [ht, hv]
      exact hvid
    · intro hacc
      rcases htype with ⟨_, hpos⟩ | hch
      · exact hpos
      · rw [show m.type = .acceptReq from hacc] at hch
        cases hch
    · show cfg.pidCookie = 0 → 0 < m.pp.pid → ∃ j, m.pp.pid = _
      rw [hall.pid, hp]
      exact hok.pid
  · intro c' hc' ho' hr
    rw [ht, ← hcur.round] at hr
    refine ⟨?_, (h.same c' hc' c hc ho' ho hr).trans hall.symm⟩
    rcases hpend c' hc' ho' (hr.trans hcur.round) with hty | hty
    · rw [hty]
      exact hnot.symm
    · rw [hty]
      exact hne
  · intro q' hq'
    obtain ⟨h1, h2, h3, hprep⟩ := hwait q' hq'
    refine ⟨h1, h2, h3, fun c' hc' ho' hr => ?_⟩
    rcases hpend c' hc' ho' (hr.trans ht) with hty | hty
    · exact hty
    · exact hty.trans hprep

/-- An accepted step of the instance; `hans` is what an answer to the ACCEPT says. -/
theorem Rounds.moved {ev : Event} {sent : List PaxosMsg} (h : s.Rounds k i)
    (hg : Grows s s' (sent.map fun m => ⟨k, i, (s'.props k i).term, m⟩))
    (hm : Moved (cfg.on k) i (s.props k i) ev (s'.props k i) sent)
    (hans : ∀ q a, ev = .answer a → (s.props k i).req = some q →
      (s.props k i).phase = acceptingPhase →
      ValidAccept q a → Same a.pp q.pp) : s'.Rounds k i := by
  have hnone : ∀ c ∈ ([] : List (Bcast cfg)), ¬ c.Of k i := fun _ hc => by cases hc
  cases hm with
  | kept hk => exact h.quiet hg hnone hk
  | counted _ _ _ _ _ _ hk => exact h.quiet hg hnone hk
  | accepting q a m hev hq hph hv hown hmaj hpos hm hw hkept =>
    obtain ⟨hpid, hterm, hvig, hig, _⟩ := hkept
    have hsame : Same m.pp q.pp := by rw [hm]; exact ⟨rfl, rfl, rfl, rfl⟩
    have htype : m.type = .acceptReq := by rw [hm]; rfl
    have hwas := awaited_preparing hph
    refine h.next hg hpid (hig ▸ h.ig) hterm hvig hq hsame (.inl ⟨htype, ?_⟩)
      (by rw [hwas, htype]; decide)
      fun q' hq' => ?_
    · have hle := hv.pid_le
      rw [hsame.pid]
      omega
    · rw [hw.req] at hq'
      obtain rfl := Option.some.inj hq'
      exact ⟨Same.refl _, hw.notified, by rw [awaited_accepting hw.phase, htype], hwas⟩
  | chosen q a hev hq hph hv hmaj hk hreq hlast =>
    have hsame : Same (asChosenReq (cfg.on k) a).pp q.pp :=
      Same.trans (q := a.pp) ⟨rfl, rfl, rfl, rfl⟩ (hans q a hev hq hph hv)
    refine h.next hg hk.proposerId (onStep_of_genMoved hk.ig h.ig) hk.term hk.vig hq hsame
      (.inr rfl) ?_
      fun q' hq' => ?_
    · rw [awaited_accepting hph]
      show PaxosMsgType.acceptReq ≠ .chosenReq
      decide
    · rw [hreq] at hq'
      cases hq'
  | prepare m opaqueData val promise hev hi hidle hm hs =>
    obtain ⟨hnot, hph, _, _⟩ := begun_state (cfg.on k) (s.props k i) i opaqueData val promise m
    rw [← hs] at hnot hph
    refine h.begin hi hs hg (hm ▸ Same.refl _) ⟨rfl, rfl, rfl, rfl⟩ hnot ?_ ?_ ?_
    · rw [awaited_preparing hph, hm]
      rfl
    · intro _
      exact ⟨by rw [hm]; rfl, rfl⟩
    · intro ht
      rw [hm] at ht
      cases ht
  | fast m opaqueData val promise hev hi hidle hm hval hskip hs =>
    obtain ⟨_, _, hnot, hph⟩ := begun_state (cfg.on k) (s.props k i) i opaqueData val promise m
    rw [← hs] at hnot hph
    have htype : m.type = .acceptReq := by rw [hm]; rfl
    refine h.begin hi hs hg (hm ▸ ⟨rfl, rfl, rfl, rfl⟩) (Same.refl _) hnot ?_ ?_ ?_
    · rw [awaited_accepting hph, htype]
    · intro ht
      rw [htype] at ht
      cases ht
    · intro _
      have hpid : m.pp.pid = (s.props k i).proposerId + 1 := (of_decide_eq_true hskip).2.2
      omega

end

/-! ## Answers -/

section

variable {s s' : Synod cfg}

theorem Sane.bcast (h : s.Sane) {c : Bcast cfg} (hc : c ∈ s.bcasts) :
    BcastOk c.inst (s.props c.src c.inst) c :=
  (h.rounds c.src c.inst).bcast c hc ⟨rfl, rfl⟩

theorem Sane.requests (h : s.Sane) : s.Requests :=
  ⟨fun _ hc => (h.bcast hc).request, h.accs, h.answers⟩

/-- What one step of the cluster does to one instance of one proposer. -/
theorem Sane.instStep (h : s.Sane) {l : SynodOp cfg} (hs : s.step l = some s')
    (k : Fin cfg.totalProposer) (i : Nat) : InstStep s s' l k i :=
  step_inst hs (fun k i => (h.rounds k i).notified) (fun _ hx => h.requests.fair hx) k i

/-- A counted answer is for the broadcast the instance waits on. -/
theorem Sane.answered (h : s.Sane) {k : Fin cfg.totalProposer} {i : Nat} {x : Answer cfg}
    {q : PaxosMsg}
    (hr : s.Awaited k i x) (hq : (s.props k i).req = some q) (hv : (s.props k i).Approves q x.msg) :
    ∃ c, s.AnswerOk x c ∧ c.Of k i ∧ Current (s.props k i) q c := by
  obtain ⟨c, hc, hsrc, hpin, hterm, _⟩ := hr.bcast
  have hx := h.requests.answerOk hr.mem hc
  have hc := List.mem_of_getElem? hx.bcast
  have ho : c.Of k i := ⟨hsrc, (h.bcast hc).pinst.symm.trans hpin⟩
  have hok := (h.rounds k i).bcast c hc ho
  obtain ⟨c₀, hc₀, ho₀, hcur, hok₀⟩ := (h.rounds k i).outstanding hq
  refine ⟨c, hx, ho, ?_⟩
  -- the PREPARE of the round is known by its term, the ACCEPT by its value id
  have hround : c.round = (s.props k i).term ∧ c.msg.type = (s.props k i).awaited := by
    rcases hv with ⟨hph, hv⟩ | ⟨hph, hv⟩
    · have ht := hx.prepare hv.type
      exact ⟨(hok.prepare ht).1.symm.trans hterm, ht.trans (awaited_preparing hph).symm⟩
    · have ht := hx.accept hv.type
      refine ⟨?_, ht.trans (awaited_accepting hph).symm⟩
      have h1 := (hx.vote hv.type hv.errcode hv.status).1.valueId
      have h2 := hcur.same.valueId
      have h3 := hok.valueId
      have h4 := hok₀.valueId
      have h5 := hcur.round
      have h6 := hv.valueId
      omega
  exact ⟨hround.1, hcur.same.trans ((h.rounds k i).same c₀ hc₀ c hc ho₀ ho (hcur.round.trans hround.1.symm)),
    hround.2⟩

/-! ## Every step -/

theorem sane_start (cfg : Configure) (sec : Fin cfg.totalProposer → Nat) :
    (start cfg sec).Sane := by
  obtain ⟨_, haccs, hanswers⟩ := requests_start cfg sec
  refine ⟨fun k i => ⟨rfl, IdGen.onStep_start _ _, ?_, ?_, ?_, ?_, ?_, ?_, ?_⟩, haccs, hanswers⟩
  · exact IdGen.setGreaterThan_step _ _
  · intro c hc
    cases hc
  · intro b b' c c' hc
    cases hc
  · intro c hc
    cases hc
  · intro hne
    exact absurd rfl hne
  · intro q hq
    cases hq
  · intro hne
    exact absurd rfl hne

theorem Sane.step {l : SynodOp cfg} (h : s.Sane) (hs : s.step l = some s')
    (hlog : ReadsLogs s l s') : s'.Sane := by
  have hrounds : ∀ k i, s'.Rounds k i := by
    intro k i
    cases h.instStep hs k i with
    | same new hg hst hnew => exact (h.rounds k i).quiet hg hnew (by rw [hst]; exact Kept.refl 0 _)
    | moved ev sent hg hc hm =>
      refine (h.rounds k i).moved hg hm fun q a hev hq hph hv => ?_
      obtain ⟨x, rfl, hr⟩ := hc.answer a hev
      obtain ⟨c, hx, _, hcur⟩ := h.answered hr.awaited hq (.inr ⟨hph, hv⟩)
      exact (hx.vote hv.type hv.errcode hv.status).1.trans hcur.same.symm
  have hb : ∀ c ∈ s'.bcasts, RequestOk c :=
    fun c hc => ((hrounds c.src c.inst).bcast c hc ⟨rfl, rfl⟩).request
  obtain ⟨_, haccs, hanswers⟩ := h.requests.step hs hlog hb
  exact ⟨hrounds, haccs, hanswers⟩

end

theorem sane_inductive {ok : Synod cfg → SynodOp cfg → Synod cfg → Prop}
    (hlog : ∀ s l s', ok s l s' → ReadsLogs s l s') :
    ((sys cfg).restrict ok).Inductive Sane where
  init := by
    intro s hinit
    obtain ⟨sec, rfl⟩ := hinit
    exact sane_start cfg sec
  step := by
    intro s l s' h hstep
    obtain ⟨hs, hok⟩ := hstep
    exact h.step hs (hlog s l s' hok)

end Synod
end Quarrel
