import Quarrel.L5Synod.Fields

/-!
# Restarts of a proposer

A proposer stores nothing. After a restart its terms, its ids and its last chosen
entry start again; the callbacks of the old process are gone, and its messages
still reach the acceptors. An acceptor that has promised an id answers a request
with that id by what it has promised, a proposal without value bytes. If it is of
another value the proposer takes it for a vote, and asserts that it has bytes.

* `Rebooted`: a synod whose proposers restart.
* `Running`: what holds of the process of a proposer. `Running.step`: a step of
  the synod keeps it.
* `Promised`: promises, and the answers that promise, are of PREPAREs.
* `lastVote_has_bytes`: the assertion holds in runs whose calls draw ids no PREPARE
  for the entry has carried.
* `not_alwaysBytes`: a restart in the middle of the first round.
-/
namespace Quarrel

open InstanceState EntryMng

variable {cfg : Configure}

/-- In the PREPARE phase a callback hands its response to `handlePrepareRsp`. -/
theorem Proposer.handleRpcResponse_prepare {p p' : Proposer} {m : RpcResponseMsg} {rsp : PaxosMsg}
    {outs : List Out} (hm : m.msg = some rsp) (haw : (p (m.pinst % cfg.plogInstNum)).Awaits m.term)
    (hph : (p (m.pinst % cfg.plogInstNum)).phase = preparingPhase)
    (h : p.handleRpcResponse cfg m = some (p', outs)) :
    ∃ st o, (p rsp.pp.pinst).handlePrepareRsp cfg rsp = some (st, o) := by
  cases Proposer.handleRpcResponse_done h with
  | late hlate => exact absurd haw hlate
  | timeout _ hrsp =>
    rw [hm] at hrsp
    cases hrsp
  | prepare rsp' _ hrsp _ hs =>
    obtain rfl := Option.some.inj (hm.symm.trans hrsp)
    exact ⟨_, _, hs⟩
  | accept rsp' _ _ hacc =>
    rw [hph] at hacc
    exact absurd hacc (by decide)
  | phaseless _ _ hp => exact absurd hph hp

/-- `born k` broadcasts have been made when the process of proposer `k` starts. -/
structure Rebooted (cfg : Configure) where
  synod : Synod cfg
  born : Fin cfg.totalProposer → Nat

inductive RebootOp (cfg : Configure) where
  | step (l : SynodOp cfg)
  | reboot (k : Fin cfg.totalProposer) (sec : Nat)

namespace Rebooted

/-- The callback is gone with the process that has broadcast the request. -/
def isLost (r : Rebooted cfg) : SynodOp cfg → Bool
  | .reply rid => r.synod.rsps[rid]?.any fun x => r.synod.bcasts[x.bid]?.any fun c => x.bid < r.born c.src
  | _ => false

def step (r : Rebooted cfg) : RebootOp cfg → Option (Rebooted cfg)
  | .step l => if r.isLost l then none else (r.synod.step l).map fun s => ⟨s, r.born⟩
  | .reboot k sec => some
    { synod := { r.synod with props := Function.update r.synod.props k (Proposer.new (cfg.on k) sec) }
      born := Function.update r.born k r.synod.bcasts.length }

def start (cfg : Configure) (sec : Fin cfg.totalProposer → Nat) :
    Rebooted cfg := ⟨Synod.start cfg sec, fun _ => 0⟩

def sys (cfg : Configure) : LTS (Rebooted cfg) (RebootOp cfg) :=
  .ofFn (fun r => ∃ sec, r = start cfg sec) step

/-- The callback of the answer `x` hands it to `handlePrepareRsp`, with the request `q` outstanding. -/
structure Handles (r : Rebooted cfg) (x : Answer cfg) (q : PaxosMsg) : Prop where
  mem : x ∈ r.synod.rsps
  bcast : ∃ c, r.synod.bcasts[x.bid]? = some c ∧ r.born c.src ≤ x.bid ∧
    (r.synod.props c.src (cfg.mngOf c.msg.pp.pinst)).Awaits c.msg.pp.term ∧
    (r.synod.props c.src (cfg.mngOf c.msg.pp.pinst)).phase = preparingPhase ∧
    (r.synod.props c.src x.msg.pp.pinst).req = some q

/-- Every response that is taken for a last vote has value bytes. -/
def VotesHaveBytes (r : Rebooted cfg) : Prop :=
  ∀ x q, r.Handles x q → ValidPromise q x.msg → OtherValue q x.msg → 0 < x.msg.pp.size

end Rebooted

namespace Synod

/-- The PREPAREs that step `l` broadcasts. -/
def prepares (s : Synod cfg) : SynodOp cfg → List PaxosMsg
  | .propose k opaqueData val pinst promise oom =>
    (broadcasts ((s.props k (pinst % cfg.plogInstNum)).proposeAsync (cfg.on k) (pinst % cfg.plogInstNum) opaqueData val
      promise oom).2).filter fun m => m.type = .prepareReq
  | _ => []

/-- The PREPAREs of one entry with the id of `m` are of the value of `m`. -/
def IdUnused (s : Synod cfg) (m : PaxosMsg) : Prop :=
  ∀ c ∈ s.bcasts, c.msg.type = .prepareReq → c.msg.pp.pinst = m.pp.pinst →
  c.msg.pp.pentry = m.pp.pentry →
    c.msg.pp.pid = m.pp.pid → c.msg.pp.valueId = m.pp.valueId

/-- What holds of instance `i` of proposer `k`, whose process started after `born` broadcasts. -/
structure Running (s : Synod cfg) (born : Nat) (k : Fin cfg.totalProposer) (i : Nat) : Prop where
  inst : ∀ q, (s.props k i).req = some q → q.pp.pinst = i ∧ i < cfg.plogInstNum
  notified : (s.props k i).req ≠ none → (s.props k i).notified = false
  below : ∀ b c, born ≤ b → s.bcasts[b]? = some c → c.Of k i → c.msg.type = .prepareReq →
    c.msg.pp.term < (s.props k i).term
  current : ∀ b c q, born ≤ b → s.bcasts[b]? = some c → c.Of k i → c.msg.type = .prepareReq →
    c.msg.pp.term + 1 = (s.props k i).term → (s.props k i).req = some q → Same q.pp c.msg.pp

section

variable {s s' : Synod cfg} {l : SynodOp cfg} {k : Fin cfg.totalProposer} {i born : Nat}
  {new : List (Bcast cfg)}

/-! ## A running process -/

/-- No PREPARE is broadcast, and the round goes on or is over. -/
theorem Running.goes (h : s.Running born k i) (hg : Grows s s' new)
    (hnew : ∀ c ∈ new, c.Of k i → c.msg.type ≠ .prepareReq)
    (ht : (s'.props k i).term = (s.props k i).term) (hreq : ∀ q', (s'.props k i).req = some q' →
      (s'.props k i).notified = false ∧ ∃ q, (s.props k i).req = some q ∧
      Same q'.pp q.pp) : s'.Running born k i := by
  have hold : ∀ (b : Nat) (c : Bcast cfg), s'.bcasts[b]? = some c → c.Of k i →
      c.msg.type = .prepareReq →
      s.bcasts[b]? = some c := by
    intro b c hc ho hty
    rw [hg.bcasts, List.getElem?_append] at hc
    split at hc
    · exact hc
    · exact absurd hty (hnew c (List.mem_of_getElem? hc) ho)
  refine ⟨fun q' hq' => ?_, fun hne => ?_, fun b c hb hc ho hty => ?_,
    fun b c q' hb hc ho hty hterm hq' => ?_⟩
  · obtain ⟨_, q, hq, hsame⟩ := hreq q' hq'
    rw [hsame.pinst]
    exact h.inst q hq
  · obtain ⟨q', hq'⟩ := Option.ne_none_iff_exists'.mp hne
    exact (hreq q' hq').1
  · rw [ht]
    exact h.below b c hb (hold b c hc ho hty) ho hty
  · obtain ⟨_, q, hq, hsame⟩ := hreq q' hq'
    exact hsame.trans (h.current b c q hb (hold b c hc ho hty) ho hty (hterm.trans ht) hq)

theorem Running.kept {n : Nat} (h : s.Running born k i) (hg : Grows s s' new)
    (hnew : ∀ c ∈ new, c.Of k i → c.msg.type ≠ .prepareReq)
    (hk : Kept n (s.props k i) (s'.props k i)) :
    s'.Running born k i := by
  refine h.goes hg hnew hk.term fun q' hq' => ?_
  obtain ⟨q, hq, hsame⟩ := hk.req q' hq'
  have hn := h.notified (by rw [hq]; simp)
  rw [← notified_of_state (hk.state (by rw [hq']; simp))] at hn
  exact ⟨hn, q, hq, hsame⟩

theorem Running.begin {m m' : PaxosMsg} (h : s.Running born k i)
    (hg : Grows s s' [⟨k, i, (s'.props k i).term, m'⟩])
    (ht : (s'.props k i).term = (s.props k i).term + 1) (hreq : (s'.props k i).req = some m)
    (hinst : m.pp.pinst = i ∧ i < cfg.plogInstNum) (hn : (s'.props k i).notified = false)
    (hterm : m'.pp.term = (s.props k i).term) (hsame : Same m.pp m'.pp) : s'.Running born k i := by
  refine ⟨fun q hq => ?_, fun _ => hn, fun b c hb hc ho hty => ?_,
    fun b c q hb hc ho hty hround hq => ?_⟩
  · obtain rfl := Option.some.inj (hreq.symm.trans hq)
    exact hinst
  · rcases hg.get_push hc with hc | ⟨_, rfl⟩
    · have := h.below b c hb hc ho hty
      omega
    · show m'.pp.term < _
      omega
  · obtain rfl := Option.some.inj (hreq.symm.trans hq)
    rcases hg.get_push hc with hc | ⟨_, rfl⟩
    · have := h.below b c hb hc ho hty
      omega
    · exact hsame

theorem Running.moved {ev : Event} {sent : List PaxosMsg} (h : s.Running born k i)
    (hg : Grows s s' (sent.map fun m => ⟨k, i, (s'.props k i).term, m⟩))
    (hm : Moved (cfg.on k) i (s.props k i) ev (s'.props k i) sent) : s'.Running born k i := by
  have hnone : ∀ c ∈ ([] : List (Bcast cfg)), c.Of k i → c.msg.type ≠ .prepareReq :=
    fun _ hc => by cases hc
  cases hm with
  | kept hk => exact h.kept hg hnone hk
  | counted _ _ _ _ _ _ hk => exact h.kept hg hnone hk
  | accepting q a m hev hq hph hv hown hmaj hpos hm hw hkept =>
    refine h.goes hg ?_ hkept.2.1 fun q' hq' => ⟨hw.notified, q, hq, ?_⟩
    · intro c hc _
      obtain rfl := List.mem_singleton.mp hc
      rw [hm]
      show PaxosMsgType.acceptReq ≠ .prepareReq
      decide
    · obtain rfl := Option.some.inj (hw.req.symm.trans hq')
      rw [hm]
      exact ⟨rfl, rfl, rfl, rfl⟩
  | chosen q a hev hq hph hv hmaj hk hreq hlast =>
    refine h.kept hg ?_ hk
    intro c hc _
    obtain rfl := List.mem_singleton.mp hc
    show PaxosMsgType.chosenReq ≠ .prepareReq
    decide
  | prepare m opaqueData val promise hev hi hidle hm hs =>
    obtain ⟨hn, _, _, _⟩ := begun_state (cfg.on k) (s.props k i) i opaqueData val promise m
    rw [← hs] at hn
    refine h.begin hg (by rw [hs]; rfl) (by rw [hs]; rfl) ⟨by rw [hm]; rfl, hi⟩ hn
      (by rw [hm]; rfl) ?_
    exact ⟨rfl, rfl, rfl, rfl⟩
  | fast m opaqueData val promise hev hi hidle hm hval hskip hs =>
    obtain ⟨_, _, hn, _⟩ := begun_state (cfg.on k) (s.props k i) i opaqueData val promise m
    rw [← hs] at hn
    exact h.begin hg (by rw [hs]; rfl) (by rw [hs]; rfl) ⟨by rw [hm]; rfl, hi⟩ hn (by rw [hm]; rfl)
      (Same.refl _)

theorem Running.same (h : s.Running born k i) (hp : s'.props k i = s.props k i)
    (hb : s'.bcasts = s.bcasts) :
    s'.Running born k i := by
  refine ⟨?_, ?_, ?_, ?_⟩
  · rw [hp]
    exact h.inst
  · rw [hp]
    exact h.notified
  · rw [hp, hb]
    exact h.below
  · rw [hp, hb]
    exact h.current

theorem running_new (hreq : (s.props k i).req = none) : s.Running s.bcasts.length k i := by
  refine ⟨fun q hq => ?_, fun hne => absurd hreq hne, fun b c hb hc => ?_,
    fun b c q _ _ _ _ _ hq => ?_⟩
  · rw [hreq] at hq
    cases hq
  · exact absurd (List.getElem?_eq_some_iff.mp hc).1 (Nat.not_lt.mpr hb)
  · rw [hreq] at hq
    cases hq

theorem Running.step (h : s.Running born k i) (hi : InstStep s s' l k i) : s'.Running born k i := by
  cases hi with
  | same new hg hst hnew =>
    exact h.kept hg (fun c hc ho => absurd ho (hnew c hc)) (by rw [hst]; exact Kept.refl 0 _)
  | moved ev sent hg hc hm => exact h.moved hg hm

/-- What a running process broadcasts is a request of its instance; `hans` is what an
answer to the ACCEPT says. -/
theorem Running.sent {ev : Event} {sent : List PaxosMsg} (h : s.Running born k i)
    (hm : Moved (cfg.on k) i (s.props k i) ev (s'.props k i) sent)
    (hans : ∀ q a, ev = .answer a → ValidAccept q a → a.pp.pinst = i) :
    ∀ m ∈ sent, RequestOk (⟨k, i, (s'.props k i).term, m⟩ : Bcast cfg) := by
  intro m hmem
  cases hm with
  | kept | counted => cases hmem
  | accepting q a m' hev hq hph hv hown hmaj hpos hm' hw hkept =>
    obtain rfl := List.mem_singleton.mp hmem
    obtain ⟨hinst, hlt⟩ := h.inst q hq
    rw [hm']
    exact ⟨hinst, hlt, .inr (.inl rfl), fun ht => by cases ht⟩
  | chosen q a hev hq hph hv hmaj hk hreq hlast =>
    obtain rfl := List.mem_singleton.mp hmem
    exact ⟨hans q a hev hv, (h.inst q hq).2, .inr (.inr rfl), fun ht => by cases ht⟩
  | prepare m' opaqueData val promise hev hi hidle hm' hs =>
    obtain rfl := List.mem_singleton.mp hmem
    rw [hm']
    exact ⟨rfl, hi, .inl rfl, fun _ => rfl⟩
  | fast m' opaqueData val promise hev hi hidle hm' hval hskip hs =>
    obtain rfl := List.mem_singleton.mp hmem
    rw [hm']
    exact ⟨rfl, hi, .inr (.inl rfl), fun ht => by cases ht⟩

/-- The instance an answer that reaches it names. -/
theorem Requests.valid_pinst (h : s.Requests) {x : Answer cfg} (hx : s.Awaited k i x)
    (he : x.msg.errcode = ErrCode.ok) : x.msg.pp.pinst = i := by
  obtain ⟨c, hc, _, hi, _⟩ := hx.bcast
  exact ((h.answerOk hx.mem hc).pinst.resolve_right fun hne => hne.1 he).trans hi

theorem Running.instStep (h : s.Requests) (hrun : ∀ k i, ∃ born, s.Running born k i)
    (hs : s.step l = some s') (k : Fin cfg.totalProposer) (i : Nat) : InstStep s s' l k i :=
  step_inst hs (fun k i => (hrun k i).choose_spec.notified) (fun _ hx => h.fair hx) k i

theorem Running.request (h : s.Requests) (hrun : ∀ k i, ∃ born, s.Running born k i)
    (hs : s.step l = some s') :
    ∀ c ∈ s'.bcasts, RequestOk c := by
  intro c hc
  obtain ⟨born, hlive⟩ := hrun c.src c.inst
  cases Running.instStep h hrun hs c.src c.inst with
  | same new hg _ hnew => exact h.bcast c (hg.old_mem hnew hc ⟨rfl, rfl⟩)
  | moved ev sent hg hcause hm =>
    rw [hg.bcasts] at hc
    rcases List.mem_append.mp hc with hc | hc
    · exact h.bcast c hc
    · obtain ⟨m, hmem, hcm⟩ := List.mem_map.mp hc
      rw [← hcm]
      refine hlive.sent hm (fun q a hev hv => ?_) m hmem
      obtain ⟨x, rfl, hr⟩ := hcause.answer a hev
      exact h.valid_pinst hr.awaited hv.errcode

theorem Running.new_prepare {c : Bcast cfg} (h : s.Requests)
    (hrun : ∀ k i, ∃ born, s.Running born k i)
    (hs : s.step l = some s') (hc : c ∈ s'.bcasts) (ht : c.msg.type = .prepareReq) :
    c ∈ s.bcasts ∨ (c.msg ∈ s.prepares l ∧ s'.bcasts = s.bcasts ++ [c]) := by
  cases Running.instStep h hrun hs c.src c.inst with
  | same new hg _ hnew => exact .inl (hg.old_mem hnew hc ⟨rfl, rfl⟩)
  | moved ev sent hg hcause hm =>
    have hmem := hc
    rw [hg.bcasts] at hmem
    refine (List.mem_append.mp hmem).imp id fun hnew => ?_
    obtain ⟨m, hm', hcm⟩ := List.mem_map.mp hnew
    have hmt : m.type = .prepareReq := by
      rw [← hcm] at ht
      exact ht
    cases hm with
    | kept | counted => cases hm'
    | accepting q a m₁ _ _ _ _ _ _ _ hm₁ =>
      obtain rfl := List.mem_singleton.mp hm'
      rw [hm₁] at hmt
      cases hmt
    | chosen =>
      obtain rfl := List.mem_singleton.mp hm'
      cases hmt
    | fast m₁ _ _ _ _ _ _ hm₁ =>
      obtain rfl := List.mem_singleton.mp hm'
      rw [hm₁] at hmt
      cases hmt
    | prepare m₁ opaqueData val promise hev hi hidle hm₁ hst =>
      obtain rfl := List.mem_singleton.mp hm'
      obtain ⟨pinst, promise', oom, rfl, hinst⟩ := hcause.call opaqueData val hev
      obtain ⟨_, hg'⟩ := step_propose hs hinst
      have hsame :=
        congrArg (List.map Bcast.msg) (List.append_cancel_left (hg.bcasts.symm.trans hg'.bcasts))
      simp only [List.map_map, Function.comp_def, List.map_id'] at hsame
      refine ⟨?_, ?_⟩
      · simp only [prepares]
        rw [← hinst, ← hsame, ← hcm]
        exact List.mem_filter.mpr ⟨List.mem_singleton_self _, decide_eq_true hmt⟩
      · rw [hg.bcasts, ← hcm]
        rfl

end

/-! ## Promises -/

/-- The proposal is that of a PREPARE with an id, for entry `e` of instance `i`. -/
def PreparedBy (s : Synod cfg) (i e : Nat) (p : Proposal) : Prop :=
  ∃ c ∈ s.bcasts, c.msg.type = .prepareReq ∧ c.inst = i ∧ c.msg.pp.pentry = e ∧ 0 < c.msg.pp.pid ∧
  Same p c.msg.pp

/-- Promises are of PREPAREs, and an id is that of one round for each entry. -/
structure Promised (s : Synod cfg) : Prop where
  held : ∀ a i e p, HeldPromised ((s.accs a).mngs i) e p → s.PreparedBy i e p
  answers : ∀ x ∈ s.rsps, ∀ c, s.bcasts[x.bid]? = some c → x.msg.type = .prepareRsp →
    x.msg.pp.status = .promised →
    Same x.msg.pp c.msg.pp ∨ s.PreparedBy c.inst c.msg.pp.pentry x.msg.pp
  unique : ∀ c ∈ s.bcasts, ∀ c' ∈ s.bcasts, c.msg.type = .prepareReq → c'.msg.type = .prepareReq →
    c'.msg.pp.pinst = c.msg.pp.pinst → c'.msg.pp.pentry = c.msg.pp.pentry → c'.msg.pp.pid = c.msg.pp.pid →
    0 < c.msg.pp.pid → c'.msg.pp.valueId = c.msg.pp.valueId

section

variable {s s' : Synod cfg} {l : SynodOp cfg}

theorem PreparedBy.later {i e : Nat} {p : Proposal} {new : List (Bcast cfg)}
    (h : s.PreparedBy i e p) (hg : Grows s s' new) : s'.PreparedBy i e p := by
  obtain ⟨c, hc, hrest⟩ := h
  exact ⟨c, hg.mem hc, hrest⟩

theorem PreparedBy.same {i e : Nat} {p p' : Proposal} (h : s.PreparedBy i e p) (hp : Same p' p) :
    s.PreparedBy i e p' := by
  obtain ⟨c, hc, ht, hi, he, hpos, hsame⟩ := h
  exact ⟨c, hc, ht, hi, he, hpos, hp.trans hsame⟩

theorem Promised.step_held (h : s.Promised) (hreq : s.Requests) (hs : s.step l = some s')
    (hlog : ReadsLogs s l s') :
    ∀ a i e p, HeldPromised ((s'.accs a).mngs i) e p → s'.PreparedBy i e p := by
  obtain ⟨new, hg⟩ := step_grows hs
  intro a i e p hp
  cases hreq.step_mng hs a i with
  | same _ hm => exact (h.held a i e p (hm ▸ hp)).later hg
  | served bid saves c hd hc hinst hsv hm =>
    rw [hm] at hp
    rcases hsv.heldPromised hp with hp | ⟨ht, rfl, rfl, hpos⟩
    · exact (h.held a i e p hp).later hg
    · exact ⟨c, hg.mem (List.mem_of_getElem? hc), ht, hinst, rfl, hpos, rfl, rfl, rfl, rfl⟩
  | restart batch lastCommitted fuel hm =>
    have hf := loadAllFromDisk_fromLog (hlog _ _ _ _ _ rfl) hm
    obtain ⟨x, hx, hxp⟩ := hp
    exact (h.held a i e p ⟨x, .inr (hf.stored hx), hxp⟩).later hg

theorem Promised.step_answers (h : s.Promised) (hreq : s.Requests) (hreq' : s'.Requests)
    (hs : s.step l = some s') :
    ∀ x ∈ s'.rsps, ∀ c, s'.bcasts[x.bid]? = some c → x.msg.type = .prepareRsp →
    x.msg.pp.status = .promised →
      Same x.msg.pp c.msg.pp ∨ s'.PreparedBy c.inst c.msg.pp.pentry x.msg.pp := by
  obtain ⟨new, hg⟩ := step_grows hs
  intro x hx c hc ht hst
  have hprep := (hreq'.answerOk hx hc).prepare ht
  rcases hreq.step_rsps hs hx with hx | ⟨saves, c₀, hd, _, hc₀, hsv, hpp⟩
  · obtain ⟨c₀, hok⟩ := hreq.answers x hx
    obtain rfl := Option.some.inj (hc.symm.trans (hg.get hok.bcast))
    exact (h.answers x hx c hok.bcast ht hst).imp id fun hp => hp.later hg
  · obtain rfl := Option.some.inj (hc.symm.trans (hg.get hc₀))
    rw [hprep] at hsv
    rw [hpp]
    refine (hsv.promise_same (hpp ▸ hst)).imp id fun ⟨p, hp, hsame⟩ => ?_
    exact ((h.held x.acc _ _ p hp).later hg).same hsame

/-- An id drawn by no round before stays apart from the others. -/
theorem Promised.step (h : s.Promised) (hreq : s.Requests) (hreq' : s'.Requests)
    (hrun : ∀ k i, ∃ born, s.Running born k i) (hs : s.step l = some s') (hlog : ReadsLogs s l s')
    (hunused : ∀ m ∈ s.prepares l, 0 < m.pp.pid → s.IdUnused m) : s'.Promised := by
  refine ⟨h.step_held hreq hs hlog, h.step_answers hreq hreq' hs,
    fun c hc c' hc' ht ht' hi he hid hpos => ?_⟩
  rcases Running.new_prepare hreq hrun hs hc ht with hold | ⟨hmem, hb⟩
  · rcases Running.new_prepare hreq hrun hs hc' ht' with hold' | ⟨hmem', _⟩
    · exact h.unique c hold c' hold' ht ht' hi he hid hpos
    · exact (hunused c'.msg hmem' (hid ▸ hpos) c hold ht hi.symm he.symm hid.symm).symm
  · rw [hb] at hc'
    rcases List.mem_append.mp hc' with hold' | hnew
    · exact hunused c.msg hmem hpos c' hold' ht' hi he hid
    · rw [List.mem_singleton.mp hnew]

end

end Synod

namespace Rebooted

open Synod

/-! ## Every run -/

/-- What holds of a synod whose proposers restart. -/
structure Steady (r : Rebooted cfg) : Prop where
  requests : r.synod.Requests
  running : ∀ k i, r.synod.Running (r.born k) k i
  promised : r.synod.Promised

/-- Logs are read back whole, and no call prepares with an id that a PREPARE of another
round has carried for the same entry. -/
def DrawsUnused (r : Rebooted cfg) (op : RebootOp cfg) (r' : Rebooted cfg) : Prop :=
  ∀ l, op = .step l → ReadsLogs r.synod l r'.synod ∧ ∀ m ∈ r.synod.prepares l, 0 < m.pp.pid →
  r.synod.IdUnused m

section

variable {r r' : Rebooted cfg} {op : RebootOp cfg}

theorem Steady.reboot (h : r.Steady) (k : Fin cfg.totalProposer) (sec : Nat)
    (hs : r.step (.reboot k sec) = some r') : r'.Steady := by
  have hr : r'.synod.bcasts = r.synod.bcasts ∧
      r'.synod.props = Function.update r.synod.props k (Proposer.new (cfg.on k) sec) ∧
      r'.born = Function.update r.born k r.synod.bcasts.length := by
    obtain rfl := Option.some.inj hs
    exact ⟨rfl, rfl, rfl⟩
  obtain ⟨hb, hp, hborn⟩ := hr
  refine ⟨?_, fun k' i => ?_, ?_⟩
  · obtain rfl := Option.some.inj hs
    refine ⟨h.requests.bcast, h.requests.accs, fun x hx => ?_⟩
    obtain ⟨c, hc⟩ := h.requests.answers x hx
    exact ⟨c, hc.later (grows_of_same rfl rfl rfl rfl rfl)⟩
  · rw [hborn]
    by_cases hk : k' = k
    · subst hk
      rw [Function.update_self, ← hb]
      exact running_new (by rw [hp, Function.update_self]; rfl)
    · rw [Function.update_of_ne hk]
      exact (h.running k' i).same (by rw [hp, Function.update_of_ne hk]) hb
  · obtain rfl := Option.some.inj hs
    exact ⟨h.promised.held, h.promised.answers, h.promised.unique⟩

theorem Steady.step (h : r.Steady) (hs : r.step op = some r') (hok : DrawsUnused r op r') :
    r'.Steady := by
  cases op with
  | reboot k sec => exact h.reboot k sec hs
  | step l =>
    obtain ⟨hlog, hunused⟩ := hok l rfl
    simp only [Rebooted.step] at hs
    split at hs
    · cases hs
    obtain ⟨s', hs', rfl⟩ := Option.map_eq_some_iff.mp hs
    have hrun : ∀ k i, ∃ born, r.synod.Running born k i := fun k i => ⟨_, h.running k i⟩
    have hreq := h.requests.step hs' hlog (Running.request h.requests hrun hs')
    refine ⟨hreq, fun k i => ?_, h.promised.step h.requests hreq hrun hs' hlog hunused⟩
    exact (h.running k i).step (Running.instStep h.requests (fun k i => ⟨_, h.running k i⟩) hs' k i)

theorem steady_inductive : ((sys cfg).restrict DrawsUnused).Inductive Steady where
  init := by
    intro r hinit
    obtain ⟨sec, rfl⟩ := hinit
    refine ⟨requests_start cfg sec, fun k i => ⟨?_, ?_, ?_, ?_⟩, ?_, ?_, ?_⟩
    · intro q hq
      cases hq
    · intro hne
      exact absurd rfl hne
    · intro b c _ hc
      cases hc
    · intro b c q _ hc
      cases hc
    · intro a i e p hp
      obtain ⟨x, hx, _⟩ := hp
      exact absurd hx new_empty
    · intro x hx
      cases hx
    · intro c hc
      cases hc
  step _ _ _ h hst := h.step hst.1 hst.2

/-- A response that is handled as a promise is of the proposer's own value. -/
theorem Steady.no_lastVote {x : Answer cfg} {q : PaxosMsg} (h : r.Steady) (hh : r.Handles x q)
    (hv : ValidPromise q x.msg) : ¬ OtherValue q x.msg := by
  intro hother
  obtain ⟨c, hc, hborn, ⟨hterm, _⟩, _, hq⟩ := hh.bcast
  have hok := h.requests.answerOk hh.mem hc
  have hcm := List.mem_of_getElem? hc
  have ht := hok.prepare hv.type
  have hinst : x.msg.pp.pinst = c.inst :=
    (hok.pinst.resolve_right fun hne => hne.1 hv.errcode).trans (h.requests.bcast c hcm).pinst
  rw [h.requests.mngOf hcm] at hterm
  rw [hinst] at hq
  have hsame := (h.running c.src c.inst).current x.bid c q hborn hc ⟨rfl, rfl⟩ ht hterm hq
  refine hother ?_
  rw [hsame.valueId]
  rcases h.promised.answers x hh.mem c hc hv.type hv.status
      with hown | ⟨c', hc', ht', hi', he', hpos', hsame'⟩
  · exact hown.valueId
  · -- its id is that of the promise, which is another PREPARE for the entry
    have hge := (hok.promise hv.type hv.status).2
    have hle := hv.pid_le
    rw [hsame.pid] at hle
    have hid : c'.msg.pp.pid = c.msg.pp.pid := hsame'.pid.symm.trans (Nat.le_antisymm hle hge)
    have hpin : c'.msg.pp.pinst = c.msg.pp.pinst :=
      (h.requests.bcast c' hc').pinst.trans (hi'.trans (h.requests.bcast c hcm).pinst.symm)
    exact hsame'.valueId.trans (h.promised.unique c hcm c' hc' ht ht' hpin he' hid (hid ▸ hpos'))

/-- In runs whose calls prepare with unused ids, whatever is taken for a last vote has bytes. -/
theorem lastVote_has_bytes (h : ((sys cfg).restrict DrawsUnused).Reachable r) :
    r.VotesHaveBytes := by
  intro x q hh hv hother
  exact absurd hother ((steady_inductive.reachable r h).no_lastVote hh hv)

end

/-- A callback that returns has asserted that a last vote has bytes. -/
theorem Handles.bytes {r r' : Rebooted cfg} {x : Answer cfg} {q : PaxosMsg} {rid : Nat}
    (hh : r.Handles x q)
    (hrid : r.synod.rsps[rid]? = some x) (hv : ValidPromise q x.msg) (hother : OtherValue q x.msg)
    (hs : r.step (.step (.reply rid)) = some r') : 0 < x.msg.pp.size := by
  obtain ⟨c, hc, hborn, haw, hph, hq⟩ := hh.bcast
  simp only [Rebooted.step, Synod.step, hrid, hc] at hs
  split at hs
  · cases hs
  obtain ⟨_, hs, _⟩ := Option.map_eq_some_iff.mp hs
  obtain ⟨⟨p', outs⟩, hr, _⟩ := Option.map_eq_some_iff.mp hs
  have haw' : (r.synod.props c.src (c.msg.pp.pinst % (cfg.on c.src).plogInstNum)).Awaits c.msg.pp.term := haw
  obtain ⟨st, o, hd⟩ :=
    Proposer.handleRpcResponse_prepare (m := rpcResponseOf c.msg x.msg) rfl haw' hph hr
  cases handlePrepareRsp_done hq hd with
  | wrongType hne => exact absurd hv.type hne
  | refused _ _ _ _ hno => exact absurd hv hno
  | pending _ hsz | probed _ hsz | accepting _ _ hsz => exact hsz hother

instance (s : Synod cfg) (m : PaxosMsg) : Decidable (s.IdUnused m) := by
  unfold IdUnused; exact inferInstance

def noRestart : RebootOp cfg → Bool
  | .step l => !isRestart l
  | .reboot .. => true

theorem readsLogs_of_noRestart {r r' : Rebooted cfg} {op : RebootOp cfg} (h : noRestart op = true) :
    ∀ l, op = .step l → ReadsLogs r.synod l r'.synod := by
  intro l heq
  subst heq
  exact readsLogs_of_not_restart h

/-- No restart of an acceptor, and no id used before. -/
def drawsUnused (r : Rebooted cfg) : RebootOp cfg → Bool
  | .step l => !isRestart l && decide (∀ m ∈ r.synod.prepares l, 0 < m.pp.pid → r.synod.IdUnused m)
  | .reboot .. => true

theorem drawsUnused_of {r r' : Rebooted cfg} {op : RebootOp cfg} (h : drawsUnused r op = true) :
    DrawsUnused r op r' := by
  intro l heq
  subst heq
  obtain ⟨hl, hunused⟩ := Bool.and_eq_true_iff.mp h
  exact ⟨readsLogs_of_not_restart hl, of_decide_eq_true hunused⟩

/-- Proposer 0 prepares entry 1, restarts, is told that entry 1 is chosen, and prepares entry 2. -/
def ranBehind : Option (Rebooted (Configure.init 0)) :=
  LTS.exec (fun r op => (r.step op).filter fun _ => drawsUnused r op) (start _ fun _ => 7)
    [.step (.propose ⟨0, first_of_three⟩ 0 [7] 0 0 false), .step (.deliver 0 ⟨0, first_of_three⟩ Saves.good),
      .reboot ⟨0, first_of_three⟩ 8,
      .step (.entryChosen ⟨0, first_of_three⟩ (requestOf .chosenReq 1 7 1 []) false),
      .step (.propose ⟨0, first_of_three⟩ 0 [8] 0 1 false), .step (.deliver 1 ⟨0, first_of_three⟩ Saves.good)]

theorem lastVote_has_bytes_behind : (ranBehind.get (by decide +kernel)).VotesHaveBytes :=
  lastVote_has_bytes ⟨_, _, ⟨_, rfl⟩, LTS.run_of_guarded (g := fun r op _ => drawsUnused r op)
    (fun _ _ _ _ h => drawsUnused_of h) (Option.some_get _).symm⟩

/-! ## A restart in the middle of a round -/

/-- Acceptor 0 promises the id 1 to proposer 0, which restarts a second later and
prepares another value with the id 1. -/
def ranAgain : Option (Rebooted (Configure.init 0)) :=
  LTS.exec (fun r op => (r.step op).filter fun _ => noRestart op) (start _ fun _ => 7)
    [.step (.propose ⟨0, first_of_three⟩ 0 [7] 0 0 false), .step (.deliver 0 ⟨0, first_of_three⟩ Saves.good),
      .reboot ⟨0, first_of_three⟩ 8, .step (.propose ⟨0, first_of_three⟩ 0 [8] 0 1 false),
      .step (.deliver 1 ⟨0, first_of_three⟩ Saves.good)]

def restartedAgain : Rebooted (Configure.init 0) := ranAgain.get (by decide +kernel)

/-- The request of the second process, its broadcast, and what acceptor 0 answers. -/
def secondReq : PaxosMsg :=
  (restartedAgain.synod.props ⟨0, first_of_three⟩ 0).req.get (by decide +kernel)

def secondCast : Bcast (Configure.init 0) := restartedAgain.synod.bcasts[1]?.get (by decide +kernel)

def firstPromise : Answer (Configure.init 0) :=
  restartedAgain.synod.rsps[1]?.get (by decide +kernel)

/-- Acceptor 0 answers the second PREPARE with the first one. -/
theorem not_alwaysBytes :
    ¬ ∀ (cfg : Configure) (r : Rebooted cfg),
      ((sys cfg).restrict fun r op r' => ∀ l, op = .step l →
        ReadsLogs r.synod l r'.synod).Reachable r →
        r.VotesHaveBytes := by
  intro hall
  have hrun : ((sys (Configure.init 0)).restrict fun r op r' => ∀ l, op = .step l →
      ReadsLogs r.synod l r'.synod).Run
      (start _ fun _ => 7) _ restartedAgain :=
    LTS.run_of_guarded (g := fun _ op _ => noRestart op) (fun _ _ _ _ h => readsLogs_of_noRestart h)
      (Option.some_get _).symm
  have hhandles : restartedAgain.Handles firstPromise secondReq :=
    ⟨List.mem_of_getElem? (Option.some_get _).symm,
      secondCast, by decide +kernel, by decide +kernel, by decide +kernel, by decide +kernel, by decide +kernel⟩
  have hbytes :=
    hall _ _ ⟨_, _, ⟨_, rfl⟩, hrun⟩ firstPromise secondReq hhandles (by decide +kernel)
      (by decide +kernel)
  exact absurd hbytes (by decide +kernel)

end Rebooted
end Quarrel
