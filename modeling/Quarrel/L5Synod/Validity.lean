import Quarrel.L5Synod.ChosenSound
import Quarrel.L5Synod.Fields

/-!
# Where accepted values come from

A value is copied into the proposal of its call, stays behind when the PREPARE is
sent, comes back with the ACCEPT, and is cloned into the acceptor's entry; a CHOSEN
marks what the entry holds. The sizes are edited by hand at each of these places.

* `passed`: the values of the calls that started a round, recorded along the run.
* `Values`: the request outstanding and the ACCEPTs of an instance carry the bytes of
  their call. `Values.step`: every step keeps it.
* `FromAccepts`: what an acceptor holds as accepted is that of an ACCEPT.
* `validity`: it is the value of a call for the instance, and never that of a probe.
-/
namespace Quarrel

open InstanceState EntryMng

variable {cfg : Configure}

/-- A call that has started a round, and the value it was given. -/
structure Passed (cfg : Configure) where
  src : Fin cfg.totalProposer
  inst : Nat
  round : Nat
  val : List UInt8
  deriving DecidableEq

def Passed.Of (v : Passed cfg) (k : Fin cfg.totalProposer) (i : Nat) :
    Prop := v.src = k ∧ v.inst = i

/-- The message carries the bytes of the call, and an id only if there are any. -/
structure Passed.CarriedBy (v : Passed cfg) (m : PaxosMsg) : Prop where
  data : m.pp.data = v.val
  size : m.pp.size = v.val.length
  probe : 0 < m.pp.pid → v.val ≠ []

namespace Synod

/-- The call that step `l` is, if it starts a round. -/
def passed (s : Synod cfg) : SynodOp cfg → List (Passed cfg)
  | .propose k opaqueData val pinst promise oom =>
    let i := pinst % cfg.plogInstNum
    (broadcasts ((s.props k i).proposeAsync (cfg.on k) i opaqueData val promise oom).2).map fun _ =>
      ⟨k, i, (s.props k i).term + 1, val⟩
  | _ => []

/-- The runs of a synod, with the values passed. -/
def passSys (cfg : Configure) : LTS (Synod cfg × List (Passed cfg)) (SynodOp cfg) :=
  .withRecord (fun s => ∃ sec, s = start cfg sec) step passed

/-- A value fits the size field of a proposal message. -/
def ShortValues (l : SynodOp cfg) : Prop :=
  ∀ k opaqueData val pinst promise oom, l = .propose k opaqueData val pinst promise oom →
    val.length < 2 ^ 32 - proposalHeaderSz

/-- The values of instance `i` of proposer `k`. -/
structure Values (s : Synod cfg) (vs : List (Passed cfg)) (k : Fin cfg.totalProposer) (i : Nat) :
    Prop where
  rounds : ∀ v ∈ vs, v.Of k i → v.round ≤ (s.props k i).term
  unique : ∀ v ∈ vs, ∀ v' ∈ vs, v.Of k i → v'.Of k i → v.round = v'.round → v.val = v'.val
  waiting : ∀ q, (s.props k i).req = some q →
    ∃ v ∈ vs, v.Of k i ∧ v.round = (s.props k i).term ∧ v.CarriedBy q
  sent : ∀ c ∈ s.bcasts, c.Of k i → c.msg.type = .acceptReq →
    ∃ v ∈ vs, v.Of k i ∧ v.round = c.round ∧ v.CarriedBy c.msg

/-- The proposal held at entry `k` is that of the ACCEPT `c`. -/
structure StoredBy (c : Bcast cfg) (k : Nat) (p : Proposal) : Prop where
  type : c.msg.type = .acceptReq
  same : Same p c.msg.pp
  entry : p.pentry = k
  size : p.size = c.msg.pp.size
  data : p.data = c.msg.pp.data.take c.msg.pp.size

/-- What the acceptors hold as accepted comes from ACCEPTs of the instance. -/
def FromAccepts (s : Synod cfg) : Prop :=
  ∀ a i e p, HeldAccepted ((s.accs a).mngs i) e p → ∃ c ∈ s.bcasts, c.inst = i ∧ StoredBy c e p

section

variable {s s' : Synod cfg} {vs : List (Passed cfg)} {l : SynodOp cfg} {k : Fin cfg.totalProposer}
  {i : Nat}
  {new : List (Bcast cfg)}

/-! ## The proposers -/

theorem passed_propose {opaqueData pinst promise : Nat} {val : List UInt8} {oom : Bool}
    (hi : i = pinst % cfg.plogInstNum) :
    passed s (.propose k opaqueData val pinst promise oom) =
      (broadcasts ((s.props k i).proposeAsync (cfg.on k) i opaqueData val promise oom).2).map fun _ =>
        ⟨k, i, (s.props k i).term + 1, val⟩ := by
  subst hi
  rfl

theorem passed_other (hno : ¬ Calls l k i) : ∀ v ∈ passed s l, ¬ v.Of k i := by
  intro v hv ho
  cases l with
  | propose k₀ opaqueData val pinst promise oom =>
    rw [passed_propose rfl] at hv
    obtain ⟨_, _, rfl⟩ := List.mem_map.mp hv
    obtain ⟨rfl, rfl⟩ := ho
    exact hno ⟨opaqueData, val, pinst, promise, oom, rfl, rfl⟩
  | _ => cases hv

/-- The request that stays outstanding carries the value it carried. -/
theorem Values.follows (h : s.Values vs k i) (hs : s.step l = some s') {q q' : PaxosMsg}
    (hq : (s.props k i).req = some q) (hq' : (s'.props k i).req = some q') :
    ∃ v ∈ vs, v.Of k i ∧ v.round = (s.props k i).term ∧ v.CarriedBy q' := by
  obtain ⟨v, hv, ho, hr, hcar⟩ := h.waiting q hq
  have hf := step_req hs hq hq'
  refine ⟨v, hv, ho, hr, hf.data.trans hcar.data, hf.size.trans hcar.size,
    fun hpos => hcar.probe ?_⟩
  rw [← hf.same.pid]
  exact hpos

theorem Values.quiet (h : s.Values vs k i) (hno : ¬ Calls l k i) (hg : Grows s s' new)
    (hterm : (s'.props k i).term = (s.props k i).term)
    (hreq : ∀ q', (s'.props k i).req = some q' →
      ∃ v ∈ vs, v.Of k i ∧ v.round = (s.props k i).term ∧ v.CarriedBy q')
    (hnew : ∀ c ∈ new, c.Of k i → c.msg.type = .acceptReq → c.round = (s'.props k i).term ∧
      (s'.props k i).req = some c.msg) : s'.Values (vs ++ passed s l) k i := by
  have hold : ∀ {v : Passed cfg}, v ∈ vs ++ passed s l → v.Of k i → v ∈ vs := fun hv ho =>
    (List.mem_append.mp hv).resolve_right fun hv => passed_other hno _ hv ho
  refine ⟨fun v hv ho => ?_,
    fun v hv v' hv' ho ho' => h.unique v (hold hv ho) v' (hold hv' ho') ho ho', fun q' hq' => ?_,
    fun c hc ho ht => ?_⟩
  · rw [hterm]
    exact h.rounds v (hold hv ho) ho
  · obtain ⟨v, hv, hrest⟩ := hreq q' hq'
    exact ⟨v, List.mem_append_left _ hv, hterm ▸ hrest⟩
  · rw [hg.bcasts] at hc
    rcases List.mem_append.mp hc with hc | hc
    · obtain ⟨v, hv, hrest⟩ := h.sent c hc ho ht
      exact ⟨v, List.mem_append_left _ hv, hrest⟩
    · obtain ⟨hround, hout⟩ := hnew c hc ho ht
      obtain ⟨v, hv, hov, hr, hcar⟩ := hreq c.msg hout
      exact ⟨v, List.mem_append_left _ hv, hov, hr.trans (hterm.symm.trans hround.symm), hcar⟩

/-- A call of the instance starts the round of its value, or is turned down. -/
theorem Values.call {opaqueData pinst promise : Nat} {val : List UInt8} {oom : Bool}
    (h : s.Values vs k i)
    (hs : s.step (.propose k opaqueData val pinst promise oom) = some s')
    (hi : i = pinst % cfg.plogInstNum)
    (hshort : val.length < 2 ^ 32 - proposalHeaderSz) :
    s'.Values (vs ++ passed s (.propose k opaqueData val pinst promise oom)) k i := by
  obtain ⟨hst, hg⟩ := step_propose hs hi
  rw [passed_propose hi]
  rcases proposeAsync_draws (cfg.on k) (s.props k i) i opaqueData val promise oom
      with ⟨hsame, hb⟩ | ⟨m, hb, hd⟩
  · rw [hb] at hg ⊢
    rw [List.map_nil, List.append_nil]
    have hkeep : s'.props k i = s.props k i := hst.trans hsame
    refine ⟨?_, h.unique, ?_, fun c hc => ?_⟩
    · rw [hkeep]
      exact h.rounds
    · rw [hkeep]
      exact h.waiting
    · rw [hg.bcasts, List.map_nil, List.append_nil] at hc
      exact h.sent c hc
  rw [← hst] at hd
  rw [hb] at hg ⊢
  obtain ⟨q, hq, hqm, hdata, hsize⟩ := hd.req
  have hlen : u32 val.length = val.length := by
    unfold u32
    unfold proposalHeaderSz at hshort
    omega
  have hcar : (⟨k, i, (s.props k i).term + 1, val⟩ : Passed cfg).CarriedBy q := by
    refine ⟨hdata, hsize.trans hlen, fun hpos hnil => ?_⟩
    rw [hqm.pid, hd.pid] at hpos
    have hnil' : val = [] := hnil
    rw [hnil', if_neg (by decide)] at hpos
    exact absurd hpos (Nat.lt_irrefl 0)
  have hmem : (⟨k, i, (s.props k i).term + 1, val⟩ : Passed cfg) ∈
      vs ++ [m].map fun _ => ⟨k, i, (s.props k i).term + 1, val⟩ :=
    List.mem_append_right _ (List.mem_singleton_self _)
  refine ⟨fun v hv ho => ?_, fun v hv v' hv' ho ho' hr => ?_, fun q' hq' => ?_,
    fun c hc ho ht => ?_⟩
  · rw [hd.term]
    rcases List.mem_append.mp hv with hv | hv
    · have := h.rounds v hv ho
      omega
    · obtain rfl := List.mem_singleton.mp hv
      exact Nat.le_refl _
  · rcases List.mem_append.mp hv with hv | hv
    · rcases List.mem_append.mp hv' with hv' | hv'
      · exact h.unique v hv v' hv' ho ho' hr
      · obtain rfl := List.mem_singleton.mp hv'
        have := h.rounds v hv ho
        have hr' : v.round = (s.props k i).term + 1 := hr
        omega
    · obtain rfl := List.mem_singleton.mp hv
      rcases List.mem_append.mp hv' with hv' | hv'
      · have := h.rounds v' hv' ho'
        have hr' : (s.props k i).term + 1 = v'.round := hr
        omega
      · obtain rfl := List.mem_singleton.mp hv'
        rfl
  · obtain rfl := Option.some.inj (hq.symm.trans hq')
    exact ⟨_, hmem, ⟨rfl, rfl⟩, hd.term.symm, hcar⟩
  · rw [hg.bcasts] at hc
    rcases List.mem_append.mp hc with hc | hc
    · obtain ⟨v, hv, hrest⟩ := h.sent c hc ho ht
      exact ⟨v, List.mem_append_left _ hv, hrest⟩
    · obtain rfl := List.mem_singleton.mp hc
      obtain ⟨hm, _⟩ := hd.accept ht
      obtain rfl := Option.some.inj (hq.symm.trans hm)
      exact ⟨_, hmem, ⟨rfl, rfl⟩, hd.term.symm, hcar⟩

theorem Values.step (h : s.Values vs k i) (hsane : s.Sane) (hs : s.step l = some s')
    (hok : ShortValues l) :
    s'.Values (vs ++ passed s l) k i := by
  by_cases hcall : Calls l k i
  · obtain ⟨opaqueData, val, pinst, promise, oom, rfl, hi⟩ := hcall
    exact h.call hs hi (hok _ _ _ _ _ _ rfl)
  have hno : ∀ {opaqueData : Nat} {val : List UInt8} {ev : Event}, ev = .call opaqueData val →
      ¬ Causes s s' l k i ev := by
    intro opaqueData val ev hev hc
    obtain ⟨pinst, promise, oom, hl, hi⟩ := hc.call opaqueData val hev
    exact hcall ⟨opaqueData, val, pinst, promise, oom, hl, hi⟩
  have hkept : ∀ {new : List (Bcast cfg)} {n : Nat}, Grows s s' new → (∀ c ∈ new, ¬ c.Of k i) →
      Kept n (s.props k i) (s'.props k i) → s'.Values (vs ++ passed s l) k i := by
    intro new n hg hnew hk
    refine h.quiet hcall hg hk.term (fun q' hq' => ?_) fun c hc ho => absurd ho (hnew c hc)
    obtain ⟨q, hq, _⟩ := hk.req q' hq'
    exact h.follows hs hq hq'
  have hnone : ∀ c ∈ ([] : List (Bcast cfg)), ¬ c.Of k i := fun _ hc => by cases hc
  cases hsane.instStep hs k i with
  | same new hg hst hnew => exact hkept hg hnew (by rw [hst]; exact Kept.refl 0 _)
  | moved ev sent hg hc hm =>
    cases hm with
    | kept hk => exact hkept hg hnone hk
    | counted _ _ _ _ _ _ hk => exact hkept hg hnone hk
    | accepting q a m hev hq hph hv hown hmaj hpos hm hw hst =>
      refine h.quiet hcall hg hst.2.1 (fun q' hq' => h.follows hs hq hq') fun c hc _ _ => ?_
      obtain rfl := List.mem_singleton.mp hc
      exact ⟨rfl, hw.req⟩
    | chosen q a hev hq hph hv hmaj hk hreq hlast =>
      refine h.quiet hcall hg hk.term (fun q' hq' => ?_) fun c hc _ ht => ?_
      · rw [hreq] at hq'
        cases hq'
      · obtain rfl := List.mem_singleton.mp hc
        cases ht
    | prepare _ _ _ _ hev => exact absurd hc (hno hev)
    | fast _ _ _ _ hev => exact absurd hc (hno hev)

/-! ## The acceptors -/

theorem storedBy_accept {c : Bcast cfg} (ht : c.msg.type = .acceptReq) :
    StoredBy c c.msg.pp.pentry (asAccepted c.msg.pp) :=
  ⟨ht, ⟨rfl, rfl, rfl, rfl⟩, rfl, rfl, rfl⟩

theorem StoredBy.mark {c : Bcast cfg} {e : Nat} {p : Proposal} (h : StoredBy c e p)
    (st : PaxosState) :
    StoredBy c e { p with status := st } :=
  ⟨h.type, ⟨h.same.pid, h.same.valueId, h.same.pinst, h.same.pentry⟩, h.entry, h.size, h.data⟩

theorem FromAccepts.step (h : s.FromAccepts) (hsane : s.Sane) (hs : s.step l = some s')
    (hlog : ReadsLogs s l s') : s'.FromAccepts := by
  obtain ⟨new, hg⟩ := step_grows hs
  have hold : ∀ a i e p, HeldAccepted ((s.accs a).mngs i) e p → ∃ c ∈ s'.bcasts, c.inst = i ∧
      StoredBy c e p := by
    intro a i e p hp
    obtain ⟨c, hc, hrest⟩ := h a i e p hp
    exact ⟨c, hg.mem hc, hrest⟩
  intro a i e p hp
  cases hsane.requests.step_mng hs a i with
  | same _ hm => exact hold a i e p (hm ▸ hp)
  | served bid saves c hd hc hinst hsv hm =>
    rw [hm] at hp
    rcases hsv.heldAccepted hp with hp | ⟨ht, rfl, rfl⟩ | ⟨_, rfl, q, st, hq, _, _, _, rfl⟩
    · exact hold a i e p hp
    · exact ⟨c, hg.mem (List.mem_of_getElem? hc), hinst, storedBy_accept ht⟩
    · obtain ⟨c', hc', hinst', hst⟩ := hold a i _ q hq
      exact ⟨c', hc', hinst', hst.mark st⟩
  | restart batch lastCommitted fuel hm =>
    have hf := loadAllFromDisk_fromLog (hlog _ _ _ _ _ rfl) hm
    obtain ⟨x, hx, hxa⟩ := hp
    exact hold a i e p ⟨x, .inr (hf.stored hx), hxa⟩

end

/-! ## Every run -/

/-- Logs are read back whole, and values fit their size field. -/
def PassesShort (s : Synod cfg × List (Passed cfg)) (l : SynodOp cfg)
    (s' : Synod cfg × List (Passed cfg)) : Prop :=
  ReadsLogs s.1 l s'.1 ∧ ShortValues l

theorem values_inductive : ((passSys cfg).restrict PassesShort).Inductive fun s =>
    s.1.Sane ∧ (∀ k i, s.1.Values s.2 k i) ∧ s.1.FromAccepts := by
  have hsane : ((sys cfg).restrict ReadsLogs).Inductive Sane := sane_inductive fun _ _ _ h => h
  refine (hsane.withRecord fun _ _ _ h => h.1).rel ?_ ?_
  · intro st hinit
    obtain ⟨s, vs⟩ := st
    obtain ⟨⟨sec, rfl⟩, rfl⟩ := hinit
    refine ⟨fun k i => ⟨?_, ?_, ?_, ?_⟩, ?_⟩
    · intro v hv
      cases hv
    · intro v hv
      cases hv
    · intro q hq
      cases hq
    · intro c hc
      cases hc
    · intro a i e p hp
      obtain ⟨x, hx, _⟩ := hp
      exact absurd hx new_empty
  · intro st l st' hsane _ hvals hstep
    obtain ⟨s, vs⟩ := st
    obtain ⟨s', vs'⟩ := st'
    obtain ⟨hvalues, hstored⟩ := hvals
    obtain ⟨hst, hlog, hok⟩ := hstep
    obtain ⟨hs, rfl⟩ := LTS.recorded_eq hst
    exact ⟨fun k i => (hvalues k i).step hsane hs hok, hstored.step hsane hs hlog⟩

/-- A proposal held as accepted or chosen is that of an ACCEPT of the round of a call
for the instance, and carries the bytes of the call's value, which is not empty. -/
structure OfCall (s : Synod cfg) (v : Passed cfg) (i e : Nat) (p : Proposal) : Prop where
  inst : v.inst = i ∧ p.pinst = i
  entry : p.pentry = e
  val : v.val ≠ []
  data : p.data = v.val
  size : p.size = v.val.length
  sent : ∃ c ∈ s.bcasts, c.Of v.src i ∧ c.round = v.round ∧ c.msg.type = .acceptReq ∧
    Same p c.msg.pp

/-- Whatever an acceptor holds as accepted or chosen carries the value of one call, and
no ACCEPT is sent in the round of a read probe. -/
theorem validity {s : Synod cfg × List (Passed cfg)}
    (h : ((passSys cfg).restrict PassesShort).Reachable s) :
    (∀ a i e p, HeldAccepted ((s.1.accs a).mngs i) e p → ∃ v ∈ s.2, s.1.OfCall v i e p) ∧
      ∀ v ∈ s.2, v.val = [] →
        ∀ c ∈ s.1.bcasts, c.Of v.src v.inst → c.round = v.round → c.msg.type ≠ .acceptReq := by
  obtain ⟨hsane, hvalues, hstored⟩ := values_inductive.reachable s h
  -- the call behind an ACCEPT has a value, since the ACCEPT has an id
  have hcall : ∀ c ∈ s.1.bcasts, c.msg.type = .acceptReq →
      ∃ v ∈ s.2, v.Of c.src c.inst ∧ v.round = c.round ∧ v.CarriedBy c.msg ∧ v.val ≠ [] := by
    intro c hc ht
    obtain ⟨v, hv, ho, hr, hcar⟩ := (hvalues c.src c.inst).sent c hc ⟨rfl, rfl⟩ ht
    exact ⟨v, hv, ho, hr, hcar, hcar.probe ((hsane.bcast hc).accept ht)⟩
  refine ⟨fun a i e p hp => ?_, fun v hv hnil c hc ho hr ht => ?_⟩
  · obtain ⟨c, hc, rfl, hst⟩ := hstored a i e p hp
    obtain ⟨v, hv, ho, hr, hcar, hne⟩ := hcall c hc hst.type
    refine ⟨v, hv, ⟨ho.2, hst.same.pinst.trans (hsane.bcast hc).pinst⟩, hst.entry, hne, ?_,
      hst.size.trans hcar.size, c, hc, ⟨ho.1.symm, rfl⟩, hr.symm, hst.type, hst.same⟩
    rw [hst.data, hcar.data, hcar.size, List.take_length]
  · obtain ⟨v', hv', ho', hr', _, hne⟩ := hcall c hc ht
    obtain ⟨hsrc, hinst⟩ := ho
    rw [hsrc, hinst] at ho'
    refine hne ?_
    rw [(hvalues v.src v.inst).unique v' hv' v hv ho' ⟨rfl, rfl⟩ (hr'.trans hr), hnil]

/-- The step is no restart, and its value is short. -/
def passesShort : SynodOp cfg → Bool
  | .propose _ _ val _ _ _ => val.length < 2 ^ 32 - proposalHeaderSz
  | l => !isRestart l

theorem ok_of_passesShort {s s' : Synod cfg × List (Passed cfg)} {l : SynodOp cfg}
    (h : passesShort l = true) :
    PassesShort s l s' := by
  refine ⟨readsLogs_of_not_restart ?_, ?_⟩
  · cases l with
    | restart => exact h
    | _ => rfl
  · intro k opaqueData val pinst promise oom heq
    subst heq
    exact of_decide_eq_true h

def ranPassed : Option (Synod (Configure.init 0) × List (Passed (Configure.init 0))) :=
  LTS.exec (fun s l => (LTS.recorded step passed s l).filter fun _ => passesShort l)
    (start _ fun _ => 7, []) firstRound

/-- Acceptor 0 holds the value of proposer 0's call. -/
theorem validity_first :
    (∃ p, HeldAccepted (((ranPassed.get (by decide +kernel)).1.accs ⟨0, by decide⟩).mngs 0) 1 p) ∧
      ∀ p, HeldAccepted (((ranPassed.get (by decide +kernel)).1.accs ⟨0, by decide⟩).mngs 0) 1 p →
        ∃ v ∈ (ranPassed.get (by decide +kernel)).2,
          (ranPassed.get (by decide +kernel)).1.OfCall v 0 1 p := by
  refine ⟨?_, fun p hp => (validity ⟨_, _, ⟨⟨_, rfl⟩, rfl⟩,
    LTS.run_of_guarded (g := fun _ l _ => passesShort l)
    (fun _ _ _ _ h => ok_of_passesShort h) (Option.some_get _).symm⟩).1 _ _ _ p hp⟩
  have hheld : (((ranPassed.get (by decide +kernel)).1.accs ⟨0, by decide⟩).mngs 0).disk 1 |>.any
      fun x => x.accepted.isSome := by decide +kernel
  obtain ⟨x, hx, hxa⟩ := (Option.any_eq_true _ _).mp hheld
  obtain ⟨p, hp⟩ := Option.isSome_iff_exists.mp hxa
  exact ⟨p, x, .inr hx, hp⟩

end Synod
end Quarrel
