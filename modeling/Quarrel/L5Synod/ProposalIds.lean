import Quarrel.L5Synod.ChosenSound
import Quarrel.L5Synod.Fields

/-!
# The ids of the proposals

Two calls for one entry must not carry the same proposal id. The generators of two
proposers stand on different residues, and one generator only goes up, until a
chosen entry resets it; an instance is past the entry then, unless it is told again
of the entry it knows as the last chosen one. And the id is OR-ed with the cookie,
where a bit they share is lost.

* `calls`: the calls that started a round for a value, recorded along the run.
* `IdsApart`: the step draws no id that shares a bit with the cookie, and is no second
  notification of the entry below the one the instance has called for.
* `unique_ids`: in runs that meet it no two calls for one entry share the id.
* `not_alwaysUnique`: notified of entry 5, a call, a timeout, notified again, a call.
-/
namespace Quarrel

open InstanceState EntryMng

variable {cfg : Configure}

/-- A call with a value that has started a round: the id it drew, and the one it carries. -/
structure Call (cfg : Configure) where
  src : Fin cfg.totalProposer
  inst : Nat
  entry : Nat
  id : Nat
  pid : Nat
  deriving DecidableEq

def Call.Of (c : Call cfg) (k : Fin cfg.totalProposer) (i : Nat) : Prop := c.src = k ∧ c.inst = i

namespace Synod

/-- The call that step `l` is, if its value is not empty and it starts a round. -/
def calls (s : Synod cfg) : SynodOp cfg → List (Call cfg)
  | .propose k opaqueData val pinst promise oom =>
    if val = [] then []
    else (broadcasts ((s.props k).proposeAsync (cfg.on k) opaqueData val pinst promise oom).2).map fun m =>
      ⟨k, m.pp.pinst, m.pp.pentry, (s.props k (pinst % cfg.plogInstNum)).ig.id, m.pp.pid⟩
  | _ => []

/-- The runs of a synod, with the calls made. -/
def callSys (cfg : Configure) : LTS (Synod cfg × List (Call cfg)) (SynodOp cfg) :=
  .withRecord (fun s => ∃ sec, s = start cfg sec) step calls

/-- No two calls for one entry of one instance carry the same id. -/
def UniqueIds (cs : List (Call cfg)) : Prop :=
  cs.Pairwise fun c c' => c'.inst = c.inst → c'.entry = c.entry → c'.pid ≠ c.pid

/-- What keeps the ids of step `l` apart from those of the calls before it. -/
structure IdsApart (s : Synod cfg × List (Call cfg)) (l : SynodOp cfg) : Prop where
  value : ∀ k opaqueData val pinst promise oom, l = .propose k opaqueData val pinst promise oom →
    val.length < 2 ^ 32
  cookie : ∀ c ∈ calls s.1 l, c.id &&& cfg.pidCookie = 0
  notice : ∀ k msg fromPlog, l = .entryChosen k msg fromPlog →
    ¬ (fromPlog ∧ (s.1.props k (cfg.mngOf msg.pp.pinst)).proposerId ≠ 0) →
    msg.pp.pentry ≠ 0 → msg.pp.pentry ≠ noEntry →
    msg.pp.pentry = (s.1.props k (cfg.mngOf msg.pp.pinst)).lastChosenEntry →
    ∀ c ∈ s.2, c.Of k (cfg.mngOf msg.pp.pinst) → c.entry ≠ msg.pp.pentry + 1

/-- Where the calls of instance `i` of proposer `k` stand. -/
structure Drawn (s : Synod cfg) (cs : List (Call cfg)) (k : Fin cfg.totalProposer) (i : Nat) :
    Prop where
  entry : ∀ c ∈ cs, c.Of k i → c.entry ≤ (s.props k i).lastChosenEntry + 1
  below : ∀ c ∈ cs, c.Of k i → c.entry = (s.props k i).lastChosenEntry + 1 →
    c.id < (s.props k i).ig.id
  outstanding : ∀ q, (s.props k i).req = some q → ∀ c ∈ cs, c.Of k i → c.entry ≤ q.pp.pentry

/-- The id a call drew is of the residue of its proposer, and it carries that id beside the
cookie. -/
structure CallOk (c : Call cfg) : Prop where
  id : ∃ j, c.id = getMemberIdBySvrId cfg.totalProposer c.inst c.src + 1 + j * cfg.totalProposer
  apart : c.id &&& cfg.pidCookie = 0
  pid : c.pid = c.id ||| cfg.pidCookie

theorem CallOk.id_eq {c c' : Call cfg} (h : CallOk c) (h' : CallOk c') (he : c'.pid = c.pid) :
    c'.id = c.id := by
  rw [h.pid, h'.pid] at he
  refine Nat.eq_of_testBit_eq fun i => ?_
  have hbit : (c'.id.testBit i || cfg.pidCookie.testBit i) = (c.id.testBit i || cfg.pidCookie.testBit i) := by
    rw [← Nat.testBit_or, ← Nat.testBit_or, he]
  have hno : ∀ {x : Nat}, x &&& cfg.pidCookie = 0 → (x.testBit i && cfg.pidCookie.testBit i) = false := by
    intro x hx
    rw [← Nat.testBit_and, hx, Nat.zero_testBit]
  have hc := hno h.apart
  have hc' := hno h'.apart
  grind

section

variable {s s' : Synod cfg} {cs : List (Call cfg)} {l : SynodOp cfg} {k : Fin cfg.totalProposer}
  {i : Nat}

theorem calls_of (hc : ∀ c ∈ calls s l, ¬ c.Of k i) {c : Call cfg} (h : c ∈ cs ++ calls s l)
    (ho : c.Of k i) : c ∈ cs :=
  (List.mem_append.mp h).resolve_right fun h => hc c h ho

theorem propose_cases (s : Synod cfg) (k : Fin cfg.totalProposer) (opaqueData : Nat)
    (val : List UInt8)
    (pinst promise : Nat) (oom : Bool) {i : Nat} (hi : i = pinst % cfg.plogInstNum) :
    (((s.props k i).proposeAsync (cfg.on k) i opaqueData val promise oom).1 = s.props k i ∧
        calls s (.propose k opaqueData val pinst promise oom) = []) ∨
      ∃ m, Draws (cfg.on k) (s.props k i) ((s.props k i).proposeAsync (cfg.on k) i opaqueData val promise oom).1 i
          val m ∧
        calls s (.propose k opaqueData val pinst promise oom) = if val = [] then []
          else [⟨k, i, (s.props k i).lastChosenEntry + 1, (s.props k i).ig.id, m.pp.pid⟩] := by
  subst hi
  have hcalls : calls s (.propose k opaqueData val pinst promise oom) = if val = [] then []
      else (broadcasts ((s.props k (pinst % cfg.plogInstNum)).proposeAsync (cfg.on k) (pinst % cfg.plogInstNum)
        opaqueData val promise oom).2).map fun m =>
          ⟨k, m.pp.pinst, m.pp.pentry, (s.props k (pinst % cfg.plogInstNum)).ig.id, m.pp.pid⟩ := rfl
  rw [hcalls]
  rcases proposeAsync_draws (cfg.on k) (s.props k (pinst % cfg.plogInstNum)) (pinst % cfg.plogInstNum) opaqueData
    val promise oom with ⟨hst, hb⟩ | ⟨m, hb, hd⟩
  · refine .inl ⟨hst, ?_⟩
    rw [hb]
    simp
  · refine .inr ⟨m, hd, ?_⟩
    rw [hb]
    simp [hd.pinst, hd.pentry]

theorem u32_length_ne_zero {val : List UInt8} (hne : val ≠ []) (hlt : val.length < 2 ^ 32) :
    u32 val.length ≠ 0 := by
  unfold u32
  rw [Nat.mod_eq_of_lt hlt]
  exact fun h0 => hne (List.eq_nil_of_length_eq_zero h0)

theorem mem_calls {c : Call cfg} (h : c ∈ calls s l) :
    ∃ opaqueData val pinst promise oom, l = .propose c.src opaqueData val pinst promise oom ∧
      c.inst = pinst % cfg.plogInstNum ∧ val ≠ [] ∧ c.entry = (s.props c.src c.inst).lastChosenEntry + 1 ∧
      c.id = (s.props c.src c.inst).ig.id ∧
      (u32 val.length ≠ 0 → c.pid = c.id ||| cfg.pidCookie) ∧ calls s l = [c] := by
  cases l with
  | propose k opaqueData val pinst promise oom =>
    rcases propose_cases s k opaqueData val pinst promise oom rfl with ⟨_, hc⟩ | ⟨m, hd, hc⟩
    · rw [hc] at h
      cases h
    · by_cases hval : val = []
      · rw [hc, if_pos hval] at h
        cases h
      · rw [if_neg hval] at hc
        rw [hc] at h
        obtain rfl := List.mem_singleton.mp h
        exact ⟨opaqueData, val, pinst, promise, oom, rfl, rfl, hval, rfl, rfl,
          fun hne => by rw [hd.pid, if_pos hne]; rfl, hc⟩
  | _ => cases h

theorem calls_other (hno : ¬ Calls l k i) : ∀ c ∈ calls s l, ¬ c.Of k i := by
  intro c hc ho
  obtain ⟨rfl, rfl⟩ := ho
  obtain ⟨opaqueData, val, pinst, promise, oom, hl, hi, _⟩ := mem_calls hc
  exact hno ⟨opaqueData, val, pinst, promise, oom, hl, hi⟩

theorem Drawn.same (h : s.Drawn cs k i) (hst : s'.props k i = s.props k i) : s'.Drawn cs k i := by
  refine ⟨?_, ?_, ?_⟩
  · rw [hst]
    exact h.entry
  · rw [hst]
    exact h.below
  · rw [hst]
    exact h.outstanding

theorem Drawn.quiet (h : s.Drawn cs k i) (hno : ¬ Calls l k i)
    (hentry : (s.props k i).lastChosenEntry ≤ (s'.props k i).lastChosenEntry)
    (hbelow : ∀ c ∈ cs, c.Of k i → c.entry = (s'.props k i).lastChosenEntry + 1 →
      c.id < (s'.props k i).ig.id)
    (hreq : ∀ q', (s'.props k i).req = some q' →
      ∃ q, (s.props k i).req = some q ∧
      q'.pp.pentry = q.pp.pentry) : s'.Drawn (cs ++ calls s l) k i := by
  have hold := calls_other (s := s) hno
  refine ⟨fun c hc ho => ?_, fun c hc ho => hbelow c (calls_of hold hc ho) ho,
    fun q' hq' c hc ho => ?_⟩
  · have := h.entry c (calls_of hold hc ho) ho
    omega
  · obtain ⟨q, hq, he⟩ := hreq q' hq'
    rw [he]
    exact h.outstanding q hq c (calls_of hold hc ho) ho

theorem Drawn.keeps (h : s.Drawn cs k i) (hsane : s.Sane) (hno : ¬ Calls l k i)
    (hk : KeepsIds (s.props k i) (s'.props k i)) (hreq : ∀ q', (s'.props k i).req = some q' →
      ∃ q, (s.props k i).req = some q ∧
      q'.pp.pentry = q.pp.pentry) : s'.Drawn (cs ++ calls s l) k i := by
  refine h.quiet hno (Nat.le_of_eq hk.entry.symm) (fun c hc ho he => ?_) hreq
  rw [hk.entry] at he
  have hlt := h.below c hc ho he
  rcases hk.ig with hig | ⟨v, hig⟩
  · rw [hig]
    exact hlt
  · have hstep : 0 < (s.props k i).ig.step := by
      rw [(hsane.rounds k i).ig.1]
      exact cfg.proposer_pos
    have := (IdGen.setGreaterThan_ge (s.props k i).ig v hstep).2
    rw [hig]
    omega

theorem Drawn.call {opaqueData promise : Nat} {val : List UInt8} {oom : Bool} {pinst : Nat}
    (h : s.Drawn cs k i) (hsane : s.Sane) (hl : l = .propose k opaqueData val pinst promise oom)
    (hi : i = pinst % cfg.plogInstNum)
    (hst : s'.props k i = ((s.props k i).proposeAsync (cfg.on k) i opaqueData val promise oom).1)
    (hval : val.length < 2 ^ 32) : s'.Drawn (cs ++ calls s l) k i := by
  subst hl
  rcases propose_cases s k opaqueData val pinst promise oom hi with ⟨hsame, hc⟩ | ⟨m, hd, hc⟩
  · rw [hc, List.append_nil]
    exact h.same (hst.trans hsame)
  rw [← hst] at hd
  obtain ⟨q, hq, hqm, _⟩ := hd.req
  have hqe : q.pp.pentry = (s.props k i).lastChosenEntry + 1 := hqm.pentry.trans hd.pentry
  rw [hc]
  split
  · rename_i hnil
    rw [List.append_nil]
    have hig : (s'.props k i).ig = (s.props k i).ig := by
      rw [hd.ig, hnil]
      rfl
    refine ⟨fun c hc ho => ?_, fun c hc ho he => ?_, fun q' hq' c hc ho => ?_⟩
    · rw [hd.entry]
      exact h.entry c hc ho
    · rw [hd.entry] at he
      rw [hig]
      exact h.below c hc ho he
    · obtain rfl := Option.some.inj (hq.symm.trans hq')
      rw [hqe]
      exact h.entry c hc ho
  · rename_i hne
    have hig : (s'.props k i).ig.id = (s.props k i).ig.id + cfg.totalProposer := by
      rw [hd.ig, if_pos (u32_length_ne_zero hne hval)]
      show (s.props k i).ig.id + (s.props k i).ig.step = _
      rw [(hsane.rounds k i).ig.1]
    have hpos := cfg.proposer_pos
    refine ⟨fun c hc ho => ?_, fun c hc ho he => ?_, fun q' hq' c hc ho => ?_⟩
    · rw [hd.entry]
      rcases List.mem_append.mp hc with hc | hc
      · exact h.entry c hc ho
      · obtain rfl := List.mem_singleton.mp hc
        exact Nat.le_refl _
    · rw [hd.entry] at he
      rw [hig]
      rcases List.mem_append.mp hc with hc | hc
      · have := h.below c hc ho he
        omega
      · obtain rfl := List.mem_singleton.mp hc
        show (s.props k i).ig.id < _
        omega
    · obtain rfl := Option.some.inj (hq.symm.trans hq')
      rw [hqe]
      rcases List.mem_append.mp hc with hc | hc
      · exact h.entry c hc ho
      · obtain rfl := List.mem_singleton.mp hc
        exact Nat.le_refl _

/-- A notification moves the instance past all its calls, or repeats the entry before
one it has not called for. -/
theorem Drawn.told {msg : PaxosMsg} {fromPlog : Bool} (h : s.Drawn cs k i)
    (hl : l = .entryChosen k msg fromPlog)
    (hst : s'.props k i = (s.props k i).onEntryChosen msg.pp fromPlog)
    (hok : ¬ (fromPlog ∧ (s.props k i).proposerId ≠ 0) → msg.pp.pentry ≠ 0 →
      msg.pp.pentry ≠ noEntry →
      msg.pp.pentry = (s.props k i).lastChosenEntry → ∀ c ∈ cs, c.Of k i → c.entry ≠ msg.pp.pentry + 1) :
    s'.Drawn (cs ++ calls s l) k i := by
  have hcalls : calls s l = [] := by
    rw [hl]
    rfl
  rw [hcalls, List.append_nil]
  unfold InstanceState.onEntryChosen at hst
  split at hst
  · exact h.same hst
  rename_i hplog
  rcases updateChosenInfo_cases (s.props k i) msg.pp.pentry msg.pp.proposer
      with ⟨_, hu⟩ | ⟨h0, h1, hle, hu⟩
  · exact h.same (hst.trans hu)
  rw [hu] at hst
  have hlast : (s'.props k i).lastChosenEntry = msg.pp.pentry := by rw [hst]
  refine ⟨fun c hc ho => ?_, fun c hc ho he => ?_, fun q hq c hc ho => ?_⟩
  · have := h.entry c hc ho
    omega
  · rw [hlast] at he
    by_cases heq : msg.pp.pentry = (s.props k i).lastChosenEntry
    · exact absurd he (hok hplog h0 h1 heq c hc ho)
    · have := h.entry c hc ho
      omega
  · rw [hst] at hq
    exact h.outstanding q hq c hc ho

/-- A majority for the instance's own round: no call is for a later entry. -/
theorem Drawn.chosen {rid : Nat} {q : PaxosMsg} {x : Answer cfg} (h : s.Drawn cs k i)
    (hsane : s.Sane)
    (hl : l = .reply rid) (hx : s.Awaited k i x) (hph : (s.props k i).phase = acceptingPhase)
    (hq : (s.props k i).req = some q) (hv : ValidAccept q x.msg)
    (hr : Records (s.props k i) (s'.props k i) x.msg.pp.pentry) :
    s'.Drawn (cs ++ calls s l) k i := by
  obtain ⟨c₀, hans, _, hcur⟩ := hsane.answered hx hq (.inr ⟨hph, hv⟩)
  have hentry : x.msg.pp.pentry = q.pp.pentry :=
    ((hans.vote hv.type hv.errcode hv.status).1.trans hcur.same.symm).pentry
  have hcalls : calls s l = [] := by
    rw [hl]
    rfl
  rw [hcalls, List.append_nil]
  refine ⟨fun c hc ho => ?_, fun c hc ho he => ?_, fun q' hq' => ?_⟩
  · have := h.entry c hc ho
    have := hr.le
    have := hr.entry
    omega
  · have := h.outstanding q hq c hc ho
    have := hr.entry
    omega
  · rw [hr.req] at hq'
    cases hq'

theorem Drawn.step (h : s.Drawn cs k i) (hsane : s.Sane) (hs : s.step l = some s')
    (hok : IdsApart (s, cs) l) :
    s'.Drawn (cs ++ calls s l) k i := by
  cases hsane.step_ids hs k i with
  | keeps hno hk hreq => exact h.keeps hsane hno hk hreq
  | call opaqueData val pinst promise oom hl hi hst =>
    exact h.call hsane hl hi hst (hok.value k opaqueData val pinst promise oom hl)
  | told msg fromPlog hl hi hst =>
    subst hi
    exact h.told hl hst (hok.notice k msg fromPlog hl)
  | chosen rid q x hl hx hph hq hv hr => exact h.chosen hsane hl hx hph hq hv hr

theorem fresh_call {c c' : Call cfg} (hsane : s.Sane) (hdrawn : s.Drawn cs c.src c.inst)
    (hc : c ∈ calls s l)
    (hc' : c' ∈ cs) (hok' : CallOk c') (hinst : c'.inst = c.inst) (hentry : c'.entry = c.entry) :
    c'.id ≠ c.id := by
  obtain ⟨_, _, _, _, _, _, _, _, he, hid, _⟩ := mem_calls hc
  by_cases hsrc : c'.src = c.src
  · have hlt := hdrawn.below c' hc' ⟨hsrc, hinst⟩ (hentry.trans he)
    omega
  · intro heq
    obtain ⟨j', hj'⟩ := hok'.id
    obtain ⟨_, j, hj⟩ := (hsane.rounds c.src c.inst).ig
    rw [(hsane.rounds c.src c.inst).proposerId] at hj
    rw [hinst] at hj'
    have hmember := IdGen.onStep_inj (memberId_lt c'.src.isLt) (memberId_lt c.src.isLt)
      (hj'.symm.trans (heq.trans (hid.trans hj)))
    exact hsrc (Fin.ext (memberId_inj c'.src.isLt hmember))

theorem callOk_calls {c : Call cfg} (hsane : s.Sane) (hc : c ∈ calls s l)
    (hok : IdsApart (s, cs) l) : CallOk c := by
  obtain ⟨opaqueData, val, pinst, promise, oom, hl, _, hval, _, hid, hpid, _⟩ := mem_calls hc
  refine ⟨?_, hok.cookie c hc, hpid (u32_length_ne_zero hval (hok.value _ _ _ _ _ _ hl))⟩
  obtain ⟨_, j, hj⟩ := (hsane.rounds c.src c.inst).ig
  rw [(hsane.rounds c.src c.inst).proposerId] at hj
  exact ⟨j, hid.trans hj⟩

theorem UniqueIds.step (h : UniqueIds cs) (hsane : s.Sane) (hdrawn : ∀ k i, s.Drawn cs k i)
    (hcs : ∀ c ∈ cs, CallOk c) (hok : IdsApart (s, cs) l) : UniqueIds (cs ++ calls s l) := by
  refine List.pairwise_append.mpr ⟨h, ?_, fun c' hc' c hc hinst hentry => ?_⟩
  · by_cases hnil : calls s l = []
    · rw [hnil]
      exact List.Pairwise.nil
    · obtain ⟨c, hc⟩ := List.exists_mem_of_ne_nil _ hnil
      obtain ⟨_, _, _, _, _, _, _, _, _, _, _, hone⟩ := mem_calls hc
      rw [hone]
      exact List.pairwise_singleton _ _
  · have hne := fresh_call hsane (hdrawn c.src c.inst) hc hc' (hcs c' hc') hinst.symm hentry.symm
    exact fun he => hne ((callOk_calls hsane hc hok).id_eq (hcs c' hc') he.symm)

end

/-- The steps that read back logs whole and keep the ids apart. -/
def KeepsApart (s : Synod cfg × List (Call cfg)) (l : SynodOp cfg)
    (s' : Synod cfg × List (Call cfg)) : Prop :=
  ReadsLogs s.1 l s'.1 ∧ IdsApart s l

theorem ids_inductive : ((callSys cfg).restrict KeepsApart).Inductive fun s =>
    s.1.Sane ∧ (∀ k i, s.1.Drawn s.2 k i) ∧ (∀ c ∈ s.2, CallOk c) ∧ UniqueIds s.2 := by
  have hsane : ((sys cfg).restrict ReadsLogs).Inductive Sane := sane_inductive fun _ _ _ h => h
  refine (hsane.withRecord fun _ _ _ h => h.1).rel ?_ ?_
  · intro st hinit
    obtain ⟨s, cs⟩ := st
    obtain ⟨⟨sec, rfl⟩, rfl⟩ := hinit
    refine ⟨fun k i => ⟨?_, ?_, ?_⟩, ?_, List.Pairwise.nil⟩
    · intro c hc
      cases hc
    · intro c hc
      cases hc
    · intro q hq
      cases hq
    · intro c hc
      cases hc
  · intro st l st' hsane _ hids hstep
    obtain ⟨s, cs⟩ := st
    obtain ⟨s', cs'⟩ := st'
    obtain ⟨hdrawn, hcs, hunique⟩ := hids
    obtain ⟨hst, _, hok⟩ := hstep
    obtain ⟨hs, rfl⟩ := LTS.recorded_eq hst
    refine ⟨fun k i => (hdrawn k i).step hsane hs hok, fun c hc => ?_,
      hunique.step hsane hdrawn hcs hok⟩
    rcases List.mem_append.mp hc with hc | hc
    · exact hcs c hc
    · exact callOk_calls hsane hc hok

/-- In a run whose steps keep the ids apart no two calls for one entry of one instance,
of whatever proposers, carry the same id. -/
theorem unique_ids {s : Synod cfg × List (Call cfg)}
    (h : ((callSys cfg).restrict KeepsApart).Reachable s) :
    UniqueIds s.2 :=
  (ids_inductive.reachable s h).2.2.2

/-- The peers of proposer 0 tell it that entry 5 of instance 0 is chosen. -/
def entryFive : PaxosMsg :=
  { allocProposalMsg 0 with pp := { allocProposal 0 with pentry := 5, proposer := 1 } }

/-- No restart, no notification after a call, and no value too long for its length field. -/
def noticedFirst (s : Synod cfg × List (Call cfg)) : SynodOp cfg → Bool
  | .entryChosen .. => s.2.isEmpty
  | .propose _ _ val _ _ _ => val.length < 2 ^ 32
  | l => !isRestart l

theorem keepsApart_of_noticedFirst {s s' : Synod cfg × List (Call cfg)} {l : SynodOp cfg}
    (hcookie : cfg.pidCookie = 0) (h : noticedFirst s l = true) : KeepsApart s l s' := by
  refine ⟨?_, ?_, ?_, ?_⟩
  · refine readsLogs_of_not_restart ?_
    cases l with
    | restart => exact h
    | _ => rfl
  · intro k opaqueData val pinst promise oom heq
    subst heq
    exact of_decide_eq_true h
  · intro c _
    rw [hcookie, Nat.and_zero]
  · intro k msg fromPlog heq _ _ _ _ c hc
    subst heq
    rw [List.isEmpty_iff.mp h] at hc
    cases hc

def ranCalls : Option (Synod (Configure.init 0) × List (Call (Configure.init 0))) :=
  LTS.exec (fun s l => (LTS.recorded step calls s l).filter fun _ => noticedFirst s l) (start _ fun _ => 7, [])
    [.entryChosen ⟨0, first_of_three⟩ entryFive false, .propose ⟨0, first_of_three⟩ 0 [7] 0 0 false,
      .timeout ⟨0, first_of_three⟩ 0 0 6, .propose ⟨0, first_of_three⟩ 0 [8] 0 1 false]

/-- Two calls of proposer 0 for entry 6. -/
theorem unique_ids_first : (ranCalls.get (by decide +kernel)).2.length = 2 ∧
    UniqueIds (ranCalls.get (by decide +kernel)).2 :=
  ⟨by decide +kernel, unique_ids ⟨_, _, ⟨⟨_, rfl⟩, rfl⟩,
    LTS.run_of_guarded (g := fun s l _ => noticedFirst s l)
    (fun _ _ _ _ h => keepsApart_of_noticedFirst rfl h) (Option.some_get _).symm⟩⟩

/-! ## Notified twice -/

def ranNotices : Option (Synod (Configure.init 0) × List (Call (Configure.init 0))) :=
  LTS.exec (fun s l => (LTS.recorded step calls s l).filter fun _ => !isRestart l) (start _ fun _ => 7, [])
    [.entryChosen ⟨0, first_of_three⟩ entryFive false, .propose ⟨0, first_of_three⟩ 0 [7] 0 0 false,
      .timeout ⟨0, first_of_three⟩ 0 0 6, .entryChosen ⟨0, first_of_three⟩ entryFive false,
      .propose ⟨0, first_of_three⟩ 0 [8] 0 1 false]

/-- Both calls are for entry 6, and both carry the id 1. -/
theorem not_alwaysUnique :
    ¬ ∀ (cfg : Configure) (s : Synod cfg × List (Call cfg)),
      ((callSys cfg).restrict fun s l s' => ReadsLogs s.1 l s'.1).Reachable s → UniqueIds s.2 := by
  intro hall
  have hrun : ((callSys (Configure.init 0)).restrict fun s l s' => ReadsLogs s.1 l s'.1).Run
      (start _ fun _ => 7, [])
      _ (ranNotices.get (by decide +kernel)) :=
    LTS.run_of_guarded (g := fun _ l _ => !isRestart l) (fun _ _ _ _ h => readsLogs_of_not_restart h)
      (Option.some_get _).symm
  have hunique := hall _ _ ⟨_, _, ⟨⟨_, rfl⟩, rfl⟩, hrun⟩
  have hsame : ¬ UniqueIds (ranNotices.get (by decide +kernel)).2 := by
    unfold UniqueIds
    decide +kernel
  exact hsame hunique

end Synod
end Quarrel
