import Quarrel.L3Role.Counters
import Quarrel.L4Acceptor.Durable

/-!
# Requests whose saves all fail

Each write path sets the cached entry first and saves it then. The CHOSEN handler
takes its change back when the save fails; the other three paths do not, and the
one that does sets the status ACCEPTED whatever it was.

* `failedWrite_iff`: when a request with failing saves leaves the acceptor as it was.
* `not_failedWrite`: a PREPARE whose save fails is remembered.
-/
namespace Quarrel

open EntryMng

/-- All saves fail. -/
def Saves.bad : Saves := ⟨false, false⟩

/-- The ACCEPT calls `ClearPromised` and nothing before. -/
def ClearsPromised (m : EntryMng) (pp : Proposal) : Prop :=
  ¬ Behind m pp ∧ ∃ a, (m.opened pp.pentry).Repeats pp a

/-- The CHOSEN is for the accepted proposal `a`. -/
def Matches (m : EntryMng) (pp a : Proposal) : Prop :=
  (m.opened pp.pentry).accepted = some a ∧ pp.pid = a.pid ∧ pp.valueId = a.valueId

/-- The request makes the acceptor save the entry. -/
def NeedsWrite (m : EntryMng) (msg : PaxosMsg) : Prop :=
  (msg.type = .prepareReq ∧ SetsPromised m msg.pp) ∨
    (msg.type = .acceptReq ∧ (SetsAccepted m msg.pp ∨ ClearsPromised m msg.pp)) ∨
    (msg.type = .chosenReq ∧ ∃ a, Matches m msg.pp a ∧ a.status ≠ .chosen)

/-- The entry of the request and the two counters are those of `m`, but for what the check of
the request's last chosen entry sets. -/
structure Intact (m m' : EntryMng) (msg : PaxosMsg) : Prop where
  accepted : (m'.opened msg.pp.pentry).accepted = (m.opened msg.pp.pentry).accepted
  promised : (m'.opened msg.pp.pentry).promised = (m.opened msg.pp.pentry).promised
  chosen : m'.lastChosenEntry = m.lastChosenEntry
  global : m'.globalMaxChosenEntry =
    if msg.type = .prepareReq ∨ msg.type = .acceptReq then (checked m msg.pp).globalMaxChosenEntry
    else m.globalMaxChosenEntry

/-- With failing saves the message changes nothing, and reports no success if it needed one. -/
def FailsClean (cfg : Configure) (a : Acceptor) (msg : PaxosMsg) : Prop :=
  Intact (a.mngs (cfg.mngOf msg.pp.pinst))
      ((a.doHandleMsg cfg Saves.bad msg).2.mngs (cfg.mngOf msg.pp.pinst)) msg ∧
    (NeedsWrite (a.mngs (cfg.mngOf msg.pp.pinst)) msg →
      ∀ rsp, (a.doHandleMsg cfg Saves.bad msg).1 = some rsp → rsp.errcode ≠ ErrCode.ok)

/-- The message takes none of the paths that write ahead of a save and do not take it back. -/
structure WritesNothing (m : EntryMng) (msg : PaxosMsg) : Prop where
  promise : msg.type = .prepareReq → ¬ SetsPromised m msg.pp
  vote : msg.type = .acceptReq → ¬ SetsAccepted m msg.pp
  clear : msg.type = .acceptReq → ClearsPromised m msg.pp →
    (m.opened msg.pp.pentry).promised = none
  mark : msg.type = .chosenReq → ∀ a, Matches m msg.pp a → a.status = .chosen ∨ a.status = .accepted

theorem EntryMng.Acts.opened {m m' : EntryMng} {e : Nat} {ent : Entry} {d : Nat → Option Entry}
    {lc : Nat} (h : Acts m m' e ent d lc) : m'.opened e = ent := opened_of_cached h.cached

section

variable {m : EntryMng} {msg : PaxosMsg} {h : Handled}

theorem PrepareDone.failsClean (hd : PrepareDone m Saves.bad msg.pp h) :
    ((h.mng.opened msg.pp.pentry).accepted = (m.opened msg.pp.pentry).accepted ∧
        (h.mng.opened msg.pp.pentry).promised = (m.opened msg.pp.pentry).promised ↔
      ¬ SetsPromised m msg.pp) ∧ h.mng.lastChosenEntry = m.lastChosenEntry ∧
      (SetsPromised m msg.pp → h.rsp.errcode ≠ ErrCode.ok) := by
  cases hd with
  | behind hb hm =>
    rw [hm]
    exact ⟨⟨fun _ hset => hset.1 hb, fun _ => ⟨rfl, rfl⟩⟩, rfl, fun hset => absurd hb hset.1⟩
  | voted a hb ha hm =>
    have hno : ¬ SetsPromised m msg.pp := by
      intro hset
      have := hset.2.1
      rw [ha] at this
      cases this
    rw [hm.opened]
    exact ⟨⟨fun _ => hno, fun _ => ⟨rfl, rfl⟩⟩, hm.lastChosen, fun hset => absurd hset hno⟩
  | kept pr hb ha hp hle hm =>
    have hno : ¬ SetsPromised m msg.pp := fun hset => Nat.not_lt.mpr hle (hset.2.2.1 pr hp)
    rw [hm.opened]
    exact ⟨⟨fun _ => hno, fun _ => ⟨rfl, rfl⟩⟩, hm.lastChosen, fun hset => absurd hset hno⟩
  | probed hb ha hp h0 hm =>
    have hno : ¬ SetsPromised m msg.pp := by
      intro hset
      have := hset.2.2.2
      omega
    rw [hm.opened]
    exact ⟨⟨fun _ => hno, fun _ => ⟨rfl, rfl⟩⟩, hm.lastChosen, fun hset => absurd hset hno⟩
  | promised _ _ _ _ hs => cases hs
  | failed hb ha hp hpos hs hm hr =>
    have hset : SetsPromised m msg.pp := ⟨hb, ha, hp, hpos⟩
    rw [hm.opened]
    refine ⟨⟨fun hsame => ?_, fun hno => absurd hset hno⟩, hm.lastChosen, fun _ => ?_⟩
    · have := hp _ hsame.2.symm
      rw [asPromised_pid] at this
      omega
    · rw [hr, prepareRsp_errcode]
      decide

theorem AcceptDone.failsClean (hd : AcceptDone m Saves.bad msg.pp h) :
    ((h.mng.opened msg.pp.pentry).accepted = (m.opened msg.pp.pentry).accepted ∧
        (h.mng.opened msg.pp.pentry).promised = (m.opened msg.pp.pentry).promised ↔
      ¬ SetsAccepted m msg.pp ∧
        (ClearsPromised m msg.pp → (m.opened msg.pp.pentry).promised = none)) ∧
      h.mng.lastChosenEntry = m.lastChosenEntry ∧
      (SetsAccepted m msg.pp ∨ ClearsPromised m msg.pp → h.rsp.errcode ≠ ErrCode.ok) := by
  cases hd with
  | behind hb hm =>
    rw [hm]
    exact ⟨⟨fun _ => ⟨fun hset => hset.1 hb, fun hc => absurd hb hc.1⟩, fun _ => ⟨rfl, rfl⟩⟩, rfl,
      fun hset => absurd hb (hset.elim And.left And.left)⟩
  | repeated a hb ha hm hr =>
    have hclears : ClearsPromised m msg.pp := ⟨hb, a, ha⟩
    have hno : ¬ SetsAccepted m msg.pp := by
      intro hset
      have hlt := (hset.2.over ha.1).2
      have heq := ha.2.2.1
      omega
    rw [hm.opened]
    refine ⟨⟨fun hsame => ⟨hno, fun _ => hsame.2.symm⟩, fun hq => ⟨rfl, (hq.2 hclears).symm⟩⟩,
      hm.lastChosen, fun _ => ?_⟩
    rw [hr, acceptRsp_errcode]
    decide
  | accepted _ _ hs => cases hs
  | failed hb ha hs hm hr =>
    have hset : SetsAccepted m msg.pp := ⟨hb, ha⟩
    rw [hm.opened]
    refine ⟨⟨fun hsame => ?_, fun hq => absurd hset hq.1⟩, hm.lastChosen, fun _ => ?_⟩
    · have hlt := (ha.over hsame.1.symm).2
      rw [asAccepted_pid] at hlt
      omega
    · rw [hr, acceptRsp_errcode]
      decide
  | refused errcode src hb hadm hrep hsrc hm hr =>
    have hno : ¬ SetsAccepted m msg.pp := fun hset => hadm hset.2
    have hno' : ¬ ClearsPromised m msg.pp := fun hc => hc.2.elim fun a ha => hrep a ha
    rw [hm.opened]
    exact ⟨⟨fun _ => ⟨hno, fun hc => absurd hc hno'⟩, fun _ => ⟨rfl, rfl⟩⟩, hm.lastChosen,
      fun hset => hset.elim (fun h => absurd h hno) fun h => absurd h hno'⟩

theorem ChosenDone.failsClean (hd : ChosenDone m Saves.bad msg.pp h) :
    ((h.mng.opened msg.pp.pentry).accepted = (m.opened msg.pp.pentry).accepted ∧
        (h.mng.opened msg.pp.pentry).promised = (m.opened msg.pp.pentry).promised ↔
      ∀ a, Matches m msg.pp a → a.status = .chosen ∨ a.status = .accepted) ∧
      h.mng.lastChosenEntry = m.lastChosenEntry ∧
      ((∃ a, Matches m msg.pp a ∧ a.status ≠ .chosen) → h.rsp.errcode ≠ ErrCode.ok) := by
  have hone : ∀ a a', (m.opened msg.pp.pentry).accepted = some a → Matches m msg.pp a' → a' = a := by
    intro a a' ha hmat
    exact Option.some.inj (hmat.1.symm.trans ha)
  cases hd with
  | mismatch ha hm =>
    have hno : ∀ a, ¬ Matches m msg.pp a := by
      intro a hmat
      rcases ha a hmat.1 with hne | hne
      · exact hne hmat.2.1
      · exact hne hmat.2.2
    rw [hm.opened]
    exact ⟨⟨fun _ a hmat => absurd hmat (hno a), fun _ => ⟨rfl, rfl⟩⟩, hm.lastChosen,
      fun hset => hset.elim fun a hset => absurd hset.1 (hno a)⟩
  | already a ha hpid hvid hst hm =>
    rw [hm.opened]
    refine ⟨⟨fun _ a' hmat => ?_, fun _ => ⟨rfl, rfl⟩⟩, hm.lastChosen, fun hset => ?_⟩
    · rw [hone a a' ha hmat]
      exact .inl hst
    · obtain ⟨a', hmat, hne⟩ := hset
      rw [hone a a' ha hmat] at hne
      exact absurd hst hne
  | chosen _ _ _ _ _ hs => cases hs
  | failed a ha hpid hvid hst hs hm hr =>
    rw [hm.opened]
    refine ⟨⟨fun hsame a' hmat => ?_, fun hq => ⟨?_, rfl⟩⟩, hm.lastChosen, fun _ => ?_⟩
    · rw [hone a a' ha hmat]
      exact .inr (congrArg Proposal.status (Option.some.inj (hsame.1.trans ha))).symm
    · have hacc := (hq a ⟨ha, hpid, hvid⟩).resolve_left hst
      rw [ha, ← hacc]
    · rw [hr, chosenSavedRsp_errcode]
      decide

end

theorem Served.branches {m : EntryMng} {saves : Saves} {pp : Proposal} {t : PaxosMsgType}
    {h : Handled} (hs : Served m saves pp t h) :
    (t = .prepareReq ∧ PrepareDone m saves pp h) ∨ (t = .acceptReq ∧ AcceptDone m saves pp h) ∨
      (t = .chosenReq ∧ ChosenDone m saves pp h) := by
  cases hs with
  | prepare hd => exact .inl ⟨rfl, hd⟩
  | accept hd => exact .inr (.inl ⟨rfl, hd⟩)
  | chosen hd => exact .inr (.inr ⟨rfl, hd⟩)

theorem failedWrite_global {m : EntryMng} {msg : PaxosMsg} {rt : PaxosMsgType}
    {f : EntryMng → Saves → Proposal → Handled} (hh : handlerOf msg.type = some (rt, f)) :
    (f m Saves.bad msg.pp).mng.globalMaxChosenEntry =
      if msg.type = .prepareReq ∨ msg.type = .acceptReq then
        (checked m msg.pp).globalMaxChosenEntry
      else m.globalMaxChosenEntry := by
  have hcases : msg.type ≠ .chosenReq → msg.type = .prepareReq ∨ msg.type = .acceptReq := by
    intro hne
    unfold handlerOf at hh
    split at hh
    · exact .inl ‹_›
    · exact .inr ‹_›
    · exact absurd ‹_› hne
    · cases hh
  rcases handler_counters m Saves.bad msg.pp hh with ⟨hne, hsame, _⟩ | ⟨ht, _, hsame⟩
  · rw [if_pos (hcases hne)]
    exact hsame.global
  · rw [ht, if_neg (by decide)]
    rcases hsame with hsame | ⟨hs, _⟩
    · exact hsame.global
    · cases hs

/-- A message whose saves fail changes its entry, if anything. -/
theorem intact_iff {m : EntryMng} {msg : PaxosMsg} {rt : PaxosMsgType}
    {f : EntryMng → Saves → Proposal → Handled} (hh : handlerOf msg.type = some (rt, f))
    (hlast : (f m Saves.bad msg.pp).mng.lastChosenEntry = m.lastChosenEntry) :
    Intact m (f m Saves.bad msg.pp).mng msg ↔
      ((f m Saves.bad msg.pp).mng.opened msg.pp.pentry).accepted =
          (m.opened msg.pp.pentry).accepted ∧
        ((f m Saves.bad msg.pp).mng.opened msg.pp.pentry).promised =
          (m.opened msg.pp.pentry).promised :=
  ⟨fun h => ⟨h.accepted, h.promised⟩, fun h => ⟨h.1, h.2, hlast, failedWrite_global hh⟩⟩

/-! ## By the type of the message -/

section

variable {m : EntryMng} {msg : PaxosMsg}

theorem writesNothing_iff : WritesNothing m msg ↔
    (msg.type = .prepareReq → ¬ SetsPromised m msg.pp) ∧
      (msg.type = .acceptReq → ¬ SetsAccepted m msg.pp) ∧
      (msg.type = .acceptReq → ClearsPromised m msg.pp →
        (m.opened msg.pp.pentry).promised = none) ∧
      (msg.type = .chosenReq → ∀ a, Matches m msg.pp a →
        a.status = .chosen ∨ a.status = .accepted) := by
  constructor
  · intro h
    exact ⟨h.promise, h.vote, h.clear, h.mark⟩
  · intro ⟨h1, h2, h3, h4⟩
    exact ⟨h1, h2, h3, h4⟩

theorem writesNothing_prepare (ht : msg.type = .prepareReq) :
    WritesNothing m msg ↔ ¬ SetsPromised m msg.pp := by
  rw [writesNothing_iff, ht]
  simp

theorem writesNothing_accept (ht : msg.type = .acceptReq) :
    WritesNothing m msg ↔ ¬ SetsAccepted m msg.pp ∧
      (ClearsPromised m msg.pp → (m.opened msg.pp.pentry).promised = none) := by
  rw [writesNothing_iff, ht]
  simp

theorem writesNothing_chosen (ht : msg.type = .chosenReq) :
    WritesNothing m msg ↔
      ∀ a, Matches m msg.pp a → a.status = .chosen ∨ a.status = .accepted := by
  rw [writesNothing_iff, ht]
  simp

theorem needsWrite_prepare (ht : msg.type = .prepareReq) :
    NeedsWrite m msg ↔ SetsPromised m msg.pp := by
  simp [NeedsWrite, ht]

theorem needsWrite_accept (ht : msg.type = .acceptReq) :
    NeedsWrite m msg ↔ SetsAccepted m msg.pp ∨ ClearsPromised m msg.pp := by
  simp [NeedsWrite, ht]

theorem needsWrite_chosen (ht : msg.type = .chosenReq) :
    NeedsWrite m msg ↔ ∃ a, Matches m msg.pp a ∧ a.status ≠ .chosen := by
  simp [NeedsWrite, ht]

end

/-- With failing saves a request changes nothing exactly if it takes no path that
writes first. -/
theorem failedWrite_iff {cfg : Configure} {a : Acceptor} {msg : PaxosMsg}
    (hpos : 0 < (a.mngs (cfg.mngOf msg.pp.pinst)).entries.maxSize) :
    FailsClean cfg a msg ↔ WritesNothing (a.mngs (cfg.mngOf msg.pp.pinst)) msg := by
  have hmem : ∀ {rt : PaxosMsgType} {f : EntryMng → Saves → Proposal → Handled},
      handlerOf msg.type = some (rt, f) → Served (a.mngs (cfg.mngOf msg.pp.pinst)) Saves.bad msg.pp
        msg.type (f (a.mngs (cfg.mngOf msg.pp.pinst)) Saves.bad msg.pp) :=
    fun hh => served_of_handler hpos Saves.bad msg.pp hh
  unfold FailsClean Acceptor.doHandleMsg
  cases hh : handlerOf msg.type with
  | none =>
    have htype : msg.type ≠ .prepareReq ∧ msg.type ≠ .acceptReq ∧ msg.type ≠ .chosenReq := by
      refine ⟨?_, ?_, ?_⟩ <;> (intro ht; rw [ht] at hh; cases hh)
    obtain ⟨h1, h2, h3⟩ := htype
    have hglobal : Intact (a.mngs (cfg.mngOf msg.pp.pinst)) (a.mngs (cfg.mngOf msg.pp.pinst)) msg :=
      ⟨rfl, rfl, rfl, (if_neg (not_or.mpr ⟨h1, h2⟩)).symm⟩
    have hwrite : ¬ NeedsWrite (a.mngs (cfg.mngOf msg.pp.pinst)) msg := by
      intro hw
      rcases hw with hw | hw | hw
      · exact h1 hw.1
      · exact h2 hw.1
      · exact h3 hw.1
    refine iff_of_true ⟨?_, fun hw => absurd hw hwrite⟩
      ⟨fun ht => absurd ht h1, fun ht => absurd ht h2, fun ht => absurd ht h2, fun ht => absurd ht h3⟩
    dsimp only
    split <;> exact hglobal
  | some p =>
    obtain ⟨rt, f⟩ := p
    have hs := hmem hh
    dsimp only
    rw [Function.update_self]
    generalize a.mngs (cfg.mngOf msg.pp.pinst) = m at hs ⊢
    rcases hs.branches with ⟨ht, hd⟩ | ⟨ht, hd⟩ | ⟨ht, hd⟩
    · obtain ⟨hsame, hlast, hcode⟩ := hd.failsClean
      rw [intact_iff hh hlast, hsame, writesNothing_prepare ht, needsWrite_prepare ht]
      refine and_iff_left fun hw rsp hr => ?_
      obtain rfl := Option.some.inj hr
      exact hcode hw
    · obtain ⟨hsame, hlast, hcode⟩ := hd.failsClean
      rw [intact_iff hh hlast, hsame, writesNothing_accept ht, needsWrite_accept ht]
      refine and_iff_left fun hw rsp hr => ?_
      obtain rfl := Option.some.inj hr
      exact hcode hw
    · obtain ⟨hsame, hlast, hcode⟩ := hd.failsClean
      rw [intact_iff hh hlast, hsame, writesNothing_chosen ht, needsWrite_chosen ht]
      refine and_iff_left fun hw rsp hr => ?_
      obtain rfl := Option.some.inj hr
      exact hcode hw

theorem failedWrite_iff_fresh :
    let a := Acceptor.new (Configure.init 0) fun _ _ => none
    let msg := requestOf .prepareReq 5 7 1 []
    FailsClean (Configure.init 0) a msg ↔ WritesNothing (a.mngs 0) msg :=
  failedWrite_iff (by decide)

/-- The promise of the PREPARE stays in memory. -/
theorem not_failedWrite : ¬ ∀ (cfg : Configure) (a : Acceptor) (msg : PaxosMsg),
    (acceptorSys cfg).Reachable a → FailsClean cfg a msg := by
  intro hall
  let a₀ := Acceptor.new (Configure.init 0) fun _ _ => none
  have h := (hall (Configure.init 0) a₀ (requestOf .prepareReq 5 7 1 []) (.of_init rfl)).1.promised
  cases h

end Quarrel
