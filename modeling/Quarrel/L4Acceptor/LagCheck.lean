import Quarrel.Core.LTS
import Quarrel.L2Plog.Recount
import Quarrel.L3Role.Counters

/-!
# The lag check (`core/plog.cpp:260-277`)

Three counters, two encodings of none: `~0` in a manager just constructed or reset, 0 in
a recovered one. The check returns early only if both local counters are `~0`; it asserts
that the last chosen entry is not above the largest in use, and compares the last chosen
entry with the global one as they are.

* `lagAnswers_iff`: where the check is right, for counters as they can be.
* `ordered_step_iff`: the step that keeps it right.
* `lagAnswers_run_iff`: over a run from construction it stays right exactly if every step
  does so.
* `not_lagAnswers`: entry 3, opened by a manager just constructed.
-/
namespace Quarrel

namespace EntryMng

/-- `none` is a failed assertion.
mirrors core/plog.cpp:261-277 -/
def isLocalChosenLagBehind (m : EntryMng) : Option Bool :=
  if m.maxInUsedEntry = noEntry ∧ m.lastChosenEntry = noEntry then some false
  else if m.maxInUsedEntry ≥ m.lastChosenEntry then
    some (decide (m.lastChosenEntry < m.globalMaxChosenEntry))
  else none

/-- mirrors core/plog.cpp:156-164 -/
def reset (m : EntryMng) : EntryMng :=
  { m with
    entries := m.entries.clear
    firstValidEntry := noEntry
    lastChosenEntry := noEntry
    maxInUsedEntry := noEntry
    firstUnchosenEntry := noEntry
    maxContinueChosenEntry := 0
    globalMaxChosenEntry := noEntry }

end EntryMng

inductive PlogOp where
  | load (batch : Batch) (lastCommitted : Except Int Nat) (fuel : Nat)
  | reset
  | create (entry : Nat)
  | setPromised (ok : Bool) (p : Proposal)
  | setAccepted (ok : Bool) (p : Proposal)
  | clearPromised (ok : Bool) (entry : Nat)
  | setChosen (ok : Bool) (entry : Nat)
  | setGlobal (entry : Nat)

namespace EntryMng

/-- `none` is a recovery that has not ended. -/
def plogStep (m : EntryMng) : PlogOp → Option EntryMng
  | .load batch lastCommitted fuel => (loadAllFromDisk batch lastCommitted fuel m).map (·.2)
  | .reset => some m.reset
  | .create entry => some (m.getEntryAndCreateIfNotExist entry).2
  | .setPromised ok p => some (m.setPromised ok p).2
  | .setAccepted ok p => some (m.setAccepted ok p).2
  | .clearPromised ok entry => some (m.clearPromised ok entry).2
  | .setChosen ok entry => some (m.setChosen ok entry).2
  | .setGlobal entry => some (m.setGlobalMaxChosenEntry entry)

end EntryMng

open EntryMng

/-- Entry numbers are below `~0`. -/
def PlogOp.Real : PlogOp → Prop
  | .load batch _ _ => ∀ b l, batch b noEntry = .ok l → ∀ x ∈ l, x.entry < noEntry
  | .reset => True
  | .create entry => entry < noEntry
  | .setPromised _ p => p.pentry < noEntry
  | .setAccepted _ p => p.pentry < noEntry
  | .clearPromised _ entry => entry < noEntry
  | .setChosen _ entry => entry < noEntry
  | .setGlobal entry => entry < noEntry

/-- The managers constructed over any storage. -/
def plogSys (cfg : Configure) (pinst : Nat) : LTS EntryMng PlogOp :=
  (LTS.ofFn (fun m => ∃ disk, m = EntryMng.new cfg pinst disk) plogStep).restrict fun _ op _ => op.Real

namespace EntryMng

/-- An unset counter counts as 0. -/
def orZero (n : Nat) : Nat := if n = noEntry then 0 else n

/-- The assertion holds and the answer is right. -/
def LagAnswers (m : EntryMng) : Prop :=
  m.isLocalChosenLagBehind = some (decide (orZero m.lastChosenEntry < orZero m.globalMaxChosenEntry))

instance (m : EntryMng) : Decidable m.LagAnswers := inferInstanceAs (Decidable (_ = _))

/-- A successful `SetChosen`: the entry is in the cache or stored, it has an accepted proposal and
the save succeeds. -/
def Chooses (m : EntryMng) (ok : Bool) (entry : Nat) : Prop :=
  ok = true ∧ ∃ ent, (m.getEntry entry).1 = some ent ∧ ent.accepted.isSome

/-- The steps that keep the counters in order: the first entry opened is not below the last chosen
one, which there is; an entry that becomes chosen is not above the largest in use; and the first
entry known to be chosen is chosen locally. -/
def KeepsOrder (m : EntryMng) : PlogOp → Prop
  | .create entry => m.cached entry = none → m.maxInUsedEntry = noEntry →
      m.lastChosenEntry ≠ noEntry ∧ m.lastChosenEntry ≤ entry
  | .setChosen ok entry => m.Chooses ok entry → entry ≤ m.maxInUsedEntry
  | .setGlobal entry => m.lastChosenEntry = noEntry → entry = 0
  | _ => True

/-! ## The counters -/

/-- What the counters always are. -/
structure LagWf (m : EntryMng) : Prop where
  used : m.maxInUsedEntry ≤ noEntry
  chosen : m.lastChosenEntry ≤ noEntry
  global : m.globalMaxChosenEntry ≤ noEntry
  known : m.lastChosenEntry ≠ noEntry → m.globalMaxChosenEntry ≠ noEntry

/-- The counters are in order. -/
structure Ordered (m : EntryMng) : Prop where
  some : m.lastChosenEntry ≠ noEntry → m.lastChosenEntry ≤ m.maxInUsedEntry
  none : m.lastChosenEntry = noEntry →
    m.maxInUsedEntry = noEntry ∧ (m.globalMaxChosenEntry = noEntry ∨ m.globalMaxChosenEntry = 0)

theorem lagAnswers_iff {m : EntryMng} (h : LagWf m) : m.LagAnswers ↔ Ordered m := by
  have hused := h.used
  have hpos : 0 < noEntry := by decide
  unfold LagAnswers isLocalChosenLagBehind orZero
  by_cases hlast : m.lastChosenEntry = noEntry
  · by_cases hmax : m.maxInUsedEntry = noEntry
    · rw [if_pos ⟨hmax, hlast⟩, if_pos hlast]
      constructor
      · intro heq
        have hno := of_decide_eq_false (Option.some.inj heq).symm
        refine ⟨fun hne => absurd hlast hne, fun _ => ⟨hmax, ?_⟩⟩
        by_cases hg : m.globalMaxChosenEntry = noEntry
        · exact .inl hg
        · rw [if_neg hg] at hno
          exact .inr (by omega)
      · intro ho
        rcases (ho.none hlast).2 with hg | hg <;> rw [hg]
        · rw [if_pos rfl]
          rfl
        · rw [if_neg (by omega)]
          rfl
    · rw [if_neg fun hb => hmax hb.1, if_neg (by omega)]
      exact iff_of_false (fun he => by cases he) fun ho => hmax (ho.none hlast).1
  · have hg := h.known hlast
    rw [if_neg fun hb => hlast hb.2, if_neg hlast, if_neg hg]
    by_cases hle : m.maxInUsedEntry ≥ m.lastChosenEntry
    · rw [if_pos hle]
      exact iff_of_true rfl ⟨fun _ => hle, fun he => absurd he hlast⟩
    · rw [if_neg hle]
      exact iff_of_false (fun he => by cases he) fun ho => hle (ho.some hlast)

/-! ## The operations -/

/-- The three counters of the check agree. -/
structure SameLag (m m' : EntryMng) : Prop where
  used : m'.maxInUsedEntry = m.maxInUsedEntry
  chosen : m'.lastChosenEntry = m.lastChosenEntry
  global : m'.globalMaxChosenEntry = m.globalMaxChosenEntry

theorem SameLag.wf {m m' : EntryMng} (h : SameLag m m') (hm : LagWf m) : LagWf m' := by
  refine ⟨?_, ?_, ?_, ?_⟩
  · exact h.used ▸ hm.used
  · exact h.chosen ▸ hm.chosen
  · exact h.global ▸ hm.global
  · rw [h.chosen, h.global]
    exact hm.known

theorem SameLag.symm {m m' : EntryMng} (h : SameLag m m') : SameLag m' m :=
  ⟨h.used.symm, h.chosen.symm, h.global.symm⟩

theorem SameLag.ordered {m m' : EntryMng} (h : SameLag m m') (hm : Ordered m) : Ordered m' := by
  refine ⟨?_, ?_⟩
  · rw [h.chosen, h.used]
    exact hm.some
  · rw [h.chosen, h.used, h.global]
    exact hm.none

theorem SameLag.ordered_iff {m m' : EntryMng} (h : SameLag m m') : Ordered m' ↔ Ordered m :=
  ⟨h.symm.ordered, h.ordered⟩

section

variable {m : EntryMng} {e : Nat} {ok : Bool}

theorem getEntry_used : (m.getEntry e).2.maxInUsedEntry = m.maxInUsedEntry := by
  unfold getEntry
  cases m.entries.getPtr e with
  | some r => rfl
  | none =>
    dsimp only
    split <;> rfl

theorem saveEntry_used {ent : Entry} : (m.saveEntry ok e ent).2.maxInUsedEntry = m.maxInUsedEntry := by
  cases ok <;> rfl

theorem write_used (c : Int) (f : Entry → Entry) :
    (match m.getEntry e with
      | (none, m₁) => (c, m₁)
      | (some ent, m₁) => (m₁.setEntry e (f ent)).saveEntry ok e (f ent)).2.maxInUsedEntry =
      m.maxInUsedEntry := by
  have hg := getEntry_used (m := m) (e := e)
  generalize m.getEntry e = r at hg ⊢
  obtain ⟨o, m₁⟩ := r
  cases o with
  | none => exact hg
  | some ent => exact saveEntry_used.trans hg

theorem sameLag_setPromised (p : Proposal) : SameLag m (m.setPromised ok p).2 :=
  have h := sameCounters_setPromised m ok p
  ⟨write_used ErrCode.entryNotExist fun ent => { ent with promised := some (cloneProposal p) },
    h.chosen, h.global⟩

theorem sameLag_setAccepted (p : Proposal) : SameLag m (m.setAccepted ok p).2 :=
  have h := sameCounters_setAccepted m ok p
  ⟨write_used ErrCode.entryNotExist fun ent => { ent with accepted := some (cloneProposal p) },
    h.chosen, h.global⟩

theorem sameLag_clearPromised : SameLag m (m.clearPromised ok e).2 :=
  have h := sameCounters_clearPromised m e ok
  ⟨write_used ErrCode.plogNotExist fun ent => { ent with promised := none }, h.chosen, h.global⟩

theorem sameLag_setChosen (h : m.Chooses ok e) : SameLag (m.countChosen e) (m.setChosen ok e).2 := by
  obtain ⟨rfl, ent, hent, hacc⟩ := h
  have hused := getEntry_used (m := m) (e := e)
  have hcount := sameCounters_getEntry m e
  unfold setChosen
  generalize m.getEntry e = r at hent hused hcount ⊢
  obtain ⟨o, m₁⟩ := r
  obtain rfl : o = some ent := hent
  obtain ⟨a, ha⟩ := Option.isSome_iff_exists.mp hacc
  have hchosen := hcount.countChosen e
  simp only [Entry.setChosen, ha, ne_eq, not_true_eq_false, if_false]
  exact ⟨hused, hchosen.chosen, hchosen.global⟩

theorem sameLag_setChosen_of_not (h : ¬ m.Chooses ok e) : SameLag m (m.setChosen ok e).2 := by
  have hused := getEntry_used (m := m) (e := e)
  have hcount := sameCounters_getEntry m e
  unfold Chooses at h
  unfold setChosen
  generalize m.getEntry e = r at h hused hcount ⊢
  obtain ⟨o, m₁⟩ := r
  cases o with
  | none => exact ⟨hused, hcount.chosen, hcount.global⟩
  | some ent =>
    cases ha : ent.accepted with
    | none =>
      simp only [Entry.setChosen, ha]
      exact ⟨hused, hcount.chosen, hcount.global⟩
    | some a =>
      have hok : ok = false := by
        cases ok with
        | false => rfl
        | true => exact absurd ⟨rfl, ent, rfl, by rw [ha]; rfl⟩ h
      subst hok
      simp only [Entry.setChosen, ha, ne_eq, not_true_eq_false, if_false]
      exact ⟨hused, hcount.chosen, hcount.global⟩

theorem create_used : (m.getEntryAndCreateIfNotExist e).2.maxInUsedEntry = m.usedAfter e := by
  unfold getEntryAndCreateIfNotExist createEntry usedAfter
  cases hc : m.cached e with
  | some ent =>
    have hp : m.entries.getPtr e ≠ none := fun hn => by
      cases (LruMap.getPtr_eq_none.mp hn).symm.trans hc
    obtain ⟨r, hr⟩ := Option.ne_none_iff_exists'.mp hp
    simp [hr]
  | none =>
    simp only [getPtr_none hc, gt_iff_lt, Reads, true_and]
    split <;> rfl

end

/-! ## A recovery -/

/-- The counters of a recovery under way. -/
structure Counting (m : EntryMng) : Prop where
  le : m.lastChosenEntry ≤ m.maxInUsedEntry
  lt : m.maxInUsedEntry < noEntry

theorem recoverFold_counting : ∀ (l : List Entry) (m : EntryMng) (s : Nat),
    (∀ x ∈ l, x.entry < noEntry) → Counting m → Counting (l.foldl recoverEntry (m, s)).1
  | [], _, _, _, h => h
  | ent :: l, m, s, hl, h => by
    refine recoverFold_counting l _ _ (fun x hx => hl x (List.mem_cons_of_mem _ hx)) ?_
    have hlt := hl ent List.mem_cons_self
    have hle := h.le
    have hmax := h.lt
    constructor
    · show (if ent.status = .chosen ∧ ent.entry > m.lastChosenEntry then ent.entry else m.lastChosenEntry) ≤
        if ent.entry > m.maxInUsedEntry then ent.entry else m.maxInUsedEntry
      split <;> split <;> omega
    · show (if ent.entry > m.maxInUsedEntry then ent.entry else m.maxInUsedEntry) < noEntry
      split <;> omega

theorem recoverLoop_counting {batch : Batch}
    (hb : ∀ b l, batch b noEntry = .ok l → ∀ x ∈ l, x.entry < noEntry) :
    ∀ (fuel : Nat) (m m' : EntryMng) (s : Nat), Counting m →
      recoverLoop batch noEntry fuel m s = some m' → Counting m'
  | 0, _, _, _, _, he => by simp [recoverLoop] at he
  | fuel + 1, m, m', s, h, he => by
    unfold recoverLoop at he
    split at he
    · exact Option.some.inj he ▸ h
    · exact Option.some.inj he ▸ h
    · rename_i ent ents hl
      exact recoverLoop_counting hb fuel _ _ _ (recoverFold_counting _ _ _ (hb _ _ hl) h) he

theorem load_ordered {batch : Batch} {lastCommitted : Except Int Nat} {fuel : Nat} {m : EntryMng}
    {r : Bool × EntryMng} (hb : ∀ b l, batch b noEntry = .ok l → ∀ x ∈ l, x.entry < noEntry)
    (h : loadAllFromDisk batch lastCommitted fuel m = some r) : r.2 = m ∨ LagWf r.2 ∧ Ordered r.2 := by
  cases lastCommitted with
  | error c =>
    cases h
    exact .inl rfl
  | ok committed =>
    cases hl : recoverLoop batch noEntry fuel (m.resetCounters committed) 1 with
    | none => simp [loadAllFromDisk, recoverRange, hl] at h
    | some m₁ =>
      rw [loadAllFromDisk_of_loop hl] at h
      cases h
      have hc := recoverLoop_counting hb fuel _ m₁ 1 ⟨Nat.le_refl 0, (by decide : 0 < noEntry)⟩ hl
      have hlt : m₁.lastChosenEntry < noEntry := Nat.lt_of_le_of_lt hc.le hc.lt
      exact .inr ⟨⟨hc.lt.le, hlt.le, hlt.le, fun _ => hlt.ne⟩, fun _ => hc.le, fun he => absurd he hlt.ne⟩

/-! ## A step -/

theorem lagWf_new (cfg : Configure) (pinst : Nat) (disk : Nat → Option Entry) :
    LagWf (new cfg pinst disk) ∧ Ordered (new cfg pinst disk) :=
  ⟨⟨Nat.le_refl _, Nat.le_refl _, Nat.le_refl _, fun h => absurd rfl h⟩, fun h => absurd rfl h,
    fun _ => ⟨rfl, .inl rfl⟩⟩

theorem lagWf_reset (m : EntryMng) : LagWf m.reset ∧ Ordered m.reset :=
  ⟨⟨Nat.le_refl _, Nat.le_refl _, Nat.le_refl _, fun h => absurd rfl h⟩, fun h => absurd rfl h,
    fun _ => ⟨rfl, .inl rfl⟩⟩

section

variable {m : EntryMng} {e : Nat}

theorem usedAfter_le (hm : LagWf m) (he : e < noEntry) : m.usedAfter e ≤ noEntry := by
  unfold usedAfter
  split
  · exact he.le
  · exact hm.used

theorem create_lagWf (hm : LagWf m) (he : e < noEntry) : LagWf (m.getEntryAndCreateIfNotExist e).2 := by
  have h := sameCounters_open m e
  refine ⟨create_used ▸ usedAfter_le hm he, h.chosen ▸ hm.chosen, h.global ▸ hm.global, ?_⟩
  rw [h.chosen, h.global]
  exact hm.known

/-- Opening an entry keeps the order, unless it is the first one and not above the last chosen. -/
theorem create_ordered_iff (ho : Ordered m) (he : e < noEntry) :
    Ordered (m.getEntryAndCreateIfNotExist e).2 ↔ KeepsOrder m (.create e) := by
  have h := sameCounters_open m e
  have hiff : Ordered (m.getEntryAndCreateIfNotExist e).2 ↔
      (m.lastChosenEntry ≠ noEntry → m.lastChosenEntry ≤ m.usedAfter e) ∧
        (m.lastChosenEntry = noEntry → m.usedAfter e = noEntry ∧
          (m.globalMaxChosenEntry = noEntry ∨ m.globalMaxChosenEntry = 0)) := by
    constructor
    · intro ho'
      have hsome := ho'.some
      have hnone := ho'.none
      rw [h.chosen, create_used] at hsome hnone
      rw [h.global] at hnone
      exact ⟨hsome, hnone⟩
    · rintro ⟨hsome, hnone⟩
      constructor
      · rw [h.chosen, create_used]
        exact hsome
      · rw [h.chosen, create_used, h.global]
        exact hnone
  have hsome := ho.some
  have hnone := ho.none
  rw [hiff]
  unfold usedAfter KeepsOrder Reads
  by_cases hc : m.cached e = none
  · by_cases hmax : m.maxInUsedEntry = noEntry
    · simp only [hc, hmax, true_or, and_self, if_true, true_implies]
      constructor
      · rintro ⟨h1, h2⟩
        have hne : m.lastChosenEntry ≠ noEntry := fun hl => by
          have := (h2 hl).1
          omega
        exact ⟨hne, h1 hne⟩
      · rintro ⟨hne, hle⟩
        exact ⟨fun _ => hle, fun hl => absurd hl hne⟩
    · refine iff_of_true ?_ fun _ hm => absurd hm hmax
      have hne : m.lastChosenEntry ≠ noEntry := fun hl => hmax (hnone hl).1
      have hle := hsome hne
      refine ⟨fun _ => ?_, fun hl => absurd hl hne⟩
      split <;> omega
  · refine iff_of_true ?_ fun hn => absurd hn hc
    rw [if_neg fun hb => hc hb.1]
    exact ⟨hsome, hnone⟩

theorem countChosen_lagWf (hm : LagWf m) (he : e < noEntry) : LagWf (m.countChosen e) := by
  have h1 := hm.chosen
  have h2 := hm.global
  refine ⟨hm.used, ?_, ?_, fun _ => ?_⟩
  · show (if _ then e else m.lastChosenEntry) ≤ noEntry
    split <;> omega
  · show (if _ then e else m.globalMaxChosenEntry) ≤ noEntry
    split <;> omega
  · show (if _ then e else m.globalMaxChosenEntry) ≠ noEntry
    split
    · exact he.ne
    · rename_i hn
      exact fun hg => hn (.inl hg)

/-- Counting a chosen entry keeps the order, unless it is above the largest in use. -/
theorem countChosen_ordered_iff (ho : Ordered m) (he : e < noEntry) :
    Ordered (m.countChosen e) ↔ e ≤ m.maxInUsedEntry := by
  have hchosen : (m.countChosen e).lastChosenEntry =
      if m.lastChosenEntry = noEntry ∨ m.lastChosenEntry < e then e else m.lastChosenEntry := rfl
  have hreal : (m.countChosen e).lastChosenEntry ≠ noEntry := by
    rw [hchosen]
    split
    · exact he.ne
    · rename_i hn
      exact fun hl => hn (.inl hl)
  have hmax : (m.countChosen e).maxInUsedEntry = m.maxInUsedEntry := rfl
  have hsome := ho.some
  have hnone := ho.none
  constructor
  · intro ho'
    have hle := ho'.some hreal
    rw [hmax, hchosen] at hle
    split at hle
    · exact hle
    · omega
  · intro hle
    refine ⟨fun _ => ?_, fun hl => absurd hl hreal⟩
    rw [hmax, hchosen]
    split
    · exact hle
    · rename_i hn
      exact hsome fun hl => hn (.inl hl)

theorem setGlobal_lagWf (hm : LagWf m) (he : e < noEntry) : LagWf (m.setGlobalMaxChosenEntry e) := by
  unfold setGlobalMaxChosenEntry
  split
  · exact hm
  · exact ⟨hm.used, hm.chosen, he.le, fun _ => he.ne⟩

theorem setGlobal_ordered_iff (ho : Ordered m) (he : e < noEntry) :
    Ordered (m.setGlobalMaxChosenEntry e) ↔ KeepsOrder m (.setGlobal e) := by
  unfold setGlobalMaxChosenEntry
  by_cases hl : m.lastChosenEntry = noEntry
  · obtain ⟨hused, hg⟩ := ho.none hl
    split
    · rename_i hge
      refine iff_of_true ho fun _ => ?_
      rcases hg with hg | hg
      · exact absurd hg hge.1
      · omega
    · constructor
      · intro ho' _
        rcases (ho'.none hl).2 with h0 | h0
        · exact absurd h0 he.ne
        · exact h0
      · intro hk
        exact ⟨fun hne => absurd hl hne, fun _ => ⟨hused, .inr (hk hl)⟩⟩
  · refine iff_of_true ?_ fun h => absurd h hl
    split
    · exact ho
    · exact ⟨ho.some, fun h => absurd h hl⟩

/-- Which steps keep the counters in order. -/
theorem ordered_step_iff {m' : EntryMng} {op : PlogOp} (hm : LagWf m) (ho : Ordered m) (hop : op.Real)
    (hst : m.plogStep op = some m') : LagWf m' ∧ (Ordered m' ↔ KeepsOrder m op) := by
  cases op with
  | load batch lastCommitted fuel =>
    obtain ⟨r, hr, rfl⟩ := Option.map_eq_some_iff.mp hst
    rcases load_ordered hop hr with hr | ⟨hw, hr⟩
    · rw [hr]
      exact ⟨hm, iff_of_true ho trivial⟩
    · exact ⟨hw, iff_of_true hr trivial⟩
  | reset =>
    cases hst
    exact ⟨(lagWf_reset m).1, iff_of_true (lagWf_reset m).2 trivial⟩
  | create entry =>
    cases hst
    exact ⟨create_lagWf hm hop, create_ordered_iff ho hop⟩
  | setPromised ok p =>
    cases hst
    have h : SameLag m (m.setPromised ok p).2 := sameLag_setPromised p
    exact ⟨h.wf hm, iff_of_true (h.ordered ho) trivial⟩
  | setAccepted ok p =>
    cases hst
    have h : SameLag m (m.setAccepted ok p).2 := sameLag_setAccepted p
    exact ⟨h.wf hm, iff_of_true (h.ordered ho) trivial⟩
  | clearPromised ok entry =>
    cases hst
    have h : SameLag m (m.clearPromised ok entry).2 := sameLag_clearPromised
    exact ⟨h.wf hm, iff_of_true (h.ordered ho) trivial⟩
  | setChosen ok entry =>
    cases hst
    by_cases hc : m.Chooses ok entry
    · have h := sameLag_setChosen hc
      refine ⟨h.wf (countChosen_lagWf hm hop), ?_⟩
      rw [h.ordered_iff, countChosen_ordered_iff ho hop]
      exact ⟨fun hle _ => hle, fun hk => hk hc⟩
    · have h := sameLag_setChosen_of_not hc
      exact ⟨h.wf hm, iff_of_true (h.ordered ho) fun hc' => absurd hc' hc⟩
  | setGlobal entry =>
    cases hst
    exact ⟨setGlobal_lagWf hm hop, setGlobal_ordered_iff ho hop⟩

end

/-! ## Runs -/

/-- From construction the check is right, and in a run it stays right after every step if and only
if every step keeps the counters in order. -/
theorem lagAnswers_run_iff (cfg : Configure) (pinst : Nat) (disk : Nat → Option Entry) :
    (new cfg pinst disk).LagAnswers ∧ ∀ (ops : List PlogOp) (m : EntryMng),
      ((plogSys cfg pinst).restrict fun m op _ => m.KeepsOrder op).Run (new cfg pinst disk) ops m ↔
        ((plogSys cfg pinst).restrict fun _ _ m' => m'.LagAnswers).Run (new cfg pinst disk) ops m := by
  obtain ⟨hwf, ho⟩ := lagWf_new cfg pinst disk
  have hstart := (lagAnswers_iff hwf).mpr ho
  refine ⟨hstart, fun ops m => LTS.run_restrict_iff (I := LagWf) (fun m op m' hm ha hst => ?_) hwf hstart⟩
  obtain ⟨hm', hiff⟩ := ordered_step_iff hm ((lagAnswers_iff hm).mp ha) hst.2 hst.1
  exact ⟨hm', (lagAnswers_iff hm').trans hiff⟩

/-- Entry 3 of a manager just constructed: 3 is not above `~0`. -/
theorem not_lagAnswers :
    ¬ ∀ (cfg : Configure) (pinst : Nat) (m : EntryMng), (plogSys cfg pinst).Reachable m →
      m.LagAnswers := by
  intro hall
  let m₀ := new (Configure.init 0) 0 fun _ => none
  have hno : ¬ (m₀.getEntryAndCreateIfNotExist 3).2.LagAnswers := by decide
  exact hno (hall (Configure.init 0) 0 _
    ⟨m₀, [.create 3], ⟨_, rfl⟩, .single ⟨rfl, (by decide : 3 < noEntry)⟩⟩)

end EntryMng
end Quarrel
