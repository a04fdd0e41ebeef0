import Quarrel.L3Role.AcceptorSpec

/-!
# What the handlers do to the counters

The counters a recovery computes, but for `max_in_used_entry_`, are read by the
handlers and changed in two places only: the check both requests start with sets
the global counter, and `SetChosen` counts the entry it has saved.

* `handlePrepareReq_counters`, `handleAcceptReq_counters`: those of the check.
* `handleChosenReq_counters`: as before, or the entry is counted.
-/
namespace Quarrel

namespace EntryMng

/-- The counters `m` and `m'` agree, but for `max_in_used_entry_`. -/
structure SameCounters (m m' : EntryMng) : Prop where
  committed : m'.maxCommittedEntry = m.maxCommittedEntry
  continued : m'.maxContinueChosenEntry = m.maxContinueChosenEntry
  valid : m'.firstValidEntry = m.firstValidEntry
  unchosen : m'.firstUnchosenEntry = m.firstUnchosenEntry
  chosen : m'.lastChosenEntry = m.lastChosenEntry
  global : m'.globalMaxChosenEntry = m.globalMaxChosenEntry

theorem SameCounters.refl (m : EntryMng) : SameCounters m m := ⟨rfl, rfl, rfl, rfl, rfl, rfl⟩

theorem SameCounters.trans {a b c : EntryMng} (h : SameCounters a b) (h' : SameCounters b c) :
    SameCounters a c :=
  ⟨h'.committed.trans h.committed, h'.continued.trans h.continued, h'.valid.trans h.valid,
    h'.unchosen.trans h.unchosen, h'.chosen.trans h.chosen, h'.global.trans h.global⟩

theorem SameCounters.countChosen {m m' : EntryMng} (h : SameCounters m m') (e : Nat) :
    SameCounters (m.countChosen e) (m'.countChosen e) := by
  refine ⟨h.committed, h.continued, h.valid, h.unchosen, ?_, ?_⟩
  · simp only [EntryMng.countChosen, h.chosen]
  · simp only [EntryMng.countChosen, h.global]

/-! ## The operations -/

section

variable (m : EntryMng) (e : Nat) (ent : Entry) (ok : Bool) (p : Proposal)

theorem sameCounters_open : SameCounters m (m.getEntryAndCreateIfNotExist e).2 := by
  unfold getEntryAndCreateIfNotExist createEntry
  cases m.entries.getPtr e with
  | some r => exact ⟨rfl, rfl, rfl, rfl, rfl, rfl⟩
  | none =>
    dsimp only
    split <;> exact ⟨rfl, rfl, rfl, rfl, rfl, rfl⟩

theorem sameCounters_getEntry : SameCounters m (m.getEntry e).2 := by
  unfold getEntry
  cases m.entries.getPtr e with
  | some r => exact ⟨rfl, rfl, rfl, rfl, rfl, rfl⟩
  | none =>
    dsimp only
    split <;> exact ⟨rfl, rfl, rfl, rfl, rfl, rfl⟩

theorem sameCounters_setEntry : SameCounters m (m.setEntry e ent) := ⟨rfl, rfl, rfl, rfl, rfl, rfl⟩

theorem sameCounters_saveEntry : SameCounters m (m.saveEntry ok e ent).2 := by
  cases ok <;> exact ⟨rfl, rfl, rfl, rfl, rfl, rfl⟩

theorem sameCounters_write (c : Int) (f : Entry → Entry) :
    SameCounters m (match m.getEntry e with
      | (none, m₁) => (c, m₁)
      | (some ent, m₁) => (m₁.setEntry e (f ent)).saveEntry ok e (f ent)).2 := by
  have hg := sameCounters_getEntry m e
  generalize m.getEntry e = r at hg ⊢
  obtain ⟨o, m₁⟩ := r
  cases o with
  | none => exact hg
  | some ent => exact hg.trans ((sameCounters_setEntry _ _ _).trans (sameCounters_saveEntry _ _ _ _))

theorem sameCounters_setPromised : SameCounters m (m.setPromised ok p).2 :=
  sameCounters_write m p.pentry ok ErrCode.entryNotExist
    fun ent => { ent with promised := some (cloneProposal p) }

theorem sameCounters_clearPromised : SameCounters m (m.clearPromised ok e).2 :=
  sameCounters_write m e ok ErrCode.plogNotExist fun ent => { ent with promised := none }

theorem sameCounters_setAccepted : SameCounters m (m.setAccepted ok p).2 :=
  sameCounters_write m p.pentry ok ErrCode.entryNotExist
    fun ent => { ent with accepted := some (cloneProposal p) }

theorem setChosen_counters : SameCounters m (m.setChosen ok e).2 ∨
    (ok = true ∧ SameCounters (m.countChosen e) (m.setChosen ok e).2) := by
  have hg := sameCounters_getEntry m e
  unfold setChosen
  generalize m.getEntry e = r at hg ⊢
  obtain ⟨o, m₁⟩ := r
  cases o with
  | none => exact .inl hg
  | some ent =>
    dsimp only
    split
    · exact .inl hg
    · have hsave := (sameCounters_setEntry m₁ e ent.setChosen.2).trans
        (sameCounters_saveEntry _ e ent.setChosen.2 ok)
      cases ok with
      | true => exact .inr ⟨rfl, (hg.trans hsave).countChosen e⟩
      | false =>
        rw [if_neg (show ((m₁.setEntry e ent.setChosen.2).saveEntry false e ent.setChosen.2).1 ≠
          ErrCode.ok from fun h => by cases h)]
        exact .inl (hg.trans hsave)

end

end EntryMng

open EntryMng

/-! ## The handlers -/

section

variable (m : EntryMng) (saves : Saves) (pp : Proposal)

/-- The manager after the check both requests start with. -/
def checked (m : EntryMng) (pp : Proposal) : EntryMng := (checkLocalAndMayTriggerCatchup m pp).2.1

/-- The messages the check queues. -/
def checkedChores (m : EntryMng) (pp : Proposal) : List PaxosMsg :=
  (checkLocalAndMayTriggerCatchup m pp).2.2

theorem promiseNew_counters : SameCounters m (promiseNew m saves pp).2 := by
  unfold promiseNew
  split
  · have hs := sameCounters_setPromised m saves.set { pp with status := .promised }
    dsimp only
    split <;> exact hs
  · exact .refl m

theorem prepareEntry_counters (ent : Entry) : SameCounters m (prepareEntry m saves pp ent).2 := by
  unfold prepareEntry
  split
  · exact .refl m
  · split
    · exact .refl m
    · exact promiseNew_counters m saves pp
  · exact promiseNew_counters m saves pp

theorem handlePrepareReq_counters : SameCounters (checked m pp) (handlePrepareReq m saves pp).mng ∧
    (handlePrepareReq m saves pp).chores = checkedChores m pp := by
  unfold handlePrepareReq checked checkedChores
  generalize checkLocalAndMayTriggerCatchup m pp = r
  obtain ⟨ret, m₁, cs⟩ := r
  dsimp only
  split
  · exact ⟨.refl m₁, rfl⟩
  · exact ⟨(sameCounters_open m₁ pp.pentry).trans (prepareEntry_counters _ saves pp _), rfl⟩

theorem acceptEntry_counters (ent : Entry) : SameCounters m (acceptEntry m saves pp ent).mng := by
  have hs := sameCounters_setAccepted m saves.set { pp with status := .accepted }
  unfold acceptEntry acceptOver acceptPromised acceptFast
  split
  · split
    · exact .refl m
    · split
      · exact .refl m
      · split
        · split
          · dsimp only
            split <;> exact hs
          · exact .refl m
        · exact .refl m
  · split
    · dsimp only
      split <;> exact hs
    · exact .refl m
  · dsimp only
    split <;> exact hs

theorem handleAcceptReq_counters : SameCounters (checked m pp) (handleAcceptReq m saves pp).mng ∧
    (handleAcceptReq m saves pp).chores = checkedChores m pp := by
  unfold handleAcceptReq checked checkedChores
  generalize checkLocalAndMayTriggerCatchup m pp = r
  obtain ⟨ret, m₁, cs⟩ := r
  dsimp only
  split
  · exact ⟨.refl m₁, rfl⟩
  · have hopen := (sameCounters_open m₁ pp.pentry).trans
      (acceptEntry_counters _ saves pp (m₁.getEntryAndCreateIfNotExist pp.pentry).1)
    refine ⟨?_, rfl⟩
    split
    · exact hopen.trans (sameCounters_clearPromised _ _ _)
    · exact hopen

theorem handleChosenReq_counters : (handleChosenReq m saves pp).chores = [] ∧
    (SameCounters m (handleChosenReq m saves pp).mng ∨
      (saves.set = true ∧
        SameCounters (m.countChosen pp.pentry) (handleChosenReq m saves pp).mng)) := by
  have hopen := sameCounters_open m pp.pentry
  unfold handleChosenReq
  generalize m.getEntryAndCreateIfNotExist pp.pentry = r at hopen ⊢
  obtain ⟨ent, m₁⟩ := r
  dsimp only
  split
  · exact ⟨rfl, .inl hopen⟩
  · rename_i a _
    split
    · exact ⟨rfl, .inl hopen⟩
    · split
      · exact ⟨rfl, .inl hopen⟩
      · have hset := setChosen_counters
          (m₁.setEntry pp.pentry { ent with accepted := some { a with status := .chosen } })
          pp.pentry saves.set
        generalize (m₁.setEntry pp.pentry { ent with
          accepted := some { a with status := .chosen } }).setChosen saves.set pp.pentry = q at hset ⊢
        obtain ⟨err, m₂⟩ := q
        dsimp only at hset ⊢
        have hafter : SameCounters m m₂ ∨
            (saves.set = true ∧ SameCounters (m.countChosen pp.pentry) m₂) :=
          hset.imp (fun hsame => hopen.trans ((sameCounters_setEntry _ _ _).trans hsame))
            fun hcount => ⟨hcount.1, ((hopen.trans (sameCounters_setEntry _ _ _)).countChosen
              pp.pentry).trans hcount.2⟩
        split
        · exact ⟨rfl, hafter.imp (fun h => h.trans (sameCounters_setEntry _ _ _))
            fun h => ⟨h.1, h.2.trans (sameCounters_setEntry _ _ _)⟩⟩
        · exact ⟨rfl, hafter⟩

/-- Past the check the counters are the old ones, but for the global one. -/
theorem checked_counters : (checked m pp).maxCommittedEntry = m.maxCommittedEntry ∧
    (checked m pp).maxContinueChosenEntry = m.maxContinueChosenEntry ∧
    (checked m pp).firstValidEntry = m.firstValidEntry ∧
    (checked m pp).firstUnchosenEntry = m.firstUnchosenEntry ∧
    (checked m pp).lastChosenEntry = m.lastChosenEntry := by
  unfold checked
  by_cases hb : Behind m pp
  · rw [check_of_behind hb]
    exact ⟨rfl, rfl, rfl, rfl, rfl⟩
  · obtain ⟨g, cs, hc⟩ := check_of_not_behind hb
    rw [hc]
    exact ⟨rfl, rfl, rfl, rfl, rfl⟩

/-- A message that checks the local log leaves the counters of the check; a CHOSEN counts
its entry, or nothing. -/
theorem handler_counters {t rt : PaxosMsgType} {f : EntryMng → Saves → Proposal → Handled}
    (h : handlerOf t = some (rt, f)) :
    (t ≠ .chosenReq ∧ SameCounters (checked m pp) (f m saves pp).mng ∧
        (f m saves pp).chores = checkedChores m pp) ∨
      (t = .chosenReq ∧ (f m saves pp).chores = [] ∧ (SameCounters m (f m saves pp).mng ∨
        (saves.set = true ∧ SameCounters (m.countChosen pp.pentry) (f m saves pp).mng))) := by
  unfold handlerOf at h
  split at h
  · obtain ⟨rfl, rfl⟩ := Prod.mk.inj (Option.some.inj h)
    exact .inl ⟨by decide, handlePrepareReq_counters m saves pp⟩
  · obtain ⟨rfl, rfl⟩ := Prod.mk.inj (Option.some.inj h)
    exact .inl ⟨by decide, handleAcceptReq_counters m saves pp⟩
  · obtain ⟨rfl, rfl⟩ := Prod.mk.inj (Option.some.inj h)
    exact .inr ⟨rfl, handleChosenReq_counters m saves pp⟩
  · cases h

end

end Quarrel
