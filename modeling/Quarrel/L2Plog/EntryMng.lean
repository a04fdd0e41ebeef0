import Quarrel.L1Data.Config
import Quarrel.L1Data.LruMap
import Mathlib.Logic.Function.Basic

/-!
# One plog instance (`core/plog.h`, `core/plog.cpp`)

An `EntryMng` is the cache of entries of one instance, its counters and, as the
field `disk`, what the storage behind `LoadEntry` and `SaveEntry` holds. A save
gets its outcome as an argument: a failed save leaves `disk` as it was.

The handlers reach the manager through `getEntryAndCreateIfNotExist`,
`setPromised`, `setAccepted`, `clearPromised` and `setChosen`, always for the
entry of the request. `Acts m m' e ent d lc` is what such a sequence of calls
amounts to: the cache holds `ent` at `e`, no other cached entry changed (one may
have been evicted), the storage is `d` and the last chosen entry is `lc`. Each
operation has one lemma that says so, and no later proof unfolds it.
-/
namespace Quarrel

/-- mirrors core/plog.h:32-68 -/
structure Entry where
  pinst : Nat
  entry : Nat
  accepted : Option Proposal
  promised : Option Proposal
  deriving DecidableEq, Repr

namespace Entry

def new (pinst entry : Nat) : Entry := ⟨pinst, entry, none, none⟩

/-- mirrors core/plog.h:42-46 -/
def status (e : Entry) : PaxosState :=
  match e.accepted with
  | some a => a.status
  | none => match e.promised with
    | some p => p.status
    | none => .invalidProposal

/-- mirrors core/plog.h:51-58 -/
def setChosen (e : Entry) : Int × Entry :=
  match e.accepted with
  | none => (ErrCode.proposalNotExist, e)
  | some a => (ErrCode.ok, { e with accepted := some { a with status := .chosen } })

/-- Neither an accepted nor a promised proposal. -/
def Vacant (e : Entry) : Prop := e.accepted = none ∧ e.promised = none

end Entry

/-- mirrors core/plog.h:72-147 -/
structure EntryMng where
  pinst : Nat
  maxCommittedEntry : Nat
  maxContinueChosenEntry : Nat
  firstValidEntry : Nat
  maxInUsedEntry : Nat
  lastChosenEntry : Nat
  firstUnchosenEntry : Nat
  globalMaxChosenEntry : Nat
  entries : LruMap Nat Entry
  disk : Nat → Option Entry

namespace EntryMng

/-- A manager just constructed over the storage `disk`.
mirrors core/plog.h:76-80,136-146 -/
def new (cfg : Configure) (pinst : Nat) (disk : Nat → Option Entry) : EntryMng where
  pinst := pinst
  maxCommittedEntry := 0
  maxContinueChosenEntry := 0
  firstValidEntry := noEntry
  maxInUsedEntry := noEntry
  lastChosenEntry := noEntry
  firstUnchosenEntry := noEntry
  globalMaxChosenEntry := noEntry
  entries := LruMap.empty cfg.entryCacheNum
  disk := disk

/-- The stored accepted and promised proposal are read into `ent`; an entry never
saved gives an error. -/
def loadEntry (m : EntryMng) (entry : Nat) (ent : Entry) : Option Entry :=
  (m.disk entry).map fun d => { ent with accepted := d.accepted, promised := d.promised }

def saveEntry (m : EntryMng) (ok : Bool) (entry : Nat) (ent : Entry) : Int × EntryMng :=
  if ok then (ErrCode.ok, { m with disk := Function.update m.disk entry (some ent) })
  else (ErrCode.writePlogFail, m)

/-- mirrors core/plog.cpp:210-221 -/
def getEntry (m : EntryMng) (entry : Nat) : Option Entry × EntryMng :=
  match m.entries.getPtr entry with
  | some (ent, entries) => (some ent, { m with entries := entries })
  | none =>
    match m.loadEntry entry (Entry.new m.pinst entry) with
    | none => (none, m)
    | some ent => (some ent, { m with entries := m.entries.put entry ent })

/-- An entry above every entry created so far is looked up in the storage, any
other entry not in the cache is created empty.
mirrors core/plog.cpp:233-249 -/
def createEntry (m : EntryMng) (entry : Nat) : Entry × EntryMng :=
  match m.entries.getPtr entry with
  | some (ent, entries) => (ent, { m with entries := entries })
  | none =>
    let ent := Entry.new m.pinst entry
    if m.maxInUsedEntry = noEntry ∨ entry > m.maxInUsedEntry then
      let val := (m.loadEntry entry ent).getD ent
      (val, { m with entries := m.entries.put entry val, maxInUsedEntry := entry })
    else
      (ent, { m with entries := m.entries.put entry ent })

/-- mirrors core/plog.cpp:224-231 -/
def getEntryAndCreateIfNotExist (m : EntryMng) (entry : Nat) : Entry × EntryMng :=
  match m.entries.getPtr entry with
  | some (ent, entries) => (ent, { m with entries := entries })
  | none => m.createEntry entry

/-- A write through the `Entry*` of a cached entry. -/
def setEntry (m : EntryMng) (entry : Nat) (ent : Entry) : EntryMng :=
  { m with entries := m.entries.modify entry fun _ => ent }

/-- mirrors core/plog.cpp:179-189 -/
def setPromised (m : EntryMng) (ok : Bool) (p : Proposal) : Int × EntryMng :=
  match m.getEntry p.pentry with
  | (none, m) => (ErrCode.entryNotExist, m)
  | (some ent, m) =>
    let ent := { ent with promised := some (cloneProposal p) }
    (m.setEntry p.pentry ent).saveEntry ok p.pentry ent

/-- mirrors core/plog.cpp:191-198 -/
def clearPromised (m : EntryMng) (ok : Bool) (entry : Nat) : Int × EntryMng :=
  match m.getEntry entry with
  | (none, m) => (ErrCode.plogNotExist, m)
  | (some ent, m) =>
    let ent := { ent with promised := none }
    (m.setEntry entry ent).saveEntry ok entry ent

/-- mirrors core/plog.cpp:200-208 -/
def setAccepted (m : EntryMng) (ok : Bool) (p : Proposal) : Int × EntryMng :=
  match m.getEntry p.pentry with
  | (none, m) => (ErrCode.entryNotExist, m)
  | (some ent, m) =>
    let ent := { ent with accepted := some (cloneProposal p) }
    (m.setEntry p.pentry ent).saveEntry ok p.pentry ent

/-- The counters after `entry` was stored as chosen.
mirrors core/plog.cpp:143-151 -/
def countChosen (m : EntryMng) (entry : Nat) : EntryMng :=
  { m with
    lastChosenEntry :=
      if m.lastChosenEntry = noEntry ∨ m.lastChosenEntry < entry then entry else m.lastChosenEntry
    globalMaxChosenEntry :=
      if m.globalMaxChosenEntry = noEntry ∨ m.globalMaxChosenEntry < entry then entry
      else m.globalMaxChosenEntry }

/-- mirrors core/plog.cpp:135-154 -/
def setChosen (m : EntryMng) (ok : Bool) (entry : Nat) : Int × EntryMng :=
  match m.getEntry entry with
  | (none, m) => (ErrCode.entryNotExist, m)
  | (some ent, m) =>
    match ent.setChosen with
    | (ret, ent') =>
      if ret ≠ ErrCode.ok then (ret, m)
      else
        match (m.setEntry entry ent').saveEntry ok entry ent' with
        | (ret, m) => if ret = ErrCode.ok then (ret, m.countChosen entry) else (ret, m)

/-- mirrors core/plog.cpp:251-258 -/
def setGlobalMaxChosenEntry (m : EntryMng) (entry : Nat) : EntryMng :=
  if m.globalMaxChosenEntry ≠ noEntry ∧ m.globalMaxChosenEntry ≥ entry then m
  else { m with globalMaxChosenEntry := entry }

/-! ## Opening the entry of a request -/

/-- The entry in the cache. -/
def cached (m : EntryMng) (entry : Nat) : Option Entry := m.entries.find? entry

/-- The entry `getEntryAndCreateIfNotExist` returns. -/
def opened (m : EntryMng) (entry : Nat) : Entry := (m.getEntryAndCreateIfNotExist entry).1

/-- Creating `entry` looks it up in the storage. -/
def Reads (m : EntryMng) (entry : Nat) : Prop :=
  m.maxInUsedEntry = noEntry ∨ m.maxInUsedEntry < entry

instance (m : EntryMng) (entry : Nat) : Decidable (m.Reads entry) := by
  unfold Reads; exact inferInstance

/-- `max_in_used_entry_` after `entry` has been opened. -/
def usedAfter (m : EntryMng) (entry : Nat) : Nat :=
  if m.cached entry = none ∧ m.Reads entry then entry else m.maxInUsedEntry

theorem opened_of_cached {m : EntryMng} {e : Nat} {ent : Entry} (h : m.cached e = some ent) :
    m.opened e = ent := by
  have hp : m.entries.getPtr e = some (ent, { m.entries with order := (e, ent) :: m.entries.erase e }) := by
    unfold LruMap.getPtr; rw [show m.entries.find? e = some ent from h]; rfl
  simp only [opened, getEntryAndCreateIfNotExist, hp]

theorem getPtr_none {m : EntryMng} {e : Nat} (h : m.cached e = none) : m.entries.getPtr e = none :=
  LruMap.getPtr_eq_none.mpr h

theorem opened_of_reads {m : EntryMng} {e : Nat} (h : m.cached e = none) (hr : m.Reads e) :
    m.opened e = (m.loadEntry e (Entry.new m.pinst e)).getD (Entry.new m.pinst e) := by
  unfold Reads at hr
  simp only [opened, getEntryAndCreateIfNotExist, createEntry, getPtr_none h, gt_iff_lt, hr,
    if_true]

theorem opened_of_not_reads {m : EntryMng} {e : Nat} (h : m.cached e = none) (hr : ¬ m.Reads e) :
    m.opened e = Entry.new m.pinst e := by
  unfold Reads at hr
  simp only [opened, getEntryAndCreateIfNotExist, createEntry, getPtr_none h, gt_iff_lt, hr,
    if_false]

/-- An entry not in the cache is opened as what is stored, or empty. -/
theorem opened_of_none {m : EntryMng} {e : Nat} (h : m.cached e = none) :
    (m.opened e).Vacant ∨ ∃ d, m.disk e = some d ∧ (m.opened e).accepted = d.accepted ∧
      (m.opened e).promised = d.promised := by
  by_cases hr : m.Reads e
  · rw [opened_of_reads h hr]
    unfold loadEntry
    cases hd : m.disk e with
    | none => exact .inl ⟨rfl, rfl⟩
    | some d => exact .inr ⟨d, rfl, rfl, rfl⟩
  · rw [opened_of_not_reads h hr]
    exact .inl ⟨rfl, rfl⟩

/-! ## What a sequence of operations on one entry amounts to -/

structure Acts (m m' : EntryMng) (e : Nat) (ent : Entry) (d : Nat → Option Entry) (lc : Nat) :
    Prop where
  cached : m'.cached e = some ent
  other : ∀ k x, k ≠ e → m'.cached k = some x → m.cached k = some x
  disk : m'.disk = d
  lastChosen : m'.lastChosenEntry = lc
  used : m'.maxInUsedEntry = m.usedAfter e
  pinst : m'.pinst = m.pinst
  cap : m'.entries.maxSize = m.entries.maxSize

/-- The storage after a save of `ent`. -/
def saved (d : Nat → Option Entry) (ok : Bool) (e : Nat) (ent : Entry) : Nat → Option Entry :=
  if ok then Function.update d e (some ent) else d

@[simp] theorem saved_true (d : Nat → Option Entry) (e : Nat) (ent : Entry) :
    saved d true e ent = Function.update d e (some ent) := rfl

@[simp] theorem saved_false (d : Nat → Option Entry) (e : Nat) (ent : Entry) :
    saved d false e ent = d := rfl

theorem saved_ne {d : Nat → Option Entry} {ok : Bool} {e k : Nat} {ent : Entry} (h : k ≠ e) :
    saved d ok e ent k = d k := by
  cases ok
  · rfl
  · exact Function.update_of_ne h _ _

theorem acts_open {m : EntryMng} (hpos : 0 < m.entries.maxSize) (e : Nat) :
    Acts m (m.getEntryAndCreateIfNotExist e).2 e (m.opened e) m.disk m.lastChosenEntry := by
  cases hc : m.cached e with
  | some ent =>
    have hu : m.usedAfter e = m.maxInUsedEntry := by simp [usedAfter, hc]
    rw [opened_of_cached hc]
    cases hp : m.entries.getPtr e with
    | none =>
      rw [LruMap.getPtr_eq_none] at hp; unfold EntryMng.cached at hc; rw [hp] at hc; cases hc
    | some r =>
      obtain ⟨v, c⟩ := r
      have hf := LruMap.find?_of_getPtr hp
      have hm : (m.getEntryAndCreateIfNotExist e).2 = { m with entries := c } := by
        simp only [getEntryAndCreateIfNotExist, hp]
      have hcap : c.maxSize = m.entries.maxSize := by rw [(LruMap.getPtr_eq_some hp).2]
      rw [hm]
      exact ⟨(hf e).trans hc, fun k x _ hk => (hf k).symm.trans hk, rfl, rfl, hu.symm, rfl, hcap⟩
  | none =>
    have hp := getPtr_none hc
    by_cases hr : m.Reads e
    · have hu : m.usedAfter e = e := by simp [usedAfter, hc, hr]
      have ho := opened_of_reads hc hr
      have hm : (m.getEntryAndCreateIfNotExist e).2 =
          { m with entries := m.entries.put e (m.opened e), maxInUsedEntry := e } := by
        rw [ho]
        unfold Reads at hr
        simp only [getEntryAndCreateIfNotExist, createEntry, hp, gt_iff_lt, hr, if_true]
      rw [hm]
      exact ⟨LruMap.find?_put_self _ _ _ hpos, fun k x hk h => LruMap.find?_of_put hk h, rfl, rfl,
        hu.symm, rfl, rfl⟩
    · have hu : m.usedAfter e = m.maxInUsedEntry := by simp [usedAfter, hr]
      have ho := opened_of_not_reads hc hr
      have hm : (m.getEntryAndCreateIfNotExist e).2 = { m with entries := m.entries.put e (m.opened e) } := by
        rw [ho]
        unfold Reads at hr
        simp only [getEntryAndCreateIfNotExist, createEntry, hp, gt_iff_lt, hr, if_false]
      rw [hm]
      exact ⟨LruMap.find?_put_self _ _ _ hpos, fun k x hk h => LruMap.find?_of_put hk h, rfl, rfl,
        hu.symm, rfl, rfl⟩

/-- `getEntry` of a cached entry only reorders the cache. -/
theorem getEntry_cached {m : EntryMng} {e : Nat} {ent : Entry} (h : m.cached e = some ent) :
    ∃ c, m.getEntry e = (some ent, { m with entries := c }) ∧ (∀ k, c.find? k = m.cached k) ∧
      c.maxSize = m.entries.maxSize := by
  cases hp : m.entries.getPtr e with
  | none => rw [LruMap.getPtr_eq_none] at hp; unfold EntryMng.cached at h; rw [hp] at h; cases h
  | some r =>
    obtain ⟨v, c⟩ := r
    have hv : v = ent := by
      have := (LruMap.getPtr_eq_some hp).1
      unfold EntryMng.cached at h
      rw [this] at h
      exact Option.some.inj h
    refine ⟨c, ?_, LruMap.find?_of_getPtr hp, by rw [(LruMap.getPtr_eq_some hp).2]⟩
    simp only [getEntry, hp, hv]

/-- A write to the cached entry through its pointer, once it has been looked up
(`c` is the reordered cache), followed by a save. -/
theorem Acts.write {m m₁ : EntryMng} {e : Nat} {ent : Entry} {d : Nat → Option Entry} {lc : Nat}
    {c : LruMap Nat Entry} (h : Acts m m₁ e ent d lc) (ent' : Entry)
    (hc : ∀ k, c.find? k = m₁.cached k) (hcap : c.maxSize = m₁.entries.maxSize) (ok : Bool) :
    Acts m ((({ m₁ with entries := c } : EntryMng).setEntry e ent').saveEntry ok e ent').2 e ent'
      (saved d ok e ent') lc := by
  have hself : (c.modify e fun _ => ent').find? e = some ent' := by
    rw [LruMap.find?_modify_self, hc, h.cached]; rfl
  have hother : ∀ k x, k ≠ e → (c.modify e fun _ => ent').find? k = some x → m.cached k = some x := by
    intro k x hk hx
    rw [LruMap.find?_modify_ne _ _ hk, hc] at hx
    exact h.other k x hk hx
  have hcap' : c.maxSize = m.entries.maxSize := hcap.trans h.cap
  cases ok with
  | true =>
    refine ⟨hself, hother, ?_, h.lastChosen, h.used, h.pinst, hcap'⟩
    show Function.update m₁.disk e (some ent') = _
    rw [h.disk]; rfl
  | false => exact ⟨hself, hother, h.disk, h.lastChosen, h.used, h.pinst, hcap'⟩

theorem saveEntry_ret (m : EntryMng) (ok : Bool) (e : Nat) (ent : Entry) :
    (m.saveEntry ok e ent).1 = ErrCode.ok ↔ ok = true := by
  cases ok <;> simp [saveEntry]

theorem acts_setPromised {m m₁ : EntryMng} {ent : Entry} {d : Nat → Option Entry} {lc : Nat}
    {p : Proposal} (h : Acts m m₁ p.pentry ent d lc) (ok : Bool) :
    ((m₁.setPromised ok p).1 = ErrCode.ok ↔ ok = true) ∧
      Acts m (m₁.setPromised ok p).2 p.pentry { ent with promised := some (cloneProposal p) }
        (saved d ok p.pentry { ent with promised := some (cloneProposal p) }) lc := by
  obtain ⟨c, hg, hc, hcap⟩ := getEntry_cached h.cached
  simp only [setPromised, hg]
  exact ⟨saveEntry_ret _ _ _ _, h.write _ hc hcap ok⟩

theorem acts_clearPromised {m m₁ : EntryMng} {e : Nat} {ent : Entry} {d : Nat → Option Entry}
    {lc : Nat} (h : Acts m m₁ e ent d lc) (ok : Bool) :
    Acts m (m₁.clearPromised ok e).2 e { ent with promised := none }
      (saved d ok e { ent with promised := none }) lc := by
  obtain ⟨c, hg, hc, hcap⟩ := getEntry_cached h.cached
  simp only [clearPromised, hg]
  exact h.write _ hc hcap ok

theorem acts_setAccepted {m m₁ : EntryMng} {ent : Entry} {d : Nat → Option Entry} {lc : Nat}
    {p : Proposal} (h : Acts m m₁ p.pentry ent d lc) (ok : Bool) :
    ((m₁.setAccepted ok p).1 = ErrCode.ok ↔ ok = true) ∧
      Acts m (m₁.setAccepted ok p).2 p.pentry { ent with accepted := some (cloneProposal p) }
        (saved d ok p.pentry { ent with accepted := some (cloneProposal p) }) lc := by
  obtain ⟨c, hg, hc, hcap⟩ := getEntry_cached h.cached
  simp only [setAccepted, hg]
  exact ⟨saveEntry_ret _ _ _ _, h.write _ hc hcap ok⟩

/-- The last chosen entry after `entry` was stored as chosen. -/
def chosenAfter (lc entry : Nat) : Nat := if lc = noEntry ∨ lc < entry then entry else lc

theorem acts_setChosen {m m₁ : EntryMng} {e : Nat} {ent : Entry} {a : Proposal}
    {d : Nat → Option Entry} {lc : Nat} (h : Acts m m₁ e ent d lc) (ha : ent.accepted = some a)
    (ok : Bool) :
    ((m₁.setChosen ok e).1 = ErrCode.ok ↔ ok = true) ∧
      Acts m (m₁.setChosen ok e).2 e { ent with accepted := some { a with status := .chosen } }
        (saved d ok e { ent with accepted := some { a with status := .chosen } })
        (if ok then chosenAfter lc e else lc) := by
  obtain ⟨c, hg, hc, hcap⟩ := getEntry_cached h.cached
  have hs : ent.setChosen = (ErrCode.ok, { ent with accepted := some { a with status := .chosen } }) := by
    simp only [Entry.setChosen, ha]
  have hw := h.write { ent with accepted := some { a with status := .chosen } } hc hcap ok
  cases ok with
  | true =>
    simp only [setChosen, hg, hs, ne_eq, not_true_eq_false, if_false, saveEntry, if_true, iff_self,
      true_and]
    simp only [saveEntry, if_true] at hw
    refine ⟨hw.cached, hw.other, hw.disk, ?_, hw.used, hw.pinst, hw.cap⟩
    rw [← h.lastChosen]; rfl
  | false =>
    simp only [saveEntry, Bool.false_eq_true, if_false] at hw
    have hne : (ErrCode.writePlogFail : Int) ≠ ErrCode.ok := by decide
    simp only [setChosen, hg, hs, ne_eq, not_true_eq_false, saveEntry, Bool.false_eq_true, if_false,
      hne, true_and]
    exact hw

/-- A write through the pointer of the cached entry, without a save. -/
theorem acts_setEntry {m m₁ : EntryMng} {e : Nat} {ent : Entry} {d : Nat → Option Entry} {lc : Nat}
    (h : Acts m m₁ e ent d lc) (ent' : Entry) : Acts m (m₁.setEntry e ent') e ent' d lc :=
  h.write (c := m₁.entries) ent' (fun _ => rfl) rfl false

/-- The catch-up counter is none of the fields `Acts` speaks about. -/
theorem acts_of_global {m m' : EntryMng} {e : Nat} {ent : Entry} {d : Nat → Option Entry}
    {lc g : Nat}
    (h : Acts { m with globalMaxChosenEntry := g } m' e ent d lc) : Acts m m' e ent d lc :=
  ⟨h.cached, h.other, h.disk, h.lastChosen, h.used, h.pinst, h.cap⟩

theorem opened_of_global (m : EntryMng) (g e : Nat) :
    ({ m with globalMaxChosenEntry := g } : EntryMng).opened e = m.opened e := by
  cases hc : m.cached e with
  | some ent =>
    rw [opened_of_cached hc, opened_of_cached (m := { m with globalMaxChosenEntry := g }) hc]
  | none =>
    by_cases hr : m.Reads e
    · rw [opened_of_reads hc hr, opened_of_reads (m := { m with globalMaxChosenEntry := g }) hc hr]
      rfl
    · rw [opened_of_not_reads hc hr,
        opened_of_not_reads (m := { m with globalMaxChosenEntry := g }) hc hr]

theorem setGlobalMaxChosenEntry_eq (m : EntryMng) (e : Nat) :
    ∃ g, m.setGlobalMaxChosenEntry e = { m with globalMaxChosenEntry := g } := by
  unfold setGlobalMaxChosenEntry
  split
  · exact ⟨m.globalMaxChosenEntry, rfl⟩
  · exact ⟨e, rfl⟩

end EntryMng
end Quarrel
