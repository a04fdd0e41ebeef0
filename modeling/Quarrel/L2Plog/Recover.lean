import Quarrel.L2Plog.EntryMng

/-!
# Recovery of a plog instance (`core/plog.cpp:63-133`)

`LoadAllFromDisk` asks the storage for batches of entries until a batch is
empty or fails. The storage is not part of the repository: a `Batch` is its
`BatchLoadEntry`, and `ReadsLog` says that it reads back the whole log, in
runs that skip no stored entry. The loop has no bound of its own, so it takes
fuel, and `none` is a recovery that has not ended.

* `loadAllFromDisk_fromLog`: a recovered cache holds stored entries only.
* `loadAllFromDisk_counted`: after a recovery that read the whole log
  `last_chosen_entry_` is at least every stored chosen entry and
  `max_in_used_entry_` at least every stored entry.
* `recoverLoop_total`: over a log whose entries are below a bound the loop ends.
-/
namespace Quarrel

/-- `BatchLoadEntry(begin, end)` of one instance: an error code, or the entries loaded. -/
abbrev Batch := Nat → Nat → Except Int (List Entry)

namespace EntryMng

/-- One turn of the inner loop, on the counters and `start_entry`.
mirrors core/plog.cpp:77-103 -/
def recoverEntry (r : EntryMng × Nat) (ent : Entry) : EntryMng × Nat :=
  let (m, start) := r
  let id := ent.entry
  let chosen := ent.status = .chosen
  ({ m with
      lastChosenEntry := if chosen ∧ id > m.lastChosenEntry then id else m.lastChosenEntry
      maxContinueChosenEntry :=
        if chosen ∧ id = u64 (m.maxContinueChosenEntry + 1) then u64 (m.maxContinueChosenEntry + 1)
        else m.maxContinueChosenEntry
      firstUnchosenEntry := if ¬ chosen ∧ id < m.firstUnchosenEntry then id else m.firstUnchosenEntry
      firstValidEntry := if id < m.firstValidEntry then id else m.firstValidEntry
      maxInUsedEntry := if id > m.maxInUsedEntry then id else m.maxInUsedEntry
      entries := m.entries.put id ent },
    if id ≥ start then u64 (id + 1) else start)

/-- mirrors core/plog.cpp:67-104 -/
def recoverLoop (batch : Batch) (endEntry : Nat) : Nat → EntryMng → Nat → Option EntryMng
  | 0, _, _ => none
  | fuel + 1, m, start =>
    match batch start endEntry with
    | .error _ => some m
    | .ok [] => some m
    | .ok (ent :: ents) =>
      let r := (ent :: ents).foldl recoverEntry (m, start)
      recoverLoop batch endEntry fuel r.1 r.2

/-- mirrors core/plog.cpp:63-111 -/
def recoverRange (batch : Batch) (fuel : Nat) (m : EntryMng) (startEntry endEntry : Nat) :
    Option EntryMng :=
  (recoverLoop batch endEntry fuel m startEntry).map fun m =>
    if m.lastChosenEntry > m.globalMaxChosenEntry then
      { m with globalMaxChosenEntry := m.lastChosenEntry }
    else m

/-- The counters a recovery starts from.
mirrors core/plog.cpp:121-127 -/
def resetCounters (m : EntryMng) (committed : Nat) : EntryMng :=
  { m with
    maxInUsedEntry := 0
    lastChosenEntry := 0
    firstValidEntry := noEntry
    firstUnchosenEntry := noEntry
    maxCommittedEntry := committed
    maxContinueChosenEntry := committed
    globalMaxChosenEntry := 0 }

/-- `lastCommitted` is the answer of `LoadPlogMetaInfo`.
mirrors core/plog.cpp:113-133 -/
def loadAllFromDisk (batch : Batch) (lastCommitted : Except Int Nat) (fuel : Nat) (m : EntryMng) :
    Option (Bool × EntryMng) :=
  match lastCommitted with
  | .error _ => some (false, m)
  | .ok committed => (recoverRange batch fuel (m.resetCounters committed) 1 noEntry).map fun m => (true, m)

/-! ## Reading the whole log -/

/-- Every stored entry carries its own id. -/
def Keyed (disk : Nat → Option Entry) : Prop := ∀ k x, disk k = some x → x.entry = k

/-- `batch` reads back what `disk` holds: entries from `begin` on, without
leaving one out below the last it returns, and none only where none is left. -/
structure ReadsLog (batch : Batch) (disk : Nat → Option Entry) : Prop where
  stored : ∀ b l, batch b noEntry = .ok l → ∀ x ∈ l, b ≤ x.entry ∧ disk x.entry = some x
  gapless : ∀ b l, batch b noEntry = .ok l → ∀ k, b ≤ k → (disk k).isSome →
    (∃ x ∈ l, x.entry = k) ∨ (l ≠ [] ∧ ∀ x ∈ l, x.entry < k)
  drained : ∀ b c, batch b noEntry = .error c → ∀ k, b ≤ k → disk k = none

/-- A log that can be read back is keyed by the ids of its entries. -/
theorem ReadsLog.keyed {batch : Batch} {disk : Nat → Option Entry} (h : ReadsLog batch disk) :
    Keyed disk := by
  intro k x hx
  have hsome : (disk k).isSome := by rw [hx]; rfl
  cases hl : batch k noEntry with
  | error c =>
    rw [h.drained k c hl k (Nat.le_refl k)] at hx
    cases hx
  | ok l =>
    rcases h.gapless k l hl k (Nat.le_refl k) hsome with ⟨y, hy, hyk⟩ | ⟨hne, hall⟩
    · have hst := (h.stored k l hl y hy).2
      rw [hyk, hx] at hst
      exact Option.some.inj hst ▸ hyk
    · obtain ⟨y, hy⟩ := List.exists_mem_of_ne_nil l hne
      exact absurd (h.stored k l hl y hy).1 (Nat.not_le.mpr (hall y hy))

/-- The manager holds stored entries only. -/
structure FromLog (d : Nat → Option Entry) (m : EntryMng) : Prop where
  disk : m.disk = d
  cap : 0 < m.entries.maxSize
  cached : ∀ k x, m.cached k = some x → d k = some x

theorem recoverEntry_fromLog {d : Nat → Option Entry} {m : EntryMng} {s : Nat} {ent : Entry}
    (h : FromLog d m) (hent : d ent.entry = some ent) : FromLog d (recoverEntry (m, s) ent).1 := by
  refine ⟨h.disk, h.cap, fun k x hx => ?_⟩
  by_cases hk : k = ent.entry
  · subst hk
    have hp := LruMap.find?_put_self m.entries ent.entry ent h.cap
    rw [← Option.some.inj (hp.symm.trans hx)]
    exact hent
  · exact h.cached k x (LruMap.find?_of_put hk hx)

theorem recoverFold_fromLog {d : Nat → Option Entry} : ∀ (l : List Entry) (m : EntryMng) (s : Nat),
    FromLog d m → (∀ x ∈ l, d x.entry = some x) → FromLog d (l.foldl recoverEntry (m, s)).1
  | [], _, _, h, _ => h
  | ent :: l, _, s, h, hl =>
    recoverFold_fromLog l _ _ (recoverEntry_fromLog (s := s) h (hl ent List.mem_cons_self))
      fun x hx => hl x (List.mem_cons_of_mem _ hx)

theorem recoverLoop_fromLog {d : Nat → Option Entry} {batch : Batch} (hb : ReadsLog batch d) :
    ∀ (fuel : Nat) (m m' : EntryMng) (s : Nat), FromLog d m →
      recoverLoop batch noEntry fuel m s = some m' → FromLog d m'
  | 0, _, _, _, _, he => by simp [recoverLoop] at he
  | fuel + 1, m, m', s, h, he => by
    unfold recoverLoop at he
    split at he
    · exact Option.some.inj he ▸ h
    · exact Option.some.inj he ▸ h
    · rename_i ent ents hc
      have hl := hb.stored s _ hc
      exact recoverLoop_fromLog hb fuel _ _ _
        (recoverFold_fromLog (ent :: ents) m s h fun x hx => (hl x hx).2) he

/-! ## The counters -/

/-- What a list of loaded entries did to the counters and to `start_entry`. -/
structure Recovered (l : List Entry) (m : EntryMng) (s : Nat) (m' : EntryMng) (s' : Nat) :
    Prop where
  chosen_le : m.lastChosenEntry ≤ m'.lastChosenEntry
  chosen : ∀ x ∈ l, x.status = .chosen → x.entry ≤ m'.lastChosenEntry
  chosen_lt : m.lastChosenEntry < noEntry → m'.lastChosenEntry < noEntry
  used_le : m.maxInUsedEntry ≤ m'.maxInUsedEntry
  used : ∀ x ∈ l, x.entry ≤ m'.maxInUsedEntry
  used_lt : m.maxInUsedEntry < noEntry → m'.maxInUsedEntry < noEntry
  start_le : s ≤ s'
  start : ∀ x ∈ l, x.entry < s'
  start_up : ∀ k, s ≤ k → (∀ x ∈ l, x.entry < k) → s' ≤ k

theorem Recovered.refl (m : EntryMng) (s : Nat) : Recovered [] m s m s :=
  ⟨Nat.le_refl _, by simp, id, Nat.le_refl _, by simp, id, Nat.le_refl _, by simp, fun _ h _ => h⟩

theorem Recovered.trans {l₁ l₂ : List Entry} {m m₁ m₂ : EntryMng} {s s₁ s₂ : Nat}
    (h₁ : Recovered l₁ m s m₁ s₁) (h₂ : Recovered l₂ m₁ s₁ m₂ s₂) :
    Recovered (l₁ ++ l₂) m s m₂ s₂ where
  chosen_le := Nat.le_trans h₁.chosen_le h₂.chosen_le
  chosen x hx hs := by
    rcases List.mem_append.mp hx with hx | hx
    · exact Nat.le_trans (h₁.chosen x hx hs) h₂.chosen_le
    · exact h₂.chosen x hx hs
  chosen_lt h := h₂.chosen_lt (h₁.chosen_lt h)
  used_le := Nat.le_trans h₁.used_le h₂.used_le
  used x hx := by
    rcases List.mem_append.mp hx with hx | hx
    · exact Nat.le_trans (h₁.used x hx) h₂.used_le
    · exact h₂.used x hx
  used_lt h := h₂.used_lt (h₁.used_lt h)
  start_le := Nat.le_trans h₁.start_le h₂.start_le
  start x hx := by
    rcases List.mem_append.mp hx with hx | hx
    · exact Nat.lt_of_lt_of_le (h₁.start x hx) h₂.start_le
    · exact h₂.start x hx
  start_up k hk hl := by
    refine h₂.start_up k (h₁.start_up k hk fun x hx => hl x (List.mem_append_left _ hx)) ?_
    exact fun x hx => hl x (List.mem_append_right _ hx)

theorem recoverEntry_spec {m : EntryMng} {s : Nat} {ent : Entry} (hlt : ent.entry < noEntry) :
    Recovered [ent] m s (recoverEntry (m, s) ent).1 (recoverEntry (m, s) ent).2 := by
  have hu : u64 (ent.entry + 1) = ent.entry + 1 := by unfold u64; unfold noEntry at hlt; omega
  -- the counters only move up to the id of the entry
  constructor
  all_goals simp only [recoverEntry, List.mem_singleton, forall_eq, hu]
  all_goals intros
  all_goals split
  all_goals first | omega | simp_all

theorem recoverFold_spec : ∀ (l : List Entry) (m : EntryMng) (s : Nat), (∀ x ∈ l, x.entry < noEntry) →
    Recovered l m s (l.foldl recoverEntry (m, s)).1 (l.foldl recoverEntry (m, s)).2
  | [], m, s, _ => .refl m s
  | ent :: l, _, _, hlt =>
    (recoverEntry_spec (hlt ent List.mem_cons_self)).trans
      (recoverFold_spec l _ _ fun x hx => hlt x (List.mem_cons_of_mem _ hx))

/-- The counters while the log is being read: the entries below `s` have been seen. -/
structure Reading (d : Nat → Option Entry) (m : EntryMng) (s : Nat) : Prop where
  chosen : ∀ k x, 1 ≤ k → k < s → d k = some x → x.status = .chosen → k ≤ m.lastChosenEntry
  chosen_lt : m.lastChosenEntry < noEntry
  used : ∀ k x, 1 ≤ k → k < s → d k = some x → k ≤ m.maxInUsedEntry
  used_lt : m.maxInUsedEntry < noEntry

/-- The counters after the whole log has been read. -/
structure Counted (d : Nat → Option Entry) (m : EntryMng) : Prop where
  chosen : ∀ k x, 1 ≤ k → d k = some x → x.status = .chosen → k ≤ m.lastChosenEntry
  chosen_lt : m.lastChosenEntry < noEntry
  used : ∀ k x, 1 ≤ k → d k = some x → k ≤ m.maxInUsedEntry
  used_lt : m.maxInUsedEntry < noEntry

theorem Reading.counted {d : Nat → Option Entry} {m : EntryMng} {s : Nat} (h : Reading d m s)
    (hs : ∀ k, s ≤ k → d k = none) : Counted d m := by
  have hlt : ∀ k x, d k = some x → k < s := by
    intro k x hx
    by_contra hk
    rw [hs k (by omega)] at hx
    cases hx
  exact ⟨fun k x h1 hx => h.chosen k x h1 (hlt k x hx) hx, h.chosen_lt,
    fun k x h1 hx => h.used k x h1 (hlt k x hx) hx, h.used_lt⟩

theorem Reading.batch {d : Nat → Option Entry} {batch : Batch} {m : EntryMng} {s : Nat}
    {l : List Entry} (hb : ReadsLog batch d) (hk : Keyed d)
    (hlt : ∀ k x, d k = some x → k < noEntry) (h : Reading d m s) (hl : batch s noEntry = .ok l) :
    Reading d (l.foldl recoverEntry (m, s)).1 (l.foldl recoverEntry (m, s)).2 := by
  have hst := hb.stored s l hl
  have r := recoverFold_spec l m s fun x hx => hlt _ _ (hst x hx).2
  -- a stored entry below the new start was seen before or is in this batch
  have hseen : ∀ k x, d k = some x → k < (l.foldl recoverEntry (m, s)).2 → k < s ∨ x ∈ l := by
    intro k x hx hks
    by_cases hk' : k < s
    · exact .inl hk'
    · rcases hb.gapless s l hl k (by omega) (by rw [hx]; rfl) with ⟨y, hy, rfl⟩ | ⟨_, hall⟩
      · rw [(hst y hy).2] at hx
        exact .inr (Option.some.inj hx ▸ hy)
      · have := r.start_up k (by omega) hall
        omega
  refine ⟨?_, r.chosen_lt h.chosen_lt, ?_, r.used_lt h.used_lt⟩
  · intro k x h1 hks hx hs
    rcases hseen k x hx hks with hlt' | hm
    · exact Nat.le_trans (h.chosen k x h1 hlt' hx hs) r.chosen_le
    · exact hk k x hx ▸ r.chosen x hm hs
  · intro k x h1 hks hx
    rcases hseen k x hx hks with hlt' | hm
    · exact Nat.le_trans (h.used k x h1 hlt' hx) r.used_le
    · exact hk k x hx ▸ r.used x hm

theorem recoverLoop_spec {d : Nat → Option Entry} {batch : Batch} (hb : ReadsLog batch d)
    (hk : Keyed d) (hlt : ∀ k x, d k = some x → k < noEntry) :
    ∀ (fuel : Nat) (m m' : EntryMng) (s : Nat), Reading d m s →
      recoverLoop batch noEntry fuel m s = some m' → Counted d m'
  | 0, _, _, _, _, he => by simp [recoverLoop] at he
  | fuel + 1, m, m', s, h, he => by
    unfold recoverLoop at he
    split at he
    · rename_i c hc
      obtain rfl := Option.some.inj he
      exact h.counted (hb.drained s c hc)
    · rename_i hc
      obtain rfl := Option.some.inj he
      refine h.counted fun k hks => ?_
      by_contra hne
      rcases hb.gapless s [] hc k hks (Option.isSome_iff_ne_none.mpr hne) with ⟨x, hx, _⟩ | ⟨hn, _⟩
      · simp at hx
      · exact hn rfl
    · rename_i ent ents hc
      exact recoverLoop_spec hb hk hlt fuel _ _ _ (h.batch hb hk hlt hc) he

theorem loadAllFromDisk_loop {batch : Batch} {lastCommitted : Except Int Nat} {fuel : Nat}
    {m m' : EntryMng} (h : loadAllFromDisk batch lastCommitted fuel m = some (true, m')) :
    ∃ committed m₁ g, recoverLoop batch noEntry fuel (m.resetCounters committed) 1 = some m₁ ∧
      m' = { m₁ with globalMaxChosenEntry := g } := by
  unfold loadAllFromDisk at h
  split at h
  · simp at h
  · rename_i committed
    simp only [recoverRange, Option.map_map, Option.map_eq_some_iff, Function.comp_apply,
      Prod.mk.injEq, true_and] at h
    obtain ⟨m₁, h₁, h₂⟩ := h
    refine ⟨committed, m₁, m'.globalMaxChosenEntry, h₁, ?_⟩
    split at h₂ <;> subst h₂ <;> rfl

/-- Whatever the counters, a recovered manager holds stored entries only. -/
theorem loadAllFromDisk_fromLog {cfg : Configure} {p : Nat} {d : Nat → Option Entry} {batch : Batch}
    {lastCommitted : Except Int Nat} {fuel : Nat} {m : EntryMng} (hb : ReadsLog batch d)
    (h : loadAllFromDisk batch lastCommitted fuel (EntryMng.new cfg p d) = some (true, m)) :
    FromLog d m := by
  obtain ⟨committed, m₁, g, h₁, rfl⟩ := loadAllFromDisk_loop h
  have h0 : FromLog d ((EntryMng.new cfg p d).resetCounters committed) :=
    ⟨rfl, cfg.cache_pos, fun k x hx => absurd hx (by simp [EntryMng.cached, EntryMng.new, resetCounters])⟩
  have hr := recoverLoop_fromLog hb fuel _ m₁ 1 h0 h₁
  exact ⟨hr.disk, hr.cap, hr.cached⟩

/-- A recovery that read the whole log of a manager just constructed. -/
theorem loadAllFromDisk_counted {cfg : Configure} {p : Nat} {d : Nat → Option Entry} {batch : Batch}
    {lastCommitted : Except Int Nat} {fuel : Nat} {m : EntryMng} (hb : ReadsLog batch d)
    (hk : Keyed d) (hlt : ∀ k x, d k = some x → k < noEntry)
    (h : loadAllFromDisk batch lastCommitted fuel (EntryMng.new cfg p d) = some (true, m)) :
    Counted d m := by
  obtain ⟨committed, m₁, g, h₁, rfl⟩ := loadAllFromDisk_loop h
  have h0 : (0 : Nat) < noEntry := by decide
  have hr := recoverLoop_spec hb hk hlt fuel _ m₁ 1
    { chosen := fun k _ h1 h2 => absurd h1 (by omega)
      chosen_lt := h0
      used := fun k _ h1 h2 => absurd h1 (by omega)
      used_lt := h0 } h₁
  exact ⟨hr.chosen, hr.chosen_lt, hr.used, hr.used_lt⟩

/-- Every batch but the last moves `start_entry` up, so the loop over a log that
ends below `bound` ends. -/
theorem recoverLoop_total {d : Nat → Option Entry} {batch : Batch} {bound : Nat}
    (hb : ReadsLog batch d) (hbound : bound ≤ noEntry) (hlt : ∀ k x, d k = some x → k < bound) :
    ∀ (fuel : Nat) (m : EntryMng) (s : Nat), bound < fuel + s → s ≤ bound →
      ∃ m', recoverLoop batch noEntry fuel m s = some m'
  | 0, _, _, hf, hs => by omega
  | fuel + 1, m, s, hf, hs => by
    unfold recoverLoop
    split
    · exact ⟨m, rfl⟩
    · exact ⟨m, rfl⟩
    · rename_i ent ents hc
      have hst := hb.stored s _ hc
      have r := recoverFold_spec (ent :: ents) m s
        fun x hx => Nat.lt_of_lt_of_le (hlt _ _ (hst x hx).2) hbound
      have h1 := r.start ent List.mem_cons_self
      have h2 := (hst ent List.mem_cons_self).1
      have h3 := r.start_up bound hs fun x hx => hlt _ _ (hst x hx).2
      exact recoverLoop_total hb hbound hlt fuel _ _ (by omega) h3

end EntryMng
end Quarrel
