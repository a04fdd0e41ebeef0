import Quarrel.Core.Segment
import Quarrel.L2Plog.Recover

/-!
# The counters of a recovered log

`LoadAllFromDisk` updates seven counters in one pass over batches of any size.
`Recounted` says what they stand for, as extrema of sets of entry ids, and so
determines them.

* `recoverEntry_tally`: one entry above those read so far.
* `loadAllFromDisk_recounts`: a recovery over ascending batches ends, and its
  counters are those of the whole log, whatever the batches and the cache.
* `loadAllFromDisk_hides`: a read error ends the loop like the end of the log does,
  and `RecoverRange` returns an error code, 0, as its `bool`, which nobody reads.
-/
namespace Quarrel

namespace EntryMng

/-- The ids of the stored entries. -/
def storedIds (d : Nat → Option Entry) : Set Nat := {k | (d k).isSome}

/-- The ids of the stored entries that are chosen. -/
def chosenIds (d : Nat → Option Entry) : Set Nat := {k | ∃ x, d k = some x ∧ x.status = .chosen}

/-- The ids of the stored entries that are not. -/
def unchosenIds (d : Nat → Option Entry) : Set Nat := {k | ∃ x, d k = some x ∧ x.status ≠ .chosen}

/-- The counters of a log, but for the global one. -/
structure Tally (d : Nat → Option Entry) (committed : Nat) (m : EntryMng) : Prop where
  used : IsGreatest (insert 0 (storedIds d)) m.maxInUsedEntry
  chosen : IsGreatest (insert 0 (chosenIds d)) m.lastChosenEntry
  valid : IsLeast (insert noEntry (storedIds d)) m.firstValidEntry
  unchosen : IsLeast (insert noEntry (unchosenIds d)) m.firstUnchosenEntry
  commits : m.maxCommittedEntry = committed
  continued : IsGreatest (segment committed (chosenIds d)) m.maxContinueChosenEntry

/-- The counters of the log `d`. -/
structure Recounted (d : Nat → Option Entry) (committed : Nat) (m : EntryMng) : Prop where
  tally : Tally d committed m
  global : m.globalMaxChosenEntry = m.lastChosenEntry

section

variable {d : Nat → Option Entry} {x : Nat} {ent : Entry}

theorem storedIds_update (d : Nat → Option Entry) (x : Nat) (ent : Entry) :
    storedIds (Function.update d x (some ent)) = insert x (storedIds d) := by
  ext k
  by_cases hk : k = x
  · subst hk
    simp [storedIds]
  · simp [storedIds, hk]

theorem chosenIds_update (h : ent.status = .chosen) :
    chosenIds (Function.update d x (some ent)) = insert x (chosenIds d) := by
  ext k
  by_cases hk : k = x
  · subst hk
    simp [chosenIds, h]
  · simp [chosenIds, hk]

theorem chosenIds_update_not (h : ent.status ≠ .chosen) (hx : x ∉ chosenIds d) :
    chosenIds (Function.update d x (some ent)) = chosenIds d := by
  ext k
  by_cases hk : k = x
  · subst hk
    simpa [chosenIds, h] using hx
  · simp [chosenIds, Function.update_of_ne hk]

theorem unchosenIds_update (h : ent.status ≠ .chosen) :
    unchosenIds (Function.update d x (some ent)) = insert x (unchosenIds d) := by
  ext k
  by_cases hk : k = x
  · subst hk
    simp [unchosenIds, h]
  · simp [unchosenIds, hk]

theorem unchosenIds_update_not (h : ent.status = .chosen) (hx : x ∉ unchosenIds d) :
    unchosenIds (Function.update d x (some ent)) = unchosenIds d := by
  ext k
  by_cases hk : k = x
  · subst hk
    simpa [unchosenIds, h] using hx
  · simp [unchosenIds, Function.update_of_ne hk]

theorem storedIds_of_chosen (h : x ∈ chosenIds d) : x ∈ storedIds d := by
  obtain ⟨e, he, _⟩ := h
  simp [storedIds, he]

theorem storedIds_of_unchosen (h : x ∈ unchosenIds d) : x ∈ storedIds d := by
  obtain ⟨e, he, _⟩ := h
  simp [storedIds, he]

theorem isGreatest_insert {s : Set Nat} {z a : Nat} (h : IsGreatest (insert z s) a) (x : Nat) :
    IsGreatest (insert z (insert x s)) (if x > a then x else a) := by
  rw [Set.insert_comm]
  have hmax : (if x > a then x else a) = max x a := by split <;> omega
  rw [hmax]
  exact h.insert x

theorem isLeast_insert {s : Set Nat} {z a : Nat} (h : IsLeast (insert z s) a) (x : Nat) :
    IsLeast (insert z (insert x s)) (if x < a then x else a) := by
  rw [Set.insert_comm]
  have hmin : (if x < a then x else a) = min x a := by split <;> omega
  rw [hmin]
  exact h.insert x

end

/-! ## One pass -/

section

variable {d : Nat → Option Entry} {m : EntryMng} {committed s : Nat} {ent : Entry}

/-- The counters of the log `d` after one more entry, above all those of `d`. -/
theorem recoverEntry_tally (h : Tally d committed m) (hc : committed < 2 ^ 64)
    (habove : ∀ k ∈ storedIds d, k < ent.entry) (hlt : ent.entry < noEntry) (hpos : 0 < ent.entry) :
    Tally (Function.update d ent.entry (some ent)) committed (recoverEntry (m, s) ent).1 := by
  have hnew : ent.entry ∉ storedIds d := fun hm => Nat.lt_irrefl _ (habove _ hm)
  have hnc : ent.entry ∉ chosenIds d := fun hm => hnew (storedIds_of_chosen hm)
  have hnu : ent.entry ∉ unchosenIds d := fun hm => hnew (storedIds_of_unchosen hm)
  -- the end of the segment is `committed` or an entry read before
  have hend : m.maxContinueChosenEntry < 2 ^ 64 := by
    by_cases hle : m.maxContinueChosenEntry ≤ committed
    · omega
    · have hmem := h.continued.1.2 _ (Nat.lt_of_not_le hle) (Nat.le_refl _)
      have := habove _ (storedIds_of_chosen hmem)
      unfold noEntry at hlt
      omega
  have hnext : ent.entry = u64 (m.maxContinueChosenEntry + 1) ↔
      ent.entry = m.maxContinueChosenEntry + 1 := by
    unfold u64
    unfold noEntry at hlt
    omega
  by_cases hch : ent.status = .chosen
  · refine ⟨?_, ?_, ?_, ?_, h.commits, ?_⟩
    · rw [storedIds_update]
      exact isGreatest_insert h.used _
    · rw [chosenIds_update hch]
      simpa only [recoverEntry, hch, true_and] using isGreatest_insert h.chosen ent.entry
    · rw [storedIds_update]
      exact isLeast_insert h.valid _
    · rw [unchosenIds_update_not hch hnu]
      simpa only [recoverEntry, hch, not_true_eq_false, false_and, if_false] using h.unchosen
    · rw [chosenIds_update hch]
      by_cases hx : ent.entry = m.maxContinueChosenEntry + 1
      · have hu : u64 (m.maxContinueChosenEntry + 1) = ent.entry := (hnext.mpr hx).symm
        simp only [recoverEntry, hch, hu, true_and, if_true]
        rw [hx]
        exact isGreatest_segment_extend h.continued
          fun k hk => hx ▸ habove k (storedIds_of_chosen hk)
      · simp only [recoverEntry, hch, true_and, if_neg (mt hnext.mp hx)]
        exact isGreatest_segment_insert h.continued hx
  · refine ⟨?_, ?_, ?_, ?_, h.commits, ?_⟩
    · rw [storedIds_update]
      exact isGreatest_insert h.used _
    · rw [chosenIds_update_not hch hnc]
      simpa only [recoverEntry, hch, false_and, if_false] using h.chosen
    · rw [storedIds_update]
      exact isLeast_insert h.valid _
    · rw [unchosenIds_update hch]
      simpa only [recoverEntry, hch, not_false_eq_true, true_and] using
        isLeast_insert h.unchosen ent.entry
    · rw [chosenIds_update_not hch hnc]
      simpa only [recoverEntry, hch, false_and, if_false] using h.continued

theorem recoverEntry_start (hlt : ent.entry < noEntry) (hs : s ≤ ent.entry) :
    (recoverEntry (m, s) ent).2 = ent.entry + 1 := by
  have hu : u64 (ent.entry + 1) = ent.entry + 1 := by
    unfold u64
    unfold noEntry at hlt
    omega
  simp only [recoverEntry, hu]
  exact if_pos hs

/-- The part of the log below `s`. -/
def below (s : Nat) (d : Nat → Option Entry) : Nat → Option Entry := fun k =>
  if k < s then d k else none

theorem mem_storedIds_below {k : Nat} (h : k ∈ storedIds (below s d)) :
    k < s ∧ k ∈ storedIds d := by
  change (below s d k).isSome at h
  unfold below at h
  split at h
  · exact ⟨‹_›, h⟩
  · cases h

theorem below_all (h : ∀ k, s ≤ k → d k = none) : below s d = d := by
  funext k
  unfold below
  split
  · rfl
  · exact (h k (by omega)).symm

theorem below_next (hent : d ent.entry = some ent) (hs : s ≤ ent.entry)
    (hgap : ∀ k, s ≤ k → k < ent.entry → d k = none) :
    below (ent.entry + 1) d = Function.update (below s d) ent.entry (some ent) := by
  funext k
  by_cases hk : k = ent.entry
  · subst hk
    simp [below, hent]
  · rw [Function.update_of_ne hk]
    unfold below
    by_cases h1 : k < s
    · rw [if_pos (by omega), if_pos h1]
    · rw [if_neg h1]
      by_cases h2 : k < ent.entry + 1
      · rw [if_pos h2]
        exact hgap k (by omega) (by omega)
      · rw [if_neg h2]

/-- What one batch is: the next stored entries from `s` on, in order. -/
structure NextRun (d : Nat → Option Entry) (s : Nat) (l : List Entry) : Prop where
  stored : ∀ x ∈ l, s ≤ x.entry ∧ d x.entry = some x
  gapless : ∀ k, s ≤ k → (d k).isSome → (∃ x ∈ l, x.entry = k) ∨ ∀ x ∈ l, x.entry < k
  ascending : l.Pairwise fun x y => x.entry < y.entry

theorem NextRun.tail {l : List Entry} (h : NextRun d s (ent :: l)) : NextRun d (ent.entry + 1) l := by
  have hlt := (List.pairwise_cons.mp h.ascending).1
  refine ⟨fun x hx => ⟨hlt x hx, (h.stored x (List.mem_cons_of_mem _ hx)).2⟩, fun k hk hst => ?_,
    (List.pairwise_cons.mp h.ascending).2⟩
  have hs := (h.stored ent List.mem_cons_self).1
  rcases h.gapless k (by omega) hst with ⟨x, hx, hxk⟩ | hall
  · rcases List.mem_cons.mp hx with rfl | hx
    · omega
    · exact .inl ⟨x, hx, hxk⟩
  · exact .inr fun x hx => hall x (List.mem_cons_of_mem _ hx)

theorem recoverFold_tally (hc : committed < 2 ^ 64)
    (hids : ∀ k x, d k = some x → 1 ≤ k ∧ k < noEntry) : ∀ (l : List Entry) (m : EntryMng) (s : Nat),
    NextRun d s l → Tally (below s d) committed m →
      Tally (below (l.foldl recoverEntry (m, s)).2 d) committed (l.foldl recoverEntry (m, s)).1
  | [], _, _, _, h => h
  | ent :: l, m, s, hl, h => by
    obtain ⟨hs, hent⟩ := hl.stored ent List.mem_cons_self
    obtain ⟨hpos, hlt⟩ := hids _ _ hent
    have hgap : ∀ k, s ≤ k → k < ent.entry → d k = none := by
      intro k hk hke
      by_contra hne
      rcases hl.gapless k hk (Option.isSome_iff_ne_none.mpr hne) with ⟨x, hx, hxk⟩ | hall
      · rcases List.mem_cons.mp hx with rfl | hx
        · omega
        · have := (List.pairwise_cons.mp hl.ascending).1 x hx
          omega
      · have := hall ent List.mem_cons_self
        omega
    have hstep : Tally (below (ent.entry + 1) d) committed (recoverEntry (m, s) ent).1 := by
      rw [below_next hent hs hgap]
      refine recoverEntry_tally h hc (fun k hk => ?_) hlt hpos
      have := (mem_storedIds_below hk).1
      omega
    rw [List.foldl_cons]
    have hrun : recoverEntry (m, s) ent = ((recoverEntry (m, s) ent).1, ent.entry + 1) :=
      Prod.ext rfl (recoverEntry_start hlt hs)
    rw [hrun]
    exact recoverFold_tally hc hids l _ _ hl.tail hstep

end

/-! ## The whole log -/

section

variable {d : Nat → Option Entry} {batch : Batch} {committed : Nat}

/-- Batches in ascending order. -/
def Ascending (batch : Batch) : Prop :=
  ∀ b l, batch b noEntry = .ok l → l.Pairwise fun x y => x.entry < y.entry

theorem ReadsLog.nextRun (hb : ReadsLog batch d) (ha : Ascending batch) {s : Nat} {l : List Entry}
    (hl : batch s noEntry = .ok l) : NextRun d s l where
  stored := hb.stored s l hl
  gapless k hk hst := (hb.gapless s l hl k hk hst).imp id And.right
  ascending := ha s l hl

theorem recoverLoop_tally (hb : ReadsLog batch d) (ha : Ascending batch) (hc : committed < 2 ^ 64)
    (hids : ∀ k x, d k = some x → 1 ≤ k ∧ k < noEntry) : ∀ (fuel : Nat) (m m' : EntryMng) (s : Nat),
    Tally (below s d) committed m → recoverLoop batch noEntry fuel m s = some m' →
      Tally d committed m'
  | 0, _, _, _, _, he => by simp [recoverLoop] at he
  | fuel + 1, m, m', s, h, he => by
    unfold recoverLoop at he
    split at he
    · rename_i c hl
      obtain rfl := Option.some.inj he
      rwa [below_all (hb.drained s c hl)] at h
    · rename_i hl
      obtain rfl := Option.some.inj he
      have hnone : ∀ k, s ≤ k → d k = none := by
        intro k hk
        by_contra hne
        rcases hb.gapless s [] hl k hk (Option.isSome_iff_ne_none.mpr hne) with ⟨x, hx, _⟩ | ⟨hn, _⟩
        · cases hx
        · exact hn rfl
      rwa [below_all hnone] at h
    · rename_i ent ents hl
      exact recoverLoop_tally hb ha hc hids fuel _ _ _
        (recoverFold_tally hc hids _ m s (hb.nextRun ha hl) h) he

theorem recoverFold_kept : ∀ (l : List Entry) (r : EntryMng × Nat),
    (l.foldl recoverEntry r).1.disk = r.1.disk ∧
      (l.foldl recoverEntry r).1.globalMaxChosenEntry = r.1.globalMaxChosenEntry ∧
      (l.foldl recoverEntry r).1.entries.maxSize = r.1.entries.maxSize
  | [], _ => ⟨rfl, rfl, rfl⟩
  | ent :: l, r => recoverFold_kept l (recoverEntry r ent)

theorem recoverLoop_kept : ∀ (fuel : Nat) (m m' : EntryMng) (s : Nat),
    recoverLoop batch noEntry fuel m s = some m' →
      m'.disk = m.disk ∧ m'.globalMaxChosenEntry = m.globalMaxChosenEntry ∧
        m'.entries.maxSize = m.entries.maxSize
  | 0, _, _, _, he => by simp [recoverLoop] at he
  | fuel + 1, m, m', s, he => by
    unfold recoverLoop at he
    split at he
    · obtain rfl := Option.some.inj he
      exact ⟨rfl, rfl, rfl⟩
    · obtain rfl := Option.some.inj he
      exact ⟨rfl, rfl, rfl⟩
    · rename_i ent ents hl
      obtain ⟨h1, h2, h3⟩ := recoverLoop_kept fuel _ _ _ he
      obtain ⟨k1, k2, k3⟩ := recoverFold_kept (ent :: ents) (m, s)
      exact ⟨h1.trans k1, h2.trans k2, h3.trans k3⟩

/-- The last chosen entry stays what it was, or is one read as chosen. -/
theorem recoverFold_last {p : Nat → Prop} : ∀ (l : List Entry) (m : EntryMng) (s : Nat),
    (∀ x ∈ l, x.status = .chosen → p x.entry) → p m.lastChosenEntry →
      p (l.foldl recoverEntry (m, s)).1.lastChosenEntry
  | [], _, _, _, h => h
  | ent :: l, m, s, hl, h => by
    refine recoverFold_last l _ _ (fun x hx => hl x (List.mem_cons_of_mem _ hx)) ?_
    show p (if ent.status = .chosen ∧ ent.entry > m.lastChosenEntry then ent.entry
      else m.lastChosenEntry)
    split
    · rename_i hc
      exact hl ent List.mem_cons_self hc.1
    · exact h

theorem recoverLoop_last {p : Nat → Prop}
    (hb : ∀ b l, batch b noEntry = .ok l → ∀ x ∈ l, x.status = .chosen → p x.entry) :
    ∀ (fuel : Nat) (m m' : EntryMng) (s : Nat), p m.lastChosenEntry →
      recoverLoop batch noEntry fuel m s = some m' → p m'.lastChosenEntry
  | 0, _, _, _, _, he => by simp [recoverLoop] at he
  | fuel + 1, m, m', s, h, he => by
    unfold recoverLoop at he
    split at he
    · exact Option.some.inj he ▸ h
    · exact Option.some.inj he ▸ h
    · rename_i ent ents hl
      exact recoverLoop_last hb fuel _ _ _ (recoverFold_last _ _ _ (hb _ _ hl) h) he

/-- The counters a recovery starts from are those of an empty log. -/
theorem resetCounters_tally (m : EntryMng) (committed : Nat) :
    Tally (fun _ => none) committed (m.resetCounters committed) := by
  have hs : storedIds (fun _ => none) = ∅ := by ext k; simp [storedIds]
  have hch : chosenIds (fun _ => none) = ∅ := by ext k; simp [chosenIds]
  have hun : unchosenIds (fun _ => none) = ∅ := by ext k; simp [unchosenIds]
  refine ⟨?_, ?_, ?_, ?_, rfl, ?_⟩
  · simp [hs, resetCounters]
  · simp [hch, resetCounters]
  · simp [hs, resetCounters]
  · simp [hun, resetCounters]
  · rw [hch]
    exact isGreatest_segment_empty committed

/-- What follows the loop: the global counter is the last chosen entry. -/
theorem loadAllFromDisk_of_loop {fuel : Nat} {m₀ m : EntryMng}
    (h : recoverLoop batch noEntry fuel (m₀.resetCounters committed) 1 = some m) :
    loadAllFromDisk batch (.ok committed) fuel m₀ =
      some (true, { m with globalMaxChosenEntry := m.lastChosenEntry }) := by
  have hg : m.globalMaxChosenEntry = 0 := (recoverLoop_kept fuel _ _ _ h).2.1
  simp only [loadAllFromDisk, recoverRange, h, Option.map_some]
  split
  · rfl
  · rename_i hle
    have hz : m.globalMaxChosenEntry = m.lastChosenEntry := by omega
    exact congrArg (fun g => some (true, { m with globalMaxChosenEntry := g })) hz

theorem loadAllFromDisk_true {lastCommitted : Except Int Nat} {fuel : Nat} {m₀ m : EntryMng}
    (h : loadAllFromDisk batch lastCommitted fuel m₀ = some (true, m)) :
    ∃ committed m₁, lastCommitted = .ok committed ∧
      recoverLoop batch noEntry fuel (m₀.resetCounters committed) 1 = some m₁ ∧
      m = { m₁ with globalMaxChosenEntry := m₁.lastChosenEntry } := by
  cases lastCommitted with
  | error c => cases h
  | ok committed =>
    cases hr : recoverLoop batch noEntry fuel (m₀.resetCounters committed) 1 with
    | none => simp [loadAllFromDisk, recoverRange, hr] at h
    | some m₁ =>
      rw [loadAllFromDisk_of_loop hr] at h
      exact ⟨committed, m₁, rfl, hr, (Prod.mk.inj (Option.some.inj h)).2.symm⟩

/-- A recovery that succeeds computes the counters of the log. -/
theorem loadAllFromDisk_recounted {fuel : Nat} {m₀ m : EntryMng} (hb : ReadsLog batch d)
    (ha : Ascending batch) (hids : ∀ k x, d k = some x → 1 ≤ k ∧ k < noEntry)
    (hc : committed < 2 ^ 64)
    (h : loadAllFromDisk batch (.ok committed) fuel m₀ = some (true, m)) :
    Recounted d committed m := by
  obtain ⟨_, m₁, hcom, h₁, rfl⟩ := loadAllFromDisk_true h
  obtain rfl := Except.ok.inj hcom
  have hempty : below 1 d = fun _ => none := by
    funext k
    unfold below
    split
    · by_contra hne
      obtain ⟨x, hx⟩ := Option.ne_none_iff_exists'.mp hne
      have := (hids k x hx).1
      omega
    · rfl
  have ht := recoverLoop_tally hb ha hc hids fuel _ m₁ 1
    (hempty ▸ resetCounters_tally m₀ committed) h₁
  exact ⟨⟨ht.used, ht.chosen, ht.valid, ht.unchosen, ht.commits, ht.continued⟩, rfl⟩

/-- Whatever the batches and the cache, the recovery ends with the counters of the log. -/
theorem loadAllFromDisk_recounts (hb : ReadsLog batch d) (ha : Ascending batch)
    (hids : ∀ k x, d k = some x → 1 ≤ k ∧ k < noEntry) (hc : committed < 2 ^ 64) (m₀ : EntryMng) :
    ∃ n, ∀ fuel, n ≤ fuel → ∃ m, loadAllFromDisk batch (.ok committed) fuel m₀ = some (true, m) ∧
      Recounted d committed m := by
  refine ⟨noEntry, fun fuel hf => ?_⟩
  obtain ⟨m₁, h₁⟩ := recoverLoop_total hb (Nat.le_refl noEntry) (fun k x hx => (hids k x hx).2) fuel
    (m₀.resetCounters committed) 1 (by omega) (by decide)
  have hload := loadAllFromDisk_of_loop h₁
  exact ⟨_, hload, loadAllFromDisk_recounted hb ha hids hc hload⟩

/-- Entry 1 chosen, entry 3 promised, entry 2 missing. -/
def holedLog : Nat → Option Entry := fun k =>
  if k = 1 then some ⟨0, 1, some { allocProposal 0 with status := .chosen }, none⟩
  else if k = 3 then some ⟨0, 3, none, some { allocProposal 0 with status := .promised }⟩
  else none

/-- It is read one entry at a time. -/
def holedBatch : Batch := fun b _ =>
  if b ≤ 1 then .ok (holedLog 1).toList
  else if b ≤ 3 then .ok (holedLog 3).toList
  else .error ErrCode.entryNotExist

theorem holedLog_ids (k : Nat) (x : Entry) (h : holedLog k = some x) : 1 ≤ k ∧ k < noEntry := by
  unfold holedLog at h
  split at h
  · subst k
    decide
  · split at h
    · subst k
      decide
    · cases h

theorem holedBatch_reads : ReadsLog holedBatch holedLog where
  stored b l h x hx := by
    unfold holedBatch at h
    split at h
    · obtain rfl := Except.ok.inj h
      obtain rfl := List.mem_singleton.mp hx
      exact ⟨‹_›, rfl⟩
    · split at h
      · obtain rfl := Except.ok.inj h
        obtain rfl := List.mem_singleton.mp hx
        exact ⟨‹_›, rfl⟩
      · cases h
  gapless b l h k hk hst := by
    have hone : k = 1 ∨ k = 3 := by
      unfold holedLog at hst
      split at hst
      · exact .inl ‹_›
      · split at hst
        · exact .inr ‹_›
        · cases hst
    unfold holedBatch at h
    split at h
    · obtain rfl := Except.ok.inj h
      rcases hone with rfl | rfl
      · exact .inl ⟨_, List.mem_singleton.mpr rfl, rfl⟩
      · exact .inr (by decide)
    · split at h
      · obtain rfl := Except.ok.inj h
        obtain rfl : k = 3 := by omega
        exact .inl ⟨_, List.mem_singleton.mpr rfl, rfl⟩
      · cases h
  drained b c h k hk := by
    unfold holedBatch at h
    split at h
    · cases h
    · split at h
      · cases h
      · unfold holedLog
        rw [if_neg (by omega), if_neg (by omega)]

theorem holedBatch_ascending : Ascending holedBatch := by
  intro b l h
  unfold holedBatch at h
  split at h
  · obtain rfl := Except.ok.inj h
    exact List.pairwise_singleton _ _
  · split at h
    · obtain rfl := Except.ok.inj h
      exact List.pairwise_singleton _ _
    · cases h

theorem loadAllFromDisk_recounts_holed : ∃ n, ∀ fuel, n ≤ fuel → ∃ m,
    loadAllFromDisk holedBatch (.ok 0) fuel (EntryMng.new (Configure.init 0) 0 holedLog) =
      some (true, m) ∧ Recounted holedLog 0 m :=
  loadAllFromDisk_recounts holedBatch_reads holedBatch_ascending holedLog_ids (by decide) _

end

/-! ## Read errors -/

/-- The loop at `m`, `s` goes through successful batches to `m'`, `s'`. -/
inductive Calls (batch : Batch) : EntryMng → Nat → EntryMng → Nat → Prop
  | here (m : EntryMng) (s : Nat) : Calls batch m s m s
  | next {m m' : EntryMng} {s s' : Nat} {l : List Entry} (hl : batch s noEntry = .ok l)
      (hne : l ≠ []) (h : Calls batch (l.foldl recoverEntry (m, s)).1
        (l.foldl recoverEntry (m, s)).2 m' s') : Calls batch m s m' s'

section

variable {d : Nat → Option Entry} {batch : Batch} {m m' : EntryMng} {s s' : Nat}

/-- With enough fuel the loop ends where a batch fails, and only there. -/
theorem recoverLoop_of_calls (h : Calls batch m s m' s') {c : Int}
    (he : batch s' noEntry = .error c) :
    ∃ n, (∀ fuel, n ≤ fuel → recoverLoop batch noEntry fuel m s = some m') ∧
      ∀ fuel, fuel < n → recoverLoop batch noEntry fuel m s = none := by
  induction h with
  | here m s =>
    refine ⟨1, fun fuel hf => ?_, fun fuel hf => ?_⟩
    · obtain ⟨k, rfl⟩ := Nat.exists_eq_add_of_le' hf
      simp only [recoverLoop, he]
    · obtain rfl : fuel = 0 := by omega
      rfl
  | @next m m' s s' l hl hne _ ih =>
    obtain ⟨ent, ents, rfl⟩ := List.exists_cons_of_ne_nil hne
    obtain ⟨n, hge, hlt⟩ := ih he
    refine ⟨n + 1, fun fuel hf => ?_, fun fuel hf => ?_⟩
    · obtain ⟨k, rfl⟩ := Nat.exists_eq_add_of_le' hf
      show recoverLoop batch noEntry ((k + n) + 1) m s = some m'
      simp only [recoverLoop, hl]
      exact hge (k + n) (Nat.le_add_left _ _)
    · cases fuel with
      | zero => rfl
      | succ k =>
        simp only [recoverLoop, hl]
        exact hlt k (by omega)

theorem recoverFold_used_lt : ∀ (l : List Entry) (m : EntryMng) (s : Nat),
    (∀ x ∈ l, x.entry < noEntry) → m.maxInUsedEntry < s →
      (l.foldl recoverEntry (m, s)).1.maxInUsedEntry < (l.foldl recoverEntry (m, s)).2
  | [], _, _, _, h => h
  | ent :: l, m, s, hl, h => by
    have hlt := hl ent List.mem_cons_self
    have hu : u64 (ent.entry + 1) = ent.entry + 1 := by
      unfold u64
      unfold noEntry at hlt
      omega
    refine recoverFold_used_lt l _ _ (fun x hx => hl x (List.mem_cons_of_mem _ hx)) ?_
    simp only [hu]
    split <;> split <;> omega

theorem Calls.used_lt (h : Calls batch m s m' s')
    (hb : ∀ b l, batch b noEntry = .ok l → ∀ x ∈ l, d x.entry = some x)
    (hids : ∀ k x, d k = some x → 1 ≤ k ∧ k < noEntry) (hs : m.maxInUsedEntry < s) :
    m'.maxInUsedEntry < s' := by
  induction h with
  | here => exact hs
  | next hl _ _ ih =>
    exact ih (recoverFold_used_lt _ _ _ (fun x hx => (hids _ _ (hb _ _ hl x hx)).2) hs)

/-- A read fails at `s'` with the stored entry `k` unread: the recovery returns true
all the same, with counters that leave `k` out. -/
theorem loadAllFromDisk_hides {committed k : Nat} {m₀ : EntryMng} {c : Int}
    (hb : ∀ b l, batch b noEntry = .ok l → ∀ x ∈ l, d x.entry = some x)
    (hids : ∀ k x, d k = some x → 1 ≤ k ∧ k < noEntry)
    (h : Calls batch (m₀.resetCounters committed) 1 m' s') (he : batch s' noEntry = .error c)
    (hk : s' ≤ k) (hstored : (d k).isSome) :
    (∀ fuel m, loadAllFromDisk batch (.ok committed) fuel m₀ ≠ some (false, m)) ∧
      ∃ n, ∀ fuel, n ≤ fuel → ∃ m, loadAllFromDisk batch (.ok committed) fuel m₀ = some (true, m) ∧
        k ∈ storedIds d ∧ m.maxInUsedEntry < k := by
  have hused := h.used_lt hb hids (show (0 : Nat) < 1 by omega)
  obtain ⟨n, hge, hlt⟩ := recoverLoop_of_calls h he
  refine ⟨fun fuel m hload => ?_, n, fun fuel hf => ⟨_, loadAllFromDisk_of_loop (hge fuel hf),
    hstored, Nat.lt_of_lt_of_le hused hk⟩⟩
  by_cases hf : n ≤ fuel
  · rw [loadAllFromDisk_of_loop (hge fuel hf)] at hload
    cases hload
  · simp [loadAllFromDisk, recoverRange, hlt fuel (by omega)] at hload

/-- The storage fails after entry 1. -/
def failingBatch : Batch := fun b _ =>
  if b ≤ 1 then .ok (holedLog 1).toList else .error ErrCode.invalidPlogData

theorem failingBatch_stored (b : Nat) (l : List Entry) (h : failingBatch b noEntry = .ok l) :
    ∀ x ∈ l, holedLog x.entry = some x := by
  unfold failingBatch at h
  split at h
  · obtain rfl := Except.ok.inj h
    exact fun x hx => List.mem_singleton.mp hx ▸ rfl
  · cases h

theorem loadAllFromDisk_hides_failing :
    (∀ fuel m, loadAllFromDisk failingBatch (.ok 0) fuel
        (EntryMng.new (Configure.init 0) 0 holedLog) ≠ some (false, m)) ∧
      ∃ n, ∀ fuel, n ≤ fuel → ∃ m, loadAllFromDisk failingBatch (.ok 0) fuel
        (EntryMng.new (Configure.init 0) 0 holedLog) = some (true, m) ∧
        3 ∈ storedIds holedLog ∧ m.maxInUsedEntry < 3 :=
  loadAllFromDisk_hides failingBatch_stored holedLog_ids
    (.next rfl (by simp [holedLog]) (.here _ _)) (c := ErrCode.invalidPlogData) rfl (by decide) rfl

/-- The recovery returns true although entry 3 was never read. -/
theorem not_loadAllFromDisk_reports : ¬ ∀ (d : Nat → Option Entry) (batch : Batch)
    (committed k b : Nat) (m₀ m₁ : EntryMng) (c : Int),
    (∀ b l, batch b noEntry = .ok l → ∀ x ∈ l, d x.entry = some x) →
    (∀ k x, d k = some x → 1 ≤ k ∧ k < noEntry) →
    Calls batch (m₀.resetCounters committed) 1 m₁ b → batch b noEntry = .error c →
    c ≠ ErrCode.entryNotExist → b ≤ k → (d k).isSome →
    ∃ fuel m, loadAllFromDisk batch (.ok committed) fuel m₀ = some (false, m) := by
  intro hall
  have hcalls : Calls failingBatch
      ((EntryMng.new (Configure.init 0) 0 holedLog).resetCounters 0) 1 _ 2 :=
    .next rfl (by simp [holedLog]) (.here _ _)
  obtain ⟨fuel, m, hm⟩ := hall holedLog failingBatch 0 3 2 (EntryMng.new (Configure.init 0) 0 holedLog)
    _ ErrCode.invalidPlogData failingBatch_stored holedLog_ids hcalls rfl (by decide) (by decide) rfl
  cases fuel with
  | zero => cases hm
  | succ fuel =>
    cases fuel with
    | zero => cases hm
    | succ fuel =>
      obtain ⟨h, -⟩ := Prod.mk.inj (Option.some.inj hm)
      cases h

end

end EntryMng
end Quarrel
