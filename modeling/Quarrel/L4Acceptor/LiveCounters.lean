import Quarrel.L2Plog.Recount
import Quarrel.L4Acceptor.Chosen
import Quarrel.L4Acceptor.FailedWrite

/-!
# Counters while requests are served

A recovery computes the counters from the log. Requests change the log, and of the
four counters below only `last_chosen_entry_` follows.

* `live_added`, `live_marked`: when a save leaves the counters those of the log.
* `serve_live_iff`: when a request does.
* `liveCounters_of_keeps`: over runs of such requests the counters are those that a
  fresh recovery would compute.
* `not_liveCounters`: the first PREPARE after the recovery of an empty log.
-/
namespace Quarrel

open EntryMng

/-- The counters of the log `d`, but for the two that are not compared. -/
structure Live (d : Nat → Option Entry) (committed : Nat) (m : EntryMng) : Prop where
  chosen : IsGreatest (insert 0 (chosenIds d)) m.lastChosenEntry
  continued : IsGreatest (segment committed (chosenIds d)) m.maxContinueChosenEntry
  valid : IsLeast (insert noEntry (storedIds d)) m.firstValidEntry
  unchosen : IsLeast (insert noEntry (unchosenIds d)) m.firstUnchosenEntry

/-- The four counters of `m` and `m'` agree. -/
structure SameLive (m m' : EntryMng) : Prop where
  chosen : m.lastChosenEntry = m'.lastChosenEntry
  continued : m.maxContinueChosenEntry = m'.maxContinueChosenEntry
  valid : m.firstValidEntry = m'.firstValidEntry
  unchosen : m.firstUnchosenEntry = m'.firstUnchosenEntry

/-- The counters only a recovery writes are the same. -/
structure Untouched (m m' : EntryMng) : Prop where
  continued : m'.maxContinueChosenEntry = m.maxContinueChosenEntry
  valid : m'.firstValidEntry = m.firstValidEntry
  unchosen : m'.firstUnchosenEntry = m.firstUnchosenEntry

section

variable {d : Nat → Option Entry} {committed x : Nat} {m m' : EntryMng} {ent : Entry}

theorem Live.unique (h : Live d committed m) (h' : Live d committed m') : SameLive m m' where
  chosen := h.chosen.unique h'.chosen
  continued := h.continued.unique h'.continued
  valid := h.valid.unique h'.valid
  unchosen := h.unchosen.unique h'.unchosen

theorem live_of_tally (h : Tally d committed m) : Live d committed m :=
  ⟨h.chosen, h.continued, h.valid, h.unchosen⟩

theorem Live.congr (h : Live d committed m) (hm : Untouched m m')
    (hlast : m'.lastChosenEntry = m.lastChosenEntry) : Live d committed m' where
  chosen := hlast ▸ h.chosen
  continued := hm.continued ▸ h.continued
  valid := hm.valid ▸ h.valid
  unchosen := hm.unchosen ▸ h.unchosen

theorem Live.valid_le (h : Live d committed m) : m.firstValidEntry ≤ m.firstUnchosenEntry := by
  rcases h.unchosen.1 with he | hm
  · exact he ▸ h.valid.2 (.inl rfl)
  · exact h.valid.2 (.inr (storedIds_of_unchosen hm))

theorem live_added (h : Live d committed m) (hx : x ∉ chosenIds d) (hst : ent.status ≠ .chosen)
    (hm : Untouched m m') (hlast : m'.lastChosenEntry = m.lastChosenEntry) :
    Live (Function.update d x (some ent)) committed m' ↔ m.firstUnchosenEntry ≤ x := by
  constructor
  · intro h'
    have hmem : x ∈ insert noEntry (unchosenIds (Function.update d x (some ent))) := by
      rw [unchosenIds_update hst]
      exact .inr (.inl rfl)
    exact hm.unchosen ▸ h'.unchosen.2 hmem
  · intro hle
    have hvalid := Nat.le_trans h.valid_le hle
    have hall : Live (Function.update d x (some ent)) committed m := by
      refine ⟨?_, ?_, ?_, ?_⟩
      · rw [chosenIds_update_not hst hx]
        exact h.chosen
      · rw [chosenIds_update_not hst hx]
        exact h.continued
      · rw [storedIds_update]
        have hl := isLeast_insert h.valid x
        rwa [if_neg (by omega)] at hl
      · rw [unchosenIds_update hst]
        have hl := isLeast_insert h.unchosen x
        rwa [if_neg (by omega)] at hl
    exact hall.congr hm hlast

/-- A chosen entry is no longer among the others. -/
theorem unchosenIds_update_chosen (h : ent.status = .chosen) :
    unchosenIds (Function.update d x (some ent)) = unchosenIds d \ {x} := by
  ext k
  by_cases hk : k = x
  · subst hk
    simp [unchosenIds, h]
  · simp [unchosenIds, hk]

theorem isLeast_diff {s : Set Nat} {z a : Nat} (h : IsLeast (insert z s) a) (hz : x ≠ z) :
    IsLeast (insert z (s \ {x})) a ↔ x ≠ a := by
  constructor
  · intro h' he
    subst he
    rcases h'.1 with he | hm
    · exact hz he
    · exact hm.2 rfl
  · intro hne
    refine ⟨h.1.imp id fun hm => ⟨hm, fun he => hne he.symm⟩, fun k hk => h.2 ?_⟩
    exact hk.imp id And.left

theorem live_marked (h : Live d committed m) (hids : ∀ k ∈ storedIds d, k < noEntry)
    (hx : x ∈ unchosenIds d) (hst : ent.status = .chosen) (hm : Untouched m m')
    (hlast : m'.lastChosenEntry = chosenAfter m.lastChosenEntry x) :
    Live (Function.update d x (some ent)) committed m' ↔
      x ≠ m.firstUnchosenEntry ∧ x ≠ m.maxContinueChosenEntry + 1 := by
  have hxs := storedIds_of_unchosen hx
  have hxlt := hids x hxs
  have hdiff := isLeast_diff h.unchosen (Nat.ne_of_lt hxlt)
  constructor
  · intro h'
    refine ⟨?_, fun he => ?_⟩
    · have hu := h'.unchosen
      rw [unchosenIds_update_chosen hst, hm.unchosen] at hu
      exact hdiff.mp hu
    · have hc := not_mem_of_isGreatest_segment h'.continued
      rw [hm.continued, ← he, chosenIds_update hst] at hc
      exact hc (.inl rfl)
  · intro hne
    -- no chosen entry is 0 after a recovery, not `~0`
    have hlc : m.lastChosenEntry < noEntry := by
      rcases h.chosen.1 with he | hmem
      · rw [he]
        decide
      · exact hids _ (storedIds_of_chosen hmem)
    refine ⟨?_, ?_, ?_, ?_⟩
    · rw [chosenIds_update hst, hlast]
      have hg := isGreatest_insert h.chosen x
      unfold chosenAfter
      split <;> split at hg <;> first | exact hg | omega
    · rw [chosenIds_update hst, hm.continued]
      exact isGreatest_segment_insert h.continued hne.2
    · rw [storedIds_update, Set.insert_eq_of_mem hxs, hm.valid]
      exact h.valid
    · rw [unchosenIds_update_chosen hst, hm.unchosen]
      exact hdiff.mpr hne.1

end

/-! ## Serving requests -/

/-- The manager after a request whose saves succeed. -/
def serve (m : EntryMng) (msg : PaxosMsg) : Option EntryMng :=
  (handlerOf msg.type).map fun p => (p.2 m Saves.good msg.pp).mng

/-- A log of real entries, and a storage that reads it back in order. -/
structure ReadBack (batch : Batch) (d : Nat → Option Entry) : Prop where
  reads : ReadsLog batch d
  ascending : Ascending batch
  ids : ∀ k x, d k = some x → 1 ≤ k ∧ k < noEntry

/-- A manager that has loaded its log, and serves requests for real entries. -/
def liveSys (cfg : Configure) (i committed : Nat) : LTS EntryMng PaxosMsg where
  init m := ∃ d batch fuel, ReadBack batch d ∧
    loadAllFromDisk batch (.ok committed) fuel (EntryMng.new cfg i d) = some (true, m)
  step m msg m' := serve m msg = some m' ∧ msg.pp.pentry < noEntry

/-- The counters are those of a manager that loads the log as it is now. -/
def LiveCounters (cfg : Configure) (i committed : Nat) (m : EntryMng) : Prop :=
  ∀ batch fuel m', ReadBack batch m.disk →
    loadAllFromDisk batch (.ok committed) fuel (EntryMng.new cfg i m.disk) = some (true, m') →
    SameLive m m'

/-- The request saves a promise or a vote. -/
def SavesOpen (m : EntryMng) (msg : PaxosMsg) : Prop :=
  (msg.type = .prepareReq ∧ SetsPromised m msg.pp) ∨ (msg.type = .acceptReq ∧ SetsAccepted m msg.pp)

/-- The request saves a vote as chosen. -/
def SavesChosen (m : EntryMng) (msg : PaxosMsg) : Prop :=
  msg.type = .chosenReq ∧ ∃ a, Matches m msg.pp a ∧ a.status ≠ .chosen

/-- The request saves nothing below the first entry that is not chosen, and chooses neither
that one nor the one after the chosen segment. -/
structure KeepsCounters (m : EntryMng) (msg : PaxosMsg) : Prop where
  opened : SavesOpen m msg → m.firstUnchosenEntry ≤ msg.pp.pentry
  marked : SavesChosen m msg →
    msg.pp.pentry ≠ m.firstUnchosenEntry ∧ msg.pp.pentry ≠ m.maxContinueChosenEntry + 1

/-- What a served request did to the log. -/
inductive Logged (m : EntryMng) (msg : PaxosMsg) (m' : EntryMng) : Prop
  | kept (hn : ¬ SavesOpen m msg) (hc : ¬ SavesChosen m msg) (hd : m'.disk = m.disk)
      (hl : m'.lastChosenEntry = m.lastChosenEntry)
  | cleared (ent : Entry) (hst : ent.status ≠ .chosen) (hn : ¬ SavesOpen m msg)
      (hc : ¬ SavesChosen m msg) (hmem : msg.pp.pentry ∈ unchosenIds m.disk)
      (hd : m'.disk = Function.update m.disk msg.pp.pentry (some ent))
      (hl : m'.lastChosenEntry = m.lastChosenEntry)
  | added (ent : Entry) (hst : ent.status ≠ .chosen) (hb : ¬ Behind m msg.pp) (hs : SavesOpen m msg)
      (hc : ¬ SavesChosen m msg) (hd : m'.disk = Function.update m.disk msg.pp.pentry (some ent))
      (hl : m'.lastChosenEntry = m.lastChosenEntry)
  | marked (ent : Entry) (hst : ent.status = .chosen) (hn : ¬ SavesOpen m msg)
      (hs : SavesChosen m msg) (hmem : msg.pp.pentry ∈ unchosenIds m.disk)
      (hd : m'.disk = Function.update m.disk msg.pp.pentry (some ent))
      (hl : m'.lastChosenEntry = chosenAfter m.lastChosenEntry msg.pp.pentry)

section

variable {m m' : EntryMng} {msg : PaxosMsg} {committed : Nat}

theorem serve_served (hpos : 0 < m.entries.maxSize) (h : serve m msg = some m') :
    ∃ hd : Handled, Served m Saves.good msg.pp msg.type hd ∧ m' = hd.mng := by
  obtain ⟨p, hp, rfl⟩ := Option.map_eq_some_iff.mp h
  exact ⟨_, served_of_handler hpos Saves.good msg.pp hp, rfl⟩

theorem serve_untouched (h : serve m msg = some m') : Untouched m m' := by
  obtain ⟨p, hp, rfl⟩ := Option.map_eq_some_iff.mp h
  obtain ⟨_, hcont, hvalid, hun, _⟩ := checked_counters m msg.pp
  rcases handler_counters m Saves.good msg.pp hp with ⟨_, hsame, _⟩ | ⟨_, _, hsame | ⟨_, hsame⟩⟩
  · exact ⟨hsame.continued.trans hcont, hsame.valid.trans hvalid, hsame.unchosen.trans hun⟩
  · exact ⟨hsame.continued, hsame.valid, hsame.unchosen⟩
  · exact ⟨hsame.continued, hsame.valid, hsame.unchosen⟩

theorem status_of_accepted {ent : Entry} {a : Proposal} (h : ent.accepted = some a) :
    ent.status = a.status := by
  unfold Entry.status
  rw [h]

theorem status_of_promised {ent : Entry} {p : Proposal} (ha : ent.accepted = none)
    (hp : ent.promised = some p) : ent.status = p.status := by
  unfold Entry.status
  rw [ha, hp]

/-- A vote that is not chosen is stored like that. -/
theorem mem_unchosenIds (hb : AllBacked m) {e : Nat} {a : Proposal}
    (ha : (m.opened e).accepted = some a) (hst : a.status ≠ .chosen) : e ∈ unchosenIds m.disk := by
  obtain ⟨y, hy, hya⟩ := (backed_opened hb e).accepted a ha
  exact ⟨y, hy, by rw [status_of_accepted hya]; exact hst⟩

section

variable {h : Handled}

theorem savesOpen_prepare (ht : msg.type = .prepareReq) :
    SavesOpen m msg ↔ SetsPromised m msg.pp := by
  simp [SavesOpen, ht]

theorem savesOpen_accept (ht : msg.type = .acceptReq) :
    SavesOpen m msg ↔ SetsAccepted m msg.pp := by
  simp [SavesOpen, ht]

theorem not_savesOpen_chosen (ht : msg.type = .chosenReq) : ¬ SavesOpen m msg := by
  simp [SavesOpen, ht]

theorem not_savesChosen (ht : msg.type ≠ .chosenReq) : ¬ SavesChosen m msg := fun h => ht h.1

theorem PrepareDone.logged (hd : PrepareDone m Saves.good msg.pp h) (ht : msg.type = .prepareReq) :
    Logged m msg h.mng := by
  have hc : ¬ SavesChosen m msg := not_savesChosen (by rw [ht]; decide)
  have hopen := savesOpen_prepare (m := m) ht
  cases hd with
  | behind hb hm =>
    rw [hm]
    exact .kept (fun hs => (hopen.mp hs).1 hb) hc rfl rfl
  | voted a _ ha hm =>
    refine .kept (fun hs => ?_) hc hm.disk hm.lastChosen
    have hnone := (hopen.mp hs).2.1
    rw [ha] at hnone
    cases hnone
  | kept pr _ _ hp hle hm =>
    exact .kept (fun hs => Nat.not_lt.mpr hle ((hopen.mp hs).2.2.1 pr hp)) hc hm.disk hm.lastChosen
  | probed _ _ _ h0 hm =>
    refine .kept (fun hs => ?_) hc hm.disk hm.lastChosen
    have hpos := (hopen.mp hs).2.2.2
    omega
  | promised hb ha hp hpid _ hm =>
    refine .added { m.opened msg.pp.pentry with promised := some (asPromised msg.pp) } ?_ hb
      (hopen.mpr ⟨hb, ha, hp, hpid⟩) hc hm.disk hm.lastChosen
    have hent : ({ m.opened msg.pp.pentry with
      promised := some (asPromised msg.pp) } : Entry).accepted = none := ha
    rw [status_of_promised hent rfl]
    show PaxosState.promised ≠ .chosen
    decide
  | failed _ _ _ _ hs => cases hs

theorem AcceptDone.logged (hd : AcceptDone m Saves.good msg.pp h) (ht : msg.type = .acceptReq)
    (hsafe : ChosenSafe m) (hb : AllBacked m) : Logged m msg h.mng := by
  have hc : ¬ SavesChosen m msg := not_savesChosen (by rw [ht]; decide)
  have hopen := savesOpen_accept (m := m) ht
  cases hd with
  | behind hbh hm =>
    rw [hm]
    exact .kept (fun hs => (hopen.mp hs).1 hbh) hc rfl rfl
  | repeated a hbh ha hm =>
    have hst := hsafe.opened_not_chosen hbh a ha.1
    refine .cleared { m.opened msg.pp.pentry with promised := none } ?_ (fun hs => ?_) hc
      (mem_unchosenIds hb ha.1 hst) hm.disk hm.lastChosen
    · have hent : ({ m.opened msg.pp.pentry with promised := none } : Entry).accepted = some a :=
        ha.1
      rw [status_of_accepted hent]
      exact hst
    · have hlt := ((hopen.mp hs).2.over ha.1).2
      have heq := ha.2.2.1
      omega
  | accepted hbh ha _ hm =>
    refine .added { m.opened msg.pp.pentry with
      accepted := some (asAccepted msg.pp), promised := none } ?_ hbh
      (hopen.mpr ⟨hbh, ha⟩) hc ?_ hm.lastChosen
    · rw [status_of_accepted (a := asAccepted msg.pp) rfl, asAccepted_status]
      decide
    · rw [hm.disk]
      exact Function.update_idem _ _ _
  | failed _ _ hs => cases hs
  | refused _ _ _ ha _ _ hm =>
    exact .kept (fun hs => ha (hopen.mp hs).2) hc hm.disk hm.lastChosen

theorem ChosenDone.logged (hd : ChosenDone m Saves.good msg.pp h) (ht : msg.type = .chosenReq)
    (hb : AllBacked m) : Logged m msg h.mng := by
  have hn : ¬ SavesOpen m msg := not_savesOpen_chosen ht
  cases hd with
  | mismatch ha hm =>
    refine .kept hn (fun hc => ?_) hm.disk hm.lastChosen
    obtain ⟨_, a, hmatch, _⟩ := hc
    rcases ha a hmatch.1 with hne | hne
    · exact hne hmatch.2.1
    · exact hne hmatch.2.2
  | already a ha _ _ hst hm =>
    refine .kept hn (fun hc => ?_) hm.disk hm.lastChosen
    obtain ⟨_, b, hmatch, hbst⟩ := hc
    have hab := hmatch.1
    rw [ha] at hab
    exact hbst (Option.some.inj hab ▸ hst)
  | chosen a ha hpid hvid hst _ hm =>
    exact .marked _ rfl hn ⟨ht, a, ⟨ha, hpid, hvid⟩, hst⟩ (mem_unchosenIds hb ha hst) hm.disk
      hm.lastChosen
  | failed _ _ _ _ _ hs => cases hs

end

theorem serve_logged (hpos : 0 < m.entries.maxSize) (hsafe : ChosenSafe m) (hb : AllBacked m)
    (h : serve m msg = some m') : Logged m msg m' := by
  obtain ⟨hd, hs, rfl⟩ := serve_served hpos h
  rcases hs.branches with ⟨ht, hd⟩ | ⟨ht, hd⟩ | ⟨ht, hd⟩
  · exact hd.logged ht
  · exact hd.logged ht hsafe hb
  · exact hd.logged ht hb

/-- What holds of the manager while its counters are those of the log. -/
structure LiveInv (committed : Nat) (m : EntryMng) : Prop where
  cap : 0 < m.entries.maxSize
  safe : ChosenSafe m
  backed : AllBacked m
  ids : ∀ k x, m.disk k = some x → 1 ≤ k
  live : Live m.disk committed m

theorem LiveInv.bounded (h : LiveInv committed m) : ∀ k ∈ storedIds m.disk, k < noEntry := by
  intro k hk
  obtain ⟨x, hx⟩ := Option.isSome_iff_exists.mp hk
  exact h.safe.bounded k x hx

/-- Past the early exit a request is for an entry above every chosen one. -/
theorem LiveInv.last_lt (h : LiveInv committed m) {pp : Proposal} (hb : ¬ Behind m pp) :
    m.lastChosenEntry < pp.pentry := by
  by_contra hle
  refine hb ⟨?_, Nat.not_lt.mp hle⟩
  rcases h.live.chosen.1 with he | hm
  · rw [he]
    decide
  · exact Nat.ne_of_lt (h.bounded _ (storedIds_of_chosen hm))

/-- The counters stay those of the log exactly if the request keeps them. -/
theorem serve_live_iff (hI : LiveInv committed m) (h : serve m msg = some m') :
    Live m'.disk committed m' ↔ KeepsCounters m msg := by
  have hm := serve_untouched h
  cases serve_logged hI.cap hI.safe hI.backed h with
  | kept hn hc hd hl =>
    rw [hd]
    exact iff_of_true (hI.live.congr hm hl) ⟨fun hs => absurd hs hn, fun hs => absurd hs hc⟩
  | cleared ent hst hn hc hmem hd hl =>
    have hnot : msg.pp.pentry ∉ chosenIds m.disk := by
      intro hch
      obtain ⟨x, hx, hxs⟩ := hmem
      obtain ⟨y, hy, hys⟩ := hch
      rw [hx] at hy
      exact hxs (Option.some.inj hy ▸ hys)
    rw [hd, live_added hI.live hnot hst hm hl]
    exact iff_of_true (hI.live.unchosen.2 (.inr hmem))
      ⟨fun hs => absurd hs hn, fun hs => absurd hs hc⟩
  | added ent hst hb hs hc hd hl =>
    have hnot : msg.pp.pentry ∉ chosenIds m.disk := by
      intro hch
      exact Nat.not_lt.mpr (hI.live.chosen.2 (.inr hch)) (hI.last_lt hb)
    rw [hd, live_added hI.live hnot hst hm hl]
    exact ⟨fun hle => ⟨fun _ => hle, fun hs' => absurd hs' hc⟩, fun hk => hk.opened hs⟩
  | marked ent hst hn hs hmem hd hl =>
    rw [hd, live_marked hI.live hI.bounded hmem hst hm hl]
    exact ⟨fun hne => ⟨fun hs' => absurd hs' hn, fun _ => hne⟩, fun hk => hk.marked hs⟩

theorem serve_ids (hI : LiveInv committed m) (h : serve m msg = some m') :
    ∀ k x, m'.disk k = some x → 1 ≤ k := by
  have hcase : m'.disk = m.disk ∨ (1 ≤ msg.pp.pentry ∧
      ∃ ent, m'.disk = Function.update m.disk msg.pp.pentry (some ent)) := by
    have hstored : msg.pp.pentry ∈ unchosenIds m.disk → 1 ≤ msg.pp.pentry := by
      intro hmem
      obtain ⟨x, hx, _⟩ := hmem
      exact hI.ids _ x hx
    cases serve_logged hI.cap hI.safe hI.backed h with
    | kept _ _ hd => exact .inl hd
    | cleared ent _ _ _ hmem hd => exact .inr ⟨hstored hmem, ent, hd⟩
    | added ent _ hb _ _ hd => exact .inr ⟨Nat.one_le_of_lt (hI.last_lt hb), ent, hd⟩
    | marked ent _ _ _ hmem hd => exact .inr ⟨hstored hmem, ent, hd⟩
  intro k x hx
  rcases hcase with hd | ⟨hpos, ent, hd⟩
  · exact hI.ids k x (hd ▸ hx)
  · by_cases hk : k = msg.pp.pentry
    · exact hk ▸ hpos
    · rw [hd, Function.update_of_ne hk] at hx
      exact hI.ids k x hx

theorem liveInv_loaded {cfg : Configure} {i fuel : Nat} {d : Nat → Option Entry} {batch : Batch}
    (hc : committed < 2 ^ 64) (hb : ReadBack batch d)
    (h : loadAllFromDisk batch (.ok committed) fuel (EntryMng.new cfg i d) = some (true, m)) :
    LiveInv committed m := by
  have hf := loadAllFromDisk_fromLog hb.reads h
  refine ⟨hf.cap, chosenSafe_loaded hb.reads (fun k x hx => (hb.ids k x hx).2) h, ?_, ?_, ?_⟩
  · intro k x hx
    rw [hf.disk]
    exact backed_of_stored (hf.cached k x hx) rfl (.inl rfl)
  · intro k x hx
    rw [hf.disk] at hx
    exact (hb.ids k x hx).1
  · rw [hf.disk]
    exact live_of_tally (loadAllFromDisk_recounted hb.reads hb.ascending hb.ids hc h).tally

theorem liveInv (cfg : Configure) (i : Nat) (hc : committed < 2 ^ 64) :
    ((liveSys cfg i committed).restrict fun m msg _ => KeepsCounters m msg).Inductive
      (LiveInv committed) where
  init m h := by
    obtain ⟨d, batch, fuel, hb, hload⟩ := h
    exact liveInv_loaded hc hb hload
  step m msg m' hI hst := by
    obtain ⟨⟨hserve, hlt⟩, hkeeps⟩ := hst
    have hlive := (serve_live_iff hI hserve).mpr hkeeps
    have hids := serve_ids hI hserve
    obtain ⟨hd, hs, rfl⟩ := serve_served hI.cap hserve
    have hgood : ¬ SetFails m Saves.good msg := fun hf => by cases hf.1
    refine ⟨?_, hs.chosenSafe hI.safe hlt, hs.allBacked hI.backed (fun hf => by cases hf) hgood,
      hids, hlive⟩
    rw [hs.cap]
    exact hI.cap

/-- After a recovery and any requests that keep the counters, they are those of a fresh
recovery. -/
theorem liveCounters_of_keeps {cfg : Configure} {i : Nat} (hc : committed < 2 ^ 64)
    (h : ((liveSys cfg i committed).restrict fun m msg _ => KeepsCounters m msg).Reachable m) :
    LiveCounters cfg i committed m := by
  intro batch fuel m' hb hload
  have hlive := ((liveInv cfg i hc).reachable m h).live
  exact hlive.unique
    (live_of_tally (loadAllFromDisk_recounted hb.reads hb.ascending hb.ids hc hload).tally)

end

/-! ## A log of one entry -/

def oneLog (x : Entry) : Nat → Option Entry := Function.update (fun _ => none) x.entry (some x)

def oneBatch (x : Entry) : Batch := fun b _ =>
  if b ≤ x.entry then .ok [x] else .error ErrCode.entryNotExist

theorem oneLog_some {x y : Entry} {k : Nat} (h : oneLog x k = some y) : k = x.entry ∧ y = x := by
  unfold oneLog at h
  by_cases hk : k = x.entry
  · subst hk
    rw [Function.update_self] at h
    exact ⟨rfl, (Option.some.inj h).symm⟩
  · rw [Function.update_of_ne hk] at h
    cases h

theorem oneBatch_ok {x : Entry} {b : Nat} {l : List Entry} (h : oneBatch x b noEntry = .ok l) :
    b ≤ x.entry ∧ l = [x] := by
  unfold oneBatch at h
  split at h
  · exact ⟨‹_›, (Except.ok.inj h).symm⟩
  · cases h

theorem oneBatch_readBack {x : Entry} (h1 : 1 ≤ x.entry) (h2 : x.entry < noEntry) :
    ReadBack (oneBatch x) (oneLog x) where
  reads := by
    refine ⟨fun b l h y hy => ?_, fun b l h k hk hst => ?_, fun b c h k hk => ?_⟩
    · obtain ⟨hb, rfl⟩ := oneBatch_ok h
      obtain rfl := List.mem_singleton.mp hy
      exact ⟨hb, Function.update_self _ _ _⟩
    · obtain ⟨_, rfl⟩ := oneBatch_ok h
      obtain ⟨y, hy⟩ := Option.isSome_iff_exists.mp hst
      exact .inl ⟨x, List.mem_singleton_self x, (oneLog_some hy).1.symm⟩
    · unfold oneBatch at h
      split at h
      · cases h
      · exact Function.update_of_ne (by omega) _ _
  ascending b l h := (oneBatch_ok h).2 ▸ List.pairwise_singleton _ _
  ids k y h := (oneLog_some h).1 ▸ ⟨h1, h2⟩

theorem emptyLog_readBack : ReadBack (fun _ _ => .ok []) fun _ => none where
  reads := by
    refine ⟨fun b l h x hx => ?_, fun b l _ k _ hst => ?_, fun b c h => ?_⟩
    · obtain rfl := Except.ok.inj h
      cases hx
    · cases hst
    · cases h
  ascending b l h := Except.ok.inj h ▸ List.Pairwise.nil
  ids k x h := by cases h

/-- Entry 1 holds the promise of a PREPARE with id 5. -/
def promisedOne : Entry := ⟨0, 1, none, some (asPromised (requestOf .prepareReq 5 7 1 []).pp)⟩

/-- A promise stored for entry 1, then an ACCEPT for entry 3. -/
theorem liveCounters_of_keeps_accept :
    let cfg := Configure.init 0
    let m := (recoverEntry ((EntryMng.new cfg 0 (oneLog promisedOne)).resetCounters 0, 1)
      promisedOne).1
    loadAllFromDisk (oneBatch promisedOne) (.ok 0) 2 (EntryMng.new cfg 0 (oneLog promisedOne)) =
        some (true, m) ∧
      LiveCounters cfg 0 0
        (handleAcceptReq m Saves.good (requestOf .acceptReq 5 9 3 [2]).pp).mng := by
  intro cfg m
  have hinit : (liveSys cfg 0 0).init m :=
    ⟨_, _, 2, oneBatch_readBack (x := promisedOne) (by decide) (by decide), rfl⟩
  have hkeeps : KeepsCounters m (requestOf .acceptReq 5 9 3 [2]) :=
    ⟨fun _ => by decide, fun h => by cases h.1⟩
  have hstep : ((liveSys cfg 0 0).restrict fun m msg _ => KeepsCounters m msg).step m
      (requestOf .acceptReq 5 9 3 [2])
      (handleAcceptReq m Saves.good (requestOf .acceptReq 5 9 3 [2]).pp).mng :=
    ⟨⟨rfl, by decide⟩, hkeeps⟩
  exact ⟨rfl, liveCounters_of_keeps (by decide) (LTS.Reachable.step (.of_init hinit) hstep)⟩

/-- The first PREPARE after the recovery of an empty log: the first valid entry stays `~0`. -/
theorem not_liveCounters : ¬ ∀ (cfg : Configure) (i committed : Nat) (m : EntryMng),
    committed < 2 ^ 64 → (liveSys cfg i committed).Reachable m → LiveCounters cfg i committed m := by
  intro hall
  let cfg := Configure.init 0
  let m₀ : EntryMng := (EntryMng.new cfg 0 fun _ => none).resetCounters 0
  let msg := requestOf .prepareReq 5 7 1 []
  have hinit : (liveSys cfg 0 0).init m₀ := ⟨_, _, 1, emptyLog_readBack, rfl⟩
  have hstep : (liveSys cfg 0 0).step m₀ msg (handlePrepareReq m₀ Saves.good msg.pp).mng :=
    ⟨rfl, by decide⟩
  have hlive := hall cfg 0 0 _ (by decide) (LTS.Reachable.step (.of_init hinit) hstep)
    (oneBatch promisedOne) 2 _ (oneBatch_readBack (x := promisedOne) (by decide) (by decide)) rfl
  have hvalid : noEntry = 1 := hlive.valid
  exact absurd hvalid (by decide)

end Quarrel
