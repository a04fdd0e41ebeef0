import Quarrel.L4Acceptor.Run

/-!
# Chosen is final

A chosen entry is protected by one number: PREPARE and ACCEPT leave by the early
exit for every entry up to `last_chosen_entry_`, so an entry stored as chosen is
safe as long as the counter is at least its id, through failed saves, evictions
(the entry may come back empty, see `Remember`) and recoveries. A CHOSEN for it
finds either nothing or the chosen proposal itself.

* `ChosenSafe`: the invariant, with `Served.chosenSafe` for one request.
* `Served.disk_chosen`: a request leaves a stored chosen entry alone.
* `chosen_final`: whatever follows the answer CHOSEN, the stored entry stays.
-/
namespace Quarrel

open EntryMng

/-- The entry is stored with a chosen proposal. -/
def StoredChosen (m : EntryMng) (k : Nat) (c : Proposal) : Prop :=
  ∃ x, m.disk k = some x ∧ x.accepted = some c ∧ c.status = .chosen

/-- The invariant behind finality. -/
structure ChosenSafe (m : EntryMng) : Prop where
  keyed : ∀ k x, m.cached k = some x ∨ m.disk k = some x → x.entry = k
  bounded : ∀ k x, m.disk k = some x → k < noEntry
  floor : ∀ k c, HeldAccepted m k c → c.status = .chosen →
    m.lastChosenEntry ≠ noEntry ∧ k ≤ m.lastChosenEntry
  agree : ∀ k c x, StoredChosen m k c → m.cached k = some x → x.accepted = none ∨
    x.accepted = some c

/-- Requests are for entries below `~0`, and a restart reads the whole log. -/
def EntriesBelow (a : Acceptor) (op : AcceptorOp) (_ : Acceptor) : Prop :=
  match op with
  | .request msg _ => msg.pp.pentry < noEntry
  | .restart i batch _ _ => ReadsLog batch (a.mngs i).disk

theorem ChosenSafe.behind {m : EntryMng} (h : ChosenSafe m) {pp c : Proposal}
    (hc : HeldAccepted m pp.pentry c) (hs : c.status = .chosen) : Behind m pp :=
  h.floor _ c hc hs

theorem StoredChosen.held {m : EntryMng} {k : Nat} {c : Proposal} (h : StoredChosen m k c) :
    HeldAccepted m k c := by
  obtain ⟨x, hx, hc, _⟩ := h
  exact ⟨x, .inr hx, hc⟩

theorem StoredChosen.congr {m m' : EntryMng} {k : Nat} {c : Proposal} (h : StoredChosen m k c)
    (he : m'.disk k = m.disk k) : StoredChosen m' k c := by
  obtain ⟨x, hx, hc⟩ := h
  exact ⟨x, he.trans hx, hc⟩

theorem opened_entry {m : EntryMng} (h : ChosenSafe m) (e : Nat) : (m.opened e).entry = e := by
  cases hc : m.cached e with
  | some x => rw [opened_of_cached hc]; exact h.keyed e x (.inl hc)
  | none =>
    by_cases hr : m.Reads e
    · rw [opened_of_reads hc hr]
      unfold loadEntry
      cases m.disk e <;> rfl
    · rw [opened_of_not_reads hc hr]; rfl

/-- An entry stored as chosen is opened empty or as the chosen proposal. -/
theorem ChosenSafe.opened {m : EntryMng} (h : ChosenSafe m) {e : Nat} {c : Proposal}
    (hs : StoredChosen m e c) : (m.opened e).accepted = none ∨ (m.opened e).accepted = some c := by
  cases hc : m.cached e with
  | some x => rw [opened_of_cached hc]; exact h.agree e c x hs hc
  | none =>
    rcases opened_of_none hc with hv | ⟨d, hd, ha, _⟩
    · exact .inl hv.1
    · obtain ⟨x, hx, hxc, _⟩ := hs
      rw [hd] at hx
      rw [ha, Option.some.inj hx]
      exact .inr hxc

theorem chosenAfter_ge (lc : Nat) {e : Nat} (he : e < noEntry) :
    chosenAfter lc e ≠ noEntry ∧ e ≤ chosenAfter lc e ∧ (lc ≠ noEntry → lc ≤ chosenAfter lc e) := by
  unfold chosenAfter
  split <;> omega

/-- A request past the early exit that leaves a proposal that is not chosen, or
none, in memory and in the storage. -/
theorem ChosenSafe.acts {m m' : EntryMng} {pp : Proposal} {ent : Entry} {d : Nat → Option Entry}
    (h : ChosenSafe m) (hlt : pp.pentry < noEntry) (hb : ¬ Behind m pp)
    (hm : Acts m m' pp.pentry ent d m.lastChosenEntry) (hkey : ent.entry = pp.pentry)
    (hent : ∀ c, ent.accepted = some c → c.status ≠ .chosen)
    (hd : ∀ k x, d k = some x → m.disk k = some x ∨
      (k = pp.pentry ∧ x.entry = k ∧ ∀ c, x.accepted = some c →
        c.status ≠ .chosen)) : ChosenSafe m' := by
  have hheld : ∀ k c, HeldAccepted m' k c → c.status = .chosen → HeldAccepted m k c := by
    intro k c hheld hs
    obtain ⟨x, hx, hxc⟩ := hheld
    rcases hm.held hx with ⟨rfl, rfl⟩ | hx | hx
    · exact absurd hs (hent c hxc)
    · exact ⟨x, .inl hx, hxc⟩
    · rcases hd k x hx with hx | ⟨_, _, hn⟩
      · exact ⟨x, .inr hx, hxc⟩
      · exact absurd hs (hn c hxc)
  constructor
  · intro k x hx
    rcases hm.held hx with ⟨rfl, rfl⟩ | hx | hx
    · exact hkey
    · exact h.keyed k x (.inl hx)
    · rcases hd k x hx with hx | ⟨_, hk, _⟩
      · exact h.keyed k x (.inr hx)
      · exact hk
  · intro k x hx
    rw [hm.disk] at hx
    rcases hd k x hx with hx | ⟨rfl, _, _⟩
    · exact h.bounded k x hx
    · exact hlt
  · intro k c hc hs
    rw [hm.lastChosen]
    exact h.floor k c (hheld k c hc hs) hs
  · intro k c x hchosen hx
    obtain ⟨y, hy, hyc, hs⟩ := hchosen
    rw [hm.disk] at hy
    rcases hd k y hy with hy | ⟨_, _, hn⟩
    · by_cases hk : k = pp.pentry
      · subst hk
        exact absurd (h.behind ⟨y, .inr hy, hyc⟩ hs) hb
      · exact h.agree k c x ⟨y, hy, hyc, hs⟩ (hm.other k x hk hx)
    · exact absurd hs (hn c hyc)

theorem ChosenSafe.open {m m' : EntryMng} {e : Nat} (h : ChosenSafe m)
    (hm : Acts m m' e (m.opened e) m.disk m.lastChosenEntry) : ChosenSafe m' := by
  constructor
  · intro k x hx
    rcases hm.held hx with ⟨rfl, rfl⟩ | hx
    · exact opened_entry h k
    · exact h.keyed k x hx
  · intro k x hx
    rw [hm.disk] at hx
    exact h.bounded k x hx
  · intro k c hheld hs
    obtain ⟨x, hx, hxc⟩ := hheld
    rw [hm.lastChosen]
    rcases hm.held hx with ⟨rfl, rfl⟩ | hx
    · exact h.floor k c (heldAccepted_opened hxc) hs
    · exact h.floor k c ⟨x, hx, hxc⟩ hs
  · intro k c x hchosen hx
    obtain ⟨y, hy, hyc, hs⟩ := hchosen
    rw [hm.disk] at hy
    by_cases hk : k = e
    · subst hk
      rw [hm.cached] at hx
      exact Option.some.inj hx ▸ h.opened ⟨y, hy, hyc, hs⟩
    · exact h.agree k c x ⟨y, hy, hyc, hs⟩ (hm.other k x hk hx)

theorem ChosenSafe.chosen {m m' : EntryMng} {e : Nat} {a : Proposal} (h : ChosenSafe m)
    (hlt : e < noEntry)
    (hm : Acts m m' e { m.opened e with accepted := some { a with status := .chosen } }
      (saved m.disk true e { m.opened e with accepted := some { a with status := .chosen } })
      (chosenAfter m.lastChosenEntry e)) : ChosenSafe m' := by
  obtain ⟨hne, hge, hmono⟩ := chosenAfter_ge m.lastChosenEntry hlt
  constructor
  · intro k x hx
    rcases hm.held_saved hx with ⟨rfl, rfl⟩ | hx
    · exact opened_entry h k
    · exact h.keyed k x hx
  · intro k x hx
    rw [hm.disk] at hx
    rcases saved_held hx with ⟨rfl, _⟩ | hx
    · exact hlt
    · exact h.bounded k x hx
  · intro k c hheld hs
    obtain ⟨x, hx, hxc⟩ := hheld
    rw [hm.lastChosen]
    rcases hm.held_saved hx with ⟨rfl, rfl⟩ | hx
    · exact ⟨hne, hge⟩
    · obtain ⟨h1, h2⟩ := h.floor k c ⟨x, hx, hxc⟩ hs
      exact ⟨hne, Nat.le_trans h2 (hmono h1)⟩
  · intro k c x hchosen hx
    obtain ⟨y, hy, hyc, hs⟩ := hchosen
    rw [hm.disk] at hy
    by_cases hk : k = e
    · subst hk
      rw [saved_true, Function.update_self] at hy
      obtain rfl := Option.some.inj hy
      rw [hm.cached] at hx
      exact .inr (Option.some.inj hx ▸ hyc)
    · rw [saved_ne hk] at hy
      exact h.agree k c x ⟨y, hy, hyc, hs⟩ (hm.other k x hk hx)

theorem ChosenSafe.chosenFailed {m m' : EntryMng} {e : Nat} {a : Proposal} (h : ChosenSafe m)
    (ha : (m.opened e).accepted = some a) (hst : a.status ≠ .chosen)
    (hm : Acts m m' e { m.opened e with accepted := some { a with status := .accepted } } m.disk
      m.lastChosenEntry) : ChosenSafe m' := by
  constructor
  · intro k x hx
    rcases hm.held hx with ⟨rfl, rfl⟩ | hx
    · exact opened_entry h k
    · exact h.keyed k x hx
  · intro k x hx
    rw [hm.disk] at hx
    exact h.bounded k x hx
  · intro k c hheld hs
    obtain ⟨x, hx, hxc⟩ := hheld
    rw [hm.lastChosen]
    rcases hm.held hx with ⟨rfl, rfl⟩ | hx
    · obtain rfl := Option.some.inj hxc
      cases hs
    · exact h.floor k c ⟨x, hx, hxc⟩ hs
  · intro k c x hchosen hx
    obtain ⟨y, hy, hyc, hs⟩ := hchosen
    rw [hm.disk] at hy
    by_cases hk : k = e
    · subst hk
      rcases h.opened ⟨y, hy, hyc, hs⟩ with ho | ho
      · rw [ha] at ho; cases ho
      · rw [ha] at ho
        exact absurd (Option.some.inj ho ▸ hs) hst
    · exact h.agree k c x ⟨y, hy, hyc, hs⟩ (hm.other k x hk hx)

theorem ChosenSafe.opened_not_chosen {m : EntryMng} (h : ChosenSafe m) {pp : Proposal}
    (hb : ¬ Behind m pp) : ∀ c, (m.opened pp.pentry).accepted = some c → c.status ≠ .chosen :=
  fun _ hc hs => hb (h.behind (heldAccepted_opened hc) hs)

theorem Served.chosenSafe {m : EntryMng} {saves : Saves} {pp : Proposal} {t : PaxosMsgType}
    {h : Handled} (hs : Served m saves pp t h) (hi : ChosenSafe m) (hlt : pp.pentry < noEntry) :
    ChosenSafe h.mng := by
  have hkey := opened_entry hi pp.pentry
  cases hs with
  | prepare hd =>
    cases hd with
    | behind _ hm _ => rw [hm]; exact hi
    | voted _ _ _ hm _ => exact hi.open hm
    | kept _ _ _ _ _ hm _ => exact hi.open hm
    | probed _ _ _ _ hm _ => exact hi.open hm
    | promised hb ha _ _ _ hm _ =>
      refine hi.acts hlt hb hm hkey (hi.opened_not_chosen hb) fun k x hx => ?_
      rcases saved_held hx with ⟨rfl, rfl⟩ | hx
      · exact .inr ⟨rfl, hkey, hi.opened_not_chosen hb⟩
      · exact .inl hx
    | failed hb _ _ _ _ hm _ =>
      exact hi.acts hlt hb hm hkey (hi.opened_not_chosen hb) fun k x hx => .inl hx
  | accept hd =>
    have hnew : ∀ c, some (asAccepted pp) = some c → c.status ≠ .chosen := by
      intro c hc hs
      obtain rfl := Option.some.inj hc
      cases hs
    cases hd with
    | behind _ hm _ => rw [hm]; exact hi
    | repeated _ hb _ hm _ =>
      refine hi.acts hlt hb hm hkey (hi.opened_not_chosen hb) fun k x hx => ?_
      rcases saved_held hx with ⟨rfl, rfl⟩ | hx
      · exact .inr ⟨rfl, hkey, hi.opened_not_chosen hb⟩
      · exact .inl hx
    | accepted hb _ _ hm _ =>
      refine hi.acts hlt hb hm hkey hnew fun k x hx => ?_
      rcases saved_held hx with ⟨rfl, rfl⟩ | hx
      · exact .inr ⟨rfl, hkey, hnew⟩
      · rcases saved_held hx with ⟨rfl, rfl⟩ | hx
        · exact .inr ⟨rfl, hkey, hnew⟩
        · exact .inl hx
    | failed hb _ _ hm _ => exact hi.acts hlt hb hm hkey hnew fun k x hx => .inl hx
    | refused _ _ _ _ _ _ hm _ => exact hi.open hm
  | chosen hd =>
    cases hd with
    | mismatch _ hm _ => exact hi.open hm
    | already _ _ _ _ _ hm _ => exact hi.open hm
    | chosen _ _ _ _ _ _ hm _ => exact hi.chosen hlt hm
    | failed _ ha _ _ hst _ hm _ => exact hi.chosenFailed ha hst hm

/-- A request leaves an entry stored as chosen as it is. -/
theorem Served.disk_chosen {m : EntryMng} {saves : Saves} {pp c : Proposal} {t : PaxosMsgType}
    {h : Handled} (hs : Served m saves pp t h) (hi : ChosenSafe m) {k : Nat}
    (hc : StoredChosen m k c) :
    h.mng.disk k = m.disk k := by
  by_cases hk : k = pp.pentry
  · subst hk
    have hb : Behind m pp := hi.behind hc.held hc.choose_spec.2.2
    cases hs with
    | prepare hd =>
      cases hd with
      | behind _ hm _ => rw [hm]
      | voted _ hnb | kept _ hnb | probed hnb | promised hnb | failed hnb => exact absurd hb hnb
    | accept hd =>
      cases hd with
      | behind _ hm _ => rw [hm]
      | repeated _ hnb | accepted hnb | failed hnb | refused _ _ hnb => exact absurd hb hnb
    | chosen hd =>
      cases hd with
      | mismatch _ hm _ => rw [hm.disk]
      | already _ _ _ _ _ hm _ => rw [hm.disk]
      | failed _ _ _ _ _ _ hm _ => rw [hm.disk]
      | chosen a ha _ _ hst _ _ _ =>
        rcases hi.opened hc with ho | ho
        · rw [ha] at ho; cases ho
        · rw [ha] at ho
          exact absurd (Option.some.inj ho ▸ hc.choose_spec.2.2) hst
  · exact (hs.other hk).1

theorem chosenSafe_new (cfg : Configure) (i : Nat) :
    ChosenSafe (EntryMng.new cfg i fun _ => none) := by
  refine ⟨?_, ?_, ?_, ?_⟩
  · intro k x hx
    exact absurd hx new_empty
  · intro k x hx
    cases hx
  · intro k c hc
    obtain ⟨x, hx, _⟩ := hc
    exact absurd hx new_empty
  · intro k c x hchosen
    obtain ⟨y, hy, _⟩ := hchosen
    cases hy

/-- A manager that has read a whole log. -/
theorem chosenSafe_loaded {cfg : Configure} {i : Nat} {d : Nat → Option Entry} {m : EntryMng}
    {batch : Batch} {lastCommitted : Except Int Nat} {fuel : Nat} (hlog : ReadsLog batch d)
    (hlt : ∀ k x, d k = some x → k < noEntry)
    (hm : loadAllFromDisk batch lastCommitted fuel (EntryMng.new cfg i d) = some (true, m)) :
    ChosenSafe m := by
  have hf := loadAllFromDisk_fromLog hlog hm
  have hc := loadAllFromDisk_counted hlog hlog.keyed hlt hm
  have hdisk : ∀ k x, m.cached k = some x ∨ m.disk k = some x → d k = some x := by
    intro k x hx
    rcases hx with hx | hx
    · exact hf.cached k x hx
    · rw [hf.disk] at hx; exact hx
  refine ⟨fun k x hx => hlog.keyed k x (hdisk k x hx),
    fun k x hx => hlt k x (hdisk k x (.inr hx)),
    ?_, ?_⟩
  · intro k c hheld hs
    obtain ⟨x, hx, hxc⟩ := hheld
    refine ⟨Nat.ne_of_lt hc.chosen_lt, ?_⟩
    by_cases h0 : k = 0
    · omega
    · have hst : x.status = .chosen := by unfold Entry.status; rw [hxc]; exact hs
      exact hc.chosen k x (by omega) (hdisk k x hx) hst
  · intro k c x hchosen hx
    obtain ⟨y, hy, hyc, _⟩ := hchosen
    rw [hf.disk, hf.cached k x hx] at hy
    exact .inr (Option.some.inj hy ▸ hyc)

theorem chosenSafe_reachable {cfg : Configure} {a : Acceptor}
    (h : ((acceptorSys cfg).restrict EntriesBelow).Reachable a) (i : Nat) :
    0 < (a.mngs i).entries.maxSize ∧ ChosenSafe (a.mngs i) := by
  refine acceptor_invariant (I := fun _ => ChosenSafe) (chosenSafe_new cfg) ?_ ?_ a h i
  · intro a a' msg saves h hI hlt hs
    exact hs.chosenSafe (hI _).2 hlt
  · intro a a' j batch lastCommitted fuel m hI hlog hm
    exact ⟨(loadAllFromDisk_fromLog hlog hm).cap, chosenSafe_loaded hlog (hI j).2.bounded hm⟩

theorem step_disk_chosen {cfg : Configure} {a a' : Acceptor} {op : AcceptorOp} {c : Proposal}
    {i k : Nat} (hI : ∀ i, 0 < (a.mngs i).entries.maxSize ∧ ChosenSafe (a.mngs i))
    (hs : ((acceptorSys cfg).restrict EntriesBelow).step a op a')
    (hc : StoredChosen (a.mngs i) k c) :
    (a'.mngs i).disk k = (a.mngs i).disk k := by
  obtain ⟨hst, hok⟩ := hs
  cases op with
  | request msg saves =>
    obtain rfl := Option.some.inj hst
    rcases doHandleMsg_cases cfg a saves msg (hI _).1 with ⟨he, _⟩ | ⟨h, rt, hsv, hm, _⟩
    · rw [he]
    · rw [hm, Function.update_apply]
      split
      · rename_i he
        subst he
        exact hsv.disk_chosen (hI _).2 hc
      · rfl
  | restart j batch lastCommitted fuel =>
    simp only [acceptorSys, LTS.ofFn, Acceptor.step] at hst
    split at hst
    · rename_i m hm
      obtain rfl := Option.some.inj hst
      simp only [Function.update_apply]
      split
      · rename_i he
        subst he
        rw [(loadAllFromDisk_fromLog hok hm).disk]
      · rfl
    · cases hst

theorem run_disk_chosen {cfg : Configure} {a a' : Acceptor} {ops : List AcceptorOp} {c : Proposal}
    {i k : Nat} (h : ((acceptorSys cfg).restrict EntriesBelow).Reachable a)
    (hr : ((acceptorSys cfg).restrict EntriesBelow).Run a ops a')
    (hc : StoredChosen (a.mngs i) k c) :
    (a'.mngs i).disk k = (a.mngs i).disk k := by
  induction hr with
  | nil => rfl
  | cons hs _ ih =>
    have h1 := step_disk_chosen (chosenSafe_reachable h) hs hc
    exact (ih (h.step hs) (hc.congr h1)).trans h1

/-- The answer CHOSEN with errcode OK stores the proposal as chosen. -/
theorem Served.storedChosen {m : EntryMng} {saves : Saves} {pp : Proposal} {h : Handled}
    (hs : Served m saves pp .chosenReq h) (hst : h.rsp.pp.status = .chosen)
    (hok : h.rsp.errcode = ErrCode.ok) :
    ∃ c, StoredChosen h.mng pp.pentry c ∧ c.pid = pp.pid ∧ c.valueId = pp.valueId := by
  cases hs with
  | chosen hd =>
    cases hd with
    | mismatch _ _ hr => rw [hr] at hst; simp at hst
    | already _ _ _ _ _ _ hr => rw [hr] at hst; simp at hst
    | failed _ _ _ _ _ _ _ hr => rw [hr] at hok; simp at hok
    | chosen a _ hpid hvid _ _ hm _ =>
      refine ⟨{ a with status := .chosen },
        ⟨{ m.opened pp.pentry with accepted := some { a with status := .chosen } }, ?_, rfl, rfl⟩,
        hpid.symm, hvid.symm⟩
      rw [hm.disk]
      exact Function.update_self _ _ _

/-- Once a CHOSEN has been answered CHOSEN with errcode OK, the stored entry is
the same after every later request, save, eviction and restart. -/
theorem chosen_final {cfg : Configure} {a a' : Acceptor} {ops : List AcceptorOp}
    {msg rsp : PaxosMsg} {saves : Saves} (h : ((acceptorSys cfg).restrict EntriesBelow).Reachable a)
    (ht : msg.type = .chosenReq) (hlt : msg.pp.pentry < noEntry)
    (hrsp : (a.doHandleMsg cfg saves msg).1 = some rsp) (hst : rsp.pp.status = .chosen)
    (hok : rsp.errcode = ErrCode.ok)
    (hrun : ((acceptorSys cfg).restrict EntriesBelow).Run (a.doHandleMsg cfg saves msg).2 ops a') :
    ∃ x c, ((a.doHandleMsg cfg saves msg).2.mngs (cfg.mngOf msg.pp.pinst)).disk msg.pp.pentry = some x ∧
      x.accepted = some c ∧ c.pid = msg.pp.pid ∧ c.valueId = msg.pp.valueId ∧ c.status = .chosen ∧
      (a'.mngs (cfg.mngOf msg.pp.pinst)).disk msg.pp.pentry = some x := by
  have hpos := (chosenSafe_reachable h (cfg.mngOf msg.pp.pinst)).1
  rcases doHandleMsg_cases cfg a saves msg hpos with ⟨_, hn⟩ | ⟨hd, rt, hs, hm, hr⟩
  · rw [ht] at hn; cases hn
  · rw [hr] at hrsp
    obtain rfl := Option.some.inj hrsp
    rw [ht] at hs
    obtain ⟨c, hc, hpid, hvid⟩ := hs.storedChosen hst hok
    have hc' : StoredChosen ((a.doHandleMsg cfg saves msg).2.mngs (cfg.mngOf msg.pp.pinst))
        msg.pp.pentry c := by
      rw [hm, Function.update_self]; exact hc
    have hreach := h.step ⟨acceptorSys_request cfg a msg saves, hlt⟩
    have hfin := run_disk_chosen hreach hrun hc'
    obtain ⟨x, hx, hxc, hcs⟩ := hc'
    exact ⟨x, c, hx, hxc, hpid, hvid, hcs, hfin.trans hx⟩

/-- CHOSEN for entry 1, then an ACCEPT with a larger id. -/
theorem chosen_final_after_accept :
    let cfg := Configure.init 0
    let done := (votedFirst.doHandleMsg cfg Saves.good (requestOf .chosenReq 1 7 1 [])).2
    let later := (done.doHandleMsg cfg Saves.good (requestOf .acceptReq 5 9 1 [2])).2
    ∃ x c, (done.mngs 0).disk 1 = some x ∧ x.accepted = some c ∧ c.pid = 1 ∧ c.valueId = 7 ∧
      c.status = .chosen ∧ (later.mngs 0).disk 1 = some x := by
  have hlt : (requestOf .acceptReq 1 7 1 [1]).pp.pentry < noEntry := by decide
  have hlt' : (requestOf .acceptReq 5 9 1 [2]).pp.pentry < noEntry := by decide
  have hlt'' : (requestOf .chosenReq 1 7 1 []).pp.pentry < noEntry := by decide
  exact chosen_final (votedFirst_reachable hlt) rfl hlt'' rfl rfl rfl
    (.single ⟨acceptorSys_request _ _ (requestOf .acceptReq 5 9 1 [2]) Saves.good, hlt'⟩)

end Quarrel
