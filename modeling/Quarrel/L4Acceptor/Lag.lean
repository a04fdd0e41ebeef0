import Quarrel.L2Plog.Recount
import Quarrel.L3Role.Counters
import Quarrel.L4Acceptor.Run

/-!
# Noticing that the local log lags behind

No chosen entry is `~0` in a manager just constructed and 0 in a recovered one. The
updates of the counters ask for the sentinel first; the check that compares the
request's last chosen entry with the local one does not, and nothing is larger than
`~0`.

* `LagInv`: what the two counters can be, over any storage, requests and restarts.
* `noticesLag_iff`: a lagging acceptor notices exactly if neither side is `~0`.
* `not_noticesLag`: a fresh acceptor and a request that knows of entry 5.
-/
namespace Quarrel

open EntryMng

/-- The acceptors that start over any storages. -/
def storageSys (cfg : Configure) : LTS Acceptor AcceptorOp :=
  .ofFn (fun a => ∃ disks, a = Acceptor.new cfg disks) (Acceptor.step cfg)

/-- Entry numbers are `uint64_t`, and a restart loads stored entries. -/
def Typed (a : Acceptor) (op : AcceptorOp) (_ : Acceptor) : Prop :=
  match op with
  | .request msg _ => msg.pp.pentry ≤ noEntry ∧ msg.pp.lastChosen ≤ noEntry
  | .restart i batch _ _ => ∀ b l, batch b noEntry = .ok l → ∀ x ∈ l,
      (a.mngs i).disk x.entry = some x ∧ x.entry ≤ noEntry

/-! ## The counters -/

/-- The last chosen entry is `~0`, 0 or stored as chosen. -/
def LastStored (m : EntryMng) : Prop :=
  m.lastChosenEntry ≠ noEntry → m.lastChosenEntry = 0 ∨ m.lastChosenEntry ∈ chosenIds m.disk

theorem LastStored.acts {m m' : EntryMng} {e : Nat} {ent : Entry} {d : Nat → Option Entry}
    (h : LastStored m) (hm : Acts m m' e ent d m.lastChosenEntry)
    (hd : m.lastChosenEntry ≠ noEntry → d m.lastChosenEntry = m.disk m.lastChosenEntry) :
    LastStored m' := by
  intro hne
  rw [hm.lastChosen] at hne ⊢
  refine (h hne).imp id fun hc => ?_
  obtain ⟨x, hx, hs⟩ := hc
  exact ⟨x, by rw [hm.disk, hd hne]; exact hx, hs⟩

theorem last_ne_of_not_behind {m : EntryMng} {pp : Proposal} (hb : ¬ Behind m pp)
    (hne : m.lastChosenEntry ≠ noEntry) : m.lastChosenEntry ≠ pp.pentry := by
  intro he
  exact hb ⟨hne, he ▸ Nat.le_refl _⟩

theorem Served.lastStored {m : EntryMng} {saves : Saves} {pp : Proposal} {t : PaxosMsgType}
    {h : Handled} (hs : Served m saves pp t h) (hl : LastStored m) : LastStored h.mng := by
  have hkeep : ∀ {ent : Entry}, Acts m h.mng pp.pentry ent m.disk m.lastChosenEntry →
      LastStored h.mng := fun hm => hl.acts hm fun _ => rfl
  cases hs with
  | prepare hd =>
    cases hd with
    | behind _ hm => rw [hm]; exact hl
    | voted _ _ _ hm => exact hkeep hm
    | kept _ _ _ _ _ hm => exact hkeep hm
    | probed _ _ _ _ hm => exact hkeep hm
    | failed _ _ _ _ _ hm => exact hkeep hm
    | promised hb _ _ _ _ hm =>
      exact hl.acts hm fun hne => saved_ne (last_ne_of_not_behind hb hne)
  | accept hd =>
    cases hd with
    | behind _ hm => rw [hm]; exact hl
    | failed _ _ _ hm => exact hkeep hm
    | refused _ _ _ _ _ _ hm => exact hkeep hm
    | repeated _ hb _ hm => exact hl.acts hm fun hne => saved_ne (last_ne_of_not_behind hb hne)
    | accepted hb _ _ hm =>
      exact hl.acts hm fun hne => (saved_ne (last_ne_of_not_behind hb hne)).trans
        (saved_ne (last_ne_of_not_behind hb hne))
  | chosen hd =>
    cases hd with
    | mismatch _ hm => exact hkeep hm
    | already _ _ _ _ _ hm => exact hkeep hm
    | failed _ _ _ _ _ _ hm => exact hkeep hm
    | chosen a ha _ _ _ _ hm =>
      have hself : pp.pentry ∈ chosenIds h.mng.disk := by
        refine ⟨_, by rw [hm.disk, saved_true, Function.update_self], ?_⟩
        rfl
      intro hne
      rw [hm.lastChosen] at hne ⊢
      unfold chosenAfter at hne ⊢
      split
      · exact .inr hself
      · rename_i hle
        rw [if_neg hle] at hne
        refine (hl hne).imp id fun hc => ?_
        by_cases he : m.lastChosenEntry = pp.pentry
        · exact he ▸ hself
        · obtain ⟨x, hx, hst⟩ := hc
          exact ⟨x, by rw [hm.disk, saved_ne he]; exact hx, hst⟩

theorem lastStored_recovered {cfg : Configure} {i fuel : Nat} {d : Nat → Option Entry}
    {batch : Batch} {lastCommitted : Except Int Nat} {m : EntryMng}
    (hb : ∀ b l, batch b noEntry = .ok l → ∀ x ∈ l, d x.entry = some x ∧ x.entry ≤ noEntry)
    (h : loadAllFromDisk batch lastCommitted fuel (EntryMng.new cfg i d) = some (true, m)) :
    (m.lastChosenEntry = 0 ∨ m.lastChosenEntry ∈ chosenIds m.disk) ∧
      m.globalMaxChosenEntry ≤ noEntry ∧ m.entries.maxSize = cfg.entryCacheNum := by
  obtain ⟨committed, m₁, -, h₁, rfl⟩ := loadAllFromDisk_true h
  obtain ⟨hdisk, -, hcap⟩ := recoverLoop_kept fuel _ _ _ h₁
  replace hdisk : m₁.disk = d := hdisk
  have hlast : (m₁.lastChosenEntry = 0 ∨ m₁.lastChosenEntry ∈ chosenIds d) ∧
      m₁.lastChosenEntry ≤ noEntry := by
    refine recoverLoop_last (p := fun n => (n = 0 ∨ n ∈ chosenIds d) ∧ n ≤ noEntry)
      (fun b l hl x hx hc => ?_) fuel _ m₁ 1 ⟨.inl rfl, Nat.zero_le _⟩ h₁
    exact ⟨.inr ⟨x, (hb b l hl x hx).1, hc⟩, (hb b l hl x hx).2⟩
  refine ⟨?_, hlast.2, hcap⟩
  show m₁.lastChosenEntry = 0 ∨ m₁.lastChosenEntry ∈ chosenIds m₁.disk
  rw [hdisk]
  exact hlast.1

theorem countChosen_global {m : EntryMng} {e : Nat} (h : m.globalMaxChosenEntry ≤ noEntry)
    (he : e ≤ noEntry) : (m.countChosen e).globalMaxChosenEntry ≤ noEntry := by
  show (if m.globalMaxChosenEntry = noEntry ∨ m.globalMaxChosenEntry < e then e
    else m.globalMaxChosenEntry) ≤ noEntry
  split
  · exact he
  · exact h

/-- What the check does: nothing, unless the request knows of more. -/
theorem checked_lag {m : EntryMng} {pp : Proposal} (hb : ¬ Behind m pp) :
    (m.lastChosenEntry < pp.lastChosen ∧
        checked m pp = m.setGlobalMaxChosenEntry pp.lastChosen ∧
        checkedChores m pp = [catchupMsg pp.pinst (u64 (m.lastChosenEntry + 1))]) ∨
      (pp.lastChosen ≤ m.lastChosenEntry ∧ checked m pp = m ∧ checkedChores m pp = []) := by
  unfold Behind at hb
  unfold checked checkedChores checkLocalAndMayTriggerCatchup
  dsimp only
  rw [if_neg hb]
  by_cases hlt : pp.lastChosen > m.lastChosenEntry
  · rw [if_pos hlt]
    exact .inl ⟨hlt, rfl, rfl⟩
  · rw [if_neg hlt]
    exact .inr ⟨Nat.not_lt.mp hlt, rfl, rfl⟩

theorem checked_global {m : EntryMng} {pp : Proposal} (h : m.globalMaxChosenEntry ≤ noEntry)
    (hpp : pp.lastChosen ≤ noEntry) : (checked m pp).globalMaxChosenEntry ≤ noEntry := by
  by_cases hb : Behind m pp
  · unfold checked
    rw [check_of_behind hb]
    exact h
  · rcases checked_lag hb with ⟨_, hc, _⟩ | ⟨_, hc, _⟩
    · rw [hc]
      unfold setGlobalMaxChosenEntry
      split
      · exact h
      · exact hpp
    · rw [hc]
      exact h

/-- The counters of every manager of a reachable acceptor. -/
structure LagInv (a : Acceptor) : Prop where
  cap : ∀ i, 0 < (a.mngs i).entries.maxSize ∧ LastStored (a.mngs i)
  global : ∀ i, (a.mngs i).globalMaxChosenEntry ≤ noEntry

theorem lagInv (cfg : Configure) : ((storageSys cfg).restrict Typed).Inductive LagInv where
  init a h := by
    obtain ⟨disks, rfl⟩ := h
    exact ⟨fun i => ⟨cfg.cache_pos, fun hne => absurd rfl hne⟩, fun i => Nat.le_refl _⟩
  step a op a' h hst := by
    obtain ⟨hst, hok⟩ := hst
    refine ⟨?_, fun i => ?_⟩
    · have htyped : Typed a op a' := hok
      refine acceptor_step (I := fun _ => LastStored) ?_ ?_ h.cap hst htyped
      · intro a a' msg saves hd hI _ hs
        exact hs.lastStored (hI _).2
      · intro a a' i batch lastCommitted fuel m _ hok hm
        obtain ⟨hlast, _, hcap⟩ := lastStored_recovered hok hm
        exact ⟨by rw [hcap]; exact cfg.cache_pos, fun _ => hlast⟩
    · cases op with
      | request msg saves =>
        obtain rfl := Option.some.inj hst
        rcases doHandleMsg_handled cfg a saves msg with ⟨he, _⟩ | ⟨rt, f, hh, he⟩
        · rw [he]
          exact h.global i
        · rw [he]
          show (Function.update a.mngs _ _ i).globalMaxChosenEntry ≤ noEntry
          rw [Function.update_apply]
          split
          · rcases handler_counters (a.mngs (cfg.mngOf msg.pp.pinst)) saves msg.pp hh with
              ⟨_, hsame, _⟩ | ⟨_, _, hsame | ⟨_, hsame⟩⟩
            · rw [hsame.global]
              exact checked_global (h.global _) hok.2
            · rw [hsame.global]
              exact h.global _
            · rw [hsame.global]
              exact countChosen_global (h.global _) hok.1
          · exact h.global i
      | restart j batch lastCommitted fuel =>
        simp only [storageSys, LTS.ofFn, Acceptor.step] at hst
        split at hst
        · rename_i m hm
          obtain rfl := Option.some.inj hst
          simp only [Function.update_apply]
          split
          · exact (lastStored_recovered hok hm).2.1
          · exact h.global i
        · cases hst

/-! ## Noticing -/

/-- The last entry chosen locally, 0 if there is none. -/
def localChosen (m : EntryMng) : Nat := if m.lastChosenEntry = noEntry then 0 else m.lastChosenEntry

/-- The handled request has set the global counter to a real entry number not below its last
chosen entry, and has queued the catch-up from the first entry after the local one. -/
structure NoticesLag (cfg : Configure) (a : Acceptor) (saves : Saves) (msg : PaxosMsg) : Prop where
  real : ((a.doHandleMsg cfg saves msg).2.mngs (cfg.mngOf msg.pp.pinst)).globalMaxChosenEntry <
    noEntry
  global : msg.pp.lastChosen ≤
    ((a.doHandleMsg cfg saves msg).2.mngs (cfg.mngOf msg.pp.pinst)).globalMaxChosenEntry
  chores : (a.doHandleMsg cfg saves msg).2.chores = a.chores ++
    [catchupMsg msg.pp.pinst (localChosen (a.mngs (cfg.mngOf msg.pp.pinst)) + 1)]

/-- The acceptor is not ahead of a PREPARE or an ACCEPT that knows of a later chosen
entry than the local log. -/
structure LagsBehind (m : EntryMng) (msg : PaxosMsg) : Prop where
  type : msg.type = .prepareReq ∨ msg.type = .acceptReq
  admitted : ¬ Behind m msg.pp
  width : msg.pp.lastChosen ≤ noEntry
  pos : 0 < msg.pp.lastChosen
  above : ∀ k ∈ chosenIds m.disk, k < msg.pp.lastChosen

/-- A PREPARE or an ACCEPT leaves the counters and the messages of the check. -/
theorem doHandleMsg_checked (cfg : Configure) (a : Acceptor) (saves : Saves) {msg : PaxosMsg}
    (ht : msg.type = .prepareReq ∨ msg.type = .acceptReq) :
    ∃ h : Handled, (a.doHandleMsg cfg saves msg).2 =
      { mngs := Function.update a.mngs (cfg.mngOf msg.pp.pinst) h.mng
        chores := a.chores ++ h.chores } ∧
      SameCounters (checked (a.mngs (cfg.mngOf msg.pp.pinst)) msg.pp) h.mng ∧
      h.chores = checkedChores (a.mngs (cfg.mngOf msg.pp.pinst)) msg.pp := by
  rcases doHandleMsg_handled cfg a saves msg with ⟨_, hnone⟩ | ⟨rt, f, hh, he⟩
  · rcases ht with ht | ht <;> (rw [ht] at hnone; cases hnone)
  · rcases handler_counters (a.mngs (cfg.mngOf msg.pp.pinst)) saves msg.pp hh with
      ⟨_, hsame, hcs⟩ | ⟨ht', _⟩
    · exact ⟨_, he, hsame, hcs⟩
    · rcases ht with ht | ht <;> (rw [ht] at ht'; cases ht')

theorem noticesLag_iff_checked {cfg : Configure} {a : Acceptor} {saves : Saves} {msg : PaxosMsg}
    (ht : msg.type = .prepareReq ∨ msg.type = .acceptReq) :
    NoticesLag cfg a saves msg ↔
      (checked (a.mngs (cfg.mngOf msg.pp.pinst)) msg.pp).globalMaxChosenEntry < noEntry ∧
      msg.pp.lastChosen ≤
        (checked (a.mngs (cfg.mngOf msg.pp.pinst)) msg.pp).globalMaxChosenEntry ∧
      checkedChores (a.mngs (cfg.mngOf msg.pp.pinst)) msg.pp =
        [catchupMsg msg.pp.pinst (localChosen (a.mngs (cfg.mngOf msg.pp.pinst)) + 1)] := by
  obtain ⟨h, he, hsame, hcs⟩ := doHandleMsg_checked cfg a saves ht
  constructor
  · intro ⟨h1, h2, h3⟩
    rw [he] at h1 h2 h3
    simp only [Function.update_self, hsame.global, hcs] at h1 h2 h3
    exact ⟨h1, h2, List.append_cancel_left h3⟩
  · intro ⟨h1, h2, h3⟩
    refine ⟨?_, ?_, ?_⟩
    · rw [he]
      simpa only [Function.update_self, hsame.global] using h1
    · rw [he]
      simpa only [Function.update_self, hsame.global] using h2
    · rw [he]
      simp only [hcs, h3]

/-- The check of a manager whose last chosen entry is `~0`, 0 or stored. -/
theorem checked_notices_iff {m : EntryMng} {msg : PaxosMsg} (hstored : LastStored m)
    (hglob : m.globalMaxChosenEntry ≤ noEntry) (hl : LagsBehind m msg) :
    ((checked m msg.pp).globalMaxChosenEntry < noEntry ∧
        msg.pp.lastChosen ≤ (checked m msg.pp).globalMaxChosenEntry ∧
        checkedChores m msg.pp = [catchupMsg msg.pp.pinst (localChosen m + 1)]) ↔
      m.lastChosenEntry ≠ noEntry ∧ msg.pp.lastChosen ≠ noEntry := by
  have hwidth := hl.width
  have hpos := hl.pos
  constructor
  · intro ⟨h1, h2, h3⟩
    refine ⟨fun hne => ?_, fun hne => ?_⟩
    · rcases checked_lag hl.admitted with ⟨hlt, _⟩ | ⟨_, _, hnil⟩
      · omega
      · rw [hnil] at h3
        cases h3
    · omega
  · intro ⟨h1, h2⟩
    have hlt : m.lastChosenEntry < msg.pp.lastChosen := by
      rcases hstored h1 with hz | hc
      · omega
      · exact hl.above _ hc
    rcases checked_lag hl.admitted with ⟨_, hc, hcs'⟩ | ⟨hle, _⟩
    · have hu : u64 (m.lastChosenEntry + 1) = localChosen m + 1 := by
        unfold localChosen u64
        rw [if_neg h1]
        unfold noEntry at hwidth
        omega
      rw [hcs', hc, hu]
      unfold setGlobalMaxChosenEntry
      split
      · rename_i hg
        exact ⟨by omega, hg.2, rfl⟩
      · exact ⟨by show msg.pp.lastChosen < noEntry; omega, Nat.le_refl _, rfl⟩
    · omega

/-- A lagging acceptor notices exactly if neither side knows no chosen entry. -/
theorem noticesLag_iff {cfg : Configure} {a : Acceptor} {saves : Saves} {msg : PaxosMsg}
    (h : ((storageSys cfg).restrict Typed).Reachable a)
    (hl : LagsBehind (a.mngs (cfg.mngOf msg.pp.pinst)) msg) :
    NoticesLag cfg a saves msg ↔
      (a.mngs (cfg.mngOf msg.pp.pinst)).lastChosenEntry ≠ noEntry ∧ msg.pp.lastChosen ≠ noEntry := by
  have hinv := (lagInv cfg).reachable a h
  have hstored := (hinv.cap (cfg.mngOf msg.pp.pinst)).2
  have hglob := hinv.global (cfg.mngOf msg.pp.pinst)
  exact (noticesLag_iff_checked hl.type).trans (checked_notices_iff hstored hglob hl)

/-- A request that knows of entry 5, for entry 6. -/
def knowsFive : PaxosMsg :=
  let m := requestOf .prepareReq 5 7 6 []
  { m with pp := { m.pp with lastChosen := 5 } }

theorem lagsBehind_knowsFive (cfg : Configure) (i : Nat) :
    LagsBehind (EntryMng.new cfg i fun _ => none) knowsFive where
  type := .inl rfl
  admitted hb := hb.1 rfl
  width := by decide
  pos := by decide
  above k hk := absurd hk (by simp [chosenIds, EntryMng.new])

theorem noticesLag_iff_fresh :
    let cfg := Configure.init 0
    let a := Acceptor.new cfg fun _ _ => none
    NoticesLag cfg a Saves.good knowsFive ↔
      (a.mngs (cfg.mngOf knowsFive.pp.pinst)).lastChosenEntry ≠ noEntry ∧
        knowsFive.pp.lastChosen ≠ noEntry :=
  noticesLag_iff (.of_init ⟨_, rfl⟩) (lagsBehind_knowsFive _ _)

theorem not_noticesLag : ¬ ∀ (cfg : Configure) (a : Acceptor) (saves : Saves) (msg : PaxosMsg),
    ((storageSys cfg).restrict Typed).Reachable a →
    LagsBehind (a.mngs (cfg.mngOf msg.pp.pinst)) msg → NoticesLag cfg a saves msg := by
  intro hall
  have h := hall (Configure.init 0) (Acceptor.new (Configure.init 0) fun _ _ => none) Saves.good
    knowsFive (.of_init ⟨_, rfl⟩) (lagsBehind_knowsFive _ _)
  have hnil : ((Acceptor.new (Configure.init 0) fun _ _ => none).doHandleMsg (Configure.init 0)
      Saves.good knowsFive).2.chores = [] := rfl
  have := h.chores
  rw [hnil] at this
  cases this

end Quarrel
