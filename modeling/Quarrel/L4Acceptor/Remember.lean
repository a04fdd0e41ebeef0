import Quarrel.L4Acceptor.Run

/-!
# What a reopened entry remembers

`GetEntry` looks an entry that is not in the cache up in the storage whatever
its number; `CreateEntry`, which every handler goes through, does so only above
`max_in_used_entry_`. An entry that was saved, evicted and then opened again
comes back empty.

* `carries_iff_remembers`: in a run in which every opened entry is cached, above
  `max_in_used_entry_` or never saved (`Remembers`), an entry carries what was
  last saved of it exactly when it is one of these.
* `not_carriesAlways`: with a cache of one entry, entry 1 after entry 2.
-/
namespace Quarrel

open EntryMng

/-- The entry carries the stored proposals, and none if nothing was stored. -/
def Carries (ent : Entry) : Option Entry → Prop
  | none => ent.Vacant
  | some y => ent.accepted = y.accepted ∧ ent.promised = y.promised

instance (ent : Entry) : (d : Option Entry) → Decidable (Carries ent d)
  | none => inferInstanceAs (Decidable (ent.accepted = none ∧ ent.promised = none))
  | some y => inferInstanceAs (Decidable (ent.accepted = y.accepted ∧ ent.promised = y.promised))

/-- Opening the entry finds it in the cache or in the storage, or it was never saved. -/
def Remembers (m : EntryMng) (e : Nat) : Prop := m.cached e ≠ none ∨ m.Reads e ∨ m.disk e = none

/-- The request gets past the early exit, and its entry is opened. -/
def Opens (m : EntryMng) (msg : PaxosMsg) : Prop :=
  msg.type = .chosenReq ∨ ((msg.type = .prepareReq ∨ msg.type = .acceptReq) ∧ ¬ Behind m msg.pp)

/-- Every save succeeds and a restart reads the whole log. -/
def SavesGood (a : Acceptor) (op : AcceptorOp) (_ : Acceptor) : Prop :=
  match op with
  | .request _ saves => saves = Saves.good
  | .restart i batch _ _ => ReadsLog batch (a.mngs i).disk

/-- Every save succeeds and the entry a request opens is remembered. -/
def OpensRemembered (cfg : Configure) (a : Acceptor) (op : AcceptorOp) (a' : Acceptor) : Prop :=
  SavesGood a op a' ∧ ∀ msg saves, op = .request msg saves →
    Opens (a.mngs (cfg.mngOf msg.pp.pinst)) msg →
    Remembers (a.mngs (cfg.mngOf msg.pp.pinst)) msg.pp.pentry

/-- The cache agrees with the storage, which holds no empty entry. -/
structure InSync (m : EntryMng) : Prop where
  cached : ∀ k x, m.cached k = some x → Carries x (m.disk k)
  filled : ∀ k y, m.disk k = some y → ¬ y.Vacant

theorem carries_self (x : Entry) : Carries x (some x) := ⟨rfl, rfl⟩

theorem InSync.opened {m : EntryMng} (h : InSync m) {e : Nat} (hr : Remembers m e) :
    Carries (m.opened e) (m.disk e) := by
  cases hc : m.cached e with
  | some x => rw [opened_of_cached hc]; exact h.cached e x hc
  | none =>
    rcases hr with hr | hr | hr
    · exact absurd hc hr
    · rw [opened_of_reads hc hr]
      unfold loadEntry
      cases hd : m.disk e with
      | none => exact ⟨rfl, rfl⟩
      | some d => exact ⟨rfl, rfl⟩
    · rw [hr]
      rcases opened_of_none hc with hv | ⟨d, hd, _⟩
      · exact hv
      · rw [hr] at hd; cases hd

/-- An entry that is not remembered comes back empty, and was saved. -/
theorem InSync.not_opened {m : EntryMng} (h : InSync m) {e : Nat} (hr : ¬ Remembers m e) :
    ¬ Carries (m.opened e) (m.disk e) := by
  unfold Remembers at hr
  rw [not_or, not_or, not_not] at hr
  obtain ⟨hc, hreads, hd⟩ := hr
  rw [opened_of_not_reads hc hreads]
  cases hy : m.disk e with
  | none => exact absurd hy hd
  | some y =>
    intro hnone
    obtain ⟨ha, hp⟩ := hnone
    exact h.filled e y hy ⟨ha.symm, hp.symm⟩

theorem InSync.acts {m m' : EntryMng} {e : Nat} {ent : Entry} {d : Nat → Option Entry} {lc : Nat}
    (h : InSync m) (hm : Acts m m' e ent d lc) (hd : ∀ k, k ≠ e → d k = m.disk k)
    (hent : Carries ent (d e)) (hfill : ∀ y, d e = some y → ¬ y.Vacant) : InSync m' := by
  constructor
  · intro k x hx
    rw [hm.disk]
    by_cases hk : k = e
    · subst hk
      rw [hm.cached] at hx
      exact Option.some.inj hx ▸ hent
    · rw [hd k hk]
      exact h.cached k x (hm.other k x hk hx)
  · intro k y hy
    rw [hm.disk] at hy
    by_cases hk : k = e
    · subst hk; exact hfill y hy
    · rw [hd k hk] at hy; exact h.filled k y hy

theorem InSync.open {m m' : EntryMng} {e lc : Nat} (h : InSync m) (hr : Remembers m e)
    (hm : Acts m m' e (m.opened e) m.disk lc) : InSync m' :=
  h.acts hm (fun _ _ => rfl) (h.opened hr) (h.filled e)

theorem InSync.save {m m' : EntryMng} {e lc : Nat} {ent : Entry} {d : Nat → Option Entry}
    (h : InSync m) (hm : Acts m m' e ent (saved d true e ent) lc) (hd : ∀ k, k ≠ e → d k = m.disk k)
    (hv : ¬ ent.Vacant) : InSync m' := by
  refine h.acts hm (fun k hk => (saved_ne hk).trans (hd k hk)) ?_ ?_
  · rw [saved_true, Function.update_self]; exact carries_self ent
  · intro y hy
    rw [saved_true, Function.update_self] at hy
    exact Option.some.inj hy ▸ hv

theorem Served.inSync {m : EntryMng} {msg : PaxosMsg} {h : Handled}
    (hs : Served m Saves.good msg.pp msg.type h) (hi : InSync m)
    (hr : Opens m msg → Remembers m msg.pp.pentry) : InSync h.mng := by
  generalize ht : msg.type = t at hs
  cases hs with
  | prepare hd =>
    have ho : ¬ Behind m msg.pp → Remembers m msg.pp.pentry := fun hb => hr (.inr ⟨.inl ht, hb⟩)
    cases hd with
    | behind _ hm _ => rw [hm]; exact hi
    | voted _ hb _ hm _ => exact hi.open (ho hb) hm
    | kept _ hb _ _ _ hm _ => exact hi.open (ho hb) hm
    | probed hb _ _ _ hm _ => exact hi.open (ho hb) hm
    | promised _ _ _ _ _ hm _ => exact hi.save hm (fun _ _ => rfl) fun hv => nomatch hv.2
    | failed _ _ _ _ hs _ _ => cases hs
  | accept hd =>
    have ho : ¬ Behind m msg.pp → Remembers m msg.pp.pentry := fun hb => hr (.inr ⟨.inr ht, hb⟩)
    cases hd with
    | behind _ hm _ => rw [hm]; exact hi
    | repeated a _ ha hm _ =>
      exact hi.save hm (fun _ _ => rfl) fun hv => by rw [Entry.Vacant, ha.1] at hv; cases hv.1
    | accepted _ _ _ hm _ => exact hi.save hm (fun _ hk => saved_ne hk) fun hv => nomatch hv.1
    | failed _ _ hs _ _ => cases hs
    | refused _ _ hb _ _ _ hm _ => exact hi.open (ho hb) hm
  | chosen hd =>
    have ho : Remembers m msg.pp.pentry := hr (.inl ht)
    cases hd with
    | mismatch _ hm _ => exact hi.open ho hm
    | already _ _ _ _ _ hm _ => exact hi.open ho hm
    | chosen _ _ _ _ _ _ hm _ => exact hi.save hm (fun _ _ => rfl) fun hv => nomatch hv.1
    | failed _ _ _ _ _ hs _ _ => cases hs

theorem inSync_reachable {cfg : Configure} {a : Acceptor}
    (h : ((acceptorSys cfg).restrict (OpensRemembered cfg)).Reachable a) (i : Nat) :
    InSync (a.mngs i) := by
  refine (acceptor_invariant (I := fun _ => InSync) (fun i => ?_) ?_ ?_ a h i).2
  · exact ⟨fun k x hx => absurd hx (by simp [EntryMng.cached, EntryMng.new]), fun k y hy => by cases hy⟩
  · intro a a' msg saves h hI hok hs
    obtain ⟨hgood, hrem⟩ := hok
    obtain rfl : saves = Saves.good := hgood
    exact hs.inSync (hI _).2 (hrem msg _ rfl)
  · intro a a' j batch lastCommitted fuel m hI hok hm
    obtain ⟨hlog, _⟩ := hok
    have hf := loadAllFromDisk_fromLog hlog hm
    refine ⟨hf.cap, fun k x hx => ?_, fun k y hy => (hI j).2.filled k y (hf.disk ▸ hy)⟩
    rw [hf.disk, hf.cached k x hx]
    exact carries_self x

/-- In every state of a run whose opened entries are remembered,
`GetEntryAndCreateIfNotExist` returns what was last saved of the entry if and
only if the entry is remembered. -/
theorem carries_iff_remembers {cfg : Configure} {a : Acceptor}
    (h : ((acceptorSys cfg).restrict (OpensRemembered cfg)).Reachable a) (i e : Nat) :
    Carries ((a.mngs i).opened e) ((a.mngs i).disk e) ↔ Remembers (a.mngs i) e := by
  have hi := inSync_reachable h i
  constructor
  · intro hc
    by_contra hr
    exact hi.not_opened hr hc
  · exact hi.opened

theorem carries_iff_remembers_first :
    Carries ((votedFirst.mngs 0).opened 1) ((votedFirst.mngs 0).disk 1) ↔
      Remembers (votedFirst.mngs 0) 1 := by
  have hr : Remembers ((Acceptor.new (Configure.init 0) fun _ _ => none).mngs 0) 1 :=
    .inr (.inl (.inl rfl))
  have h : ((acceptorSys (Configure.init 0)).restrict (OpensRemembered (Configure.init 0))).Reachable
      votedFirst := by
    refine votedFirst_reachable ⟨rfl, fun msg saves he _ => ?_⟩
    cases he
    exact hr
  exact carries_iff_remembers h 0 1

/-- A cache of one entry. -/
def tinyCfg : Configure := { Configure.init 0 with entryCacheNum := 1, cache_pos := by decide }

/-- Entry 1 has been accepted and saved. -/
def savedFirst : Acceptor :=
  ((Acceptor.new tinyCfg fun _ _ => none).doHandleMsg tinyCfg Saves.good (requestOf .acceptReq 1 7 1 [1])).2

/-- Entry 2 has evicted it. -/
def evictedFirst : Acceptor :=
  (savedFirst.doHandleMsg tinyCfg Saves.good (requestOf .acceptReq 1 8 2 [2])).2

/-- Entry 1, now below `max_in_used_entry_`, comes back empty. -/
theorem not_carriesAlways :
    ¬ ∀ (cfg : Configure) (a : Acceptor), ((acceptorSys cfg).restrict SavesGood).Reachable a →
      ∀ i e, Carries ((a.mngs i).opened e) ((a.mngs i).disk e) := by
  intro hall
  have h₁ : ((acceptorSys tinyCfg).restrict SavesGood).Reachable savedFirst :=
    LTS.Reachable.step (.of_init rfl) (l := .request (requestOf .acceptReq 1 7 1 [1]) Saves.good) ⟨rfl, rfl⟩
  have h₂ : ((acceptorSys tinyCfg).restrict SavesGood).Reachable evictedFirst :=
    h₁.step (l := .request (requestOf .acceptReq 1 8 2 [2]) Saves.good) ⟨rfl, rfl⟩
  have hno : ¬ Carries ((evictedFirst.mngs 0).opened 1) ((evictedFirst.mngs 0).disk 1) := by
    decide +kernel
  exact hno (hall tinyCfg evictedFirst h₂ 0 1)

end Quarrel
