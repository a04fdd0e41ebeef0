import Quarrel.L5Synod.Agreement
import Quarrel.L5Synod.Fields

/-!
# A log without holes

A call is for the entry after the last chosen one its proposer knows of. The proposer
learns of entries by its own majorities and by being told; where it is told of entries
that have been broadcast as chosen only (`Told`), it never calls past one that has not.

* `Contiguous`: what an instance knows as its last chosen entry has been broadcast as
  chosen, and its proposals are for entries right after such ones.
* `contiguous_inductive`: every step keeps it.
* `no_holes`: the entries below a chosen one have been chosen before.
-/
namespace Quarrel

open InstanceState EntryMng

variable {cfg : Configure}

namespace Synod

/-- A CHOSEN has been broadcast for entry `e` of instance `i`. -/
def Chosen (s : Synod cfg) (i e : Nat) : Prop :=
  ∃ c ∈ s.bcasts, c.inst = i ∧ c.msg.type = .chosenReq ∧ c.msg.pp.pentry = e

/-- Entry `e` is the first one, or the one after a chosen entry. -/
def Next (s : Synod cfg) (i e : Nat) : Prop := ∃ d, e = d + 1 ∧ (d = 0 ∨ s.Chosen i d)

structure Contiguous (s : Synod cfg) (k : Fin cfg.totalProposer) (i : Nat) : Prop where
  last : (s.props k i).lastChosenEntry = 0 ∨ s.Chosen i (s.props k i).lastChosenEntry
  waiting : ∀ q, (s.props k i).req = some q → s.Next i q.pp.pentry
  sent : ∀ c ∈ s.bcasts, c.Of k i → s.Next i c.msg.pp.pentry

section

variable {s s' : Synod cfg} {k : Fin cfg.totalProposer} {i e : Nat} {l : SynodOp cfg}
  {new : List (Bcast cfg)}

theorem Chosen.later (h : s.Chosen i e) (hg : Grows s s' new) : s'.Chosen i e := by
  obtain ⟨c, hc, hrest⟩ := h
  exact ⟨c, hg.mem hc, hrest⟩

theorem Next.later (h : s.Next i e) (hg : Grows s s' new) : s'.Next i e := by
  obtain ⟨d, he, hd⟩ := h
  exact ⟨d, he, hd.imp id fun hd => hd.later hg⟩

theorem Contiguous.next (h : s.Contiguous k i) : s.Next i ((s.props k i).lastChosenEntry + 1) :=
  ⟨_, rfl, h.last⟩

theorem reply_last {rid : Nat} (hs : s.step (.reply rid) = some s') (k : Fin cfg.totalProposer)
    (i : Nat) : (s'.props k i).lastChosenEntry = (s.props k i).lastChosenEntry ∨
      s'.Chosen i (s'.props k i).lastChosenEntry := by
  simp only [Synod.step] at hs
  split at hs
  · cases hs
  rename_i x hx
  split at hs
  · cases hs
  rename_i c hc
  obtain ⟨⟨p', outs⟩, hr, rfl⟩ := Option.map_eq_some_iff.mp hs
  by_cases hk : k = c.src
  · subst hk
    have hp : (s.send c.src p' x.msg.pp.pinst (broadcasts outs)).props c.src = p' :=
      Function.update_self ..
    rcases Proposer.handleRpcResponse_last hr i with hsame | ⟨a, ha, hbody, hlast, hsent⟩
    · left
      rw [hp, hsame]
    · right
      obtain rfl : x.msg = a := Option.some.inj ha
      refine ⟨⟨c.src, x.msg.pp.pinst, (p' x.msg.pp.pinst).term, asChosenReq (cfg.on c.src) x.msg⟩,
        ?_, hbody, rfl, ?_⟩
      · exact List.mem_append_right _ (List.mem_map.mpr ⟨_, hsent, rfl⟩)
      · show x.msg.pp.pentry = _
        rw [hp, hlast]
  · left
    show (Function.update s.props c.src p' k i).lastChosenEntry = _
    rw [Function.update_of_ne hk]

/-- The last chosen entry moves to one that has been broadcast as chosen. -/
theorem Sane.step_last (h : s.Sane) (hs : s.step l = some s') (htold : s.Told l)
    (k : Fin cfg.totalProposer) (i : Nat) :
    (s'.props k i).lastChosenEntry = (s.props k i).lastChosenEntry ∨
      s'.Chosen i (s'.props k i).lastChosenEntry := by
  obtain ⟨new, hg⟩ := step_grows hs
  cases h.step_ids hs k i with
  | keeps _ hk => exact .inl hk.entry
  | call opaqueData val pinst promise oom hl hi hst =>
    left
    rw [hst]
    exact (proposeAsync_chosen ..).entry
  | told msg fromPlog hl hi hst =>
    obtain ⟨c, hc, ht, rfl⟩ := htold k msg fromPlog hl
    have hok := h.bcast hc
    have hinst : c.inst = i := by
      rw [hi, hok.pinst]
      exact (Nat.mod_eq_of_lt hok.inst_lt).symm
    unfold InstanceState.onEntryChosen at hst
    split at hst
    · exact .inl (congrArg _ hst)
    rcases updateChosenInfo_cases (s.props k i) c.msg.pp.pentry c.msg.pp.proposer
        with ⟨_, hu⟩ | ⟨_, _, _, hu⟩
    · exact .inl (congrArg _ (hst.trans hu))
    · right
      rw [hst, hu]
      exact ⟨c, hg.mem hc, hinst, ht, rfl⟩
  | chosen rid q x hl =>
    subst hl
    exact reply_last hs k i

/-- The request outstanding and the broadcasts of an instance are for the entries its
proposals have been for, or for the one after the last chosen entry. -/
theorem Sane.step_entries (h : s.Sane) (hst : InstStep s s' l k i) {P : Nat → Prop}
    (hwaiting : ∀ q, (s.props k i).req = some q → P q.pp.pentry)
    (hsent : ∀ c ∈ s.bcasts, c.Of k i → P c.msg.pp.pentry)
    (hnext : P ((s.props k i).lastChosenEntry + 1)) :
    (∀ q, (s'.props k i).req = some q → P q.pp.pentry) ∧
      ∀ c ∈ s'.bcasts, c.Of k i → P c.msg.pp.pentry := by
  have hkept : ∀ {n : Nat}, Kept n (s.props k i) (s'.props k i) →
      ∀ q, (s'.props k i).req = some q → P q.pp.pentry := by
    intro n hk q' hq'
    obtain ⟨q, hq, hsame⟩ := hk.req q' hq'
    rw [hsame.pentry]
    exact hwaiting q hq
  have hnone : ∀ {new : List (Bcast cfg)}, Grows s s' new → (∀ c ∈ new, ¬ c.Of k i) →
      ∀ c ∈ s'.bcasts, c.Of k i → P c.msg.pp.pentry := by
    intro new hg hnew c hc ho
    rw [hg.bcasts] at hc
    exact hsent c ((List.mem_append.mp hc).resolve_right fun hc => hnew c hc ho) ho
  have hone : ∀ {m : PaxosMsg}, Grows s s' ([m].map fun m => ⟨k, i, (s'.props k i).term, m⟩) →
      P m.pp.pentry → ∀ c ∈ s'.bcasts, c.Of k i → P c.msg.pp.pentry := by
    intro m hg hm c hc ho
    rcases hg.mem_push hc with hc | rfl
    · exact hsent c hc ho
    · exact hm
  cases hst with
  | same new hg hst hnew => exact ⟨hkept (n := 0) (by rw [hst]; exact Kept.refl 0 _), hnone hg hnew⟩
  | moved ev sent hg hc hm =>
    cases hm with
    | kept hk => exact ⟨hkept hk, hnone hg fun _ hc => by cases hc⟩
    | counted _ _ _ _ _ _ hk => exact ⟨hkept hk, hnone hg fun _ hc => by cases hc⟩
    | accepting q a m hev hq hph hv hown hmaj hpos hm hw hk =>
      have hpm : P m.pp.pentry := by
        rw [hm]
        exact hwaiting q hq
      refine ⟨fun q' hq' => ?_, hone hg hpm⟩
      obtain rfl := Option.some.inj (hw.req.symm.trans hq')
      exact hpm
    | chosen q a hev hq hph hv hmaj hk hreq hlast =>
      obtain ⟨x, rfl, hr⟩ := hc.answer a hev
      obtain ⟨c, hx, _, hcur⟩ := h.answered hr.awaited hq (.inr ⟨hph, hv⟩)
      have hentry : x.msg.pp.pentry = q.pp.pentry :=
        ((hx.vote hv.type hv.errcode hv.status).1.trans hcur.same.symm).pentry
      refine ⟨hkept hk, hone hg ?_⟩
      show P x.msg.pp.pentry
      rw [hentry]
      exact hwaiting q hq
    | prepare m opaqueData val promise hev hi hidle hm hs =>
      have hpm : P m.pp.pentry := by
        rw [hm]
        exact hnext
      refine ⟨fun q' hq' => ?_, hone hg hpm⟩
      rw [hs] at hq'
      obtain rfl := Option.some.inj hq'
      exact hpm
    | fast m opaqueData val promise hev hi hidle hm hval hskip hs =>
      have hpm : P m.pp.pentry := by
        rw [hm]
        exact hnext
      refine ⟨fun q' hq' => ?_, hone hg hpm⟩
      rw [hs] at hq'
      obtain rfl := Option.some.inj hq'
      exact hpm

theorem Contiguous.step (h : s.Contiguous k i) (hsane : s.Sane) (hs : s.step l = some s')
    (htold : s.Told l) : s'.Contiguous k i := by
  obtain ⟨new, hg⟩ := step_grows hs
  obtain ⟨hwaiting, hsent⟩ := hsane.step_entries (hsane.instStep hs k i)
    (fun q hq => (h.waiting q hq).later hg) (fun c hc ho => (h.sent c hc ho).later hg)
    (h.next.later hg)
  refine ⟨?_, hwaiting, hsent⟩
  rcases hsane.step_last hs htold k i with hsame | hc
  · rw [hsame]
    exact h.last.imp id fun hc => hc.later hg
  · exact .inr hc

end

theorem contiguous_inductive {ok : Synod cfg → SynodOp cfg → Synod cfg → Prop}
    (hlog : ∀ s l s', ok s l s' → ReadsLogs s l s') (htold : ∀ s l s', ok s l s' → s.Told l) :
    ((sys cfg).restrict ok).Inductive fun s => s.Sane ∧ ∀ k i, s.Contiguous k i := by
  refine (sane_inductive hlog).rel ?_ ?_
  · intro s hinit k i
    obtain ⟨sec, rfl⟩ := hinit
    refine ⟨.inl rfl, fun q hq => ?_, fun c hc => ?_⟩
    · cases hq
    · cases hc
  · intro s l s' hsane _ h hstep k i
    exact (h k i).step hsane hstep.1 (htold s l s' hstep.2)

/-- The entry of a broadcast, whatever its type, is the first or follows a chosen one. -/
theorem next_of_bcast {s : Synod cfg} (h : ∀ k i, s.Contiguous k i) {c : Bcast cfg}
    (hc : c ∈ s.bcasts) : s.Next c.inst c.msg.pp.pentry :=
  (h c.src c.inst).sent c hc ⟨rfl, rfl⟩

theorem chosen_below {s : Synod cfg} (h : ∀ k i, s.Contiguous k i) {i : Nat} :
    ∀ {e : Nat}, s.Chosen i e → ∀ d, 0 < d → d ≤ e → s.Chosen i d := by
  intro e
  induction e with
  | zero => exact fun _ d hpos hle => absurd hpos (by omega)
  | succ e ih =>
    intro hch d hpos hle
    by_cases heq : d = e + 1
    · rw [heq]
      exact hch
    · obtain ⟨c, hc, rfl, _, he⟩ := hch
      obtain ⟨d', hd', hprev⟩ := next_of_bcast h hc
      obtain rfl : d' = e := by omega
      exact ih (hprev.resolve_left (by omega)) d hpos (by omega)

/-- Where proposers are told of entries broadcast as chosen only, each entry a proposer
proposes for, and each it knows as the last chosen one, has every entry below it chosen. -/
theorem no_holes {s : Synod cfg}
    (h : ((sys cfg).restrict fun s l s' => ReadsLogs s l s' ∧ s.Told l).Reachable s) :
    (∀ c ∈ s.bcasts, ∀ e, 0 < e → e < c.msg.pp.pentry → s.Chosen c.inst e) ∧
      ∀ k i e, 0 < e → e ≤ (s.props k i).lastChosenEntry → s.Chosen i e := by
  obtain ⟨_, hcont⟩ := (contiguous_inductive (fun _ _ _ h => h.1) fun _ _ _ h => h.2).reachable s h
  refine ⟨fun c hc e hpos hlt => ?_, fun k i e hpos hle => ?_⟩
  · obtain ⟨d, hd, hprev⟩ := next_of_bcast hcont hc
    exact chosen_below hcont (hprev.resolve_left (by omega)) e hpos (by omega)
  · exact chosen_below hcont ((hcont k i).last.resolve_left (by omega)) e hpos hle

/-- Proposer 0 was told of entry 1, and has called for entry 2. -/
theorem no_holes_two : (sentByThen 3).msg.pp.pentry = 2 ∧ afterEntryTwo.Chosen 0 1 := by
  have hrun : ∀ {s s' : Synod (Configure.init 0)} {ops : List (SynodOp (Configure.init 0))},
      LTS.exec (fun s l => (s.step l).filter fun s' => s.keepsAll l s' && s.told l) s ops = some s' →
      ((sys _).restrict fun s l s' => ReadsLogs s l s' ∧ s.Told l).Run s ops s' := by
    intro s s' ops h
    refine LTS.run_of_guarded (fun s l s' hs hk => ?_) h
    obtain ⟨h1, h2⟩ := Bool.and_eq_true_iff.mp hk
    exact ⟨readsLogs_of_keepsEntryOf (keepsEntryOf_of_keepsAll hs h1 0 0), told_of_told h2⟩
  have hone := hrun (show _ = some afterEntryOne from (Option.some_get _).symm)
  have htwo := hrun (show _ = some afterEntryTwo from (Option.some_get _).symm)
  have hentry : (sentByThen 3).msg.pp.pentry = 2 := by decide +kernel
  have hbelow := (no_holes ⟨_, _, ⟨_, rfl⟩, hone.append htwo⟩).1 (sentByThen 3) (List.get_mem _ _) 1
    Nat.one_pos (by rw [hentry]; decide)
  rw [show (sentByThen 3).inst = 0 by decide +kernel] at hbelow
  exact ⟨hentry, hbelow⟩

end Synod
end Quarrel
