import Quarrel.L3Role.Acceptor

/-!
# What the acceptor's handlers do

One inductive per handler lists its branches: what happened to the entry of the
request (as `EntryMng.Acts`) and what was answered.

* `handlePrepareReq_done`, `handleAcceptReq_done`, `handleChosenReq_done`: the
  handler took one of the branches.
* `Entry.Admits`: when an ACCEPT is stored. `Entry.Repeats`: when it is a
  duplicate of the accepted proposal.
-/
namespace Quarrel

open EntryMng

/-- The early exit of PREPARE and ACCEPT: the entry is not above the last chosen one. -/
def Behind (m : EntryMng) (pp : Proposal) : Prop :=
  m.lastChosenEntry ≠ noEntry ∧ pp.pentry ≤ m.lastChosenEntry

instance (m : EntryMng) (pp : Proposal) : Decidable (Behind m pp) := by
  unfold Behind; exact inferInstance

/-- The request carries the accepted proposal's id and value id. -/
def Entry.Repeats (ent : Entry) (pp a : Proposal) : Prop :=
  ent.accepted = some a ∧ (a.status = .chosen ∨ a.status = .accepted) ∧ a.pid = pp.pid ∧
    a.valueId = pp.valueId

/-- The request replaces the accepted proposal, or is accepted under the promise. -/
def Entry.Admits (ent : Entry) (pp : Proposal) : Prop :=
  match ent.accepted with
  | some a => a.status = .accepted ∧ a.pid < pp.pid
  | none => ∀ pr, ent.promised = some pr → pr.pid ≤ pp.pid

theorem Entry.Admits.over {ent : Entry} {pp a : Proposal} (h : ent.Admits pp)
    (ha : ent.accepted = some a) :
    a.status = .accepted ∧ a.pid < pp.pid := by
  unfold Entry.Admits at h
  rw [ha] at h
  exact h

theorem Entry.Admits.under {ent : Entry} {pp pr : Proposal} (h : ent.Admits pp)
    (ha : ent.accepted = none) (hp : ent.promised = some pr) : pr.pid ≤ pp.pid := by
  unfold Entry.Admits at h
  rw [ha] at h
  exact h pr hp

/-- The proposal stored for an ACCEPT. -/
def asAccepted (pp : Proposal) : Proposal := cloneProposal { pp with status := .accepted }

/-- The proposal stored for a PREPARE. -/
def asPromised (pp : Proposal) : Proposal := cloneProposal { pp with status := .promised }

@[simp] theorem asAccepted_pid (pp : Proposal) : (asAccepted pp).pid = pp.pid := rfl
@[simp] theorem asAccepted_valueId (pp : Proposal) : (asAccepted pp).valueId = pp.valueId := rfl
@[simp] theorem asAccepted_status (pp : Proposal) : (asAccepted pp).status = .accepted := rfl
@[simp] theorem asAccepted_pinst (pp : Proposal) : (asAccepted pp).pinst = pp.pinst := rfl
@[simp] theorem asPromised_pid (pp : Proposal) : (asPromised pp).pid = pp.pid := rfl
@[simp] theorem asPromised_pinst (pp : Proposal) : (asPromised pp).pinst = pp.pinst := rfl
@[simp] theorem asPromised_size (pp : Proposal) : (asPromised pp).size = pp.size := rfl
@[simp] theorem asPromised_valueId (pp : Proposal) : (asPromised pp).valueId = pp.valueId := rfl

/-! ## The check both requests start with -/

theorem check_of_behind {m : EntryMng} {pp : Proposal} (h : Behind m pp) :
    checkLocalAndMayTriggerCatchup m pp = (ErrCode.remoteNeedCatchup, m, []) := by
  unfold Behind at h
  simp only [checkLocalAndMayTriggerCatchup, ge_iff_le, h, not_false_eq_true, ne_eq, and_self,
    if_true]

theorem check_of_not_behind {m : EntryMng} {pp : Proposal} (h : ¬ Behind m pp) :
    ∃ g cs, checkLocalAndMayTriggerCatchup m pp =
      (ErrCode.ok, { m with globalMaxChosenEntry := g }, cs) := by
  unfold Behind at h
  simp only [checkLocalAndMayTriggerCatchup, ge_iff_le, if_neg h]
  split
  · obtain ⟨g, hg⟩ := setGlobalMaxChosenEntry_eq m pp.lastChosen
    exact ⟨g, _, by rw [hg]⟩
  · exact ⟨m.globalMaxChosenEntry, [], rfl⟩

/-! ## PREPARE -/

/-- `ent` is the entry the handler opened. -/
inductive PrepareDone (m : EntryMng) (saves : Saves) (pp : Proposal) (h : Handled) : Prop
  | behind (hb : Behind m pp) (hm : h.mng = m)
      (hr : h.rsp = prepareRsp m ErrCode.remoteNeedCatchup 0 pp .remoteLagBehind)
  | voted (a : Proposal) (hb : ¬ Behind m pp) (ha : (m.opened pp.pentry).accepted = some a)
      (hm : Acts m h.mng pp.pentry (m.opened pp.pentry) m.disk m.lastChosenEntry)
      (hr : h.rsp = prepareRsp h.mng ErrCode.ok a.size a .accepted)
  | kept (pr : Proposal) (hb : ¬ Behind m pp) (ha : (m.opened pp.pentry).accepted = none)
      (hp : (m.opened pp.pentry).promised = some pr) (hle : pp.pid ≤ pr.pid)
      (hm : Acts m h.mng pp.pentry (m.opened pp.pentry) m.disk m.lastChosenEntry)
      (hr : h.rsp = prepareRsp h.mng ErrCode.ok pr.size pr .promised)
  | probed (hb : ¬ Behind m pp) (ha : (m.opened pp.pentry).accepted = none)
      (hp : (m.opened pp.pentry).promised = none) (h0 : pp.pid = 0)
      (hm : Acts m h.mng pp.pentry (m.opened pp.pentry) m.disk m.lastChosenEntry)
      (hr : h.rsp = prepareRsp h.mng ErrCode.ok pp.size pp .promised)
  | promised (hb : ¬ Behind m pp) (ha : (m.opened pp.pentry).accepted = none)
      (hp : ∀ pr, (m.opened pp.pentry).promised = some pr → pr.pid < pp.pid) (hpos : 0 < pp.pid)
      (hs : saves.set = true)
      (hm : Acts m h.mng pp.pentry { m.opened pp.pentry with promised := some (asPromised pp) }
        (saved m.disk true pp.pentry { m.opened pp.pentry with promised := some (asPromised pp) })
        m.lastChosenEntry)
      (hr : h.rsp = prepareRsp h.mng ErrCode.ok pp.size pp .promised)
  | failed (hb : ¬ Behind m pp) (ha : (m.opened pp.pentry).accepted = none)
      (hp : ∀ pr, (m.opened pp.pentry).promised = some pr → pr.pid < pp.pid) (hpos : 0 < pp.pid)
      (hs : saves.set = false)
      (hm : Acts m h.mng pp.pentry { m.opened pp.pentry with promised := some (asPromised pp) }
        m.disk m.lastChosenEntry)
      (hr : h.rsp = prepareRsp h.mng ErrCode.writePlogFail 0 pp .promisedFailed)

/-- A new proposal request on an opened entry whose promise is below it. -/
theorem promiseNew_done {m m₁ : EntryMng} {saves : Saves} {pp : Proposal} {cs : List PaxosMsg}
    (hb : ¬ Behind m pp) (ha : (m.opened pp.pentry).accepted = none)
    (hp : ∀ pr, (m.opened pp.pentry).promised = some pr → pr.pid < pp.pid)
    (hm : Acts m m₁ pp.pentry (m.opened pp.pentry) m.disk m.lastChosenEntry) :
    PrepareDone m saves pp
      ⟨(promiseNew m₁ saves pp).1, (promiseNew m₁ saves pp).2, cs⟩ := by
  unfold promiseNew
  by_cases hpos : pp.pid > 0
  · rw [if_pos hpos]
    dsimp only
    obtain ⟨hret, hacts⟩ := acts_setPromised (p := { pp with status := .promised }) hm saves.set
    generalize m₁.setPromised saves.set { pp with status := .promised } = r at hret hacts ⊢
    obtain ⟨ret, m₂⟩ := r
    cases hs : saves.set with
    | true =>
      rw [hs] at hret hacts
      obtain rfl : ret = ErrCode.ok := hret.mpr rfl
      exact .promised hb ha hp hpos hs hacts rfl
    | false =>
      rw [hs] at hret hacts
      have hne : ret ≠ ErrCode.ok := by simpa using hret
      simp only [hne, ne_eq, not_false_eq_true, if_true]
      exact .failed hb ha hp hpos hs hacts rfl
  · rw [if_neg hpos]
    have h0 : pp.pid = 0 := by omega
    refine .probed hb ha ?_ h0 hm rfl
    cases hpr : (m.opened pp.pentry).promised with
    | none => rfl
    | some pr => have := hp pr hpr; omega

theorem handlePrepareReq_done {m : EntryMng} (hpos : 0 < m.entries.maxSize) (saves : Saves)
    (pp : Proposal) : PrepareDone m saves pp (handlePrepareReq m saves pp) := by
  by_cases hb : Behind m pp
  · have hne : (ErrCode.remoteNeedCatchup : Int) ≠ ErrCode.ok := by decide
    have hne' : (ErrCode.remoteNeedCatchup : Int) ≠ ErrCode.needCatchup := by decide
    refine .behind hb ?_ ?_ <;>
      simp only [handlePrepareReq, check_of_behind hb, ne_eq, hne, not_false_eq_true, if_true, hne',
        if_false]
  · obtain ⟨g, cs, hc⟩ := check_of_not_behind hb
    have hm := acts_of_global (acts_open (m := { m with globalMaxChosenEntry := g }) hpos pp.pentry)
    rw [opened_of_global] at hm
    have hh : handlePrepareReq m saves pp =
        ⟨(prepareEntry (({ m with globalMaxChosenEntry := g } : EntryMng).getEntryAndCreateIfNotExist
            pp.pentry).2 saves pp (m.opened pp.pentry)).1,
          (prepareEntry (({ m with globalMaxChosenEntry := g } : EntryMng).getEntryAndCreateIfNotExist
            pp.pentry).2 saves pp (m.opened pp.pentry)).2, cs⟩ := by
      rw [← opened_of_global m g]
      simp only [handlePrepareReq, hc]
      rfl
    rw [hh]
    generalize (({ m with globalMaxChosenEntry := g } : EntryMng).getEntryAndCreateIfNotExist
      pp.pentry).2 = m₁ at hm
    cases ha : (m.opened pp.pentry).accepted with
    | some a =>
      simp only [prepareEntry, ha]
      exact .voted a hb ha hm rfl
    | none =>
      cases hp : (m.opened pp.pentry).promised with
      | none =>
        simp only [prepareEntry, ha, hp]
        exact promiseNew_done hb ha (fun pr h => by rw [hp] at h; cases h) hm
      | some pr =>
        simp only [prepareEntry, ha, hp]
        by_cases hle : pr.pid ≥ pp.pid
        · rw [if_pos hle]
          exact .kept pr hb ha hp hle hm rfl
        · rw [if_neg hle]
          refine promiseNew_done hb ha (fun pr' h => ?_) hm
          rw [hp] at h
          obtain rfl := Option.some.inj h
          omega

/-! ## ACCEPT -/

/-- `ent` is the entry the handler opened. -/
inductive AcceptDone (m : EntryMng) (saves : Saves) (pp : Proposal) (h : Handled) : Prop
  | behind (hb : Behind m pp) (hm : h.mng = m) (hr : h.rsp = acceptLagRsp m ErrCode.remoteNeedCatchup)
  | repeated (a : Proposal) (hb : ¬ Behind m pp) (ha : (m.opened pp.pentry).Repeats pp a)
      (hm : Acts m h.mng pp.pentry { m.opened pp.pentry with promised := none }
        (saved m.disk saves.clear pp.pentry { m.opened pp.pentry with promised := none })
        m.lastChosenEntry)
      (hr : h.rsp = acceptRsp h.mng ErrCode.duplicateProposalReq a true)
  | accepted (hb : ¬ Behind m pp) (ha : (m.opened pp.pentry).Admits pp) (hs : saves.set = true)
      (hm : Acts m h.mng pp.pentry
        { m.opened pp.pentry with accepted := some (asAccepted pp), promised := none }
        (saved (saved m.disk true pp.pentry
            { m.opened pp.pentry with accepted := some (asAccepted pp) }) saves.clear pp.pentry
          { m.opened pp.pentry with accepted := some (asAccepted pp), promised := none })
        m.lastChosenEntry)
      (hr : h.rsp = acceptRsp h.mng ErrCode.ok pp true)
  | failed (hb : ¬ Behind m pp) (ha : (m.opened pp.pentry).Admits pp) (hs : saves.set = false)
      (hm : Acts m h.mng pp.pentry { m.opened pp.pentry with accepted := some (asAccepted pp) } m.disk
        m.lastChosenEntry)
      (hr : h.rsp = acceptRsp h.mng ErrCode.writePlogFail pp false)
  | refused (errcode : Int) (src : Proposal) (hb : ¬ Behind m pp)
      (ha : ¬ (m.opened pp.pentry).Admits pp)
      (hd : ∀ a, ¬ (m.opened pp.pentry).Repeats pp a)
      (hsrc : src = pp ∨ (m.opened pp.pentry).accepted = some src)
      (hm : Acts m h.mng pp.pentry (m.opened pp.pentry) m.disk m.lastChosenEntry)
      (hr : h.rsp = acceptRsp h.mng errcode src false)

/-- What the branches over an opened entry do before the promise is cleared. -/
inductive AcceptChose (m m₁ : EntryMng) (saves : Saves) (pp : Proposal) (o : AcceptOutcome) : Prop
  | repeated (a : Proposal) (ha : (m.opened pp.pentry).Repeats pp a)
      (ho : o = ⟨true, ErrCode.duplicateProposalReq, a, m₁⟩)
  | accepted (m₂ : EntryMng) (ha : (m.opened pp.pentry).Admits pp) (hs : saves.set = true)
      (hm : Acts m m₂ pp.pentry { m.opened pp.pentry with accepted := some (asAccepted pp) }
        (saved m.disk true pp.pentry { m.opened pp.pentry with accepted := some (asAccepted pp) })
        m.lastChosenEntry)
      (ho : o = ⟨true, ErrCode.ok, { pp with status := .accepted }, m₂⟩)
  | failed (m₂ : EntryMng) (src : Proposal) (ha : (m.opened pp.pentry).Admits pp)
      (hs : saves.set = false)
      (hm : Acts m m₂ pp.pentry { m.opened pp.pentry with accepted := some (asAccepted pp) } m.disk
        m.lastChosenEntry)
      (hsrc : acceptRsp m₂ ErrCode.writePlogFail src false = acceptRsp m₂ ErrCode.writePlogFail pp false)
      (ho : o = ⟨false, ErrCode.writePlogFail, src, m₂⟩)
  | refused (errcode : Int) (src : Proposal) (ha : ¬ (m.opened pp.pentry).Admits pp)
      (hd : ∀ a, ¬ (m.opened pp.pentry).Repeats pp a)
      (hsrc : src = pp ∨ (m.opened pp.pentry).accepted = some src)
      (ho : o = ⟨false, errcode, src, m₁⟩)

/-- Storing the request: `o` is built from the result of the save, with `src`
echoed when it fails. -/
theorem storeAccepted {m m₁ : EntryMng} {saves : Saves} {pp : Proposal} {o : AcceptOutcome}
    (src : Proposal)
    (hm : Acts m m₁ pp.pentry (m.opened pp.pentry) m.disk m.lastChosenEntry)
    (ha : (m.opened pp.pentry).Admits pp)
    (hsrc : ∀ m₂, acceptRsp m₂ ErrCode.writePlogFail src false =
      acceptRsp m₂ ErrCode.writePlogFail pp false)
    (ho : o = match m₁.setAccepted saves.set { pp with status := .accepted } with
      | (ret, m₂) =>
        if ret = ErrCode.ok then ⟨true, ErrCode.ok, { pp with status := .accepted }, m₂⟩
        else ⟨false, ErrCode.writePlogFail, src, m₂⟩) :
    AcceptChose m m₁ saves pp o := by
  obtain ⟨hret, hacts⟩ := acts_setAccepted (p := { pp with status := .accepted }) hm saves.set
  generalize m₁.setAccepted saves.set { pp with status := .accepted } = r at hret hacts ho
  obtain ⟨ret, m₂⟩ := r
  cases hs : saves.set with
  | true =>
    rw [hs] at hret hacts
    obtain rfl : ret = ErrCode.ok := hret.mpr rfl
    exact .accepted m₂ ha hs hacts ho
  | false =>
    rw [hs] at hret hacts
    have hne : ret ≠ ErrCode.ok := by simpa using hret
    simp only [hne, if_false] at ho
    exact .failed m₂ src ha hs hacts (hsrc m₂) ho

theorem acceptEntry_chose {m m₁ : EntryMng} {saves : Saves} {pp : Proposal}
    (hm : Acts m m₁ pp.pentry (m.opened pp.pentry) m.disk m.lastChosenEntry) :
    AcceptChose m m₁ saves pp (acceptEntry m₁ saves pp (m.opened pp.pentry)) := by
  cases ha : (m.opened pp.pentry).accepted with
  | some a =>
    have hadm : (m.opened pp.pentry).Admits pp ↔ a.status = .accepted ∧ a.pid < pp.pid := by
      unfold Entry.Admits; rw [ha]
    have hrep : ∀ a', (m.opened pp.pentry).Repeats pp a' → a' = a := by
      intro a' h
      have := h.1
      rw [ha] at this
      exact (Option.some.inj this).symm
    simp only [acceptEntry, ha, acceptOver]
    by_cases hst : a.status ≠ .chosen ∧ a.status ≠ .accepted
    · rw [if_pos hst]
      refine .refused _ pp (fun h => hst.2 (hadm.mp h).1) (fun a' h => ?_) (.inl rfl) rfl
      obtain rfl := hrep a' h
      exact h.2.1.elim hst.1 hst.2
    rw [if_neg hst]
    have hst' : a.status = .chosen ∨ a.status = .accepted := by
      by_contra h
      exact hst (not_or.mp h)
    by_cases hdup : a.pid = pp.pid ∧ a.valueId = pp.valueId
    · rw [if_pos hdup]
      exact .repeated a ⟨ha, hst', hdup⟩ rfl
    rw [if_neg hdup]
    have hd : ∀ a', ¬ (m.opened pp.pentry).Repeats pp a' := by
      intro a' h
      obtain rfl := hrep a' h
      exact hdup h.2.2
    by_cases hlt : a.pid < pp.pid
    · rw [if_pos hlt]
      by_cases hc : a.status ≠ .chosen
      · rw [if_pos hc]
        exact storeAccepted (cloneProposal { pp with status := .accepted }) hm
          (hadm.mpr ⟨hst'.resolve_left hc, hlt⟩) (fun _ => rfl) rfl
      · rw [if_neg hc]
        refine .refused _ a (fun h => hc ?_) hd (.inr ha) rfl
        rw [(hadm.mp h).1]
        decide
    · rw [if_neg hlt]
      exact .refused _ a (fun h => hlt (hadm.mp h).2) hd (.inr ha) rfl
  | none =>
    have hd : ∀ a', ¬ (m.opened pp.pentry).Repeats pp a' := by
      intro a' h
      have := h.1
      rw [ha] at this
      cases this
    have hadm : (m.opened pp.pentry).Admits pp ↔
        ∀ pr, (m.opened pp.pentry).promised = some pr → pr.pid ≤ pp.pid := by
      unfold Entry.Admits; rw [ha]
    cases hp : (m.opened pp.pentry).promised with
    | none =>
      simp only [acceptEntry, ha, hp, acceptFast]
      exact storeAccepted { pp with status := .fastAcceptFailed } hm
        (hadm.mpr fun pr h => by rw [hp] at h; cases h) (fun _ => rfl) rfl
    | some pr =>
      simp only [acceptEntry, ha, hp, acceptPromised]
      by_cases hle : pr.pid ≤ pp.pid
      · rw [if_pos hle]
        refine storeAccepted { pp with status := .promised } hm (hadm.mpr fun pr' h => ?_)
          (fun _ => rfl) rfl
        rw [hp] at h
        exact Option.some.inj h ▸ hle
      · rw [if_neg hle]
        exact .refused _ pp (fun h => hle (hadm.mp h pr hp)) hd (.inl rfl) rfl

theorem acceptRsp_congr {m m' : EntryMng} {errcode : Int} {src : Proposal} {accepted : Bool}
    (h : m.lastChosenEntry = m'.lastChosenEntry) :
    acceptRsp m errcode src accepted = acceptRsp m' errcode src accepted := by
  simp only [acceptRsp, h]

theorem handleAcceptReq_done {m : EntryMng} (hpos : 0 < m.entries.maxSize) (saves : Saves)
    (pp : Proposal) : AcceptDone m saves pp (handleAcceptReq m saves pp) := by
  by_cases hb : Behind m pp
  · have hne : (ErrCode.remoteNeedCatchup : Int) ≠ ErrCode.ok := by decide
    refine .behind hb ?_ ?_ <;>
      simp only [handleAcceptReq, check_of_behind hb, ne_eq, hne, not_false_eq_true, if_true]
  · obtain ⟨g, cs, hc⟩ := check_of_not_behind hb
    have hm := acts_of_global (acts_open (m := { m with globalMaxChosenEntry := g }) hpos pp.pentry)
    rw [opened_of_global] at hm
    generalize hm₁ : (({ m with globalMaxChosenEntry := g } : EntryMng).getEntryAndCreateIfNotExist
      pp.pentry).2 = m₁ at hm
    have hh : handleAcceptReq m saves pp =
        let o := acceptEntry m₁ saves pp (m.opened pp.pentry)
        ⟨acceptRsp o.mng o.errcode o.acceptedPp o.accepted,
          if o.accepted then (o.mng.clearPromised saves.clear pp.pentry).2 else o.mng, cs⟩ := by
      rw [← opened_of_global m g, ← hm₁]
      simp only [handleAcceptReq, hc]
      rfl
    rw [hh]
    have hch : AcceptChose m m₁ saves pp (acceptEntry m₁ saves pp (m.opened pp.pentry)) :=
      acceptEntry_chose hm
    cases hch with
    | repeated a ha ho =>
      have hclr := acts_clearPromised hm saves.clear
      rw [ho]
      exact .repeated a hb ha hclr (acceptRsp_congr (hm.lastChosen.trans hclr.lastChosen.symm))
    | accepted m₂ ha hs hm₂ ho =>
      have hclr := acts_clearPromised hm₂ saves.clear
      rw [ho]
      exact .accepted hb ha hs hclr (acceptRsp_congr (hm₂.lastChosen.trans hclr.lastChosen.symm))
    | failed m₂ src ha hs hm₂ hsrc ho =>
      rw [ho]
      exact .failed hb ha hs hm₂ (hsrc)
    | refused errcode src ha hd hsrc ho =>
      rw [ho]
      exact .refused errcode src hb ha hd hsrc hm rfl

/-! ## CHOSEN -/

/-- `ent` is the entry the handler opened. -/
inductive ChosenDone (m : EntryMng) (saves : Saves) (pp : Proposal) (h : Handled) : Prop
  | mismatch
      (ha : ∀ a, (m.opened pp.pentry).accepted = some a → pp.pid ≠ a.pid ∨ pp.valueId ≠ a.valueId)
      (hm : Acts m h.mng pp.pentry (m.opened pp.pentry) m.disk m.lastChosenEntry)
      (hr : h.rsp = chosenRsp pp ErrCode.invalidProposalReq .invalidProposal)
  | already (a : Proposal) (ha : (m.opened pp.pentry).accepted = some a) (hpid : pp.pid = a.pid)
      (hvid : pp.valueId = a.valueId) (hst : a.status = .chosen)
      (hm : Acts m h.mng pp.pentry (m.opened pp.pentry) m.disk m.lastChosenEntry)
      (hr : h.rsp = chosenRsp pp ErrCode.ok .alreadyChosen)
  | chosen (a : Proposal) (ha : (m.opened pp.pentry).accepted = some a) (hpid : pp.pid = a.pid)
      (hvid : pp.valueId = a.valueId) (hst : a.status ≠ .chosen) (hs : saves.set = true)
      (hm : Acts m h.mng pp.pentry
        { m.opened pp.pentry with accepted := some { a with status := .chosen } }
        (saved m.disk true pp.pentry
          { m.opened pp.pentry with accepted := some { a with status := .chosen } })
        (chosenAfter m.lastChosenEntry pp.pentry))
      (hr : h.rsp = chosenSavedRsp h.mng pp ErrCode.ok .chosen)
  | failed (a : Proposal) (ha : (m.opened pp.pentry).accepted = some a) (hpid : pp.pid = a.pid)
      (hvid : pp.valueId = a.valueId) (hst : a.status ≠ .chosen) (hs : saves.set = false)
      (hm : Acts m h.mng pp.pentry
        { m.opened pp.pentry with accepted := some { a with status := .accepted } } m.disk
        m.lastChosenEntry)
      (hr : h.rsp = chosenSavedRsp h.mng pp ErrCode.writePlogFail .commitFailed)

theorem handleChosenReq_done {m : EntryMng} (hpos : 0 < m.entries.maxSize) (saves : Saves)
    (pp : Proposal) : ChosenDone m saves pp (handleChosenReq m saves pp) := by
  have hm := acts_open hpos pp.pentry
  generalize hm₁ : (m.getEntryAndCreateIfNotExist pp.pentry).2 = m₁ at hm
  have hopen : m.getEntryAndCreateIfNotExist pp.pentry = (m.opened pp.pentry, m₁) := by
    rw [← hm₁]; rfl
  simp only [handleChosenReq, hopen]
  cases ha : (m.opened pp.pentry).accepted with
  | none => exact .mismatch (fun a h => by rw [ha] at h; cases h) hm rfl
  | some a =>
    dsimp only
    by_cases hne : pp.pid ≠ a.pid ∨ pp.valueId ≠ a.valueId
    · rw [if_pos hne]
      exact .mismatch (fun a' h => by rw [ha] at h; exact Option.some.inj h ▸ hne) hm rfl
    rw [if_neg hne]
    rw [not_or, not_not, not_not] at hne
    by_cases hst : a.status = .chosen
    · rw [if_pos hst]
      exact .already a ha hne.1 hne.2 hst hm rfl
    rw [if_neg hst]
    have hset := acts_setEntry hm
      { m.opened pp.pentry with accepted := some { a with status := .chosen } }
    obtain ⟨hret, hacts⟩ := acts_setChosen hset rfl saves.set
    generalize (m₁.setEntry pp.pentry
      { m.opened pp.pentry with accepted := some { a with status := .chosen } }).setChosen saves.set
      pp.pentry = r at hret hacts ⊢
    obtain ⟨err, m₂⟩ := r
    cases hs : saves.set with
    | true =>
      rw [hs] at hret hacts
      obtain rfl : err = ErrCode.ok := hret.mpr rfl
      exact .chosen a ha hne.1 hne.2 hst hs hacts rfl
    | false =>
      rw [hs] at hret hacts
      have herr : err ≠ ErrCode.ok := by simpa using hret
      simp only [herr, ne_eq, not_false_eq_true, if_true]
      exact .failed a ha hne.1 hne.2 hst hs (acts_setEntry hacts _) rfl

end Quarrel
