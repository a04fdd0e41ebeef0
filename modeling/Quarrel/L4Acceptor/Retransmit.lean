import Quarrel.L4Acceptor.Chosen
import Quarrel.L4Acceptor.Promise

/-!
# Redelivered requests

A request that has been handled leaves its entry in a state in which the same
request has nothing left to do (`Entry.Settles`), or leaves by the early exit.
Either survives every later request: promises and the ids of votes only grow, a
chosen mark stays, and so does the last chosen entry.

* `EntryStep.settles`, `step_inert`, `run_inert`: a handled request stays inert.
* `Served.inert`: handling makes it so. An entry with a vote keeps no promise
  (`Solo`), or a repeated ACCEPT would clear it.
* `redelivery_harmless`: delivering it again changes no entry and no last chosen entry.
-/
namespace Quarrel

open EntryMng

/-- Requests for entries below `~0` whose saves succeed, and no entry is evicted. -/
def Calm (a : Acceptor) (op : AcceptorOp) (a' : Acceptor) : Prop :=
  (∀ i e, KeepsEntry i e a op a') ∧ ∀ msg saves, op = .request msg saves → msg.pp.pentry < noEntry

/-- A CHOSEN that was answered CHOSEN, at once or before. -/
def AnsweredChosen (cfg : Configure) (a : Acceptor) (msg : PaxosMsg) : Prop :=
  ∃ rsp, (a.doHandleMsg cfg Saves.good msg).1 = some rsp ∧
    (rsp.pp.status = .chosen ∨ rsp.pp.status = .alreadyChosen)

/-! ## Settled entries -/

/-- What the entry holds leaves the request nothing to do. -/
def Entry.Settles (x : Entry) (pp : Proposal) : PaxosMsgType → Prop
  | .prepareReq => x.accepted ≠ none ∨ pp.pid = 0 ∨ ∃ pr, x.promised = some pr ∧ pp.pid ≤ pr.pid
  | .acceptReq =>
    (∃ a, x.accepted = some a ∧ x.promised = none ∧ (a.status = .chosen ∨ pp.pid ≤ a.pid)) ∨
      (x.accepted = none ∧ ∃ pr, x.promised = some pr ∧ pp.pid < pr.pid)
  | .chosenReq => ∃ a, x.accepted = some a ∧ a.status = .chosen ∧ pp.pid = a.pid ∧ pp.valueId = a.valueId
  | _ => True

theorem Entry.Settles.congr {x : Entry} {pp pp' : Proposal} {t : PaxosMsgType} (h : x.Settles pp t)
    (hs : Same pp' pp) : x.Settles pp' t := by
  cases t <;> simp only [Entry.Settles, hs.pid, hs.valueId] at h ⊢ <;> exact h

/-- Only a larger id is still let in where an ACCEPT has nothing to do. -/
theorem Entry.Settles.lt_of_admits {x : Entry} {pp pp' : Proposal} (h : x.Settles pp .acceptReq)
    (ha : x.Admits pp') : pp.pid < pp'.pid := by
  rcases h with ⟨a, hxa, _, hc | hle⟩ | ⟨hxa, pr, hpr, hlt⟩
  · have hst := (ha.over hxa).1
    rw [hc] at hst
    cases hst
  · have := (ha.over hxa).2
    omega
  · have := ha.under hxa hpr
    omega

/-- A step for any request keeps the entry settled. -/
theorem EntryStep.settles {x x' : Entry} {pp pp' : Proposal} {t : PaxosMsgType}
    (hstep : EntryStep x pp' x') (hx : x.Settles pp t) : x'.Settles pp t := by
  cases t with
  | prepareReq =>
    cases hstep with
    | same => exact hx
    | promised ha hp =>
      rcases hx with hx | hx | ⟨pr, hpr, hle⟩
      · exact absurd ha hx
      · exact .inr (.inl hx)
      · refine .inr (.inr ⟨asPromised pp', rfl, ?_⟩)
        have := hp pr hpr
        rw [asPromised_pid]
        omega
    | cleared a ha => exact .inl (by rw [ha]; simp)
    | accepted _ => exact .inl (by simp)
    | chosen _ _ => exact .inl (by simp)
  | acceptReq =>
    cases hstep with
    | same => exact hx
    | promised ha hp =>
      rcases hx with ⟨a, hxa, _⟩ | ⟨_, pr, hpr, hlt⟩
      · rw [ha] at hxa; cases hxa
      · refine .inr ⟨ha, asPromised pp', rfl, ?_⟩
        have := hp pr hpr
        rw [asPromised_pid]
        omega
    | cleared a ha =>
      rcases hx with ⟨b, hxb, _, hb⟩ | ⟨hxa, _⟩
      · exact .inl ⟨b, hxb, rfl, hb⟩
      · rw [ha] at hxa; cases hxa
    | accepted ha =>
      refine .inl ⟨asAccepted pp', rfl, rfl, .inr ?_⟩
      rw [asAccepted_pid]
      exact Nat.le_of_lt (hx.lt_of_admits ha)
    | chosen a ha =>
      rcases hx with ⟨_, _, hn, _⟩ | ⟨hxa, _⟩
      · exact .inl ⟨_, rfl, hn, .inl rfl⟩
      · rw [ha] at hxa; cases hxa
  | chosenReq =>
    obtain ⟨a, hxa, hc, hpid, hvid⟩ := hx
    cases hstep with
    | same => exact ⟨a, hxa, hc, hpid, hvid⟩
    | promised ha => rw [ha] at hxa; cases hxa
    | cleared => exact ⟨a, hxa, hc, hpid, hvid⟩
    | accepted ha =>
      have hst := (ha.over hxa).1
      rw [hc] at hst
      cases hst
    | chosen b hb =>
      rw [hxa] at hb
      obtain rfl := Option.some.inj hb
      exact ⟨_, rfl, rfl, hpid, hvid⟩
  | invalid | prepareRsp | acceptRsp | chosenRsp | choreReq | choreCatchup | invalidReq => trivial

/-- An entry that has accepted a proposal keeps no promise. -/
def Solo (m : EntryMng) : Prop :=
  ∀ k x, m.cached k = some x ∨ m.disk k = some x → x.accepted ≠ none → x.promised = none

theorem Solo.opened {m : EntryMng} (h : Solo m) {e : Nat} (ha : (m.opened e).accepted ≠ none) :
    (m.opened e).promised = none := by
  cases hc : m.cached e with
  | some x =>
    rw [opened_of_cached hc] at ha ⊢
    exact h e x (.inl hc) ha
  | none =>
    rcases opened_of_none hc with hv | ⟨d, hd, hda, hdp⟩
    · exact hv.2
    · rw [hda] at ha
      rw [hdp]
      exact h e d (.inr hd) ha

section

variable {m : EntryMng} {pp : Proposal} {t : PaxosMsgType} {h : Handled}

theorem Served.solo (hs : Served m Saves.good pp t h) (hm : Solo m) : Solo h.mng := by
  have hopen : ∀ x, EntryStep (m.opened pp.pentry) pp x → x.accepted ≠ none → x.promised = none := by
    intro x hx ha
    cases hx with
    | same => exact hm.opened ha
    | promised hn => exact absurd hn ha
    | cleared => rfl
    | accepted => rfl
    | chosen a hsome => exact hm.opened (by rw [hsome]; simp)
  rcases hs.entryStep with he | ⟨x, hx, hst, hd⟩
  · rw [he]; exact hm
  intro k y hy ha
  by_cases hk : k = pp.pentry
  · subst hk
    rcases hy with hy | hy
    · rw [hx] at hy
      exact hopen y (Option.some.inj hy ▸ hst) ha
    · rcases hd with hd | ⟨hd, _⟩
      · rw [hd] at hy
        exact hopen y (Option.some.inj hy ▸ hst) ha
      · exact hm pp.pentry y (.inr (hd ▸ hy)) ha
  · obtain ⟨hdisk, hcached⟩ := hs.other hk
    rcases hy with hy | hy
    · exact hm k y (.inl (hcached y hy)) ha
    · exact hm k y (.inr (hdisk ▸ hy)) ha

end

/-! ## Inert requests -/

/-- The request leaves by the early exit, or its entry is settled. -/
def Inert (m : EntryMng) (pp : Proposal) (t : PaxosMsgType) : Prop :=
  (t ≠ .chosenReq ∧ Behind m pp) ∨ ∃ x, m.cached pp.pentry = some x ∧ x.Settles pp t

theorem Inert.congr {m : EntryMng} {pp pp' : Proposal} {t : PaxosMsgType} (h : Inert m pp t)
    (hs : Same pp' pp) :
    Inert m pp' t := by
  unfold Inert Behind at h ⊢
  rw [hs.pentry]
  rcases h with h | ⟨x, hx, hst⟩
  · exact .inl h
  · exact .inr ⟨x, hx, hst.congr hs⟩

section

variable {m : EntryMng} {pp : Proposal} {t : PaxosMsgType} {h : Handled}

/-- A request leaves the last chosen entry, or marks its own entry as chosen. -/
theorem Served.lastChosen {saves : Saves} (hs : Served m saves pp t h) :
    h.mng.lastChosenEntry = m.lastChosenEntry ∨
    h.mng.lastChosenEntry = chosenAfter m.lastChosenEntry pp.pentry := by
  cases hs with
  | prepare hd =>
    cases hd with
    | behind _ hm _ => exact .inl (by rw [hm])
    | voted _ _ _ hm _ | kept _ _ _ _ _ hm _ | probed _ _ _ _ hm _ | promised _ _ _ _ _ hm _
    | failed _ _ _ _ _ hm _ => exact .inl hm.lastChosen
  | accept hd =>
    cases hd with
    | behind _ hm _ => exact .inl (by rw [hm])
    | repeated _ _ _ hm _ | accepted _ _ _ hm _ | failed _ _ _ hm _ | refused _ _ _ _ _ _ hm _ =>
      exact .inl hm.lastChosen
  | chosen hd =>
    cases hd with
    | mismatch _ hm _ | already _ _ _ _ _ hm _ | failed _ _ _ _ _ _ hm _ => exact .inl hm.lastChosen
    | chosen _ _ _ _ _ _ hm _ => exact .inr hm.lastChosen

/-- No request brings an entry back above the last chosen one. -/
theorem Served.behind {saves : Saves} {qq : Proposal} (hs : Served m saves pp t h)
    (hlt : pp.pentry < noEntry) (hb : Behind m qq) : Behind h.mng qq := by
  obtain ⟨hne, hle⟩ := hb
  rcases hs.lastChosen with he | he
  · exact ⟨he ▸ hne, he ▸ hle⟩
  · obtain ⟨hne', _, hmono⟩ := chosenAfter_ge m.lastChosenEntry hlt
    have := hmono hne
    exact ⟨he ▸ hne', by rw [he]; omega⟩

/-- A request has nothing left to do once it has been handled. -/
theorem Served.inert (hs : Served m Saves.good pp t h) (hv : VotesSettled m) (hsolo : Solo m)
    (hans : t = .chosenReq → h.rsp.pp.status = .chosen ∨ h.rsp.pp.status = .alreadyChosen) :
    Inert h.mng pp t := by
  cases hs with
  | prepare hd =>
    cases hd with
    | behind hb hm _ => exact .inl ⟨by decide, hm ▸ hb⟩
    | voted a _ ha hm _ => exact .inr ⟨_, hm.cached, .inl (by rw [ha]; simp)⟩
    | kept pr _ _ hp hle hm _ => exact .inr ⟨_, hm.cached, .inr (.inr ⟨pr, hp, hle⟩)⟩
    | probed _ _ _ h0 hm _ => exact .inr ⟨_, hm.cached, .inr (.inl h0)⟩
    | promised _ _ _ _ _ hm _ =>
      exact .inr ⟨_, hm.cached, .inr (.inr ⟨asPromised pp, rfl, Nat.le_refl _⟩)⟩
    | failed _ _ _ _ hs _ _ => cases hs
  | accept hd =>
    cases hd with
    | behind hb hm _ => exact .inl ⟨by decide, hm ▸ hb⟩
    | repeated a _ ha hm _ =>
      exact .inr ⟨_, hm.cached, .inl ⟨a, ha.1, rfl, .inr (Nat.le_of_eq ha.2.2.1.symm)⟩⟩
    | accepted _ _ _ hm _ =>
      exact .inr ⟨_, hm.cached, .inl ⟨asAccepted pp, rfl, rfl, .inr (Nat.le_refl _)⟩⟩
    | failed _ _ hs _ _ => cases hs
    | refused _ _ _ hna _ _ hm _ =>
      refine .inr ⟨_, hm.cached, ?_⟩
      unfold Entry.Admits at hna
      cases ha : (m.opened pp.pentry).accepted with
      | some a =>
        rw [ha] at hna
        refine .inl ⟨a, ha, hsolo.opened (by rw [ha]; simp), ?_⟩
        rcases hv pp.pentry a (heldAccepted_opened ha) with hc | hst
        · exact .inl hc
        · have := not_and.mp hna hst
          exact .inr (by omega)
      | none =>
        rw [ha] at hna
        obtain ⟨pr, hpr⟩ := not_forall.mp hna
        obtain ⟨hpr, hlt⟩ := Classical.not_imp.mp hpr
        exact .inr ⟨ha, pr, hpr, by omega⟩
  | chosen hd =>
    cases hd with
    | mismatch _ _ hr =>
      rw [hr] at hans
      exact absurd (hans rfl) (by simp)
    | already a ha hpid hvid hst hm _ => exact .inr ⟨_, hm.cached, a, ha, hst, hpid, hvid⟩
    | chosen a _ hpid hvid _ _ hm _ => exact .inr ⟨_, hm.cached, _, rfl, rfl, hpid, hvid⟩
    | failed _ _ _ _ _ hs _ _ => cases hs

/-- An inert request leaves the last chosen entry and its own entry as they are. -/
theorem Served.of_inert (hs : Served m Saves.good pp t h) (hi : Inert m pp t) :
    h.mng.lastChosenEntry = m.lastChosenEntry ∧ h.mng.cached pp.pentry = m.cached pp.pentry := by
  have hopen : (t = .chosenReq ∨ ¬ Behind m pp) → ∃ x, m.cached pp.pentry = some x ∧
      m.opened pp.pentry = x ∧
      x.Settles pp t := by
    intro hpast
    rcases hi with ⟨ht, hb⟩ | ⟨x, hx, hst⟩
    · exact absurd hpast (not_or.mpr ⟨ht, not_not.mpr hb⟩)
    · exact ⟨x, hx, opened_of_cached hx, hst⟩
  have hsame : ∀ d lc, (t = .chosenReq ∨ ¬ Behind m pp) →
      Acts m h.mng pp.pentry (m.opened pp.pentry) d lc →
      h.mng.cached pp.pentry = m.cached pp.pentry := by
    intro d lc hpast hm
    obtain ⟨x, hx, ho, _⟩ := hopen hpast
    rw [hm.cached, ho, hx]
  cases hs with
  | prepare hd =>
    cases hd with
    | behind _ hm _ => rw [hm]; exact ⟨rfl, rfl⟩
    | voted _ hb _ hm _ => exact ⟨hm.lastChosen, hsame _ _ (.inr hb) hm⟩
    | kept _ hb _ _ _ hm _ => exact ⟨hm.lastChosen, hsame _ _ (.inr hb) hm⟩
    | probed hb _ _ _ hm _ => exact ⟨hm.lastChosen, hsame _ _ (.inr hb) hm⟩
    | promised hb ha hp hpos _ _ _ =>
      obtain ⟨x, _, ho, hst⟩ := hopen (.inr hb)
      rw [ho] at ha hp
      rcases hst with hst | h0 | ⟨pr, hpr, hle⟩
      · exact absurd ha hst
      · omega
      · have := hp pr hpr
        omega
    | failed _ _ _ _ hs _ _ => cases hs
  | accept hd =>
    cases hd with
    | behind _ hm _ => rw [hm]; exact ⟨rfl, rfl⟩
    | repeated a hb ha hm _ =>
      obtain ⟨x, hx, ho, hst⟩ := hopen (.inr hb)
      refine ⟨hm.lastChosen, ?_⟩
      rw [hm.cached, ho, hx]
      have hxa := ha.1
      rw [ho] at hxa
      rcases hst with ⟨_, _, hn, _⟩ | ⟨hn, _⟩
      · rw [← hn]
      · rw [hxa] at hn; cases hn
    | accepted hb ha _ _ _ =>
      obtain ⟨x, _, ho, hst⟩ := hopen (.inr hb)
      rw [ho] at ha
      exact absurd (hst.lt_of_admits ha) (Nat.lt_irrefl _)
    | failed _ _ hs _ _ => cases hs
    | refused _ _ hb _ _ _ hm _ => exact ⟨hm.lastChosen, hsame _ _ (.inr hb) hm⟩
  | chosen hd =>
    cases hd with
    | mismatch _ hm _ => exact ⟨hm.lastChosen, hsame _ _ (.inl rfl) hm⟩
    | already _ _ _ _ _ hm _ => exact ⟨hm.lastChosen, hsame _ _ (.inl rfl) hm⟩
    | chosen a ha _ _ hne _ _ _ =>
      obtain ⟨x, _, ho, b, hb, hc, _⟩ := hopen (.inl rfl)
      rw [ho, hb] at ha
      exact absurd (Option.some.inj ha ▸ hc) hne
    | failed _ _ _ _ _ hs _ _ => cases hs

end

/-! ## Runs -/

section

variable {cfg : Configure} {a a' : Acceptor} {op : AcceptorOp} {pp : Proposal} {t : PaxosMsgType}

theorem calm_reachable (h : ((acceptorSys cfg).restrict Calm).Reachable a) (i : Nat) :
    0 < (a.mngs i).entries.maxSize ∧ VotesSettled (a.mngs i) ∧ Solo (a.mngs i) := by
  refine acceptor_invariant (I := fun _ m => VotesSettled m ∧ Solo m)
    (fun i => ⟨votesSettled_new cfg i, ?_⟩) ?_ ?_ a h i
  · intro k x hx
    exact absurd hx new_empty
  · intro a a' msg saves h hI hok hs
    obtain ⟨msg', hop⟩ := (hok.1 0 0).1
    obtain ⟨rfl, rfl⟩ := AcceptorOp.request.inj hop
    obtain ⟨hv, hsolo⟩ := (hI (cfg.mngOf msg.pp.pinst)).2
    exact ⟨hs.votesSettled hv, hs.solo hsolo⟩
  · intro a a' j batch lastCommitted fuel m _ hok _
    obtain ⟨msg', hop⟩ := (hok.1 0 0).1
    cases hop

theorem step_inert {i : Nat} (hpos : ∀ i, 0 < (a.mngs i).entries.maxSize)
    (hs : ((acceptorSys cfg).restrict Calm).step a op a') (hi : Inert (a.mngs i) pp t) :
    Inert (a'.mngs i) pp t := by
  obtain ⟨hst, hkeep, hlt⟩ := hs
  rcases hi with ⟨ht, hb⟩ | hx
  · refine .inl ⟨ht, ?_⟩
    obtain ⟨⟨msg, rfl⟩, _⟩ := hkeep 0 0
    obtain rfl := Option.some.inj hst
    rcases doHandleMsg_cases cfg a Saves.good msg (hpos _) with ⟨he, _⟩ | ⟨h, rt, hsv, hm, _⟩
    · rw [he]; exact hb
    · rw [hm, Function.update_apply]
      split
      · rename_i he
        subst he
        exact hsv.behind (hlt msg _ rfl) hb
      · exact hb
  · exact .inr (step_keeps (fun _ _ _ hstep => hstep.settles) hpos hst (hkeep i pp.pentry) hx)

theorem run_inert {i : Nat} {ops : List AcceptorOp}
    (h : ((acceptorSys cfg).restrict Calm).Reachable a)
    (hr : ((acceptorSys cfg).restrict Calm).Run a ops a') (hi : Inert (a.mngs i) pp t) :
    Inert (a'.mngs i) pp t := by
  induction hr with
  | nil => exact hi
  | cons hs _ ih => exact ih (h.step hs) (step_inert (fun j => (calm_reachable h j).1) hs hi)

theorem first_inert {msg : PaxosMsg} (h : ((acceptorSys cfg).restrict Calm).Reachable a)
    (hreq : msg.type = .prepareReq ∨ msg.type = .acceptReq ∨
      (msg.type = .chosenReq ∧ AnsweredChosen cfg a msg)) :
    Inert ((a.doHandleMsg cfg Saves.good msg).2.mngs (cfg.mngOf msg.pp.pinst)) msg.pp msg.type := by
  obtain ⟨hpos, hv, hsolo⟩ := calm_reachable h (cfg.mngOf msg.pp.pinst)
  rcases doHandleMsg_cases cfg a Saves.good msg hpos with ⟨_, hn⟩ | ⟨hd, rt, hsv, hm, hr⟩
  · rcases hreq with ht | ht | ⟨ht, _⟩ <;> rw [ht] at hn <;> cases hn
  · rw [hm, Function.update_self]
    refine hsv.inert hv hsolo fun ht => ?_
    rcases hreq with ht' | ht' | ⟨_, rsp, hrsp, hst⟩
    · rw [ht] at ht'; cases ht'
    · rw [ht] at ht'; cases ht'
    · rw [hr] at hrsp
      obtain rfl := Option.some.inj hrsp
      exact hst

theorem deliver_inert {msg : PaxosMsg} (hpos : ∀ i, 0 < (a.mngs i).entries.maxSize)
    (hs : ((acceptorSys cfg).restrict Calm).step a (.request msg Saves.good) a')
    (hi : Inert (a.mngs (cfg.mngOf msg.pp.pinst)) msg.pp msg.type) (i : Nat) :
    (a'.mngs i).lastChosenEntry = (a.mngs i).lastChosenEntry ∧
    ∀ e, (a'.mngs i).cached e = (a.mngs i).cached e := by
  obtain ⟨hst, hkeep, _⟩ := hs
  obtain rfl := Option.some.inj hst
  rcases doHandleMsg_cases cfg a Saves.good msg (hpos _) with ⟨he, _⟩ | ⟨h, rt, hsv, hm, _⟩
  · rw [he]; exact ⟨rfl, fun _ => rfl⟩
  rw [hm, Function.update_apply]
  split
  · rename_i he
    subst he
    obtain ⟨hlast, hent⟩ := hsv.of_inert hi
    refine ⟨hlast, fun e => ?_⟩
    by_cases hk : e = msg.pp.pentry
    · subst hk; exact hent
    · have hkept := (hkeep (cfg.mngOf msg.pp.pinst) e).2
      rw [hm, Function.update_self] at hkept
      exact hsv.unevicted hk hkept
  · exact ⟨rfl, fun _ => rfl⟩

end

/-- A copy of a request that was handled, delivered again at any later moment,
leaves every entry and every last chosen entry as it is. -/
theorem redelivery_harmless {cfg : Configure} {a a₁ a₂ a₃ : Acceptor} {msg msg' : PaxosMsg}
    {ops : List AcceptorOp} (h : ((acceptorSys cfg).restrict Calm).Reachable a)
    (hfirst : ((acceptorSys cfg).restrict Calm).step a (.request msg Saves.good) a₁)
    (hreq : msg.type = .prepareReq ∨ msg.type = .acceptReq ∨
      (msg.type = .chosenReq ∧ AnsweredChosen cfg a msg))
    (hrun : ((acceptorSys cfg).restrict Calm).Run a₁ ops a₂) (ht : msg'.type = msg.type)
    (hsame : Same msg'.pp msg.pp)
    (hagain : ((acceptorSys cfg).restrict Calm).step a₂ (.request msg' Saves.good) a₃) (i : Nat) :
    (a₃.mngs i).lastChosenEntry = (a₂.mngs i).lastChosenEntry ∧
      ∀ e, (a₃.mngs i).cached e = (a₂.mngs i).cached e := by
  have hinert := first_inert h hreq
  have h₁ : a₁ = (a.doHandleMsg cfg Saves.good msg).2 := (Option.some.inj hfirst.1).symm
  rw [← h₁] at hinert
  have h₂ := run_inert (h.step hfirst) hrun hinert
  have hreach := (h.step hfirst).run hrun
  refine deliver_inert (fun j => (calm_reachable hreach j).1) hagain ?_ i
  rw [hsame.pinst, ht]
  exact h₂.congr hsame

theorem votedFirst_cached {i e : Nat} (h : (votedFirst.mngs i).cached e ≠ none) :
    i = 0 ∧ e = 1 := by
  by_cases hi : i = 0
  · subst hi
    refine ⟨rfl, ?_⟩
    by_contra he
    refine h ?_
    have hother : ((votedFirst.mngs 0).entries.order.find? fun p => p.1 = e) = none := by
      rw [List.find?_eq_none]
      intro p hp
      obtain rfl := List.mem_singleton.mp hp
      exact fun h => he (of_decide_eq_true h).symm
    show ((votedFirst.mngs 0).entries.order.find? fun p => p.1 = e).map (·.2) = none
    rw [hother]
    rfl
  · refine absurd ?_ h
    rw [show votedFirst.mngs i = EntryMng.new (Configure.init 0) i fun _ => none from
      Function.update_of_ne hi _ _]
    rfl

/-- The first ACCEPT of entry 1, delivered twice. -/
theorem redelivery_harmless_first :
    let again :=
      (votedFirst.doHandleMsg (Configure.init 0) Saves.good (requestOf .acceptReq 1 7 1 [1])).2
    (again.mngs 0).lastChosenEntry = (votedFirst.mngs 0).lastChosenEntry ∧
      ∀ e, (again.mngs 0).cached e = (votedFirst.mngs 0).cached e := by
  have hlt : ∀ msg saves,
      AcceptorOp.request (requestOf .acceptReq 1 7 1 [1]) Saves.good = .request msg saves →
      msg.pp.pentry < noEntry := by
    intro msg saves he
    obtain ⟨rfl, -⟩ := AcceptorOp.request.inj he
    decide
  have hfirst : ((acceptorSys (Configure.init 0)).restrict Calm).step
      (Acceptor.new (Configure.init 0) fun _ _ => none)
      (.request (requestOf .acceptReq 1 7 1 [1]) Saves.good) votedFirst :=
    ⟨acceptorSys_request _ _ _ _, fun i e => ⟨⟨_, rfl⟩, fun h => absurd rfl h⟩, hlt⟩
  refine redelivery_harmless (.of_init rfl) hfirst (.inr (.inl rfl)) (.nil _) rfl (Same.refl _)
    ⟨acceptorSys_request _ _ _ _, fun i e => ⟨⟨_, rfl⟩, fun h => ?_⟩, hlt⟩ 0
  obtain ⟨rfl, rfl⟩ := votedFirst_cached h
  decide

end Quarrel
