import Quarrel.L2Plog.EntryRaw
import Quarrel.L4Acceptor.Run

/-!
# The ballots of one entry

A failed save leaves the entry in memory as a successful one does, so an entry can hold a
vote and a promise at once. The promise is then not above the vote: it was what let the
vote in, and later votes have larger ids.

* `BallotStep`: what a request makes of its entry, whatever its saves.
* `Entry.Later`: the vote moves to larger ids only, the promise too, and a promise that is
  cleared is not set again.
* `Entry.LosesNothing`: what the promise keeps out is kept out without it.
* `ballots_kept`: over any run that does not evict the entry.
-/
namespace Quarrel

open EntryMng

/-! ## One entry -/

namespace Entry

/-- The same proposal, up to its status. -/
def SameVote (p q : Proposal) : Prop := q = { p with status := q.status }

/-- `y` is in the history of an entry after `x`. -/
structure Later (x y : Entry) : Prop where
  vote : ∀ p, x.accepted = some p → ∃ q, y.accepted = some q ∧ (SameVote p q ∨ p.pid < q.pid)
  promise : ∀ p q, x.promised = some p → y.promised = some q → p.pid ≤ q.pid
  cleared : x.promised ≠ none → y.promised = none → y.accepted ≠ none
  stays : x.accepted ≠ none → x.promised = none → y.promised = none

/-- A promise beside a vote is not above it. -/
def Balanced (x : Entry) : Prop :=
  ∀ p a, x.promised = some p → x.accepted = some a → p.pid ≤ a.pid

/-- What is stored: the promise only if there is no vote.
mirrors core/plog.cpp:31-35 -/
def stored (x : Entry) : Entry := { x with promised := if x.accepted.isSome then none else x.promised }

/-- What is stored admits the same ACCEPTs, and none that the promise keeps out. -/
def LosesNothing (x : Entry) : Prop :=
  ∀ pp, (x.stored.Admits pp ↔ x.Admits pp) ∧
    ∀ p, x.promised = some p → pp.pid < p.pid → ¬ x.stored.Admits pp

/-- The promise beside a vote does not reach the stored form. -/
theorem serializeTo_stored (e : MemEntry) :
    MemEntry.serializeTo { e with promised := if e.accepted.isSome then none else e.promised } =
      e.serializeTo := by
  obtain ⟨pinst, entry, acc, pro⟩ := e
  cases acc <;> rfl

theorem SameVote.pid {p q : Proposal} (h : SameVote p q) : q.pid = p.pid := by rw [h]

theorem SameVote.trans {p q r : Proposal} (h : SameVote p q) (h' : SameVote q r) : SameVote p r := by
  unfold SameVote at *
  rw [h', h]

theorem Later.refl (x : Entry) : Later x x where
  vote p hp := ⟨p, hp, .inl rfl⟩
  promise p q hp hq := by
    rw [hp] at hq
    exact Nat.le_of_eq (congrArg Proposal.pid (Option.some.inj hq))
  cleared hne hn := absurd hn hne
  stays _ hn := hn

theorem Later.voted {x y : Entry} (h : Later x y) (hx : x.accepted ≠ none) : y.accepted ≠ none := by
  obtain ⟨p, hp⟩ := Option.ne_none_iff_exists'.mp hx
  obtain ⟨q, hq, _⟩ := h.vote p hp
  rw [hq]
  exact Option.some_ne_none q

theorem Later.trans {x y z : Entry} (h : Later x y) (h' : Later y z) : Later x z where
  vote p hp := by
    obtain ⟨q, hq, hpq⟩ := h.vote p hp
    obtain ⟨r, hr, hqr⟩ := h'.vote q hq
    refine ⟨r, hr, ?_⟩
    rcases hpq with hpq | hpq
    · rcases hqr with hqr | hqr
      · exact .inl (hpq.trans hqr)
      · exact .inr (hpq.pid ▸ hqr)
    · rcases hqr with hqr | hqr
      · exact .inr (hqr.pid ▸ hpq)
      · exact .inr (Nat.lt_trans hpq hqr)
  promise p r hp hr := by
    cases hq : y.promised with
    | some q => exact Nat.le_trans (h.promise p q hp hq) (h'.promise q r hq hr)
    | none =>
      have hvoted := h.cleared (by rw [hp]; exact Option.some_ne_none p) hq
      rw [h'.stays hvoted hq] at hr
      cases hr
  cleared hne hz := by
    by_cases hy : y.promised = none
    · exact h'.voted (h.cleared hne hy)
    · exact h'.cleared hy hz
  stays hx hp := h'.stays (h.voted hx) (h.stays hx hp)

theorem Balanced.losesNothing {x : Entry} (h : x.Balanced) : x.LosesNothing := by
  intro pp
  cases ha : x.accepted with
  | none =>
    have hs : x.stored = x := by
      obtain ⟨_, _, acc, _⟩ := x
      obtain rfl : acc = none := ha
      rfl
    rw [hs]
    exact ⟨Iff.rfl, fun p hp hlt hadm => absurd (hadm.under ha hp) (Nat.not_le.mpr hlt)⟩
  | some a =>
    have hs : x.stored = { x with promised := none } := by simp [stored, ha]
    have hiff : x.stored.Admits pp ↔ x.Admits pp := by
      rw [hs]
      unfold Admits
      rw [ha]
    refine ⟨hiff, fun p hp hlt hadm => ?_⟩
    have hover := ((hiff.mp hadm).over ha).2
    have hle := h p a hp ha
    omega

/-- What a request makes of the entry it opened. -/
inductive BallotStep (x : Entry) (pp : Proposal) : Entry → Prop
  | same : BallotStep x pp x
  | promised (ha : x.accepted = none) (hp : ∀ pr, x.promised = some pr → pr.pid < pp.pid) :
      BallotStep x pp { x with promised := some (asPromised pp) }
  | cleared (a : Proposal) (ha : x.accepted = some a) : BallotStep x pp { x with promised := none }
  | accepted (ha : x.Admits pp) :
      BallotStep x pp { x with accepted := some (asAccepted pp), promised := none }
  | unsaved (ha : x.Admits pp) : BallotStep x pp { x with accepted := some (asAccepted pp) }
  | marked (a : Proposal) (s : PaxosState) (ha : x.accepted = some a) :
      BallotStep x pp { x with accepted := some { a with status := s } }

section

variable {x x' : Entry} {pp : Proposal}

theorem Admits.later (ha : x.Admits pp) (p : Proposal) (hp : x.accepted = some p) :
    ∃ q, some (asAccepted pp) = some q ∧ (SameVote p q ∨ p.pid < q.pid) :=
  ⟨_, rfl, .inr (ha.over hp).2⟩

theorem BallotStep.later (h : BallotStep x pp x') : Later x x' := by
  cases h with
  | same => exact .refl x
  | promised ha hp =>
    refine ⟨fun p hxp => ?_, fun p q hxp hq => ?_, fun _ hn => ?_, fun hne _ => absurd ha hne⟩
    · rw [ha] at hxp
      cases hxp
    · cases hq
      exact Nat.le_of_lt (hp p hxp)
    · cases hn
  | cleared a ha =>
    refine ⟨fun p hxp => ⟨p, hxp, .inl rfl⟩, fun p q _ hq => ?_, fun _ _ => ?_, fun _ _ => rfl⟩
    · cases hq
    · show x.accepted ≠ none
      rw [ha]
      exact Option.some_ne_none a
  | accepted ha =>
    refine ⟨ha.later, fun p q _ hq => ?_, fun _ _ => Option.some_ne_none _, fun _ _ => rfl⟩
    cases hq
  | unsaved ha =>
    refine ⟨ha.later, fun p q hxp hq => ?_, fun _ _ => Option.some_ne_none _, fun _ hn => hn⟩
    exact Later.promise (.refl x) p q hxp hq
  | marked a s ha =>
    refine ⟨fun p hxp => ?_, fun p q hxp hq => ?_, fun _ _ => Option.some_ne_none _, fun _ hn => hn⟩
    · rw [ha] at hxp
      cases hxp
      exact ⟨_, rfl, .inl rfl⟩
    · exact Later.promise (.refl x) p q hxp hq

theorem BallotStep.balanced (h : BallotStep x pp x') (hx : x.Balanced) : x'.Balanced := by
  cases h with
  | same => exact hx
  | promised ha hp =>
    intro p a _ hxa
    rw [show x.accepted = some a from hxa] at ha
    cases ha
  | cleared a ha =>
    intro p b hxp _
    cases hxp
  | accepted ha =>
    intro p a hxp _
    cases hxp
  | unsaved ha =>
    intro p b hxp hb
    cases hb
    cases hxa : x.accepted with
    | none => exact ha.under hxa hxp
    | some a => exact Nat.le_trans (hx p a hxp hxa) (Nat.le_of_lt (ha.over hxa).2)
  | marked a s ha =>
    intro p b hxp hb
    cases hb
    exact hx p a hxp ha

end

end Entry

open Entry

/-! ## One request -/

section

variable {m : EntryMng} {saves : Saves} {pp : Proposal} {t : PaxosMsgType} {h : Handled}

/-- The early exit, or the entry is opened and changed. -/
theorem Served.ballotStep (hs : Served m saves pp t h) :
    h.mng = m ∨ ∃ x, h.mng.cached pp.pentry = some x ∧ BallotStep (m.opened pp.pentry) pp x := by
  cases hs with
  | prepare hd =>
    cases hd with
    | behind _ hm _ => exact .inl hm
    | voted _ _ _ hm _ => exact .inr ⟨_, hm.cached, .same⟩
    | kept _ _ _ _ _ hm _ => exact .inr ⟨_, hm.cached, .same⟩
    | probed _ _ _ _ hm _ => exact .inr ⟨_, hm.cached, .same⟩
    | promised _ ha hp _ _ hm _ => exact .inr ⟨_, hm.cached, .promised ha hp⟩
    | failed _ ha hp _ _ hm _ => exact .inr ⟨_, hm.cached, .promised ha hp⟩
  | accept hd =>
    cases hd with
    | behind _ hm _ => exact .inl hm
    | repeated a _ ha hm _ => exact .inr ⟨_, hm.cached, .cleared a ha.1⟩
    | accepted _ ha _ hm _ => exact .inr ⟨_, hm.cached, .accepted ha⟩
    | failed _ ha _ hm _ => exact .inr ⟨_, hm.cached, .unsaved ha⟩
    | refused _ _ _ _ _ _ hm _ => exact .inr ⟨_, hm.cached, .same⟩
  | chosen hd =>
    cases hd with
    | mismatch _ hm _ => exact .inr ⟨_, hm.cached, .same⟩
    | already _ _ _ _ _ hm _ => exact .inr ⟨_, hm.cached, .same⟩
    | chosen a ha _ _ _ _ hm _ => exact .inr ⟨_, hm.cached, .marked a _ ha⟩
    | failed a ha _ _ _ _ hm _ => exact .inr ⟨_, hm.cached, .marked a _ ha⟩

/-- The entry as it would be opened is balanced. -/
def BalancedIn (m : EntryMng) (e : Nat) : Prop :=
  ∀ x, m.cached e = some x ∨ (m.cached e = none ∧ m.disk e = some x) → x.Balanced

theorem BalancedIn.opened {e : Nat} (ho : BalancedIn m e) : (m.opened e).Balanced := by
  cases hc : m.cached e with
  | some x =>
    rw [opened_of_cached hc]
    exact ho x (.inl hc)
  | none =>
    rcases opened_of_none hc with hv | ⟨d, hd, ha, hp⟩
    · intro p a hpr
      rw [hv.2] at hpr
      cases hpr
    · intro p a hpr hac
      exact ho d (.inr ⟨hc, hd⟩) p a (hp ▸ hpr) (ha ▸ hac)

theorem Served.balancedIn (hs : Served m saves pp t h) {e : Nat} (ho : BalancedIn m e)
    (hkeep : m.cached e ≠ none → h.mng.cached e ≠ none) : BalancedIn h.mng e := by
  by_cases he : e = pp.pentry
  · subst he
    rcases hs.ballotStep with hm | ⟨x, hx, hst⟩
    · rw [hm]
      exact ho
    · intro y hy
      rw [hx] at hy
      rcases hy with hy | ⟨hy, _⟩
      · cases hy
        exact hst.balanced ho.opened
      · cases hy
  · unfold BalancedIn
    rw [hs.unevicted he hkeep, (hs.other he).1]
    exact ho

theorem Served.later (hs : Served m saves pp t h) {e : Nat} {x : Entry} (hx : m.cached e = some x)
    (hkeep : m.cached e ≠ none → h.mng.cached e ≠ none) :
    ∃ x', h.mng.cached e = some x' ∧ Later x x' := by
  by_cases he : e = pp.pentry
  · subst he
    rcases hs.ballotStep with hm | ⟨x', hx', hst⟩
    · rw [hm]
      exact ⟨x, hx, .refl x⟩
    · rw [opened_of_cached hx] at hst
      exact ⟨x', hx', hst.later⟩
  · exact ⟨x, (hs.unevicted he hkeep).trans hx, .refl x⟩

end

/-! ## Runs -/

/-- Requests, with any outcome of their saves, that do not evict entry `e` of manager `i`. -/
def Unevicted (i e : Nat) (a : Acceptor) (op : AcceptorOp) (a' : Acceptor) : Prop :=
  (∃ msg saves, op = .request msg saves) ∧ ((a.mngs i).cached e ≠ none → (a'.mngs i).cached e ≠ none)

/-- The acceptors that start over a storage whose entry `e` is balanced, if there is one. -/
def ballotSys (cfg : Configure) (i e : Nat) : LTS Acceptor AcceptorOp :=
  (LTS.ofFn (fun a => ∃ disks, a = Acceptor.new cfg disks ∧ ∀ x, disks i e = some x → x.Balanced)
    (Acceptor.step cfg)).restrict (Unevicted i e)

section

variable {cfg : Configure} {i e : Nat} {a a' : Acceptor}

theorem ballotSys_step {op : AcceptorOp} (hpos : ∀ j, 0 < (a.mngs j).entries.maxSize)
    (hst : (ballotSys cfg i e).step a op a') :
    (∀ j, 0 < (a'.mngs j).entries.maxSize) ∧ (a'.mngs i = a.mngs i ∨
      ∃ saves pp t h, Served (a.mngs i) saves pp t h ∧ a'.mngs i = h.mng ∧
        ((a.mngs i).cached e ≠ none → h.mng.cached e ≠ none)) := by
  obtain ⟨hst, ⟨msg, saves, rfl⟩, hkeep⟩ := hst
  obtain rfl := Option.some.inj hst
  rcases doHandleMsg_cases cfg a saves msg (hpos _) with ⟨he, _⟩ | ⟨h, rt, hsv, hm, _⟩
  · rw [he]
    exact ⟨hpos, .inl rfl⟩
  · refine ⟨fun j => ?_, ?_⟩
    · rw [hm, Function.update_apply]
      split
      · rw [hsv.cap]
        exact hpos _
      · exact hpos j
    · by_cases hi : i = cfg.mngOf msg.pp.pinst
      · subst hi
        rw [hm, Function.update_self] at hkeep ⊢
        exact .inr ⟨saves, msg.pp, msg.type, h, hsv, rfl, hkeep⟩
      · rw [hm, Function.update_of_ne hi]
        exact .inl rfl

theorem ballotSys_inductive (cfg : Configure) (i e : Nat) :
    (ballotSys cfg i e).Inductive fun a =>
      (∀ j, 0 < (a.mngs j).entries.maxSize) ∧ BalancedIn (a.mngs i) e where
  init a h := by
    obtain ⟨disks, rfl, hd⟩ := h
    refine ⟨fun _ => cfg.cache_pos, fun x hx => ?_⟩
    rcases hx with hx | ⟨_, hx⟩
    · cases hx
    · exact hd x hx
  step a op a' h hst := by
    obtain ⟨hpos', hsame | ⟨saves, pp, t, hd, hsv, hm, hkeep⟩⟩ := ballotSys_step h.1 hst
    · exact ⟨hpos', hsame ▸ h.2⟩
    · exact ⟨hpos', hm ▸ hsv.balancedIn h.2 hkeep⟩

theorem run_later {ops : List AcceptorOp} (h : (ballotSys cfg i e).Reachable a)
    (hr : (ballotSys cfg i e).Run a ops a') :
    ∀ {x : Entry}, (a.mngs i).cached e = some x → ∃ x', (a'.mngs i).cached e = some x' ∧ Later x x' := by
  induction hr with
  | nil => exact fun hx => ⟨_, hx, .refl _⟩
  | cons hs _ ih =>
    intro x hx
    have hpos := ((ballotSys_inductive cfg i e).reachable _ h).1
    obtain ⟨-, hsame | ⟨saves, pp, t, hd, hsv, hm, hkeep⟩⟩ := ballotSys_step hpos hs
    · exact ih (h.step hs) (hsame ▸ hx)
    · obtain ⟨y, hy, hxy⟩ := hsv.later hx hkeep
      obtain ⟨z, hz, hyz⟩ := ih (h.step hs) (hm ▸ hy)
      exact ⟨z, hz, hxy.trans hyz⟩

/-- Whatever the requests and the outcomes of their saves, an entry that stays in the cache goes
through ballots: a vote is replaced by one with a larger id only, the promise moves to larger ids
until it is cleared, beside a vote it is not above it, and the entry loses nothing when it is
stored without it. -/
theorem ballots_kept {ops : List AcceptorOp} {x : Entry} (h : (ballotSys cfg i e).Reachable a)
    (hr : (ballotSys cfg i e).Run a ops a') (hx : (a.mngs i).cached e = some x) :
    ∃ x', (a'.mngs i).cached e = some x' ∧ x.Later x' ∧ x'.Balanced ∧ x'.LosesNothing := by
  obtain ⟨x', hx', hlater⟩ := run_later h hr hx
  have hbalanced := ((ballotSys_inductive cfg i e).reachable a' (h.run hr)).2
  have hbal := hbalanced x' (.inl hx')
  exact ⟨x', hx', hlater, hbal, hbal.losesNothing⟩

end

/-- PREPARE 1, then ACCEPT 2, which is not saved: the entry holds the promise and the vote. -/
theorem ballots_kept_unsaved :
    let cfg := Configure.init 0
    let pre := requestOf .prepareReq 1 7 1 [1]
    let a := ((Acceptor.new cfg fun _ _ => none).doHandleMsg cfg Saves.good pre).2
    let a' := (a.doHandleMsg cfg ⟨false, true⟩ (requestOf .acceptReq 2 8 1 [2])).2
    ∃ x', (a'.mngs 0).cached 1 = some x' ∧ Later ⟨0, 1, none, some (asPromised pre.pp)⟩ x' ∧
      x'.Balanced ∧ x'.LosesNothing := by
  intro cfg pre a a'
  have hinit : (ballotSys cfg 0 1).init (Acceptor.new cfg fun _ _ => none) :=
    ⟨_, rfl, fun x hx => by cases hx⟩
  have h₁ : (ballotSys cfg 0 1).step (Acceptor.new cfg fun _ _ => none) (.request pre Saves.good) a :=
    ⟨rfl, ⟨_, _, rfl⟩, fun hne => absurd rfl hne⟩
  have h₂ : (ballotSys cfg 0 1).step a (.request (requestOf .acceptReq 2 8 1 [2]) ⟨false, true⟩) a' :=
    ⟨rfl, ⟨_, _, rfl⟩, fun _ => by decide +kernel⟩
  exact ballots_kept (.step (.of_init hinit) h₁) (.single h₂) (by decide +kernel)

end Quarrel
