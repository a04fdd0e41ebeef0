import Quarrel.L4Acceptor.Run

/-!
# What an answer says

The proposers trust three things in an answer: the instance it names, that a
promise carries no value bytes, and that a proposal answered ACCEPTED is stored.
The first two rest on what the manager holds: `OwnProposals`, `EmptyPromises`.

* `Served.rsp_pinst`: every answer but the early exit of ACCEPT names the
  instance of its request.
* `Served.promise`, `Served.vote`: what a promise and an acceptance stand for.
* `Served.voted`, `Served.refuses`: a vote stays while its entry is in the cache, and
  keeps it from being promised.
-/
namespace Quarrel

open EntryMng

/-! ## The instance -/

/-- What manager `i` holds was proposed on instance `i`. -/
def OwnProposals (i : Nat) (m : EntryMng) : Prop :=
  ∀ k p, HeldAccepted m k p ∨ HeldPromised m k p → p.pinst = i

theorem Served.ownProposals {m : EntryMng} {saves : Saves} {pp : Proposal} {t : PaxosMsgType}
    {h : Handled} {i : Nat} (hs : Served m saves pp t h) (hm : OwnProposals i m)
    (hi : pp.pinst = i) :
    OwnProposals i h.mng := by
  intro k p hp
  rcases hp with hp | hp
  · rcases hs.heldAccepted hp with hp | ⟨_, _, rfl⟩ | ⟨_, _, q, s, hq, _, _, _, rfl⟩
    · exact hm k p (.inl hp)
    · exact hi
    · exact hm k q (.inl hq)
  · rcases hs.heldPromised hp with hp | ⟨_, _, rfl, _⟩
    · exact hm k p (.inr hp)
    · exact hi

theorem ownProposals_new (cfg : Configure) (i : Nat) :
    OwnProposals i (EntryMng.new cfg i fun _ => none) := by
  intro k p hp
  rcases hp with ⟨x, hx, _⟩ | ⟨x, hx, _⟩
  · exact absurd hx new_empty
  · exact absurd hx new_empty

theorem EntryMng.FromLog.stored {d : Nat → Option Entry} {m : EntryMng} (h : FromLog d m) {k : Nat}
    {x : Entry} (hx : m.cached k = some x ∨ m.disk k = some x) : d k = some x := by
  rcases hx with hx | hx
  · exact h.cached k x hx
  · exact h.disk ▸ hx

theorem OwnProposals.recovered {i : Nat} {m m' : EntryMng} (hm : OwnProposals i m)
    (hf : FromLog m.disk m') :
    OwnProposals i m' := by
  intro k p hp
  rcases hp with ⟨x, hx, hxp⟩ | ⟨x, hx, hxp⟩
  · exact hm k p (.inl ⟨x, .inr (hf.stored hx), hxp⟩)
  · exact hm k p (.inr ⟨x, .inr (hf.stored hx), hxp⟩)

/-- Every answer carries the instance of the request, but for the early exit of ACCEPT. -/
theorem Served.rsp_pinst {m : EntryMng} {saves : Saves} {pp : Proposal} {t : PaxosMsgType}
    {h : Handled}
    {i : Nat} (hs : Served m saves pp t h) (hm : OwnProposals i m) (hi : pp.pinst = i) :
    h.rsp.pp.pinst = if t = .acceptReq ∧ Behind m pp then 0 else i := by
  have hacc : ∀ a, (m.opened pp.pentry).accepted = some a → a.pinst = i :=
    fun a ha => hm _ a (.inl (heldAccepted_opened ha))
  cases hs with
  | prepare hd =>
    rw [if_neg (by simp)]
    cases hd with
    | behind _ _ hr => rw [hr, prepareRsp_pinst, hi]
    | voted a _ ha _ hr => rw [hr, prepareRsp_pinst, hacc a ha]
    | kept pr _ _ hp _ _ hr => rw [hr, prepareRsp_pinst, hm _ pr (.inr (heldPromised_opened hp))]
    | probed _ _ _ _ _ hr => rw [hr, prepareRsp_pinst, hi]
    | promised _ _ _ _ _ _ hr => rw [hr, prepareRsp_pinst, hi]
    | failed _ _ _ _ _ _ hr => rw [hr, prepareRsp_pinst, hi]
  | accept hd =>
    cases hd with
    | behind hb _ hr => rw [if_pos ⟨rfl, hb⟩, hr, acceptLagRsp_pinst]
    | repeated a hb ha _ hr => rw [if_neg (fun h => hb h.2), hr, acceptRsp_pinst, hacc a ha.1]
    | accepted hb _ _ _ hr => rw [if_neg (fun h => hb h.2), hr, acceptRsp_pinst, hi]
    | failed hb _ _ _ hr => rw [if_neg (fun h => hb h.2), hr, acceptRsp_pinst, hi]
    | refused _ src hb _ _ hsrc _ hr =>
      rw [if_neg (fun h => hb h.2), hr, acceptRsp_pinst]
      rcases hsrc with rfl | ha
      · exact hi
      · exact hacc src ha
  | chosen hd =>
    rw [if_neg (by simp)]
    cases hd with
    | mismatch _ _ hr => rw [hr, chosenRsp_pinst, hi]
    | already _ _ _ _ _ _ hr => rw [hr, chosenRsp_pinst, hi]
    | chosen _ _ _ _ _ _ _ hr => rw [hr, chosenSavedRsp_pinst, hi]
    | failed _ _ _ _ _ _ _ hr => rw [hr, chosenSavedRsp_pinst, hi]

/-- The early exit of ACCEPT is an error. -/
theorem Served.lag {m : EntryMng} {saves : Saves} {pp : Proposal} {h : Handled}
    (hs : Served m saves pp .acceptReq h) (hb : Behind m pp) : h.rsp.errcode ≠ ErrCode.ok := by
  cases hs with
  | accept hd =>
    cases hd with
    | behind _ _ hr => rw [hr]; simp
    | repeated _ hnb | accepted hnb | failed hnb | refused _ _ hnb => exact absurd hb hnb

/-! ## Promises -/

/-- The promised proposals were proposed without their values. -/
def EmptyPromises (m : EntryMng) : Prop := ∀ k p, HeldPromised m k p → p.size = 0

theorem Served.emptyPromises {m : EntryMng} {saves : Saves} {pp : Proposal} {t : PaxosMsgType}
    {h : Handled} (hs : Served m saves pp t h) (hm : EmptyPromises m)
    (hz : t = .prepareReq → pp.size = 0) : EmptyPromises h.mng := by
  intro k p hp
  rcases hs.heldPromised hp with hp | ⟨ht, _, rfl, _⟩
  · exact hm k p hp
  · exact hz ht

theorem emptyPromises_new (cfg : Configure) (i : Nat) :
    EmptyPromises (EntryMng.new cfg i fun _ => none) := by
  intro k p hp
  obtain ⟨x, hx, _⟩ := hp
  exact absurd hx new_empty

theorem EmptyPromises.recovered {m m' : EntryMng} (hm : EmptyPromises m) (hf : FromLog m.disk m') :
    EmptyPromises m' :=
  fun k p ⟨x, hx, hxp⟩ => hm k p ⟨x, .inr (hf.stored hx), hxp⟩

/-- A promise carries no value bytes, and an id not below the request's. -/
theorem Served.promise {m : EntryMng} {saves : Saves} {pp : Proposal} {h : Handled}
    (hs : Served m saves pp .prepareReq h) (hm : EmptyPromises m) (hz : pp.size = 0)
    (hst : h.rsp.pp.status = .promised) : h.rsp.pp.size = 0 ∧ pp.pid ≤ h.rsp.pp.pid := by
  cases hs with
  | prepare hd =>
    cases hd with
    | behind _ _ hr => rw [hr] at hst; simp at hst
    | voted _ _ _ _ hr => rw [hr] at hst; simp at hst
    | failed _ _ _ _ _ _ hr => rw [hr] at hst; simp at hst
    | kept pr _ _ hp hle _ hr =>
      rw [hr, prepareRsp_size, prepareRsp_pid]
      exact ⟨hm _ pr (heldPromised_opened hp), hle⟩
    | probed _ _ _ _ _ hr =>
      rw [hr, prepareRsp_size, prepareRsp_pid]
      exact ⟨hz, Nat.le_refl _⟩
    | promised _ _ _ _ _ _ hr =>
      rw [hr, prepareRsp_size, prepareRsp_pid]
      exact ⟨hz, Nat.le_refl _⟩

/-- A promise is of the request, or of the proposal that has been promised before. -/
theorem Served.promise_same {m : EntryMng} {saves : Saves} {pp : Proposal} {h : Handled}
    (hs : Served m saves pp .prepareReq h) (hst : h.rsp.pp.status = .promised) :
    Same h.rsp.pp pp ∨ ∃ p, HeldPromised m pp.pentry p ∧ Same h.rsp.pp p := by
  cases hs with
  | prepare hd =>
    cases hd with
    | behind _ _ hr => rw [hr] at hst; simp at hst
    | voted _ _ _ _ hr => rw [hr] at hst; simp at hst
    | failed _ _ _ _ _ _ hr => rw [hr] at hst; simp at hst
    | kept pr _ _ hp _ _ hr =>
      exact .inr ⟨pr, heldPromised_opened hp, by rw [hr]; exact ⟨rfl, rfl, rfl, rfl⟩⟩
    | probed _ _ _ _ _ hr => exact .inl (by rw [hr]; exact ⟨rfl, rfl, rfl, rfl⟩)
    | promised _ _ _ _ _ _ hr => exact .inl (by rw [hr]; exact ⟨rfl, rfl, rfl, rfl⟩)

/-! ## Votes -/

/-- An ACCEPT answered ACCEPTED without an error is stored, and answered with the request's header. -/
theorem Served.vote {m : EntryMng} {saves : Saves} {pp : Proposal} {h : Handled}
    (hs : Served m saves pp .acceptReq h) (hok : h.rsp.errcode = ErrCode.ok)
    (hst : h.rsp.pp.status = .accepted) : Same h.rsp.pp pp ∧
      ∃ x q, h.mng.disk pp.pentry = some x ∧ x.accepted = some q ∧ q.pid = pp.pid ∧
        q.valueId = pp.valueId := by
  cases hs with
  | accept hd =>
    cases hd with
    | behind _ _ hr => rw [hr] at hok; simp at hok
    | repeated _ _ _ _ hr => rw [hr] at hok; simp at hok
    | failed _ _ _ _ hr => rw [hr] at hok; simp at hok
    | refused _ _ _ _ _ _ _ hr => rw [hr] at hst; simp at hst
    | accepted _ _ _ hm hr =>
      refine ⟨by rw [hr]; exact ⟨rfl, rfl, rfl, rfl⟩, ?_⟩
      have hdisk := congrFun hm.disk pp.pentry
      cases hc : saves.clear with
      | true =>
        rw [hc, saved_true, Function.update_self] at hdisk
        exact ⟨_, asAccepted pp, hdisk, rfl, rfl, rfl⟩
      | false =>
        rw [hc, saved_false, saved_true, Function.update_self] at hdisk
        exact ⟨_, asAccepted pp, hdisk, rfl, rfl, rfl⟩

/-! ## Entries with a vote -/

/-- The entry is in the cache with an accepted proposal. -/
def Voted (m : EntryMng) (e : Nat) : Prop := ∃ x, m.cached e = some x ∧ x.accepted ≠ none

/-- An accepted proposal of the entry that is stored is in the cache, or a later one. -/
def VoteCached (m : EntryMng) (e : Nat) : Prop :=
  ∀ x, m.disk e = some x → x.accepted ≠ none → Voted m e

section

variable {m : EntryMng} {saves : Saves} {pp : Proposal} {t : PaxosMsgType} {h : Handled}

theorem Served.voted (hs : Served m saves pp t h) (hv : Voted m pp.pentry) :
    Voted h.mng pp.pentry := by
  obtain ⟨x, hx, hxa⟩ := hv
  rcases hs.written with he | ⟨x', hx', hw, _⟩
  · rw [he]
    exact ⟨x, hx, hxa⟩
  · rw [opened_of_cached hx] at hw
    exact ⟨x', hx', hw.voted hxa⟩

theorem Served.voteCached (hs : Served m saves pp t h) (hm : VoteCached m pp.pentry) :
    VoteCached h.mng pp.pentry := by
  intro z hz hza
  rcases hs.written with he | ⟨x, hx, _, hd | ⟨z', hz', hacc⟩⟩
  · rw [he] at hz ⊢
    exact hm z hz hza
  · rw [hd] at hz
    exact hs.voted (hm z hz hza)
  · obtain rfl := Option.some.inj (hz.symm.trans hz')
    exact ⟨x, hx, hacc ▸ hza⟩

theorem VoteCached.voted {e : Nat} {p : Proposal} (hm : VoteCached m e) (hp : HeldAccepted m e p) :
    Voted m e := by
  obtain ⟨x, hx | hx, hxa⟩ := hp
  · exact ⟨x, hx, by rw [hxa]; exact Option.some_ne_none _⟩
  · exact hm x hx (by rw [hxa]; exact Option.some_ne_none _)

/-- An entry that is opened with a vote is not promised. -/
theorem Served.refuses_opened (hs : Served m saves pp .prepareReq h)
    (hno : ¬ Behind m pp → (m.opened pp.pentry).accepted ≠ none) : h.rsp.pp.status ≠ .promised := by
  cases hs with
  | prepare hd =>
    cases hd with
    | behind _ _ hr => rw [hr]; simp
    | voted _ _ _ _ hr => rw [hr]; simp
    | kept _ hb ha => exact absurd ha (hno hb)
    | probed hb ha => exact absurd ha (hno hb)
    | promised hb ha => exact absurd ha (hno hb)
    | failed hb ha => exact absurd ha (hno hb)

theorem Served.refuses (hs : Served m saves pp .prepareReq h) (hv : Voted m pp.pentry) :
    h.rsp.pp.status ≠ .promised := by
  obtain ⟨x, hx, hxa⟩ := hv
  refine hs.refuses_opened fun _ => ?_
  rw [opened_of_cached hx]
  exact hxa

/-- Nor is a vote under an id that is not below the request's replaced. -/
theorem Served.refuses_accept (hs : Served m saves pp .acceptReq h)
    (hno : ¬ Behind m pp → ∃ a, (m.opened pp.pentry).accepted = some a ∧ pp.pid ≤ a.pid)
    (hok : h.rsp.errcode = ErrCode.ok) : h.rsp.pp.status ≠ .accepted := by
  cases hs with
  | accept hd =>
    cases hd with
    | behind _ _ hr => rw [hr]; simp
    | repeated _ _ _ _ hr =>
      rw [hr] at hok
      simp at hok
    | accepted hb hadm =>
      obtain ⟨a, ha, hle⟩ := hno hb
      have := (hadm.over ha).2
      omega
    | failed _ _ _ _ hr => rw [hr]; simp
    | refused _ _ _ _ _ _ _ hr => rw [hr]; simp

end

end Quarrel
