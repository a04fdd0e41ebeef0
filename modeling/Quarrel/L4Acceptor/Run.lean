import Quarrel.Core.LTS
import Quarrel.L2Plog.Recover
import Quarrel.L3Role.AcceptorSpec

/-!
# Runs of an acceptor

The acceptor handles requests in any order, with any outcome of their saves, and
its managers may be rebuilt over the same storage at any moment (`restart`).

* `Served`: a handled request took a branch of its handler.
* `acceptor_invariant`: a property of a manager that one request and one recovery
  preserve holds of every manager in every reachable state.
* `Served.heldAccepted`, `Served.heldPromised`: a stored proposal was stored
  before, or comes from the request.
-/
namespace Quarrel

open EntryMng

/-- What can happen to an acceptor. -/
inductive AcceptorOp where
  | request (msg : PaxosMsg) (saves : Saves)
  | restart (inst : Nat) (batch : Batch) (lastCommitted : Except Int Nat) (fuel : Nat)

/-- A restart counts once its `LoadAllFromDisk` has returned true. -/
def Acceptor.step (cfg : Configure) (a : Acceptor) : AcceptorOp → Option Acceptor
  | .request msg saves => some (a.doHandleMsg cfg saves msg).2
  | .restart i batch lastCommitted fuel =>
    match loadAllFromDisk batch lastCommitted fuel (EntryMng.new cfg i (a.mngs i).disk) with
    | some (true, m) => some { a with mngs := Function.update a.mngs i m }
    | _ => none

/-- The acceptors that start over an empty storage. -/
def acceptorSys (cfg : Configure) : LTS Acceptor AcceptorOp :=
  .ofFn (· = Acceptor.new cfg fun _ _ => none) (Acceptor.step cfg)

theorem acceptorSys_request (cfg : Configure) (a : Acceptor) (msg : PaxosMsg) (saves : Saves) :
    (acceptorSys cfg).step a (.request msg saves) (a.doHandleMsg cfg saves msg).2 := rfl

/-- A request of instance 0 with the given ids, entry and value. -/
def requestOf (type : PaxosMsgType) (pid valueId entry : Nat) (value : List UInt8) : PaxosMsg :=
  { allocProposalMsg value.length with
    type := type
    pp := { allocProposal value.length with
      pid := pid, pentry := entry, valueId := valueId, data := value } }

/-- Entry 1 has accepted value 7 with id 1. -/
def votedFirst : Acceptor :=
  ((Acceptor.new (Configure.init 0) fun _ _ => none).doHandleMsg (Configure.init 0) Saves.good
    (requestOf .acceptReq 1 7 1 [1])).2

theorem votedFirst_reachable {ok : Acceptor → AcceptorOp → Acceptor → Prop}
    (h : ok (Acceptor.new (Configure.init 0) fun _ _ => none)
      (.request (requestOf .acceptReq 1 7 1 [1]) Saves.good) votedFirst) :
    ((acceptorSys (Configure.init 0)).restrict ok).Reachable votedFirst :=
  LTS.Reachable.step (.of_init rfl) ⟨acceptorSys_request _ _ _ _, h⟩

/-! ## One request -/

/-- The handler of the request's type took one of its branches. -/
inductive Served (m : EntryMng) (saves : Saves) (pp : Proposal) : PaxosMsgType → Handled → Prop
  | prepare {h : Handled} (hd : PrepareDone m saves pp h) : Served m saves pp .prepareReq h
  | accept {h : Handled} (hd : AcceptDone m saves pp h) : Served m saves pp .acceptReq h
  | chosen {h : Handled} (hd : ChosenDone m saves pp h) : Served m saves pp .chosenReq h

theorem served_of_handler {m : EntryMng} (hpos : 0 < m.entries.maxSize) (saves : Saves)
    (pp : Proposal) {t rt : PaxosMsgType} {f : EntryMng → Saves → Proposal → Handled}
    (h : handlerOf t = some (rt, f)) :
    Served m saves pp t (f m saves pp) := by
  unfold handlerOf at h
  split at h
  · obtain ⟨rfl, rfl⟩ := Prod.mk.inj (Option.some.inj h)
    exact .prepare (handlePrepareReq_done hpos saves pp)
  · obtain ⟨rfl, rfl⟩ := Prod.mk.inj (Option.some.inj h)
    exact .accept (handleAcceptReq_done hpos saves pp)
  · obtain ⟨rfl, rfl⟩ := Prod.mk.inj (Option.some.inj h)
    exact .chosen (handleChosenReq_done hpos saves pp)
  · cases h

/-- A handled message: no manager changed, or the one of its instance served it. -/
theorem doHandleMsg_cases (cfg : Configure) (a : Acceptor) (saves : Saves) (msg : PaxosMsg)
    (hpos : 0 < (a.mngs (cfg.mngOf msg.pp.pinst)).entries.maxSize) :
    ((a.doHandleMsg cfg saves msg).2 = a ∧ handlerOf msg.type = none) ∨
      ∃ h rt, Served (a.mngs (cfg.mngOf msg.pp.pinst)) saves msg.pp msg.type h ∧
        (a.doHandleMsg cfg saves msg).2.mngs = Function.update a.mngs
        (cfg.mngOf msg.pp.pinst) h.mng ∧
        (a.doHandleMsg cfg saves msg).1 = some { h.rsp with
          type := rt, fromId := cfg.localId, version := msg.version, magic := msg.magic,
          reqid := msg.reqid } := by
  unfold Acceptor.doHandleMsg
  cases hh : handlerOf msg.type with
  | some p =>
    obtain ⟨rt, f⟩ := p
    exact .inr ⟨_, rt, served_of_handler hpos saves msg.pp hh, rfl, rfl⟩
  | none =>
    refine .inl ⟨?_, rfl⟩
    dsimp only
    split <;> rfl

theorem doHandleMsg_handled (cfg : Configure) (a : Acceptor) (saves : Saves) (msg : PaxosMsg) :
    ((a.doHandleMsg cfg saves msg).2 = a ∧ handlerOf msg.type = none) ∨
      ∃ rt f, handlerOf msg.type = some (rt, f) ∧ (a.doHandleMsg cfg saves msg).2 =
        { mngs := Function.update a.mngs (cfg.mngOf msg.pp.pinst)
            (f (a.mngs (cfg.mngOf msg.pp.pinst)) saves msg.pp).mng
          chores := a.chores ++ (f (a.mngs (cfg.mngOf msg.pp.pinst)) saves msg.pp).chores } := by
  unfold Acceptor.doHandleMsg
  cases hh : handlerOf msg.type with
  | some p => exact .inr ⟨p.1, p.2, rfl, rfl⟩
  | none =>
    refine .inl ⟨?_, rfl⟩
    dsimp only
    split <;> rfl

theorem doHandleMsg_other {cfg : Configure} {a : Acceptor} {saves : Saves} {msg : PaxosMsg}
    {j : Nat}
    (h : j ≠ cfg.mngOf msg.pp.pinst) : (a.doHandleMsg cfg saves msg).2.mngs j = a.mngs j := by
  unfold Acceptor.doHandleMsg
  cases handlerOf msg.type with
  | some p => exact Function.update_of_ne h _ _
  | none =>
    dsimp only
    split <;> rfl

theorem doHandleMsg_type {cfg : Configure} {a : Acceptor} {saves : Saves} {msg rsp : PaxosMsg}
    {rt : PaxosMsgType} {f : EntryMng → Saves → Proposal → Handled}
    (hr : (a.doHandleMsg cfg saves msg).1 = some rsp) (h : handlerOf msg.type = some (rt, f)) :
    rsp.type = rt := by
  unfold Acceptor.doHandleMsg at hr
  rw [h] at hr
  obtain rfl := Option.some.inj hr
  rfl

/-- What the handlers do to the manager: nothing, or a sequence of operations on
the entry of the request. -/
theorem Served.acts {m : EntryMng} {saves : Saves} {pp : Proposal} {t : PaxosMsgType} {h : Handled}
    (hs : Served m saves pp t h) :
    h.mng = m ∨ ∃ ent d lc, Acts m h.mng pp.pentry ent d lc ∧ ∀ k, k ≠ pp.pentry → d k = m.disk k := by
  cases hs with
  | prepare hd =>
    cases hd with
    | behind _ hm _ => exact .inl hm
    | voted _ _ _ hm _ => exact .inr ⟨_, _, _, hm, fun _ _ => rfl⟩
    | kept _ _ _ _ _ hm _ => exact .inr ⟨_, _, _, hm, fun _ _ => rfl⟩
    | probed _ _ _ _ hm _ => exact .inr ⟨_, _, _, hm, fun _ _ => rfl⟩
    | promised _ _ _ _ _ hm _ => exact .inr ⟨_, _, _, hm, fun _ hk => saved_ne hk⟩
    | failed _ _ _ _ _ hm _ => exact .inr ⟨_, _, _, hm, fun _ _ => rfl⟩
  | accept hd =>
    cases hd with
    | behind _ hm _ => exact .inl hm
    | repeated _ _ _ hm _ => exact .inr ⟨_, _, _, hm, fun _ hk => saved_ne hk⟩
    | accepted _ _ _ hm _ => exact .inr ⟨_, _, _, hm, fun _ hk => (saved_ne hk).trans (saved_ne hk)⟩
    | failed _ _ _ hm _ => exact .inr ⟨_, _, _, hm, fun _ _ => rfl⟩
    | refused _ _ _ _ _ _ hm _ => exact .inr ⟨_, _, _, hm, fun _ _ => rfl⟩
  | chosen hd =>
    cases hd with
    | mismatch _ hm _ => exact .inr ⟨_, _, _, hm, fun _ _ => rfl⟩
    | already _ _ _ _ _ hm _ => exact .inr ⟨_, _, _, hm, fun _ _ => rfl⟩
    | chosen _ _ _ _ _ _ hm _ => exact .inr ⟨_, _, _, hm, fun _ hk => saved_ne hk⟩
    | failed _ _ _ _ _ _ hm _ => exact .inr ⟨_, _, _, hm, fun _ _ => rfl⟩

theorem Served.cap {m : EntryMng} {saves : Saves} {pp : Proposal} {t : PaxosMsgType} {h : Handled}
    (hs : Served m saves pp t h) : h.mng.entries.maxSize = m.entries.maxSize := by
  rcases hs.acts with he | ⟨ent, d, lc, hm, _⟩
  · rw [he]
  · exact hm.cap

/-- Entries other than the request's are not saved, and stay as they are or are evicted. -/
theorem Served.other {m : EntryMng} {saves : Saves} {pp : Proposal} {t : PaxosMsgType} {h : Handled}
    (hs : Served m saves pp t h) {k : Nat} (hk : k ≠ pp.pentry) :
    h.mng.disk k = m.disk k ∧ ∀ x, h.mng.cached k = some x → m.cached k = some x := by
  rcases hs.acts with he | ⟨ent, d, lc, hm, hd⟩
  · rw [he]; exact ⟨rfl, fun _ hx => hx⟩
  · exact ⟨by rw [hm.disk]; exact hd k hk, fun x hx => hm.other k x hk hx⟩

theorem Served.unevicted {m : EntryMng} {saves : Saves} {pp : Proposal} {t : PaxosMsgType}
    {h : Handled} (hs : Served m saves pp t h) {k : Nat} (hk : k ≠ pp.pentry)
    (hkeep : m.cached k ≠ none → h.mng.cached k ≠ none) :
    h.mng.cached k = m.cached k := by
  have hsame := (hs.other hk).2
  cases hc : m.cached k with
  | none =>
    cases hc' : h.mng.cached k with
    | none => rfl
    | some x =>
      rw [hsame x hc'] at hc
      cases hc
  | some x =>
    obtain ⟨y, hy⟩ := Option.ne_none_iff_exists'.mp (hkeep (by rw [hc]; simp))
    rw [hy, ← hsame y hy, hc]

/-! ## Invariants of every manager -/

section Invariant

variable {cfg : Configure} {ok : Acceptor → AcceptorOp → Acceptor → Prop}
  {I : Nat → EntryMng → Prop}

theorem acceptor_step
    (hreq : ∀ a a' msg saves h, (∀ i, 0 < (a.mngs i).entries.maxSize ∧ I i (a.mngs i)) →
      ok a (.request msg saves) a' →
      Served (a.mngs (cfg.mngOf msg.pp.pinst)) saves msg.pp msg.type h →
      I (cfg.mngOf msg.pp.pinst) h.mng)
    (hrst : ∀ a a' i batch lastCommitted fuel m, (∀ i, 0 < (a.mngs i).entries.maxSize ∧
      I i (a.mngs i)) →
      ok a (.restart i batch lastCommitted fuel) a' →
      loadAllFromDisk batch lastCommitted fuel (EntryMng.new cfg i (a.mngs i).disk) = some (true, m) →
      0 < m.entries.maxSize ∧ I i m)
    {a a' : Acceptor} {op : AcceptorOp} (hI : ∀ i, 0 < (a.mngs i).entries.maxSize ∧ I i (a.mngs i))
    (hst : Acceptor.step cfg a op = some a') (hok : ok a op a') :
    ∀ i, 0 < (a'.mngs i).entries.maxSize ∧ I i (a'.mngs i) := by
  intro i
  cases op with
  | request msg saves =>
    obtain rfl := Option.some.inj hst
    rcases doHandleMsg_cases cfg a saves msg (hI _).1 with ⟨he, _⟩ | ⟨h, rt, hsv, hm, _⟩
    · rw [he]; exact hI i
    · rw [hm, Function.update_apply]
      split
      · rename_i hi
        subst hi
        exact ⟨hsv.cap ▸ (hI _).1, hreq _ _ _ _ _ hI hok hsv⟩
      · exact hI i
  | restart j batch lastCommitted fuel =>
    simp only [Acceptor.step] at hst
    split at hst
    · rename_i m hm
      obtain rfl := Option.some.inj hst
      simp only [Function.update_apply]
      split
      · rename_i hi
        subst hi
        exact hrst _ _ _ _ _ _ _ hI hok hm
      · exact hI i
    · cases hst

theorem acceptor_invariant (h0 : ∀ i, I i (EntryMng.new cfg i fun _ => none))
    (hreq : ∀ a a' msg saves h, (∀ i, 0 < (a.mngs i).entries.maxSize ∧ I i (a.mngs i)) →
      ok a (.request msg saves) a' →
      Served (a.mngs (cfg.mngOf msg.pp.pinst)) saves msg.pp msg.type h →
      I (cfg.mngOf msg.pp.pinst) h.mng)
    (hrst : ∀ a a' i batch lastCommitted fuel m, (∀ i, 0 < (a.mngs i).entries.maxSize ∧
      I i (a.mngs i)) →
      ok a (.restart i batch lastCommitted fuel) a' →
      loadAllFromDisk batch lastCommitted fuel (EntryMng.new cfg i (a.mngs i).disk) = some (true, m) →
      0 < m.entries.maxSize ∧ I i m) :
    ∀ a, ((acceptorSys cfg).restrict ok).Reachable a →
      ∀ i, 0 < (a.mngs i).entries.maxSize ∧ I i (a.mngs i) := by
  refine LTS.Inductive.reachable
    (I := fun a : Acceptor => ∀ i, 0 < (a.mngs i).entries.maxSize ∧ I i (a.mngs i)) ⟨?_, ?_⟩
  · intro a heq i
    subst heq
    exact ⟨cfg.cache_pos, h0 i⟩
  · intro a op a' hI hs
    exact acceptor_step hreq hrst hI hs.1 hs.2

end Invariant

/-! ## Where stored proposals come from -/

/-- The proposal is the accepted one of the entry, in memory or in the storage. -/
def HeldAccepted (m : EntryMng) (k : Nat) (p : Proposal) : Prop :=
  ∃ x, (m.cached k = some x ∨ m.disk k = some x) ∧ x.accepted = some p

/-- The proposal is the promised one of the entry, in memory or in the storage. -/
def HeldPromised (m : EntryMng) (k : Nat) (p : Proposal) : Prop :=
  ∃ x, (m.cached k = some x ∨ m.disk k = some x) ∧ x.promised = some p

theorem EntryMng.new_empty {cfg : Configure} {i k : Nat} {x : Entry} :
    ¬ ((EntryMng.new cfg i fun _ => none).cached k = some x ∨
      (EntryMng.new cfg i fun _ => none).disk k = some x) := by
  intro h
  rcases h with h | h <;> simp [EntryMng.cached, EntryMng.new] at h

/-- An opened entry holds what was held, or nothing. -/
theorem heldAccepted_opened {m : EntryMng} {k : Nat} {p : Proposal}
    (h : (m.opened k).accepted = some p) :
    HeldAccepted m k p := by
  cases hc : m.cached k with
  | some x => rw [opened_of_cached hc] at h; exact ⟨x, .inl hc, h⟩
  | none =>
    rcases opened_of_none hc with hv | ⟨d, hd, ha, _⟩
    · rw [hv.1] at h; cases h
    · exact ⟨d, .inr hd, ha ▸ h⟩

theorem heldPromised_opened {m : EntryMng} {k : Nat} {p : Proposal}
    (h : (m.opened k).promised = some p) :
    HeldPromised m k p := by
  cases hc : m.cached k with
  | some x => rw [opened_of_cached hc] at h; exact ⟨x, .inl hc, h⟩
  | none =>
    rcases opened_of_none hc with hv | ⟨d, hd, _, hp⟩
    · rw [hv.2] at h; cases h
    · exact ⟨d, .inr hd, hp ▸ h⟩

/-- After a sequence of operations an entry held is the written one, or was held. -/
theorem EntryMng.Acts.held {m m' : EntryMng} {e : Nat} {ent : Entry} {d : Nat → Option Entry}
    {lc : Nat} (h : Acts m m' e ent d lc) {k : Nat} {x : Entry}
    (hx : m'.cached k = some x ∨ m'.disk k = some x) :
    (k = e ∧ x = ent) ∨ m.cached k = some x ∨ d k = some x := by
  rcases hx with hx | hx
  · by_cases hk : k = e
    · subst hk
      rw [h.cached] at hx
      exact .inl ⟨rfl, (Option.some.inj hx).symm⟩
    · exact .inr (.inl (h.other k x hk hx))
  · rw [h.disk] at hx
    exact .inr (.inr hx)

theorem saved_held {d : Nat → Option Entry} {ok : Bool} {e k : Nat} {ent x : Entry}
    (h : saved d ok e ent k = some x) : (k = e ∧ x = ent) ∨ d k = some x := by
  by_cases hk : k = e
  · subst hk
    cases ok with
    | true =>
      simp only [saved_true, Function.update_self, Option.some.injEq] at h; exact .inl ⟨rfl, h.symm⟩
    | false => exact .inr h
  · rw [saved_ne hk] at h; exact .inr h

/-- An entry opened, or written and saved, holds what was held or what was written. -/
theorem EntryMng.Acts.held_saved {m m' : EntryMng} {e : Nat} {ent : Entry} {ok : Bool} {lc k : Nat}
    {x : Entry}
    (h : Acts m m' e ent (saved m.disk ok e ent) lc)
    (hx : m'.cached k = some x ∨ m'.disk k = some x) :
    (k = e ∧ x = ent) ∨ m.cached k = some x ∨ m.disk k = some x := by
  rcases h.held hx with hx | hx | hx
  · exact .inl hx
  · exact .inr (.inl hx)
  · exact (saved_held hx).imp id .inr

/-- A CHOSEN for `pp` marks the proposal held at entry `k`, or takes the mark back. -/
def Marks (m : EntryMng) (pp : Proposal) (k : Nat) (p : Proposal) : Prop :=
  ∃ q s, HeldAccepted m k q ∧ pp.pid = q.pid ∧ pp.valueId = q.valueId ∧
  (s = .chosen ∨ s = .accepted) ∧
    p = { q with status := s }

/-- What a message leaves in the entry it opened. -/
inductive Written (x : Entry) (pp : Proposal) : PaxosMsgType → Entry → Prop
  | opened (t : PaxosMsgType) : Written x pp t x
  | promised (hpos : 0 < pp.pid) :
      Written x pp .prepareReq { x with promised := some (asPromised pp) }
  | cleared : Written x pp .acceptReq { x with promised := none }
  | accepted : Written x pp .acceptReq { x with accepted := some (asAccepted pp) }
  | acceptedOnly : Written x pp .acceptReq { x with accepted := some (asAccepted pp), promised := none }
  | marked (a : Proposal) (s : PaxosState) (ha : x.accepted = some a) (hpid : pp.pid = a.pid)
      (hvid : pp.valueId = a.valueId) (hs : s = .chosen ∨ s = .accepted) :
      Written x pp .chosenReq { x with accepted := some { a with status := s } }

/-- An entry held afterwards was held, or is what the message has left in its own. -/
theorem Served.held {m : EntryMng} {saves : Saves} {pp : Proposal} {t : PaxosMsgType} {h : Handled}
    (hs : Served m saves pp t h) {k : Nat} {x : Entry}
    (hx : h.mng.cached k = some x ∨ h.mng.disk k = some x) :
    (k = pp.pentry ∧ Written (m.opened pp.pentry) pp t x) ∨ m.cached k = some x ∨
    m.disk k = some x := by
  have hwrote : ∀ ent : Entry, Written (m.opened pp.pentry) pp t ent →
      (k = pp.pentry ∧ x = ent) ∨ m.cached k = some x ∨ m.disk k = some x →
      (k = pp.pentry ∧ Written (m.opened pp.pentry) pp t x) ∨ m.cached k = some x ∨
      m.disk k = some x :=
    fun ent hw h => h.imp (fun ⟨hk, he⟩ => ⟨hk, he ▸ hw⟩) id
  cases hs with
  | prepare hd =>
    cases hd with
    | behind _ hm _ => rw [hm] at hx; exact .inr hx
    | voted _ _ _ hm _ => exact hwrote _ (.opened _) (hm.held hx)
    | kept _ _ _ _ _ hm _ => exact hwrote _ (.opened _) (hm.held hx)
    | probed _ _ _ _ hm _ => exact hwrote _ (.opened _) (hm.held hx)
    | promised _ _ _ hpos _ hm _ => exact hwrote _ (.promised hpos) (hm.held_saved hx)
    | failed _ _ _ hpos _ hm _ => exact hwrote _ (.promised hpos) (hm.held hx)
  | accept hd =>
    cases hd with
    | behind _ hm _ => rw [hm] at hx; exact .inr hx
    | repeated _ _ _ hm _ => exact hwrote _ .cleared (hm.held_saved hx)
    | refused _ _ _ _ _ _ hm _ => exact hwrote _ (.opened _) (hm.held hx)
    | failed _ _ _ hm _ => exact hwrote _ .accepted (hm.held hx)
    | accepted _ _ _ hm _ =>
      -- two saves: the proposal with the promise still there, then without it
      rcases hm.held hx with hx | hx | hx
      · exact hwrote _ .acceptedOnly (.inl hx)
      · exact .inr (.inl hx)
      · rcases saved_held hx with hx | hx
        · exact hwrote _ .acceptedOnly (.inl hx)
        · exact hwrote _ .accepted ((saved_held hx).imp id .inr)
  | chosen hd =>
    cases hd with
    | mismatch _ hm _ => exact hwrote _ (.opened _) (hm.held hx)
    | already _ _ _ _ _ hm _ => exact hwrote _ (.opened _) (hm.held hx)
    | chosen a ha hpid hvid _ _ hm _ =>
      exact hwrote _ (.marked a _ ha hpid hvid (.inl rfl)) (hm.held_saved hx)
    | failed a ha hpid hvid _ _ hm _ =>
      exact hwrote _ (.marked a _ ha hpid hvid (.inr rfl)) (hm.held hx)

theorem Written.voted {x x' : Entry} {pp : Proposal} {t : PaxosMsgType} (h : Written x pp t x')
    (hx : x.accepted ≠ none) : x'.accepted ≠ none := by
  cases h with
  | opened | promised | cleared => exact hx
  | accepted | acceptedOnly | marked => exact Option.some_ne_none _

/-- The early exit, or the entry of the request is in the cache as the message leaves it, and
stored as before or with the same vote. -/
theorem Served.written {m : EntryMng} {saves : Saves} {pp : Proposal} {t : PaxosMsgType}
    {h : Handled} (hs : Served m saves pp t h) :
    h.mng = m ∨ ∃ x, h.mng.cached pp.pentry = some x ∧ Written (m.opened pp.pentry) pp t x ∧
      (h.mng.disk pp.pentry = m.disk pp.pentry ∨
        ∃ z, h.mng.disk pp.pentry = some z ∧ z.accepted = x.accepted) := by
  have hkeep : ∀ {ent : Entry} {lc : Nat}, Acts m h.mng pp.pentry ent m.disk lc →
      Written (m.opened pp.pentry) pp t ent → h.mng = m ∨ ∃ x, h.mng.cached pp.pentry = some x ∧
        Written (m.opened pp.pentry) pp t x ∧ (h.mng.disk pp.pentry = m.disk pp.pentry ∨
          ∃ z, h.mng.disk pp.pentry = some z ∧ z.accepted = x.accepted) :=
    fun hm hw => .inr ⟨_, hm.cached, hw, .inl (by rw [hm.disk])⟩
  have hsave : ∀ {ent : Entry} {ok : Bool} {lc : Nat},
      Acts m h.mng pp.pentry ent (saved m.disk ok pp.pentry ent) lc →
      Written (m.opened pp.pentry) pp t ent → h.mng = m ∨ ∃ x, h.mng.cached pp.pentry = some x ∧
        Written (m.opened pp.pentry) pp t x ∧ (h.mng.disk pp.pentry = m.disk pp.pentry ∨
          ∃ z, h.mng.disk pp.pentry = some z ∧ z.accepted = x.accepted) := by
    intro ent ok lc hm hw
    refine .inr ⟨_, hm.cached, hw, ?_⟩
    cases ok with
    | false => exact .inl (by rw [hm.disk, saved_false])
    | true => exact .inr ⟨ent, by rw [hm.disk, saved_true, Function.update_self], rfl⟩
  cases hs with
  | prepare hd =>
    cases hd with
    | behind _ hm _ => exact .inl hm
    | voted _ _ _ hm _ => exact hkeep hm (.opened _)
    | kept _ _ _ _ _ hm _ => exact hkeep hm (.opened _)
    | probed _ _ _ _ hm _ => exact hkeep hm (.opened _)
    | promised _ _ _ hpos _ hm _ => exact hsave hm (.promised hpos)
    | failed _ _ _ hpos _ hm _ => exact hkeep hm (.promised hpos)
  | accept hd =>
    cases hd with
    | behind _ hm _ => exact .inl hm
    | repeated _ _ _ hm _ => exact hsave hm .cleared
    | accepted _ _ _ hm _ =>
      refine .inr ⟨_, hm.cached, .acceptedOnly, .inr ?_⟩
      rw [hm.disk]
      cases saves.clear with
      | false =>
        refine ⟨{ m.opened pp.pentry with accepted := some (asAccepted pp) }, ?_, rfl⟩
        rw [saved_false, saved_true, Function.update_self]
      | true => exact ⟨_, by rw [saved_true, Function.update_self], rfl⟩
    | failed _ _ _ hm _ => exact hkeep hm .accepted
    | refused _ _ _ _ _ _ hm _ => exact hkeep hm (.opened _)
  | chosen hd =>
    cases hd with
    | mismatch _ hm _ => exact hkeep hm (.opened _)
    | already _ _ _ _ _ hm _ => exact hkeep hm (.opened _)
    | chosen a ha hpid hvid _ _ hm _ => exact hsave hm (.marked a _ ha hpid hvid (.inl rfl))
    | failed a ha hpid hvid _ _ hm _ => exact hkeep hm (.marked a _ ha hpid hvid (.inr rfl))

theorem Served.heldAccepted {m : EntryMng} {saves : Saves} {pp : Proposal} {t : PaxosMsgType}
    {h : Handled} (hs : Served m saves pp t h) {k : Nat} {p : Proposal}
    (hp : HeldAccepted h.mng k p) :
    HeldAccepted m k p ∨ (t = .acceptReq ∧ k = pp.pentry ∧ p = asAccepted pp) ∨
      (t = .chosenReq ∧ k = pp.pentry ∧ Marks m pp k p) := by
  obtain ⟨x, hx, hxa⟩ := hp
  rcases hs.held hx with ⟨rfl, hw⟩ | hx
  · cases hw with
    | opened | promised | cleared => exact .inl (heldAccepted_opened hxa)
    | accepted | acceptedOnly => exact .inr (.inl ⟨rfl, rfl, (Option.some.inj hxa).symm⟩)
    | marked a s ha hpid hvid hs' =>
      exact .inr (.inr ⟨rfl, rfl, a, s, heldAccepted_opened ha, hpid, hvid, hs',
        (Option.some.inj hxa).symm⟩)
  · exact .inl ⟨x, hx, hxa⟩

theorem Served.heldPromised {m : EntryMng} {saves : Saves} {pp : Proposal} {t : PaxosMsgType}
    {h : Handled} (hs : Served m saves pp t h) {k : Nat} {p : Proposal}
    (hp : HeldPromised h.mng k p) :
    HeldPromised m k p ∨ (t = .prepareReq ∧ k = pp.pentry ∧ p = asPromised pp ∧ 0 < pp.pid) := by
  obtain ⟨x, hx, hxp⟩ := hp
  rcases hs.held hx with ⟨rfl, hw⟩ | hx
  · cases hw with
    | opened | accepted | marked => exact .inl (heldPromised_opened hxp)
    | promised hpos => exact .inr ⟨rfl, rfl, (Option.some.inj hxp).symm, hpos⟩
    | cleared | acceptedOnly => cases hxp
  · exact .inl ⟨x, hx, hxp⟩

/-- Accepted proposals have status ACCEPTED or CHOSEN. -/
def VotesSettled (m : EntryMng) : Prop :=
  ∀ k p, HeldAccepted m k p → p.status = .chosen ∨ p.status = .accepted

theorem Served.votesSettled {m : EntryMng} {saves : Saves} {pp : Proposal} {t : PaxosMsgType}
    {h : Handled} (hs : Served m saves pp t h) (hv : VotesSettled m) : VotesSettled h.mng := by
  intro k p hp
  rcases hs.heldAccepted hp with hp | ⟨_, _, rfl⟩ | ⟨_, _, q, s, _, _, _, hs', rfl⟩
  · exact hv k p hp
  · exact .inr rfl
  · exact hs'

theorem votesSettled_new (cfg : Configure) (i : Nat) :
    VotesSettled (EntryMng.new cfg i fun _ => none) := by
  intro k p hp
  obtain ⟨x, hx, _⟩ := hp
  exact absurd hx new_empty

theorem votesSettled_reachable {cfg : Configure} {ok : Acceptor → AcceptorOp → Acceptor → Prop}
    (hlog : ∀ a a' i batch lastCommitted fuel, ok a (.restart i batch lastCommitted fuel) a' →
      ReadsLog batch (a.mngs i).disk) {a : Acceptor} (h :
      ((acceptorSys cfg).restrict ok).Reachable a)
    (i : Nat) : 0 < (a.mngs i).entries.maxSize ∧ VotesSettled (a.mngs i) := by
  refine acceptor_invariant (I := fun _ => VotesSettled) (votesSettled_new cfg) ?_ ?_ a h i
  · intro a a' msg saves h hI _ hs
    exact hs.votesSettled (hI _).2
  · intro a a' j batch lastCommitted fuel m hI hok hm
    have hf := loadAllFromDisk_fromLog (hlog _ _ _ _ _ _ hok) hm
    refine ⟨hf.cap, ?_⟩
    intro k p hheld
    obtain ⟨x, hx, hxp⟩ := hheld
    refine (hI j).2 k p ⟨x, .inr ?_, hxp⟩
    rcases hx with hx | hx
    · exact hf.cached k x hx
    · exact hf.disk ▸ hx

end Quarrel
