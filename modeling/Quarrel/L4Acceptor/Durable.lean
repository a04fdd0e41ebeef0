import Quarrel.L4Acceptor.Run

/-!
# Durable before acknowledged

A response with errcode OK that reports a promise, a vote or a chosen entry
(`Acknowledged`) should only leave once the storage holds it. The handlers set
the entry in memory before they save it, so after a failed save of a promise or
of an accepted proposal memory is ahead of the storage, and a later request is
answered from memory.

* `acknowledged_of_setsSaved`: while no save of `SetPromised` or `SetAccepted`
  fails, every acknowledgement is backed by the storage. Failed saves of
  `SetChosen` and `ClearPromised` do no harm.
* `not_acknowledgedAlways`: a PREPARE whose save failed, sent again.
-/
namespace Quarrel

open EntryMng

/-- The response carries the proposal, value and size included; the state it reports and the
last chosen entry are the acceptor's. -/
def CarriesProposal (rsp p : Proposal) : Prop :=
  cloneProposal p =
    { rsp with status := p.status, lastChosen := p.lastChosen, lastChosenFrom := p.lastChosenFrom }

/-- What the storage must hold at the entry of the request for the response: the promise or
the vote it carries, the proposal it accepted, or what the manager held as accepted, marked
as chosen. -/
structure Acknowledged (m : EntryMng) (req rsp : PaxosMsg) (stored : Option Entry) : Prop where
  promise : rsp.pp.status = .promised → rsp.pp.pid = req.pp.pid → req.pp.pid ≠ 0 → ∃ x, stored = some x ∧
    ((∃ pr, x.promised = some pr ∧ CarriesProposal rsp.pp pr) ∨ ∃ a, x.accepted = some a ∧ req.pp.pid ≤ a.pid)
  vote : rsp.pp.status = .accepted → ∃ x a, stored = some x ∧ x.accepted = some a ∧
    (req.type = .prepareReq ∧ CarriesProposal rsp.pp a ∨ req.type = .acceptReq ∧ a = asAccepted req.pp)
  mark : rsp.pp.status = .chosen ∨ rsp.pp.status = .alreadyChosen → ∃ x a, stored = some x ∧
    x.accepted = some { a with status := .chosen } ∧ (m.opened req.pp.pentry).accepted = some a ∧
    a.pid = rsp.pp.pid ∧ a.valueId = rsp.pp.valueId

/-- Handling the message leaves the storage behind every OK it answers. -/
def AcksStored (cfg : Configure) (a : Acceptor) (msg : PaxosMsg) (saves : Saves) : Prop :=
  ∀ rsp, (a.doHandleMsg cfg saves msg).1 = some rsp → rsp.errcode = ErrCode.ok →
    Acknowledged (a.mngs (cfg.mngOf msg.pp.pinst)) msg rsp
      (((a.doHandleMsg cfg saves msg).2.mngs (cfg.mngOf msg.pp.pinst)).disk msg.pp.pentry)

/-- The PREPARE calls `SetPromised`. -/
def SetsPromised (m : EntryMng) (pp : Proposal) : Prop :=
  ¬ Behind m pp ∧ (m.opened pp.pentry).accepted = none ∧
    (∀ pr, (m.opened pp.pentry).promised = some pr → pr.pid < pp.pid) ∧ 0 < pp.pid

/-- The ACCEPT calls `SetAccepted`. -/
def SetsAccepted (m : EntryMng) (pp : Proposal) : Prop :=
  ¬ Behind m pp ∧ (m.opened pp.pentry).Admits pp

/-- The request makes `SetPromised` or `SetAccepted` save, and the save fails. -/
def SetFails (m : EntryMng) (saves : Saves) (msg : PaxosMsg) : Prop :=
  saves.set = false ∧ ((msg.type = .prepareReq ∧ SetsPromised m msg.pp) ∨
    (msg.type = .acceptReq ∧ SetsAccepted m msg.pp))

/-- Requests only, and none of them makes `SetPromised` or `SetAccepted` fail. -/
def SetsSaved (cfg : Configure) (a : Acceptor) (op : AcceptorOp) (_ : Acceptor) : Prop :=
  ∃ msg saves, op = .request msg saves ∧ ¬ SetFails (a.mngs (cfg.mngOf msg.pp.pinst)) saves msg

/-- Requests only, with any outcome of their saves. -/
def RequestsOnly (_ : Acceptor) (op : AcceptorOp) (_ : Acceptor) : Prop :=
  ∃ msg saves, op = .request msg saves

/-! ## Memory is backed by the storage -/

/-- The storage `d` holds the proposals of the entry. -/
structure Backed (d : Nat → Option Entry) (k : Nat) (x : Entry) : Prop where
  accepted : ∀ p, x.accepted = some p → ∃ y, d k = some y ∧ y.accepted = some p
  promised : ∀ p, x.promised = some p → ∃ y, d k = some y ∧ y.promised = some p

def AllBacked (m : EntryMng) : Prop := ∀ k x, m.cached k = some x → Backed m.disk k x

theorem backed_of_stored {d : Nat → Option Entry} {k : Nat} {x y : Entry} (h : d k = some y)
    (ha : x.accepted = y.accepted) (hp : x.promised = y.promised ∨ x.promised = none) :
    Backed d k x := by
  refine ⟨fun p hx => ⟨y, h, ha ▸ hx⟩, fun p hx => ?_⟩
  rcases hp with hp | hp
  · exact ⟨y, h, hp ▸ hx⟩
  · rw [hp] at hx; cases hx

theorem backed_opened {m : EntryMng} (h : AllBacked m) (e : Nat) :
    Backed m.disk e (m.opened e) := by
  cases hc : m.cached e with
  | some x => rw [opened_of_cached hc]; exact h e x hc
  | none =>
    rcases opened_of_none hc with hv | ⟨d, hd, ha, hp⟩
    · exact ⟨fun p hx => (by rw [hv.1] at hx; cases hx), fun p hx => (by rw [hv.2] at hx; cases hx)⟩
    · exact backed_of_stored hd ha (.inl hp)

theorem AllBacked.acts {m m' : EntryMng} {e : Nat} {ent : Entry} {d : Nat → Option Entry} {lc : Nat}
    (h : AllBacked m) (hm : Acts m m' e ent d lc) (hd : ∀ k, k ≠ e → d k = m.disk k)
    (hent : Backed d e ent) : AllBacked m' := by
  intro k x hx
  rw [hm.disk]
  by_cases hk : k = e
  · subst hk
    rw [hm.cached] at hx
    exact Option.some.inj hx ▸ hent
  · have hb := h k x (hm.other k x hk hx)
    exact ⟨by rw [hd k hk]; exact hb.accepted, by rw [hd k hk]; exact hb.promised⟩

theorem backed_saved (d : Nat → Option Entry) (e : Nat) (ent : Entry) :
    Backed (saved d true e ent) e ent :=
  backed_of_stored (y := ent) (by simp) rfl (.inl rfl)

/-- Dropping the promise keeps an entry backed, saved or not. -/
theorem backed_cleared {d : Nat → Option Entry} {e : Nat} {ent : Entry} (h : Backed d e ent)
    (ok : Bool) :
    Backed (saved d ok e { ent with promised := none }) e { ent with promised := none } := by
  cases ok with
  | true => exact backed_saved d e _
  | false => exact ⟨h.accepted, fun p hp => by cases hp⟩

/-- One request that does not make `SetPromised` or `SetAccepted` fail. -/
theorem Served.allBacked {m : EntryMng} {saves : Saves} {msg : PaxosMsg} {h : Handled}
    (hs : Served m saves msg.pp msg.type h) (hb : AllBacked m)
    (hv : saves.set = false → VotesSettled m) (hok : ¬ SetFails m saves msg) : AllBacked h.mng := by
  have ho := backed_opened hb msg.pp.pentry
  generalize ht : msg.type = t at hs
  cases hs with
  | prepare hd =>
    cases hd with
    | behind _ hm _ => rw [hm]; exact hb
    | voted _ _ _ hm _ => exact hb.acts hm (fun _ _ => rfl) ho
    | kept _ _ _ _ _ hm _ => exact hb.acts hm (fun _ _ => rfl) ho
    | probed _ _ _ _ hm _ => exact hb.acts hm (fun _ _ => rfl) ho
    | promised _ _ _ _ _ hm _ => exact hb.acts hm (fun _ hk => saved_ne hk) (backed_saved _ _ _)
    | failed hbh ha hp hpos hs _ _ => exact absurd ⟨hs, .inl ⟨ht, hbh, ha, hp, hpos⟩⟩ hok
  | accept hd =>
    cases hd with
    | behind _ hm _ => rw [hm]; exact hb
    | repeated _ _ _ hm _ => exact hb.acts hm (fun _ hk => saved_ne hk) (backed_cleared ho _)
    | accepted _ _ _ hm _ =>
      exact hb.acts hm (fun _ hk => (saved_ne hk).trans (saved_ne hk))
        (backed_cleared (backed_saved _ _ _) _)
    | failed hbh ha hs _ _ => exact absurd ⟨hs, .inr ⟨ht, hbh, ha⟩⟩ hok
    | refused _ _ _ _ _ _ hm _ => exact hb.acts hm (fun _ _ => rfl) ho
  | chosen hd =>
    cases hd with
    | mismatch _ hm _ => exact hb.acts hm (fun _ _ => rfl) ho
    | already _ _ _ _ _ hm _ => exact hb.acts hm (fun _ _ => rfl) ho
    | chosen _ _ _ _ _ _ hm _ => exact hb.acts hm (fun _ hk => saved_ne hk) (backed_saved _ _ _)
    | failed a ha _ _ hst hs hm _ =>
      -- the status set back is the one the proposal had
      have hacc : a.status = .accepted := (hv hs _ _ (heldAccepted_opened ha)).resolve_left hst
      refine hb.acts hm (fun _ _ => rfl) ⟨fun p hp => ?_, ho.promised⟩
      refine ho.accepted p (ha.trans ?_)
      rw [← Option.some.inj hp, ← hacc]

theorem allBacked_new (cfg : Configure) (i : Nat) :
    AllBacked (EntryMng.new cfg i fun _ => none) := by
  intro k x hx
  exact absurd (.inl hx) new_empty

theorem setsSaved_inv {cfg : Configure} {a : Acceptor}
    (h : ((acceptorSys cfg).restrict (SetsSaved cfg)).Reachable a) (i : Nat) :
    0 < (a.mngs i).entries.maxSize ∧ AllBacked (a.mngs i) ∧ VotesSettled (a.mngs i) := by
  refine acceptor_invariant (I := fun _ m => AllBacked m ∧ VotesSettled m)
    (fun i => ⟨allBacked_new cfg i, votesSettled_new cfg i⟩) ?_ ?_ a h i
  · intro a a' msg saves h hI hok hs
    obtain ⟨msg', saves', he, hok⟩ := hok
    cases he
    obtain ⟨_, hb, hv⟩ := hI (cfg.mngOf msg.pp.pinst)
    exact ⟨hs.allBacked hb (fun _ => hv) hok, hs.votesSettled hv⟩
  · intro a a' i batch lastCommitted fuel m _ hok
    obtain ⟨_, _, he, _⟩ := hok
    cases he

/-! ## The responses -/

section

variable {m : EntryMng} {req rsp : PaxosMsg} {stored : Option Entry}

theorem acknowledged_of_status (h : rsp.pp.status ≠ .promised ∧ rsp.pp.status ≠ .accepted ∧
    rsp.pp.status ≠ .chosen ∧ rsp.pp.status ≠ .alreadyChosen) : Acknowledged m req rsp stored :=
  ⟨fun hs => absurd hs h.1, fun hs => absurd hs h.2.1, fun hs => absurd hs (not_or.mpr h.2.2)⟩

theorem acknowledged_promise {p : Proposal} {x : Entry} (hs : rsp.pp.status = .promised)
    (h : req.pp.pid ≠ 0 → stored = some x ∧ x.promised = some p ∧ CarriesProposal rsp.pp p) :
    Acknowledged m req rsp stored where
  promise _ _ hne := ⟨x, (h hne).1, .inl ⟨p, (h hne).2⟩⟩
  vote h := by rw [hs] at h; cases h
  mark h := by rw [hs] at h; simp at h

theorem acknowledged_vote {a : Proposal} (hs : rsp.pp.status = .accepted)
    (h : ∃ x, stored = some x ∧ x.accepted = some a)
    (ha : req.type = .prepareReq ∧ CarriesProposal rsp.pp a ∨ req.type = .acceptReq ∧ a = asAccepted req.pp) :
    Acknowledged m req rsp stored where
  promise h := by rw [hs] at h; cases h
  vote _ := h.elim fun x hx => ⟨x, a, hx.1, hx.2, ha⟩
  mark h := by rw [hs] at h; simp at h

theorem acknowledged_mark {a : Proposal} (hs : rsp.pp.status = .chosen ∨ rsp.pp.status = .alreadyChosen)
    (h : ∃ x, stored = some x ∧ x.accepted = some { a with status := .chosen })
    (ha : (m.opened req.pp.pentry).accepted = some a) (hp : a.pid = rsp.pp.pid)
    (hv : a.valueId = rsp.pp.valueId) : Acknowledged m req rsp stored where
  promise h := by rw [h] at hs; simp at hs
  vote h := by rw [h] at hs; simp at hs
  mark _ := h.elim fun x hx => ⟨x, a, hx.1, hx.2, ha, hp, hv⟩

end

theorem carriesProposal_prepareRsp (m : EntryMng) (e : Int) (p : Proposal) (st : PaxosState) :
    CarriesProposal (prepareRsp m e p.size p st).pp p := rfl

theorem carriesProposal_asPromised (m : EntryMng) (e : Int) (pp : Proposal) (st : PaxosState) :
    CarriesProposal (prepareRsp m e pp.size pp st).pp (asPromised pp) := by
  simp [CarriesProposal, asPromised, cloneProposal, prepareRsp, List.take_take]

theorem Served.acknowledged {m : EntryMng} {saves : Saves} {req : PaxosMsg} {h : Handled}
    (hs : Served m saves req.pp req.type h) (hb : AllBacked m) (hok : h.rsp.errcode = ErrCode.ok) :
    Acknowledged m req h.rsp (h.mng.disk req.pp.pentry) := by
  have ho := backed_opened hb req.pp.pentry
  generalize ht : req.type = t at hs
  cases hs with
  | prepare hd =>
    cases hd with
    | behind _ _ hr => rw [hr] at hok; simp at hok
    | voted a _ ha hm hr =>
      rw [hm.disk]
      exact acknowledged_vote (by simp [hr]) (ho.accepted a ha) (.inl ⟨ht, hr ▸ carriesProposal_prepareRsp ..⟩)
    | kept pr _ _ hp _ hm hr =>
      obtain ⟨y, hy, hyp⟩ := ho.promised pr hp
      rw [hm.disk]
      exact acknowledged_promise (by simp [hr]) fun _ => ⟨hy, hyp, hr ▸ carriesProposal_prepareRsp ..⟩
    | probed _ _ _ h0 _ hr =>
      exact acknowledged_promise (x := m.opened req.pp.pentry) (p := req.pp) (by simp [hr])
        fun hne => absurd h0 hne
    | promised _ _ _ _ _ hm hr =>
      rw [hm.disk]
      exact acknowledged_promise (by simp [hr])
        fun _ => ⟨Function.update_self _ _ _, rfl, hr ▸ carriesProposal_asPromised ..⟩
    | failed _ _ _ _ _ _ hr => rw [hr] at hok; simp at hok
  | accept hd =>
    cases hd with
    | behind _ _ hr => rw [hr] at hok; simp at hok
    | repeated _ _ _ _ hr => rw [hr] at hok; simp at hok
    | accepted _ _ _ hm hr =>
      have hb' := backed_cleared (backed_saved m.disk req.pp.pentry
        { m.opened req.pp.pentry with accepted := some (asAccepted req.pp) }) saves.clear
      rw [hm.disk]
      exact acknowledged_vote (by simp [hr]) (hb'.accepted _ rfl) (.inr ⟨ht, rfl⟩)
    | failed _ _ _ _ hr => rw [hr] at hok; simp at hok
    | refused _ _ _ _ _ _ _ hr => exact acknowledged_of_status (by simp [hr])
  | chosen hd =>
    cases hd with
    | mismatch _ _ hr => rw [hr] at hok; simp at hok
    | already a ha hpid hvid hst hm hr =>
      rw [hm.disk]
      refine acknowledged_mark (a := a) (by simp [hr]) ?_ ha (by simp [hr, hpid]) (by simp [hr, hvid])
      rw [show ({ a with status := .chosen } : Proposal) = a by rw [← hst]]
      exact ho.accepted a ha
    | chosen a ha hpid hvid _ _ hm hr =>
      rw [hm.disk]
      exact acknowledged_mark (by simp [hr]) ⟨_, Function.update_self _ _ _, rfl⟩ ha (by simp [hr, hpid])
        (by simp [hr, hvid])
    | failed _ _ _ _ _ _ _ hr => rw [hr] at hok; simp at hok

/-- In a run in which no save of `SetPromised` or `SetAccepted` fails every
acknowledgement is backed by the storage. -/
theorem acknowledged_of_setsSaved {cfg : Configure} {a : Acceptor} (msg : PaxosMsg) (saves : Saves)
    (h : ((acceptorSys cfg).restrict (SetsSaved cfg)).Reachable a) :
    AcksStored cfg a msg saves := by
  obtain ⟨hpos, hb, _⟩ := setsSaved_inv h (cfg.mngOf msg.pp.pinst)
  intro rsp hrsp hok
  rcases doHandleMsg_cases cfg a saves msg hpos with ⟨_, hn⟩ | ⟨hd, rt, hs, hm, hr⟩
  · simp only [Acceptor.doHandleMsg, hn] at hrsp
    split at hrsp
    · cases hrsp
    · obtain rfl := Option.some.inj hrsp
      exact acknowledged_of_status (by simp [allocProposal])
  · rw [hr] at hrsp
    obtain rfl := Option.some.inj hrsp
    rw [hm, Function.update_self]
    have hack := hs.acknowledged hb hok
    exact ⟨hack.promise, hack.vote, hack.mark⟩

/-! Entry 1 is accepted without its promise being dropped, and the save of its mark fails. -/

def unmarkedOps : List AcceptorOp :=
  [.request (requestOf .prepareReq 5 7 1 []) Saves.good, .request (requestOf .acceptReq 5 7 1 [1]) ⟨true, false⟩,
    .request (requestOf .chosenReq 5 7 1 []) ⟨false, true⟩]

/-- A CHOSEN, or a request whose sets are saved. -/
def savesSets : AcceptorOp → Bool
  | .request msg saves => msg.type == .chosenReq || saves.set
  | _ => false

theorem savesSets_sound {cfg : Configure} {a a' : Acceptor} {op : AcceptorOp} (h : savesSets op = true) :
    SetsSaved cfg a op a' := by
  cases op with
  | request msg saves =>
    refine ⟨msg, saves, rfl, fun ⟨hfail, hkind⟩ => ?_⟩
    rw [savesSets, hfail, Bool.or_false, beq_iff_eq] at h
    rw [h] at hkind
    rcases hkind with ⟨ht, -⟩ | ⟨ht, -⟩ <;> cases ht
  | _ => cases h

def unmarked? : Option Acceptor :=
  LTS.exec (fun a op => (Acceptor.step (Configure.init 0) a op).filter fun _ => savesSets op)
    (Acceptor.new (Configure.init 0) fun _ _ => none) unmarkedOps

theorem unmarked_some : unmarked?.isSome = true := by decide +kernel

def unmarked : Acceptor := unmarked?.get unmarked_some

/-- The CHOSEN sent again is answered CHOSEN. -/
theorem acknowledged_unmarked :
    let msg := requestOf .chosenReq 5 7 1 []
    ((unmarked.doHandleMsg (Configure.init 0) Saves.good msg).1.map fun rsp => (rsp.errcode, rsp.pp.status)) =
        some (ErrCode.ok, .chosen) ∧ AcksStored (Configure.init 0) unmarked msg Saves.good := by
  refine ⟨by decide +kernel, acknowledged_of_setsSaved _ _ ⟨_, unmarkedOps, rfl, ?_⟩⟩
  exact LTS.run_of_guarded (g := fun _ op _ => savesSets op) (fun _ _ _ _ => savesSets_sound)
    (show _ = some unmarked from (Option.some_get unmarked_some).symm)

/-- A PREPARE whose save fails leaves its promise in memory; sent again, it is
answered PROMISED from there while nothing is stored. -/
theorem not_acknowledgedAlways :
    ¬ ∀ (cfg : Configure) (a : Acceptor) (msg : PaxosMsg) (saves : Saves),
      ((acceptorSys cfg).restrict RequestsOnly).Reachable a → AcksStored cfg a msg saves := by
  intro hall
  let msg := requestOf .prepareReq 5 7 1 []
  let a₀ := Acceptor.new (Configure.init 0) fun _ _ => none
  have hstep : ((acceptorSys (Configure.init 0)).restrict RequestsOnly).step a₀
      (.request msg ⟨false, true⟩) (a₀.doHandleMsg (Configure.init 0) ⟨false, true⟩ msg).2 :=
    ⟨rfl, msg, _, rfl⟩
  have hack :=
    hall (Configure.init 0) _ msg Saves.good (LTS.Reachable.step (.of_init rfl) hstep) _ rfl rfl
  obtain ⟨x, hx, _⟩ := hack.promise rfl rfl (by decide)
  exact Option.some_ne_none x hx.symm

end Quarrel
