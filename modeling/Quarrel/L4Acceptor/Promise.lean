import Quarrel.L4Acceptor.Run

/-!
# The promise of a PREPARE

A PREPARE of id `p` answered OK with an id up to `p` should keep every later
ACCEPT below `p` out. Where the entry holds no vote the handler records the
promise. Where it holds one, the handler answers with that vote and records
nothing, so an ACCEPT between the vote's id and `p` still renews it.

* `Served.entryStep`: what a request does to its entry, in the cache and in the storage.
* `step_keeps`: what every step of an entry keeps survives a step of the acceptor.
* `Guarded`: the entry refuses every ACCEPT below `p`, and keeps doing so
  (`EntryStep.guarded`, `run_guarded`).
* `promise_kept_iff`: the answer is a promise exactly when the entry holds no
  vote `q`, not yet chosen, with an id left between `q` and `p`.
* `not_promiseKept`: a vote of id 1, PREPARE 5, ACCEPT 2.
-/
namespace Quarrel

open EntryMng

/-- Requests whose saves succeed, and entry `e` of manager `i` is not evicted. -/
def KeepsEntry (i e : Nat) (a : Acceptor) (op : AcceptorOp) (a' : Acceptor) : Prop :=
  (∃ msg, op = .request msg Saves.good) ∧
    ((a.mngs i).cached e ≠ none → (a'.mngs i).cached e ≠ none)

/-- The cached entry refuses every ACCEPT of an id below `p`. -/
def Guarded (p e : Nat) (m : EntryMng) : Prop :=
  ∃ x, m.cached e = some x ∧
    ((∃ a, x.accepted = some a ∧ (a.status = .chosen ∨ p ≤ a.pid + 1)) ∨
      (x.accepted = none ∧ ∃ pr, x.promised = some pr ∧ p ≤ pr.pid))

/-- Handling the ACCEPT leaves the accepted proposal of its entry as it is. -/
def VoteKept (cfg : Configure) (a : Acceptor) (msg : PaxosMsg) : Prop :=
  (((a.doHandleMsg cfg Saves.good msg).2.mngs (cfg.mngOf msg.pp.pinst)).opened msg.pp.pentry).accepted =
    ((a.mngs (cfg.mngOf msg.pp.pinst)).opened msg.pp.pentry).accepted

/-- No ACCEPT below the PREPARE's id that reaches its entry in any later run changes the vote. -/
def PromiseKept (cfg : Configure) (a : Acceptor) (msg : PaxosMsg) : Prop :=
  ∀ ops a' acc, ((acceptorSys cfg).restrict (KeepsEntry (cfg.mngOf msg.pp.pinst) msg.pp.pentry)).Run
      (a.doHandleMsg cfg Saves.good msg).2 ops a' →
    acc.type = .acceptReq → cfg.mngOf acc.pp.pinst = cfg.mngOf msg.pp.pinst →
    acc.pp.pentry = msg.pp.pentry → acc.pp.pid < msg.pp.pid → VoteKept cfg a' acc

/-! ## What a request does to its entry -/

/-- A request whose saves succeed turns the entry it opened into another one. -/
inductive EntryStep (x : Entry) (pp : Proposal) : Entry → Prop
  | same : EntryStep x pp x
  | promised (ha : x.accepted = none) (hp : ∀ pr, x.promised = some pr → pr.pid < pp.pid) :
      EntryStep x pp { x with promised := some (asPromised pp) }
  | cleared (a : Proposal) (ha : x.accepted = some a) : EntryStep x pp { x with promised := none }
  | accepted (ha : x.Admits pp) :
      EntryStep x pp { x with accepted := some (asAccepted pp), promised := none }
  | chosen (a : Proposal) (ha : x.accepted = some a) :
      EntryStep x pp { x with accepted := some { a with status := .chosen } }

/-- The early exit, or the entry is opened, changed and saved. -/
theorem Served.entryStep {m : EntryMng} {pp : Proposal} {t : PaxosMsgType} {h : Handled}
    (hs : Served m Saves.good pp t h) :
    h.mng = m ∨ ∃ x, h.mng.cached pp.pentry = some x ∧ EntryStep (m.opened pp.pentry) pp x ∧
      (h.mng.disk pp.pentry = some x ∨
        (h.mng.disk pp.pentry = m.disk pp.pentry ∧ x = m.opened pp.pentry)) := by
  have hopen : ∀ lc, Acts m h.mng pp.pentry (m.opened pp.pentry) m.disk lc →
      ∃ x, h.mng.cached pp.pentry = some x ∧ EntryStep (m.opened pp.pentry) pp x ∧
        (h.mng.disk pp.pentry = some x ∨
          (h.mng.disk pp.pentry = m.disk pp.pentry ∧ x = m.opened pp.pentry)) :=
    fun lc hm => ⟨_, hm.cached, .same, .inr ⟨by rw [hm.disk], rfl⟩⟩
  have hsave : ∀ x d lc, Acts m h.mng pp.pentry x (saved d true pp.pentry x) lc →
      EntryStep (m.opened pp.pentry) pp x →
      ∃ x, h.mng.cached pp.pentry = some x ∧ EntryStep (m.opened pp.pentry) pp x ∧
        (h.mng.disk pp.pentry = some x ∨
          (h.mng.disk pp.pentry = m.disk pp.pentry ∧ x = m.opened pp.pentry)) :=
    fun x d lc hm he => ⟨x, hm.cached, he, .inl (by rw [hm.disk, saved_true, Function.update_self])⟩
  cases hs with
  | prepare hd =>
    cases hd with
    | behind _ hm _ => exact .inl hm
    | voted _ _ _ hm _ => exact .inr (hopen _ hm)
    | kept _ _ _ _ _ hm _ => exact .inr (hopen _ hm)
    | probed _ _ _ _ hm _ => exact .inr (hopen _ hm)
    | promised _ ha hp _ _ hm _ => exact .inr (hsave _ _ _ hm (.promised ha hp))
    | failed _ _ _ _ hs _ _ => cases hs
  | accept hd =>
    cases hd with
    | behind _ hm _ => exact .inl hm
    | repeated a _ ha hm _ => exact .inr (hsave _ _ _ hm (.cleared a ha.1))
    | accepted _ ha _ hm _ => exact .inr (hsave _ _ _ hm (.accepted ha))
    | failed _ _ hs _ _ => cases hs
    | refused _ _ _ _ _ _ hm _ => exact .inr (hopen _ hm)
  | chosen hd =>
    cases hd with
    | mismatch _ hm _ => exact .inr (hopen _ hm)
    | already _ _ _ _ _ hm _ => exact .inr (hopen _ hm)
    | chosen a ha _ _ _ _ hm _ => exact .inr (hsave _ _ _ hm (.chosen a ha))
    | failed _ _ _ _ _ hs _ _ => cases hs

/-- What is stored for the entry is what the cache holds. -/
def Synced (m : EntryMng) (e : Nat) : Prop := ∀ x, m.disk e = some x → m.cached e = some x

section

variable {m : EntryMng} {pp : Proposal} {t : PaxosMsgType} {h : Handled}

/-- What a step of an entry keeps survives a request for it. -/
theorem Served.keeps (hs : Served m Saves.good pp t h) {P : Entry → Prop}
    (hP : ∀ x x', EntryStep x pp x' → P x → P x') (hx : ∃ x, m.cached pp.pentry = some x ∧ P x) :
    ∃ x, h.mng.cached pp.pentry = some x ∧ P x := by
  obtain ⟨x, hx, hPx⟩ := hx
  rcases hs.entryStep with he | ⟨x', hx', hst, _⟩
  · rw [he]
    exact ⟨x, hx, hPx⟩
  · rw [opened_of_cached hx] at hst
    exact ⟨x', hx', hP x x' hst hPx⟩

theorem Served.synced (hs : Served m Saves.good pp t h) (hm : Synced m pp.pentry) :
    Synced h.mng pp.pentry := by
  intro x hx
  rcases hs.entryStep with he | ⟨x', hx', _, hd | ⟨hd, rfl⟩⟩
  · rw [he] at hx ⊢
    exact hm x hx
  · rw [hd] at hx
    rw [hx', hx]
  · rw [hd] at hx
    rw [hx', opened_of_cached (hm x hx)]

end

/-! ## A guarded entry -/

/-- A guarded entry has no room for an ACCEPT below `p`. -/
theorem Guarded.not_admits {m : EntryMng} {pp : Proposal} {p : Nat} (h : Guarded p pp.pentry m)
    (hlt : pp.pid < p) : ¬ (m.opened pp.pentry).Admits pp := by
  obtain ⟨x, hx, hg⟩ := h
  rw [opened_of_cached hx]
  intro hadm
  rcases hg with ⟨a, ha, hg⟩ | ⟨ha, pr, hpr, hle⟩
  · obtain ⟨hs, hpid⟩ := hadm.over ha
    rcases hg with hc | hle
    · rw [hc] at hs; cases hs
    · omega
  · have := hadm.under ha hpr
    omega

/-- No step of an entry lets an ACCEPT below `p` in. -/
theorem EntryStep.guarded {x x' : Entry} {pp : Proposal} {p : Nat} (hstep : EntryStep x pp x')
    (hg : (∃ a, x.accepted = some a ∧ (a.status = .chosen ∨ p ≤ a.pid + 1)) ∨
      (x.accepted = none ∧ ∃ pr, x.promised = some pr ∧ p ≤ pr.pid)) :
    (∃ a, x'.accepted = some a ∧ (a.status = .chosen ∨ p ≤ a.pid + 1)) ∨
      (x'.accepted = none ∧ ∃ pr, x'.promised = some pr ∧ p ≤ pr.pid) := by
  cases hstep with
  | same => exact hg
  | promised ha hp =>
    refine .inr ⟨ha, asPromised pp, rfl, ?_⟩
    rcases hg with ⟨a, hxa, _⟩ | ⟨_, pr, hpr, hle⟩
    · rw [ha] at hxa; cases hxa
    · have := hp pr hpr
      rw [asPromised_pid]
      omega
  | cleared a ha =>
    rcases hg with hga | ⟨hxa, _⟩
    · exact .inl hga
    · rw [ha] at hxa; cases hxa
  | accepted ha =>
    refine .inl ⟨asAccepted pp, rfl, .inr ?_⟩
    rw [asAccepted_pid]
    rcases hg with ⟨a, hxa, hga⟩ | ⟨hxa, pr, hpr, hle⟩
    · obtain ⟨hs, hlt⟩ := ha.over hxa
      rcases hga with hc | hle
      · rw [hc] at hs; cases hs
      · omega
    · have := ha.under hxa hpr
      omega
  | chosen a ha => exact .inl ⟨_, rfl, .inl rfl⟩

section

variable {cfg : Configure} {i e p : Nat} {a a' : Acceptor}

/-- What every step of an entry keeps survives the step of the acceptor, whichever
entry it is for. -/
theorem step_keeps {op : AcceptorOp} {P : Entry → Prop}
    (hP : ∀ x pp x', EntryStep x pp x' → P x → P x')
    (hpos : ∀ i, 0 < (a.mngs i).entries.maxSize) (hst : a.step cfg op = some a')
    (hkeep : KeepsEntry i e a op a')
    (hx : ∃ x, (a.mngs i).cached e = some x ∧ P x) : ∃ x, (a'.mngs i).cached e = some x ∧ P x := by
  obtain ⟨⟨msg, rfl⟩, hkeep⟩ := hkeep
  obtain rfl := Option.some.inj hst
  rcases doHandleMsg_cases cfg a Saves.good msg (hpos _) with ⟨he, _⟩ | ⟨h, rt, hsv, hm, _⟩
  · rw [he]; exact hx
  · rw [hm, Function.update_apply] at hkeep ⊢
    split
    · rename_i hi
      subst hi
      by_cases hke : e = msg.pp.pentry
      · subst hke
        exact hsv.keeps (fun x x' hst => hP x msg.pp x' hst) hx
      · obtain ⟨x, hx, hPx⟩ := hx
        rw [if_pos rfl] at hkeep
        exact ⟨x, (hsv.unevicted hke hkeep).trans hx, hPx⟩
    · exact hx

theorem step_guarded {op : AcceptorOp} (hpos : ∀ i, 0 < (a.mngs i).entries.maxSize)
    (hs : ((acceptorSys cfg).restrict (KeepsEntry i e)).step a op a')
    (hg : Guarded p e (a.mngs i)) :
    Guarded p e (a'.mngs i) :=
  step_keeps (fun _ _ _ hstep => hstep.guarded) hpos hs.1 hs.2 hg

theorem keepsEntry_cap (h : ((acceptorSys cfg).restrict (KeepsEntry i e)).Reachable a) (j : Nat) :
    0 < (a.mngs j).entries.maxSize ∧ VotesSettled (a.mngs j) :=
  votesSettled_reachable (fun _ _ _ _ _ _ hok => by obtain ⟨⟨msg, hm⟩, _⟩ := hok; cases hm) h j

theorem run_guarded {ops : List AcceptorOp}
    (h : ((acceptorSys cfg).restrict (KeepsEntry i e)).Reachable a)
    (hr : ((acceptorSys cfg).restrict (KeepsEntry i e)).Run a ops a')
    (hg : Guarded p e (a.mngs i)) :
    Guarded p e (a'.mngs i) := by
  induction hr with
  | nil => exact hg
  | cons hs _ ih => exact ih (h.step hs) (step_guarded (fun j => (keepsEntry_cap h j).1) hs hg)

end

/-- On a guarded entry an ACCEPT below `p` changes no vote. -/
theorem Guarded.voteKept {cfg : Configure} {a : Acceptor} {acc : PaxosMsg} {p : Nat}
    (hpos : 0 < (a.mngs (cfg.mngOf acc.pp.pinst)).entries.maxSize) (ht : acc.type = .acceptReq)
    (hg : Guarded p acc.pp.pentry (a.mngs (cfg.mngOf acc.pp.pinst))) (hlt : acc.pp.pid < p) :
    VoteKept cfg a acc := by
  unfold VoteKept
  rcases doHandleMsg_cases cfg a Saves.good acc hpos with ⟨he, _⟩ | ⟨h, rt, hsv, hm, _⟩
  · rw [he]
  · rw [hm, Function.update_self]
    rw [ht] at hsv
    cases hsv with
    | accept hd =>
      cases hd with
      | behind _ hm _ => rw [hm]
      | repeated _ _ _ hm _ => rw [opened_of_cached hm.cached]
      | accepted _ ha => exact absurd ha (hg.not_admits hlt)
      | failed _ ha => exact absurd ha (hg.not_admits hlt)
      | refused _ _ _ _ _ _ hm _ => rw [opened_of_cached hm.cached]

/-! ## The answer to a PREPARE -/

/-- The vote of the entry leaves an id between its own and `p`. -/
def VoteBelow (m : EntryMng) (e p : Nat) : Prop :=
  ∃ q, (m.opened e).accepted = some q ∧ q.status ≠ .chosen ∧ q.pid + 1 < p

/-- A PREPARE answered OK with an id up to its own guards the entry, unless a vote is below it. -/
theorem Served.guards {m : EntryMng} {pp : Proposal} {h : Handled}
    (hs : Served m Saves.good pp .prepareReq h)
    (hp : 0 < pp.pid) (hok : h.rsp.errcode = ErrCode.ok) (hv : ¬ VoteBelow m pp.pentry pp.pid) :
    Guarded pp.pid pp.pentry h.mng := by
  cases hs with
  | prepare hd =>
    cases hd with
    | behind _ _ hr => rw [hr] at hok; simp at hok
    | voted a _ ha hm _ =>
      refine ⟨_, hm.cached, .inl ⟨a, ha, ?_⟩⟩
      by_contra hg
      rw [not_or] at hg
      exact hv ⟨a, ha, hg.1, by omega⟩
    | kept pr _ ha hpr hle hm _ => exact ⟨_, hm.cached, .inr ⟨ha, pr, hpr, hle⟩⟩
    | probed _ _ _ h0 => omega
    | promised _ ha _ _ _ hm _ => exact ⟨_, hm.cached, .inr ⟨ha, asPromised pp, rfl, Nat.le_refl _⟩⟩
    | failed _ _ _ _ _ _ hr => rw [hr] at hok; simp at hok

/-- The ACCEPT with the id after the vote's. -/
def renewing (msg : PaxosMsg) (q : Proposal) : PaxosMsg :=
  { msg with type := .acceptReq, pp := { msg.pp with pid := q.pid + 1 } }

/-- A vote below `p` is renewed by the ACCEPT with the next id. -/
theorem vote_renewed {cfg : Configure} {a : Acceptor} {msg rsp : PaxosMsg} {q : Proposal}
    (hpos : ∀ i, 0 < (a.mngs i).entries.maxSize) (hvs : ∀ i, VotesSettled (a.mngs i))
    (ht : msg.type = .prepareReq) (hrsp : (a.doHandleMsg cfg Saves.good msg).1 = some rsp)
    (hok : rsp.errcode = ErrCode.ok)
    (hq : ((a.mngs (cfg.mngOf msg.pp.pinst)).opened msg.pp.pentry).accepted = some q)
    (hst : q.status ≠ .chosen) :
    ¬ VoteKept cfg (a.doHandleMsg cfg Saves.good msg).2 (renewing msg q) := by
  have hacc : q.status = .accepted := (hvs _ _ _ (heldAccepted_opened hq)).resolve_left hst
  rcases doHandleMsg_cases cfg a Saves.good msg (hpos _) with ⟨_, hn⟩ | ⟨h, rt, hsv, hm, hr⟩
  · rw [ht] at hn; cases hn
  rw [hr] at hrsp
  obtain rfl := Option.some.inj hrsp
  rw [ht] at hsv
  -- the PREPARE was answered with the vote and left the entry alone
  have hacts : ¬ Behind (a.mngs (cfg.mngOf msg.pp.pinst)) msg.pp ∧
      Acts (a.mngs (cfg.mngOf msg.pp.pinst)) h.mng msg.pp.pentry
        ((a.mngs (cfg.mngOf msg.pp.pinst)).opened msg.pp.pentry)
        (a.mngs (cfg.mngOf msg.pp.pinst)).disk (a.mngs (cfg.mngOf msg.pp.pinst)).lastChosenEntry := by
    cases hsv with
    | prepare hd =>
      cases hd with
      | behind _ _ hr => rw [hr] at hok; simp at hok
      | voted _ hb _ hm _ => exact ⟨hb, hm⟩
      | kept _ _ ha | probed _ ha | promised _ ha | failed _ ha => rw [hq] at ha; cases ha
  obtain ⟨hb, hacts⟩ := hacts
  have hmng : ((a.doHandleMsg cfg Saves.good msg).2.mngs (cfg.mngOf msg.pp.pinst)) = h.mng := by
    rw [hm, Function.update_self]
  have hopen : h.mng.opened msg.pp.pentry = (a.mngs (cfg.mngOf msg.pp.pinst)).opened msg.pp.pentry :=
    opened_of_cached hacts.cached
  have hadm : (h.mng.opened msg.pp.pentry).Admits (renewing msg q).pp := by
    unfold Entry.Admits
    rw [hopen, hq]
    exact ⟨hacc, Nat.lt_succ_self _⟩
  have hpos' : 0 < ((a.doHandleMsg cfg Saves.good msg).2.mngs
      (cfg.mngOf (renewing msg q).pp.pinst)).entries.maxSize := by
    show 0 < ((a.doHandleMsg cfg Saves.good msg).2.mngs (cfg.mngOf msg.pp.pinst)).entries.maxSize
    rw [hmng, hacts.cap]
    exact hpos _
  unfold VoteKept
  rcases doHandleMsg_cases cfg _ Saves.good (renewing msg q) hpos'
      with ⟨_, hn⟩ | ⟨h', rt', hsv', hm', _⟩
  · cases hn
  rw [hm', Function.update_self]
  show ¬ (h'.mng.opened msg.pp.pentry).accepted =
    (((a.doHandleMsg cfg Saves.good msg).2.mngs (cfg.mngOf msg.pp.pinst)).opened msg.pp.pentry).accepted
  have hsv'' : Served h.mng Saves.good (renewing msg q).pp .acceptReq h' := by
    rw [← hmng]; exact hsv'
  rw [hmng, hopen, hq]
  cases hsv'' with
  | accept hd =>
    cases hd with
    | behind hb' _ _ =>
      refine absurd ?_ hb
      unfold Behind at hb' ⊢
      rw [hacts.lastChosen] at hb'
      exact hb'
    | repeated b _ ha _ _ =>
      have h1 := ha.1
      have h2 : b.pid = q.pid + 1 := ha.2.2.1
      rw [show (renewing msg q).pp.pentry = msg.pp.pentry from rfl, hopen, hq] at h1
      rw [← Option.some.inj h1] at h2
      omega
    | accepted _ _ _ hm'' _ =>
      rw [opened_of_cached (e := msg.pp.pentry) hm''.cached]
      intro he
      have := congrArg (Option.map Proposal.pid) he
      simp [renewing] at this
    | failed _ _ hs _ _ => cases hs
    | refused _ _ _ hna => exact absurd hadm hna

/-- A PREPARE answered OK with an id up to its own keeps every later ACCEPT below
it out if and only if the entry held no vote with an id left below the PREPARE's. -/
theorem promise_kept_iff {cfg : Configure} {a : Acceptor} {msg rsp : PaxosMsg}
    (h : ((acceptorSys cfg).restrict
      (KeepsEntry (cfg.mngOf msg.pp.pinst) msg.pp.pentry)).Reachable a)
    (ht : msg.type = .prepareReq) (hp : 0 < msg.pp.pid)
    (hrsp : (a.doHandleMsg cfg Saves.good msg).1 = some rsp) (hok : rsp.errcode = ErrCode.ok) :
    PromiseKept cfg a msg ↔
      ¬ VoteBelow (a.mngs (cfg.mngOf msg.pp.pinst)) msg.pp.pentry msg.pp.pid := by
  have hinv := keepsEntry_cap h
  constructor
  · intro hkept hq
    obtain ⟨q, hq, hst, hlt⟩ := hq
    exact vote_renewed (fun i => (hinv i).1) (fun i => (hinv i).2) ht hrsp hok hq hst
      (hkept [] _ (renewing msg q) (.nil _) rfl rfl rfl hlt)
  · intro hv ops a' acc hrun hta hi he hlt
    rcases doHandleMsg_cases cfg a Saves.good msg (hinv _).1 with ⟨_, hn⟩ | ⟨hd, rt, hsv, hm, hr⟩
    · rw [ht] at hn; cases hn
    rw [hr] at hrsp
    obtain rfl := Option.some.inj hrsp
    rw [ht] at hsv
    have hg := hsv.guards hp hok hv
    have hmng : ((a.doHandleMsg cfg Saves.good msg).2.mngs (cfg.mngOf msg.pp.pinst)) = hd.mng := by
      rw [hm, Function.update_self]
    have hreach := h.step ⟨acceptorSys_request cfg a msg Saves.good, ⟨msg, rfl⟩, fun _ => by
        obtain ⟨x, hx, _⟩ := hg
        rw [hmng, hx]
        simp⟩
    have hg' := run_guarded hreach hrun (hmng ▸ hg)
    have hcap := keepsEntry_cap (hreach.run hrun)
    exact Guarded.voteKept (hcap _).1 hta (by rw [hi, he]; exact hg') hlt

theorem promise_kept_first :
    PromiseKept (Configure.init 0) votedFirst (requestOf .prepareReq 2 8 1 []) ↔
      ¬ VoteBelow (votedFirst.mngs 0) 1 2 :=
  promise_kept_iff (votedFirst_reachable ⟨⟨_, rfl⟩, fun h => absurd rfl h⟩) rfl (by decide) rfl rfl

/-- The entry holds a vote of id 1; PREPARE 5 is answered with it, and ACCEPT 2 renews it. -/
theorem not_promiseKept :
    ¬ ∀ (cfg : Configure) (a : Acceptor) (msg rsp : PaxosMsg),
      ((acceptorSys cfg).restrict
        (KeepsEntry (cfg.mngOf msg.pp.pinst) msg.pp.pentry)).Reachable a →
      msg.type = .prepareReq → 0 < msg.pp.pid → (a.doHandleMsg cfg Saves.good msg).1 = some rsp →
      rsp.errcode = ErrCode.ok → rsp.pp.pid ≤ msg.pp.pid → PromiseKept cfg a msg := by
  intro hall
  let msg := requestOf .prepareReq 5 8 1 []
  have hr : ((acceptorSys (Configure.init 0)).restrict (KeepsEntry 0 1)).Reachable votedFirst :=
    votedFirst_reachable ⟨⟨_, rfl⟩, fun h => absurd rfl h⟩
  have hkept := hall (Configure.init 0) votedFirst msg _ hr rfl (by decide) rfl rfl (by decide)
  have hno : ¬ VoteKept (Configure.init 0) (votedFirst.doHandleMsg (Configure.init 0) Saves.good msg).2
      (requestOf .acceptReq 2 9 1 [2]) := by
    unfold VoteKept
    decide +kernel
  exact hno (hkept [] _ _ (.nil _) rfl rfl rfl (by decide))

end Quarrel
