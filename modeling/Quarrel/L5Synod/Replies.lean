import Quarrel.L4Proposer.OneReply
import Quarrel.L5Synod.NoHoles

/-!
# What callers are told

A caller is told OK in the step that broadcasts the CHOSEN of its round, and one that is
told an error can be sure its value is never chosen by that round, however late the
acceptors answer. The converse fails: OK can also be told without a majority.

* `Tells`: what handling a response tells the caller, beside what it broadcasts.
* `replies`: the replies of a step, with their rounds.
* `replies_true`: of every reply, in every later state.
-/
namespace Quarrel

open InstanceState EntryMng

/-! ## One response -/

namespace InstanceState

/-- Whoever is told something is told at the end of the round, and told OK if it is chosen. -/
structure Tells (s s' : InstanceState) (outs : List Out) : Prop where
  ends : promisesSet outs ≠ [] → s.req ≠ none ∧ s'.req = none
  chosen : ∀ m ∈ broadcasts outs, m.type = .chosenReq → promisesSet outs = [(s.ret, ErrCode.ok)]

section

variable {cfg : Configure} {s s' s₁ : InstanceState} {q rsp : PaxosMsg} {ret : Int} {done : Bool}
  {outs : List Out}

theorem tells_of_silent (hset : promisesSet outs = [])
    (hb : ∀ m ∈ broadcasts outs, m.type ≠ .chosenReq) : Tells s s' outs :=
  ⟨fun h => absurd hset h, fun m hm ht => absurd ht (hb m hm)⟩

theorem prepareOut_tells (hreq : s.req ≠ none) (ho : (s', outs) = s₁.prepareOut ret done false) :
    Tells s s' outs := by
  have hb := prepareOut_broadcasts ho
  obtain ⟨rfl, rfl⟩ := Prod.mk.inj ho
  refine ⟨fun h => ⟨hreq, ?_⟩, fun m hm => ?_⟩
  · cases done with
    | true => rfl
    | false => exact absurd rfl h
  · rw [hb] at hm
    cases hm

theorem acceptOut_tells (hreq : s.req ≠ none) (ho : (s', outs) = s₁.acceptOut ret done) :
    Tells s s' outs := by
  have hb := acceptOut_broadcasts ho
  obtain ⟨rfl, rfl⟩ := Prod.mk.inj ho
  refine ⟨fun h => ⟨hreq, ?_⟩, fun m hm => ?_⟩
  · cases done with
    | true => rfl
    | false => exact absurd rfl h
  · rw [hb] at hm
    cases hm

theorem PrepareRspDone.tells (h : PrepareRspDone cfg s q rsp s' outs) (hq : s.req = some q)
    (hown : OwnAnswers s rsp) : Tells s s' outs := by
  have hreq : s.req ≠ none := by
    rw [hq]
    exact Option.some_ne_none q
  -- the caller's own value, or the assertion has failed
  have hmine : ValidPromise q rsp → (OtherValue q rsp → 0 < rsp.pp.size) →
      decide (OtherValue q rsp ∧ ¬ s.notified) = false := by
    intro hv hsz
    refine decide_eq_false fun ho => ?_
    have := hsz ho.1
    rw [hown q hq hv ho.1] at this
    exact Nat.lt_irrefl 0 this
  cases h with
  | wrongType => exact tells_of_silent rfl fun _ hm => by cases hm
  | refused _ _ _ _ _ _ _ _ ho => exact prepareOut_tells hreq ho
  | pending hv hsz _ ho => exact prepareOut_tells hreq (hmine hv hsz ▸ ho)
  | probed hv hsz _ _ _ ho => exact prepareOut_tells hreq (hmine hv hsz ▸ ho)
  | accepting m hv hsz _ _ _ _ _ ho =>
    rw [if_neg (of_decide_eq_false (hmine hv hsz))] at ho
    rw [ho]
    refine tells_of_silent rfl fun m' hm' ht => ?_
    obtain rfl := List.mem_singleton.mp hm'
    cases ht

theorem AcceptRspDone.tells (h : AcceptRspDone cfg s q rsp s' outs) (hq : s.req = some q)
    (hn : s.notified = false) : Tells s s' outs := by
  have hreq : s.req ≠ none := by
    rw [hq]
    exact Option.some_ne_none q
  cases h with
  | wrongType => exact tells_of_silent rfl fun _ hm => by cases hm
  | refused _ _ _ _ _ _ _ _ ho => exact acceptOut_tells hreq ho
  | pending _ _ ho => exact acceptOut_tells hreq ho
  | chosen _ _ hs ho =>
    rw [hn] at ho
    refine ⟨fun _ => ⟨hreq, by rw [hs]⟩, fun _ _ _ => ?_⟩
    rw [ho]
    rfl

theorem handleTimeout_tells (hreq : s.req ≠ none) : Tells s s.handleTimeout.1 s.handleTimeout.2 := by
  refine ⟨fun _ => ⟨hreq, rfl⟩, fun m hm => ?_⟩
  rw [(handleTimeout_kept s).2] at hm
  cases hm

end

end InstanceState

/-- What a response or a timeout tells the caller of the instance it is handled for. -/
theorem Proposer.handleRpcResponse_tells {cfg : Configure} {p p' : Proposer} {m : RpcResponseMsg}
    {outs : List Out} (h : p.handleRpcResponse cfg m = some (p', outs))
    (hn : ∀ j, (p j).req ≠ none → (p j).notified = false)
    (hown : ∀ rsp, m.msg = some rsp → OwnAnswers (p rsp.pp.pinst) rsp) :
    Tells (p (m.target cfg)) (p' (m.target cfg)) outs := by
  have hsilent : ∀ {s s' : InstanceState}, Tells s s' [] :=
    tells_of_silent rfl fun _ hm => by cases hm
  cases Proposer.handleRpcResponse_done h with
  | late | phaseless => exact hsilent
  | timeout haw hmsg =>
    have ht : m.target cfg = m.pinst % cfg.plogInstNum := by
      unfold RpcResponseMsg.target
      rw [hmsg]
    rw [ht, Function.update_self]
    exact handleTimeout_tells (Option.isSome_iff_ne_none.mp haw.2)
  | prepare rsp haw hmsg hph hs =>
    have ht : m.target cfg = rsp.pp.pinst := by
      unfold RpcResponseMsg.target
      rw [hmsg]
    rw [ht, Function.update_self]
    cases hq : (p rsp.pp.pinst).req with
    | none =>
      unfold handlePrepareRsp at hs
      rw [hq] at hs
      cases hs
      exact hsilent
    | some q => exact (handlePrepareRsp_done hq hs).tells hq (hown rsp hmsg)
  | accept rsp haw hmsg hph hs =>
    have ht : m.target cfg = rsp.pp.pinst := by
      unfold RpcResponseMsg.target
      rw [hmsg]
    rw [ht, Function.update_self]
    cases hq : (p rsp.pp.pinst).req with
    | none =>
      unfold handleAcceptRsp at hs
      rw [hq] at hs
      cases hs
      exact hsilent
    | some q =>
      exact (handleAcceptRsp_done hq hs).tells hq (hn _ (by rw [hq]; exact Option.some_ne_none q))

variable {cfg : Configure}

/-- The promise of the call that started round `round` of the instance is set to `code`. -/
structure Reply (cfg : Configure) where
  src : Fin cfg.totalProposer
  inst : Nat
  round : Nat
  code : Int
  deriving DecidableEq

namespace Synod

/-- Round `r` of instance `i` of proposer `k` is over. -/
def Over (s : Synod cfg) (k : Fin cfg.totalProposer) (i r : Nat) : Prop :=
  r < (s.props k i).term ∨ (s.props k i).req = none

/-- The round has broadcast a CHOSEN. -/
def Committed (s : Synod cfg) (k : Fin cfg.totalProposer) (i r : Nat) : Prop :=
  ∃ c ∈ s.bcasts, c.msg.type = .chosenReq ∧ c.Of k i ∧ c.round = r

def GaveUp (s : Synod cfg) (k : Fin cfg.totalProposer) (i r : Nat) : Prop :=
  s.Over k i r ∧ ¬ s.Committed k i r

/-! ## What a step broadcasts -/

section

variable {s s' : Synod cfg} {l : SynodOp cfg} {new : List (Bcast cfg)}

/-- A step broadcasts one message at most, and a CHOSEN ends the round it is of. -/
theorem Sane.new_bcast (h : s.Sane) (hs : s.step l = some s') (hg : Grows s s' new) {c : Bcast cfg}
    {k : Fin cfg.totalProposer} {i : Nat} (hc : c ∈ new) (ho : c.Of k i) :
    new = [c] ∧ (c.msg.type = .chosenReq → c.round = (s.props k i).term ∧ (s.props k i).req ≠ none) := by
  cases h.instStep hs k i with
  | same new' hg' _ hnew =>
    obtain rfl : new = new' := List.append_cancel_left (hg.bcasts.symm.trans hg'.bcasts)
    exact absurd ho (hnew c hc)
  | moved ev sent hg' _ hm =>
    obtain rfl := List.append_cancel_left (hg.bcasts.symm.trans hg'.bcasts)
    obtain ⟨m, hm', rfl⟩ := List.mem_map.mp hc
    cases hm with
    | kept | counted => cases hm'
    | accepting q a _ _ _ _ _ _ _ _ he =>
      obtain rfl := List.mem_singleton.mp hm'
      refine ⟨rfl, fun ht => ?_⟩
      rw [he] at ht
      cases ht
    | chosen q a _ hq _ _ _ hk _ _ =>
      obtain rfl := List.mem_singleton.mp hm'
      exact ⟨rfl, fun _ => ⟨hk.term, by rw [hq]; exact Option.some_ne_none q⟩⟩
    | prepare _ _ _ _ _ _ _ he | fast _ _ _ _ _ _ _ he =>
      obtain rfl := List.mem_singleton.mp hm'
      refine ⟨rfl, fun ht => ?_⟩
      rw [he] at ht
      cases ht

/-- A round that is over stays over. -/
theorem Sane.step_over (h : s.Sane) (hs : s.step l = some s') {k : Fin cfg.totalProposer} {i r : Nat}
    (hv : s.Over k i r) (hle : r ≤ (s.props k i).term) :
    s'.Over k i r ∧ r ≤ (s'.props k i).term := by
  have hround : ((s'.props k i).term = (s.props k i).term ∧
      ((s.props k i).req = none → (s'.props k i).req = none)) ∨
      (s'.props k i).term = (s.props k i).term + 1 := by
    have hkept : ∀ {n : Nat}, Kept n (s.props k i) (s'.props k i) →
        (s'.props k i).term = (s.props k i).term ∧
        ((s.props k i).req = none → (s'.props k i).req = none) := by
      intro n hk
      refine ⟨hk.term, fun hnone => Option.eq_none_iff_forall_not_mem.mpr fun q hq => ?_⟩
      obtain ⟨q', hq', _⟩ := hk.req q hq
      rw [hnone] at hq'
      cases hq'
    cases h.instStep hs k i with
    | same _ _ hst _ => exact .inl ⟨by rw [hst], fun hn => by rw [hst]; exact hn⟩
    | moved ev sent _ _ hm =>
      cases hm with
      | kept hk => exact .inl (hkept hk)
      | counted _ _ _ _ _ _ hk => exact .inl (hkept hk)
      | accepting q _ _ _ hq _ _ _ _ _ _ _ hst =>
        refine .inl ⟨hst.2.1, fun hnone => ?_⟩
        rw [hq] at hnone
        cases hnone
      | chosen _ _ _ _ _ _ _ hk => exact .inl (hkept hk)
      | prepare _ _ _ _ _ _ _ _ hst | fast _ _ _ _ _ _ _ _ _ _ hst =>
        exact .inr (by rw [hst]; rfl)
  rcases hround with ⟨hterm, hreq⟩ | hterm
  · exact ⟨hv.imp (fun hlt => hterm ▸ hlt) hreq, hterm ▸ hle⟩
  · exact ⟨.inl (by omega), by omega⟩

/-- A round that is over without a CHOSEN broadcasts none any more. -/
theorem Sane.step_gaveUp (h : s.Sane) (hs : s.step l = some s') {k : Fin cfg.totalProposer} {i r : Nat}
    (hle : r ≤ (s.props k i).term) (hv : s.GaveUp k i r) : s'.GaveUp k i r := by
  obtain ⟨hover, hno⟩ := hv
  obtain ⟨new, hg⟩ := step_grows hs
  refine ⟨(h.step_over hs hover hle).1, fun hc => ?_⟩
  obtain ⟨c, hc, ht, ho, hround⟩ := hc
  rw [hg.bcasts] at hc
  rcases List.mem_append.mp hc with hc | hc
  · exact hno ⟨c, hc, ht, ho, hround⟩
  · obtain ⟨hterm, hreq⟩ := (h.new_bcast hs hg hc ho).2 ht
    exact hover.elim (fun hlt => by omega) hreq

end

/-! ## The replies of a step -/

/-- The replies of instance `i` of proposer `k`, in its round. -/
def repliesOf (s : Synod cfg) (k : Fin cfg.totalProposer) (i : Nat)
    (r : Option (Proposer × List Out)) : List (Reply cfg) :=
  r.toList.flatMap fun r => (promisesSet r.2).map fun x => ⟨k, i, (s.props k i).term, x.2⟩

/-- The replies to calls that have started a round. -/
def replies (s : Synod cfg) : SynodOp cfg → List (Reply cfg)
  | .timeout k term pinst entry =>
    s.repliesOf k (pinst % cfg.plogInstNum)
      ((s.props k).handleRpcResponse (cfg.on k) ⟨term, pinst, entry, none⟩)
  | .reply rid =>
    match s.rsps[rid]? with
    | none => []
    | some x =>
      match s.bcasts[x.bid]? with
      | none => []
      | some c => s.repliesOf c.src x.msg.pp.pinst
          ((s.props c.src).handleRpcResponse (cfg.on c.src) (rpcResponseOf c.msg x.msg))
  | _ => []

section

variable {s s' : Synod cfg} {l : SynodOp cfg} {k : Fin cfg.totalProposer} {i : Nat}

/-- Step `l` handles a response or a timeout for instance `i` of proposer `k`, and does to the
outside what `outs` lists. -/
structure Handles (s s' : Synod cfg) (l : SynodOp cfg) (k : Fin cfg.totalProposer) (i : Nat)
    (outs : List Out) : Prop where
  replies : replies s l = (promisesSet outs).map fun x => ⟨k, i, (s.props k i).term, x.2⟩
  bcasts : s'.bcasts = s.bcasts ++ (broadcasts outs).map fun m => ⟨k, i, (s.props k i).term, m⟩
  term : (s'.props k i).term = (s.props k i).term
  tells : Tells (s.props k i) (s'.props k i) outs

/-- Only calls of the instance start its rounds. -/
theorem Sane.step_term (h : s.Sane) (hs : s.step l = some s') (hno : ¬ Calls l k i) :
    (s'.props k i).term = (s.props k i).term := by
  have hcall : ∀ {opaqueData : Nat} {val : List UInt8} {ev : Event}, ev = .call opaqueData val →
      ¬ Causes s s' l k i ev := by
    intro opaqueData val ev hev hc
    obtain ⟨pinst, promise, oom, hl, hi⟩ := hc.call opaqueData val hev
    exact hno ⟨opaqueData, val, pinst, promise, oom, hl, hi⟩
  cases h.instStep hs k i with
  | same _ _ hst _ => rw [hst]
  | moved ev sent _ hc hm =>
    cases hm with
    | kept hk => exact hk.term
    | counted _ _ _ _ _ _ hk => exact hk.term
    | accepting _ _ _ _ _ _ _ _ _ _ _ _ hst => exact hst.2.1
    | chosen _ _ _ _ _ _ _ hk => exact hk.term
    | prepare _ _ _ _ hev | fast _ _ _ _ hev => exact absurd hc (hcall hev)

/-- A step handles a response, or replies to nobody and broadcasts no CHOSEN. -/
theorem Sane.handles (h : s.Sane) (hs : s.step l = some s') :
    (∃ k i outs, s.Handles s' l k i outs) ∨
      (replies s l = [] ∧ ∀ c ∈ s'.bcasts, c.msg.type = .chosenReq → c ∈ s.bcasts) := by
  have hn : ∀ k j, (s.props k j).req ≠ none → (s.props k j).notified = false :=
    fun k j => (h.rounds k j).notified
  have hquiet : ∀ {l : SynodOp cfg}, replies s l = [] → s'.bcasts = s.bcasts →
      (∃ k i outs, s.Handles s' l k i outs) ∨
        (replies s l = [] ∧ ∀ c ∈ s'.bcasts, c.msg.type = .chosenReq → c ∈ s.bcasts) :=
    fun hr hb => .inr ⟨hr, fun c hc _ => hb ▸ hc⟩
  cases l with
  | propose k opaqueData val pinst promise oom =>
    refine .inr ⟨rfl, fun c hc ht => ?_⟩
    obtain ⟨_, hg⟩ := step_propose hs rfl
    rw [hg.bcasts] at hc
    refine (List.mem_append.mp hc).resolve_right fun hc => ?_
    rcases proposeAsync_draws (cfg.on k) (s.props k (pinst % cfg.plogInstNum)) (pinst % cfg.plogInstNum)
        opaqueData val promise oom with ⟨_, hb⟩ | ⟨m, _, hd⟩
    · rw [hb] at hc
      cases hc
    · -- the round a call starts is not outstanding before
      have ho : c.Of k (pinst % cfg.plogInstNum) := by
        obtain ⟨_, _, rfl⟩ := List.mem_map.mp hc
        exact ⟨rfl, rfl⟩
      exact ((h.new_bcast hs hg hc ho).2 ht).2 hd.idle
  | entryChosen =>
    obtain rfl := Option.some.inj hs
    exact hquiet rfl rfl
  | timeout k term pinst entry =>
    obtain ⟨⟨p', outs⟩, hr, rfl⟩ := Option.map_eq_some_iff.mp hs
    have hp : (s.send k p' (pinst % cfg.plogInstNum) (broadcasts outs)).props k = p' :=
      Function.update_self ..
    have htells := Proposer.handleRpcResponse_tells hr (hn k) fun rsp hmsg => by cases hmsg
    have hterm := h.step_term hs (k := k) (i := pinst % cfg.plogInstNum) (by
      rintro ⟨_, _, _, _, _, hl, _⟩
      cases hl)
    refine .inl ⟨k, pinst % cfg.plogInstNum, outs, ?_, ?_, hterm, ?_⟩
    · simp [replies, repliesOf, hr]
    · rw [← hterm, hp]
      rfl
    · rw [hp]
      exact htells
  | deliver bid acc saves =>
    simp only [Synod.step] at hs
    split at hs
    · cases hs
    · obtain rfl := Option.some.inj hs
      exact hquiet rfl rfl
  | reply rid =>
    have hterm := fun k i => h.step_term hs (k := k) (i := i) (by
      rintro ⟨_, _, _, _, _, hl, _⟩
      cases hl)
    simp only [Synod.step] at hs
    split at hs
    · cases hs
    rename_i x hx
    split at hs
    · cases hs
    rename_i c hc
    obtain ⟨⟨p', outs⟩, hr, rfl⟩ := Option.map_eq_some_iff.mp hs
    replace hterm := hterm c.src x.msg.pp.pinst
    have hp : (s.send c.src p' x.msg.pp.pinst (broadcasts outs)).props c.src = p' :=
      Function.update_self ..
    have htells := Proposer.handleRpcResponse_tells hr (hn c.src) fun rsp hmsg => by
      obtain rfl := Option.some.inj hmsg
      exact fun q _ hv _ => (h.requests.fair (List.mem_of_getElem? hx)).empty hv.type hv.status
    refine .inl ⟨c.src, x.msg.pp.pinst, outs, ?_, ?_, hterm, ?_⟩
    · simp [replies, repliesOf, hr, hx, hc]
    · rw [← hterm]
      show _ = s.bcasts ++ (broadcasts outs).map fun m =>
        (⟨c.src, x.msg.pp.pinst, ((s.send c.src p' x.msg.pp.pinst (broadcasts outs)).props c.src x.msg.pp.pinst).term, m⟩ : Bcast cfg)
      rw [hp]
      rfl
    · show Tells _ ((s.send c.src p' x.msg.pp.pinst (broadcasts outs)).props c.src x.msg.pp.pinst) _
      rw [hp]
      exact htells
  | restart acc inst batch lastCommitted fuel =>
    obtain ⟨_, _, rfl⟩ := Option.map_eq_some_iff.mp hs
    exact hquiet rfl rfl

theorem Sane.replies_waiting (h : s.Sane) (hs : s.step l = some s') {r : Reply cfg}
    (hr : r ∈ replies s l) :
    (s.props r.src r.inst).req ≠ none ∧ r.round = (s.props r.src r.inst).term := by
  rcases h.handles hs with ⟨k, i, outs, hrep, _, _, htells⟩ | ⟨hnone, _⟩
  · rw [hrep] at hr
    obtain ⟨x, hx, rfl⟩ := List.mem_map.mp hr
    exact ⟨(htells.ends (List.ne_nil_of_mem hx)).1, rfl⟩
  · rw [hnone] at hr
    cases hr

theorem Sane.uncommitted (h : s.Sane) (hreq : (s.props k i).req ≠ none) :
    ¬ s.Committed k i (s.props k i).term := by
  intro hc
  obtain ⟨c, hc, ht, ho, hr⟩ := hc
  have hawaited : (s.props k i).awaited = .prepareReq ∨ (s.props k i).awaited = .acceptReq := by
    unfold awaited
    split
    · exact .inl rfl
    · exact .inr rfl
  rcases (h.rounds k i).pending hreq c hc ho hr with hty | hty
  · rw [ht] at hty
    cases hty
  · rw [← hty, ht] at hawaited
    rcases hawaited with hty | hty <;> cases hty

end

theorem sane_reachable {s : Synod cfg} (h : ((sys cfg).restrict ReadsLogs).Reachable s) : s.Sane :=
  (sane_inductive fun _ _ _ h => h).reachable s h

theorem run_gaveUp {s s' : Synod cfg} {k : Fin cfg.totalProposer} {i r : Nat} {ls : List (SynodOp cfg)}
    (hs : ((sys cfg).restrict ReadsLogs).Reachable s) (hr : ((sys cfg).restrict ReadsLogs).Run s ls s')
    (hle : r ≤ (s.props k i).term) (h : s.GaveUp k i r) : s'.GaveUp k i r := by
  induction hr with
  | nil => exact h
  | cons hst _ ih =>
    have hsane := sane_reachable hs
    exact ih (hs.step hst) (hsane.step_over hst.1 h.1 hle).2 (hsane.step_gaveUp hst.1 hle h)

/-- Whoever is told anything but OK has its round over, and it never broadcasts a CHOSEN.
And a CHOSEN is broadcast in the very step that tells the caller of its round OK. -/
theorem replies_true {s s' : Synod cfg} {l : SynodOp cfg}
    (h : ((sys cfg).restrict ReadsLogs).Reachable s)
    (hs : ((sys cfg).restrict ReadsLogs).step s l s') :
    (∀ r ∈ replies s l, r.code ≠ ErrCode.ok → ∀ ls s'', ((sys cfg).restrict ReadsLogs).Run s' ls s'' →
        s''.GaveUp r.src r.inst r.round) ∧
      ∀ c ∈ s'.bcasts, c ∉ s.bcasts → c.msg.type = .chosenReq →
        replies s l = [⟨c.src, c.inst, c.round, ErrCode.ok⟩] := by
  have hsane := sane_reachable h
  rcases hsane.handles hs.1 with ⟨k, i, outs, hrep, hb, hterm, htells⟩ | ⟨hnone, hch⟩
  · refine ⟨fun r hr hcode ls s'' hrun => ?_, fun c hc hold ht => ?_⟩
    · rw [hrep] at hr
      obtain ⟨x, hx, rfl⟩ := List.mem_map.mp hr
      obtain ⟨hreq, hreq'⟩ := htells.ends (List.ne_nil_of_mem hx)
      refine run_gaveUp (h.step hs) hrun (Nat.le_of_eq hterm.symm) ⟨.inr hreq', fun hc => ?_⟩
      obtain ⟨c, hc, ht, ho, hr⟩ := hc
      rw [hb] at hc
      rcases List.mem_append.mp hc with hc | hc
      · exact hsane.uncommitted hreq ⟨c, hc, ht, ho, hr⟩
      · obtain ⟨m, hm, rfl⟩ := List.mem_map.mp hc
        rw [htells.chosen m hm ht] at hx
        exact hcode (congrArg Prod.snd (List.mem_singleton.mp hx))
    · rw [hb] at hc
      obtain ⟨m, hm, rfl⟩ := List.mem_map.mp ((List.mem_append.mp hc).resolve_left hold)
      rw [hrep, htells.chosen m hm ht]
      rfl
  · refine ⟨fun r hr => ?_, fun c hc hold ht => absurd (hch c hc ht) hold⟩
    rw [hnone] at hr
    cases hr

/-- The caller of the first value is told OK with the CHOSEN. -/
theorem replies_true_first : ∃ c ∈ twoAcceptances.bcasts, c.msg.type = .chosenReq ∧
    replies oneAcceptance (.reply 3) = [⟨c.src, c.inst, c.round, ErrCode.ok⟩] := by
  have hrun : ((sys (Configure.init 0)).restrict ReadsLogs).Run (start _ fun _ => 7) firstRound
      oneAcceptance :=
    LTS.run_of_guarded (g := fun _ l _ => !isRestart l) (fun _ _ _ _ h => readsLogs_of_not_restart h)
      (Option.some_get _).symm
  have hstep : ((sys _).restrict ReadsLogs).step oneAcceptance (.reply 3) twoAcceptances :=
    ⟨(Option.some_get _).symm, readsLogs_of_not_restart rfl⟩
  have hlast : (twoAcceptances.bcasts.get ⟨2, by decide +kernel⟩).msg.type = .chosenReq := by decide +kernel
  refine ⟨_, List.get_mem _ _, hlast, (replies_true ⟨_, _, ⟨_, rfl⟩, hrun⟩ hstep).2 _ (List.get_mem _ _) ?_ hlast⟩
  decide +kernel

end Synod
end Quarrel
