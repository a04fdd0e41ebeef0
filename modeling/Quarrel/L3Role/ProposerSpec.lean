import Quarrel.L3Role.Proposer
import Mathlib.Data.Fintype.Basic

/-!
# What the proposer's functions do

`ProposeDone`, `PrepareRspDone`, `AcceptRspDone` and `RpcResponseDone` list the
branches of `ProposeAsync`, of the two response handlers and of the callback that
picks one of them, with the state and the outputs each one leaves.
`proposeAsync_done`, `handlePrepareRsp_done`, `handleAcceptRsp_done` and
`handleRpcResponse_done` prove them once.

* `ValidPromise`, `ValidAccept`: the response passed all the checks, and is the
  one kind that is counted in `valid_rsp_count_`.
* The lemmas on `state_`: the highest bit survives the change of phase, and the
  phase survives the highest bit.
-/
namespace Quarrel

namespace InstanceState

/-! ## The phase byte -/

theorem uint8_all {p : UInt8 → Prop} (h : ∀ b : BitVec 8, p ⟨b⟩) (x : UInt8) : p x := h x.toBitVec

theorem notify_bit (x : UInt8) : (x ||| 0x80) &&& 0x80 ≠ 0 :=
  uint8_all (p := fun x => (x ||| 0x80) &&& 0x80 ≠ 0) (by decide +kernel) x

theorem notify_phase (x : UInt8) : (x ||| 0x80) &&& 0x7f = x &&& 0x7f :=
  uint8_all (p := fun x => (x ||| 0x80) &&& 0x7f = x &&& 0x7f) (by decide +kernel) x

theorem accepting_bit (x : UInt8) : (acceptingPhase ||| (x &&& 0x80)) &&& 0x80 = x &&& 0x80 :=
  uint8_all (p := fun x => (acceptingPhase ||| (x &&& 0x80)) &&& 0x80 = x &&& 0x80) (by decide +kernel) x

theorem accepting_phase (x : UInt8) : (acceptingPhase ||| (x &&& 0x80)) &&& 0x7f = acceptingPhase :=
  uint8_all (p := fun x => (acceptingPhase ||| (x &&& 0x80)) &&& 0x7f = acceptingPhase)
    (by decide +kernel) x

theorem notified_of_state {s s' : InstanceState} (h : s'.state = s.state) :
    s'.notified = s.notified := by
  unfold notified; rw [h]

theorem phase_of_state {s s' : InstanceState} (h : s'.state = s.state) : s'.phase = s.phase := by
  unfold phase; rw [h]

/-! ## ProposeAsync -/

/-- The proposal `ProposeAsync` allocates. -/
def proposalMsg (cfg : Configure) (s : InstanceState) (pinst opaqueData : Nat) (val : List UInt8) :
    PaxosMsg :=
  (s.allocPaxosMsg cfg pinst opaqueData val).1

/-- The instance once it waits for the answers to `m`. -/
def begun (cfg : Configure) (s : InstanceState) (pinst opaqueData : Nat) (val : List UInt8)
    (promise : Nat) (state : UInt8) (m : PaxosMsg) : InstanceState :=
  { (s.allocPaxosMsg cfg pinst opaqueData val).2 with
    rspCount := 0
    validRspCount := 0
    state := state
    ret := promise
    req := some m }

inductive ProposeDone (cfg : Configure) (s : InstanceState) (pinst opaqueData : Nat)
    (val : List UInt8) (promise : Nat) : InstanceState → List Out → Prop
  | rejected (code : Int) (hc : code ≠ ErrCode.ok) :
      ProposeDone cfg s pinst opaqueData val promise s [.setValue promise code]
  | prepare (m : PaxosMsg) (hidle : s.req = none) (hm : m = s.proposalMsg cfg pinst opaqueData val)
      (hskip : val.isEmpty ∨ ¬ s.canSkipPrepare m.pp) :
      ProposeDone cfg s pinst opaqueData val promise
        (s.begun cfg pinst opaqueData val promise preparingPhase m)
        [.rpc (asPrepareReq m), .addTimeout pinst m.pp.pentry m.pp.term]
  | fast (m : PaxosMsg) (hidle : s.req = none)
      (hm : m = asAcceptReq cfg s (s.proposalMsg cfg pinst opaqueData val)) (hval : ¬ val.isEmpty)
      (hskip : s.canSkipPrepare m.pp) :
      ProposeDone cfg s pinst opaqueData val promise
        (s.begun cfg pinst opaqueData val promise acceptingPhase m)
        [.rpc m, .addTimeout pinst m.pp.pentry m.pp.term]

theorem proposeAsync_done (cfg : Configure) (s : InstanceState) (pinst opaqueData : Nat)
    (val : List UInt8) (promise : Nat) (oom : Bool) :
    ProposeDone cfg s pinst opaqueData val promise
      (s.proposeAsync cfg pinst opaqueData val promise oom).1
      (s.proposeAsync cfg pinst opaqueData val promise oom).2 := by
  unfold proposeAsync
  split
  · exact .rejected _ (by decide)
  rename_i hreq
  split
  · exact .rejected _ (by decide)
  have hidle : s.req = none := by simpa using hreq
  dsimp only
  split
  · rename_i hskip
    exact .prepare _ hidle rfl hskip
  · rename_i hskip
    rw [not_or, not_not] at hskip
    exact .fast _ hidle rfl hskip.1 hskip.2

theorem begun_state (cfg : Configure) (s : InstanceState) (pinst opaqueData : Nat)
    (val : List UInt8) (promise : Nat) (m : PaxosMsg) :
    (s.begun cfg pinst opaqueData val promise preparingPhase m).notified = false ∧
      (s.begun cfg pinst opaqueData val promise preparingPhase m).phase = preparingPhase ∧
      (s.begun cfg pinst opaqueData val promise acceptingPhase m).notified = false ∧
      (s.begun cfg pinst opaqueData val promise acceptingPhase m).phase = acceptingPhase := by
  have h : (preparingPhase &&& 0x80 = 0 ∧ preparingPhase &&& 0x7f = preparingPhase) ∧
      acceptingPhase &&& 0x80 = 0 ∧ acceptingPhase &&& 0x7f = acceptingPhase := by decide
  obtain ⟨⟨h1, h2⟩, h3, h4⟩ := h
  exact ⟨decide_eq_false (not_not.mpr h1), h2, decide_eq_false (not_not.mpr h3), h4⟩

/-! ## Prepare responses -/

theorem prepareOut_state {s s' : InstanceState} {ret : Int} {done first : Bool} {outs : List Out}
    (h : (s', outs) = s.prepareOut ret done first) :
    s' = if done then { s with req := none } else s := by
  have hs : s' = (s.prepareOut ret done first).1 := congrArg Prod.fst h
  rw [hs]
  unfold prepareOut
  dsimp only
  split <;> rfl

theorem acceptOut_state {s s' : InstanceState} {ret : Int} {done : Bool} {outs : List Out}
    (h : (s', outs) = s.acceptOut ret done) : s' = if done then { s with req := none } else s := by
  have hs : s' = (s.acceptOut ret done).1 := congrArg Prod.fst h
  rw [hs]
  unfold acceptOut
  split <;> rfl

/-- What holds of the state, with its round or without, holds after the label `out`. -/
theorem prepareOut_keeps {P : InstanceState → Prop} {s s' : InstanceState} {ret : Int}
    {done first : Bool} {outs : List Out} (ho : (s', outs) = s.prepareOut ret done first) (h : P s)
    (hend : P { s with req := none }) : P s' := by
  rw [prepareOut_state ho]
  split
  · exact hend
  · exact h

theorem acceptOut_keeps {P : InstanceState → Prop} {s s' : InstanceState} {ret : Int} {done : Bool}
    {outs : List Out} (ho : (s', outs) = s.acceptOut ret done) (h : P s)
    (hend : P { s with req := none }) : P s' := by
  rw [acceptOut_state ho]
  split
  · exact hend
  · exact h

/-- The response passes all the checks of `handlePrepareRsp`. -/
structure ValidPromise (req rsp : PaxosMsg) : Prop where
  type : rsp.type = .prepareRsp
  errcode : rsp.errcode = ErrCode.ok
  status : rsp.pp.status = .promised
  pid_le : rsp.pp.pid ≤ req.pp.pid

instance (req rsp : PaxosMsg) : Decidable (ValidPromise req rsp) :=
  decidable_of_iff (rsp.type = .prepareRsp ∧ rsp.errcode = ErrCode.ok ∧ rsp.pp.status = .promised ∧
      rsp.pp.pid ≤ req.pp.pid)
    ⟨fun ⟨h1, h2, h3, h4⟩ => ⟨h1, h2, h3, h4⟩, fun h => ⟨h.type, h.errcode, h.status, h.pid_le⟩⟩

/-- `req_` after `CopyProposalMeta`. -/
def merge (req rsp : PaxosMsg) : PaxosMsg := { req with pp := copyProposalMeta req.pp rsp.pp }

/-- The peer answered with another value than the request's. -/
def OtherValue (req rsp : PaxosMsg) : Prop := rsp.pp.valueId ≠ req.pp.valueId

instance (req rsp : PaxosMsg) : Decidable (OtherValue req rsp) := by
  unfold OtherValue; exact inferInstance

/-- The state once a valid promise has been counted. -/
def afterPromise (s : InstanceState) (req rsp : PaxosMsg) : InstanceState :=
  countPromise { s with rspCount := u8 (s.rspCount + 1), req := some (merge req rsp) } (merge req rsp) rsp

/-- The response is the last one of its phase. -/
def lastRsp (cfg : Configure) (s : InstanceState) : Bool := u8 (s.rspCount + 1) = cfg.totalAcceptor

/-- The message of the ACCEPT phase. -/
def acceptSource (s : InstanceState) (req rsp : PaxosMsg) : Option PaxosMsg :=
  if (s.afterPromise req rsp).notified then (s.afterPromise req rsp).lastv else some (merge req rsp)

/-- The state once the ACCEPT of `m` has been broadcast. -/
def enterAccept (cfg : Configure) (s : InstanceState) (req rsp m : PaxosMsg) : InstanceState :=
  { s.afterPromise req rsp with
    rspCount := 0
    validRspCount := 0
    state := acceptingPhase ||| ((s.afterPromise req rsp).state &&& 0x80)
    lastv := none
    req := if (s.afterPromise req rsp).notified then some (merge req rsp)
      else some (asAcceptReq cfg s m) }

inductive PrepareRspDone (cfg : Configure) (s : InstanceState) (req rsp : PaxosMsg) :
    InstanceState → List Out → Prop
  | wrongType (ht : rsp.type ≠ .prepareRsp) : PrepareRspDone cfg s req rsp s []
  | refused {s' : InstanceState} {outs : List Out} (ret : Int) (req' : PaxosMsg) (ig : IdGen)
      (ht : rsp.type = .prepareRsp) (hv : ¬ ValidPromise req rsp) (hret : ret ≠ ErrCode.ok)
      (hreq : req' = req ∨ req' = merge req rsp)
      (hig : ig = s.ig ∨ ig = s.ig.setGreaterThan rsp.pp.pid)
      (ho : (s', outs) = prepareOut
        { s with rspCount := u8 (s.rspCount + 1), req := some req', ig := ig } ret (s.lastRsp cfg) false) :
      PrepareRspDone cfg s req rsp s' outs
  | pending {s' : InstanceState} {outs : List Out} (hv : ValidPromise req rsp)
      (hsz : OtherValue req rsp → 0 < rsp.pp.size)
      (hno : ¬ (cfg.majority ≤ (s.afterPromise req rsp).validRspCount ∧
        ((s.afterPromise req rsp).notified → s.lastRsp cfg)))
      (ho : (s', outs) = prepareOut (s.afterPromise req rsp) ErrCode.ok (s.lastRsp cfg)
        (OtherValue req rsp ∧ ¬ s.notified)) : PrepareRspDone cfg s req rsp s' outs
  | probed {s' : InstanceState} {outs : List Out} (hv : ValidPromise req rsp)
      (hsz : OtherValue req rsp → 0 < rsp.pp.size)
      (hmaj : cfg.majority ≤ (s.afterPromise req rsp).validRspCount)
      (hlast : (s.afterPromise req rsp).notified → s.lastRsp cfg) (h0 : rsp.pp.pid = 0)
      (ho : (s', outs) = prepareOut (s.afterPromise req rsp) ErrCode.ok true
        (OtherValue req rsp ∧ ¬ s.notified)) : PrepareRspDone cfg s req rsp s' outs
  | accepting {s' : InstanceState} {outs : List Out} (m : PaxosMsg) (hv : ValidPromise req rsp)
      (hsz : OtherValue req rsp → 0 < rsp.pp.size)
      (hmaj : cfg.majority ≤ (s.afterPromise req rsp).validRspCount)
      (hlast : (s.afterPromise req rsp).notified → s.lastRsp cfg) (hpos : 0 < rsp.pp.pid)
      (hm : s.acceptSource req rsp = some m) (hs : s' = s.enterAccept cfg req rsp m)
      (ho : outs = .rpc (asAcceptReq cfg s m) ::
        if OtherValue req rsp ∧ ¬ s.notified then [.setValue s.ret ErrCode.preparePeerValue] else []) :
      PrepareRspDone cfg s req rsp s' outs

/-- What counting a promise leaves as it is: all but the counters, the vote, the flag and `req_`. -/
structure PromiseKeeps (s s' : InstanceState) : Prop where
  ret : s'.ret = s.ret
  lastChosenEntry : s'.lastChosenEntry = s.lastChosenEntry
  lastChosenFrom : s'.lastChosenFrom = s.lastChosenFrom
  term : s'.term = s.term
  ig : s'.ig = s.ig
  vig : s'.vig = s.vig
  proposerId : s'.proposerId = s.proposerId
  phase : s'.phase = s.phase

section

variable (s : InstanceState) (req rsp : PaxosMsg)

theorem takeLastVote_keeps : PromiseKeeps s (s.takeLastVote rsp) := by
  unfold takeLastVote
  split
  · exact ⟨rfl, rfl, rfl, rfl, rfl, rfl, rfl, notify_phase s.state⟩
  · exact ⟨rfl, rfl, rfl, rfl, rfl, rfl, rfl, rfl⟩

@[simp] theorem takeLastVote_req : (s.takeLastVote rsp).req = s.req := by
  unfold takeLastVote
  split <;> rfl

@[simp] theorem takeLastVote_rspCount : (s.takeLastVote rsp).rspCount = s.rspCount := by
  unfold takeLastVote
  split <;> rfl

@[simp] theorem takeLastVote_validRspCount : (s.takeLastVote rsp).validRspCount = s.validRspCount := by
  unfold takeLastVote
  split <;> rfl

theorem takeLastVote_notified : (s.takeLastVote rsp).notified = true := by
  unfold takeLastVote
  split
  · simp only [notified, ne_eq, notify_bit, not_false_eq_true, decide_true]
  · rename_i h
    rw [not_or, not_not] at h
    exact h.1

theorem afterPromise_keeps : PromiseKeeps s (s.afterPromise req rsp) := by
  unfold afterPromise countPromise
  obtain ⟨h1, h2, h3, h4, h5, h6, h7, h8⟩ := takeLastVote_keeps
    { s with rspCount := u8 (s.rspCount + 1), req := some (merge req rsp) } rsp
  dsimp only
  split
  · exact ⟨h1, h2, h3, h4, h5, h6, h7, h8⟩
  · exact ⟨rfl, rfl, rfl, rfl, rfl, rfl, rfl, rfl⟩

@[simp] theorem afterPromise_req : (s.afterPromise req rsp).req = some (merge req rsp) := by
  unfold afterPromise countPromise
  dsimp only
  split <;> simp

@[simp] theorem afterPromise_rspCount : (s.afterPromise req rsp).rspCount = u8 (s.rspCount + 1) := by
  unfold afterPromise countPromise
  dsimp only
  split <;> simp

@[simp] theorem afterPromise_validRspCount :
    (s.afterPromise req rsp).validRspCount = u8 (s.validRspCount + 1) := by
  unfold afterPromise countPromise
  dsimp only
  split <;> simp

theorem afterPromise_notified : (s.afterPromise req rsp).notified = (s.notified || OtherValue req rsp) := by
  unfold afterPromise countPromise
  dsimp only
  by_cases h : OtherValue req rsp
  · rw [if_pos (show rsp.pp.valueId ≠ (merge req rsp).pp.valueId from h), decide_eq_true h,
      Bool.or_true]
    exact takeLastVote_notified _ rsp
  · rw [if_neg (show ¬ rsp.pp.valueId ≠ (merge req rsp).pp.valueId from h), decide_eq_false h,
      Bool.or_false]
    rfl

end

/-- A promise of the caller's own value changes the counters and `req_` only. -/
theorem afterPromise_own {s : InstanceState} {req rsp : PaxosMsg} (h : ¬ OtherValue req rsp) :
    s.afterPromise req rsp = { s with
      rspCount := u8 (s.rspCount + 1), req := some (merge req rsp),
      validRspCount := u8 (s.validRspCount + 1) } := by
  unfold afterPromise countPromise
  dsimp only
  rw [if_neg (show ¬ rsp.pp.valueId ≠ (merge req rsp).pp.valueId from h)]

/-- The change to the ACCEPT phase; the first vote of another value is what the caller is told. -/
theorem startAccept_eq {cfg : Configure} {s : InstanceState} {req m : PaxosMsg} {first : Bool}
    (hm : (if s.notified then s.lastv else some req) = some m)
    (hf : first = true → s.notified = true) :
    startAccept cfg s req first = some
      ({ s with
          rspCount := 0
          validRspCount := 0
          state := acceptingPhase ||| (s.state &&& 0x80)
          lastv := none
          req := if s.notified then some req else some (asAcceptReq cfg s m) },
        .rpc (asAcceptReq cfg s m) ::
          if first then [.setValue s.ret ErrCode.preparePeerValue] else []) := by
  unfold startAccept
  rw [hm]
  have hn : ({ s with
      rspCount := 0, validRspCount := 0, state := acceptingPhase ||| (s.state &&& 0x80), lastv := none,
      req := if s.notified then some req else some (asAcceptReq cfg s m) } : InstanceState).notified =
      s.notified := by
    simp only [notified, accepting_bit]
  simp only [setupWaitState, prepareOut, Option.getD_none, Bool.false_eq_true, if_false, hn]
  cases first with
  | false => simp
  | true => simp [hf rfl]

theorem handlePrepareRsp_done {cfg : Configure} {s s' : InstanceState} {req rsp : PaxosMsg}
    {outs : List Out} (hreq : s.req = some req) (h : s.handlePrepareRsp cfg rsp = some (s', outs)) :
    PrepareRspDone cfg s req rsp s' outs := by
  unfold handlePrepareRsp at h
  rw [hreq] at h
  dsimp only at h
  split at h
  · rename_i ht
    cases h
    exact .wrongType ht
  rename_i ht
  rw [ne_eq, not_not] at ht
  split at h
  · rename_i he
    exact .refused rsp.errcode req s.ig ht (fun hv => he hv.errcode) he (.inl rfl) (.inl rfl)
      (Option.some.inj h).symm
  rename_i he
  rw [ne_eq, not_not] at he
  split at h
  · rename_i hst
    exact .refused (-2) req s.ig ht (fun hv => hst hv.status) (by decide) (.inl rfl) (.inl rfl)
      (Option.some.inj h).symm
  rename_i hst
  rw [ne_eq, not_not] at hst
  split at h
  · rename_i hgt
    exact .refused (-3) (merge req rsp) (s.ig.setGreaterThan rsp.pp.pid) ht
      (fun hv => Nat.not_lt.mpr hv.pid_le hgt) (by decide) (.inr rfl) (.inr rfl)
      (Option.some.inj h).symm
  rename_i hle
  have hv : ValidPromise req rsp := ⟨ht, he, hst, Nat.not_lt.mp hle⟩
  unfold preparePromised at h
  dsimp only at h
  split at h
  · cases h
  rename_i hsz
  have hsz' : OtherValue req rsp → 0 < rsp.pp.size := by
    intro ho
    by_contra hs
    exact hsz ⟨ho, hs⟩
  split at h
  · rename_i hshould
    obtain ⟨hmaj, hlast⟩ := hshould
    split at h
    · rename_i hpos
      change startAccept cfg (s.afterPromise req rsp) (merge req rsp)
        (decide (OtherValue req rsp ∧ ¬ s.notified)) = some (s', outs) at h
      cases hm : s.acceptSource req rsp with
      | none =>
        unfold startAccept at h
        unfold acceptSource at hm
        rw [hm] at h
        cases h
      | some m =>
        have hfirst : decide (OtherValue req rsp ∧ ¬ s.notified) = true →
            (s.afterPromise req rsp).notified = true := by
          intro hf
          rw [afterPromise_notified, decide_eq_true (of_decide_eq_true hf).1, Bool.or_true]
        have hkeeps := afterPromise_keeps s req rsp
        have hacc : asAcceptReq cfg (s.afterPromise req rsp) m = asAcceptReq cfg s m := by
          simp only [asAcceptReq, hkeeps.lastChosenEntry, hkeeps.lastChosenFrom]
        rw [startAccept_eq hm hfirst, hacc] at h
        obtain ⟨hs, ho⟩ := Prod.mk.inj (Option.some.inj h)
        rw [hkeeps.ret] at ho
        exact .accepting m hv hsz' hmaj hlast hpos hm hs.symm (by simpa using ho.symm)
    · rename_i h0
      exact .probed hv hsz' hmaj hlast (by omega) (Option.some.inj h).symm
  · rename_i hno
    exact .pending hv hsz' hno (Option.some.inj h).symm

theorem handlePrepareRsp_wrongType {cfg : Configure} {s : InstanceState} {rsp : PaxosMsg}
    (ht : rsp.type ≠ .prepareRsp) : s.handlePrepareRsp cfg rsp = some (s, []) := by
  unfold handlePrepareRsp
  cases s.req with
  | none => rfl
  | some req => simp [ht, prepareOut]

/-! ## Accept responses -/

/-- The response passes all the checks of `handleAcceptRsp`. -/
structure ValidAccept (req rsp : PaxosMsg) : Prop where
  type : rsp.type = .acceptRsp
  errcode : rsp.errcode = ErrCode.ok
  status : rsp.pp.status = .accepted
  pid : rsp.pp.pid = req.pp.pid
  valueId : rsp.pp.valueId = req.pp.valueId

instance (req rsp : PaxosMsg) : Decidable (ValidAccept req rsp) :=
  decidable_of_iff (rsp.type = .acceptRsp ∧ rsp.errcode = ErrCode.ok ∧ rsp.pp.status = .accepted ∧
      rsp.pp.pid = req.pp.pid ∧ rsp.pp.valueId = req.pp.valueId)
    ⟨fun ⟨h1, h2, h3, h4, h5⟩ => ⟨h1, h2, h3, h4, h5⟩,
      fun h => ⟨h.type, h.errcode, h.status, h.pid, h.valueId⟩⟩

theorem ValidAccept.congr {req m rsp : PaxosMsg}
    (h : req.pp.pid = m.pp.pid ∧ req.pp.valueId = m.pp.valueId) :
    ValidAccept req rsp ↔ ValidAccept m rsp :=
  ⟨fun hv => ⟨hv.type, hv.errcode, hv.status, hv.pid.trans h.1, hv.valueId.trans h.2⟩,
    fun hv => ⟨hv.type, hv.errcode, hv.status, hv.pid.trans h.1.symm, hv.valueId.trans h.2.symm⟩⟩

/-- The state once a valid answer has been counted. -/
def afterAccept (s : InstanceState) (req rsp : PaxosMsg) : InstanceState :=
  { s with
    rspCount := u8 (s.rspCount + 1)
    validRspCount := u8 (s.validRspCount + 1)
    req := some (merge req rsp) }

inductive AcceptRspDone (cfg : Configure) (s : InstanceState) (req rsp : PaxosMsg) :
    InstanceState → List Out → Prop
  | wrongType (ht : rsp.type ≠ .acceptRsp) : AcceptRspDone cfg s req rsp s []
  | refused {s' : InstanceState} {outs : List Out} (ret : Int) (req' : PaxosMsg) (ig : IdGen)
      (ht : rsp.type = .acceptRsp) (hv : ¬ ValidAccept req rsp) (hret : ret ≠ ErrCode.ok)
      (hreq : req' = req ∨ req' = merge req rsp)
      (hig : ig = s.ig ∨ ig = s.ig.setGreaterThan rsp.pp.pid)
      (ho : (s', outs) = acceptOut
        { s with rspCount := u8 (s.rspCount + 1), req := some req', ig := ig } ret (s.lastRsp cfg)) :
      AcceptRspDone cfg s req rsp s' outs
  | pending {s' : InstanceState} {outs : List Out} (hv : ValidAccept req rsp)
      (hno : ¬ cfg.majority ≤ u8 (s.validRspCount + 1))
      (ho : (s', outs) = acceptOut (s.afterAccept req rsp) ErrCode.ok (s.lastRsp cfg)) :
      AcceptRspDone cfg s req rsp s' outs
  | chosen {s' : InstanceState} {outs : List Out} (hv : ValidAccept req rsp)
      (hmaj : cfg.majority ≤ u8 (s.validRspCount + 1))
      (hs : s' = { (s.afterAccept req rsp).updateChosenInfo rsp.pp.pentry rsp.pp.proposer with req := none })
      (ho : outs = .rpc (asChosenReq cfg rsp) ::
        if s.notified then [] else [.setValue s.ret ErrCode.ok]) : AcceptRspDone cfg s req rsp s' outs

/-- What a chosen entry leaves as it is: all but the generator and the two fields about it. -/
structure ChosenKeeps (s s' : InstanceState) : Prop where
  ret : s'.ret = s.ret
  req : s'.req = s.req
  state : s'.state = s.state
  term : s'.term = s.term
  vig : s'.vig = s.vig
  proposerId : s'.proposerId = s.proposerId
  rspCount : s'.rspCount = s.rspCount
  validRspCount : s'.validRspCount = s.validRspCount
  lastv : s'.lastv = s.lastv

theorem updateChosenInfo_keeps (s : InstanceState) (chosen source : Nat) :
    ChosenKeeps s (s.updateChosenInfo chosen source) := by
  unfold updateChosenInfo
  split
  · exact ⟨rfl, rfl, rfl, rfl, rfl, rfl, rfl, rfl, rfl⟩
  · split <;> exact ⟨rfl, rfl, rfl, rfl, rfl, rfl, rfl, rfl, rfl⟩

theorem handleAcceptRsp_done {cfg : Configure} {s s' : InstanceState} {req rsp : PaxosMsg}
    {outs : List Out} (hreq : s.req = some req) (hr : s.handleAcceptRsp cfg rsp = (s', outs)) :
    AcceptRspDone cfg s req rsp s' outs := by
  unfold handleAcceptRsp at hr
  rw [hreq] at hr
  dsimp only at hr
  split at hr
  · rename_i ht
    cases hr
    exact .wrongType ht
  rename_i ht
  rw [ne_eq, not_not] at ht
  split at hr
  · rename_i he
    exact .refused rsp.errcode req s.ig ht (fun hv => he hv.errcode) he (.inl rfl) (.inl rfl)
      hr.symm
  rename_i he
  rw [ne_eq, not_not] at he
  split at hr
  · rename_i hst
    exact .refused ErrCode.peerAcceptFail req s.ig ht (fun hv => hst hv.status) (by decide)
      (.inl rfl)
      (.inl rfl) hr.symm
  rename_i hst
  rw [ne_eq, not_not] at hst
  split at hr
  · rename_i hpid
    exact .refused ErrCode.peerAcceptRejected (merge req rsp) (s.ig.setGreaterThan rsp.pp.pid) ht
      (fun hv => hpid hv.pid) (by decide) (.inr rfl) (.inr rfl) hr.symm
  rename_i hpid
  rw [ne_eq, not_not] at hpid
  split at hr
  · rename_i hvid
    exact .refused ErrCode.peerAcceptOtherValue (merge req rsp) s.ig ht (fun hv => hvid hv.valueId)
      (by decide) (.inr rfl) (.inl rfl) hr.symm
  rename_i hvid
  rw [ne_eq, not_not] at hvid
  have hv : ValidAccept req rsp := ⟨ht, he, hst, hpid, hvid⟩
  split at hr
  · rename_i hmaj
    obtain ⟨hs, ho⟩ := Prod.mk.inj hr
    have hkeeps := updateChosenInfo_keeps (s.afterAccept req rsp)
      (asChosenReq cfg rsp).pp.pentry (asChosenReq cfg rsp).pp.proposer
    refine .chosen hv hmaj hs.symm ?_
    have hn : ((s.afterAccept req rsp).updateChosenInfo (asChosenReq cfg rsp).pp.pentry
        (asChosenReq cfg rsp).pp.proposer).notified = s.notified := by
      unfold notified
      rw [hkeeps.state]
      rfl
    rw [← ho]
    change Out.rpc (asChosenReq cfg rsp) :: (acceptOut ((s.afterAccept req rsp).updateChosenInfo
      (asChosenReq cfg rsp).pp.pentry (asChosenReq cfg rsp).pp.proposer) ErrCode.ok true).2 = _
    simp only [acceptOut, if_true, hn, hkeeps.ret]
    rfl
  · rename_i hno
    exact .pending hv hno hr.symm

/-- What a response of the own instance does: the term and the phase pick the handler. -/
def handleRsp (cfg : Configure) (s : InstanceState) (term : Nat) (rsp : PaxosMsg) :
    Option (InstanceState × List Out) :=
  if ¬ s.Awaits term then some (s, [])
  else if s.phase = preparingPhase then s.handlePrepareRsp cfg rsp
  else if s.phase = acceptingPhase then some (s.handleAcceptRsp cfg rsp)
  else some (s, [])

end InstanceState

/-- What a callback does: `pinst` is its instance, the one of the body is updated. -/
inductive Proposer.RpcResponseDone (cfg : Configure) (p : Proposer) (m : RpcResponseMsg) :
    Proposer → List Out → Prop
  | late (haw : ¬ (p (m.pinst % cfg.plogInstNum)).Awaits m.term) : RpcResponseDone cfg p m p []
  | timeout (haw : (p (m.pinst % cfg.plogInstNum)).Awaits m.term) (hmsg : m.msg = none) :
      RpcResponseDone cfg p m
        (Function.update p (m.pinst % cfg.plogInstNum) (p (m.pinst % cfg.plogInstNum)).handleTimeout.1)
        (p (m.pinst % cfg.plogInstNum)).handleTimeout.2
  | prepare {s' : InstanceState} {outs : List Out} (rsp : PaxosMsg)
      (haw : (p (m.pinst % cfg.plogInstNum)).Awaits m.term) (hmsg : m.msg = some rsp)
      (hph : (p (m.pinst % cfg.plogInstNum)).phase = preparingPhase)
      (hs : (p rsp.pp.pinst).handlePrepareRsp cfg rsp = some (s', outs)) :
      RpcResponseDone cfg p m (Function.update p rsp.pp.pinst s') outs
  | accept {s' : InstanceState} {outs : List Out} (rsp : PaxosMsg)
      (haw : (p (m.pinst % cfg.plogInstNum)).Awaits m.term) (hmsg : m.msg = some rsp)
      (hph : (p (m.pinst % cfg.plogInstNum)).phase = acceptingPhase)
      (hs : (p rsp.pp.pinst).handleAcceptRsp cfg rsp = (s', outs)) :
      RpcResponseDone cfg p m (Function.update p rsp.pp.pinst s') outs
  | phaseless (rsp : PaxosMsg) (hmsg : m.msg = some rsp)
      (hp : (p (m.pinst % cfg.plogInstNum)).phase ≠ preparingPhase)
      (ha : (p (m.pinst % cfg.plogInstNum)).phase ≠ acceptingPhase) : RpcResponseDone cfg p m p []

theorem Proposer.handleRpcResponse_done {cfg : Configure} {p p' : Proposer} {m : RpcResponseMsg}
    {outs : List Out} (h : p.handleRpcResponse cfg m = some (p', outs)) :
    p.RpcResponseDone cfg m p' outs := by
  unfold Proposer.handleRpcResponse at h
  dsimp only at h
  split at h
  · rename_i haw
    cases h
    exact .late haw
  rename_i haw
  rw [not_not] at haw
  split at h
  · rename_i hmsg
    cases h
    exact .timeout haw hmsg
  rename_i rsp hmsg
  split at h
  · rename_i hph
    obtain ⟨⟨s', o⟩, hs, he⟩ := Option.map_eq_some_iff.mp h
    cases he
    exact .prepare rsp haw hmsg hph hs
  rename_i hp
  split at h
  · rename_i hph
    cases h
    exact .accept rsp haw hmsg hph rfl
  · rename_i ha
    cases h
    exact .phaseless rsp hmsg hp ha

theorem update_keeps {P : InstanceState → InstanceState → Prop} {p : Proposer} {i : Nat}
    {s : InstanceState} (hsame : ∀ t, P t t) (hs : P (p i) s) (j : Nat) :
    P (p j) (Function.update p i s j) := by
  by_cases hj : j = i
  · subst hj
    rw [Function.update_self]
    exact hs
  · rw [Function.update_of_ne hj]
    exact hsame _

theorem Proposer.handleRpcResponse_own {cfg : Configure} {p : Proposer} {m : RpcResponseMsg}
    {rsp : PaxosMsg} (hm : m.msg = some rsp) (hb : rsp.pp.pinst = m.pinst % cfg.plogInstNum) :
    p.handleRpcResponse cfg m = ((p (m.pinst % cfg.plogInstNum)).handleRsp cfg m.term rsp).map
      fun r => (Function.update p (m.pinst % cfg.plogInstNum) r.1, r.2) := by
  unfold Proposer.handleRpcResponse InstanceState.handleRsp
  rw [hm]
  dsimp only
  rw [hb]
  split
  · simp
  · split
    · rfl
    · split
      · rfl
      · simp

end Quarrel
