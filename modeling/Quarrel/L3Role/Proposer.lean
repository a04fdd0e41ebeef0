import Quarrel.L1Data.Config
import Quarrel.L1Data.IdGen
import Mathlib.Logic.Function.Basic

/-!
# The proposer (`core/proposer.cpp`)

A proposer is an array of `InstanceState`s. Every function takes the instance it
runs on and returns it together with what it did to the outside (`Out`): the
messages handed to every connection, the promises set, the timeouts armed. The
callback of a broadcast carries instance, entry and term of the message, so
`Out.rpc` keeps the message only. `none` is a process that has died, on a
failed assertion or on a null pointer.

A promise is a number, the one its `ProposeAsync` call was given.

The message of a broadcast is copied here. In the program the connections share
it with `req_`.
-/
namespace Quarrel

/-- `uint8_t(x)`. -/
def u8 (x : Nat) : Nat := x % 2 ^ 8

/-- The phases of `state_`. mirrors core/ptype.h:35-39 -/
def preparingPhase : UInt8 := 21
def acceptingPhase : UInt8 := 23

/-- mirrors core/proposer.cpp:10-44 -/
structure InstanceState where
  proposerId : Nat
  lastChosenFrom : Nat
  lastChosenEntry : Nat
  term : Nat
  ig : IdGen
  vig : IdGen
  state : UInt8
  rspCount : Nat
  validRspCount : Nat
  ret : Nat
  req : Option PaxosMsg
  lastv : Option PaxosMsg
  deriving DecidableEq

/-- What a step does to the outside. -/
inductive Out where
  | rpc (msg : PaxosMsg)
  | setValue (promise : Nat) (code : Int)
  | addTimeout (pinst entry term : Nat)
  deriving DecidableEq

/-- The promises set, with the codes they are set to. -/
def promisesSet (outs : List Out) : List (Nat × Int) :=
  outs.filterMap fun
    | .setValue promise code => some (promise, code)
    | _ => none

/-- The messages broadcast. -/
def broadcasts (outs : List Out) : List PaxosMsg :=
  outs.filterMap fun
    | .rpc msg => some msg
    | _ => none

/-- mirrors core/proposer.h:61-66 -/
structure RpcResponseMsg where
  term : Nat
  pinst : Nat
  entry : Nat
  msg : Option PaxosMsg

namespace InstanceState

/-- `sec` is the time of the construction.
mirrors core/proposer.cpp:42-43 -/
def new (pid proposerCount sec : Nat) : InstanceState where
  proposerId := pid
  lastChosenFrom := noProposer
  lastChosenEntry := 0
  term := 0
  ig := ⟨pid + 1, proposerCount⟩
  vig := IdGen.byDate sec 0xff 1
  state := 0
  rspCount := 0
  validRspCount := 0
  ret := 0
  req := none
  lastv := none

/-- The highest bit of `state_`: the caller has been told the result. -/
def notified (s : InstanceState) : Bool := s.state &&& 0x80 ≠ 0

/-- The other bits of `state_`. -/
def phase (s : InstanceState) : UInt8 := s.state &&& 0x7f

/-- mirrors core/proposer.cpp:71-105 -/
def allocPaxosMsg (cfg : Configure) (s : InstanceState) (pinst opaqueData : Nat)
    (val : List UInt8) :
    PaxosMsg × InstanceState :=
  let valueSize := u32 val.length
  -- value size == 0 indicates a read probe, which consumes no proposal id
  let pid := if valueSize ≠ 0 then s.ig.getAndInc.1 ||| cfg.pidCookie else 0
  let ig := if valueSize ≠ 0 then s.ig.getAndInc.2 else s.ig
  ({ allocProposalMsg valueSize with
      fromId := cfg.localId
      type := .prepareReq
      version := cfg.msgVersion
      pp := { allocProposal valueSize with
        pid := pid
        pinst := pinst
        pentry := s.lastChosenEntry + 1
        opaqueData := opaqueData
        status := .prepared
        proposer := u16 s.proposerId
        term := s.term
        valueId := s.vig.getAndInc.1
        lastChosen := s.lastChosenEntry
        lastChosenFrom := u16 s.lastChosenFrom
        data := val } },
    { s with ig := ig, term := s.term + 1, vig := s.vig.getAndInc.2 })

/-- mirrors core/proposer.cpp:107-111 -/
def updatePrepareId (s : InstanceState) (pid : Nat) : InstanceState :=
  { s with ig := s.ig.setGreaterThan pid }

/-- mirrors core/proposer.cpp:113-136 -/
def updateChosenInfo (s : InstanceState) (chosen source : Nat) : InstanceState :=
  if chosen = 0 ∨ chosen = noEntry then s
  else if chosen < s.lastChosenEntry then s
  else { s with
    ig := s.ig.reset (s.proposerId + 1)
    lastChosenEntry := chosen
    lastChosenFrom := u32 source }

/-- mirrors core/proposer.cpp:138-154 -/
def onEntryChosen (s : InstanceState) (pp : Proposal) (fromPlog : Bool) : InstanceState :=
  if fromPlog ∧ s.proposerId ≠ 0 then s else s.updateChosenInfo pp.pentry pp.proposer

/-- mirrors core/proposer.cpp:156-195 -/
def canSkipPrepare (s : InstanceState) (pp : Proposal) : Bool :=
  s.lastChosenEntry = pp.pentry - 1 ∧ s.lastChosenFrom = s.proposerId ∧ pp.pid = s.proposerId + 1

/-- The timing wheel takes every timeout.
mirrors core/proposer.cpp:278-298 -/
def setupWaitState (s : InstanceState) (pinst entry : Nat) (state : UInt8) (promise : Option Nat)
    (pm : Option PaxosMsg) : InstanceState × List Out :=
  let s := { s with rspCount := 0, validRspCount := 0, state := state, ret := promise.getD s.ret }
  match pm with
  | some m => ({ s with req := some m }, [.addTimeout pinst entry m.pp.term])
  | none => (s, [])

/-- `m` turned into an ACCEPT request.
mirrors core/proposer.cpp:360-364,502-507 -/
def asAcceptReq (cfg : Configure) (s : InstanceState) (m : PaxosMsg) : PaxosMsg :=
  { m with
    fromId := cfg.localId
    type := .acceptReq
    pp := { m.pp with
      status := .accepted
      lastChosen := s.lastChosenEntry
      lastChosenFrom := u16 s.lastChosenFrom } }

/-- The copy the acceptors get to prepare: the value stays behind.
mirrors core/proposer.cpp:334-338 -/
def asPrepareReq (m : PaxosMsg) : PaxosMsg :=
  cloneProposalMsg { m with size := sub32 m.size m.pp.size, pp := { m.pp with size := 0 } }

/-- `promise` is the promise of this call; `oom` is a failed allocation. The copy of a value of
2^32 bytes or more overruns the message of the source, while the call goes on here.
mirrors core/proposer.cpp:306-375 -/
def proposeAsync (cfg : Configure) (s : InstanceState) (pinst opaqueData : Nat) (val : List UInt8)
    (promise : Nat) (oom : Bool) : InstanceState × List Out :=
  if s.req.isSome then (s, [.setValue promise ErrCode.workingInProgress])
  else if oom then (s, [.setValue promise ErrCode.oom])
  else
    match s.allocPaxosMsg cfg pinst opaqueData val with
    | (pm, s) =>
      if val.isEmpty ∨ ¬ s.canSkipPrepare pm.pp then
        -- an empty value indicates a read probe which must always perform prepare
        match s.setupWaitState pinst pm.pp.pentry preparingPhase (some promise) (some pm) with
        | (s, outs) => (s, .rpc (asPrepareReq pm) :: outs)
      else
        -- fast accept this way
        let pm := asAcceptReq cfg s pm
        match s.setupWaitState pinst pm.pp.pentry acceptingPhase (some promise) (some pm) with
        | (s, outs) => (s, .rpc pm :: outs)

/-! ## Prepare responses -/

/-- What follows the label `out`.
mirrors core/proposer.cpp:531-551 -/
def prepareOut (s : InstanceState) (ret : Int) (done firstGotLastv : Bool) :
    InstanceState × List Out :=
  let early := if firstGotLastv ∧ s.notified then [.setValue s.ret ErrCode.preparePeerValue] else []
  if done then
    let ret := if ret < 0 then ErrCode.prepareNotQuoraum else ret
    ({ s with req := none }, early ++ if s.notified then [] else [.setValue s.ret ret])
  else (s, early)

/-- The peer's vote is kept if it is the first one or has the largest id.
mirrors core/proposer.cpp:462-484 -/
def takeLastVote (s : InstanceState) (rsp : PaxosMsg) : InstanceState :=
  if ¬ s.notified ∨ (∀ l ∈ s.lastv, l.pp.pid < rsp.pp.pid) then
    { s with state := s.state ||| 0x80, lastv := some (cloneProposalMsg rsp) }
  else s

/-- A majority has promised: the ACCEPT phase, for the last vote if there is one.
mirrors core/proposer.cpp:499-518 -/
def startAccept (cfg : Configure) (s : InstanceState) (req : PaxosMsg) (firstGotLastv : Bool) :
    Option (InstanceState × List Out) :=
  match if s.notified then s.lastv else some req with
  | none => none
  | some m =>
    let m := asAcceptReq cfg s m
    let s := { s with lastv := none, req := if s.notified then some req else some m }
    match s.setupWaitState m.pp.pinst m.pp.pentry (acceptingPhase ||| (s.state &&& 0x80)) none none with
    | (s, _) =>
      let r := s.prepareOut ErrCode.ok false firstGotLastv
      some (r.1, .rpc m :: r.2)

/-- A valid promise is counted, and its vote kept if it carries another value.
mirrors core/proposer.cpp:438-487 -/
def countPromise (s : InstanceState) (req rsp : PaxosMsg) : InstanceState :=
  let s := if rsp.pp.valueId ≠ req.pp.valueId then s.takeLastVote rsp else s
  { s with validRspCount := u8 (s.validRspCount + 1) }

/-- A response that promises: `rsp_count_` is counted, `req` has the peer's metadata.
mirrors core/proposer.cpp:438-551 -/
def preparePromised (cfg : Configure) (s : InstanceState) (req rsp : PaxosMsg) (done : Bool) :
    Option (InstanceState × List Out) :=
  if rsp.pp.valueId ≠ req.pp.valueId ∧ ¬ rsp.pp.size > 0 then none
  else
    let firstGotLastv : Bool := rsp.pp.valueId ≠ req.pp.valueId ∧ ¬ s.notified
    let s := s.countPromise req rsp
    if s.validRspCount ≥ cfg.majority ∧ (s.notified → done) then
      if rsp.pp.pid > 0 then startAccept cfg s req firstGotLastv
      else
        -- pid == 0 indicates read probe
        some (s.prepareOut ErrCode.ok true firstGotLastv)
    else some (s.prepareOut ErrCode.ok done firstGotLastv)

/-- mirrors core/proposer.cpp:377-551 -/
def handlePrepareRsp (cfg : Configure) (s : InstanceState) (rsp : PaxosMsg) :
    Option (InstanceState × List Out) :=
  match s.req with
  | none => some (s, [])
  | some req =>
    if rsp.type ≠ .prepareRsp then some (s.prepareOut (-1) false false)
    else
      let s := { s with rspCount := u8 (s.rspCount + 1) }
      let done : Bool := s.rspCount = cfg.totalAcceptor
      if rsp.errcode ≠ ErrCode.ok then some (s.prepareOut rsp.errcode done false)
      else if rsp.pp.status ≠ .promised then some (s.prepareOut (-2) done false)
      else
        let req := { req with pp := copyProposalMeta req.pp rsp.pp }
        let s := { s with req := some req }
        if rsp.pp.pid > req.pp.pid then
          some ((s.updatePrepareId rsp.pp.pid).prepareOut (-3) done false)
        else preparePromised cfg s req rsp done

/-! ## Accept responses -/

/-- What follows the label `out`.
mirrors core/proposer.cpp:638-648 -/
def acceptOut (s : InstanceState) (ret : Int) (done : Bool) : InstanceState × List Out :=
  if done then ({ s with req := none }, if s.notified then [] else [.setValue s.ret ret])
  else (s, [])

/-- The response turned into the CHOSEN broadcast.
mirrors core/proposer.cpp:626-632 -/
def asChosenReq (cfg : Configure) (rsp : PaxosMsg) : PaxosMsg :=
  { rsp with
    size := sub32 rsp.size rsp.pp.size
    fromId := cfg.localId
    type := .chosenReq
    pp := { rsp.pp with size := 0, status := .chosen } }

/-- mirrors core/proposer.cpp:560-648 -/
def handleAcceptRsp (cfg : Configure) (s : InstanceState) (rsp : PaxosMsg) :
    InstanceState × List Out :=
  match s.req with
  | none => (s, [])
  | some req =>
    if rsp.type ≠ .acceptRsp then s.acceptOut ErrCode.invalidAcceptRsp false
    else
      let s := { s with rspCount := u8 (s.rspCount + 1) }
      let done : Bool := s.rspCount = cfg.totalAcceptor
      if rsp.errcode ≠ ErrCode.ok then s.acceptOut rsp.errcode done
      else if rsp.pp.status ≠ .accepted then s.acceptOut ErrCode.peerAcceptFail done
      else
        let req := { req with pp := copyProposalMeta req.pp rsp.pp }
        let s := { s with req := some req }
        if rsp.pp.pid ≠ req.pp.pid then
          (s.updatePrepareId rsp.pp.pid).acceptOut ErrCode.peerAcceptRejected done
        else if rsp.pp.valueId ≠ req.pp.valueId then s.acceptOut ErrCode.peerAcceptOtherValue done
        else
          let s := { s with validRspCount := u8 (s.validRspCount + 1) }
          if s.validRspCount ≥ cfg.majority then
            let m := asChosenReq cfg rsp
            let r := (s.updateChosenInfo m.pp.pentry m.pp.proposer).acceptOut ErrCode.ok true
            (r.1, .rpc m :: r.2)
          else s.acceptOut ErrCode.ok done

/-- The timeout of the round.
mirrors core/proposer.cpp:209-214 -/
def handleTimeout (s : InstanceState) : InstanceState × List Out :=
  ({ s with req := none, lastv := none },
    if s.notified then [] else [.setValue s.ret ErrCode.timeout])

/-- The response is for the outstanding round. At the start `term_ - 1` is `~0`
and `req_` is null.
mirrors core/proposer.cpp:204 -/
def Awaits (s : InstanceState) (term : Nat) : Prop := term + 1 = s.term ∧ s.req.isSome

instance (s : InstanceState) (term : Nat) : Decidable (s.Awaits term) := by
  unfold Awaits; exact inferInstance

end InstanceState

/-! ## All instances -/

/-- `states_`. -/
abbrev Proposer := Nat → InstanceState

/-- mirrors core/proposer.cpp:46-64 -/
def Proposer.new (cfg : Configure) (sec : Nat) : Proposer := fun i =>
  InstanceState.new (getMemberIdBySvrId cfg.totalProposer i cfg.localId) cfg.totalProposer sec

/-- The instance of the callback picks the state whose term and phase are
checked, the instance of the response body the one that is updated.
mirrors core/proposer.cpp:197-227 -/
def Proposer.handleRpcResponse (cfg : Configure) (p : Proposer) (m : RpcResponseMsg) :
    Option (Proposer × List Out) :=
  let pinst := m.pinst % cfg.plogInstNum
  let s := p pinst
  if ¬ s.Awaits m.term then some (p, [])
  else
    match m.msg with
    | none =>
      let r := s.handleTimeout
      some (Function.update p pinst r.1, r.2)
    | some rsp =>
      let body := rsp.pp.pinst
      if s.phase = preparingPhase then
        ((p body).handlePrepareRsp cfg rsp).map fun r => (Function.update p body r.1, r.2)
      else if s.phase = acceptingPhase then
        let r := (p body).handleAcceptRsp cfg rsp
        some (Function.update p body r.1, r.2)
      else some (p, [])

/-- What the callback of a broadcast queues for a response.
mirrors core/proposer.cpp:229-255 -/
def rpcResponseOf (req rsp : PaxosMsg) : RpcResponseMsg :=
  ⟨req.pp.term, req.pp.pinst, req.pp.pentry, some rsp⟩

/-- mirrors core/proposer.cpp:306-375 -/
def Proposer.proposeAsync (cfg : Configure) (p : Proposer) (opaqueData : Nat) (val : List UInt8)
    (pinst promise : Nat) (oom : Bool) : Proposer × List Out :=
  let i := pinst % cfg.plogInstNum
  let r := (p i).proposeAsync cfg i opaqueData val promise oom
  (Function.update p i r.1, r.2)

/-- mirrors core/proposer.cpp:138-154 -/
def Proposer.onEntryChosen (cfg : Configure) (p : Proposer) (msg : PaxosMsg) (fromPlog : Bool) :
    Proposer :=
  let i := msg.pp.pinst % cfg.plogInstNum
  Function.update p i ((p i).onEntryChosen msg.pp fromPlog)

end Quarrel
