import Quarrel.L2Plog.EntryMng

/-!
# The acceptor's handlers (`core/acceptor.cpp`)

Every call a handler makes on the plog is for the instance of its request, so a
handler works on the one `EntryMng` that `GetEntryMngAndCreateIfNotExist` picks
for it; `Acceptor.doHandleMsg` picks it. A request is at most two saves:
`Saves` carries their outcomes. The messages the acceptor queues for itself are
returned as `chores`.

`PrepareDone`, `AcceptDone` and `ChosenDone` say, branch by branch, what a
handler did to the manager and what it answered. `handlePrepareReq_done`,
`handleAcceptReq_done` and `handleChosenReq_done` prove it once; no later proof
unfolds a handler.
-/
namespace Quarrel

/-- Outcomes of the saves of one request: the one of `SetPromised`, `SetAccepted`
or `SetChosen`, and the one of `ClearPromised`. -/
structure Saves where
  set : Bool
  clear : Bool
  deriving DecidableEq, Repr

/-- Every save succeeds. -/
def Saves.good : Saves := ⟨true, true⟩

/-- A handled request: the response, the manager after it and the queued messages. -/
structure Handled where
  rsp : PaxosMsg
  mng : EntryMng
  chores : List PaxosMsg

/-- The message `TriggerLocalCatchup` queues.
mirrors core/acceptor.cpp:116-124 -/
def catchupMsg (pinst target : Nat) : PaxosMsg :=
  { allocProposalMsg 0 with
    type := .choreCatchup, pp := { allocProposal 0 with pinst := pinst, pentry := target } }

/-- mirrors core/acceptor.cpp:126-147 -/
def checkLocalAndMayTriggerCatchup (m : EntryMng) (pp : Proposal) :
    Int × EntryMng × List PaxosMsg :=
  let localLastChosen := m.lastChosenEntry
  if localLastChosen ≠ noEntry ∧ localLastChosen ≥ pp.pentry then
    (ErrCode.remoteNeedCatchup, m, [])
  else if pp.lastChosen > localLastChosen then
    (ErrCode.ok, m.setGlobalMaxChosenEntry pp.lastChosen,
      [catchupMsg pp.pinst (u64 (localLastChosen + 1))])
  else (ErrCode.ok, m, [])

/-! ## PREPARE -/

/-- The response: the header of `src` and `vsize` of its value bytes.
mirrors core/acceptor.cpp:207-219 -/
def prepareRsp (m : EntryMng) (errcode : Int) (vsize : Nat) (src : Proposal) (status : PaxosState) :
    PaxosMsg :=
  { allocProposalMsg vsize with
    errcode := errcode
    type := .prepareRsp
    pp := { src with
      data := src.data.take vsize
      status := status
      lastChosen := m.lastChosenEntry
      lastChosenFrom := u16 noProposer } }

section

variable (m : EntryMng) (e : Int) (n : Nat) (src : Proposal) (st : PaxosState)

@[simp] theorem prepareRsp_errcode : (prepareRsp m e n src st).errcode = e := rfl
@[simp] theorem prepareRsp_status : (prepareRsp m e n src st).pp.status = st := rfl
@[simp] theorem prepareRsp_pid : (prepareRsp m e n src st).pp.pid = src.pid := rfl
@[simp] theorem prepareRsp_valueId : (prepareRsp m e n src st).pp.valueId = src.valueId := rfl
@[simp] theorem prepareRsp_pinst : (prepareRsp m e n src st).pp.pinst = src.pinst := rfl
@[simp] theorem prepareRsp_size : (prepareRsp m e n src st).pp.size = src.size := rfl

end

/-- A new proposal request.
mirrors core/acceptor.cpp:190-204 -/
def promiseNew (m : EntryMng) (saves : Saves) (pp : Proposal) : PaxosMsg × EntryMng :=
  if pp.pid > 0 then
    let pp := { pp with status := .promised }
    match m.setPromised saves.set pp with
    | (ret, m) =>
      if ret ≠ ErrCode.ok then (prepareRsp m ErrCode.writePlogFail 0 pp .promisedFailed, m)
      else (prepareRsp m ErrCode.ok pp.size pp .promised, m)
  else
    -- pid == 0 indicates a read probe
    (prepareRsp m ErrCode.ok pp.size pp .promised, m)

/-- The entry as it stands decides the answer.
mirrors core/acceptor.cpp:171-205 -/
def prepareEntry (m : EntryMng) (saves : Saves) (pp : Proposal) (ent : Entry) :
    PaxosMsg × EntryMng :=
  match ent.accepted, ent.promised with
  | some existed, _ => (prepareRsp m ErrCode.ok existed.size existed .accepted, m)
  | none, some promise =>
    if promise.pid ≥ pp.pid then (prepareRsp m ErrCode.ok promise.size promise .promised, m)
    else promiseNew m saves pp
  | none, none => promiseNew m saves pp

/-- mirrors core/acceptor.cpp:149-220 -/
def handlePrepareReq (m : EntryMng) (saves : Saves) (pp : Proposal) : Handled :=
  match checkLocalAndMayTriggerCatchup m pp with
  | (ret, m, chores) =>
    if ret ≠ ErrCode.ok then
      let status := if ret = ErrCode.needCatchup then .localLagBehind else .remoteLagBehind
      ⟨prepareRsp m ret 0 pp status, m, chores⟩
    else
      match m.getEntryAndCreateIfNotExist pp.pentry with
      | (ent, m) =>
        match prepareEntry m saves pp ent with
        | (rsp, m) => ⟨rsp, m, chores⟩

/-! ## ACCEPT -/

/-- The response of the early exit: nothing of the request is copied into it.
mirrors core/acceptor.cpp:227-239 -/
def acceptLagRsp (m : EntryMng) (errcode : Int) : PaxosMsg :=
  { allocProposalMsg 0 with
    type := .acceptRsp
    errcode := errcode
    pp := { allocProposal 0 with
      status := .localLagBehind
      lastChosen := m.lastChosenEntry
      lastChosenFrom := u16 noProposer } }

/-- The header of `src`, without its value.
mirrors core/acceptor.cpp:334-348 -/
def acceptRsp (m : EntryMng) (errcode : Int) (src : Proposal) (accepted : Bool) : PaxosMsg :=
  { allocProposalMsg 0 with
    type := .acceptRsp
    errcode := errcode
    pp := { src with
      size := 0
      data := []
      status := if accepted then .accepted else .acceptedFailed
      lastChosen := m.lastChosenEntry
      lastChosenFrom := u16 noProposer } }

section

variable (m : EntryMng) (e : Int) (src : Proposal) (accepted : Bool)

@[simp] theorem acceptLagRsp_errcode : (acceptLagRsp m e).errcode = e := rfl
@[simp] theorem acceptLagRsp_status : (acceptLagRsp m e).pp.status = .localLagBehind := rfl
@[simp] theorem acceptLagRsp_pinst : (acceptLagRsp m e).pp.pinst = 0 := rfl
@[simp] theorem acceptRsp_errcode : (acceptRsp m e src accepted).errcode = e := rfl
@[simp] theorem acceptRsp_status :
    (acceptRsp m e src accepted).pp.status = if accepted then .accepted else .acceptedFailed := rfl
@[simp] theorem acceptRsp_pid : (acceptRsp m e src accepted).pp.pid = src.pid := rfl
@[simp] theorem acceptRsp_valueId : (acceptRsp m e src accepted).pp.valueId = src.valueId := rfl
@[simp] theorem acceptRsp_pinst : (acceptRsp m e src accepted).pp.pinst = src.pinst := rfl

end

/-- The locals of `handleAcceptReq` when the entry has been decided upon. -/
structure AcceptOutcome where
  accepted : Bool
  errcode : Int
  acceptedPp : Proposal
  mng : EntryMng

/-- An entry with an accepted proposal. After a failed renewal the entry in
memory already holds the request, and that is what is echoed.
mirrors core/acceptor.cpp:250-309 -/
def acceptOver (m : EntryMng) (saves : Saves) (pp existed : Proposal) : AcceptOutcome :=
  if existed.status ≠ .chosen ∧ existed.status ≠ .accepted then
    ⟨false, ErrCode.invalidPlogData, pp, m⟩
  else if existed.pid = pp.pid ∧ existed.valueId = pp.valueId then
    ⟨true, ErrCode.duplicateProposalReq, existed, m⟩
  else if existed.pid < pp.pid then
    if existed.status ≠ .chosen then
      let pp := { pp with status := .accepted }
      match m.setAccepted saves.set pp with
      | (ret, m) =>
        if ret = ErrCode.ok then ⟨true, ErrCode.ok, pp, m⟩
        else ⟨false, ErrCode.writePlogFail, cloneProposal pp, m⟩
    else ⟨false, ErrCode.invalidProposalReq, existed, m⟩
  else ⟨false, ErrCode.invalidProposalReq, existed, m⟩

/-- An entry with a promise and no accepted proposal.
mirrors core/acceptor.cpp:310-322 -/
def acceptPromised (m : EntryMng) (saves : Saves) (pp promise : Proposal) : AcceptOutcome :=
  if promise.pid ≤ pp.pid then
    let pp := { pp with status := .accepted }
    match m.setAccepted saves.set pp with
    | (ret, m) =>
      if ret = ErrCode.ok then ⟨true, ErrCode.ok, pp, m⟩
      else ⟨false, ErrCode.writePlogFail, { pp with status := .promised }, m⟩
  else ⟨false, ErrCode.ok, pp, m⟩

/-- #0 proposal optimization: an entry nothing is known about.
mirrors core/acceptor.cpp:323-332 -/
def acceptFast (m : EntryMng) (saves : Saves) (pp : Proposal) : AcceptOutcome :=
  let pp := { pp with status := .accepted }
  match m.setAccepted saves.set pp with
  | (ret, m) =>
    if ret = ErrCode.ok then ⟨true, ErrCode.ok, pp, m⟩
    else ⟨false, ErrCode.writePlogFail, { pp with status := .fastAcceptFailed }, m⟩

/-- mirrors core/acceptor.cpp:243-332 -/
def acceptEntry (m : EntryMng) (saves : Saves) (pp : Proposal) (ent : Entry) : AcceptOutcome :=
  match ent.accepted, ent.promised with
  | some existed, _ => acceptOver m saves pp existed
  | none, some promise => acceptPromised m saves pp promise
  | none, none => acceptFast m saves pp

/-- mirrors core/acceptor.cpp:222-351 -/
def handleAcceptReq (m : EntryMng) (saves : Saves) (pp : Proposal) : Handled :=
  match checkLocalAndMayTriggerCatchup m pp with
  | (ret, m, chores) =>
    if ret ≠ ErrCode.ok then ⟨acceptLagRsp m ret, m, chores⟩
    else
      match m.getEntryAndCreateIfNotExist pp.pentry with
      | (ent, m) =>
        let o := acceptEntry m saves pp ent
        let rsp := acceptRsp o.mng o.errcode o.acceptedPp o.accepted
        let m := if o.accepted then (o.mng.clearPromised saves.clear pp.pentry).2 else o.mng
        ⟨rsp, m, chores⟩

/-! ## CHOSEN -/

/-- mirrors core/acceptor.cpp:360-375 -/
def chosenRsp (pp : Proposal) (errcode : Int) (status : PaxosState) : PaxosMsg :=
  { allocProposalMsg 0 with
    errcode := errcode, pp := { pp with size := 0, data := [], status := status } }

/-- The response once the entry was saved, or not, as chosen.
mirrors core/acceptor.cpp:383-398 -/
def chosenSavedRsp (m : EntryMng) (pp : Proposal) (errcode : Int) (status : PaxosState) :
    PaxosMsg :=
  let rsp := chosenRsp pp errcode status
  { rsp with pp := { rsp.pp with lastChosen := m.lastChosenEntry, lastChosenFrom := u16 noProposer } }

section

variable (m : EntryMng) (pp : Proposal) (e : Int) (st : PaxosState)

@[simp] theorem chosenRsp_errcode : (chosenRsp pp e st).errcode = e := rfl
@[simp] theorem chosenRsp_status : (chosenRsp pp e st).pp.status = st := rfl
@[simp] theorem chosenRsp_pid : (chosenRsp pp e st).pp.pid = pp.pid := rfl
@[simp] theorem chosenRsp_valueId : (chosenRsp pp e st).pp.valueId = pp.valueId := rfl
@[simp] theorem chosenRsp_pinst : (chosenRsp pp e st).pp.pinst = pp.pinst := rfl
@[simp] theorem chosenSavedRsp_errcode : (chosenSavedRsp m pp e st).errcode = e := rfl
@[simp] theorem chosenSavedRsp_status : (chosenSavedRsp m pp e st).pp.status = st := rfl
@[simp] theorem chosenSavedRsp_pid : (chosenSavedRsp m pp e st).pp.pid = pp.pid := rfl
@[simp] theorem chosenSavedRsp_valueId : (chosenSavedRsp m pp e st).pp.valueId = pp.valueId := rfl
@[simp] theorem chosenSavedRsp_pinst : (chosenSavedRsp m pp e st).pp.pinst = pp.pinst := rfl

end

/-- mirrors core/acceptor.cpp:353-399 -/
def handleChosenReq (m : EntryMng) (saves : Saves) (pp : Proposal) : Handled :=
  match m.getEntryAndCreateIfNotExist pp.pentry with
  | (ent, m) =>
    match ent.accepted with
    | none => ⟨chosenRsp pp ErrCode.invalidProposalReq .invalidProposal, m, []⟩
    | some existed =>
      if pp.pid ≠ existed.pid ∨ pp.valueId ≠ existed.valueId then
        ⟨chosenRsp pp ErrCode.invalidProposalReq .invalidProposal, m, []⟩
      else if existed.status = .chosen then ⟨chosenRsp pp ErrCode.ok .alreadyChosen, m, []⟩
      else
        let m :=
          m.setEntry pp.pentry { ent with accepted := some { existed with status := .chosen } }
        match m.setChosen saves.set pp.pentry with
        | (err, m) =>
          if err ≠ ErrCode.ok then
            ⟨chosenSavedRsp m pp ErrCode.writePlogFail .commitFailed,
              m.setEntry pp.pentry { ent with accepted := some { existed with status := .accepted } }, []⟩
          else ⟨chosenSavedRsp m pp ErrCode.ok .chosen, m, []⟩

/-! ## Dispatch -/

/-- The plog managers of an acceptor, by instance, and the messages it queued for itself. -/
structure Acceptor where
  mngs : Nat → EntryMng
  chores : List PaxosMsg

/-- An acceptor just started over the storages `disks`. -/
def Acceptor.new (cfg : Configure) (disks : Nat → Nat → Option Entry) : Acceptor where
  mngs i := EntryMng.new cfg i (disks i)
  chores := []

/-- mirrors core/plog.cpp:290-298 -/
def Configure.mngOf (cfg : Configure) (pinst : Nat) : Nat := pinst % cfg.plogInstNum

/-- The request's type picks its handler; `none` is a message that has none, and
`doCatchupFromPeer` is not yet written. -/
def handlerOf : PaxosMsgType → Option (PaxosMsgType × (EntryMng → Saves → Proposal → Handled))
  | .prepareReq => some (.prepareRsp, handlePrepareReq)
  | .acceptReq => some (.acceptRsp, handleAcceptReq)
  | .chosenReq => some (.chosenRsp, handleChosenReq)
  | _ => none

/-- mirrors core/acceptor.cpp:58-94 -/
def Acceptor.doHandleMsg (cfg : Configure) (a : Acceptor) (saves : Saves) (msg : PaxosMsg) :
    Option PaxosMsg × Acceptor :=
  let answer (rsp : PaxosMsg) : PaxosMsg :=
    { rsp with fromId := cfg.localId, version := msg.version, magic := msg.magic, reqid := msg.reqid }
  match handlerOf msg.type with
  | some (type, handler) =>
    let i := cfg.mngOf msg.pp.pinst
    let h := handler (a.mngs i) saves msg.pp
    (some (answer { h.rsp with type := type }),
      { mngs := Function.update a.mngs i h.mng, chores := a.chores ++ h.chores })
  | none =>
    if msg.type = .choreCatchup then (none, a)
    else
      -- only the header is copied; no proposal follows it
      (some (answer { msg with size := 0, type := .invalidReq, pp := allocProposal 0 }), a)

end Quarrel
