import Mathlib.Algebra.Group.Nat.Defs
import Mathlib.Data.List.Basic

/-!
# Wire types (`core/ptype.h`, `core/ptype.cpp`)

A `Proposal` is a packed header followed by `size` value bytes; a `PaxosMsg`
is a packed header followed by one proposal. The header's `size` and the bytes
that really follow it (`data`) are kept apart, because the handlers edit the
one without the other.

Numbers are naturals. `noEntry` is the `~0ull` the program uses for "no entry";
error codes are the program's own negative numbers, since handlers compare them
with zero.
-/
namespace Quarrel

/-- `~0ull`: no entry. -/
def noEntry : Nat := 2 ^ 64 - 1

/-- `~0u`. -/
def noProposer : Nat := 2 ^ 32 - 1

/-- `uint16_t(x)`. -/
def u16 (x : Nat) : Nat := x % 2 ^ 16

/-- `uint32_t(x)`. -/
def u32 (x : Nat) : Nat := x % 2 ^ 32

/-- `x - y`, of two `uint32_t`. -/
def sub32 (x y : Nat) : Nat := u32 (x + (2 ^ 32 - y))

/-- `uint64_t(x)`. -/
def u64 (x : Nat) : Nat := x % 2 ^ 64

/-- mirrors core/ptype.h:20-40 -/
inductive PaxosState where
  | init | prepared | promised | accepted | chosen | alreadyChosen | promisedFailed | acceptedFailed
  | commitFailed | invalidProposal | localLagBehind | remoteLagBehind | fastAcceptFailed
  | preparing | promising | accepting | choosing
  deriving DecidableEq, Repr

/-- mirrors core/ptype.h:42-53 -/
inductive PaxosMsgType where
  | invalid | prepareReq | prepareRsp | acceptReq | acceptRsp | chosenReq | chosenRsp
  | choreReq | choreCatchup | invalidReq
  deriving DecidableEq, Repr

/-! Error codes. mirrors core/ptype.h:55-87 -/
namespace ErrCode

abbrev ok : Int := 0
abbrev oom : Int := -30001
abbrev timeout : Int := -30002
abbrev prepareNotQuoraum : Int := -30003
abbrev plogNotExist : Int := -30006
abbrev preparePeerValue : Int := -30007
abbrev invalidPlogData : Int := -30008
abbrev unmarshalPlogFail : Int := -30009
abbrev proposalNotExist : Int := -30012
abbrev writePlogFail : Int := -30013
abbrev invalidProposalReq : Int := -30014
abbrev duplicateProposalReq : Int := -30015
abbrev needCatchup : Int := -30016
abbrev entryNotExist : Int := -30017
abbrev remoteNeedCatchup : Int := -30020
abbrev workingInProgress : Int := -30021
abbrev peerAcceptFail : Int := -30024
abbrev invalidAcceptRsp : Int := -30025
abbrev peerAcceptRejected : Int := -30026
abbrev peerAcceptOtherValue : Int := -30027

end ErrCode

/-- `MAX_ACCEPTOR_NUM`. -/
def maxAcceptorNum : Nat := 7

/-- mirrors core/ptype.h:91-107 -/
structure Proposal where
  pid : Nat
  term : Nat
  pinst : Nat
  pentry : Nat
  lastChosen : Nat
  lastChosenFrom : Nat
  proposer : Nat
  size : Nat
  status : PaxosState
  opaqueData : Nat
  valueId : Nat
  data : List UInt8
  deriving DecidableEq, Repr

/-- mirrors core/ptype.h:109-118 -/
structure PaxosMsg where
  magic : Nat
  size : Nat
  type : PaxosMsgType
  version : Nat
  fromId : Nat
  errcode : Int
  reqid : Nat
  pp : Proposal
  deriving DecidableEq, Repr

/-- `offsetof(Proposal, data_)`. -/
def proposalHeaderSz : Nat := 68

/-- `calloc`ed storage for a value of `valueSize` bytes.
mirrors core/ptype.cpp:6-14 -/
def allocProposal (valueSize : Nat) : Proposal where
  pid := 0
  term := 0
  pinst := 0
  pentry := 0
  lastChosen := 0
  lastChosenFrom := 0
  proposer := 0
  size := valueSize
  status := .init
  opaqueData := 0
  valueId := 0
  data := List.replicate valueSize 0

/-- mirrors core/ptype.cpp:16-31 -/
def allocProposalMsg (valueSize : Nat) : PaxosMsg where
  magic := 0xbadf00d
  size := u32 (proposalHeaderSz + valueSize)
  type := .invalid
  version := 0
  fromId := 0
  errcode := ErrCode.ok
  reqid := 0
  pp := allocProposal valueSize

/-- The header and `size` value bytes are copied.
mirrors core/ptype.cpp:33-38 -/
def cloneProposal (p : Proposal) : Proposal := { p with data := p.data.take p.size }

/-- mirrors core/ptype.cpp:40-47 -/
def cloneProposalMsg (m : PaxosMsg) : PaxosMsg := { m with pp := cloneProposal m.pp }

/-- mirrors core/ptype.cpp:49-62 -/
def copyProposalMeta (dst src : Proposal) : Proposal :=
  { dst with term := if src.term > dst.term then src.term else dst.term, opaqueData := src.opaqueData }

/-- The two headers are of one proposal. -/
structure Same (p q : Proposal) : Prop where
  pid : p.pid = q.pid
  valueId : p.valueId = q.valueId
  pinst : p.pinst = q.pinst
  pentry : p.pentry = q.pentry

theorem Same.refl (p : Proposal) : Same p p := ⟨rfl, rfl, rfl, rfl⟩

theorem Same.symm {p q : Proposal} (h : Same p q) : Same q p :=
  ⟨h.pid.symm, h.valueId.symm, h.pinst.symm, h.pentry.symm⟩

theorem Same.trans {p q r : Proposal} (h : Same p q) (h' : Same q r) : Same p r :=
  ⟨h.pid.trans h'.pid, h.valueId.trans h'.valueId, h.pinst.trans h'.pinst, h.pentry.trans h'.pentry⟩

end Quarrel
