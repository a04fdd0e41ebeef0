import Quarrel.L4Proposer.Round
import Mathlib.Data.List.MinMax

/-!
# The PREPARE phase of a round

A round of a non-empty value that runs its PREPARE phase: any responses, in any
order and any number, its timeout, and chosen entries learned meanwhile. The
handler keeps a running maximum in `lastv_` and two counters; here they are read
off the list of the responses handled.

* `adopted`: the first one of the votes with the largest id, or the request.
* `Counts`: what the instance holds after the responses `l`.
* `Open`, `Decided`: the responses `l` leave the phase open; the next response
  decides it.
* `votes_invariant`: every reachable round is preparing, has broadcast the ACCEPT
  of `adopted`, or is over, and each time the responses say which.
-/
namespace Quarrel

open InstanceState

/-- The value bytes. -/
def Proposal.value (p : Proposal) : List UInt8 := p.data.take p.size

/-- The two messages are about one value, under one id. -/
structure Conveys (m src : PaxosMsg) : Prop where
  pid : m.pp.pid = src.pp.pid
  valueId : m.pp.valueId = src.pp.valueId
  proposer : m.pp.proposer = src.pp.proposer
  value : m.pp.value = src.pp.value

theorem Conveys.refl (m : PaxosMsg) : Conveys m m := ⟨rfl, rfl, rfl, rfl⟩

theorem Conveys.trans {a b c : PaxosMsg} (h : Conveys a b) (h' : Conveys b c) : Conveys a c :=
  ⟨h.pid.trans h'.pid, h.valueId.trans h'.valueId, h.proposer.trans h'.proposer,
    h.value.trans h'.value⟩

theorem conveys_clone (m : PaxosMsg) : Conveys (cloneProposalMsg m) m := by
  refine ⟨rfl, rfl, rfl, ?_⟩
  simp [Proposal.value, cloneProposalMsg, cloneProposal]

theorem conveys_merge (req rsp : PaxosMsg) : Conveys (merge req rsp) req := ⟨rfl, rfl, rfl, rfl⟩

theorem conveys_asAcceptReq (cfg : Configure) (s : InstanceState) (m : PaxosMsg) :
    Conveys (asAcceptReq cfg s m) m := ⟨rfl, rfl, rfl, rfl⟩

/-! ## The responses -/

/-- A promise that brings the vote of another value. -/
structure OtherVote (req rsp : PaxosMsg) : Prop where
  promise : ValidPromise req rsp
  other : OtherValue req rsp
  size : 0 < rsp.pp.size

instance (req rsp : PaxosMsg) : Decidable (OtherVote req rsp) :=
  decidable_of_iff (ValidPromise req rsp ∧ OtherValue req rsp ∧ 0 < rsp.pp.size)
    ⟨fun ⟨h1, h2, h3⟩ => ⟨h1, h2, h3⟩, fun h => ⟨h.promise, h.other, h.size⟩⟩

/-- The responses counted in `rsp_count_`. -/
def answers (l : List PaxosMsg) : List PaxosMsg := l.filter fun x => x.type = .prepareRsp

/-- The responses counted in `valid_rsp_count_`. -/
def promises (req : PaxosMsg) (l : List PaxosMsg) : List PaxosMsg :=
  l.filter fun x => ValidPromise req x

def votes (req : PaxosMsg) (l : List PaxosMsg) : List PaxosMsg := l.filter fun x => OtherVote req x

/-- What the ACCEPT of the round is to carry: the first one of the votes with the
largest id, the request itself without a vote. -/
def adopted (req : PaxosMsg) (l : List PaxosMsg) : PaxosMsg :=
  ((votes req l).argmax fun x => x.pp.pid).getD req

section

variable {req q x : PaxosMsg} {l : List PaxosMsg}

theorem ValidPromise.congr (h : Conveys q req) : ValidPromise q x ↔ ValidPromise req x :=
  ⟨fun hv => ⟨hv.type, hv.errcode, hv.status, h.pid ▸ hv.pid_le⟩,
    fun hv => ⟨hv.type, hv.errcode, hv.status, h.pid.symm ▸ hv.pid_le⟩⟩

theorem OtherValue.congr (h : Conveys q req) : OtherValue q x ↔ OtherValue req x := by
  unfold OtherValue
  rw [h.valueId]

theorem answers_append (l : List PaxosMsg) (x : PaxosMsg) :
    (answers (l ++ [x])).length = (answers l).length + if x.type = .prepareRsp then 1 else 0 := by
  unfold answers
  rw [List.filter_append, List.length_append]
  by_cases h : x.type = .prepareRsp <;> simp [h]

theorem promises_append (h : ValidPromise req x) :
    promises req (l ++ [x]) = promises req l ++ [x] := by
  simp [promises, List.filter_append, h]

theorem promises_append_not (h : ¬ ValidPromise req x) :
    promises req (l ++ [x]) = promises req l := by
  simp [promises, List.filter_append, h]

theorem votes_append (h : OtherVote req x) : votes req (l ++ [x]) = votes req l ++ [x] := by
  simp [votes, List.filter_append, h]

theorem votes_append_not (h : ¬ OtherVote req x) : votes req (l ++ [x]) = votes req l := by
  simp [votes, List.filter_append, h]

theorem mem_promises : x ∈ promises req l ↔ x ∈ l ∧ ValidPromise req x := by
  simp [promises]

theorem mem_votes : x ∈ votes req l ↔ x ∈ l ∧ OtherVote req x := by
  simp [votes]

theorem promises_le_answers (req : PaxosMsg) (l : List PaxosMsg) :
    (promises req l).length ≤ (answers l).length := by
  unfold promises answers
  rw [← List.countP_eq_length_filter, ← List.countP_eq_length_filter]
  refine List.countP_mono_left fun x _ hx => ?_
  exact decide_eq_true (of_decide_eq_true hx).type

/-- With votes the adopted message is one of them, of the largest id. -/
theorem adopted_mem (h : votes req l ≠ []) :
    adopted req l ∈ votes req l ∧ ∀ y ∈ votes req l, y.pp.pid ≤ (adopted req l).pp.pid := by
  unfold adopted
  cases ha : (votes req l).argmax fun x => x.pp.pid with
  | none => exact absurd (List.argmax_eq_none.mp ha) h
  | some v =>
    refine ⟨List.argmax_mem ha, fun y hy => ?_⟩
    exact List.le_of_mem_argmax (f := fun x : PaxosMsg => x.pp.pid) hy ha

theorem adopted_nil (h : votes req l = []) : adopted req l = req := by
  unfold adopted
  rw [h]
  rfl

end

/-! ## The instance after the responses -/

/-- The counters, the flag and the vote kept are those of the responses `l`. -/
structure Counts (req : PaxosMsg) (l : List PaxosMsg) (s : InstanceState) : Prop where
  rsp : s.rspCount = (answers l).length
  valid : s.validRspCount = (promises req l).length
  notified : s.notified = true ↔ votes req l ≠ []
  lastv : votes req l ≠ [] →
    s.lastv = ((votes req l).argmax fun x => x.pp.pid).map cloneProposalMsg

section

variable {req q x : PaxosMsg} {l : List PaxosMsg} {s s' : InstanceState}

theorem Counts.congr (h : Counts req l s) (hr : s'.rspCount = s.rspCount)
    (hc : s'.validRspCount = s.validRspCount) (hst : s'.state = s.state) (hl : s'.lastv = s.lastv) :
    Counts req l s' :=
  ⟨hr.trans h.rsp, hc.trans h.valid, by rw [notified_of_state hst]; exact h.notified,
    fun hv => hl.trans (h.lastv hv)⟩

theorem Counts.wrongType (h : Counts req l s) (ht : x.type ≠ .prepareRsp) :
    Counts req (l ++ [x]) s := by
  have hv : ¬ ValidPromise req x := fun hv => ht hv.type
  have hvote : ¬ OtherVote req x := fun hv' => hv hv'.promise
  refine ⟨?_, ?_, ?_, ?_⟩
  · rw [answers_append, if_neg ht]
    exact h.rsp
  · rw [promises_append_not hv]
    exact h.valid
  · rw [votes_append_not hvote]
    exact h.notified
  · rw [votes_append_not hvote]
    exact h.lastv

/-- A response that promises nothing is an answer only. -/
theorem Counts.refused (h : Counts req l s) (ht : x.type = .prepareRsp) (hv : ¬ ValidPromise req x)
    (hlt : (answers l).length < 255) (q : Option PaxosMsg) (ig : IdGen) :
    Counts req (l ++ [x]) { s with rspCount := u8 (s.rspCount + 1), req := q, ig := ig } := by
  have hvote : ¬ OtherVote req x := fun hv' => hv hv'.promise
  refine ⟨?_, ?_, ?_, ?_⟩
  · rw [answers_append, if_pos ht]
    show u8 (s.rspCount + 1) = _
    rw [h.rsp]
    unfold u8
    omega
  · rw [promises_append_not hv]
    exact h.valid
  · rw [votes_append_not hvote]
    exact h.notified
  · rw [votes_append_not hvote]
    exact h.lastv

/-- The vote kept is the first one of those with the largest id. -/
theorem takeLastVote_argmax {vs : List PaxosMsg} (hn : s.notified = true ↔ vs ≠ [])
    (hl : vs ≠ [] → s.lastv = (vs.argmax fun x => x.pp.pid).map cloneProposalMsg) :
    (s.takeLastVote x).lastv = ((vs ++ [x]).argmax fun x => x.pp.pid).map cloneProposalMsg := by
  rw [List.argmax_concat]
  unfold takeLastVote
  cases ha : vs.argmax fun x => x.pp.pid with
  | none =>
    have hnil : vs = [] := List.argmax_eq_none.mp ha
    have hnot : ¬ s.notified := fun h => hn.mp h hnil
    rw [if_pos (.inl hnot)]
    rfl
  | some v =>
    have hne : vs ≠ [] := List.ne_nil_of_mem (List.argmax_mem ha)
    have hlv : s.lastv = some (cloneProposalMsg v) := by rw [hl hne, ha]; rfl
    have hcond : (¬ s.notified ∨ ∀ l ∈ s.lastv, l.pp.pid < x.pp.pid) ↔ v.pp.pid < x.pp.pid := by
      rw [hlv]
      constructor
      · intro h
        rcases h with h | h
        · exact absurd (hn.mpr hne) h
        · exact h (cloneProposalMsg v) rfl
      · intro h
        refine .inr fun l hl => ?_
        obtain rfl := Option.some.inj hl
        exact h
    by_cases hlt : v.pp.pid < x.pp.pid
    · rw [if_pos (hcond.mpr hlt)]
      simp [hlt]
    · rw [if_neg (mt hcond.mp hlt), hlv]
      simp [hlt]

theorem afterPromise_lastv (s : InstanceState) (q x : PaxosMsg) :
    (s.afterPromise q x).lastv =
      if OtherValue q x then (s.takeLastVote x).lastv else s.lastv := by
  unfold afterPromise countPromise takeLastVote
  dsimp only
  by_cases h : OtherValue q x
  · rw [if_pos (show x.pp.valueId ≠ (merge q x).pp.valueId from h), if_pos h]
    have hn : ({ s with rspCount := u8 (s.rspCount + 1), req := some (merge q x) } :
        InstanceState).notified = s.notified := rfl
    rw [hn]
    split <;> rfl
  · rw [if_neg (show ¬ x.pp.valueId ≠ (merge q x).pp.valueId from h), if_neg h]

/-- A promise is counted, and its vote is compared with the one kept. -/
theorem Counts.promise (h : Counts req l s) (hq : Conveys q req) (hv : ValidPromise req x)
    (hsz : OtherValue req x → 0 < x.pp.size) (hlt : (answers l).length < 255) :
    Counts req (l ++ [x]) (s.afterPromise q x) := by
  have hvalid := afterPromise_validRspCount s q x
  have hrsp := afterPromise_rspCount s q x
  have hple := promises_le_answers req l
  have hvote : OtherVote req x ↔ OtherValue q x :=
    ⟨fun hx => (OtherValue.congr hq).mpr hx.other, fun ho =>
      ⟨hv, (OtherValue.congr hq).mp ho, hsz ((OtherValue.congr hq).mp ho)⟩⟩
  refine ⟨?_, ?_, ?_, ?_⟩
  · rw [answers_append, if_pos hv.type, hrsp, h.rsp]
    unfold u8
    omega
  · rw [promises_append hv, hvalid, h.valid, List.length_append, List.length_singleton]
    unfold u8
    omega
  · rw [afterPromise_notified, Bool.or_eq_true, decide_eq_true_eq, h.notified]
    by_cases ho : OtherValue q x
    · simp [votes_append (hvote.mpr ho), ho]
    · simp [votes_append_not (mt hvote.mp ho), ho]
  · intro hne
    rw [afterPromise_lastv]
    by_cases ho : OtherValue q x
    · rw [if_pos ho, votes_append (hvote.mpr ho)]
      exact takeLastVote_argmax h.notified h.lastv
    · rw [votes_append_not (mt hvote.mp ho)] at hne ⊢
      rw [if_neg ho]
      exact h.lastv hne

end

/-! ## When the phase ends -/

/-- The responses `l` leave the phase open: the majority of the promises, once there
is one, has a vote among it, not all have answered, and no vote was empty. -/
structure Open (cfg : Configure) (req : PaxosMsg) (l : List PaxosMsg) : Prop where
  early : cfg.majority ≤ (promises req l).length →
    ∃ y ∈ (promises req l).take cfg.majority, OtherValue req y
  late : (answers l).length < cfg.totalAcceptor
  sizes : ∀ y ∈ promises req l, OtherValue req y → 0 < y.pp.size

/-- The response `x` after `l` is a promise that completes a majority, and the last
response when there is a vote. -/
structure Decided (cfg : Configure) (req : PaxosMsg) (l : List PaxosMsg) (x : PaxosMsg) :
    Prop where
  promise : ValidPromise req x
  size : OtherValue req x → 0 < x.pp.size
  majority : cfg.majority ≤ (promises req l).length + 1
  waits : votes req (l ++ [x]) ≠ [] → (answers l).length + 1 = cfg.totalAcceptor

section

variable {cfg : Configure} {req x : PaxosMsg} {l : List PaxosMsg}

theorem Open.nil (cfg : Configure) (req : PaxosMsg) : Open cfg req [] where
  early h := by
    have : cfg.majority ≤ 0 := h
    unfold Configure.majority at this
    omega
  late := cfg.acceptor_pos
  sizes _ hy := absurd hy List.not_mem_nil

/-- A promise that completes a majority ends the phase, after a vote as the last response only. -/
theorem Counts.decided {s : InstanceState} (hc : Counts req (l ++ [x]) s) (hv : ValidPromise req x)
    (hsz : OtherValue req x → 0 < x.pp.size) (hmaj : cfg.majority ≤ s.validRspCount)
    (hwait : s.notified = true → (answers l).length + 1 = cfg.totalAcceptor) :
    Decided cfg req l x := by
  refine ⟨hv, hsz, ?_, fun hne => hwait (hc.notified.mpr hne)⟩
  rw [hc.valid, promises_append hv, List.length_append, List.length_singleton] at hmaj
  exact hmaj

/-- The first votes of a majority are settled by the promises that came first. -/
theorem Open.append (h : Open cfg req l) (hd : ¬ Decided cfg req l x)
    (hsz : ValidPromise req x → OtherValue req x → 0 < x.pp.size)
    (hlt : (answers (l ++ [x])).length < cfg.totalAcceptor) : Open cfg req (l ++ [x]) := by
  by_cases hv : ValidPromise req x
  · refine ⟨fun hmaj => ?_, hlt, ?_⟩
    · rw [promises_append hv] at hmaj ⊢
      by_cases hold : cfg.majority ≤ (promises req l).length
      · rw [List.take_append_of_le_length hold]
        exact h.early hold
      · have hlen : (promises req l ++ [x]).length = (promises req l).length + 1 := by simp
        rw [List.take_of_length_le (by omega), ← promises_append hv]
        have hne : votes req (l ++ [x]) ≠ [] := by
          intro hnil
          exact hd ⟨hv, hsz hv, by omega, fun h => absurd hnil h⟩
        obtain ⟨y, hy⟩ := List.exists_mem_of_ne_nil _ hne
        obtain ⟨hyl, hvote⟩ := mem_votes.mp hy
        exact ⟨y, mem_promises.mpr ⟨hyl, hvote.promise⟩, hvote.other⟩
    · intro y hy
      rw [promises_append hv] at hy
      rcases List.mem_append.mp hy with hy | hy
      · exact h.sizes y hy
      · obtain rfl := List.mem_singleton.mp hy
        exact hsz hv
  · refine ⟨?_, hlt, ?_⟩
    · rw [promises_append_not hv]
      exact h.early
    · rw [promises_append_not hv]
      exact h.sizes

end

/-! ## The round -/

/-- An instance during the PREPARE phase of a round: `req` is the request, `arrived`
the responses so far, `seen` those of them that the PREPARE handler took, `accept`
the ACCEPT broadcast, `replied` the codes the caller got. -/
structure Prepare where
  inst : InstanceState
  term : Nat
  req : PaxosMsg
  arrived : List PaxosMsg
  seen : List PaxosMsg
  accept : Option PaxosMsg
  replied : List Int
  timedOut : Bool

inductive PrepareOp where
  | rsp (rsp : PaxosMsg)
  | timeout
  | entryChosen (pp : Proposal) (fromPlog : Bool)

namespace Prepare

variable {cfg : Configure}

/-- The round `ProposeAsync` starts. -/
def start (cfg : Configure) (s : InstanceState) (pinst opaqueData : Nat) (val : List UInt8)
    (promise : Nat) : Prepare :=
  let res := s.proposeAsync cfg pinst opaqueData val promise false
  ⟨res.1, s.term, s.proposalMsg cfg pinst opaqueData val, [], [], acceptReqOf res.2, codes res.2,
    false⟩

def step (cfg : Configure) (r : Prepare) : PrepareOp → Option Prepare
  | .rsp rsp => (r.inst.handleRsp cfg r.term rsp).map fun res =>
      { r with
        inst := res.1
        arrived := r.arrived ++ [rsp]
        seen := if r.inst.Awaits r.term ∧ r.inst.phase = preparingPhase then r.seen ++ [rsp]
          else r.seen
        accept := r.accept <|> acceptReqOf res.2
        replied := r.replied ++ codes res.2 }
  | .timeout =>
    if r.inst.Awaits r.term then
      some { r with
        inst := r.inst.handleTimeout.1
        replied := r.replied ++ codes r.inst.handleTimeout.2
        timedOut := true }
    else some r
  | .entryChosen pp fromPlog => some { r with inst := r.inst.onEntryChosen pp fromPlog }

/-- A round of a non-empty value that an idle instance starts with its PREPARE. -/
def Starts (cfg : Configure) (r : Prepare) : Prop :=
  ∃ s pinst opaqueData val promise, s.req = none ∧ val ≠ [] ∧
    ¬ s.canSkipPrepare (s.proposalMsg cfg pinst opaqueData val).pp ∧
    r = start cfg s pinst opaqueData val promise

def sys (cfg : Configure) : LTS Prepare PrepareOp := .ofFn (Starts cfg) (step cfg)

/-! ## The invariant -/

/-- The round of request `q` is in its PREPARE phase. -/
structure Preparing (cfg : Configure) (r : Prepare) (q : PaxosMsg) : Prop where
  req : r.inst.req = some q
  conveys : Conveys q r.req
  phase : r.inst.phase = preparingPhase
  accept : r.accept = none
  seen : r.seen = r.arrived
  opened : Open cfg r.req r.seen
  counts : Counts r.req r.seen r.inst
  told : ErrCode.preparePeerValue ∈ r.replied ↔ votes r.req r.seen ≠ []

/-- Where the round is, and which responses brought it there. -/
inductive Stage (cfg : Configure) (r : Prepare) : Prop
  | preparing (q : PaxosMsg) (h : Preparing cfg r q)
  | accepted (l : List PaxosMsg) (x m : PaxosMsg) (hseen : r.seen = l ++ [x])
      (hopen : Open cfg r.req l) (hdec : Decided cfg r.req l x) (hpos : 0 < x.pp.pid)
      (hacc : r.accept = some m) (hm : Conveys m (adopted r.req r.seen))
      (hph : r.inst.req = none ∨ r.inst.phase = acceptingPhase)
      -- no more responses than acceptors: the ACCEPT phase cannot run out of them
      (hfew : r.arrived.length ≤ cfg.totalAcceptor →
        (r.inst.req ≠ none → r.inst.rspCount + r.seen.length ≤ r.arrived.length) ∧
        (ErrCode.preparePeerValue ∈ r.replied ↔ votes r.req r.seen ≠ []))
  | ended (hreq : r.inst.req = none) (hacc : r.accept = none)
      (htold : ErrCode.preparePeerValue ∈ r.replied ↔ votes r.req r.seen ≠ [])
      (hwhy : r.timedOut = true ∨ ∃ l x, r.seen = l ++ [x] ∧ Open cfg r.req l ∧
        ((¬ Decided cfg r.req l x ∧ x.type = .prepareRsp ∧
            (answers l).length + 1 = cfg.totalAcceptor) ∨
          (Decided cfg r.req l x ∧ x.pp.pid = 0)))

structure Inv (cfg : Configure) (r : Prepare) : Prop where
  term : r.inst.term = r.term + 1
  seen : r.seen <+: r.arrived
  stage : Stage cfg r

/-! ## The codes -/

/-- The PREPARE phase tells of a peer's value with the first vote only. -/
theorem prepareOut_told {s s' : InstanceState} {ret : Int} {done first : Bool} {outs : List Out}
    (h : (s', outs) = s.prepareOut ret done first) :
    ErrCode.preparePeerValue ∈ codes outs ↔ first = true ∧ s.notified = true := by
  have ho : outs = (s.prepareOut ret done first).2 := congrArg Prod.snd h
  rw [ho]
  unfold prepareOut
  dsimp only
  have hneg : (if ret < 0 then ErrCode.prepareNotQuoraum else ret) ≠ ErrCode.preparePeerValue := by
    show (if ret < 0 then (-30003 : Int) else ret) ≠ -30007
    split <;> omega
  cases done <;> cases hn : s.notified <;> cases first <;>
    simp [promisesSet, codes, hneg.symm]

/-- After a promise, with the first vote of another value. -/
theorem afterPromise_told {s s' : InstanceState} {q rsp : PaxosMsg} {ret : Int} {done : Bool}
    {outs : List Out} (h : (s', outs) =
      (s.afterPromise q rsp).prepareOut ret done (OtherValue q rsp ∧ ¬ s.notified)) :
    ErrCode.preparePeerValue ∈ codes outs ↔ OtherValue q rsp ∧ s.notified = false := by
  rw [prepareOut_told h, afterPromise_notified]
  cases s.notified <;> simp

/-- The caller has been told of the votes before the promise, so it has been told after it. -/
theorem told_promise {req q rsp : PaxosMsg} {l : List PaxosMsg} {s : InstanceState} {told : List Int}
    {outs : List Out} (hc : Counts req l s) (hc' : Counts req (l ++ [rsp]) (s.afterPromise q rsp))
    (ht : ErrCode.preparePeerValue ∈ told ↔ votes req l ≠ [])
    (ho : ErrCode.preparePeerValue ∈ codes outs ↔ OtherValue q rsp ∧ s.notified = false) :
    ErrCode.preparePeerValue ∈ told ++ codes outs ↔ votes req (l ++ [rsp]) ≠ [] := by
  rw [List.mem_append, ht, ho, ← hc.notified, ← hc'.notified, afterPromise_notified]
  cases s.notified <;> simp

/-! ## One response -/

/-- The round once the PREPARE handler has taken `rsp`. -/
def took (r : Prepare) (rsp : PaxosMsg) (s' : InstanceState) (outs : List Out) : Prepare :=
  { r with
    inst := s'
    arrived := r.arrived ++ [rsp]
    seen := r.seen ++ [rsp]
    accept := r.accept <|> acceptReqOf outs
    replied := r.replied ++ codes outs }

/-- The source of the ACCEPT is what the round is to adopt. -/
theorem acceptSource_adopted {s : InstanceState} {req q x m : PaxosMsg} {l : List PaxosMsg}
    (hq : Conveys q req) (hc : Counts req (l ++ [x]) (s.afterPromise q x))
    (hm : s.acceptSource q x = some m) : Conveys m (adopted req (l ++ [x])) := by
  unfold acceptSource at hm
  by_cases hn : (s.afterPromise q x).notified = true
  · have hne := hc.notified.mp hn
    rw [if_pos hn, hc.lastv hne] at hm
    obtain ⟨v, hv, rfl⟩ := Option.map_eq_some_iff.mp hm
    unfold adopted
    rw [hv]
    exact conveys_clone v
  · have hnil : votes req (l ++ [x]) = [] := by
      by_contra hne
      exact hn (hc.notified.mpr hne)
    rw [if_neg hn] at hm
    obtain rfl := Option.some.inj hm
    rw [adopted_nil hnil]
    exact (conveys_merge q x).trans hq

section

variable {r : Prepare} {q rsp : PaxosMsg} {s₁ s' : InstanceState} {ret : Int}
  {done first : Bool} {outs : List Out}

/-- What follows the label `out` keeps the phase open or ends the round. -/
theorem prepareOut_stage (ho : (s', outs) = s₁.prepareOut ret done first) (hacc : r.accept = none)
    (htold : ErrCode.preparePeerValue ∈ r.replied ++ codes outs ↔
      votes r.req (r.seen ++ [rsp]) ≠ [])
    (hgo : done = false → (∃ q', s₁.req = some q' ∧ Conveys q' r.req) ∧
      s₁.phase = preparingPhase ∧ r.seen = r.arrived ∧ Open cfg r.req (r.seen ++ [rsp]) ∧
      Counts r.req (r.seen ++ [rsp]) s₁)
    (hend : done = true → Open cfg r.req r.seen ∧
      ((¬ Decided cfg r.req r.seen rsp ∧ rsp.type = .prepareRsp ∧
          (answers r.seen).length + 1 = cfg.totalAcceptor) ∨
        (Decided cfg r.req r.seen rsp ∧ rsp.pp.pid = 0))) :
    Stage cfg (r.took rsp s' outs) := by
  have hs := prepareOut_state ho
  have hacc' : (r.accept <|> acceptReqOf outs) = none := by
    rw [hacc, (Round.prepareOut_codes ho).2]
    rfl
  cases hd : done with
  | false =>
    obtain ⟨⟨q', hq', hcar⟩, hph, hseen, hopen, hcounts⟩ := hgo hd
    rw [hd] at hs
    obtain rfl : s' = s₁ := hs
    refine .preparing q' ⟨hq', hcar, hph, hacc', ?_, hopen, hcounts, htold⟩
    show r.seen ++ [rsp] = r.arrived ++ [rsp]
    rw [hseen]
  | true =>
    obtain ⟨hopen, hwhy⟩ := hend hd
    rw [hd, if_pos rfl] at hs
    refine .ended ?_ hacc' htold (.inr ⟨r.seen, rsp, rfl, hopen, hwhy⟩)
    show s'.req = none
    rw [hs]

theorem Preparing.rsps_lt (h : Preparing cfg r q) : (answers r.seen).length < 255 := by
  have := cfg.acceptor_lt_256
  have := h.opened.late
  omega

/-- The counter tells whether the next response is the last one. -/
theorem Preparing.lastRsp_iff (h : Preparing cfg r q) :
    r.inst.lastRsp cfg = true ↔ (answers r.seen).length + 1 = cfg.totalAcceptor := by
  have := h.rsps_lt
  unfold lastRsp
  rw [decide_eq_true_eq, h.counts.rsp]
  unfold u8
  omega

/-- Another response of the right type that is not the last leaves the phase open. -/
theorem Preparing.still_open (h : Preparing cfg r q) (ht : rsp.type = .prepareRsp)
    (hdec : ¬ Decided cfg r.req r.seen rsp)
    (hsz : ValidPromise r.req rsp → OtherValue r.req rsp → 0 < rsp.pp.size)
    (hnot : r.inst.lastRsp cfg = false) : Open cfg r.req (r.seen ++ [rsp]) := by
  have hlate := h.opened.late
  have hne : (answers r.seen).length + 1 ≠ cfg.totalAcceptor := by
    intro he
    rw [h.lastRsp_iff.mpr he] at hnot
    cases hnot
  refine h.opened.append hdec hsz ?_
  rw [answers_append, if_pos ht]
  omega

theorem Preparing.wrongType (h : Preparing cfg r q) (ht : rsp.type ≠ .prepareRsp) :
    Preparing cfg (r.took rsp r.inst []) q := by
  have hv : ¬ ValidPromise r.req rsp := fun hv => ht hv.type
  refine ⟨h.req, h.conveys, h.phase, ?_, ?_, ?_, h.counts.wrongType ht, ?_⟩
  · show (r.accept <|> acceptReqOf []) = none
    rw [h.accept]
    rfl
  · show r.seen ++ [rsp] = r.arrived ++ [rsp]
    rw [h.seen]
  · refine h.opened.append (fun hdec => hv hdec.promise) (fun hv' => absurd hv' hv) ?_
    rw [answers_append, if_neg ht]
    exact h.opened.late
  · show ErrCode.preparePeerValue ∈ r.replied ++ codes [] ↔ votes r.req (r.seen ++ [rsp]) ≠ []
    rw [votes_append_not fun hv' => hv hv'.promise, codes_nil, List.append_nil]
    exact h.told

theorem Preparing.refused (h : Preparing cfg r q) {req' : PaxosMsg} {ig : IdGen}
    (ht : rsp.type = .prepareRsp) (hv : ¬ ValidPromise q rsp) (hreq' : req' = q ∨ req' = merge q rsp)
    (ho : (s', outs) = prepareOut { r.inst with rspCount := u8 (r.inst.rspCount + 1), req := some req', ig := ig }
      ret (r.inst.lastRsp cfg) false) : Stage cfg (r.took rsp s' outs) := by
  rw [ValidPromise.congr h.conveys] at hv
  have hdec : ¬ Decided cfg r.req r.seen rsp := fun hdec => hv hdec.promise
  refine prepareOut_stage ho h.accept ?_ (fun hnot => ⟨⟨req', rfl, ?_⟩, h.phase, h.seen,
    h.still_open ht hdec (fun hv' => absurd hv' hv) hnot, h.counts.refused ht hv h.rsps_lt _ _⟩)
    fun hyes => ⟨h.opened, .inl ⟨hdec, ht, h.lastRsp_iff.mp hyes⟩⟩
  · rw [votes_append_not fun hv' => hv hv'.promise, List.mem_append, h.told, prepareOut_told ho]
    simp
  · rcases hreq' with rfl | rfl
    · exact h.conveys
    · exact (conveys_merge q rsp).trans h.conveys

theorem Preparing.promise (h : Preparing cfg r q) (hv : ValidPromise q rsp)
    (hsz : OtherValue q rsp → 0 < rsp.pp.size) :
    Counts r.req (r.seen ++ [rsp]) (r.inst.afterPromise q rsp) := by
  rw [ValidPromise.congr h.conveys] at hv
  rw [OtherValue.congr h.conveys] at hsz
  exact h.counts.promise h.conveys hv hsz h.rsps_lt

/-- The promise that the counters call decisive is so. -/
theorem Preparing.decided (h : Preparing cfg r q) (hv : ValidPromise q rsp)
    (hsz : OtherValue q rsp → 0 < rsp.pp.size)
    (hmaj : cfg.majority ≤ (r.inst.afterPromise q rsp).validRspCount)
    (hwait : (r.inst.afterPromise q rsp).notified → r.inst.lastRsp cfg) :
    Decided cfg r.req r.seen rsp := by
  have hc := h.promise hv hsz
  rw [ValidPromise.congr h.conveys] at hv
  rw [OtherValue.congr h.conveys] at hsz
  exact hc.decided hv hsz hmaj fun hn => h.lastRsp_iff.mp (hwait hn)

theorem Preparing.pending (h : Preparing cfg r q) (hv : ValidPromise q rsp)
    (hsz : OtherValue q rsp → 0 < rsp.pp.size)
    (hno : ¬ (cfg.majority ≤ (r.inst.afterPromise q rsp).validRspCount ∧
      ((r.inst.afterPromise q rsp).notified → r.inst.lastRsp cfg)))
    (ho : (s', outs) = (r.inst.afterPromise q rsp).prepareOut ErrCode.ok (r.inst.lastRsp cfg)
      (OtherValue q rsp ∧ ¬ r.inst.notified)) : Stage cfg (r.took rsp s' outs) := by
  have hc := h.promise hv hsz
  rw [ValidPromise.congr h.conveys] at hv
  rw [OtherValue.congr h.conveys] at hsz
  have hdec : ¬ Decided cfg r.req r.seen rsp := by
    intro hdec
    refine hno ⟨?_, fun hn => h.lastRsp_iff.mpr (hdec.waits (hc.notified.mp hn))⟩
    rw [hc.valid, promises_append hv, List.length_append, List.length_singleton]
    exact hdec.majority
  exact prepareOut_stage ho h.accept (told_promise h.counts hc h.told (afterPromise_told ho))
    (fun hnot => ⟨⟨_, afterPromise_req .., (conveys_merge q rsp).trans h.conveys⟩,
      (afterPromise_keeps r.inst q rsp).phase.trans h.phase, h.seen,
      h.still_open hv.type hdec (fun _ => hsz) hnot, hc⟩)
    fun hyes => ⟨h.opened, .inl ⟨hdec, hv.type, h.lastRsp_iff.mp hyes⟩⟩

theorem Preparing.probed (h : Preparing cfg r q) (hv : ValidPromise q rsp)
    (hsz : OtherValue q rsp → 0 < rsp.pp.size) (hdec : Decided cfg r.req r.seen rsp) (h0 : rsp.pp.pid = 0)
    (ho : (s', outs) = (r.inst.afterPromise q rsp).prepareOut ErrCode.ok true
      (OtherValue q rsp ∧ ¬ r.inst.notified)) : Stage cfg (r.took rsp s' outs) :=
  prepareOut_stage ho h.accept (told_promise h.counts (h.promise hv hsz) h.told (afterPromise_told ho))
    (fun hnot => by cases hnot) fun _ => ⟨h.opened, .inr ⟨hdec, h0⟩⟩

theorem Preparing.accepting (h : Preparing cfg r q) {m : PaxosMsg} (hv : ValidPromise q rsp)
    (hsz : OtherValue q rsp → 0 < rsp.pp.size) (hdec : Decided cfg r.req r.seen rsp) (hpos : 0 < rsp.pp.pid)
    (hm : r.inst.acceptSource q rsp = some m) :
    Stage cfg (r.took rsp (r.inst.enterAccept cfg q rsp m) (.rpc (asAcceptReq cfg r.inst m) ::
      if OtherValue q rsp ∧ ¬ r.inst.notified then [.setValue r.inst.ret ErrCode.preparePeerValue] else [])) := by
  have hc := h.promise hv hsz
  refine .accepted r.seen rsp (asAcceptReq cfg r.inst m) rfl h.opened hdec hpos ?_
    ((conveys_asAcceptReq cfg r.inst m).trans (acceptSource_adopted h.conveys hc hm))
    (.inr (accepting_phase _)) fun _ => ⟨fun _ => ?_, ?_⟩
  · show (r.accept <|> acceptReqOf _) = _
    rw [h.accept]
    rfl
  · show 0 + (r.seen ++ [rsp]).length ≤ (r.arrived ++ [rsp]).length
    rw [h.seen]
    omega
  · refine told_promise h.counts hc h.told ?_
    cases hn : r.inst.notified <;> by_cases hoth : OtherValue q rsp <;>
      simp [hoth, codes, promisesSet]

theorem prepare_stage (h : Preparing cfg r q) (hd : PrepareRspDone cfg r.inst q rsp s' outs) :
    Stage cfg (r.took rsp s' outs) := by
  cases hd with
  | wrongType ht => exact .preparing q (h.wrongType ht)
  | refused ret req' ig ht hv hret hreq' hig ho => exact h.refused ht hv hreq' ho
  | pending hv hsz hno ho => exact h.pending hv hsz hno ho
  | probed hv hsz hmaj hwait h0 ho => exact h.probed hv hsz (h.decided hv hsz hmaj hwait) h0 ho
  | accepting m hv hsz hmaj hwait hpos hm hs ho =>
    rw [hs, ho]
    exact h.accepting hv hsz (h.decided hv hsz hmaj hwait) hpos hm

end

/-- The ACCEPT phase tells of a peer's value only as the error of its last answer. -/
theorem acceptOut_told {s s' : InstanceState} {ret : Int} {done : Bool} {outs : List Out}
    (h : (s', outs) = s.acceptOut ret done) (hd : done = false ∨ ret ≠ ErrCode.preparePeerValue) :
    ErrCode.preparePeerValue ∉ codes outs := by
  have ho : outs = (s.acceptOut ret done).2 := congrArg Prod.snd h
  rw [ho]
  unfold acceptOut
  cases done with
  | false => simp
  | true =>
    have hret : ret ≠ ErrCode.preparePeerValue := by
      rcases hd with hd | hd
      · cases hd
      · exact hd
    cases hn : s.notified <;> simp [promisesSet, codes, hret.symm]

/-- A response in the ACCEPT phase ends it, or is counted at most once. -/
theorem AcceptRspDone.kept {s s' : InstanceState} {req rsp : PaxosMsg} {outs : List Out}
    (h : AcceptRspDone cfg s req rsp s' outs) :
    s'.term = s.term ∧ s'.phase = s.phase ∧
      (s'.req ≠ none → s'.rspCount ≤ s.rspCount + 1) ∧
      (s.rspCount + 1 < cfg.totalAcceptor → ErrCode.preparePeerValue ∉ codes outs) := by
  have h256 := cfg.acceptor_lt_256
  have hwrap : u8 (s.rspCount + 1) ≤ s.rspCount + 1 := Nat.mod_le _ _
  have hlast : s.rspCount + 1 < cfg.totalAcceptor → s.lastRsp cfg = false := by
    intro hlt
    unfold lastRsp
    rw [decide_eq_false_iff_not]
    unfold u8
    omega
  let counted (t : InstanceState) : Prop :=
    t.term = s.term ∧ t.phase = s.phase ∧ t.rspCount ≤ s.rspCount + 1
  cases h with
  | wrongType => exact ⟨rfl, rfl, fun _ => Nat.le_succ _, fun _ => List.not_mem_nil⟩
  | refused ret req' ig ht hv hret hreq hig ho =>
    obtain ⟨hterm, hph, hle⟩ := acceptOut_keeps (P := counted) ho ⟨rfl, rfl, hwrap⟩ ⟨rfl, rfl, hwrap⟩
    exact ⟨hterm, hph, fun _ => hle, fun hlt => acceptOut_told ho (.inl (hlast hlt))⟩
  | pending hv hno ho =>
    obtain ⟨hterm, hph, hle⟩ := acceptOut_keeps (P := counted) ho ⟨rfl, rfl, hwrap⟩ ⟨rfl, rfl, hwrap⟩
    exact ⟨hterm, hph, fun _ => hle, fun hlt => acceptOut_told ho (.inl (hlast hlt))⟩
  | chosen hv hmaj hs ho =>
    have hkeeps := updateChosenInfo_keeps (s.afterAccept req rsp) rsp.pp.pentry rsp.pp.proposer
    refine ⟨?_, ?_, fun hne => absurd (by rw [hs]) hne, fun _ => ?_⟩
    · rw [hs]
      exact hkeeps.term
    · rw [hs]
      exact phase_of_state hkeeps.state
    · rw [ho]
      cases hn : s.notified <;> simp [promisesSet, codes]

/-! ## Steps and runs -/

section

variable {r r' : Prepare}

theorem PrepareRspDone.term_eq {s s' : InstanceState} {req rsp : PaxosMsg} {outs : List Out}
    (h : PrepareRspDone cfg s req rsp s' outs) : s'.term = s.term := by
  have hafter := (afterPromise_keeps s req rsp).term
  let same (t : InstanceState) : Prop := t.term = s.term
  cases h with
  | wrongType => rfl
  | refused _ _ _ _ _ _ _ _ ho => exact prepareOut_keeps (P := same) ho rfl rfl
  | pending _ _ _ ho => exact prepareOut_keeps (P := same) ho hafter hafter
  | probed _ _ _ _ _ ho => exact prepareOut_keeps (P := same) ho hafter hafter
  | accepting _ _ _ _ _ _ _ hs => rw [hs]; exact hafter

/-- A response in the ACCEPT phase leaves the ACCEPT as it was broadcast. -/
theorem accept_stage {l : List PaxosMsg} {q x m rsp : PaxosMsg} {s' : InstanceState}
    {outs : List Out} (hseen : r.seen = l ++ [x]) (hopen : Open cfg r.req l)
    (hdec : Decided cfg r.req l x) (hpos : 0 < x.pp.pid) (hacc : r.accept = some m)
    (hm : Conveys m (adopted r.req r.seen)) (hph : r.inst.phase = acceptingPhase)
    (hreq : r.inst.req = some q)
    (hfew : r.arrived.length ≤ cfg.totalAcceptor →
      (r.inst.req ≠ none → r.inst.rspCount + r.seen.length ≤ r.arrived.length) ∧
      (ErrCode.preparePeerValue ∈ r.replied ↔ votes r.req r.seen ≠ []))
    (hd : AcceptRspDone cfg r.inst q rsp s' outs) :
    Stage cfg { r with
      inst := s'
      arrived := r.arrived ++ [rsp]
      accept := r.accept <|> acceptReqOf outs
      replied := r.replied ++ codes outs } := by
  obtain ⟨-, hph', hcount, htold⟩ := AcceptRspDone.kept hd
  have hacc' : (r.accept <|> acceptReqOf outs) = some m := by rw [hacc]; rfl
  refine .accepted l x m hseen hopen hdec hpos hacc' hm (.inr (hph'.trans hph)) fun hle => ?_
  have hle' : r.arrived.length + 1 ≤ cfg.totalAcceptor := by simpa using hle
  obtain ⟨hsum, hiff⟩ := hfew (by omega)
  have hone : 1 ≤ r.seen.length := by rw [hseen]; simp
  have hbound := hsum (by rw [hreq]; simp)
  refine ⟨fun hne => ?_, ?_⟩
  · have := hcount hne
    show s'.rspCount + r.seen.length ≤ (r.arrived ++ [rsp]).length
    rw [List.length_append, List.length_singleton]
    omega
  · show ErrCode.preparePeerValue ∈ r.replied ++ codes outs ↔ votes r.req r.seen ≠ []
    have hno := htold (by omega)
    rw [List.mem_append, hiff]
    simp [hno]

theorem Inv.dropped (h : Inv cfg r) (rsp : PaxosMsg) (haw : ¬ r.inst.Awaits r.term) :
    Inv cfg { r with
      arrived := r.arrived ++ [rsp]
      accept := r.accept <|> acceptReqOf []
      replied := r.replied ++ codes [] } := by
  have hidle : r.inst.req = none := by
    by_contra hne
    exact haw ⟨h.term.symm, Option.isSome_iff_ne_none.mpr hne⟩
  refine ⟨h.term, h.seen.trans (List.prefix_append _ _), ?_⟩
  cases h.stage with
  | preparing q hp =>
    have hreq := hp.req
    rw [hidle] at hreq
    cases hreq
  | accepted l x m hseen hopen hdec hpos hacc hm hph hfew =>
    have hacc' : (r.accept <|> acceptReqOf []) = some m := by rw [hacc]; rfl
    refine .accepted l x m hseen hopen hdec hpos hacc' hm hph
      fun hle => ⟨fun hne => absurd hidle hne, ?_⟩
    have hle' : r.arrived.length + 1 ≤ cfg.totalAcceptor := by simpa using hle
    show ErrCode.preparePeerValue ∈ r.replied ++ codes [] ↔ votes r.req r.seen ≠ []
    rw [codes_nil, List.append_nil]
    exact (hfew (by omega)).2
  | ended hreq hacc htold hwhy =>
    refine .ended hreq ?_ ?_ hwhy
    · show (r.accept <|> acceptReqOf []) = none
      rw [hacc]
      rfl
    · show ErrCode.preparePeerValue ∈ r.replied ++ codes [] ↔ votes r.req r.seen ≠ []
      rw [codes_nil, List.append_nil]
      exact htold

theorem Inv.rsp (h : Inv cfg r) {rsp : PaxosMsg} (hs : (sys cfg).step r (.rsp rsp) r') :
    Inv cfg r' := by
  obtain ⟨⟨s', outs⟩, hd, rfl⟩ := Option.map_eq_some_iff.mp hs
  by_cases haw : r.inst.Awaits r.term
  · obtain ⟨hprep, hacpt⟩ := Round.handleRsp_awaits hd haw
    have hsome := Option.isSome_iff_ne_none.mp haw.2
    cases h.stage with
    | preparing q hp =>
      have hdone := handlePrepareRsp_done hp.req (hprep hp.phase)
      rw [if_pos ⟨haw, hp.phase⟩]
      refine ⟨(PrepareRspDone.term_eq hdone).trans h.term, ?_, prepare_stage hp hdone⟩
      show r.seen ++ [rsp] <+: r.arrived ++ [rsp]
      rw [hp.seen]
    | accepted l x m hseen hopen hdec hpos hacc hm hph hfew =>
      have hph := hph.resolve_left hsome
      obtain ⟨q, hreq⟩ := Option.ne_none_iff_exists'.mp hsome
      have hdone := handleAcceptRsp_done hreq (hacpt hph)
      have hnot : ¬ (r.inst.Awaits r.term ∧ r.inst.phase = preparingPhase) := by
        rw [hph]
        exact fun hp => absurd hp.2 (by decide)
      rw [if_neg hnot]
      exact ⟨(AcceptRspDone.kept hdone).1.trans h.term, h.seen.trans (List.prefix_append _ _),
        accept_stage hseen hopen hdec hpos hacc hm hph hreq hfew hdone⟩
    | ended hreq => exact absurd hreq hsome
  · obtain ⟨rfl, rfl⟩ := Round.handleRsp_drops hd haw
    rw [if_neg fun hp => haw hp.1]
    exact h.dropped rsp haw

theorem Inv.timeout (h : Inv cfg r) : Inv cfg { r with
    inst := r.inst.handleTimeout.1
    replied := r.replied ++ codes r.inst.handleTimeout.2
    timedOut := true } := by
  have htold : ErrCode.preparePeerValue ∈ r.replied ++ codes r.inst.handleTimeout.2 ↔
      ErrCode.preparePeerValue ∈ r.replied := by
    rw [Round.handleTimeout_codes]
    cases r.inst.notified <;> simp
  refine ⟨h.term, h.seen, ?_⟩
  cases h.stage with
  | preparing q hp => exact .ended rfl hp.accept (htold.trans hp.told) (.inl rfl)
  | accepted l x m hseen hopen hdec hpos hacc hm _ hfew =>
    exact .accepted l x m hseen hopen hdec hpos hacc hm (.inl rfl)
      fun hle => ⟨fun hne => absurd rfl hne, htold.trans (hfew hle).2⟩
  | ended _ hacc hold _ => exact .ended rfl hacc (htold.trans hold) (.inl rfl)

theorem Inv.entryChosen (h : Inv cfg r) (pp : Proposal) (fromPlog : Bool) :
    Inv cfg { r with inst := r.inst.onEntryChosen pp fromPlog } := by
  unfold onEntryChosen
  split
  · exact h
  · have hk := updateChosenInfo_keeps r.inst pp.pentry pp.proposer
    refine ⟨hk.term.trans h.term, h.seen, ?_⟩
    cases h.stage with
    | preparing q hp =>
      exact .preparing q { hp with
        req := hk.req.trans hp.req
        phase := (phase_of_state hk.state).trans hp.phase
        counts := hp.counts.congr hk.rspCount hk.validRspCount hk.state hk.lastv }
    | accepted l x m hseen hopen hdec hpos hacc hm hph hfew =>
      refine .accepted l x m hseen hopen hdec hpos hacc hm ?_ fun hle => ⟨fun hne => ?_, (hfew hle).2⟩
      · exact hph.imp hk.req.trans (phase_of_state hk.state).trans
      · exact hk.rspCount ▸ (hfew hle).1 fun hnone => hne (hk.req.trans hnone)
    | ended hq hacc htold hwhy => exact .ended (hk.req.trans hq) hacc htold hwhy

theorem Inv.step {op : PrepareOp} (h : Inv cfg r) (hs : (sys cfg).step r op r') : Inv cfg r' := by
  cases op with
  | rsp rsp => exact h.rsp hs
  | timeout =>
    simp only [sys, LTS.ofFn, Prepare.step] at hs
    split at hs
    · obtain rfl := Option.some.inj hs
      exact h.timeout
    · obtain rfl := Option.some.inj hs
      exact h
  | entryChosen pp fromPlog =>
    obtain rfl := Option.some.inj hs
    exact h.entryChosen pp fromPlog

theorem Inv.start (h : Starts cfg r) : Inv cfg r := by
  obtain ⟨s, pinst, opaqueData, val, promise, hidle, hval, hskip, rfl⟩ := h
  have hrun : s.proposeAsync cfg pinst opaqueData val promise false =
      (s.begun cfg pinst opaqueData val promise preparingPhase
        (s.proposalMsg cfg pinst opaqueData val),
        [.rpc (asPrepareReq (s.proposalMsg cfg pinst opaqueData val)),
          .addTimeout pinst (s.proposalMsg cfg pinst opaqueData val).pp.pentry
            (s.proposalMsg cfg pinst opaqueData val).pp.term]) := by
    have hreq : ¬ s.req.isSome := by rw [hidle]; simp
    have hskip' : val.isEmpty ∨ ¬ (s.allocPaxosMsg cfg pinst opaqueData val).2.canSkipPrepare
        (s.proposalMsg cfg pinst opaqueData val).pp := .inr hskip
    unfold proposeAsync
    rw [if_neg hreq, if_neg (by simp)]
    exact if_pos hskip'
  unfold Prepare.start
  rw [hrun]
  obtain ⟨hn, hph, -⟩ := begun_state cfg s pinst opaqueData val promise
    (s.proposalMsg cfg pinst opaqueData val)
  refine ⟨rfl, List.prefix_refl _, .preparing _ ⟨rfl, .refl _, hph, rfl, rfl, .nil cfg _, ?_, ?_⟩⟩
  · refine ⟨rfl, rfl, ?_, fun hne => absurd rfl hne⟩
    show (s.begun cfg pinst opaqueData val promise preparingPhase _).notified = true ↔ _
    rw [hn]
    simp [votes]
  · simp [codes, promisesSet, votes]

theorem votes_invariant (cfg : Configure) : (sys cfg).Inductive (Inv cfg) where
  init _ h := .start h
  step _ _ _ h hs := h.step hs

end

end Prepare

end Quarrel
