import Quarrel.Core.LTS
import Quarrel.L3Role.ProposerSpec

/-!
# One reply per proposal

The promises of an instance are numbered by its `ProposeAsync` calls. `Replies`
counts the calls and lists the promises set, so a promise set twice is a number
listed twice.

* `Answers`: what handling a response or a timeout of the outstanding round does
  to the caller's promise.
* `OneReply`: the invariant. No promise is set twice; while `req_` is null every
  promise has been set; otherwise all but the one of the round have, and that
  one has exactly when the highest bit of `state_` is set.
* `one_reply`: it holds of every instance in every reachable state.
-/
namespace Quarrel

open InstanceState

/-- The calls of an instance so far, and the promises set, with their codes. -/
structure Replies where
  calls : Nat
  set : List (Nat × Int)

/-- A proposer with the replies of its instances. -/
structure ProposerRun where
  states : Proposer
  replies : Nat → Replies

/-- What can happen to a proposer. -/
inductive ProposerOp where
  | propose (opaqueData : Nat) (val : List UInt8) (pinst : Nat) (oom : Bool)
  | response (m : RpcResponseMsg)
  | entryChosen (msg : PaxosMsg) (fromPlog : Bool)

/-- The instance whose promise a response can set. -/
def RpcResponseMsg.target (cfg : Configure) (m : RpcResponseMsg) : Nat :=
  match m.msg with
  | none => m.pinst % cfg.plogInstNum
  | some rsp => rsp.pp.pinst

def ProposerRun.step (cfg : Configure) (r : ProposerRun) : ProposerOp → Option ProposerRun
  | .propose opaqueData val pinst oom =>
    let i := pinst % cfg.plogInstNum
    let calls := (r.replies i).calls + 1
    let res := r.states.proposeAsync cfg opaqueData val pinst calls oom
    some ⟨res.1, Function.update r.replies i ⟨calls, (r.replies i).set ++ promisesSet res.2⟩⟩
  | .response m =>
    (r.states.handleRpcResponse cfg m).map fun res =>
      let i := m.target cfg
      ⟨res.1, Function.update r.replies i { r.replies i with
        set := (r.replies i).set ++ promisesSet res.2 }⟩
  | .entryChosen msg fromPlog => some { r with states := r.states.onEntryChosen cfg msg fromPlog }

def proposerSys (cfg : Configure) : LTS ProposerRun ProposerOp :=
  .ofFn (fun r => ∃ sec, r = ⟨Proposer.new cfg sec, fun _ => ⟨0, []⟩⟩) (ProposerRun.step cfg)

/-- A response carries the instance it was asked for. -/
def OwnInstance (cfg : Configure) (_ : ProposerRun) (op : ProposerOp) (_ : ProposerRun) : Prop :=
  ∀ m rsp, op = .response m → m.msg = some rsp → rsp.pp.pinst = m.pinst % cfg.plogInstNum

/-! ## One response -/

/-- The promises `ks` set by a step from `s`, where a round is outstanding, to `s'`. -/
inductive Answers (s s' : InstanceState) (ks : List Nat) : Prop
  | waiting (hreq : s'.req ≠ none) (hret : s'.ret = s.ret) (hn : s'.notified = s.notified)
      (hk : ks = [])
  | early (hreq : s'.req ≠ none) (hret : s'.ret = s.ret) (h0 : s.notified = false)
      (h1 : s'.notified = true) (hk : ks = [s.ret])
  | done (hreq : s'.req = none) (hk : ks = if s.notified then [] else [s.ret])

/-- The numbers of the promises set. -/
def promiseIds (outs : List Out) : List Nat := (promisesSet outs).map Prod.fst

@[simp] theorem promiseIds_nil : promiseIds [] = [] := rfl
@[simp] theorem promiseIds_rpc (m : PaxosMsg) (outs : List Out) :
    promiseIds (.rpc m :: outs) = promiseIds outs := rfl
@[simp] theorem promiseIds_timeout (i e t : Nat) (outs : List Out) :
    promiseIds (.addTimeout i e t :: outs) = promiseIds outs := rfl
@[simp] theorem promiseIds_set (k : Nat) (c : Int) (outs : List Out) :
    promiseIds (.setValue k c :: outs) = k :: promiseIds outs := rfl

/-- The label `out` of the prepare handler, with the first vote of another value or without. -/
theorem prepareOut_answers {s s₁ s' : InstanceState} {ret : Int} {done first : Bool}
    {outs : List Out}
    (ho : (s', outs) = prepareOut s₁ ret done first) (hreq : s₁.req ≠ none) (hret : s₁.ret = s.ret)
    (hf : first = true → s.notified = false ∧ s₁.notified = true)
    (hn : first = false → s₁.notified = s.notified) : Answers s s' (promiseIds outs) := by
  cases done with
  | true =>
    obtain ⟨rfl, rfl⟩ := Prod.mk.inj ho
    refine .done rfl ?_
    cases first with
    | true => simp [hf rfl, hret]
    | false =>
      rw [hn rfl, hret]
      cases s.notified <;> rfl
  | false =>
    obtain ⟨rfl, rfl⟩ := Prod.mk.inj ho
    cases first with
    | true => exact .early hreq hret (hf rfl).1 (hf rfl).2 (by simp [(hf rfl).2, hret])
    | false => exact .waiting hreq hret (hn rfl) (by simp)

theorem acceptOut_answers {s s₁ s' : InstanceState} {ret : Int} {done : Bool} {outs : List Out}
    (ho : (s', outs) = acceptOut s₁ ret done) (hreq : s₁.req ≠ none) (hret : s₁.ret = s.ret)
    (hn : s₁.notified = s.notified) : Answers s s' (promiseIds outs) := by
  cases done with
  | true =>
    obtain ⟨rfl, rfl⟩ := Prod.mk.inj ho
    refine .done rfl ?_
    rw [hn, hret]
    cases s.notified <;> rfl
  | false =>
    obtain ⟨rfl, rfl⟩ := Prod.mk.inj ho
    exact .waiting hreq hret hn rfl

theorem InstanceState.PrepareRspDone.answers {cfg : Configure} {s s' : InstanceState}
    {req rsp : PaxosMsg}
    {outs : List Out} (h : PrepareRspDone cfg s req rsp s' outs) (hreq : s.req = some req) :
    Answers s s' (promiseIds outs) := by
  have hne : s.req ≠ none := by rw [hreq]; simp
  have hret := (afterPromise_keeps s req rsp).ret
  have hne' : (s.afterPromise req rsp).req ≠ none := by rw [afterPromise_req]; simp
  have hnot := afterPromise_notified s req rsp
  -- the vote is the first of another value exactly when the flag goes up
  have hf : decide (OtherValue req rsp ∧ ¬ s.notified) = true →
      s.notified = false ∧ (s.afterPromise req rsp).notified = true := by
    intro h
    obtain ⟨ho, hn⟩ := of_decide_eq_true h
    exact ⟨by simpa using hn, by rw [hnot, decide_eq_true ho, Bool.or_true]⟩
  have hn : decide (OtherValue req rsp ∧ ¬ s.notified) = false →
      (s.afterPromise req rsp).notified = s.notified := by
    intro h
    have h' := of_decide_eq_false h
    rw [hnot]
    cases hs : s.notified with
    | true => rfl
    | false =>
      have ho : ¬ OtherValue req rsp := fun ho => h' ⟨ho, by simp [hs]⟩
      rw [decide_eq_false ho]; rfl
  cases h with
  | wrongType _ => exact .waiting hne rfl rfl rfl
  | refused ret req' ig _ _ _ _ _ ho =>
    exact prepareOut_answers ho (by simp) rfl (by simp) (fun _ => rfl)
  | pending _ _ _ ho => exact prepareOut_answers ho hne' hret hf hn
  | probed _ _ _ _ _ ho => exact prepareOut_answers ho hne' hret hf hn
  | accepting m _ _ _ _ _ _ hs ho =>
    have hreq'' : s'.req ≠ none := by
      rw [hs]
      unfold enterAccept
      dsimp only
      split <;> simp
    have hret' : s'.ret = s.ret := by rw [hs]; exact hret
    have hnot' : s'.notified = (s.afterPromise req rsp).notified := by
      rw [hs]
      simp only [notified, enterAccept, accepting_bit]
    rw [ho, promiseIds_rpc]
    by_cases hfirst : OtherValue req rsp ∧ ¬ s.notified
    · obtain ⟨h0, h1⟩ := hf (decide_eq_true hfirst)
      rw [if_pos hfirst]
      exact .early hreq'' hret' h0 (hnot'.trans h1) rfl
    · rw [if_neg hfirst]
      exact .waiting hreq'' hret' (hnot'.trans (hn (decide_eq_false hfirst))) rfl

theorem InstanceState.AcceptRspDone.answers {cfg : Configure} {s s' : InstanceState}
    {req rsp : PaxosMsg}
    {outs : List Out} (h : AcceptRspDone cfg s req rsp s' outs) (hreq : s.req = some req) :
    Answers s s' (promiseIds outs) := by
  cases h with
  | wrongType _ => exact .waiting (by rw [hreq]; simp) rfl rfl rfl
  | refused ret req' ig _ _ _ _ _ ho => exact acceptOut_answers ho (by simp) rfl rfl
  | pending _ _ ho => exact acceptOut_answers ho (by simp [afterAccept]) rfl rfl
  | chosen _ _ hs ho =>
    refine .done (by rw [hs]) ?_
    rw [ho, promiseIds_rpc]
    cases s.notified <;> rfl

theorem handleTimeout_answers (s : InstanceState) :
    Answers s s.handleTimeout.1 (promiseIds s.handleTimeout.2) := by
  refine .done rfl ?_
  unfold handleTimeout
  dsimp only
  cases s.notified <;> rfl

/-- A response is for a round that is over, or is one of the outstanding round. -/
theorem handleRsp_answers {cfg : Configure} {s s' : InstanceState} {term : Nat} {rsp : PaxosMsg}
    {outs : List Out} (h : s.handleRsp cfg term rsp = some (s', outs)) :
    (s' = s ∧ outs = []) ∨ (s.req ≠ none ∧ Answers s s' (promiseIds outs)) := by
  unfold handleRsp at h
  split at h
  · cases h
    exact .inl ⟨rfl, rfl⟩
  rename_i haw
  rw [not_not] at haw
  have hne : s.req ≠ none := Option.isSome_iff_ne_none.mp haw.2
  obtain ⟨req, hreq⟩ := Option.ne_none_iff_exists'.mp hne
  split at h
  · exact .inr ⟨hne, (handlePrepareRsp_done hreq h).answers hreq⟩
  · split at h
    · exact .inr ⟨hne, (handleAcceptRsp_done hreq (Option.some.inj h)).answers hreq⟩
    · cases h
      exact .inl ⟨rfl, rfl⟩

/-! ## The invariant -/

/-- The state of an instance and its replies. -/
structure OneReply (s : InstanceState) (r : Replies) : Prop where
  nodup : (r.set.map Prod.fst).Nodup
  issued : ∀ k ∈ r.set.map Prod.fst, 1 ≤ k ∧ k ≤ r.calls
  idle : s.req = none → ∀ k, 1 ≤ k → k ≤ r.calls → k ∈ r.set.map Prod.fst
  ret : s.req ≠ none → 1 ≤ s.ret ∧ s.ret ≤ r.calls
  others : s.req ≠ none → ∀ k, 1 ≤ k → k ≤ r.calls → k ≠ s.ret → k ∈ r.set.map Prod.fst
  current : s.req ≠ none → (s.ret ∈ r.set.map Prod.fst ↔ s.notified)

theorem OneReply.start (pid n sec : Nat) : OneReply (InstanceState.new pid n sec) ⟨0, []⟩ :=
  ⟨List.nodup_nil, fun k h => by simp at h, fun _ k h1 h2 => absurd h1 (by simp at h2; omega),
    fun h => absurd rfl h, fun h => absurd rfl h, fun h => absurd rfl h⟩

/-- Nothing but `req_`, the promise and the flag matters. -/
theorem OneReply.congr {s s' : InstanceState} {r : Replies} (h : OneReply s r)
    (hreq : s'.req = s.req)
    (hret : s'.ret = s.ret) (hn : s'.notified = s.notified) : OneReply s' r :=
  ⟨h.nodup, h.issued, by rw [hreq]; exact h.idle, by rw [hreq, hret]; exact h.ret,
    by rw [hreq, hret]; exact h.others, by rw [hreq, hret, hn]; exact h.current⟩

theorem OneReply.resolve {s s' : InstanceState} {r : Replies} {l : List (Nat × Int)}
    (h : OneReply s r)
    (hreq : s.req ≠ none) (hn : s.notified = false) (hl : l.map Prod.fst = [s.ret])
    (hs' : s'.req ≠ none → s'.ret = s.ret ∧ s'.notified = true) :
    OneReply s' { r with set := r.set ++ l } := by
  have hnot : s.ret ∉ r.set.map Prod.fst := fun hm => by
    have := (h.current hreq).mp hm
    rw [hn] at this
    cases this
  have hmem : ∀ k, k ∈ (r.set ++ l).map Prod.fst ↔ k ∈ r.set.map Prod.fst ∨ k = s.ret := by
    intro k
    rw [List.map_append, hl, List.mem_append, List.mem_singleton]
  have hall : ∀ k, 1 ≤ k → k ≤ r.calls → k ∈ (r.set ++ l).map Prod.fst := by
    intro k h1 h2
    by_cases hk : k = s.ret
    · exact (hmem k).mpr (.inr hk)
    · exact (hmem k).mpr (.inl (h.others hreq k h1 h2 hk))
  constructor
  · rw [List.map_append, hl]
    exact h.nodup.append (List.nodup_singleton _) (by simpa using hnot)
  · intro k hk
    rcases (hmem k).mp hk with hk | rfl
    · exact h.issued k hk
    · exact h.ret hreq
  · exact fun _ => hall
  · intro hr
    rw [(hs' hr).1]
    exact h.ret hreq
  · exact fun _ k h1 h2 _ => hall k h1 h2
  · intro hr
    obtain ⟨h1, h2⟩ := hs' hr
    rw [h1, h2]
    exact ⟨fun _ => rfl, fun _ => (hmem s.ret).mpr (.inr rfl)⟩

theorem OneReply.finish {s s' : InstanceState} {r : Replies} (h : OneReply s r)
    (hreq : s.req ≠ none) (hn : s.notified = true) (hs' : s'.req = none) : OneReply s' r := by
  refine ⟨h.nodup, h.issued, fun _ k h1 h2 => ?_, fun h => absurd hs' h, fun h => absurd hs' h,
    fun h => absurd hs' h⟩
  by_cases hk : k = s.ret
  · exact hk ▸ (h.current hreq).mpr hn
  · exact h.others hreq k h1 h2 hk

theorem OneReply.answers {s s' : InstanceState} {r : Replies} {outs : List Out} (h : OneReply s r)
    (hreq : s.req ≠ none) (ha : Answers s s' (promiseIds outs)) :
    OneReply s' { r with set := r.set ++ promisesSet outs } := by
  have hnil : promiseIds outs = [] → promisesSet outs = [] := List.map_eq_nil_iff.mp
  cases ha with
  | waiting hreq' hret hn hk =>
    rw [hnil hk, List.append_nil]
    exact ⟨h.nodup, h.issued, fun h => absurd h hreq', fun _ => hret ▸ h.ret hreq,
      fun _ => hret ▸ h.others hreq, fun _ => by rw [hret, hn]; exact h.current hreq⟩
  | early hreq' hret h0 h1 hk => exact h.resolve hreq h0 hk fun _ => ⟨hret, h1⟩
  | done hreq' hk =>
    cases hn : s.notified with
    | true =>
      rw [hn, if_pos rfl] at hk
      rw [hnil hk, List.append_nil]
      exact h.finish hreq hn hreq'
    | false =>
      rw [hn] at hk
      exact h.resolve hreq hn hk fun hr => absurd hreq' hr

theorem OneReply.rejected {s : InstanceState} {r : Replies} (h : OneReply s r) (code : Int) :
    OneReply s ⟨r.calls + 1, r.set ++ [(r.calls + 1, code)]⟩ := by
  have hmem : ∀ k, k ∈ (r.set ++ [(r.calls + 1, code)]).map Prod.fst ↔
      k ∈ r.set.map Prod.fst ∨ k = r.calls + 1 := by
    intro k
    rw [List.map_append, List.mem_append, List.map_singleton, List.mem_singleton]
  have hnew : r.calls + 1 ∉ r.set.map Prod.fst := fun hm => by
    have := (h.issued _ hm).2
    omega
  constructor
  · rw [List.map_append]
    exact h.nodup.append (List.nodup_singleton _) (by simpa using hnew)
  · intro k hk
    rcases (hmem k).mp hk with hk | rfl
    · exact ⟨(h.issued k hk).1, Nat.le_succ_of_le (h.issued k hk).2⟩
    · exact ⟨by omega, Nat.le_refl _⟩
  · intro hr k h1 h2
    rw [hmem]
    by_cases hk : k = r.calls + 1
    · exact .inr hk
    · exact .inl (h.idle hr k h1 (by simp only at h2; omega))
  · intro hr
    exact ⟨(h.ret hr).1, Nat.le_succ_of_le (h.ret hr).2⟩
  · intro hr k h1 h2 hne
    rw [hmem]
    by_cases hk : k = r.calls + 1
    · exact .inr hk
    · exact .inl (h.others hr k h1 (by simp only at h2; omega) hne)
  · intro hr
    have hne : s.ret ≠ r.calls + 1 := by
      have := (h.ret hr).2
      omega
    rw [hmem]
    exact ⟨fun hm => (h.current hr).mp (hm.resolve_right hne),
      fun hn => .inl ((h.current hr).mpr hn)⟩

theorem OneReply.started {s s' : InstanceState} {r : Replies} (h : OneReply s r)
    (hreq : s.req = none)
    (hreq' : s'.req ≠ none) (hret : s'.ret = r.calls + 1) (hn : s'.notified = false) :
    OneReply s' ⟨r.calls + 1, r.set⟩ := by
  have hall := h.idle hreq
  refine ⟨h.nodup, fun k hk => ⟨(h.issued k hk).1, Nat.le_succ_of_le (h.issued k hk).2⟩,
    fun h => absurd h hreq', fun _ => by rw [hret]; exact ⟨by omega, Nat.le_refl _⟩, ?_, ?_⟩
  · intro _ k h1 h2 hne
    rw [hret] at hne
    exact hall k h1 (by simp only at h2; omega)
  · intro _
    rw [hret, hn]
    refine ⟨fun hm => ?_, fun hf => nomatch hf⟩
    have := (h.issued _ hm).2
    omega

theorem InstanceState.ProposeDone.oneReply {cfg : Configure} {s s' : InstanceState} {r : Replies}
    {pinst opaqueData : Nat} {val : List UInt8} {outs : List Out} (h : OneReply s r)
    (hd : ProposeDone cfg s pinst opaqueData val (r.calls + 1) s' outs) :
    OneReply s' ⟨r.calls + 1, r.set ++ promisesSet outs⟩ := by
  cases hd with
  | rejected code _ => exact h.rejected code
  | prepare m hidle =>
    obtain ⟨hn, -⟩ := begun_state cfg s pinst opaqueData val (r.calls + 1) m
    rw [show promisesSet [.rpc (asPrepareReq m), .addTimeout pinst m.pp.pentry m.pp.term] = [] from rfl,
      List.append_nil]
    exact h.started hidle (by simp [begun]) rfl hn
  | fast m hidle =>
    obtain ⟨-, -, hn, -⟩ := begun_state cfg s pinst opaqueData val (r.calls + 1) m
    rw [show promisesSet [.rpc m, .addTimeout pinst m.pp.pentry m.pp.term] = [] from rfl,
      List.append_nil]
    exact h.started hidle (by simp [begun]) rfl hn

theorem step_oneReply {cfg : Configure} {r r' : ProposerRun} {op : ProposerOp}
    (h : ∀ i, OneReply (r.states i) (r.replies i))
    (hs : ((proposerSys cfg).restrict (OwnInstance cfg)).step r op r') (i : Nat) :
    OneReply (r'.states i) (r'.replies i) := by
  obtain ⟨hst, hown⟩ := hs
  cases op with
  | propose opaqueData val pinst oom =>
    obtain rfl := Option.some.inj hst
    simp only [Proposer.proposeAsync, Function.update_apply]
    split
    · rename_i hi
      subst hi
      exact (proposeAsync_done cfg (r.states (pinst % cfg.plogInstNum)) (pinst % cfg.plogInstNum)
        opaqueData val ((r.replies (pinst % cfg.plogInstNum)).calls + 1) oom).oneReply (h _)
    · exact h i
  | entryChosen msg fromPlog =>
    obtain rfl := Option.some.inj hst
    simp only [Proposer.onEntryChosen, Function.update_apply]
    split
    · rename_i hi
      subst hi
      unfold onEntryChosen
      split
      · exact h _
      · have hkeeps := updateChosenInfo_keeps (r.states (msg.pp.pinst % cfg.plogInstNum)) msg.pp.pentry
          msg.pp.proposer
        exact (h _).congr hkeeps.req hkeeps.ret (notified_of_state hkeeps.state)
    · exact h i
  | response m =>
    simp only [proposerSys, LTS.ofFn, ProposerRun.step, Option.map_eq_some_iff] at hst
    obtain ⟨⟨p', outs⟩, hp, rfl⟩ := hst
    have htarget : m.target cfg = m.pinst % cfg.plogInstNum := by
      unfold RpcResponseMsg.target
      cases hmsg : m.msg with
      | none => rfl
      | some rsp => exact hown m rsp rfl hmsg
    have hstep : (p' = r.states ∧ outs = []) ∨
        ∃ s', p' = Function.update r.states (m.target cfg) s' ∧
        (r.states (m.target cfg)).req ≠ none ∧
        Answers (r.states (m.target cfg)) s' (promiseIds outs) := by
      rw [htarget]
      cases hmsg : m.msg with
      | none =>
        cases Proposer.handleRpcResponse_done hp with
        | late => exact .inl ⟨rfl, rfl⟩
        | timeout haw => exact .inr ⟨_, rfl, Option.isSome_iff_ne_none.mp haw.2, handleTimeout_answers _⟩
        | prepare rsp _ hrsp | accept rsp _ hrsp | phaseless rsp hrsp =>
          rw [hmsg] at hrsp
          cases hrsp
      | some rsp =>
        rw [Proposer.handleRpcResponse_own hmsg (hown m rsp rfl hmsg)] at hp
        simp only [Option.map_eq_some_iff] at hp
        obtain ⟨⟨s', o⟩, hd, hp⟩ := hp
        cases hp
        rcases handleRsp_answers hd with ⟨rfl, rfl⟩ | ⟨hne, ha⟩
        · exact .inl ⟨Function.update_eq_self _ _, rfl⟩
        · exact .inr ⟨s', rfl, hne, ha⟩
    rcases hstep with ⟨rfl, rfl⟩ | ⟨s', rfl, hne, ha⟩
    · have hsame : { r.replies (m.target cfg) with
          set := (r.replies (m.target cfg)).set ++ promisesSet [] } = r.replies (m.target cfg) := by
        simp [promisesSet]
      dsimp only
      rw [hsame, Function.update_eq_self]
      exact h i
    · simp only [Function.update_apply]
      split
      · rename_i hi
        subst hi
        exact (h _).answers hne ha
      · exact h i

/-- In every reachable state no promise has been set twice; every promise has
been set, but for the one of the outstanding round while bit 0x80 is clear. -/
theorem one_reply {cfg : Configure} {r : ProposerRun}
    (h : ((proposerSys cfg).restrict (OwnInstance cfg)).Reachable r) (i : Nat) :
    OneReply (r.states i) (r.replies i) := by
  refine LTS.Inductive.reachable (I := fun r => ∀ i, OneReply (r.states i) (r.replies i)) ⟨?_, ?_⟩ r
    h i
  · intro r hinit i
    obtain ⟨sec, rfl⟩ := hinit
    exact OneReply.start _ _ _
  · intro r op r' hI hs
    exact step_oneReply hI hs

/-- A peer has voted for another value, and the round times out. So does the one after it. -/
def peerValueFirst : List ProposerOp :=
  let m := asPrepareReq ((Proposer.new (Configure.init 0) 7 0).proposalMsg (Configure.init 0) 0 1 [9])
  let vote := { m with
    type := .prepareRsp
    pp := { m.pp with status := .promised, valueId := 77, size := 1, data := [5] } }
  [.propose 1 [9] 0 false, .response (rpcResponseOf m vote), .response ⟨m.pp.term, 0, m.pp.pentry, none⟩,
    .propose 1 [9] 0 false, .response ⟨m.pp.term + 1, 0, m.pp.pentry, none⟩]

def ownInstance (cfg : Configure) : ProposerOp → Bool
  | .response m => m.msg.all fun rsp => rsp.pp.pinst = m.pinst % cfg.plogInstNum
  | _ => true

def toldBoth : ProposerRun :=
  (LTS.exec (fun r op => (ProposerRun.step (Configure.init 0) r op).filter fun _ =>
      ownInstance (Configure.init 0) op)
    ⟨Proposer.new (Configure.init 0) 7, fun _ => ⟨0, []⟩⟩ peerValueFirst).get (by decide +kernel)

/-- The first caller is told of the vote, and not of the timeout. -/
theorem one_reply_peer_value :
    (toldBoth.replies 0).set = [(1, ErrCode.preparePeerValue), (2, ErrCode.timeout)] ∧
      OneReply (toldBoth.states 0) (toldBoth.replies 0) := by
  refine ⟨by decide +kernel, one_reply ⟨_, _, ⟨7, rfl⟩, LTS.run_of_guarded
    (g := fun _ op _ => ownInstance (Configure.init 0) op) (fun r op r' _ hg m rsp he hm => ?_)
    (Option.some_get _).symm⟩ 0⟩
  subst he
  simp only [ownInstance, hm, Option.all_some, decide_eq_true_eq] at hg
  exact hg

end Quarrel
