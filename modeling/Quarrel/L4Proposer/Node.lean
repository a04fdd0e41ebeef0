import Quarrel.L1Data.TimingWheel
import Quarrel.L4Proposer.OneReply

/-!
# A proposer, its wheel and its workers (`core/proposer.cpp`, `util/worker_pool.hpp`)

A proposer with its timing wheel and the queues of its workers. `ProposeAsync` arms a
timeout for the round it starts, the wheel hands those that are due to the worker of the
instance, as the connections do with the responses, and a worker handles what its queue
holds. The threads that fill a queue may overtake each other, so that any message of it
may be the next.

A notifier that finds the queue full arms itself again, under the lock its caller holds:
the wheel has stopped for good. A call that starts a round then waits for the wheel with
the lock of its instance held, and whoever wants that lock waits for the call.

* `step_done`: what a step does.
* `replied_inductive`: every instance keeps its replies, whether the wheel runs or not.
* `stopped_iff`: the wheel stops in a turn that finds a queue full.
* `never_answered`: a call that starts a round after that is never answered.
-/
namespace Quarrel

open InstanceState

/-- What the lambda of `addTimeout` captures. mirrors core/proposer.cpp:266-273 -/
structure TimeoutCall where
  pinst : Nat
  entry : Nat
  term : Nat

/-- `stopped` is the wheel whose worker waits for the lock it holds, `held` the instances whose
lock a call holds that waits for the wheel, `stuck` the workers that wait for such a lock. -/
structure ProposerNode where
  run : ProposerRun
  wheel : TimingWheel TimeoutCall
  queues : Nat → List RpcResponseMsg
  stopped : Bool
  held : Nat → Bool
  stuck : Nat → Bool

/-- `answer` is a response that reaches the callback of its broadcast, `turn` one turn of the
wheel, `handle w k` worker `w` with message `k` of its queue. -/
inductive NodeOp where
  | propose (opaqueData : Nat) (val : List UInt8) (pinst : Nat) (oom : Bool)
  | answer (m : RpcResponseMsg)
  | turn
  | handle (w k : Nat)
  | entryChosen (msg : PaxosMsg) (fromPlog : Bool)

/-- The output asks for a timeout. -/
def Out.isTimeout : Out → Bool
  | .addTimeout .. => true
  | _ => false

/-- What the notifier queues. -/
def TimeoutCall.msg (c : TimeoutCall) : RpcResponseMsg := ⟨c.term, c.pinst, c.entry, none⟩

/-- `none` is `kErrCode_PROPOSER_QUEUE_FULL`.
mirrors core/proposer.cpp:229-241, util/worker_pool.hpp:73-89 -/
def addRpcResponse (pool : PoolSize) (queues : Nat → List RpcResponseMsg) (m : RpcResponseMsg) :
    Option (Nat → List RpcResponseMsg) :=
  let w := m.pinst % pool.workers
  if (queues w).length < pool.queueSize then some (Function.update queues w (queues w ++ [m])) else none

/-- The notifiers of a turn, one after the other; the flag is raised by one that finds the
queue full, and none follows it.
mirrors core/proposer.cpp:266-273 -/
def notifyAll (pool : PoolSize) (queues : Nat → List RpcResponseMsg) :
    List (TimeoutCall × UInt64) → Option ((Nat → List RpcResponseMsg) × Bool)
  | [] => some (queues, false)
  | (c, opaqueData) :: calls =>
    if UInt64.ofNat c.term ≠ opaqueData then none -- the assertion
    else
      match addRpcResponse pool queues c.msg with
      | some queues => notifyAll pool queues calls
      | none => some (queues, true)

/-- The timeouts a step asks for.
mirrors core/proposer.cpp:275 -/
def armAll (timeout : UInt32) (w : TimingWheel TimeoutCall) : List Out → Option (TimingWheel TimeoutCall)
  | [] => some w
  | .addTimeout pinst entry term :: outs =>
    (w.arm timeout (⟨pinst, entry, term⟩, UInt64.ofNat term)).bind fun w => armAll timeout w outs
  | _ :: outs => armAll timeout w outs

namespace ProposerNode

/-- What `ProposeAsync` does to the outside, besides the promise. -/
def proposeOuts (cfg : Configure) (r : ProposerRun) (opaqueData : Nat) (val : List UInt8) (pinst : Nat)
    (oom : Bool) : List Out :=
  (r.states.proposeAsync cfg opaqueData val pinst ((r.replies (pinst % cfg.plogInstNum)).calls + 1) oom).2

/-- `none` is a step that cannot be taken: its thread waits for a lock that is never given up,
or the process is gone.
mirrors core/proposer.cpp:138-154,197-225,266-298,306-375, util/timing_wheel.hpp:40-79,
util/worker_pool.hpp:92-113 -/
def step (cfg : Configure) (pool : PoolSize) (s : ProposerNode) : NodeOp → Option ProposerNode
  | .propose opaqueData val pinst oom =>
    let i := pinst % cfg.plogInstNum
    let outs := proposeOuts cfg s.run opaqueData val pinst oom
    if s.held i then none
    else (s.run.step cfg (.propose opaqueData val pinst oom)).bind fun run =>
      if s.stopped then some { s with run := run, held := Function.update s.held i (outs.any Out.isTimeout) }
      else (armAll (UInt32.ofNat cfg.timeout) s.wheel outs).map fun wheel => { s with run := run, wheel := wheel }
  | .answer m => some { s with queues := (addRpcResponse pool s.queues m).getD s.queues }
  | .turn =>
    if s.stopped then none
    else s.wheel.worker.bind fun r =>
      (notifyAll pool s.queues r.1).map fun q =>
        if q.2 then { s with queues := q.1, stopped := true } else { s with wheel := r.2, queues := q.1 }
  | .handle w k =>
    if s.stuck w then none
    else (s.queues w)[k]?.bind fun m =>
      let queues := Function.update s.queues w ((s.queues w).eraseIdx k)
      if s.held (m.pinst % cfg.plogInstNum) then
        some { s with queues := queues, stuck := Function.update s.stuck w true }
      else (s.run.step cfg (.response m)).map fun run => { s with run := run, queues := queues }
  | .entryChosen msg fromPlog =>
    if s.held (msg.pp.pinst % cfg.plogInstNum) then none
    else (s.run.step cfg (.entryChosen msg fromPlog)).map fun run => { s with run := run }

/-- A proposer just constructed. -/
def start (cfg : Configure) (sec : Nat) (wheel : TimingWheel TimeoutCall) : ProposerNode where
  run := ⟨Proposer.new cfg sec, fun _ => ⟨0, []⟩⟩
  wheel := wheel
  queues _ := []
  stopped := false
  held _ := false
  stuck _ := false

def sys (cfg : Configure) (pool : PoolSize) : LTS ProposerNode NodeOp :=
  .ofFn (fun s => ∃ sec wheel, TimingWheel.ofTimeout (UInt32.ofNat cfg.timeout) = some wheel ∧
    s = start cfg sec wheel) (step cfg pool)

/-- A response carries the instance it was asked for. -/
def OwnAnswers (cfg : Configure) (_ : ProposerNode) (op : NodeOp) (_ : ProposerNode) : Prop :=
  ∀ m rsp, op = .answer m → m.msg = some rsp → rsp.pp.pinst = m.pinst % cfg.plogInstNum

/-- The turns of the wheel in a run. -/
def turns : List NodeOp → Nat
  | [] => 0
  | .turn :: ops => turns ops + 1
  | _ :: ops => turns ops

end ProposerNode

/-! ## Queues -/

section

variable {pool : PoolSize} {q q' : Nat → List RpcResponseMsg}

theorem addRpcResponse_mem {m : RpcResponseMsg} (h : addRpcResponse pool q m = some q') :
    (∀ w, q w ⊆ q' w) ∧ m ∈ q' (m.pinst % pool.workers) ∧ ∀ w x, x ∈ q' w → x ∈ q w ∨ x = m := by
  unfold addRpcResponse at h
  dsimp only at h
  split at h
  · cases h
    refine ⟨fun w => ?_, ?_, fun w x hx => ?_⟩
    · by_cases hw : w = m.pinst % pool.workers
      · subst hw
        rw [Function.update_self]
        exact List.subset_append_left _ _
      · rw [Function.update_of_ne hw]
        exact List.Subset.refl _
    · rw [Function.update_self]
      exact List.mem_append_right _ (List.mem_singleton_self m)
    · by_cases hw : w = m.pinst % pool.workers
      · subst hw
        rw [Function.update_self] at hx
        exact (List.mem_append.mp hx).imp id List.mem_singleton.mp
      · rw [Function.update_of_ne hw] at hx
        exact .inl hx
  · cases h

/-- The notifiers queue messages without a response, all of them unless one finds the queue full. -/
theorem notifyAll_mem {calls : List (TimeoutCall × UInt64)} {full : Bool}
    (h : notifyAll pool q calls = some (q', full)) :
    (∀ w, q w ⊆ q' w) ∧ (full = false → ∀ c ∈ calls, c.1.msg ∈ q' (c.1.pinst % pool.workers)) ∧
      ∀ w x, x ∈ q' w → x ∈ q w ∨ x.msg = none := by
  induction calls generalizing q with
  | nil =>
    cases h
    exact ⟨fun _ => List.Subset.refl _, fun _ _ hc => (List.not_mem_nil hc).elim, fun _ _ hx => .inl hx⟩
  | cons call calls ih =>
    obtain ⟨c, opaqueData⟩ := call
    simp only [notifyAll] at h
    split at h
    · cases h
    split at h
    · rename_i q₁ hadd
      obtain ⟨hsub, hmem, hnew⟩ := addRpcResponse_mem hadd
      obtain ⟨hsub', hall, hnew'⟩ := ih h
      refine ⟨fun w => List.Subset.trans (hsub w) (hsub' w), fun hfull c' hc' => ?_, fun w x hx => ?_⟩
      · rcases List.mem_cons.mp hc' with rfl | hc'
        · exact hsub' _ hmem
        · exact hall hfull c' hc'
      · rcases hnew' w x hx with hx | hx
        · rcases hnew w x hx with hx | rfl
          · exact .inl hx
          · exact .inr rfl
        · exact .inr hx
    · cases h
      exact ⟨fun _ => List.Subset.refl _, (fun hfull => by cases hfull), fun _ _ hx => .inl hx⟩

end

namespace ProposerNode

section

variable {cfg : Configure} {pool : PoolSize} {s s' : ProposerNode} {op : NodeOp}

/-! ## Steps -/

/-- What a step does. `hung` is a call that waits for the stopped wheel, `blocked` a worker that
takes a message for the instance of such a call. -/
inductive StepDone (cfg : Configure) (pool : PoolSize) (s : ProposerNode) : NodeOp → ProposerNode → Prop
  | propose {opaqueData pinst : Nat} {val : List UInt8} {oom : Bool} (run : ProposerRun)
      (wheel : TimingWheel TimeoutCall) (hgo : s.stopped = false)
      (hrun : s.run.step cfg (.propose opaqueData val pinst oom) = some run)
      (harm : armAll (UInt32.ofNat cfg.timeout) s.wheel (proposeOuts cfg s.run opaqueData val pinst oom) =
        some wheel) :
      StepDone cfg pool s (.propose opaqueData val pinst oom) { s with run := run, wheel := wheel }
  | hung {opaqueData pinst : Nat} {val : List UInt8} {oom : Bool} (run : ProposerRun)
      (hstop : s.stopped = true) (hfree : s.held (pinst % cfg.plogInstNum) = false)
      (hrun : s.run.step cfg (.propose opaqueData val pinst oom) = some run) :
      StepDone cfg pool s (.propose opaqueData val pinst oom) { s with
        run := run
        held := Function.update s.held (pinst % cfg.plogInstNum)
          ((proposeOuts cfg s.run opaqueData val pinst oom).any Out.isTimeout) }
  | answer (m : RpcResponseMsg) :
      StepDone cfg pool s (.answer m) { s with queues := (addRpcResponse pool s.queues m).getD s.queues }
  | turn (r : List (TimeoutCall × UInt64) × TimingWheel TimeoutCall) (queues : Nat → List RpcResponseMsg)
      (hgo : s.stopped = false) (hworker : s.wheel.worker = some r)
      (hnotify : notifyAll pool s.queues r.1 = some (queues, false)) :
      StepDone cfg pool s .turn { s with wheel := r.2, queues := queues }
  | full (r : List (TimeoutCall × UInt64) × TimingWheel TimeoutCall) (queues : Nat → List RpcResponseMsg)
      (hworker : s.wheel.worker = some r) (hnotify : notifyAll pool s.queues r.1 = some (queues, true)) :
      StepDone cfg pool s .turn { s with queues := queues, stopped := true }
  | handle {w k : Nat} (m : RpcResponseMsg) (run : ProposerRun) (hm : (s.queues w)[k]? = some m)
      (hfree : s.held (m.pinst % cfg.plogInstNum) = false) (hrun : s.run.step cfg (.response m) = some run) :
      StepDone cfg pool s (.handle w k) { s with
        run := run, queues := Function.update s.queues w ((s.queues w).eraseIdx k) }
  | blocked {w k : Nat} (m : RpcResponseMsg) (hheld : s.held (m.pinst % cfg.plogInstNum) = true) :
      StepDone cfg pool s (.handle w k) { s with
        queues := Function.update s.queues w ((s.queues w).eraseIdx k)
        stuck := Function.update s.stuck w true }
  | entryChosen (msg : PaxosMsg) (fromPlog : Bool) :
      StepDone cfg pool s (.entryChosen msg fromPlog) { s with
        run := { s.run with states := s.run.states.onEntryChosen cfg msg fromPlog } }

theorem step_done (h : step cfg pool s op = some s') : StepDone cfg pool s op s' := by
  cases op with
  | propose opaqueData val pinst oom =>
    simp only [step] at h
    split at h
    · cases h
    rename_i hfree
    obtain ⟨run, hrun, h⟩ := Option.bind_eq_some_iff.mp h
    split at h
    · rename_i hstop
      cases h
      exact .hung run hstop (Bool.not_eq_true _ ▸ hfree) hrun
    · rename_i hgo
      obtain ⟨wheel, harm, rfl⟩ := Option.map_eq_some_iff.mp h
      exact .propose run wheel (Bool.not_eq_true _ ▸ hgo) hrun harm
  | answer m =>
    cases h
    exact .answer m
  | turn =>
    simp only [step] at h
    split at h
    · cases h
    rename_i hgo
    obtain ⟨r, hworker, h⟩ := Option.bind_eq_some_iff.mp h
    obtain ⟨⟨queues, full⟩, hnotify, rfl⟩ := Option.map_eq_some_iff.mp h
    cases full with
    | false => exact .turn r queues (Bool.not_eq_true _ ▸ hgo) hworker hnotify
    | true => exact .full r queues hworker hnotify
  | handle w k =>
    simp only [step] at h
    split at h
    · cases h
    obtain ⟨m, hm, h⟩ := Option.bind_eq_some_iff.mp h
    split at h
    · rename_i hheld
      cases h
      exact .blocked m hheld
    · rename_i hfree
      obtain ⟨run, hrun, rfl⟩ := Option.map_eq_some_iff.mp h
      exact .handle m run hm (Bool.not_eq_true _ ▸ hfree) hrun
  | entryChosen msg fromPlog =>
    simp only [step] at h
    split at h
    · cases h
    · cases h
      exact .entryChosen msg fromPlog

/-- A turn one of whose notifiers finds the queue full. -/
def FindsFull (pool : PoolSize) (s : ProposerNode) (op : NodeOp) : Prop :=
  op = .turn ∧ ∃ r queues, s.wheel.worker = some r ∧ notifyAll pool s.queues r.1 = some (queues, true)

theorem step_stopped (h : step cfg pool s op = some s') :
    s'.stopped = true ↔ s.stopped = true ∨ FindsFull pool s op := by
  cases step_done h with
  | turn r queues hgo hworker hnotify =>
    refine ⟨.inl, fun h => h.elim id ?_⟩
    rintro ⟨-, r', queues', hworker', hnotify'⟩
    obtain rfl := Option.some.inj (hworker.symm.trans hworker')
    rw [hnotify] at hnotify'
    cases hnotify'
  | full r queues hworker hnotify =>
    exact iff_of_true rfl (.inr ⟨rfl, r, queues, hworker, hnotify⟩)
  | _ => exact ⟨.inl, fun h => h.elim id fun hf => by cases hf.1⟩

/-- The wheel stops in a turn that finds a queue full, and never turns again. -/
theorem stopped_iff {ops : List NodeOp} (h : LTS.exec (step cfg pool) s ops = some s') :
    s'.stopped = true ↔ s.stopped = true ∨ LTS.Meets (step cfg pool) (FindsFull pool) s ops :=
  LTS.exec_iff_meets (fun _ _ _ => step_stopped) h

/-! ## Replies -/

/-- What holds whether the wheel runs or not. -/
structure Replied (cfg : Configure) (s : ProposerNode) : Prop where
  replies : ∀ i, OneReply (s.run.states i) (s.run.replies i)
  own : ∀ w m rsp, m ∈ s.queues w → m.msg = some rsp → rsp.pp.pinst = m.pinst % cfg.plogInstNum

theorem eraseIdx_sub (q : Nat → List RpcResponseMsg) (w k w' : Nat) :
    Function.update q w ((q w).eraseIdx k) w' ⊆ q w' := by
  by_cases hw : w' = w
  · rw [hw, Function.update_self]
    exact (List.eraseIdx_sublist _ _).subset
  · rw [Function.update_of_ne hw]
    exact List.Subset.refl _

theorem Replied.own_step (h : s.Replied cfg) (hst : step cfg pool s op = some s')
    (hown : OwnAnswers cfg s op s') :
    ∀ w m rsp, m ∈ s'.queues w → m.msg = some rsp → rsp.pp.pinst = m.pinst % cfg.plogInstNum := by
  have hnotified : ∀ {calls queues full}, notifyAll pool s.queues calls = some (queues, full) →
      ∀ w m rsp, m ∈ queues w → m.msg = some rsp → rsp.pp.pinst = m.pinst % cfg.plogInstNum := by
    intro calls queues full hnotify w m rsp hm hrsp
    rcases (notifyAll_mem hnotify).2.2 w m hm with hm | hm
    · exact h.own w m rsp hm hrsp
    · rw [hm] at hrsp
      cases hrsp
  cases step_done hst with
  | propose | hung | entryChosen => exact h.own
  | answer m =>
    intro w m' rsp hm hrsp
    cases hadd : addRpcResponse pool s.queues m with
    | none =>
      rw [hadd] at hm
      exact h.own w m' rsp hm hrsp
    | some q =>
      rw [hadd] at hm
      rcases (addRpcResponse_mem hadd).2.2 w m' hm with hm | rfl
      · exact h.own w m' rsp hm hrsp
      · exact hown _ rsp rfl hrsp
  | turn _ _ _ _ hnotify | full _ _ _ hnotify => exact hnotified hnotify
  | handle | blocked => exact fun w m rsp hm => h.own w m rsp (eraseIdx_sub _ _ _ _ hm)

theorem Replied.replies_step (h : s.Replied cfg) (hst : step cfg pool s op = some s') (i : Nat) :
    OneReply (s'.run.states i) (s'.run.replies i) ∧
      (s.run.replies i).calls ≤ (s'.run.replies i).calls ∧ (s.run.replies i).set ⊆ (s'.run.replies i).set ∧
      (s.held i = true → s.stopped = true → s'.run.replies i = s.run.replies i) := by
  have hsame : s'.run = s.run → OneReply (s'.run.states i) (s'.run.replies i) ∧
      (s.run.replies i).calls ≤ (s'.run.replies i).calls ∧ (s.run.replies i).set ⊆ (s'.run.replies i).set ∧
      (s.held i = true → s.stopped = true → s'.run.replies i = s.run.replies i) := fun he => by
    rw [he]
    exact ⟨h.replies i, Nat.le_refl _, List.Subset.refl _, fun _ _ => rfl⟩
  have hupd : ∀ (j : Nat) (r : Replies), (s.run.replies j).calls ≤ r.calls → (s.run.replies j).set ⊆ r.set →
      (s.stopped = true → s.held j = false) → (s.run.replies i).calls ≤ (Function.update s.run.replies j r i).calls ∧
        (s.run.replies i).set ⊆ (Function.update s.run.replies j r i).set ∧
        (s.held i = true → s.stopped = true → Function.update s.run.replies j r i = s.run.replies i) := by
    intro j r hc hset hfree
    by_cases hij : i = j
    · subst hij
      rw [Function.update_self]
      refine ⟨hc, hset, fun hheld hstop => ?_⟩
      rw [hfree hstop] at hheld
      cases hheld
    · rw [Function.update_of_ne hij]
      exact ⟨Nat.le_refl _, List.Subset.refl _, fun _ _ => rfl⟩
  have hpropose : ∀ {opaqueData pinst val oom run},
      s.run.step cfg (.propose opaqueData val pinst oom) = some run →
      (s.stopped = true → s.held (pinst % cfg.plogInstNum) = false) →
      OneReply (run.states i) (run.replies i) ∧
      (s.run.replies i).calls ≤ (run.replies i).calls ∧ (s.run.replies i).set ⊆ (run.replies i).set ∧
      (s.held i = true → s.stopped = true → run.replies i = s.run.replies i) := by
    intro opaqueData pinst val oom run hrun hfree
    refine ⟨step_oneReply h.replies ⟨hrun, fun _ _ he => by cases he⟩ i, ?_⟩
    rw [← Option.some.inj hrun]
    exact hupd _ _ (Nat.le_succ _) (List.subset_append_left _ _) hfree
  cases step_done hst with
  | propose run wheel hgo hrun => exact hpropose hrun fun hstop => by rw [hgo] at hstop; cases hstop
  | hung run hstop hfree hrun => exact hpropose hrun fun _ => hfree
  | answer | turn | full | blocked => exact hsame rfl
  | handle m run hm hfree hrun =>
    have hown : ∀ rsp, m.msg = some rsp → rsp.pp.pinst = m.pinst % cfg.plogInstNum :=
      fun rsp => h.own _ m rsp (List.mem_of_getElem? hm)
    refine ⟨step_oneReply h.replies ⟨hrun, fun m' rsp he hrsp => ?_⟩ i, ?_⟩
    · cases he
      exact hown rsp hrsp
    · obtain ⟨res, -, hr⟩ := Option.map_eq_some_iff.mp hrun
      have htarget : m.target cfg = m.pinst % cfg.plogInstNum := by
        unfold RpcResponseMsg.target
        cases hmsg : m.msg with
        | none => rfl
        | some rsp => exact hown rsp hmsg
      rw [← hr]
      exact hupd _ _ (Nat.le_refl _) (List.subset_append_left _ _) fun _ => htarget ▸ hfree
  | entryChosen msg fromPlog =>
    have hrun : s.run.step cfg (.entryChosen msg fromPlog) =
        some { s.run with states := s.run.states.onEntryChosen cfg msg fromPlog } := rfl
    exact ⟨step_oneReply h.replies ⟨hrun, fun _ _ he => by cases he⟩ i, Nat.le_refl _, List.Subset.refl _,
      fun _ _ => rfl⟩

theorem Replied.step (h : s.Replied cfg) (hst : ProposerNode.step cfg pool s op = some s')
    (hown : OwnAnswers cfg s op s') : s'.Replied cfg :=
  ⟨fun i => (h.replies_step hst i).1, h.own_step hst hown⟩

theorem replied_inductive : ((sys cfg pool).restrict (OwnAnswers cfg)).Inductive (Replied cfg) where
  init s hs := by
    obtain ⟨sec, wheel, -, rfl⟩ := hs
    exact ⟨fun i => OneReply.start _ _ _, fun w m rsp hm => by cases hm⟩
  step s op s' h hst := h.step hst.1 hst.2

/-! ## A stopped wheel -/

theorem step_held (h : step cfg pool s op = some s') {i : Nat} (hi : s.held i = true) : s'.held i = true := by
  cases step_done h with
  | @hung _ pinst _ _ run _ hfree =>
    have hne : i ≠ pinst % cfg.plogInstNum := fun he => by
      rw [he, hfree] at hi
      cases hi
    exact (Function.update_of_ne hne ..).trans hi
  | _ => exact hi

/-- The lock of an instance is held for good, and its replies stay what they are. -/
theorem held_run {i : Nat} {ops : List NodeOp}
    (hr : ((sys cfg pool).restrict (OwnAnswers cfg)).Run s ops s') (h : s.Replied cfg)
    (hstop : s.stopped = true) (hi : s.held i = true) : s'.run.replies i = s.run.replies i := by
  induction hr with
  | nil => rfl
  | cons hst _ ih =>
    rw [ih (h.step hst.1 hst.2) ((step_stopped hst.1).mpr (.inl hstop)) (step_held hst.1 hi)]
    exact (h.replies_step hst.1 i).2.2.2 hi hstop

theorem timed_sets_nothing {opaqueData pinst : Nat} {val : List UInt8} {oom : Bool}
    (h : (proposeOuts cfg s.run opaqueData val pinst oom).any Out.isTimeout = true) :
    promisesSet (proposeOuts cfg s.run opaqueData val pinst oom) = [] := by
  have hdone := proposeAsync_done cfg (s.run.states (pinst % cfg.plogInstNum)) (pinst % cfg.plogInstNum)
    opaqueData val ((s.run.replies (pinst % cfg.plogInstNum)).calls + 1) oom
  have houts : proposeOuts cfg s.run opaqueData val pinst oom =
      ((s.run.states (pinst % cfg.plogInstNum)).proposeAsync cfg (pinst % cfg.plogInstNum) opaqueData val
        ((s.run.replies (pinst % cfg.plogInstNum)).calls + 1) oom).2 := rfl
  rw [houts] at h ⊢
  generalize (s.run.states (pinst % cfg.plogInstNum)).proposeAsync cfg (pinst % cfg.plogInstNum) opaqueData val
    ((s.run.replies (pinst % cfg.plogInstNum)).calls + 1) oom = r at h hdone ⊢
  obtain ⟨st, outs⟩ := r
  cases hdone with
  | rejected => cases h
  | prepare | fast => rfl

/-- A call that starts a round after the wheel has stopped is never answered. -/
theorem never_answered {opaqueData pinst : Nat} {val : List UInt8} {oom : Bool} {s₁ : ProposerNode}
    (hs : ((sys cfg pool).restrict (OwnAnswers cfg)).Reachable s) (hstop : s.stopped = true)
    (hst : step cfg pool s (.propose opaqueData val pinst oom) = some s₁)
    (hstarts : (proposeOuts cfg s.run opaqueData val pinst oom).any Out.isTimeout = true) {ops : List NodeOp}
    (hr : ((sys cfg pool).restrict (OwnAnswers cfg)).Run s₁ ops s') :
    (s.run.replies (pinst % cfg.plogInstNum)).calls + 1 ∉
      (s'.run.replies (pinst % cfg.plogInstNum)).set.map Prod.fst := by
  have h := replied_inductive.reachable s hs
  have hown : OwnAnswers cfg s (.propose opaqueData val pinst oom) s₁ := fun _ _ he => by cases he
  have h₁ := h.step hst hown
  cases step_done hst with
  | propose run wheel hgo =>
    rw [hgo] at hstop
    cases hstop
  | hung run _ _ hrun =>
    rw [held_run hr h₁ hstop ((Function.update_self ..).trans hstarts)]
    -- the call that starts the round sets nothing
    have hset : run.replies (pinst % cfg.plogInstNum) =
        ⟨(s.run.replies (pinst % cfg.plogInstNum)).calls + 1, (s.run.replies (pinst % cfg.plogInstNum)).set⟩ := by
      have hnone := timed_sets_nothing hstarts
      unfold proposeOuts at hnone
      rw [← Option.some.inj hrun]
      refine (Function.update_self ..).trans ?_
      rw [hnone, List.append_nil]
    intro hmem
    rw [hset] at hmem
    have := ((h.replies _).issued _ hmem).2
    omega

end

end ProposerNode
end Quarrel
