import Quarrel.Core.Census
import Quarrel.Core.Serial
import Quarrel.L3Role.Counters
import Quarrel.L4Acceptor.Run

/-!
# The workers of an acceptor (`core/acceptor.cpp`, `util/worker_pool.hpp`)

`AddMsg` hands a request to the worker `pinst % workers`, and a worker handles one request
at a time. The managers have no lock: a handler is a program here, any program that comes to
what the handler does, and the workers take turns between any two of its accesses. The
threads that fill a queue may overtake each other, so that any message of it may be the next.

The manager of a request is the one of `pinst % plog_inst_num_`. The requests for one
manager all go to one worker, its owner, if the instances are below `plog_inst_num_`, as
those the proposers send are (`routed_of_lt`), or if the number of workers divides it;
otherwise two of them need not (`routed_iff`).

* `pool_serial`: if every manager has an owner, the managers and the answers are those of a
  single worker that handles the requests one at a time.
* `request_once`: a request that was taken is in one queue, with one worker or answered,
  whatever worker it goes to.
-/
namespace Quarrel

/-- A request, with what becomes of its saves. -/
abbrev PoolJob := PaxosMsg × Saves

/-- The answer, if there is one, and the messages the handler queues. -/
abbrev PoolResult := Option PaxosMsg × List PaxosMsg

/-- The worker of an instance. mirrors util/worker_pool.hpp:76 -/
def PoolSize.workerOf (pool : PoolSize) (pinst : Nat) : Fin pool.workers :=
  ⟨pinst % pool.workers, Nat.mod_lt _ pool.workers_pos⟩

/-- What `doHandleMsg` does, on the one manager it works on.
mirrors core/acceptor.cpp:58-94 -/
def handleMsg (cfg : Configure) (j : PoolJob) (m : EntryMng) : PoolResult × EntryMng :=
  let answer (rsp : PaxosMsg) : PaxosMsg :=
    { rsp with fromId := cfg.localId, version := j.1.version, magic := j.1.magic, reqid := j.1.reqid }
  match handlerOf j.1.type with
  | some (type, handler) =>
    let h := handler m j.2 j.1.pp
    ((some (answer { h.rsp with type := type }), h.chores), h.mng)
  | none =>
    if j.1.type = .choreCatchup then ((none, []), m)
    else ((some (answer { j.1 with size := 0, type := .invalidReq, pp := allocProposal 0 }), []), m)

/-- `added` are the requests `AddMsg` took. -/
structure AcceptorPool (workers : Nat) where
  bench : Bench Nat (Fin workers) PoolJob EntryMng PoolResult
  queues : Fin workers → List PaxosMsg
  added : List PaxosMsg

/-- `take w k saves` is worker `w` with message `k` of its queue. -/
inductive PoolOp (workers : Nat) where
  | add (msg : PaxosMsg)
  | take (w : Fin workers) (k : Nat) (saves : Saves)
  | access (w : Fin workers)
  | finish (w : Fin workers)

namespace AcceptorPool

/-- A message that finds the queue full is not taken.
mirrors core/acceptor.cpp:42-56, util/worker_pool.hpp:73-89 -/
def addMsg (pool : PoolSize) (s : AcceptorPool pool.workers) (msg : PaxosMsg) : AcceptorPool pool.workers :=
  let w := pool.workerOf msg.pp.pinst
  if (s.queues w).length < pool.queueSize then { s with
    queues := Function.update s.queues w (s.queues w ++ [msg]), added := s.added ++ [msg] }
  else s

/-- The manager of a request. mirrors core/plog.cpp:290-298 -/
def mngOf (cfg : Configure) (j : PoolJob) : Nat := cfg.mngOf j.1.pp.pinst

/-- A step of the workers whose handlers are the programs `code`. `TriggerLocalCatchup` queues
its message inside the handler; here the messages of a handler are queued when it has finished.
mirrors core/acceptor.cpp:58-94, util/worker_pool.hpp:92-113 -/
def step (cfg : Configure) (pool : PoolSize) (code : PoolJob → Prog EntryMng PoolResult)
    (s : AcceptorPool pool.workers) : PoolOp pool.workers → Option (AcceptorPool pool.workers)
  | .add msg => some (s.addMsg pool msg)
  | .take w k saves =>
    (s.queues w)[k]?.bind fun msg =>
      (s.bench.step (mngOf cfg) code (.start w (msg, saves))).map fun bench =>
        { s with bench := bench, queues := Function.update s.queues w ((s.queues w).eraseIdx k) }
  | .access w => (s.bench.step (mngOf cfg) code (.access w)).map fun bench => { s with bench := bench }
  | .finish w =>
    match s.bench.busy w with
    | some (_, .ret r) => (s.bench.step (mngOf cfg) code (.finish w)).map fun bench =>
      r.2.foldl (addMsg pool) { s with bench := bench }
    | _ => none

/-- An acceptor with idle workers, over an empty storage. -/
def init (cfg : Configure) (pool : PoolSize) : AcceptorPool pool.workers where
  bench := ⟨(Acceptor.new cfg fun _ _ => none).mngs, fun _ => none, []⟩
  queues _ := []
  added := []

def sys (cfg : Configure) (pool : PoolSize) (code : PoolJob → Prog EntryMng PoolResult) :
    LTS (AcceptorPool pool.workers) (PoolOp pool.workers) :=
  .ofFn (· = init cfg pool) (step cfg pool code)

/-- A request for `pinst` goes to the worker that owns its manager. -/
def Routed (cfg : Configure) (pool : PoolSize) (owner : Nat → Fin pool.workers) (pinst : Nat) : Prop :=
  pool.workerOf pinst = owner (cfg.mngOf pinst)

/-- The requests from outside are routed. -/
def AddsRouted (cfg : Configure) (pool : PoolSize) (owner : Nat → Fin pool.workers)
    (_ : AcceptorPool pool.workers) (op : PoolOp pool.workers) (_ : AcceptorPool pool.workers) : Prop :=
  ∀ msg, op = .add msg → Routed cfg pool owner msg.pp.pinst

/-! ## Routing -/

section

variable {cfg : Configure} {pool : PoolSize}

theorem routed_of_lt {pinst : Nat} (h : pinst < cfg.plogInstNum) : Routed cfg pool pool.workerOf pinst :=
  congrArg pool.workerOf (Nat.mod_eq_of_lt h).symm

/-- Requests for one manager always meet at one worker, if and only if the workers divide the
instances. -/
theorem routed_iff : (∀ a b, cfg.mngOf a = cfg.mngOf b → pool.workerOf a = pool.workerOf b) ↔
    pool.workers ∣ cfg.plogInstNum := by
  constructor
  · intro h
    have hzero : pool.workerOf cfg.plogInstNum = pool.workerOf 0 := h _ _ (by
      rw [Configure.mngOf, Nat.mod_self, Configure.mngOf, Nat.zero_mod])
    have hmod : cfg.plogInstNum % pool.workers = 0 % pool.workers := congrArg Fin.val hzero
    rw [Nat.zero_mod] at hmod
    exact Nat.dvd_of_mod_eq_zero hmod
  · intro hdvd a b hab
    refine Fin.ext ?_
    show a % pool.workers = b % pool.workers
    rw [← Nat.mod_mod_of_dvd a hdvd, ← Nat.mod_mod_of_dvd b hdvd]
    exact congrArg (· % pool.workers) hab

end

/-! ## One request -/

/-- A handler queues messages for the instance of its request only. -/
theorem handleMsg_chores (cfg : Configure) (j : PoolJob) (m : EntryMng) :
    ∀ c ∈ (handleMsg cfg j m).1.2, c.pp.pinst = j.1.pp.pinst := by
  intro c hc
  have hchecked : c ∈ checkedChores m j.1.pp → c.pp.pinst = j.1.pp.pinst := fun hc => by
    unfold checkedChores checkLocalAndMayTriggerCatchup at hc
    dsimp only at hc
    split at hc
    · cases hc
    · split at hc
      · rw [List.mem_singleton.mp hc]
        rfl
      · cases hc
  unfold handleMsg at hc
  cases hh : handlerOf j.1.type with
  | some p =>
    obtain ⟨rt, f⟩ := p
    rw [hh] at hc
    replace hc : c ∈ (f m j.2 j.1.pp).chores := hc
    rcases handler_counters m j.2 j.1.pp hh with ⟨-, -, hcs⟩ | ⟨-, hcs, -⟩
    · exact hchecked (hcs ▸ hc)
    · rw [hcs] at hc
      cases hc
  | none =>
    rw [hh] at hc
    dsimp only at hc
    split at hc <;> cases hc

/-- Every request but a catch-up has an answer, which carries its ids. -/
theorem handleMsg_answer (cfg : Configure) (j : PoolJob) (m : EntryMng) :
    ((handleMsg cfg j m).1.1 = none ↔ j.1.type = .choreCatchup) ∧
      ∀ rsp, (handleMsg cfg j m).1.1 = some rsp → rsp.reqid = j.1.reqid ∧ rsp.magic = j.1.magic ∧
        rsp.version = j.1.version := by
  unfold handleMsg
  cases hh : handlerOf j.1.type with
  | some p =>
    refine ⟨iff_of_false (fun h => by cases h) fun ht => ?_, fun rsp hr => ?_⟩
    · rw [ht] at hh
      cases hh
    · cases hr
      exact ⟨rfl, rfl, rfl⟩
  | none =>
    dsimp only
    split
    · rename_i ht
      exact ⟨iff_of_true rfl ht, fun rsp hr => by cases hr⟩
    · rename_i ht
      refine ⟨iff_of_false (fun h => by cases h) ht, fun rsp hr => ?_⟩
      cases hr
      exact ⟨rfl, rfl, rfl⟩

theorem doHandleMsg_eq (cfg : Configure) (a : Acceptor) (j : PoolJob) :
    a.doHandleMsg cfg j.2 j.1 =
      ((handleMsg cfg j (a.mngs (mngOf cfg j))).1.1,
        ⟨Function.update a.mngs (mngOf cfg j) (handleMsg cfg j (a.mngs (mngOf cfg j))).2,
          a.chores ++ (handleMsg cfg j (a.mngs (mngOf cfg j))).1.2⟩) := by
  unfold Acceptor.doHandleMsg handleMsg mngOf
  cases hh : handlerOf j.1.type with
  | some p => rfl
  | none =>
    dsimp only
    split
    · rw [Function.update_eq_self, List.append_nil]
    · rw [Function.update_eq_self, List.append_nil]

/-- The requests one after the other, with their answers. -/
def handleAll (cfg : Configure) (a : Acceptor) (jobs : List PoolJob) : List (Option PaxosMsg) × Acceptor :=
  Machine.outputs (fun a j => a.doHandleMsg cfg j.2 j.1) a jobs

section

variable {cfg : Configure} {pool : PoolSize} {code : PoolJob → Prog EntryMng PoolResult}

/-- The jobs carried out one at a time are the requests one after the other. -/
theorem handleAll_eq (hcode : ∀ j m, (code j).eval m = handleMsg cfg j m) (jobs : List PoolJob) (a : Acceptor) :
    (Machine.outputs (Bench.handle (mngOf cfg) code) a.mngs jobs).1.map Prod.fst = (handleAll cfg a jobs).1 ∧
      (Machine.outputs (Bench.handle (mngOf cfg) code) a.mngs jobs).2 = (handleAll cfg a jobs).2.mngs := by
  induction jobs generalizing a with
  | nil => exact ⟨rfl, rfl⟩
  | cons j jobs ih =>
    have hone := doHandleMsg_eq cfg a j
    rw [← hcode] at hone
    have hrest := ih (a.doHandleMsg cfg j.2 j.1).2
    rw [hone] at hrest
    unfold handleAll at hrest ⊢
    simp only [Machine.outputs, hone, Bench.handle, List.map_cons]
    exact ⟨congrArg _ hrest.1, hrest.2⟩

theorem handleAll_reachable {a : Acceptor} (h : (acceptorSys cfg).Reachable a) (jobs : List PoolJob) :
    (acceptorSys cfg).Reachable (handleAll cfg a jobs).2 := by
  induction jobs generalizing a with
  | nil => exact h
  | cons j jobs ih => exact ih (h.step (acceptorSys_request cfg a j.1 j.2))

end

/-! ## The invariant -/

/-- The jobs are serial, and every request is with the worker that owns its manager. -/
structure Sound (cfg : Configure) (pool : PoolSize) (code : PoolJob → Prog EntryMng PoolResult)
    (owner : Nat → Fin pool.workers) (s : AcceptorPool pool.workers) (a : Nat → EntryMng) : Prop where
  serial : s.bench.Serial (mngOf cfg) code owner (Acceptor.new cfg fun _ _ => none).mngs a
  queued : ∀ w, ∀ msg ∈ s.queues w, Routed cfg pool owner msg.pp.pinst ∧ pool.workerOf msg.pp.pinst = w
  under : ∀ w j p, s.bench.busy w = some (j, p) → Routed cfg pool owner j.1.pp.pinst

/-- The worker is on a job for `msg`. -/
def On (msg : PaxosMsg) (b : Option (PoolJob × Prog EntryMng PoolResult)) : Prop :=
  b.map (fun x => x.1.1) = some msg

instance (msg : PaxosMsg) : DecidablePred (On msg) := fun b => by
  unfold On
  exact inferInstance

/-- Every request that was taken is in one queue, with one worker or answered. -/
def Counted {pool : PoolSize} (s : AcceptorPool pool.workers) : Prop :=
  ∀ msg, s.added.count msg =
    ∑ w, (s.queues w).count msg + census (On msg) s.bench.busy + (s.bench.out.map fun x => x.1.1).count msg

section

variable {cfg : Configure} {pool : PoolSize} {code : PoolJob → Prog EntryMng PoolResult}
  {owner : Nat → Fin pool.workers} {s s' : AcceptorPool pool.workers} {a : Nat → EntryMng}

theorem mem_update {w w' : Fin pool.workers} {q : Fin pool.workers → List PaxosMsg} {l : List PaxosMsg}
    {msg : PaxosMsg} (h : msg ∈ Function.update q w l w') : (w' = w ∧ msg ∈ l) ∨ msg ∈ q w' := by
  by_cases hw : w' = w
  · rw [hw, Function.update_self] at h
    exact .inl ⟨hw, h⟩
  · rw [Function.update_of_ne hw] at h
    exact .inr h

theorem addMsg_bench (s : AcceptorPool pool.workers) (msg : PaxosMsg) :
    (s.addMsg pool msg).bench = s.bench := by
  unfold addMsg
  dsimp only
  split <;> rfl

theorem Sound.addMsg (h : s.Sound cfg pool code owner a) {msg : PaxosMsg} (hr : Routed cfg pool owner msg.pp.pinst) :
    (s.addMsg pool msg).Sound cfg pool code owner a := by
  refine ⟨by rw [addMsg_bench]; exact h.serial, fun w m hm => ?_, by rw [addMsg_bench]; exact h.under⟩
  unfold AcceptorPool.addMsg at hm
  dsimp only at hm
  split at hm
  · rcases mem_update hm with ⟨hw, hm⟩ | hm
    · rcases List.mem_append.mp hm with hm | hm
      · exact hw ▸ h.queued _ m hm
      · rw [List.mem_singleton.mp hm]
        exact ⟨hr, hw.symm⟩
    · exact h.queued w m hm
  · exact h.queued w m hm

theorem Counted.addMsg (h : s.Counted) (msg : PaxosMsg) : (s.addMsg pool msg).Counted := by
  intro x
  have hx := h x
  have hsum := sum_update (fun q => List.count x q) s.queues (pool.workerOf msg.pp.pinst)
    (s.queues (pool.workerOf msg.pp.pinst) ++ [msg])
  unfold AcceptorPool.addMsg
  dsimp only
  split
  · rw [List.count_append] at hsum ⊢
    dsimp only
    omega
  · exact hx

theorem Sound.chores (h : s.Sound cfg pool code owner a) {msgs : List PaxosMsg}
    (hr : ∀ c ∈ msgs, Routed cfg pool owner c.pp.pinst) :
    (msgs.foldl (AcceptorPool.addMsg pool) s).Sound cfg pool code owner a := by
  induction msgs generalizing s with
  | nil => exact h
  | cons c msgs ih =>
    exact ih (h.addMsg (hr c (List.mem_cons_self ..))) fun c' hc' => hr c' (List.mem_cons_of_mem _ hc')

theorem Counted.chores (h : s.Counted) (msgs : List PaxosMsg) :
    (msgs.foldl (AcceptorPool.addMsg pool) s).Counted := by
  induction msgs generalizing s with
  | nil => exact h
  | cons c msgs ih => exact ih (h.addMsg c)

theorem Sound.take (h : s.Sound cfg pool code owner a) {w : Fin pool.workers} {k : Nat} {saves : Saves}
    (hst : step cfg pool code s (.take w k saves) = some s') : s'.Sound cfg pool code owner a := by
  simp only [step, Option.bind_eq_some_iff, Option.map_eq_some_iff, Bench.step] at hst
  obtain ⟨msg, hmsg, bench, hbench, rfl⟩ := hst
  split at hbench
  · rename_i hidle
    cases hbench
    obtain ⟨hrouted, hworker⟩ := h.queued w msg (List.mem_of_getElem? hmsg)
    refine ⟨h.serial.start hidle (hrouted.symm.trans hworker), fun w' m hm => ?_, fun w' j p hb => ?_⟩
    · rcases mem_update hm with ⟨hw, hm⟩ | hm
      · exact hw ▸ h.queued w m (List.mem_of_mem_eraseIdx hm)
      · exact h.queued w' m hm
    · rcases Bench.busy_update.mp hb with ⟨-, he⟩ | ⟨-, hb⟩
      · cases he
        exact hrouted
      · exact h.under w' j p hb
  · cases hbench

theorem Sound.access (h : s.Sound cfg pool code owner a) {w : Fin pool.workers}
    (hst : step cfg pool code s (.access w) = some s') : s'.Sound cfg pool code owner a := by
  simp only [step, Option.map_eq_some_iff, Bench.step] at hst
  obtain ⟨bench, hbench, rfl⟩ := hst
  split at hbench
  · rename_i j write next hbusy
    cases hbench
    refine ⟨h.serial.access hbusy, h.queued, fun w' j' p' hb => ?_⟩
    rcases Bench.busy_update.mp hb with ⟨-, he⟩ | ⟨-, hb⟩
    · cases he
      exact h.under w _ _ hbusy
    · exact h.under w' j' p' hb
  · cases hbench

/-- The worker has answered, and the messages of the handler are to be queued. -/
def answered (s : AcceptorPool pool.workers) (w : Fin pool.workers) (j : PoolJob) (r : PoolResult) :
    AcceptorPool pool.workers :=
  { s with bench := ⟨s.bench.mem, Function.update s.bench.busy w none, s.bench.out ++ [(j, r)]⟩ }

theorem step_finish {w : Fin pool.workers} (hst : step cfg pool code s (.finish w) = some s') :
    ∃ j r, s.bench.busy w = some (j, .ret r) ∧ s' = r.2.foldl (AcceptorPool.addMsg pool) (s.answered w j r) := by
  simp only [step] at hst
  split at hst
  · rename_i j r hbusy
    simp only [Bench.step, hbusy, Option.map_some] at hst
    cases hst
    exact ⟨j, r, hbusy, rfl⟩
  · cases hst

theorem Sound.finish (hcode : ∀ j m, (code j).eval m = handleMsg cfg j m) (h : s.Sound cfg pool code owner a)
    {w : Fin pool.workers} (hst : step cfg pool code s (.finish w) = some s') :
    ∃ a', s'.Sound cfg pool code owner a' := by
  obtain ⟨j, r, hbusy, rfl⟩ := step_finish hst
  have hdone : (r, s.bench.mem (mngOf cfg j)) = (code j).eval (a (mngOf cfg j)) := h.serial.under w j _ hbusy
  have hchores : ∀ c ∈ r.2, Routed cfg pool owner c.pp.pinst := fun c hcr => by
    rw [hcode] at hdone
    rw [show r = (handleMsg cfg j (a (mngOf cfg j))).1 from congrArg Prod.fst hdone] at hcr
    rw [handleMsg_chores cfg j _ c hcr]
    exact h.under w j _ hbusy
  have hanswered : (s.answered w j r).Sound cfg pool code owner (Bench.handle (mngOf cfg) code a j).2 :=
    ⟨h.serial.finish hbusy, h.queued, fun w' j' p' hb =>
      h.under w' j' p' ((Bench.busy_update.mp hb).resolve_left fun he => by cases he.2).2⟩
  exact ⟨_, hanswered.chores hchores⟩

theorem sound_inductive (hcode : ∀ j m, (code j).eval m = handleMsg cfg j m) :
    ((sys cfg pool code).restrict (AddsRouted cfg pool owner)).Inductive fun s =>
      ∃ a, s.Sound cfg pool code owner a where
  init s hs := by
    obtain rfl : s = init cfg pool := hs
    exact ⟨_, Bench.serial_init _, fun _ _ hm => (List.not_mem_nil hm).elim, fun _ _ _ hb => by cases hb⟩
  step s op s' h hst := by
    obtain ⟨a, h⟩ := h
    obtain ⟨hst, hrouted⟩ := hst
    cases op with
    | add msg =>
      cases hst
      exact ⟨a, h.addMsg (hrouted msg rfl)⟩
    | take w k saves => exact ⟨a, h.take hst⟩
    | access w => exact ⟨a, h.access hst⟩
    | finish w => exact h.finish hcode hst

/-! ## Counting the requests -/

theorem Counted.take (hc : s.Counted) {w : Fin pool.workers} {k : Nat} {saves : Saves}
    (hst : step cfg pool code s (.take w k saves) = some s') : s'.Counted := by
  simp only [step, Option.bind_eq_some_iff, Option.map_eq_some_iff, Bench.step] at hst
  obtain ⟨msg, hmsg, bench, hbench, rfl⟩ := hst
  split at hbench
  · rename_i hidle
    cases hbench
    intro x
    have hx := hc x
    have hsum := sum_update (fun q => List.count x q) s.queues w ((s.queues w).eraseIdx k)
    have hcensus := census_update (P := On x) s.bench.busy w (some ((msg, saves), code (msg, saves)))
    rw [hidle, if_neg (c := On x none) (by rintro ⟨⟩)] at hcensus
    obtain ⟨hk, hget⟩ := List.getElem?_eq_some_iff.mp hmsg
    have hperm := (List.getElem_cons_eraseIdx_perm hk).count_eq x
    rw [hget, List.count_cons] at hperm
    have hon : (if On x (some ((msg, saves), code (msg, saves))) then 1 else 0) = if msg == x then 1 else 0 := by
      simp [On]
    rw [hon] at hcensus
    show _ = ∑ w', List.count x (Function.update s.queues w ((s.queues w).eraseIdx k) w') +
      census (On x) (Function.update s.bench.busy w (some ((msg, saves), code (msg, saves)))) + _
    dsimp only at hsum ⊢
    omega
  · cases hbench

theorem Counted.access (hc : s.Counted) {w : Fin pool.workers}
    (hst : step cfg pool code s (.access w) = some s') : s'.Counted := by
  simp only [step, Option.map_eq_some_iff, Bench.step] at hst
  obtain ⟨bench, hbench, rfl⟩ := hst
  split at hbench
  · rename_i j write next hbusy
    cases hbench
    intro x
    have hcensus := census_update (P := On x) s.bench.busy w (some (j, next (s.bench.mem (mngOf cfg j))))
    have hon : (if On x (s.bench.busy w) then 1 else 0) =
        if On x (some (j, next (s.bench.mem (mngOf cfg j)))) then 1 else 0 := by
      rw [hbusy]
      rfl
    rw [hon] at hcensus
    rw [hc x, Nat.add_right_cancel hcensus]
  · cases hbench

theorem Counted.finish (hc : s.Counted) {w : Fin pool.workers}
    (hst : step cfg pool code s (.finish w) = some s') : s'.Counted := by
  obtain ⟨j, r, hbusy, rfl⟩ := step_finish hst
  have hanswered : (s.answered w j r).Counted := fun x => by
    have hx := hc x
    have hcensus := census_update (P := On x) s.bench.busy w none
    rw [hbusy, if_neg (c := On x none) (by rintro ⟨⟩)] at hcensus
    have hon : (if On x (some (j, (Prog.ret r : Prog EntryMng PoolResult))) then 1 else 0) =
        if j.1 == x then 1 else 0 := by
      simp [On]
    rw [hon] at hcensus
    show _ = _ + census (On x) (Function.update s.bench.busy w none) +
      ((s.bench.out ++ [(j, r)]).map fun x => x.1.1).count x
    rw [List.map_append, List.count_append, List.map_singleton, List.count_singleton]
    dsimp only [answered]
    omega
  exact hanswered.chores r.2

theorem counted_inductive : (sys cfg pool code).Inductive Counted where
  init s hs := by
    obtain rfl : s = init cfg pool := hs
    intro x
    have hidle : census (On x) (init cfg pool).bench.busy = 0 := census_zero fun _ hon => by cases hon
    rw [hidle]
    simp [init]
  step s op s' hc hst := by
    cases op with
    | add msg =>
      cases hst
      exact hc.addMsg msg
    | take w k saves => exact hc.take hst
    | access w => exact hc.access hst
    | finish w => exact hc.finish hst

/-- The workers come to what one worker would that handled the requests one at a time, in the
order they were answered: the same answers, and the same manager wherever no handler is under
way. -/
theorem pool_serial (hcode : ∀ j m, (code j).eval m = handleMsg cfg j m)
    (h : ((sys cfg pool code).restrict (AddsRouted cfg pool owner)).Reachable s) :
    ∃ a : Acceptor, (acceptorSys cfg).Reachable a ∧
      handleAll cfg (Acceptor.new cfg fun _ _ => none) (s.bench.out.map Prod.fst) =
        (s.bench.out.map fun x => x.2.1, a) ∧
      ∀ i, (∀ w j p, s.bench.busy w = some (j, p) → mngOf cfg j ≠ i) → s.bench.mem i = a.mngs i := by
  obtain ⟨mem, hs⟩ := (sound_inductive hcode).reachable s h
  obtain ⟨hanswers, hmem⟩ := handleAll_eq hcode (s.bench.out.map Prod.fst) (Acceptor.new cfg fun _ _ => none)
  rw [hs.serial.jobs] at hanswers hmem
  rw [List.map_map] at hanswers
  refine ⟨(handleAll cfg (Acceptor.new cfg fun _ _ => none) (s.bench.out.map Prod.fst)).2,
    handleAll_reachable (.of_init rfl) _, Prod.ext hanswers.symm rfl, fun i hi => ?_⟩
  rw [← hmem]
  exact hs.serial.idle i hi

/-! Two workers, each in the handler of a request; one of them is done. -/

def twoPool : PoolSize := ⟨2, 10, Nat.two_pos⟩

def twoCode (j : PoolJob) : Prog EntryMng PoolResult := .readWrite (handleMsg (Configure.init 0) j)

/-- The request of instance 1. -/
def requestOfOne : PaxosMsg :=
  { requestOf .acceptReq 1 7 1 [1] with pp := { (requestOf .acceptReq 1 7 1 [1]).pp with pinst := 1 } }

/-- What the operations are for. -/
def addsBelow : PoolOp 2 → Bool
  | .add msg => msg.pp.pinst < 64
  | _ => true

def halfOps : List (PoolOp 2) :=
  [.add (requestOf .acceptReq 1 7 1 [1]), .add requestOfOne, .take 0 0 Saves.good, .take 1 0 Saves.good,
    .access 0, .access 1, .access 1, .finish 1, .access 0]

def halfDone? : Option (AcceptorPool 2) :=
  LTS.exec (fun s op => (step (Configure.init 0) twoPool twoCode s op).filter fun _ => addsBelow op)
    (init (Configure.init 0) twoPool) halfOps

theorem halfDone_some : halfDone?.isSome = true := by decide +kernel

def halfDone : AcceptorPool 2 := halfDone?.get halfDone_some

theorem halfDone_reachable : ((sys (Configure.init 0) twoPool twoCode).restrict
    (AddsRouted (Configure.init 0) twoPool twoPool.workerOf)).Reachable halfDone := by
  refine ⟨_, _, rfl, LTS.run_of_guarded (g := fun _ op _ => addsBelow op) (fun s op s' _ hg msg he => ?_)
    (show _ = some halfDone from (Option.some_get halfDone_some).symm)⟩
  rw [he] at hg
  exact routed_of_lt (of_decide_eq_true hg)

theorem pool_serial_two : ∃ a : Acceptor, (acceptorSys (Configure.init 0)).Reachable a ∧
    handleAll (Configure.init 0) (Acceptor.new (Configure.init 0) fun _ _ => none)
      (halfDone.bench.out.map Prod.fst) = (halfDone.bench.out.map fun x => x.2.1, a) ∧
    halfDone.bench.mem 1 = a.mngs 1 := by
  obtain ⟨a, ha, hall, hmem⟩ := pool_serial (fun j m => Prog.eval_readWrite _ m) halfDone_reachable
  have hbusy : ∀ w : Fin 2, (halfDone.bench.busy w).all (fun x => mngOf (Configure.init 0) x.1 = 0) = true := by
    decide +kernel
  refine ⟨a, ha, hall, hmem 1 fun w j p hb he => ?_⟩
  have hzero := hbusy w
  rw [hb] at hzero
  have hzero : mngOf (Configure.init 0) j = 0 := of_decide_eq_true hzero
  rw [he] at hzero
  cases hzero

/-- A request that was taken is in one queue, with one worker or answered. Where every manager has
an owner, it is answered with its own ids. -/
theorem request_once (h : (sys cfg pool code).Reachable s) :
    (∀ msg, s.added.count msg = ∑ w, (s.queues w).count msg + census (On msg) s.bench.busy +
      (s.bench.out.map fun x => x.1.1).count msg) ∧
    ∀ owner, (∀ j m, (code j).eval m = handleMsg cfg j m) →
      ((sys cfg pool code).restrict (AddsRouted cfg pool owner)).Reachable s →
      ∀ x ∈ s.bench.out, (x.2.1 = none ↔ x.1.1.type = .choreCatchup) ∧
        ∀ rsp, x.2.1 = some rsp → rsp.reqid = x.1.1.reqid ∧ rsp.magic = x.1.1.magic ∧
          rsp.version = x.1.1.version := by
  refine ⟨counted_inductive.reachable s h, fun owner hcode h x hx => ?_⟩
  obtain ⟨mem, hs⟩ := (sound_inductive hcode).reachable s h
  obtain ⟨m, hm⟩ := hs.serial.results x hx
  rw [hm, hcode]
  exact handleMsg_answer cfg x.1 m

theorem request_once_two : halfDone.added.count requestOfOne =
    ∑ w, (halfDone.queues w).count requestOfOne + census (On requestOfOne) halfDone.bench.busy +
      (halfDone.bench.out.map fun x => x.1.1).count requestOfOne ∧
    ∀ x ∈ halfDone.bench.out, (x.2.1 = none ↔ x.1.1.type = .choreCatchup) := by
  obtain ⟨hcount, hanswers⟩ := request_once halfDone_reachable.unrestrict
  refine ⟨hcount requestOfOne, fun x hx => ?_⟩
  exact (hanswers _ (fun _ m => Prog.eval_readWrite _ m) halfDone_reachable x hx).1

end

end AcceptorPool
end Quarrel
