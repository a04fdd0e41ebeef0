import Quarrel.Core.LTS
import Quarrel.Core.Lock
import Quarrel.L1Data.TimingWheel

/-!
# The threads of the timing wheel (`util/timing_wheel.hpp`)

The worker of a started wheel, any number of threads that call `AddTimeout` and one that
calls `Stop`, over a lock that is not recursive. The notifiers are those of the proposer:
one that finds the queue full arms itself again, under the lock its caller holds. `Stop`
joins the worker with the lock held.

Two threads can wait for each other in three ways: a notifier that finds the queue full,
`Stop` that takes the lock while the worker is between its test of `state_` and the lock,
and a worker that tests `state_` after `Stop` has the lock and before it has set it.

* `deadlock_iff_cycle`: a deadlock is a cycle of the wait-for graph.
* `apart_step`: what a step without the three keeps.
* `deadlock_free`: no run without the three ends in a deadlock, and any of them leads
  into one.
* `not_deadlock_free`: the worker past its test, and `Stop`.
-/
namespace Quarrel

variable {ν : Type}

inductive WheelThread where
  | worker | stop
  | adder (i : Nat)
  deriving DecidableEq, Repr

/-- `check` is the test of `state_`; `lock` waits for the lock; `run` calls the notifiers
left in the slot; `rearm` waits for the lock inside a notifier.
mirrors util/timing_wheel.hpp:63-79 -/
inductive WorkerPc (ν : Type) where
  | check | lock
  | run (rest : List (TimerItem ν))
  | rearm (it : TimerItem ν) (rest : List (TimerItem ν))
  | sleep | done

/-- `set` and `join` hold the lock.
mirrors util/timing_wheel.hpp:22-30 -/
inductive StopPc where
  | idle | lock | set | join | done
  deriving DecidableEq, Repr

/-- mirrors util/timing_wheel.hpp:40-49 -/
inductive AdderPc (ν : Type) where
  | idle
  | lock (c : ν × UInt64)
  | held (c : ν × UInt64)

/-- mirrors util/timing_wheel.hpp:82-89 -/
structure WheelThreads (ν : Type) where
  wheel : TimingWheel ν
  state : UInt32
  lock : Option WheelThread
  worker : WorkerPc ν
  stop : StopPc
  adder : Nat → AdderPc ν

inductive WheelLabel (ν : Type) where
  | check | acquire
  | fire (full : Bool)
  | rearm | turn | wake
  | add (i : Nat) (c : ν × UInt64)
  | addLock (i : Nat)
  | addDone (i : Nat)
  | stop | stopLock | stopSet | stopJoin

namespace WheelThreads

/-- After `Start`. -/
def init (w : TimingWheel ν) : WheelThreads ν where
  wheel := w
  state := 1
  lock := none
  worker := .check
  stop := .idle
  adder _ := .idle

/-- A step of the thread the label names. `none` is a step that is not enabled: another pc, a
lock that is taken, a worker not done, or a wheel that divides by zero.
mirrors util/timing_wheel.hpp:22-79 -/
def step (timeout : UInt32) (s : WheelThreads ν) : WheelLabel ν → Option (WheelThreads ν)
  | .check =>
    match s.worker with
    | .check => some { s with worker := if s.state ≠ 2 then .lock else .done }
    | _ => none
  | .acquire =>
    match s.worker, s.lock, s.wheel.wheel[s.wheel.start.toNat]? with
    | .lock, none, some ls => some { s with lock := some .worker, worker := .run ls }
    | _, _, _ => none
  | .fire full =>
    match s.worker with
    -- mirrors core/proposer.cpp:267-273
    | .run (it :: rest) => some { s with worker := if full then .rearm it rest else .run rest }
    | _ => none
  | .rearm =>
    match s.worker, s.lock with
    | .rearm it rest, none =>
      (s.wheel.arm timeout (TimingWheel.call it)).map fun w => { s with wheel := w, worker := .run rest }
    | _, _ => none
  | .turn =>
    match s.worker with
    | .run [] => s.wheel.worker.map fun r => { s with wheel := r.2, lock := none, worker := .sleep }
    | _ => none
  | .wake =>
    match s.worker with
    | .sleep => some { s with worker := .check }
    | _ => none
  | .add i c =>
    match s.adder i with
    | .idle => some { s with adder := Function.update s.adder i (.lock c) }
    | _ => none
  | .addLock i =>
    match s.adder i, s.lock with
    | .lock c, none =>
      some { s with lock := some (.adder i), adder := Function.update s.adder i (.held c) }
    | _, _ => none
  | .addDone i =>
    match s.adder i with
    | .held c => (s.wheel.arm timeout c).map fun w =>
      { s with wheel := w, lock := none, adder := Function.update s.adder i .idle }
    | _ => none
  | .stop =>
    match s.stop with
    | .idle => some { s with stop := if s.state = 2 then .done else .lock }
    | _ => none
  | .stopLock =>
    match s.stop, s.lock with
    | .lock, none => some { s with lock := some .stop, stop := .set }
    | _, _ => none
  | .stopSet =>
    match s.stop with
    | .set => some { s with state := 2, stop := .join }
    | _ => none
  | .stopJoin =>
    match s.stop, s.worker with
    | .join, .done => some { s with lock := none, stop := .done }
    | _, _ => none

def system (timeout : UInt32) (w : TimingWheel ν) : LTS (WheelThreads ν) (WheelLabel ν) :=
  .ofFn (· = init w) (step timeout)

/-- The thread waits for the lock. -/
def Waits (s : WheelThreads ν) : WheelThread → Prop
  | .worker => s.worker = .lock ∨ ∃ it rest, s.worker = .rearm it rest
  | .stop => s.stop = .lock
  | .adder i => ∃ c, s.adder i = .lock c

/-- A thread waits for the lock it holds, or `Stop` for the worker and the worker for the lock
`Stop` holds. -/
def Deadlock (s : WheelThreads ν) : Prop :=
  (∃ t, s.lock = some t ∧ s.Waits t) ∨
    s.stop = .join ∧ s.Waits .worker ∧ s.lock = some .stop

/-- The steps without the three. -/
def KeepsApart (s : WheelThreads ν) : WheelLabel ν → WheelThreads ν → Prop
  | .fire full, _ => full = false
  | .stopLock, _ => s.worker ≠ .lock
  | .check, _ => s.stop ≠ .set
  | _, _ => True

/-! ## Deadlocks are cycles -/

/-- One thread waits for another. -/
def WaitsFor (s : WheelThreads ν) (t u : WheelThread) : Prop :=
  s.Waits t ∧ s.lock = some u ∨ t = .stop ∧ u = .worker ∧ s.stop = .join ∧ s.worker ≠ .done

open Classical in
/-- The length of the longest wait from a thread, if there is no deadlock. -/
noncomputable def rank (s : WheelThreads ν) (t : WheelThread) : Nat :=
  if s.Waits t then 2
  else if t = .stop ∧ s.stop = .join then if s.Waits .worker then 3 else 1
  else 0

open Classical in
theorem rank_lt {s : WheelThreads ν} (hs : ¬ s.Deadlock) {t u : WheelThread} (h : s.WaitsFor t u) :
    s.rank u < s.rank t := by
  have hself : ∀ {u}, s.lock = some u → ¬ s.Waits u := fun hl hw => hs (.inl ⟨_, hl, hw⟩)
  rcases h with ⟨hw, hl⟩ | ⟨rfl, rfl, hj, -⟩
  · have ht : s.rank t = 2 := if_pos hw
    rw [ht]
    unfold rank
    rw [if_neg (hself hl)]
    split
    · -- the holder joins the worker, which is not waiting
      rename_i hjoin
      rw [if_neg fun hwork => hs (.inr ⟨hjoin.2, hwork, hjoin.1 ▸ hl⟩)]
      decide
    · decide
  · have hstop : ¬ s.Waits .stop := fun hw => by
      rw [show s.stop = .lock from hw] at hj
      cases hj
    have hjoin : s.rank .stop = if s.Waits .worker then 3 else 1 := by
      unfold rank
      rw [if_neg hstop, if_pos ⟨rfl, hj⟩]
    rw [hjoin]
    unfold rank
    by_cases hwork : s.Waits .worker
    · rw [if_pos hwork, if_pos hwork]
      decide
    · rw [if_neg hwork, if_neg hwork, if_neg fun h => by cases h.1]
      decide

theorem deadlock_iff_cycle (s : WheelThreads ν) :
    s.Deadlock ↔ ∃ t, Relation.TransGen s.WaitsFor t t := by
  constructor
  · rintro (⟨t, hl, hw⟩ | ⟨hj, hw, hl⟩)
    · exact ⟨t, .single (.inl ⟨hw, hl⟩)⟩
    · have hdone : s.worker ≠ .done := fun hd => by
        rcases hw with hw | ⟨_, _, hw⟩ <;> rw [hd] at hw <;> cases hw
      exact ⟨.stop, .tail (.single (.inr ⟨rfl, rfl, hj, hdone⟩)) (.inl ⟨hw, hl⟩)⟩
  · rintro ⟨t, ht⟩
    by_contra hs
    have hlt : ∀ {u}, Relation.TransGen s.WaitsFor t u → s.rank u < s.rank t := fun h => by
      induction h with
      | single h => exact rank_lt hs h
      | tail _ h ih => exact Nat.lt_trans (rank_lt hs h) ih
    exact Nat.lt_irrefl _ (hlt ht)

/-! ## The lock -/

/-- The thread is inside. -/
def Inside (s : WheelThreads ν) : WheelThread → Prop
  | .worker => ∃ rest, s.worker = .run rest
  | .stop => s.stop = .set ∨ s.stop = .join
  | .adder i => ∃ c, s.adder i = .held c

/-- The worker waits for the lock only if `Stop` has not taken it. -/
structure Apart (s : WheelThreads ν) : Prop where
  lockHeld : LockHeld s.lock s.Inside
  rearm : ∀ it rest, s.worker ≠ .rearm it rest
  past : s.worker = .lock → s.lock ≠ some .stop
  unset : s.stop ≠ .join → s.stop ≠ .done → s.state ≠ 2
  joins : s.stop = .join → s.state = 2

theorem not_waits_of_inside {s : WheelThreads ν} {t : WheelThread} (h : s.Inside t) : ¬ s.Waits t := by
  cases t with
  | worker =>
    obtain ⟨rest, hrun⟩ := h
    rintro (hw | ⟨it, rest', hw⟩) <;> rw [hrun] at hw <;> cases hw
  | stop =>
    intro (hw : s.stop = .lock)
    rcases h with h | h <;> rw [hw] at h <;> cases h
  | adder i =>
    obtain ⟨c, hheld⟩ := h
    rintro ⟨c', hw⟩
    rw [hheld] at hw
    cases hw

theorem Apart.not_deadlock {s : WheelThreads ν} (h : s.Apart) : ¬ s.Deadlock := by
  rintro (⟨t, hl, hw⟩ | ⟨-, hw | ⟨it, rest, hw⟩, hl⟩)
  · exact not_waits_of_inside ((h.lockHeld t).mp hl) hw
  · exact h.past hw hl
  · exact h.rearm it rest hw

theorem apart_init (w : TimingWheel ν) : (init w).Apart where
  lockHeld t := by
    refine iff_of_false (fun h => by cases h) fun h => ?_
    cases t with
    | worker => exact Exists.elim h fun _ h => by cases h
    | stop => rcases h with h | h <;> cases h
    | adder i => exact Exists.elim h fun _ h => by cases h
  rearm _ _ h := by cases h
  past h := by cases h
  unset _ _ := by
    show (1 : UInt32) ≠ 2
    decide
  joins h := by cases h

section

variable {timeout : UInt32} {s s' : WheelThreads ν}

/-! A step changes one thread. -/

theorem inside_worker {w : TimingWheel ν} {l : Option WheelThread} {pc : WorkerPc ν} {t : WheelThread}
    (ht : t ≠ .worker) :
    ({ s with wheel := w, lock := l, worker := pc } : WheelThreads ν).Inside t ↔ s.Inside t := by
  cases t with
  | worker => exact absurd rfl ht
  | stop => exact Iff.rfl
  | adder i => exact Iff.rfl

theorem inside_stop {st : UInt32} {l : Option WheelThread} {pc : StopPc} {t : WheelThread}
    (ht : t ≠ .stop) :
    ({ s with state := st, lock := l, stop := pc } : WheelThreads ν).Inside t ↔ s.Inside t := by
  cases t with
  | worker => exact Iff.rfl
  | stop => exact absurd rfl ht
  | adder i => exact Iff.rfl

theorem inside_adder {w : TimingWheel ν} {l : Option WheelThread} {i : Nat} {pc : AdderPc ν}
    {t : WheelThread} (ht : t ≠ .adder i) :
    ({ s with wheel := w, lock := l, adder := Function.update s.adder i pc } : WheelThreads ν).Inside t ↔
      s.Inside t := by
  cases t with
  | worker => exact Iff.rfl
  | stop => exact Iff.rfl
  | adder j =>
    have hj : j ≠ i := fun he => ht (congrArg _ he)
    show (∃ c, Function.update s.adder i pc j = .held c) ↔ _
    rw [Function.update_of_ne hj]
    exact Iff.rfl

/-- A step of a worker that neither has the lock nor takes it. -/
theorem apart_outside (h : s.Apart) (hno : ¬ s.Inside .worker) {pc : WorkerPc ν}
    (hrun : ∀ rest, pc ≠ .run rest) (hre : ∀ it rest, pc ≠ .rearm it rest)
    (hpast : pc = .lock → s.lock ≠ some .stop) : ({ s with worker := pc } : WheelThreads ν).Apart where
  lockHeld := h.lockHeld.same fun t => by
    by_cases ht : t = .worker
    · subst ht
      exact iff_of_false (fun ⟨rest, hpc⟩ => hrun rest hpc) hno
    · exact inside_worker ht
  rearm := hre
  past := hpast
  unset := h.unset
  joins := h.joins

theorem apart_check (h : s.Apart) (hst : step timeout s .check = some s') (hk : s.stop ≠ .set) :
    s'.Apart := by
  simp only [step] at hst
  split at hst
  · rename_i hw
    cases hst
    have hno : ¬ s.Inside .worker := by
      rintro ⟨rest, hrun⟩
      rw [hw] at hrun
      cases hrun
    refine apart_outside h hno ?_ ?_ ?_
    · intro rest hpc
      split at hpc <;> cases hpc
    · intro it rest hpc
      split at hpc <;> cases hpc
    · intro hpc hl
      rcases (h.lockHeld .stop).mp hl with hset | hjoin
      · exact hk hset
      · rw [if_neg (not_not.mpr (h.joins hjoin))] at hpc
        cases hpc
  · cases hst

theorem apart_acquire (h : s.Apart) (hst : step timeout s .acquire = some s') : s'.Apart := by
  simp only [step] at hst
  split at hst
  · rename_i ls hw hl hls
    cases hst
    exact {
      lockHeld := (hl ▸ h.lockHeld).acquire ⟨ls, rfl⟩ fun t ht => inside_worker ht
      rearm := fun _ _ hpc => by cases hpc
      past := fun hpc => by cases hpc
      unset := h.unset
      joins := h.joins }
  · cases hst

theorem apart_fire (h : s.Apart) (hst : step timeout s (.fire false) = some s') : s'.Apart := by
  simp only [step] at hst
  split at hst
  · rename_i it rest hw
    cases hst
    exact {
      lockHeld := h.lockHeld.same fun t => by
        by_cases ht : t = .worker
        · subst ht
          exact iff_of_true ⟨rest, rfl⟩ ⟨_, hw⟩
        · exact inside_worker ht
      rearm := fun _ _ hpc => by cases hpc
      past := fun hpc => by cases hpc
      unset := h.unset
      joins := h.joins }
  · cases hst

theorem apart_turn (h : s.Apart) (hst : step timeout s .turn = some s') : s'.Apart := by
  simp only [step] at hst
  split at hst
  · rename_i hw
    obtain ⟨r, -, rfl⟩ := Option.map_eq_some_iff.mp hst
    exact {
      lockHeld := h.lockHeld.release (u := .worker) ⟨_, hw⟩ (fun ⟨_, hpc⟩ => by cases hpc) fun t ht =>
        inside_worker ht
      rearm := fun _ _ hpc => by cases hpc
      past := fun hpc => by cases hpc
      unset := h.unset
      joins := h.joins }
  · cases hst

theorem apart_wake (h : s.Apart) (hst : step timeout s .wake = some s') : s'.Apart := by
  simp only [step] at hst
  split at hst
  · rename_i hw
    cases hst
    refine apart_outside h ?_ (fun _ hpc => by cases hpc) (fun _ _ hpc => by cases hpc)
      (fun hpc => by cases hpc)
    rintro ⟨rest, hrun⟩
    rw [hw] at hrun
    cases hrun
  · cases hst

/-- A step of an adder, which leaves a lock it does not have with `Stop`. -/
theorem apart_adder (h : s.Apart) {i : Nat} {w : TimingWheel ν} {l : Option WheelThread} {pc : AdderPc ν}
    (hheld : LockHeld l
      ({ s with wheel := w, lock := l, adder := Function.update s.adder i pc } : WheelThreads ν).Inside)
    (hstop : l = some .stop → s.lock = some .stop) :
    ({ s with wheel := w, lock := l, adder := Function.update s.adder i pc } : WheelThreads ν).Apart where
  lockHeld := hheld
  rearm := h.rearm
  past hpc hl := h.past hpc (hstop hl)
  unset := h.unset
  joins := h.joins

theorem apart_add {i : Nat} {c : ν × UInt64} (h : s.Apart)
    (hst : step timeout s (.add i c) = some s') : s'.Apart := by
  simp only [step] at hst
  split at hst
  · rename_i hidle
    cases hst
    refine apart_adder (w := s.wheel) (l := s.lock) h (h.lockHeld.same fun t => ?_) fun hl => hl
    by_cases ht : t = .adder i
    · subst ht
      refine iff_of_false ?_ ?_
      · rintro ⟨c', hpc⟩
        cases (Function.update_self i (AdderPc.lock c) s.adder).symm.trans hpc
      · rintro ⟨c', hpc⟩
        rw [hidle] at hpc
        cases hpc
    · exact inside_adder ht
  · cases hst

theorem apart_addLock {i : Nat} (h : s.Apart) (hst : step timeout s (.addLock i) = some s') :
    s'.Apart := by
  simp only [step] at hst
  split at hst
  · rename_i c hw hl
    cases hst
    refine apart_adder (w := s.wheel) h ((hl ▸ h.lockHeld).acquire ⟨c, Function.update_self ..⟩
      fun t ht => inside_adder ht) fun hl => ?_
    cases hl
  · cases hst

theorem apart_addDone {i : Nat} (h : s.Apart) (hst : step timeout s (.addDone i) = some s') :
    s'.Apart := by
  simp only [step] at hst
  split at hst
  · rename_i c hw
    obtain ⟨w, -, rfl⟩ := Option.map_eq_some_iff.mp hst
    refine apart_adder h (h.lockHeld.release (u := .adder i) ⟨c, hw⟩ ?_ fun t ht => inside_adder ht)
      fun hl => ?_
    · rintro ⟨c', hpc⟩
      cases (Function.update_self i AdderPc.idle s.adder).symm.trans hpc
    · cases hl
  · cases hst

theorem apart_stop (h : s.Apart) (hst : step timeout s .stop = some s') : s'.Apart := by
  simp only [step] at hst
  split at hst
  · rename_i hidle
    cases hst
    have hne : s.state ≠ 2 := h.unset (by rw [hidle]; decide) (by rw [hidle]; decide)
    rw [if_neg hne]
    exact {
      lockHeld := h.lockHeld.same fun t => by
        by_cases ht : t = .stop
        · subst ht
          refine iff_of_false ?_ ?_
          · rintro (hpc | hpc) <;> cases hpc
          · rintro (hpc | hpc) <;> rw [hidle] at hpc <;> cases hpc
        · exact inside_stop ht
      rearm := h.rearm
      past := h.past
      unset := fun _ _ => hne
      joins := fun hpc => by cases hpc }
  · cases hst

theorem apart_stopLock (h : s.Apart) (hst : step timeout s .stopLock = some s')
    (hk : s.worker ≠ .lock) : s'.Apart := by
  simp only [step] at hst
  split at hst
  · rename_i hw hl
    cases hst
    exact {
      lockHeld := (hl ▸ h.lockHeld).acquire (.inl rfl) fun t ht => inside_stop ht
      rearm := h.rearm
      past := fun hpc => absurd hpc hk
      unset := fun _ _ => h.unset (by rw [hw]; decide) (by rw [hw]; decide)
      joins := fun hpc => by cases hpc }
  · cases hst

theorem apart_stopSet (h : s.Apart) (hst : step timeout s .stopSet = some s') : s'.Apart := by
  simp only [step] at hst
  split at hst
  · rename_i hw
    cases hst
    exact {
      lockHeld := h.lockHeld.same fun t => by
        by_cases ht : t = .stop
        · subst ht
          exact iff_of_true (.inr rfl) (.inl hw)
        · exact inside_stop ht
      rearm := h.rearm
      past := h.past
      unset := fun hpc => absurd rfl hpc
      joins := fun _ => rfl }
  · cases hst

theorem apart_stopJoin (h : s.Apart) (hst : step timeout s .stopJoin = some s') : s'.Apart := by
  simp only [step] at hst
  split at hst
  · rename_i hw hdone
    cases hst
    exact {
      lockHeld := h.lockHeld.release (u := .stop) (.inr hw) (fun hpc => by rcases hpc with hpc | hpc <;> cases hpc)
        fun t ht => inside_stop ht
      rearm := h.rearm
      past := fun _ hl => by cases hl
      unset := fun _ hpc => absurd rfl hpc
      joins := fun hpc => by cases hpc }
  · cases hst

/-- A step without the three. -/
theorem apart_step {l : WheelLabel ν} (h : s.Apart) (hst : step timeout s l = some s')
    (hk : KeepsApart s l s') : s'.Apart := by
  cases l with
  | check => exact apart_check h hst hk
  | acquire => exact apart_acquire h hst
  | fire full =>
    cases (show full = false from hk)
    exact apart_fire h hst
  | rearm =>
    simp only [step] at hst
    split at hst
    · rename_i it rest hw _
      exact absurd hw (h.rearm it rest)
    · cases hst
  | turn => exact apart_turn h hst
  | wake => exact apart_wake h hst
  | add i c => exact apart_add h hst
  | addLock i => exact apart_addLock h hst
  | addDone i => exact apart_addDone h hst
  | stop => exact apart_stop h hst
  | stopLock => exact apart_stopLock h hst hk
  | stopSet => exact apart_stopSet h hst
  | stopJoin => exact apart_stopJoin h hst

/-! ## The three steps -/

/-- One of the three leads into a deadlock, at once or by steps of `Stop`. -/
theorem deadlock_of_not_apart {l : WheelLabel ν} (h : s.Apart) (hst : step timeout s l = some s')
    (hk : ¬ KeepsApart s l s') :
    s'.Deadlock ∨ ∃ s'', step timeout s' .stopSet = some s'' ∧ s''.Deadlock := by
  cases l with
  | check =>
    have hset : s.stop = .set := not_not.mp hk
    have hl := (h.lockHeld .stop).mpr (.inl hset)
    have hne : s.state ≠ 2 := h.unset (by rw [hset]; decide) (by rw [hset]; decide)
    simp only [step] at hst
    split at hst
    · cases hst
      refine .inr ⟨{ s with state := 2, worker := .lock, stop := .join }, ?_, .inr ⟨rfl, .inl rfl, hl⟩⟩
      simp only [step, hset, if_pos hne]
    · cases hst
  | fire full =>
    cases full with
    | false => exact absurd rfl hk
    | true =>
      simp only [step] at hst
      split at hst
      · rename_i it rest hw
        cases hst
        exact .inl (.inl ⟨.worker, (h.lockHeld .worker).mpr ⟨_, hw⟩, .inr ⟨it, rest, rfl⟩⟩)
      · cases hst
  | stopLock =>
    have hw : s.worker = .lock := not_not.mp hk
    simp only [step] at hst
    split at hst
    · cases hst
      exact .inr ⟨_, rfl, .inr ⟨rfl, .inl hw, rfl⟩⟩
    · cases hst
  | _ => exact absurd trivial hk

end

/-! ## Runs -/

theorem apart_inductive (timeout : UInt32) (w : TimingWheel ν) :
    ((system timeout w).restrict KeepsApart).Inductive Apart where
  init s hs := by
    rw [show s = init w from hs]
    exact apart_init w
  step _ _ _ h hst := apart_step h hst.1 hst.2

/-- No run without the three steps reaches a deadlock, and any of the three that comes next leads
into one. -/
theorem deadlock_free {timeout : UInt32} {w : TimingWheel ν} {s : WheelThreads ν}
    (hs : ((system timeout w).restrict KeepsApart).Reachable s) :
    ¬ s.Deadlock ∧ ∀ l s', step timeout s l = some s' → ¬ KeepsApart s l s' →
      s'.Deadlock ∨ ∃ s'', step timeout s' .stopSet = some s'' ∧ s''.Deadlock :=
  have h := (apart_inductive timeout w).reachable s hs
  ⟨h.not_deadlock, fun _ _ hst hk => deadlock_of_not_apart h hst hk⟩

/-- A turn with nothing to call, and `Stop` while the worker sleeps. -/
theorem deadlock_free_sleep :
    let w : TimingWheel Unit := ⟨1, 1000, List.replicate 4 []⟩
    let s : WheelThreads Unit := ⟨w, 2, some .stop, .sleep, .join, fun _ => .idle⟩
    ¬ s.Deadlock ∧ ∀ l s', step 1001 s l = some s' → ¬ KeepsApart s l s' →
      s'.Deadlock ∨ ∃ s'', step 1001 s' .stopSet = some s'' ∧ s''.Deadlock := by
  intro w s
  let w₀ : TimingWheel Unit := ⟨0, 1000, List.replicate 4 []⟩
  let T := (system 1001 w₀).restrict KeepsApart
  let s₁ : WheelThreads Unit := ⟨w₀, 1, none, .lock, .idle, fun _ => .idle⟩
  let s₂ : WheelThreads Unit := ⟨w₀, 1, some .worker, .run [], .idle, fun _ => .idle⟩
  let s₃ : WheelThreads Unit := ⟨w₀, 1, some .worker, .run [], .lock, fun _ => .idle⟩
  let s₄ : WheelThreads Unit := ⟨w, 1, none, .sleep, .lock, fun _ => .idle⟩
  let s₅ : WheelThreads Unit := ⟨w, 1, some .stop, .sleep, .set, fun _ => .idle⟩
  have h₁ : T.step (init w₀) .check s₁ := ⟨rfl, fun h => by cases h⟩
  have h₂ : T.step s₁ .acquire s₂ := ⟨rfl, trivial⟩
  have h₃ : T.step s₂ .stop s₃ := ⟨rfl, trivial⟩
  have h₄ : T.step s₃ .turn s₄ := ⟨rfl, trivial⟩
  have h₅ : T.step s₄ .stopLock s₅ := ⟨rfl, fun h => by cases h⟩
  have h₆ : T.step s₅ .stopSet s := ⟨rfl, trivial⟩
  exact deadlock_free ⟨init w₀, _, rfl,
    .cons h₁ (.cons h₂ (.cons h₃ (.cons h₄ (.cons h₅ (.cons h₆ (.nil s))))))⟩

/-- The worker has passed its test when `Stop` takes the lock. -/
theorem not_deadlock_free :
    ¬ ∀ (timeout : UInt32) (w : TimingWheel Unit) (s : WheelThreads Unit),
      (system timeout w).Reachable s → ¬ s.Deadlock := by
  intro hall
  let w : TimingWheel Unit := ⟨0, 1000, List.replicate 4 []⟩
  have hrun : LTS.exec (step 1001) (init w) [.check, .stop, .stopLock, .stopSet] =
      some ⟨w, 2, some .stop, .lock, .join, fun _ => .idle⟩ := rfl
  exact hall 1001 w _ ⟨init w, _, rfl, LTS.run_of_exec hrun⟩ (.inr ⟨rfl, .inl rfl, rfl⟩)

end WheelThreads
end Quarrel
