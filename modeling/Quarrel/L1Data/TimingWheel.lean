import Quarrel.Core.Agenda
import Mathlib.Algebra.Order.Floor.Div

/-!
# The timing wheel (`util/timing_wheel.hpp`)

The proposer builds a wheel of `4000 / (timeout_ - 1)` slots and arms it with
`timeout_ * 2` milliseconds. A notifier is a value here, and a call of one is the notifier
with its argument: none touches the wheel. `none` is a division by zero or an index past
the end of the vector.

* `turns_step`: the wheel is an agenda whose delay is the delay modulo the slots.
* `neverEarly_iff`: the delay is three ticks, or four, and `timeout_` has to leave more
  slots.
* `not_neverEarly`: 1001 ms a tick and three slots, where three ticks are none.
-/
namespace Quarrel

/-- mirrors util/timing_wheel.hpp:52-57 -/
structure TimerItem (ν : Type) where
  opaqueData : UInt64
  notifier : ν

/-- mirrors util/timing_wheel.hpp:85-88 -/
structure TimingWheel (ν : Type) where
  start : UInt32
  granularity : Int32
  wheel : List (List (TimerItem ν))

namespace TimingWheel

variable {ν : Type}

/-- A negative number of slots is, as a `size_t`, more than a vector can have.
mirrors util/timing_wheel.hpp:17-18 -/
def new (granularity : Int32) : Option (TimingWheel ν) :=
  if granularity = 0 then none
  else
    match (4000 : Int).tdiv granularity.toInt with
    | .ofNat n => some ⟨0, granularity, List.replicate n []⟩
    | .negSucc _ => none

/-- `(int)wheel_.size()`, as the `uint32_t` that `%` makes of it. -/
def size (w : TimingWheel ν) : UInt32 := UInt32.ofNat w.wheel.length

/-- The granularity is converted to a `uint32_t`.
mirrors util/timing_wheel.hpp:40-49 -/
def addTimeout (w : TimingWheel ν) (opaqueData : UInt64) (timeoutMs : UInt32) (notifier : ν) :
    Option (TimingWheel ν) :=
  let g := w.granularity.toUInt32
  if g = 0 then none
  else
    let idx := timeoutMs / g + (if timeoutMs % g ≠ 0 then 1 else 0)
    if w.size = 0 then none
    else
      let idx := (idx + w.start) % w.size
      match w.wheel[idx.toNat]? with
      | none => none
      | some ls => some { w with wheel := w.wheel.set idx.toNat (ls ++ [⟨opaqueData, notifier⟩]) }

/-- A notifier with its argument. -/
def call (it : TimerItem ν) : ν × UInt64 := (it.notifier, it.opaqueData)

/-- One turn of the loop, with the calls made.
mirrors util/timing_wheel.hpp:66-77 -/
def worker (w : TimingWheel ν) : Option (List (ν × UInt64) × TimingWheel ν) :=
  match w.wheel[w.start.toNat]? with
  | none => none
  | some ls =>
    if w.size = 0 then none
    else some (ls.map call, { w with wheel := w.wheel.set w.start.toNat [], start := (w.start + 1) % w.size })

/-- mirrors core/proposer.cpp:46-47 -/
def ofTimeout (timeout : UInt32) : Option (TimingWheel ν) := new (timeout - 1).toInt32

/-- mirrors core/proposer.cpp:266-276 -/
def arm (timeout : UInt32) (w : TimingWheel ν) (c : ν × UInt64) : Option (TimingWheel ν) :=
  w.addTimeout c.2 (timeout * 2) c.1

/-- A turn of the worker gives its calls. -/
def step (timeout : UInt32) (w : TimingWheel ν) :
    AgendaOp (ν × UInt64) → Option (Option (List (ν × UInt64)) × TimingWheel ν)
  | .add c => (w.arm timeout c).map fun w => (none, w)
  | .tick => w.worker.map fun r => (some r.1, r.2)

/-- The milliseconds in ticks. -/
def delay (timeout : UInt32) : Nat := (timeout * 2).toNat ⌈/⌉ (timeout - 1).toNat

/-- From any position, with no slot occupied, no turn and no call of `AddTimeout` fails, and the
calls of each turn are those armed `delay` turns before, in order. -/
def NeverEarly (timeout : UInt32) (w : TimingWheel ν) : Prop :=
  ∀ (start : UInt32) (ops : List (AgendaOp (ν × UInt64))),
    start = 0 ∨ start.toNat < w.wheel.length →
    ∃ outs w', Machine.run (step timeout) { w with start := start } ops = some (outs, w') ∧
      outs.filterMap id = (List.range (Agenda.ticks ops)).map fun k =>
        Agenda.due k (Agenda.schedule (delay timeout) 0 ops)

/-! ## The number of slots and the delay -/

section

variable {timeout : UInt32} {w : TimingWheel ν}

theorem toNat_granularity (h : 2 ≤ timeout) : (timeout - 1).toNat = timeout.toNat - 1 := by
  have h2 := UInt32.le_iff_toNat_le.mp h
  have hle : (1 : UInt32) ≤ timeout := UInt32.le_iff_toNat_le.mpr (Nat.le_trans (by decide) h2)
  exact UInt32.toNat_sub_of_le _ _ hle

theorem ofTimeout_wheel (h : 2 ≤ timeout) (hw : ofTimeout timeout = some w) :
    w.granularity = (timeout - 1).toInt32 ∧ ∃ n, w.wheel = List.replicate n [] ∧
      n = if timeout.toNat - 1 < 2 ^ 31 then 4000 / (timeout.toNat - 1) else 0 := by
  have h2 : 2 ≤ timeout.toNat := UInt32.le_iff_toNat_le.mp h
  have hlt := timeout.toNat_lt
  have hint : (timeout - 1).toInt32.toInt =
      if 2 * (timeout.toNat - 1) < 2 ^ 32 then ((timeout.toNat - 1 : Nat) : Int)
      else ((timeout.toNat - 1 : Nat) : Int) - (2 ^ 32 : Nat) := by
    rw [← toNat_granularity h]
    exact BitVec.toInt_eq_toNat_cond _
  unfold ofTimeout new at hw
  split at hw
  · cases hw
  · split at hw
    · rename_i n hn
      cases hw
      refine ⟨rfl, n, rfl, ?_⟩
      rw [hint] at hn
      by_cases hsmall : timeout.toNat - 1 < 2 ^ 31
      · rw [if_pos (by omega)] at hn
        rw [if_pos hsmall]
        exact (Int.ofNat.inj hn).symm
      · rw [if_neg (by omega)] at hn
        rw [if_neg hsmall]
        -- the quotient of a negative number is zero or less
        obtain ⟨k, hk⟩ : ∃ k : Nat, ((timeout.toNat - 1 : Nat) : Int) - (2 ^ 32 : Nat) = -(k : Int) :=
          ⟨2 ^ 32 - (timeout.toNat - 1), by omega⟩
        rw [hk, Int.tdiv_neg] at hn
        have hneg : -((4000 / k : Nat) : Int) = (n : Int) := hn
        generalize 4000 / k = m at hneg
        omega
    · cases hw

theorem div_add_eq_ceilDiv (a : Nat) {b : Nat} (hb : 0 < b) :
    a / b + (if a % b ≠ 0 then 1 else 0) = a ⌈/⌉ b := by
  have hsplit : a + b - 1 = b * (a / b) + (a % b + b - 1) := by
    have := Nat.div_add_mod a b
    omega
  have hlt := Nat.mod_lt a hb
  rw [Nat.ceilDiv_eq_add_pred_div, hsplit, Nat.mul_add_div hb]
  congr 1
  split
  · exact (Nat.div_eq_of_lt_le (by omega) (by omega)).symm
  · exact (Nat.div_eq_of_lt (by omega)).symm

/-- Four ticks at a granularity of one millisecond, three at any other. -/
theorem delay_eq (h : 2 ≤ timeout) (hlt : timeout.toNat < 2 ^ 31) :
    delay timeout = if timeout = 2 then 4 else 3 := by
  have h2 : 2 ≤ timeout.toNat := UInt32.le_iff_toNat_le.mp h
  have hmul : (timeout * 2).toNat = timeout.toNat * 2 := by
    rw [UInt32.toNat_mul]
    exact Nat.mod_eq_of_lt (by show timeout.toNat * 2 < 2 ^ 32; omega)
  unfold delay
  rw [hmul, toNat_granularity h, Nat.ceilDiv_eq_add_pred_div]
  split
  · rename_i he
    rw [he]
    rfl
  · rename_i hne
    have h3 : timeout.toNat ≠ 2 := fun he => hne (UInt32.toNat_inj.mp he)
    exact Nat.div_eq_of_lt_le (by omega) (by omega)

theorem toNat_idx (h : 2 ≤ timeout) (hlt : timeout.toNat < 2 ^ 31) :
    (timeout * 2 / (timeout - 1) + (if timeout * 2 % (timeout - 1) ≠ 0 then 1 else 0)).toNat =
      delay timeout := by
  have hpos : 0 < (timeout - 1).toNat := by
    have := UInt32.le_iff_toNat_le.mp h
    rw [toNat_granularity h]
    exact Nat.sub_pos_of_lt this
  have hle : delay timeout ≤ 4 := by
    rw [delay_eq h hlt]
    split <;> decide
  have hrem : (if timeout * 2 % (timeout - 1) ≠ 0 then (1 : UInt32) else 0).toNat =
      if (timeout * 2).toNat % (timeout - 1).toNat ≠ 0 then 1 else 0 := by
    rw [← UInt32.toNat_mod]
    by_cases h0 : timeout * 2 % (timeout - 1) = 0
    · simp [h0]
    · have : (timeout * 2 % (timeout - 1)).toNat ≠ 0 := fun he => h0 (UInt32.toNat_inj.mp he)
      rw [if_pos h0, if_pos this]
      rfl
  rw [UInt32.toNat_add, UInt32.toNat_div, hrem, div_add_eq_ceilDiv _ hpos]
  exact Nat.mod_eq_of_lt (Nat.lt_of_le_of_lt hle (by decide))

end

/-! ## A call of `AddTimeout` and a turn -/

/-- The calls waiting in a slot. -/
def callsAt (w : TimingWheel ν) (j : Nat) : List (ν × UInt64) := ((w.wheel[j]?).getD []).map call

/-- The wheel of `n` slots holds the calls of `p`. -/
structure Turns (timeout : UInt32) (n : Nat) (w : TimingWheel ν) (p : List (Nat × (ν × UInt64))) : Prop where
  granularity : w.granularity = (timeout - 1).toInt32
  length : w.wheel.length = n
  start : w.start.toNat < n
  slots : Slots n w.start.toNat p w.callsAt

section

variable {timeout : UInt32} {w : TimingWheel ν} {n : Nat} {p : List (Nat × (ν × UInt64))}

theorem toNat_size (hlen : w.wheel.length = n) (hn : n ≤ 4000) : w.size.toNat = n := by
  unfold size
  rw [hlen]
  exact UInt32.toNat_ofNat_of_lt' (Nat.lt_of_le_of_lt hn (by decide))

theorem arm_eq (h2 : 2 ≤ timeout) (hlt : timeout.toNat < 2 ^ 31)
    (hg : w.granularity = (timeout - 1).toInt32) (hlen : w.wheel.length = n) (hn : n ≤ 4000)
    (hstart : w.start.toNat < n) (c : ν × UInt64) :
    w.arm timeout c = some { w with
      wheel := w.wheel.set ((w.start.toNat + delay timeout) % n)
        ((w.wheel[(w.start.toNat + delay timeout) % n]?).getD [] ++ [⟨c.2, c.1⟩]) } := by
  have hsize := toNat_size hlen hn
  have hsize0 : w.size ≠ 0 := fun he => by
    rw [he] at hsize
    exact absurd hsize.symm (by show n ≠ 0; omega)
  have hg0 : timeout - 1 ≠ 0 := fun he => by
    have := toNat_granularity h2
    rw [he] at this
    have := UInt32.le_iff_toNat_le.mp h2
    have h0 : (0 : UInt32).toNat = 0 := rfl
    have h2' : (2 : UInt32).toNat = 2 := rfl
    omega
  have hdelay : delay timeout ≤ 4 := by
    rw [delay_eq h2 hlt]
    split <;> decide
  -- neither the sum nor the remainder wraps
  have hidx : ∀ i : UInt32, i.toNat = delay timeout →
      ((i + w.start) % w.size).toNat = (w.start.toNat + delay timeout) % n := by
    intro i hi
    rw [UInt32.toNat_mod, UInt32.toNat_add, hi, hsize, Nat.mod_eq_of_lt (a := delay timeout + _) (by omega),
      Nat.add_comm]
  have hin : (w.start.toNat + delay timeout) % n < w.wheel.length := by
    rw [hlen]
    exact Nat.mod_lt _ (by omega)
  unfold arm addTimeout
  rw [hg, UInt32.toUInt32_toInt32]
  simp only [if_neg hg0, if_neg hsize0, hidx _ (toNat_idx h2 hlt), List.getElem?_eq_getElem hin,
    Option.getD_some]

theorem turns_add (h2 : 2 ≤ timeout) (hlt : timeout.toNat < 2 ^ 31) (hn : n ≤ 4000)
    (h : Turns timeout n w p) (c : ν × UInt64) :
    ∃ w', w.arm timeout c = some w' ∧ Turns timeout n w' (p ++ [(delay timeout % n, c)]) := by
  refine ⟨_, arm_eq h2 hlt h.granularity h.length hn h.start c, h.granularity, ?_, h.start, ?_⟩
  · rw [List.length_set, h.length]
  · have hpos : 0 < n := Nat.lt_of_le_of_lt (Nat.zero_le _) h.start
    have hin : (w.start.toNat + delay timeout) % n < w.wheel.length := by
      rw [h.length]
      exact Nat.mod_lt _ hpos
    have hcalls := h.slots.add (Nat.mod_lt (delay timeout) hpos) c
    rw [Nat.add_mod_mod] at hcalls
    refine (congrArg (Slots n w.start.toNat _) ?_).mp hcalls
    funext j
    unfold callsAt
    by_cases hj : j = (w.start.toNat + delay timeout) % n
    · rw [hj, Function.update_self]
      simp [List.getElem?_set_self hin, call]
    · rw [Function.update_of_ne hj]
      simp [List.getElem?_set_ne (Ne.symm hj)]

theorem turns_tick (hn : n ≤ 4000) (h : Turns timeout n w p) :
    ∃ w', w.worker = some (Agenda.due 0 p, w') ∧ Turns timeout n w' (Agenda.pass p) := by
  have hin : w.start.toNat < w.wheel.length := by
    rw [h.length]
    exact h.start
  have hsize := toNat_size h.length hn
  have hstart := h.start
  have hsize0 : w.size ≠ 0 := fun he => by
    rw [he] at hsize
    exact absurd hsize.symm (by show n ≠ 0; omega)
  have hnow := h.slots.now h.start
  unfold callsAt at hnow
  rw [List.getElem?_eq_getElem hin, Option.getD_some] at hnow
  have hnext : ((w.start + 1) % w.size).toNat = (w.start.toNat + 1) % n := by
    rw [UInt32.toNat_mod, UInt32.toNat_add, hsize, UInt32.toNat_one, Nat.mod_eq_of_lt (b := 2 ^ 32) (by omega)]
  refine ⟨{ w with wheel := w.wheel.set w.start.toNat [], start := (w.start + 1) % w.size }, ?_,
    h.granularity, ?_, ?_, ?_⟩
  · unfold worker
    simp only [List.getElem?_eq_getElem hin, if_neg hsize0, hnow]
  · rw [List.length_set, h.length]
  · show ((w.start + 1) % w.size).toNat < n
    rw [hnext]
    exact Nat.mod_lt _ (by omega)
  · show Slots n ((w.start + 1) % w.size).toNat _ _
    rw [hnext]
    refine (congrArg (Slots n _ _) ?_).mp (h.slots.tick h.start)
    funext j
    unfold callsAt
    by_cases hj : j = w.start.toNat
    · rw [hj, Function.update_self]
      simp [List.getElem?_set_self hin]
    · rw [Function.update_of_ne hj]
      simp [List.getElem?_set_ne (Ne.symm hj)]

/-- The wheel is an agenda. Its delay is what is left of the delay after full rounds. -/
theorem turns_step (h2 : 2 ≤ timeout) (hlt : timeout.toNat < 2 ^ 31) (hn : n ≤ 4000)
    (h : Turns timeout n w p) (op : AgendaOp (ν × UInt64)) :
    ∃ w', step timeout w op = some ((Agenda.step (delay timeout % n) p op).1, w') ∧
      Turns timeout n w' (Agenda.step (delay timeout % n) p op).2 := by
  cases op with
  | add c =>
    obtain ⟨w', harm, h'⟩ := turns_add h2 hlt hn h c
    exact ⟨w', by rw [step, harm]; rfl, h'⟩
  | tick =>
    obtain ⟨w', hturn, h'⟩ := turns_tick hn h
    exact ⟨w', by rw [step, hturn]; rfl, h'⟩

end

/-! ## Runs -/

section

variable {timeout : UInt32} {w : TimingWheel ν} {n : Nat}

theorem turns_init (hg : w.granularity = (timeout - 1).toInt32) (hw : w.wheel = List.replicate n [])
    {start : UInt32} (hstart : start.toNat < n) : Turns timeout n { w with start := start } [] := by
  have hcalls : ({ w with start := start } : TimingWheel ν).callsAt = fun _ => [] := by
    funext j
    unfold callsAt
    rw [hw, List.getElem?_replicate]
    split <;> rfl
  exact ⟨hg, by rw [hw, List.length_replicate], hstart, by rw [hcalls]; exact slots_empty n _⟩

theorem run_calls (h2 : 2 ≤ timeout) (hlt : timeout.toNat < 2 ^ 31) (hn : n ≤ 4000)
    (hg : w.granularity = (timeout - 1).toInt32) (hw : w.wheel = List.replicate n []) {start : UInt32}
    (hstart : start.toNat < n) (ops : List (AgendaOp (ν × UInt64))) :
    ∃ outs w', Machine.run (step timeout) { w with start := start } ops = some (outs, w') ∧
      outs.filterMap id = (List.range (Agenda.ticks ops)).map fun k =>
        Agenda.due k (Agenda.schedule (delay timeout % n) 0 ops) := by
  obtain ⟨w', hrun, -⟩ := Machine.run_refines (f := step timeout)
    (g := Agenda.step (delay timeout % n)) (R := Turns timeout n) (C := fun _ _ => True)
    (fun _ _ _ h => h) (fun _ _ op _ h _ => turns_step h2 hlt hn h op) ops _ [] (turns_init hg hw hstart) trivial
  exact ⟨_, w', hrun, Agenda.agenda_outputs ops []⟩

/-- In time is: with more slots than the delay has ticks. -/
theorem neverEarly_iff_lt [Inhabited ν] (h2 : 2 ≤ timeout) (hlt : timeout.toNat < 2 ^ 31)
    (hpos : 0 < n) (hn : n ≤ 4000) (hg : w.granularity = (timeout - 1).toInt32)
    (hw : w.wheel = List.replicate n []) : NeverEarly timeout w ↔ delay timeout < n := by
  constructor
  · intro hall
    by_contra hle
    -- one notifier, and turns until it is called
    let ops : List (AgendaOp (ν × UInt64)) :=
      .add default :: List.replicate (delay timeout % n + 1) .tick
    have hsched : ∀ c, Agenda.schedule c 0 ops = [(c, default)] := fun c => by
      simp only [ops, Agenda.schedule, Agenda.schedule_replicate, Nat.zero_add]
    obtain ⟨outs, w₁, hrun, hin⟩ := hall 0 ops (.inl rfl)
    obtain ⟨outs', w₂, hrun', hout⟩ := run_calls h2 hlt hn hg hw
      (show (0 : UInt32).toNat < n from hpos) ops
    rw [hrun] at hrun'
    cases hrun'
    rw [hin, hsched, hsched] at hout
    have hmem : delay timeout % n ∈ List.range (Agenda.ticks ops) := by
      simp only [ops, Agenda.ticks, Agenda.ticks_replicate, List.mem_range, Nat.lt_succ_self]
    have hcall := List.map_inj_left.mp hout _ hmem
    have hlate : delay timeout ≠ delay timeout % n := by
      have := Nat.mod_lt (delay timeout) hpos
      omega
    simp [Agenda.due, hlate] at hcall
  · intro hdelay start ops hstart
    have hlen : w.wheel.length = n := by rw [hw, List.length_replicate]
    have hlt' : start.toNat < n := by
      rcases hstart with rfl | hstart
      · exact hpos
      · rwa [hlen] at hstart
    obtain ⟨outs, w', hrun, hout⟩ := run_calls h2 hlt hn hg hw hlt' ops
    rw [Nat.mod_eq_of_lt hdelay] at hout
    exact ⟨outs, w', hrun, hout⟩

theorem not_neverEarly_of_nil [Inhabited ν] (hw : w.wheel = []) : ¬ NeverEarly timeout w := by
  intro hall
  obtain ⟨outs, w', hrun, -⟩ := hall 0 [.add default] (.inl rfl)
  have hsize : ({ w with start := 0 } : TimingWheel ν).size = 0 := by
    unfold size
    rw [hw]
    rfl
  have hstuck : step timeout { w with start := 0 } (.add default) = none := by
    simp only [step, arm, addTimeout, hsize, if_true, ite_self, Option.map_none]
  rw [Machine.run, hstuck] at hrun
  cases hrun

/-- The wheel is never early, and never divides by zero, if and only if the timeout is at most
1001 milliseconds. -/
theorem neverEarly_iff [Inhabited ν] (h2 : 2 ≤ timeout) (hw : ofTimeout timeout = some w) :
    NeverEarly timeout w ↔ timeout.toNat ≤ 1001 := by
  obtain ⟨hg, n, hwheel, hn⟩ := ofTimeout_wheel h2 hw
  have h2' : 2 ≤ timeout.toNat := UInt32.le_iff_toNat_le.mp h2
  rcases Nat.eq_zero_or_pos n with rfl | hpos
  · refine iff_of_false (not_neverEarly_of_nil hwheel) fun hle => ?_
    rw [if_pos (by omega)] at hn
    exact absurd hn.symm (Nat.div_pos (by omega) (by omega)).ne'
  · have hsmall : timeout.toNat - 1 < 2 ^ 31 := by
      by_contra hlarge
      rw [if_neg hlarge] at hn
      exact absurd hn hpos.ne'
    rw [if_pos hsmall] at hn
    have hslots : ∀ k, k ≤ n ↔ k * (timeout.toNat - 1) ≤ 4000 := fun k => by
      rw [hn, Nat.le_div_iff_mul_le (by omega)]
    have h1 := (hslots 1).mp hpos
    rw [neverEarly_iff_lt h2 (by omega) hpos (hn ▸ Nat.div_le_self _ _) hg hwheel,
      delay_eq h2 (by omega)]
    split
    · rename_i he
      have h5 := hslots 5
      rw [he] at h5 ⊢
      exact iff_of_true (h5.mpr (by decide)) (by decide)
    · have h4 := hslots 4
      show 4 ≤ n ↔ _
      rw [h4]
      omega

end

/-- The default timeout: 19 ms a tick, 210 slots. -/
theorem neverEarly_iff_twenty :
    NeverEarly 20 (⟨0, 19, List.replicate 210 []⟩ : TimingWheel Unit) ↔ (20 : UInt32).toNat ≤ 1001 :=
  neverEarly_iff (by decide) rfl

/-- 1001 ms a tick: of three ticks on three slots nothing is left. -/
theorem not_neverEarly :
    ¬ ∀ (timeout : UInt32) (w : TimingWheel Unit), 2 ≤ timeout → ofTimeout timeout = some w →
      NeverEarly timeout w := by
  intro hall
  obtain ⟨outs, w', hrun, hcalls⟩ := hall 1002 ⟨0, 1001, [[], [], []]⟩ (by decide) rfl 0
    [.add ((), 7), .tick] (.inl rfl)
  cases hrun
  cases hcalls

end TimingWheel
end Quarrel
