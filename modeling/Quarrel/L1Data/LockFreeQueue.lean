import Quarrel.Core.Ring

/-!
# The queue of the worker pools (`util/queue.h`)

A ring of entries, each with a flag, and two counters that only go up. The calls are
complete here, one after the other: nobody else writes between a read and the
compare-and-swap that follows it, so a swap of a counter just read succeeds, and a loop
that waits for a flag ends at once or never. `none` is a call that does not return, or
that leaves the memory `Init` allocated.

* `Stores`: the counters, the flags and the entries of a queue that holds given items.
* `stores_enqueue`, `stores_dequeue`: each call on such a queue is one of a bounded FIFO.
* `queue_fifo_iff`: a queue of `size` entries is one exactly if `size + 1` does not wrap.
* `not_queue_fifo`: the largest size, for which `Init` allocates no entry.
-/
namespace Quarrel

/-- mirrors util/queue.h:19-24 -/
inductive QueueFlag where
  | null | setTook | seted | getTook
  deriving DecidableEq, Repr

/-- mirrors util/queue.h:12-17 -/
inductive QueueRet where
  | ok | full | empty | err
  deriving DecidableEq, Repr

/-- mirrors util/queue.h:168-171 -/
structure QueueEntry (α : Type) where
  flag : QueueFlag
  data : α

/-- mirrors util/queue.h:173-180 -/
structure LockFreeQueue (α : Type) where
  inited : Bool
  head : UInt64
  tail : UInt64
  size : UInt32
  entries : List (QueueEntry α)

namespace LockFreeQueue

variable {α : Type}

/-- mirrors util/queue.h:26 -/
def new : LockFreeQueue α := ⟨false, 0, 0, 0, []⟩

/-- `zero` is the value all of whose bytes are zero. The number of entries is a
`uint32_t`, `size + 1`.
mirrors util/queue.h:36-54 -/
def init (zero : α) (q : LockFreeQueue α) (size : UInt32) : QueueRet × LockFreeQueue α :=
  if q.inited then (.ok, q)
  else (.ok, ⟨true, 0, 0, size, List.replicate (size + 1).toNat ⟨.null, zero⟩⟩)

/-- `x % head_->size`. -/
def modSize (q : LockFreeQueue α) (x : UInt64) : Option UInt64 :=
  if q.size = 0 then none else some (x % q.size.toUInt64)

/-- The entry at `pos`, once its flag is `flag`. -/
def takeEntry (q : LockFreeQueue α) (pos : UInt64) (flag : QueueFlag) : Option (QueueEntry α) :=
  match q.entries[pos.toNat]? with
  | none => none
  | some e => if e.flag = flag then some e else none

def putEntry (q : LockFreeQueue α) (pos : UInt64) (e : QueueEntry α) : LockFreeQueue α :=
  { q with entries := q.entries.set pos.toNat e }

/-- The position claimed for a new item; no position is `RT_FULL`.
mirrors util/queue.h:65-92 -/
def claimHead (block : Bool) : Nat → LockFreeQueue α → Option (Option UInt64 × LockFreeQueue α)
  | 0, _ => none
  | fuel + 1, q =>
    let oldHead := q.head
    let oldTail := q.tail
    if oldHead ≥ oldTail then
      if q.size.toUInt64 > oldHead - oldTail then some (some oldHead, { q with head := oldHead + 1 })
      else if block then claimHead block fuel q
      else some (none, q)
    else
      -- the head has wrapped: both counters start over
      match q.modSize oldTail with
      | none => none
      | some newTail =>
        claimHead block fuel { q with
          head := 0xffffffffffffffff - oldTail + oldHead + 1 + newTail, tail := newTail }

/-- mirrors util/queue.h:56-108 -/
def enqueue (fuel : Nat) (block : Bool) (q : LockFreeQueue α) (val : α) :
    Option (QueueRet × LockFreeQueue α) :=
  if ¬ q.inited then some (.err, q)
  else
    match claimHead block fuel q with
    | none => none
    | some (none, q) => some (.full, q)
    | some (some oldHead, q) =>
      match q.modSize oldHead with
      | none => none
      | some pos =>
        match q.takeEntry pos .null with
        | none => none
        | some _ => some (.ok, q.putEntry pos ⟨.seted, val⟩)

/-- The position of the oldest item; no position is `RT_EMPTY`.
mirrors util/queue.h:119-135 -/
def claimTail (block : Bool) : Nat → LockFreeQueue α → Option (Option UInt64 × LockFreeQueue α)
  | 0, _ => none
  | fuel + 1, q =>
    let oldHead := q.head
    let oldTail := q.tail
    if oldTail < oldHead then some (some oldTail, { q with tail := oldTail + 1 })
    else if block then claimTail block fuel q
    else some (none, q)

/-- The value, if there is one, is what `val` is set to.
mirrors util/queue.h:110-152 -/
def dequeue (fuel : Nat) (block : Bool) (q : LockFreeQueue α) :
    Option (QueueRet × Option α × LockFreeQueue α) :=
  if ¬ q.inited then some (.err, none, q)
  else
    match claimTail block fuel q with
    | none => none
    | some (none, q) => some (.empty, none, q)
    | some (some oldTail, q) =>
      match q.modSize oldTail with
      | none => none
      | some pos =>
        match q.takeEntry pos .seted with
        | none => none
        | some e => some (.ok, some e.data, q.putEntry pos ⟨.null, e.data⟩)

/-- mirrors util/queue.h:154-165 -/
def count (q : LockFreeQueue α) : UInt32 := if q.head > q.tail then (q.head - q.tail).toUInt32 else 0

/-- A non-blocking call; any other return code is not one of a FIFO. -/
def step (fuel : Nat) (q : LockFreeQueue α) : FifoOp α → Option (FifoRet α × LockFreeQueue α)
  | .enqueue x =>
    match q.enqueue fuel false x with
    | some (.ok, q) => some (.accepted, q)
    | some (.full, q) => some (.full, q)
    | _ => none
  | .dequeue =>
    match q.dequeue fuel false with
    | some (.ok, some x, q) => some (.item x, q)
    | some (.empty, _, q) => some (.empty, q)
    | _ => none
  | .size => some (.size q.count.toNat, q)

/-- The item in the cell `j`, if it has been written and not yet taken. -/
def cell (q : LockFreeQueue α) (j : Nat) : Option α :=
  (q.entries[j]?).bind fun e => if e.flag = .seted then some e.data else none

/-- The items from the tail to the head. -/
def items (q : LockFreeQueue α) : List α :=
  (List.range (q.head - q.tail).toNat).filterMap fun i => q.cell ((q.tail.toNat + i) % q.size.toNat)

/-- The queue holds the items of `t`. -/
structure Stores (n : UInt32) (q : LockFreeQueue α) (t : Fifo α) : Prop where
  inited : q.inited = true
  size : q.size = n
  entries : q.entries.length = n.toNat + 1
  tail : q.tail.toNat = t.taken
  head : q.head.toNat = t.total
  flags : ∀ e ∈ q.entries, e.flag = .null ∨ e.flag = .seted
  ring : Ring n.toNat t.taken t.items q.cell

/-- Any run of calls after `Init` is one of a FIFO of at most `size` items that accepts
fewer than 2^64: it returns, with the answers of the FIFO, and what it accepted is what
it gave back and still holds. -/
def QueueFifo (zero : α) (size : UInt32) : Prop :=
  ∀ (fuel : Nat) (ops : List (FifoOp α)),
    (Machine.outputs (Fifo.step size.toNat) Fifo.empty ops).2.total < 2 ^ 64 →
    ∃ rets q, Machine.run (step (fuel + 1)) (init zero new size).2 ops = some (rets, q) ∧
      rets = (Machine.outputs (Fifo.step size.toNat) Fifo.empty ops).1 ∧
      q.items = (Machine.outputs (Fifo.step size.toNat) Fifo.empty ops).2.items ∧
      Fifo.accepted ops rets = Fifo.delivered rets ++ q.items

/-! ## One call -/

section

variable {n : UInt32} {q : LockFreeQueue α} {t : Fifo α} {fuel : Nat}

theorem toNat_toUInt64_pos (h : 0 < n) : n ≠ 0 ∧ 0 < n.toNat := by
  have := UInt32.lt_iff_toNat_lt.mp h
  refine ⟨fun he => ?_, this⟩
  rw [he] at this
  exact absurd this (Nat.lt_irrefl _)

theorem Stores.entry (h : Stores n q t) {j : Nat} (hj : j < n.toNat) :
    ∃ e, q.entries[j]? = some e ∧ (q.cell j = none → e.flag = .null) ∧
      ∀ x, q.cell j = some x → e.flag = .seted ∧ e.data = x := by
  have hlt : j < q.entries.length := by
    rw [h.entries]
    omega
  refine ⟨q.entries[j], List.getElem?_eq_getElem hlt, ?_⟩
  unfold cell
  rw [List.getElem?_eq_getElem hlt, Option.bind_some]
  rcases h.flags _ (List.getElem_mem hlt) with hf | hf
  · simp [hf]
  · simp [hf]

theorem cell_putEntry {pos : UInt64} {e : QueueEntry α} (h : pos.toNat < q.entries.length) :
    (q.putEntry pos e).cell =
      Function.update q.cell pos.toNat (if e.flag = .seted then some e.data else none) := by
  funext j
  unfold cell putEntry
  by_cases hj : j = pos.toNat
  · subst hj
    rw [Function.update_self, List.getElem?_set_self h]
    rfl
  · rw [Function.update_of_ne hj, List.getElem?_set_ne (Ne.symm hj)]

theorem flags_putEntry {pos : UInt64} {e : QueueEntry α}
    (h : ∀ e ∈ q.entries, e.flag = .null ∨ e.flag = .seted) (he : e.flag = .null ∨ e.flag = .seted) :
    ∀ x ∈ (q.putEntry pos e).entries, x.flag = .null ∨ x.flag = .seted := by
  intro x hx
  rcases List.mem_or_eq_of_mem_set hx with hx | rfl
  · exact h x hx
  · exact he

theorem Stores.distance (h : Stores n q t) :
    q.tail ≤ q.head ∧ (q.head - q.tail).toNat = t.items.length := by
  have hle : q.tail ≤ q.head := by
    rw [UInt64.le_iff_toNat_le, h.tail, h.head]
    exact Nat.le_add_right _ _
  refine ⟨hle, ?_⟩
  rw [UInt64.toNat_sub_of_le _ _ hle, h.tail, h.head]
  exact Nat.add_sub_cancel_left _ _

theorem Stores.items_eq (h : Stores n q t) : q.items = t.items := by
  unfold items
  rw [h.distance.2, h.tail, h.size]
  exact h.ring.read

theorem Stores.slot (h : Stores n q t) (hn : 0 < n) (x : UInt64) :
    ∃ pos e, q.modSize x = some pos ∧ pos.toNat = x.toNat % n.toNat ∧ pos.toNat < q.entries.length ∧
      q.entries[pos.toNat]? = some e ∧ (q.cell pos.toNat = none → e.flag = .null) ∧
      ∀ v, q.cell pos.toNat = some v → e.flag = .seted ∧ e.data = v := by
  obtain ⟨hne, hpos⟩ := toNat_toUInt64_pos hn
  have hmod : (x % n.toUInt64).toNat = x.toNat % n.toNat := UInt64.toNat_mod _ _
  have hlt : (x % n.toUInt64).toNat < n.toNat := by
    rw [hmod]
    exact Nat.mod_lt _ hpos
  obtain ⟨e, he, hcell⟩ := h.entry hlt
  refine ⟨x % n.toUInt64, e, ?_, hmod, ?_, he, hcell⟩
  · unfold LockFreeQueue.modSize
    rw [h.size, if_neg hne]
  · rw [h.entries]
    exact Nat.lt_succ_of_lt hlt

theorem takeEntry_of {pos : UInt64} {e : QueueEntry α} {flag : QueueFlag}
    (he : q.entries[pos.toNat]? = some e) (hf : e.flag = flag) : q.takeEntry pos flag = some e := by
  unfold takeEntry
  rw [he]
  exact if_pos hf

section

variable {pos : UInt64} {e : QueueEntry α}

theorem enqueue_full (hinit : q.inited = true) (hle : q.tail ≤ q.head)
    (hno : ¬ q.size.toUInt64 > q.head - q.tail) (x : α) :
    q.enqueue (fuel + 1) false x = some (.full, q) := by
  have hclaim : q.claimHead false (fuel + 1) = some (none, q) := by
    simp only [claimHead, ge_iff_le, hle, if_true, if_neg hno, Bool.false_eq_true, if_false]
  unfold enqueue
  rw [if_neg (not_not.mpr hinit), hclaim]

theorem enqueue_ok (hinit : q.inited = true) (hle : q.tail ≤ q.head)
    (hroom : q.size.toUInt64 > q.head - q.tail) (hmod : q.modSize q.head = some pos)
    (he : q.entries[pos.toNat]? = some e) (hf : e.flag = .null) (x : α) :
    q.enqueue (fuel + 1) false x =
      some (.ok, ({ q with head := q.head + 1 } : LockFreeQueue α).putEntry pos ⟨.seted, x⟩) := by
  have hclaim : q.claimHead false (fuel + 1) = some (some q.head, { q with head := q.head + 1 }) := by
    simp only [claimHead, ge_iff_le, hle, if_true, if_pos hroom]
  have hmod' : ({ q with head := q.head + 1 } : LockFreeQueue α).modSize q.head = some pos := hmod
  have htake : ({ q with head := q.head + 1 } : LockFreeQueue α).takeEntry pos .null = some e :=
    takeEntry_of he hf
  unfold enqueue
  rw [if_neg (not_not.mpr hinit), hclaim]
  simp only [hmod', htake]

theorem dequeue_empty (hinit : q.inited = true) (hno : ¬ q.tail < q.head) :
    q.dequeue (fuel + 1) false = some (.empty, none, q) := by
  have hclaim : q.claimTail false (fuel + 1) = some (none, q) := by
    simp only [claimTail, if_neg hno, Bool.false_eq_true, if_false]
  unfold dequeue
  rw [if_neg (not_not.mpr hinit), hclaim]

theorem dequeue_ok (hinit : q.inited = true) (hlt : q.tail < q.head)
    (hmod : q.modSize q.tail = some pos) (he : q.entries[pos.toNat]? = some e)
    (hf : e.flag = .seted) :
    q.dequeue (fuel + 1) false = some (.ok, some e.data,
      ({ q with tail := q.tail + 1 } : LockFreeQueue α).putEntry pos ⟨.null, e.data⟩) := by
  have hclaim : q.claimTail false (fuel + 1) = some (some q.tail, { q with tail := q.tail + 1 }) := by
    simp only [claimTail, if_pos hlt]
  have hmod' : ({ q with tail := q.tail + 1 } : LockFreeQueue α).modSize q.tail = some pos := hmod
  have htake : ({ q with tail := q.tail + 1 } : LockFreeQueue α).takeEntry pos .seted = some e :=
    takeEntry_of he hf
  unfold dequeue
  rw [if_neg (not_not.mpr hinit), hclaim]
  simp only [hmod', htake]

end

theorem stores_enqueue (h : Stores n q t) (hn : 0 < n)
    (hmax : (t.step n.toNat (.enqueue x)).2.total < 2 ^ 64) :
    ∃ q', q.step (fuel + 1) (.enqueue x) = some ((t.step n.toNat (.enqueue x)).1, q') ∧
      Stores n q' (t.step n.toNat (.enqueue x)).2 := by
  obtain ⟨hle, hdist⟩ := h.distance
  have hlen := h.ring.length_le
  have hroom : q.size.toUInt64 > q.head - q.tail ↔ t.items.length < n.toNat := by
    rw [gt_iff_lt, UInt64.lt_iff_toNat_lt, hdist, h.size]
    rfl
  by_cases hfull : t.items.length = n.toNat
  · have hno : ¬ q.size.toUInt64 > q.head - q.tail := fun hr => by
      have := hroom.mp hr
      omega
    simp only [step, enqueue_full h.inited hle hno, Fifo.step, hfull, if_true]
    exact ⟨q, rfl, h⟩
  · have hlt : t.items.length < n.toNat := by omega
    obtain ⟨pos, e, hmod, hpos, hin, he, hnull, -⟩ := h.slot hn q.head
    have hpos' : pos.toNat = (t.taken + t.items.length) % n.toNat := by
      rw [hpos, h.head]
      rfl
    have hfree : q.cell pos.toNat = none := by
      rw [hpos']
      exact h.ring.next_free hlt
    have hcall : q.enqueue (fuel + 1) false x = _ :=
      enqueue_ok h.inited hle (hroom.mpr hlt) hmod he (hnull hfree) x
    simp only [step, hcall, Fifo.step, hfull, if_false] at hmax ⊢
    refine ⟨_, rfl, ?_⟩
    have htotal : t.total + 1 < 2 ^ 64 := by
      simp only [Fifo.total, List.length_append, List.length_singleton] at hmax ⊢
      omega
    refine ⟨h.inited, h.size, ?_, h.tail, ?_, flags_putEntry h.flags (.inr rfl), ?_⟩
    · show (q.entries.set _ _).length = _
      rw [List.length_set, h.entries]
    · show (q.head + 1).toNat = _
      rw [UInt64.toNat_add, h.head]
      simp only [Fifo.total, List.length_append, List.length_singleton, UInt64.toNat_one] at htotal ⊢
      omega
    · have hcell := cell_putEntry (q := q) (e := ⟨.seted, x⟩) hin
      rw [if_pos rfl, hpos'] at hcell
      show Ring _ _ _ (q.putEntry pos ⟨.seted, x⟩).cell
      rw [hcell]
      exact h.ring.push hlt x

theorem stores_dequeue (h : Stores n q t) (hn : 0 < n) :
    ∃ q', q.step (fuel + 1) .dequeue = some ((t.step n.toNat .dequeue).1, q') ∧
      Stores n q' (t.step n.toNat .dequeue).2 := by
  obtain ⟨items, taken⟩ := t
  have htail : q.tail.toNat = taken := h.tail
  have hhead : q.head.toNat = taken + items.length := h.head
  cases items with
  | nil =>
    have hno : ¬ q.tail < q.head := by
      rw [UInt64.lt_iff_toNat_lt, htail, hhead]
      exact Nat.lt_irrefl _
    simp only [step, dequeue_empty h.inited hno]
    exact ⟨q, rfl, h⟩
  | cons x l =>
    rw [List.length_cons] at hhead
    have hlt : q.tail < q.head := by
      rw [UInt64.lt_iff_toNat_lt, htail, hhead]
      omega
    obtain ⟨pos, e, hmod, hpos, hin, he, -, hseted⟩ := h.slot hn q.tail
    have hpos' : pos.toNat = taken % n.toNat := by
      rw [hpos, htail]
    have hfirst : q.cell pos.toNat = some x := by
      rw [hpos']
      exact h.ring.first
    obtain ⟨hflag, rfl⟩ := hseted x hfirst
    have hcall : q.dequeue (fuel + 1) false = _ := dequeue_ok h.inited hlt hmod he hflag
    simp only [step, hcall]
    refine ⟨_, rfl, ?_⟩
    refine ⟨h.inited, h.size, ?_, ?_, ?_, flags_putEntry h.flags (.inl rfl), ?_⟩
    · show (q.entries.set _ _).length = _
      rw [List.length_set, h.entries]
    · show (q.tail + 1).toNat = taken + 1
      have := q.head.toNat_lt
      rw [UInt64.toNat_add, htail, UInt64.toNat_one]
      omega
    · show q.head.toNat = taken + 1 + l.length
      omega
    · have hcell := cell_putEntry (q := q) (e := ⟨.null, e.data⟩) hin
      rw [if_neg (show ¬ (QueueFlag.null = QueueFlag.seted) by decide), hpos'] at hcell
      show Ring _ _ _ (q.putEntry pos ⟨.null, e.data⟩).cell
      rw [hcell]
      exact h.ring.pop

theorem stores_count (h : Stores n q t) : q.count.toNat = t.items.length := by
  obtain ⟨hle, hdist⟩ := h.distance
  have hlen := h.ring.length_le
  have hlt := n.toNat_lt
  unfold count
  split
  · rw [UInt64.toNat_toUInt32, hdist]
    exact Nat.mod_eq_of_lt (by omega)
  · rename_i hno
    have heq : q.head.toNat ≤ q.tail.toNat := by
      rw [gt_iff_lt, UInt64.lt_iff_toNat_lt] at hno
      omega
    rw [h.head, h.tail] at heq
    unfold Fifo.total at heq
    show 0 = _
    omega

end

/-! ## Runs -/

section

variable (zero : α) {size : UInt32}

theorem stores_init (hwrap : size.toNat + 1 < 2 ^ 32) :
    Stores size (init zero new size).2 (Fifo.empty : Fifo α) where
  inited := rfl
  size := rfl
  entries := by
    show (List.replicate (size + 1).toNat _).length = _
    rw [List.length_replicate, UInt32.toNat_add, UInt32.toNat_one]
    exact Nat.mod_eq_of_lt hwrap
  tail := rfl
  head := rfl
  flags e he := .inl (by rw [List.eq_of_mem_replicate he])
  ring := by
    have hcell : (init zero new size).2.cell = fun _ => none := by
      funext j
      unfold cell
      show ((List.replicate (size + 1).toNat _)[j]?).bind _ = none
      rw [List.getElem?_replicate]
      split <;> rfl
    rw [hcell]
    exact ring_empty _ _

/-- With the largest size `Init` allocates no entry: the first item goes past the end. -/
theorem enqueue_wrapped : step 1 (init zero new 0xffffffff).2 (.enqueue zero) = none := by
  have hq : (init zero new 0xffffffff).2 = (⟨true, 0, 0, 0xffffffff, []⟩ : LockFreeQueue α) := by
    simp [init, new]
  rw [hq]
  simp only [step, enqueue, claimHead, modSize, takeEntry]
  rfl

theorem total_one (n : Nat) :
    (Machine.outputs (Fifo.step n) (Fifo.empty : Fifo α) [.enqueue zero]).2.total ≤ 1 := by
  simp only [Machine.outputs, Fifo.step]
  split
  · exact Nat.zero_le _
  · exact Nat.le_refl _

/-- A queue of `size` entries is a FIFO of `size` items, over any run that enqueues fewer than
2^64, if and only if `size + 1` is a 32-bit number. -/
theorem queue_fifo_iff (hsize : 0 < size) : QueueFifo zero size ↔ size.toNat + 1 < 2 ^ 32 := by
  constructor
  · intro hall
    by_contra hwrap
    have hlt := size.toNat_lt
    obtain rfl : size = 0xffffffff := UInt32.toNat_inj.mp (by
      show size.toNat = 0xffffffff
      omega)
    have hone : 1 < 2 ^ 64 := by decide
    obtain ⟨rets, q, hrun, -⟩ := hall 0 [.enqueue zero] (Nat.lt_of_le_of_lt (total_one zero _) hone)
    rw [Machine.run, enqueue_wrapped] at hrun
    cases hrun
  · intro hwrap fuel ops htotal
    obtain ⟨q, hrun, hq⟩ := Machine.run_refines (f := step (fuel + 1)) (g := Fifo.step size.toNat)
      (R := Stores size)
      (C := fun t ops => (Machine.outputs (Fifo.step size.toNat) t ops).2.total < 2 ^ 64)
      (fun _ _ _ h => h)
      (fun q t op ops h hmax => by
        cases op with
        | enqueue x => exact stores_enqueue h hsize (Nat.lt_of_le_of_lt (Fifo.total_outputs _ ops) hmax)
        | dequeue => exact stores_dequeue h hsize
        | size => exact ⟨q, by simp only [step, stores_count h, Fifo.step], h⟩)
      ops _ _ (stores_init zero hwrap) htotal
    refine ⟨_, q, hrun, rfl, hq.items_eq, ?_⟩
    rw [hq.items_eq]
    exact Fifo.accepted_eq ops Fifo.empty

end

/-- A queue of two entries. -/
theorem queue_fifo_iff_two : QueueFifo false 2 ↔ (2 : UInt32).toNat + 1 < 2 ^ 32 :=
  queue_fifo_iff false (by decide)

/-- The largest size. -/
theorem not_queue_fifo :
    ¬ ∀ (α : Type) (zero : α) (size : UInt32), 0 < size → QueueFifo zero size := by
  intro hall
  obtain ⟨rets, q, hrun, -⟩ := hall Bool false 0xffffffff (by decide) 0 [.enqueue false] (by decide)
  rw [Machine.run, enqueue_wrapped] at hrun
  cases hrun

end LockFreeQueue
end Quarrel
