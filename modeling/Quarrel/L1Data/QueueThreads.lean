import Quarrel.Core.Census
import Quarrel.Core.LTS
import Quarrel.L1Data.LockFreeQueue

/-!
# The threads of the queue (`util/queue.h`)

Any number of threads in `Enqueue` and `Dequeue` of one queue. A step is one access to the
memory they share: a read or a compare-and-swap of a counter, a compare-and-swap or a store
of a flag, a read or a store of an item. A thread that has a position waits for its entry's
flag; the queue is no FIFO then, since of two threads that wait for one entry either may
be the first.

* `advance_effect`: what a step of a thread does.
* `sound_inductive`: the invariant; of the tickets for an entry those not used yet are those
  of the threads that wait for it.
* `one_at_a_time`: no entry is filled or cleared by two threads at a time.
* `bag`: what was taken out, with what is inside, is what was put in.
* `counters`: the counters never cross, and no thread gets to start them over.
* `drains`: the threads that have a position can all finish.
* `runs_alone`: a call nobody interrupts is the one of `LockFreeQueue`.
-/
namespace Quarrel

variable {α θ : Type}

/-- Where a thread is in a call, and what it has read.
mirrors util/queue.h:56-152 -/
inductive QueuePc (α : Type) where
  | idle
  | enqHead (val : α) (block : Bool)
  | enqTail (val : α) (block : Bool) (oldHead : UInt64)
  | enqSwap (val : α) (block : Bool) (oldHead oldTail : UInt64)
  | enqRebase (val : α) (block : Bool) (oldTail newTail : UInt64)
  | enqTake (val : α) (pos : UInt64)
  | enqWrite (val : α) (pos : UInt64)
  | enqSet (val : α) (pos : UInt64)
  | deqHead (block : Bool)
  | deqTail (block : Bool) (oldHead : UInt64)
  | deqSwap (block : Bool) (oldHead oldTail : UInt64)
  | deqTake (pos : UInt64)
  | deqRead (pos : UInt64)
  | deqClear (pos : UInt64) (val : α)
  deriving DecidableEq

structure QueueThreads (θ α : Type) where
  queue : LockFreeQueue α
  pc : θ → QueuePc α

inductive QueueAct (θ α : Type) where
  | enqueue (i : θ) (val : α) (block : Bool)
  | dequeue (i : θ) (block : Bool)
  | run (i : θ)

/-- A call that returned `RT_OK`. -/
inductive QueueDone (α : Type) where
  | put (val : α)
  | got (val : α)

namespace QueueThreads

/-- The next step of a thread. `none` is no step, a division by zero or an access past the
entries.
mirrors util/queue.h:65-151 -/
def advance (q : LockFreeQueue α) : QueuePc α → Option (LockFreeQueue α × QueuePc α)
  | .idle => none
  | .enqHead val block => some (q, .enqTail val block q.head)
  | .enqTail val block oldHead => some (q, .enqSwap val block oldHead q.tail)
  | .enqSwap val block oldHead oldTail =>
    if oldHead ≥ oldTail then
      if q.size.toUInt64 > oldHead - oldTail then
        if q.head = oldHead then
          (q.modSize oldHead).map fun pos => ({ q with head := oldHead + 1 }, .enqTake val pos)
        else some (q, .enqHead val block)
      else if block then some (q, .enqHead val block)
      else some (q, .idle) -- RT_FULL
    else
      (q.modSize oldTail).map fun newTail =>
        if q.head = oldHead then
          ({ q with head := 0xffffffffffffffff - oldTail + oldHead + 1 + newTail },
            .enqRebase val block oldTail newTail)
        else (q, .enqHead val block)
  | .enqRebase val block oldTail newTail =>
    if q.tail = oldTail then some ({ q with tail := newTail }, .enqHead val block)
    else some (q, .enqRebase val block oldTail newTail)
  | .enqTake val pos =>
    (q.entries[pos.toNat]?).map fun e =>
      if e.flag = .null then (q.putEntry pos ⟨.setTook, e.data⟩, .enqWrite val pos)
      else (q, .enqTake val pos)
  | .enqWrite val pos =>
    (q.entries[pos.toNat]?).map fun e => (q.putEntry pos ⟨e.flag, val⟩, .enqSet val pos)
  | .enqSet _ pos =>
    (q.entries[pos.toNat]?).map fun e => (q.putEntry pos ⟨.seted, e.data⟩, .idle)
  | .deqHead block => some (q, .deqTail block q.head)
  | .deqTail block oldHead => some (q, .deqSwap block oldHead q.tail)
  | .deqSwap block oldHead oldTail =>
    if oldTail < oldHead then
      if q.tail = oldTail then
        (q.modSize oldTail).map fun pos => ({ q with tail := oldTail + 1 }, .deqTake pos)
      else some (q, .deqHead block)
    else if block then some (q, .deqHead block)
    else some (q, .idle) -- RT_EMPTY
  | .deqTake pos =>
    (q.entries[pos.toNat]?).map fun e =>
      if e.flag = .seted then (q.putEntry pos ⟨.getTook, e.data⟩, .deqRead pos)
      else (q, .deqTake pos)
  | .deqRead pos => (q.entries[pos.toNat]?).map fun e => (q, .deqClear pos e.data)
  | .deqClear pos _ =>
    (q.entries[pos.toNat]?).map fun e => (q.putEntry pos ⟨.null, e.data⟩, .idle)

section

variable [DecidableEq θ]

/-- A call starts, or a thread takes its next step. A call on a queue that was not initialized
returns at once. -/
def step (s : QueueThreads θ α) : QueueAct θ α → Option (QueueThreads θ α)
  | .enqueue i val block =>
    match s.pc i with
    | .idle =>
      some (if s.queue.inited then { s with pc := Function.update s.pc i (.enqHead val block) } else s)
    | _ => none
  | .dequeue i block =>
    match s.pc i with
    | .idle =>
      some (if s.queue.inited then { s with pc := Function.update s.pc i (.deqHead block) } else s)
    | _ => none
  | .run i => (advance s.queue (s.pc i)).map fun r => ⟨r.1, Function.update s.pc i r.2⟩

/-- What the next step of a thread completes. -/
def completes : QueuePc α → List (QueueDone α)
  | .enqSet val _ => [.put val]
  | .deqClear _ val => [.got val]
  | _ => []

def done (s : QueueThreads θ α) : QueueAct θ α → List (QueueDone α)
  | .run i => completes (s.pc i)
  | _ => []

/-- Threads on a queue of `size` entries, with the calls that returned `RT_OK`. -/
def system (zero : α) (size : UInt32) :
    LTS (QueueThreads θ α × List (QueueDone α)) (QueueAct θ α) :=
  LTS.withRecord (· = ⟨(LockFreeQueue.init zero .new size).2, fun _ => .idle⟩) step done

end

/-- The head has not passed 2^64. -/
def NoWrap (s : QueueThreads θ α × List (QueueDone α)) (_ : QueueAct θ α)
    (s' : QueueThreads θ α × List (QueueDone α)) : Prop :=
  s.1.queue.head ≤ s'.1.queue.head

/-! ## What a step does -/

/-- What a thread that has a position is at: it waits for the entry to be free, fills it, waits
for it to be filled, clears it. -/
inductive Stage where
  | put | fill | get | clear
  deriving DecidableEq, Repr

/-- The stage of a thread, and its position. -/
def place : QueuePc α → Option (Stage × Nat)
  | .enqTake _ pos => some (.put, pos.toNat)
  | .enqWrite _ pos | .enqSet _ pos => some (.fill, pos.toNat)
  | .deqTake pos => some (.get, pos.toNat)
  | .deqRead pos | .deqClear pos _ => some (.clear, pos.toNat)
  | _ => none

/-- The step of a thread on the entry of its position. -/
inductive Turn : Stage → QueueEntry α → Option Stage → QueueEntry α → List (QueueDone α) → Prop
  | take (x : α) : Turn .put ⟨.null, x⟩ (some .fill) ⟨.setTook, x⟩ []
  | write (f : QueueFlag) (x y : α) : Turn .fill ⟨f, x⟩ (some .fill) ⟨f, y⟩ []
  | set (f : QueueFlag) (x : α) : Turn .fill ⟨f, x⟩ none ⟨.seted, x⟩ [.put x]
  | grab (x : α) : Turn .get ⟨.seted, x⟩ (some .clear) ⟨.getTook, x⟩ []
  | clear (f : QueueFlag) (x : α) : Turn .clear ⟨f, x⟩ none ⟨.null, x⟩ [.got x]

/-- What a thread knows: the counters have not been lower than it read them, and an entry
it has written or read is as it left it. Nobody ever starts the counters over. -/
def Knows (q : LockFreeQueue α) : QueuePc α → Prop
  | .enqTail _ _ oldHead | .deqTail _ oldHead => oldHead ≤ q.head
  | .enqSwap _ _ oldHead oldTail | .deqSwap _ oldHead oldTail => oldHead ≤ q.head ∧ oldTail ≤ q.tail
  | .enqRebase .. => False
  | .enqTake _ pos | .enqWrite _ pos | .deqTake pos | .deqRead pos => pos.toNat < q.size.toNat
  | .enqSet val pos | .deqClear pos val =>
    pos.toNat < q.size.toNat ∧ ∀ e, q.entries[pos.toNat]? = some e → e.data = val
  | _ => True

/-- What a step of a thread does. -/
inductive Effect (q : LockFreeQueue α) (a : QueuePc α) :
    LockFreeQueue α → QueuePc α → List (QueueDone α) → Prop
  | same (b : QueuePc α) (hp : place b = place a) (hk : Knows q b) : Effect q a q b []
  | claimHead (val : α) (pos : UInt64) (ha : place a = none) (hpos : pos.toNat = q.head.toNat % q.size.toNat)
      (hroom : q.head.toNat < q.tail.toNat + q.size.toNat) :
      Effect q a { q with head := q.head + 1 } (.enqTake val pos) []
  | claimTail (pos : UInt64) (ha : place a = none) (hpos : pos.toNat = q.tail.toNat % q.size.toNat)
      (hsome : q.tail.toNat < q.head.toNat) :
      Effect q a { q with tail := q.tail + 1 } (.deqTake pos) []
  | entry (b : QueuePc α) (pos : UInt64) (st : Stage) (st' : Option Stage) (e e' : QueueEntry α)
      (ev : List (QueueDone α)) (ha : place a = some (st, pos.toNat))
      (hb : place b = st'.map fun st' => (st', pos.toNat)) (he : q.entries[pos.toNat]? = some e)
      (ht : Turn st e st' e' ev) (hk : Knows (q.putEntry pos e') b) : Effect q a (q.putEntry pos e') b ev

section

variable {q q' : LockFreeQueue α} {a b : QueuePc α}

theorem modSize_eq {x pos : UInt64} (h : q.modSize x = some pos) :
    0 < q.size.toNat ∧ pos.toNat = x.toNat % q.size.toNat := by
  unfold LockFreeQueue.modSize at h
  split at h
  · cases h
  · rename_i hne
    cases h
    refine ⟨Nat.pos_of_ne_zero fun h0 => hne (UInt32.toNat_inj.mp h0), UInt64.toNat_mod ..⟩

theorem putEntry_self {pos : UInt64} {e e' : QueueEntry α} (he : q.entries[pos.toNat]? = some e) :
    (q.putEntry pos e').entries[pos.toNat]? = some e' :=
  List.getElem?_set_self (List.getElem?_eq_some_iff.mp he).1

theorem putEntry_other {pos : UInt64} {e' : QueueEntry α} {j : Nat} (hj : j ≠ pos.toNat) :
    (q.putEntry pos e').entries[j]? = q.entries[j]? :=
  List.getElem?_set_ne hj.symm

/-- A put gets its position from the head that it read, if it still is the head. -/
theorem enqSwap_effect {val : α} {block : Bool} {oldHead oldTail : UInt64} (hord : q.tail ≤ q.head)
    (ht : oldTail ≤ q.tail) (h : advance q (.enqSwap val block oldHead oldTail) = some (q', b)) :
    Effect q (.enqSwap val block oldHead oldTail) q' b [] := by
  simp only [advance] at h
  split at h
  · split at h
    · split at h
      · rename_i hle hroom heq
        obtain ⟨pos, hpos, he⟩ := Option.map_eq_some_iff.mp h
        cases he
        subst heq
        refine .claimHead val pos rfl (modSize_eq hpos).2 ?_
        rw [gt_iff_lt, UInt64.lt_iff_toNat_lt, UInt64.toNat_sub_of_le _ _ hle,
          UInt32.toNat_toUInt64] at hroom
        rw [UInt64.le_iff_toNat_le] at ht hord
        omega
      · cases h
        exact .same _ rfl trivial
    · split at h <;> cases h <;> exact .same _ rfl trivial
  · rename_i hlt
    obtain ⟨newTail, -, he⟩ := Option.map_eq_some_iff.mp h
    split at he
    · -- the tail was read above the head, so the head has moved on since
      rename_i heq
      rw [← heq] at hlt
      exact absurd (UInt64.le_trans ht hord) hlt
    · cases he
      exact .same _ rfl trivial

theorem deqSwap_effect {block : Bool} {oldHead oldTail : UInt64} (hh : oldHead ≤ q.head)
    (h : advance q (.deqSwap block oldHead oldTail) = some (q', b)) :
    Effect q (.deqSwap block oldHead oldTail) q' b [] := by
  simp only [advance] at h
  split at h
  · split at h
    · rename_i hlt heq
      obtain ⟨pos, hpos, he⟩ := Option.map_eq_some_iff.mp h
      cases he
      subst heq
      refine .claimTail pos rfl (modSize_eq hpos).2 ?_
      rw [UInt64.lt_iff_toNat_lt] at hlt
      rw [UInt64.le_iff_toNat_le] at hh
      omega
    · cases h
      exact .same _ rfl trivial
  · split at h <;> cases h <;> exact .same _ rfl trivial

/-- A thread that has a position waits for its entry or takes its turn at it. -/
theorem entry_effect (ha : place a ≠ none) (hk : Knows q a) (h : advance q a = some (q', b)) :
    Effect q a q' b (completes a) := by
  cases a with
  | idle | enqHead | enqTail | enqSwap | enqRebase | deqHead | deqTail | deqSwap => exact absurd rfl ha
  | enqTake val pos =>
    obtain ⟨⟨flag, x⟩, he, hr⟩ := Option.map_eq_some_iff.mp h
    split at hr
    · rename_i hflag
      cases hr
      obtain rfl : flag = .null := hflag
      exact .entry _ pos .put (some .fill) _ _ [] rfl rfl he (.take x) hk
    · cases hr
      exact .same _ rfl hk
  | enqWrite val pos =>
    obtain ⟨⟨flag, x⟩, he, hr⟩ := Option.map_eq_some_iff.mp h
    cases hr
    refine .entry _ pos .fill (some .fill) _ _ [] rfl rfl he (.write flag x val) ⟨hk, fun e' he' => ?_⟩
    rw [putEntry_self he] at he'
    cases he'
    rfl
  | enqSet val pos =>
    obtain ⟨⟨flag, x⟩, he, hr⟩ := Option.map_eq_some_iff.mp h
    cases hr
    obtain rfl := hk.2 _ he
    exact .entry _ pos .fill none _ _ _ rfl rfl he (.set flag x) trivial
  | deqTake pos =>
    obtain ⟨⟨flag, x⟩, he, hr⟩ := Option.map_eq_some_iff.mp h
    split at hr
    · rename_i hflag
      cases hr
      obtain rfl : flag = .seted := hflag
      exact .entry _ pos .get (some .clear) _ _ [] rfl rfl he (.grab x) hk
    · cases hr
      exact .same _ rfl hk
  | deqRead pos =>
    obtain ⟨⟨flag, x⟩, he, hr⟩ := Option.map_eq_some_iff.mp h
    cases hr
    refine .same _ rfl ⟨hk, fun e' he' => ?_⟩
    rw [he] at he'
    cases he'
    rfl
  | deqClear pos val =>
    obtain ⟨⟨flag, x⟩, he, hr⟩ := Option.map_eq_some_iff.mp h
    cases hr
    obtain rfl := hk.2 _ he
    exact .entry _ pos .clear none _ _ _ rfl rfl he (.clear flag x) trivial

theorem advance_effect (hord : q.tail ≤ q.head) (hk : Knows q a) (h : advance q a = some (q', b)) :
    Effect q a q' b (completes a) := by
  cases a with
  | idle => cases h
  | enqHead | deqHead =>
    cases h
    exact .same _ rfl (UInt64.le_refl _)
  | enqTail | deqTail =>
    cases h
    exact .same _ rfl ⟨hk, UInt64.le_refl _⟩
  | enqSwap => exact enqSwap_effect hord hk.2 h
  | enqRebase => exact hk.elim
  | deqSwap => exact deqSwap_effect hk.1 h
  | enqTake | enqWrite | enqSet | deqTake | deqRead | deqClear =>
    exact entry_effect (Option.some_ne_none _) hk h

end

/-! ## The invariant -/

section

variable [Fintype θ]

/-- The number of threads at a stage with the position `j`. -/
def threads (s : QueueThreads θ α) (st : Stage) (j : Nat) : Nat :=
  census (fun a => place a = some (st, j)) s.pc

/-- The threads at an entry with the flag `f`, for which `h` tickets to put and `t` tickets to get
were dealt out. -/
structure Tally (c : Stage → Nat) (f : QueueFlag) (t h : Nat) : Prop where
  filling : c .fill = if f = .setTook then 1 else 0
  clearing : c .clear = if f = .getTook then 1 else 0
  owed : c .put + (if f = .setTook ∨ f = .seted then 1 else 0) + t = c .get + h

structure Sound (n : UInt32) (s : QueueThreads θ α) : Prop where
  inited : s.queue.inited = true
  size : s.queue.size = n
  entries : s.queue.entries.length = n.toNat + 1
  order : s.queue.tail ≤ s.queue.head
  room : s.queue.head.toNat ≤ s.queue.tail.toNat + n.toNat
  knows : ∀ i, Knows s.queue (s.pc i)
  tally : ∀ j e, s.queue.entries[j]? = some e → Tally (fun st => s.threads st j) e.flag
    (Nat.count (· % n.toNat = j) s.queue.tail.toNat) (Nat.count (· % n.toNat = j) s.queue.head.toNat)

variable {n : UInt32} {s : QueueThreads θ α}

theorem Sound.entry (h : s.Sound n) {i : θ} {st : Stage} {j : Nat} (hi : place (s.pc i) = some (st, j)) :
    j < n.toNat ∧ ∃ e, s.queue.entries[j]? = some e := by
  have hlt : j < n.toNat := by
    have hk := h.knows i
    rw [← h.size]
    cases hpc : s.pc i <;> rw [hpc] at hi hk <;> cases hi
    · exact hk
    · exact hk
    · exact hk.1
    · exact hk
    · exact hk
    · exact hk.1
  have hlen : j < s.queue.entries.length := by
    rw [h.entries]
    omega
  exact ⟨hlt, _, List.getElem?_eq_getElem hlen⟩

theorem Tally.fills {c : Stage → Nat} {f : QueueFlag} {t h : Nat} (hc : Tally c f t h)
    (hpos : 0 < c .fill) : f = .setTook ∧ c .fill = 1 := by
  have hcount := hc.filling
  by_cases hf : f = .setTook
  · exact ⟨hf, by rw [hcount, if_pos hf]⟩
  · rw [if_neg hf] at hcount
    omega

theorem Tally.clears {c : Stage → Nat} {f : QueueFlag} {t h : Nat} (hc : Tally c f t h)
    (hpos : 0 < c .clear) : f = .getTook ∧ c .clear = 1 := by
  have hcount := hc.clearing
  by_cases hf : f = .getTook
  · exact ⟨hf, by rw [hcount, if_pos hf]⟩
  · rw [if_neg hf] at hcount
    omega

theorem Tally.turn {c c' : Stage → Nat} {t h : Nat} {st : Stage} {st' : Option Stage}
    {e e' : QueueEntry α} {ev : List (QueueDone α)} (hc : Tally c e.flag t h)
    (ht : Turn st e st' e' ev) (hpos : 0 < c st)
    (hmove : ∀ st'', c' st'' + (if st = st'' then 1 else 0) =
      c st'' + if st' = some st'' then 1 else 0) : Tally c' e'.flag t h := by
  have hput := hmove .put
  have hfill := hmove .fill
  have hget := hmove .get
  have hclear := hmove .clear
  obtain ⟨filling, clearing, owed⟩ := hc
  cases ht with
  | take x =>
    simp at hput hfill hget hclear filling clearing owed
    exact ⟨by simp; omega, by simp; omega, by simp; omega⟩
  | write f x y =>
    simp at hput hfill hget hclear
    exact ⟨by rw [hfill, filling], by rw [hclear, clearing], by rw [hput, hget, owed]⟩
  | set f x =>
    obtain ⟨rfl, -⟩ := Tally.fills ⟨filling, clearing, owed⟩ hpos
    simp at hput hfill hget hclear filling clearing owed
    exact ⟨by simp; omega, by simp; omega, by simp; omega⟩
  | grab x =>
    simp at hput hfill hget hclear filling clearing owed
    exact ⟨by simp; omega, by simp; omega, by simp; omega⟩
  | clear f x =>
    obtain ⟨rfl, -⟩ := Tally.clears ⟨filling, clearing, owed⟩ hpos
    simp at hput hfill hget hclear filling clearing owed
    exact ⟨by simp; omega, by simp; omega, by simp; omega⟩

/-- One thread at a time has an entry. -/
theorem Sound.alone (h : s.Sound n) {i k : θ} {st st' : Stage} {j : Nat}
    (hst : st = .fill ∨ st = .clear) (hst' : st' = .fill ∨ st' = .clear)
    (hi : place (s.pc i) = some (st, j)) (hk : place (s.pc k) = some (st', j)) : i = k := by
  obtain ⟨-, e, he⟩ := h.entry hi
  have ht := h.tally j e he
  have hone : ∀ {i : θ} {st : Stage}, place (s.pc i) = some (st, j) → 0 < s.threads st j :=
    fun hi => census_pos.mpr ⟨_, hi⟩
  rcases hst with rfl | rfl <;> rcases hst' with rfl | rfl
  · exact census_unique (Nat.le_of_eq (ht.fills (hone hi)).2) hi hk
  · have hflag := (ht.fills (hone hi)).1
    rw [(ht.clears (hone hk)).1] at hflag
    cases hflag
  · have hflag := (ht.clears (hone hi)).1
    rw [(ht.fills (hone hk)).1] at hflag
    cases hflag
  · exact census_unique (Nat.le_of_eq (ht.clears (hone hi)).2) hi hk

theorem Turn.data {st : Stage} {st' : Option Stage} {e e' : QueueEntry α} {ev : List (QueueDone α)}
    (h : Turn st e st' e' ev) : e'.data = e.data ∨ st = .fill := by
  cases h with
  | write => exact .inr rfl
  | _ => exact .inl rfl

/-- What a thread knows does not depend on entries it does not have. -/
theorem Knows.mono {q q' : LockFreeQueue α} {a : QueuePc α} (hk : Knows q a) (hsize : q'.size = q.size)
    (hhead : q.head ≤ q'.head) (htail : q.tail ≤ q'.tail)
    (hdata : ∀ j e', (place a = some (.fill, j) ∨ place a = some (.clear, j)) →
      q'.entries[j]? = some e' → ∃ e, q.entries[j]? = some e ∧ e'.data = e.data) : Knows q' a := by
  cases a with
  | idle | enqHead | deqHead => trivial
  | enqTail | deqTail => exact UInt64.le_trans hk hhead
  | enqSwap | deqSwap => exact ⟨UInt64.le_trans hk.1 hhead, UInt64.le_trans hk.2 htail⟩
  | enqRebase => exact hk
  | enqTake | enqWrite | deqTake | deqRead =>
    simp only [Knows, hsize]
    exact hk
  | enqSet val pos =>
    refine ⟨hsize ▸ hk.1, fun e' he' => ?_⟩
    obtain ⟨e, he, hd⟩ := hdata _ e' (.inl rfl) he'
    rw [hd, hk.2 e he]
  | deqClear pos val =>
    refine ⟨hsize ▸ hk.1, fun e' he' => ?_⟩
    obtain ⟨e, he, hd⟩ := hdata _ e' (.inr rfl) he'
    rw [hd, hk.2 e he]

variable [DecidableEq θ]

theorem threads_update (q : LockFreeQueue α) (i : θ) (b : QueuePc α) (st : Stage) (j : Nat) :
    (⟨q, Function.update s.pc i b⟩ : QueueThreads θ α).threads st j +
        (if place (s.pc i) = some (st, j) then 1 else 0) =
      s.threads st j + if place b = some (st, j) then 1 else 0 :=
  census_update s.pc i b

theorem threads_other {q : LockFreeQueue α} {i : θ} {b : QueuePc α} {st : Stage} {j : Nat}
    (ha : ∀ st, place (s.pc i) ≠ some (st, j)) (hb : ∀ st, place b ≠ some (st, j)) :
    (⟨q, Function.update s.pc i b⟩ : QueueThreads θ α).threads st j = s.threads st j := by
  have h := threads_update (s := s) q i b st j
  rwa [if_neg (ha st), if_neg (hb st)] at h

omit [Fintype θ] in
theorem knows_update {q' : LockFreeQueue α} {i : θ} {b : QueuePc α} (hb : Knows q' b)
    (hrest : ∀ k, k ≠ i → Knows q' (s.pc k)) (k : θ) : Knows q' (Function.update s.pc i b k) := by
  by_cases hki : k = i
  · rw [hki, Function.update_self]
    exact hb
  · rw [Function.update_of_ne hki]
    exact hrest k hki

theorem threads_claim {q : LockFreeQueue α} {i : θ} {b : QueuePc α} {st : Stage} {j : Nat}
    (ha : place (s.pc i) = none) (hb : place b = some (st, j)) (st' : Stage) (k : Nat) :
    (⟨q, Function.update s.pc i b⟩ : QueueThreads θ α).threads st' k =
      s.threads st' k + if st' = st ∧ j = k then 1 else 0 := by
  have hu := threads_update (s := s) q i b st' k
  rw [ha, if_neg (by rintro ⟨⟩), Nat.add_zero] at hu
  rw [hu, hb]
  simp only [Option.some.injEq, Prod.mk.injEq, eq_comm]

theorem Sound.claimHead (h : s.Sound n) {i : θ} {val : α} {pos : UInt64} (ha : place (s.pc i) = none)
    (hpos : pos.toNat = s.queue.head.toNat % s.queue.size.toNat)
    (hroom : s.queue.head.toNat < s.queue.tail.toNat + s.queue.size.toNat) (hn : 0 < n.toNat)
    (hw : s.queue.head ≤ s.queue.head + 1) :
    Sound n ⟨{ s.queue with head := s.queue.head + 1 }, Function.update s.pc i (.enqTake val pos)⟩ := by
  rw [h.size] at hpos hroom
  have hnext : (s.queue.head + 1).toNat = s.queue.head.toNat + 1 := by
    have hlt := s.queue.head.toNat_lt
    rw [UInt64.le_iff_toNat_le, UInt64.toNat_add, UInt64.toNat_one] at hw
    rw [UInt64.toNat_add, UInt64.toNat_one]
    omega
  exact {
    inited := h.inited
    size := h.size
    entries := h.entries
    order := UInt64.le_trans h.order hw
    room := by
      show (s.queue.head + 1).toNat ≤ _
      rw [hnext]
      exact hroom
    knows := knows_update
      (by
        show pos.toNat < s.queue.size.toNat
        rw [hpos, h.size]
        exact Nat.mod_lt _ hn)
      fun k _ => (h.knows k).mono rfl hw (UInt64.le_refl _) fun j e' _ he' => ⟨e', he', rfl⟩
    tally := fun j e he => by
      obtain ⟨filling, clearing, owed⟩ := h.tally j e he
      have hcount := threads_claim (q := { s.queue with head := s.queue.head + 1 }) (b := .enqTake val pos)
        ha rfl
      show Tally _ _ _ (Nat.count _ (s.queue.head + 1).toNat)
      rw [hnext, Nat.count_succ]
      simp only [hcount, hpos]
      exact ⟨by simpa using filling, by simpa using clearing, by simp; omega⟩ }

theorem Sound.claimTail (h : s.Sound n) {i : θ} {pos : UInt64} (ha : place (s.pc i) = none)
    (hpos : pos.toNat = s.queue.tail.toNat % s.queue.size.toNat)
    (hsome : s.queue.tail.toNat < s.queue.head.toNat) (hn : 0 < n.toNat) :
    Sound n ⟨{ s.queue with tail := s.queue.tail + 1 }, Function.update s.pc i (.deqTake pos)⟩ := by
  rw [h.size] at hpos
  have hnext : (s.queue.tail + 1).toNat = s.queue.tail.toNat + 1 := by
    have hlt := s.queue.head.toNat_lt
    rw [UInt64.toNat_add, UInt64.toNat_one]
    omega
  exact {
    inited := h.inited
    size := h.size
    entries := h.entries
    order := by
      show s.queue.tail + 1 ≤ s.queue.head
      rw [UInt64.le_iff_toNat_le, hnext]
      exact hsome
    room := by
      show _ ≤ (s.queue.tail + 1).toNat + _
      rw [hnext]
      exact Nat.le_trans h.room (by omega)
    knows := knows_update
      (by
        show pos.toNat < s.queue.size.toNat
        rw [hpos, h.size]
        exact Nat.mod_lt _ hn)
      fun k _ => (h.knows k).mono rfl (UInt64.le_refl _)
        (by
          show s.queue.tail ≤ s.queue.tail + 1
          rw [UInt64.le_iff_toNat_le, hnext]
          exact Nat.le_succ _)
        fun j e' _ he' => ⟨e', he', rfl⟩
    tally := fun j e he => by
      obtain ⟨filling, clearing, owed⟩ := h.tally j e he
      have hcount := threads_claim (q := { s.queue with tail := s.queue.tail + 1 }) (b := .deqTake pos)
        ha rfl
      show Tally _ _ (Nat.count _ (s.queue.tail + 1).toNat) _
      rw [hnext, Nat.count_succ]
      simp only [hcount, hpos]
      exact ⟨by simpa using filling, by simpa using clearing, by simp; omega⟩ }

theorem threads_turn {q : LockFreeQueue α} {i : θ} {b : QueuePc α} {st : Stage} {st' : Option Stage}
    {j : Nat} (ha : place (s.pc i) = some (st, j)) (hb : place b = st'.map fun st' => (st', j))
    (st'' : Stage) :
    (⟨q, Function.update s.pc i b⟩ : QueueThreads θ α).threads st'' j + (if st = st'' then 1 else 0) =
      s.threads st'' j + if st' = some st'' then 1 else 0 := by
  have hu := threads_update (s := s) q i b st'' j
  rw [ha, hb] at hu
  simpa using hu

theorem Sound.turn (h : s.Sound n) {i : θ} {b : QueuePc α} {pos : UInt64} {st : Stage}
    {st' : Option Stage} {e e' : QueueEntry α} {ev : List (QueueDone α)}
    (ha : place (s.pc i) = some (st, pos.toNat)) (hb : place b = st'.map fun st' => (st', pos.toNat))
    (he : s.queue.entries[pos.toNat]? = some e) (ht : Turn st e st' e' ev)
    (hk : Knows (s.queue.putEntry pos e') b) :
    Sound n ⟨s.queue.putEntry pos e', Function.update s.pc i b⟩ := by
  have hfar : ∀ st'' j, j ≠ pos.toNat →
      (⟨s.queue.putEntry pos e', Function.update s.pc i b⟩ : QueueThreads θ α).threads st'' j =
        s.threads st'' j := fun st'' j hj => by
    refine threads_other (fun st₀ hc => ?_) fun st₀ hc => ?_
    · rw [ha] at hc
      cases hc
      exact hj rfl
    · rw [hb] at hc
      cases st' <;> cases hc
      exact hj rfl
  exact {
    inited := h.inited
    size := h.size
    entries := by
      show (s.queue.entries.set _ _).length = _
      rw [List.length_set, h.entries]
    order := h.order
    room := h.room
    knows := knows_update hk fun k hki => by
      refine (h.knows k).mono rfl (UInt64.le_refl _) (UInt64.le_refl _) fun j e₁ hplace he₁ => ?_
      by_cases hj : j = pos.toNat
      · subst hj
        rw [putEntry_self he] at he₁
        cases he₁
        refine ⟨e, he, ht.data.resolve_right fun hst => hki ?_⟩
        subst hst
        rcases hplace with hp | hp
        · exact h.alone (.inl rfl) (.inl rfl) hp ha
        · exact h.alone (.inr rfl) (.inl rfl) hp ha
      · rw [putEntry_other hj] at he₁
        exact ⟨e₁, he₁, rfl⟩
    tally := fun j e₁ he₁ => by
      by_cases hj : j = pos.toNat
      · subst hj
        rw [putEntry_self he] at he₁
        cases he₁
        exact (h.tally _ e he).turn ht (census_pos.mpr ⟨i, ha⟩) (threads_turn ha hb)
      · rw [putEntry_other hj] at he₁
        simp only [hfar _ _ hj]
        exact h.tally j e₁ he₁ }

theorem Sound.effect (h : s.Sound n) (hn : 0 < n.toNat) {i : θ} {q' : LockFreeQueue α} {b : QueuePc α}
    {ev : List (QueueDone α)} (he : Effect s.queue (s.pc i) q' b ev) (hw : s.queue.head ≤ q'.head) :
    Sound n ⟨q', Function.update s.pc i b⟩ := by
  cases he with
  | same _ hp hk =>
    have hcount : ∀ st j, (⟨s.queue, Function.update s.pc i b⟩ : QueueThreads θ α).threads st j =
        s.threads st j := fun st j => by
      have hu := threads_update (s := s) s.queue i b st j
      rw [hp] at hu
      exact Nat.add_right_cancel hu
    exact ⟨h.inited, h.size, h.entries, h.order, h.room, knows_update hk fun k _ => h.knows k,
      fun j e he => by
        simp only [hcount]
        exact h.tally j e he⟩
  | claimHead val pos ha hpos hroom => exact h.claimHead ha hpos hroom hn hw
  | claimTail pos ha hpos hsome => exact h.claimTail ha hpos hsome hn
  | entry _ pos st st' e e' _ ha hb he ht hk => exact h.turn ha hb he ht hk

/-- A step of the system is one of a thread, or a call that starts. -/
theorem Sound.step (h : s.Sound n) {l : QueueAct θ α} {s' : QueueThreads θ α} (hst : step s l = some s') :
    ∃ i q' b, Effect s.queue (s.pc i) q' b (done s l) ∧ s' = ⟨q', Function.update s.pc i b⟩ := by
  cases l with
  | enqueue i val block =>
    simp only [QueueThreads.step, h.inited, if_true] at hst
    split at hst
    · rename_i hidle
      cases hst
      exact ⟨i, _, _, .same (.enqHead val block) (by rw [hidle]; rfl) trivial, rfl⟩
    · cases hst
  | dequeue i block =>
    simp only [QueueThreads.step, h.inited, if_true] at hst
    split at hst
    · rename_i hidle
      cases hst
      exact ⟨i, _, _, .same (.deqHead block) (by rw [hidle]; rfl) trivial, rfl⟩
    · cases hst
  | run i =>
    obtain ⟨⟨q', b⟩, ha, rfl⟩ := Option.map_eq_some_iff.mp hst
    exact ⟨i, q', b, advance_effect h.order (h.knows i) ha, rfl⟩

/-! ## What is inside -/

/-- The items put in, and those taken out. -/
def puts (r : List (QueueDone α)) : List α := r.filterMap fun
  | .put val => some val
  | .got _ => none

def gots (r : List (QueueDone α)) : List α := r.filterMap fun
  | .put _ => none
  | .got val => some val

/-- The item of an entry, from when it was filled until it is cleared. -/
def heldIn (e : QueueEntry α) : Option α := if e.flag = .seted ∨ e.flag = .getTook then some e.data else none

def held (s : QueueThreads θ α) : List α := s.queue.entries.filterMap heldIn

/-- What was taken out, with what is inside, is what was put in. -/
def Bag (s : QueueThreads θ α × List (QueueDone α)) : Prop := (gots s.2 ++ s.1.held).Perm (puts s.2)

theorem Turn.held {st : Stage} {st' : Option Stage} {e e' : QueueEntry α} {ev : List (QueueDone α)}
    (h : Turn st e st' e' ev) (hfill : st = .fill → e.flag = .setTook)
    (hclear : st = .clear → e.flag = .getTook) :
    (heldIn e).toList ++ puts ev = (heldIn e').toList ++ gots ev := by
  cases h with
  | take x | grab x => rfl
  | write f x y | set f x =>
    obtain rfl : f = .setTook := hfill rfl
    rfl
  | clear f x =>
    obtain rfl : f = .getTook := hclear rfl
    rfl

open scoped List in
omit [DecidableEq θ] in
theorem Sound.bag_effect (h : s.Sound n) {i : θ} {q' : LockFreeQueue α} {b : QueuePc α}
    {ev : List (QueueDone α)} (he : Effect s.queue (s.pc i) q' b ev) (pc' : θ → QueuePc α) :
    gots ev ++ (⟨q', pc'⟩ : QueueThreads θ α).held ~ s.held ++ puts ev := by
  cases he with
  | same | claimHead | claimTail =>
    rw [puts, List.filterMap_nil, List.append_nil]
    exact List.Perm.refl _
  | entry _ pos st st' e e' _ ha hb he ht hk =>
    have hone : ∀ {st : Stage}, place (s.pc i) = some (st, pos.toNat) → 0 < s.threads st pos.toNat :=
      fun hi => census_pos.mpr ⟨i, hi⟩
    have htally := h.tally _ e he
    have hev := ht.held (fun hst => (htally.fills (hone (hst ▸ ha))).1)
      fun hst => (htally.clears (hone (hst ▸ ha))).1
    -- what the entry held before is on both sides
    refine (List.perm_append_right_iff (heldIn e).toList).mp ?_
    calc gots ev ++ (s.queue.entries.set pos.toNat e').filterMap heldIn ++ (heldIn e).toList
      _ = gots ev ++ ((s.queue.entries.set pos.toNat e').filterMap heldIn ++ (heldIn e).toList) :=
        List.append_assoc ..
      _ ~ gots ev ++ (s.held ++ (heldIn e').toList) := (perm_set heldIn e' he).append_left _
      _ ~ s.held ++ (heldIn e').toList ++ gots ev := List.perm_append_comm
      _ = s.held ++ ((heldIn e).toList ++ puts ev) := by rw [List.append_assoc, hev]
      _ ~ s.held ++ (puts ev ++ (heldIn e).toList) := List.perm_append_comm.append_left _
      _ = s.held ++ puts ev ++ (heldIn e).toList := (List.append_assoc ..).symm

variable {zero : α} {size : UInt32}

open scoped List in
theorem sound_inductive (zero : α) (hsize : 0 < size) (hwrap : size.toNat + 1 < 2 ^ 32) :
    ((system (θ := θ) zero size).restrict NoWrap).Inductive fun s => s.1.Sound size ∧ Bag s where
  init s hs := by
    obtain ⟨⟨q, pc⟩, r⟩ := s
    obtain ⟨hq, rfl⟩ : _ ∧ r = [] := hs
    cases hq
    have hlen : (size + 1).toNat = size.toNat + 1 := by
      rw [UInt32.toNat_add, UInt32.toNat_one]
      exact Nat.mod_eq_of_lt hwrap
    have hentry : ∀ (j : Nat) (e : QueueEntry α),
        (LockFreeQueue.init zero .new size).2.entries[j]? = some e → e = ⟨.null, zero⟩ := fun j e he => by
      have hmem : e ∈ List.replicate (size + 1).toNat ⟨.null, zero⟩ := List.mem_of_getElem? he
      exact List.eq_of_mem_replicate hmem
    have hnone : ∀ st j, (⟨(LockFreeQueue.init zero .new size).2, fun _ => .idle⟩ :
        QueueThreads θ α).threads st j = 0 := fun st j => census_zero fun i hi => by cases hi
    refine ⟨⟨rfl, rfl, ?_, UInt64.le_refl _, Nat.zero_le _, fun _ => trivial, fun j e he => ?_⟩, ?_⟩
    · show (List.replicate (size + 1).toNat _).length = _
      rw [List.length_replicate, hlen]
    · obtain rfl := hentry j e he
      simp only [hnone]
      exact ⟨rfl, rfl, rfl⟩
    · show gots [] ++ (List.replicate (size + 1).toNat _).filterMap heldIn ~ []
      rw [List.filterMap_replicate_of_none rfl]
      exact List.Perm.refl _
  step s l s' h hs := by
    obtain ⟨⟨hsound, hbag⟩, hst, hw⟩ := And.intro h hs
    obtain ⟨hst, hr⟩ := LTS.recorded_eq hst
    obtain ⟨i, q', b, he, hs'⟩ := hsound.step hst
    obtain ⟨_, r'⟩ := s'
    obtain rfl : _ = _ := hs'
    obtain rfl : r' = _ := hr
    refine ⟨hsound.effect (LockFreeQueue.toNat_toUInt64_pos hsize).2 he hw, ?_⟩
    have heff := hsound.bag_effect he (Function.update s.1.pc i b)
    unfold Bag at hbag ⊢
    unfold gots puts at hbag heff ⊢
    rw [List.filterMap_append, List.filterMap_append, List.append_assoc]
    calc _ ~ _ := heff.append_left _
      _ = _ := (List.append_assoc ..).symm
      _ ~ _ := hbag.append_right _

variable {r : List (QueueDone α)}

theorem sound_of_reachable (hsize : 0 < size) (hwrap : size.toNat + 1 < 2 ^ 32)
    (h : ((system zero size).restrict NoWrap).Reachable (s, r)) : s.Sound size ∧ Bag (s, r) :=
  (sound_inductive zero hsize hwrap).reachable _ h

/-- Runs two threads on a queue of one entry, as long as the head does not wrap. -/
def guarded (acts : List (QueueAct Bool Nat)) : Option (QueueThreads Bool Nat × List (QueueDone Nat)) :=
  LTS.exec (fun s l => (LTS.recorded step done s l).filter fun s' => s.1.queue.head ≤ s'.1.queue.head)
    (⟨(LockFreeQueue.init 0 .new 1).2, fun _ => .idle⟩, []) acts

theorem guarded_reachable {acts : List (QueueAct Bool Nat)}
    {s : QueueThreads Bool Nat × List (QueueDone Nat)} (h : guarded acts = some s) :
    ((system 0 1).restrict NoWrap).Reachable (s.1, s.2) :=
  ⟨_, _, ⟨rfl, rfl⟩, LTS.run_of_guarded (f := LTS.recorded step done)
    (g := fun s _ s' => s.1.queue.head ≤ s'.1.queue.head) (fun _ _ _ _ hg => of_decide_eq_true hg) h⟩

/-- `false` puts an item. -/
def putsOne : List (QueueAct Bool Nat) :=
  [.enqueue false 7 false, .run false, .run false, .run false, .run false, .run false, .run false]

/-- `false` puts an item, `true` is about to clear its entry, and `false` waits for it with
another item. -/
def busy? : Option (QueueThreads Bool Nat × List (QueueDone Nat)) :=
  guarded (putsOne ++ [.dequeue true false, .run true, .run true, .run true, .run true,
    .enqueue false 8 false, .run false, .run false, .run false, .run true, .run false])

theorem busy_some : busy?.isSome = true := by decide +kernel

def busy : QueueThreads Bool Nat × List (QueueDone Nat) := busy?.get busy_some

theorem busy_reachable : ((system 0 1).restrict NoWrap).Reachable (busy.1, busy.2) :=
  guarded_reachable (Option.some_get busy_some).symm

/-- While a thread fills or clears an entry no other one does. -/
theorem one_at_a_time (hsize : 0 < size) (hwrap : size.toNat + 1 < 2 ^ 32)
    (h : ((system zero size).restrict NoWrap).Reachable (s, r)) {i k : θ} (hne : i ≠ k) {st : Stage} {j : Nat}
    (hst : st = .fill ∨ st = .clear) (hi : place (s.pc i) = some (st, j)) :
    place (s.pc k) ≠ some (.fill, j) ∧ place (s.pc k) ≠ some (.clear, j) := by
  have hs := (sound_of_reachable hsize hwrap h).1
  exact ⟨fun hk => hne (hs.alone hst (.inl rfl) hi hk), fun hk => hne (hs.alone hst (.inr rfl) hi hk)⟩

/-- `true` clears the only entry. -/
theorem one_at_a_time_two :
    place (busy.1.pc false) ≠ some (.fill, 0) ∧ place (busy.1.pc false) ≠ some (.clear, 0) :=
  one_at_a_time (i := true) (by decide) (by decide) busy_reachable (by decide) (.inr rfl)
    (show place (busy.1.pc true) = some (.clear, 0) by decide +kernel)

/-- No item is lost, made up or given out twice. -/
theorem bag (hsize : 0 < size) (hwrap : size.toNat + 1 < 2 ^ 32)
    (h : ((system zero size).restrict NoWrap).Reachable (s, r)) : (gots r ++ s.held).Perm (puts r) :=
  (sound_of_reachable hsize hwrap h).2

theorem bag_two : (gots busy.2 ++ busy.1.held).Perm (puts busy.2) :=
  bag (by decide) (by decide) busy_reachable

/-- The counters never cross. No thread gets to start them over, since the compare-and-swap of
the head before it fails, and a thread that is about to be told `RT_FULL` reads the tail of a
full queue. -/
theorem counters (hsize : 0 < size) (hwrap : size.toNat + 1 < 2 ^ 32)
    (h : ((system (θ := θ) zero size).restrict NoWrap).Reachable (s, r)) :
    s.queue.tail ≤ s.queue.head ∧ s.queue.head.toNat ≤ s.queue.tail.toNat + size.toNat ∧
      ∀ i, (∀ val block oldTail newTail, s.pc i ≠ .enqRebase val block oldTail newTail) ∧
        ∀ val block oldHead, s.pc i = .enqTail val block oldHead → s.queue.tail ≤ oldHead →
          ¬ s.queue.size.toUInt64 > oldHead - s.queue.tail →
          s.queue.head.toNat = s.queue.tail.toNat + size.toNat := by
  have hs := (sound_of_reachable hsize hwrap h).1
  refine ⟨hs.order, hs.room, fun i => ⟨fun val block oldTail newTail hpc => ?_, ?_⟩⟩
  · have hk := hs.knows i
    rw [hpc] at hk
    exact hk
  · intro val block oldHead hpc hle hfull
    have hk := hs.knows i
    rw [hpc] at hk
    have hk : oldHead.toNat ≤ s.queue.head.toNat := UInt64.le_iff_toNat_le.mp hk
    rw [gt_iff_lt, UInt64.lt_iff_toNat_lt, UInt64.toNat_sub_of_le _ _ hle, UInt32.toNat_toUInt64,
      hs.size] at hfull
    rw [UInt64.le_iff_toNat_le] at hle
    have := hs.room
    omega

/-- `true` has read the head of a full queue. -/
def full? : Option (QueueThreads Bool Nat × List (QueueDone Nat)) :=
  guarded (putsOne ++ [.enqueue true 8 false, .run true])

theorem full_some : full?.isSome = true := by decide +kernel

def full : QueueThreads Bool Nat × List (QueueDone Nat) := full?.get full_some

theorem counters_two : full.1.queue.tail ≤ full.1.queue.head ∧
    full.1.queue.head.toNat ≤ full.1.queue.tail.toNat + 1 ∧
    full.1.queue.head.toNat = full.1.queue.tail.toNat + 1 := by
  obtain ⟨horder, hroom, hfull⟩ := counters (by decide) (by decide)
    (guarded_reachable (Option.some_get full_some).symm)
  exact ⟨horder, hroom, (hfull true).2 8 false 1 (by decide +kernel) (by decide +kernel) (by decide +kernel)⟩

/-! ## Every thread with a position can finish -/

/-- The steps a thread with a position has left. -/
def left : QueuePc α → Nat
  | .enqTake .. | .deqTake _ => 3
  | .enqWrite .. | .deqRead _ => 2
  | .enqSet .. | .deqClear .. => 1
  | _ => 0

/-- A thread that fills or clears an entry, or whose entry has the flag it waits for, goes on. -/
theorem goes_on {q : LockFreeQueue α} {a : QueuePc α} {st : Stage} {j : Nat} {e : QueueEntry α}
    (ha : place a = some (st, j)) (he : q.entries[j]? = some e) (hput : st = .put → e.flag = .null)
    (hget : st = .get → e.flag = .seted) :
    ∃ q' b, advance q a = some (q', b) ∧ left b < left a ∧ q'.head = q.head ∧ q'.tail = q.tail := by
  cases a with
  | idle | enqHead | enqTail | enqSwap | enqRebase | deqHead | deqTail | deqSwap => cases ha
  | enqTake val pos =>
    cases ha
    refine ⟨q.putEntry pos ⟨.setTook, e.data⟩, .enqWrite val pos, ?_, Nat.lt_succ_self _, rfl, rfl⟩
    rw [advance, he, Option.map_some, if_pos (hput rfl)]
  | enqWrite val pos =>
    cases ha
    refine ⟨q.putEntry pos ⟨e.flag, val⟩, .enqSet val pos, ?_, Nat.lt_succ_self _, rfl, rfl⟩
    rw [advance, he, Option.map_some]
  | enqSet val pos =>
    cases ha
    refine ⟨q.putEntry pos ⟨.seted, e.data⟩, .idle, ?_, Nat.lt_succ_self _, rfl, rfl⟩
    rw [advance, he, Option.map_some]
  | deqTake pos =>
    cases ha
    refine ⟨q.putEntry pos ⟨.getTook, e.data⟩, .deqRead pos, ?_, Nat.lt_succ_self _, rfl, rfl⟩
    rw [advance, he, Option.map_some, if_pos (hget rfl)]
  | deqRead pos =>
    cases ha
    refine ⟨q, .deqClear pos e.data, ?_, Nat.lt_succ_self _, rfl, rfl⟩
    rw [advance, he, Option.map_some]
  | deqClear pos val =>
    cases ha
    refine ⟨q.putEntry pos ⟨.null, e.data⟩, .idle, ?_, Nat.lt_succ_self _, rfl, rfl⟩
    rw [advance, he, Option.map_some]

omit [DecidableEq θ] in
/-- If a thread waits for an entry, some thread with that position goes on. -/
theorem Sound.some_moves (h : s.Sound n) {i : θ} {st : Stage} {j : Nat}
    (hi : place (s.pc i) = some (st, j)) :
    ∃ k st', place (s.pc k) = some (st', j) ∧ ∃ q' b, advance s.queue (s.pc k) = some (q', b) ∧
      left b < left (s.pc k) ∧ q'.head = s.queue.head ∧ q'.tail = s.queue.tail := by
  obtain ⟨-, e, he⟩ := h.entry hi
  obtain ⟨hfill, hclear, howed⟩ := h.tally j e he
  have hone : ∀ {c : Stage}, 0 < s.threads c j → ∃ k, place (s.pc k) = some (c, j) :=
    fun hc => census_pos.mp hc
  have hself : 0 < s.threads st j := census_pos.mpr ⟨i, hi⟩
  -- at most one ticket for the entry is between the counters
  have horder : Nat.count (· % n.toNat = j) s.queue.tail.toNat ≤
      Nat.count (· % n.toNat = j) s.queue.head.toNat :=
    Nat.count_monotone _ (UInt64.le_iff_toNat_le.mp h.order)
  have hroom : Nat.count (· % n.toNat = j) s.queue.head.toNat ≤
      Nat.count (· % n.toNat = j) s.queue.tail.toNat + 1 :=
    Nat.le_trans (Nat.count_monotone _ h.room) (count_window _ _ _)
  cases hflag : e.flag with
  | setTook =>
    rw [hflag, if_pos rfl] at hfill
    obtain ⟨k, hk⟩ := hone (c := .fill) (by omega)
    exact ⟨k, _, hk, goes_on hk he (fun hst => by cases hst) fun hst => by cases hst⟩
  | getTook =>
    rw [hflag, if_pos rfl] at hclear
    obtain ⟨k, hk⟩ := hone (c := .clear) (by omega)
    exact ⟨k, _, hk, goes_on hk he (fun hst => by cases hst) fun hst => by cases hst⟩
  | null =>
    rw [hflag, if_neg (by decide)] at hfill hclear howed
    obtain ⟨k, hk⟩ := hone (c := .put) (by cases st <;> omega)
    exact ⟨k, _, hk, goes_on hk he (fun _ => hflag) fun hst => by cases hst⟩
  | seted =>
    rw [hflag, if_neg (by decide)] at hfill hclear
    rw [hflag, if_pos (.inr rfl)] at howed
    obtain ⟨k, hk⟩ := hone (c := .get) (by cases st <;> omega)
    exact ⟨k, _, hk, goes_on hk he (fun hst => by cases hst) fun _ => hflag⟩

omit [DecidableEq θ] in
theorem Sound.held_length (h : s.Sound n) (hn : 0 < n.toNat) (hnone : ∀ i, place (s.pc i) = none) :
    s.held.length = s.queue.head.toNat - s.queue.tail.toNat := by
  have hzero : ∀ st j, s.threads st j = 0 := fun st j => census_zero fun i hi => by
    rw [hnone i] at hi
    cases hi
  have hcell : ∀ j ∈ Finset.range s.queue.entries.length, (s.queue.entries[j]?.bind heldIn).toList.length +
      Nat.count (· % n.toNat = j) s.queue.tail.toNat = Nat.count (· % n.toNat = j) s.queue.head.toNat := by
    intro j hj
    obtain ⟨e, he⟩ : ∃ e, s.queue.entries[j]? = some e :=
      ⟨_, List.getElem?_eq_getElem (Finset.mem_range.mp hj)⟩
    obtain ⟨hfill, hclear, howed⟩ := h.tally j e he
    simp only [hzero] at hfill hclear howed
    rw [he, Option.bind_some, heldIn]
    cases hf : e.flag with
    | setTook => rw [hf, if_pos rfl] at hfill; cases hfill
    | getTook => rw [hf, if_pos rfl] at hclear; cases hclear
    | null =>
      rw [hf, if_neg (by decide)] at howed
      rw [if_neg (by decide), Option.toList_none, List.length_nil]
      omega
    | seted =>
      rw [hf, if_pos (.inr rfl)] at howed
      rw [if_pos (.inl rfl), Option.toList_some, List.length_singleton]
      omega
  have hsum := Finset.sum_congr rfl hcell
  have hle : n.toNat ≤ s.queue.entries.length := by
    rw [h.entries]
    exact Nat.le_succ _
  rw [Finset.sum_add_distrib, sum_count hn hle, sum_count hn hle, ← length_filterMap] at hsum
  rw [held]
  omega

/-- The threads with a position can all finish, without the others. The counters then tell
the number of items. -/
theorem drains (hsize : 0 < size) (hwrap : size.toNat + 1 < 2 ^ 32)
    (h : ((system (θ := θ) zero size).restrict NoWrap).Reachable (s, r)) :
    ∃ ls s' r', ((system zero size).restrict NoWrap).Run (s, r) ls (s', r') ∧
      (∀ l ∈ ls, ∃ i, l = .run i ∧ place (s.pc i) ≠ none) ∧ (∀ i, place (s'.pc i) = none) ∧
      s'.queue.head = s.queue.head ∧ s'.queue.tail = s.queue.tail ∧
      s'.held.length = s.queue.head.toNat - s.queue.tail.toNat := by
  generalize hm : ∑ i, left (s.pc i) = m
  induction m using Nat.strongRecOn generalizing s r with
  | ind m ih =>
    subst hm
    have hs := (sound_of_reachable hsize hwrap h).1
    by_cases hall : ∀ i, place (s.pc i) = none
    · exact ⟨[], s, r, .nil _, fun _ hl => (List.not_mem_nil hl).elim, hall, rfl, rfl,
        hs.held_length (LockFreeQueue.toNat_toUInt64_pos hsize).2 hall⟩
    · obtain ⟨i, hi⟩ := not_forall.mp hall
      obtain ⟨⟨st, j⟩, hi⟩ := Option.ne_none_iff_exists'.mp hi
      obtain ⟨k, st', hk, q', b, hadv, hlt, hhead, htail⟩ := hs.some_moves hi
      have hst : ((system zero size).restrict NoWrap).step (s, r) (.run k)
          (⟨q', Function.update s.pc k b⟩, r ++ completes (s.pc k)) := by
        refine ⟨?_, UInt64.le_iff_toNat_le.mpr (Nat.le_of_eq (congrArg _ hhead.symm))⟩
        simp only [system, LTS.withRecord, LTS.ofFn, LTS.recorded, QueueThreads.step, hadv, Option.map_some,
          done]
      obtain ⟨ls, s', r', hrun, hls, hnone, hh, ht, hlen⟩ := ih _ (sum_update_lt left s.pc hlt) (h.step hst) rfl
      refine ⟨.run k :: ls, s', r', .cons hst hrun, ?_, hnone, hh.trans hhead, ht.trans htail, ?_⟩
      · intro l hl
        rcases List.mem_cons.mp hl with rfl | hl
        · exact ⟨k, rfl, by rw [hk]; exact Option.some_ne_none _⟩
        · obtain ⟨i, rfl, hi⟩ := hls l hl
          refine ⟨i, rfl, ?_⟩
          by_cases hik : i = k
          · rw [hik, hk]
            exact Option.some_ne_none _
          · change place (Function.update s.pc k b i) ≠ none at hi
            rwa [Function.update_of_ne hik] at hi
      · rw [hlen]
        show q'.head.toNat - q'.tail.toNat = _
        rw [hhead, htail]

/-- The item of the thread that waits is the one that stays. -/
theorem drains_two : ∃ s' : QueueThreads Bool Nat, (∀ i, place (s'.pc i) = none) ∧ s'.held.length = 1 := by
  obtain ⟨_, s', _, _, _, hnone, _, _, hlen⟩ := drains (by decide) (by decide) busy_reachable
  exact ⟨s', hnone, hlen.trans (by decide +kernel)⟩

end

/-! ## A call that nobody interrupts -/

section

variable [DecidableEq θ] {zero : α} {size : UInt32}

/-- By steps of its own alone a thread gets from `a` to `b`. -/
def Goes (zero : α) (size : UInt32) (i : θ) (q : LockFreeQueue α) (a : QueuePc α) (q' : LockFreeQueue α)
    (b : QueuePc α) (ev : List (QueueDone α)) : Prop :=
  ∀ (pc : θ → QueuePc α) (r : List (QueueDone α)), ∃ ls, (∀ l ∈ ls, l = .run i) ∧
    (system zero size).Run (⟨q, Function.update pc i a⟩, r) ls (⟨q', Function.update pc i b⟩, r ++ ev)

variable {i : θ} {q q' q₁ : LockFreeQueue α} {a b c : QueuePc α} {ev : List (QueueDone α)}

theorem Goes.refl : Goes zero size i q a q a [] := fun pc r =>
  ⟨[], fun _ hl => (List.not_mem_nil hl).elim, by rw [List.append_nil]; exact .nil _⟩

theorem Goes.cons (h : advance q a = some (q₁, b)) (hg : Goes zero size i q₁ b q' c ev) :
    Goes zero size i q a q' c (completes a ++ ev) := by
  intro pc r
  obtain ⟨ls, hls, hrun⟩ := hg pc (r ++ completes a)
  rw [List.append_assoc] at hrun
  refine ⟨.run i :: ls, fun l hl => (List.mem_cons.mp hl).elim id (hls l), .cons ?_ hrun⟩
  simp only [system, LTS.withRecord, LTS.ofFn, LTS.recorded, QueueThreads.step, done, Function.update_self, h,
    Option.map_some, Function.update_idem]

theorem Goes.trans {ev' : List (QueueDone α)} (h : Goes zero size i q a q₁ b ev)
    (h' : Goes zero size i q₁ b q' c ev') : Goes zero size i q a q' c (ev ++ ev') := by
  intro pc r
  obtain ⟨ls, hls, hrun⟩ := h pc r
  obtain ⟨ls', hls', hrun'⟩ := h' pc (r ++ ev)
  rw [List.append_assoc] at hrun'
  exact ⟨ls ++ ls', fun l hl => (List.mem_append.mp hl).elim (hls l) (hls' l), hrun.append hrun'⟩

end

end QueueThreads
end Quarrel
