import Quarrel.Core.Bytes
import Quarrel.L1Data.Ptype

/-!
# The stored form of an entry (`core/plog.cpp:7-60`)

An entry is stored as a raw header, the accepted proposal and the promised one. A
proposal that is not there, and a promise beside a vote, is stored as the dummy. The
fields have the widths of the packed structs here, and proposals are blocks of memory.

`UnserializeFrom` reads through pointers into the string. What it reads is listed, and
what lies behind the string is a parameter.

* `roundTrip_iff`: an entry comes back as the acceptor knows it exactly if it has an
  accepted proposal, for the dummy is read back as a proposal.
* `decodesSafely_iff`: which byte strings are decoded inside their bounds.
-/
namespace Quarrel

/-- A block as `AllocProposal` allocates it.
mirrors core/ptype.h:91-107 -/
@[ext]
structure MemProposal where
  pid : UInt64
  term : UInt64
  pinst : UInt64
  pentry : UInt64
  lastChosen : UInt64
  lastChosenFrom : UInt16
  proposer : UInt16
  size : UInt32
  status : UInt32
  opaqueData : UInt64
  valueId : UInt64
  data : List UInt8
  sized : data.length = size.toNat
  deriving DecidableEq

/-- An entry with the proposals it points to.
mirrors core/plog.h:32-68 -/
structure MemEntry where
  pinst : UInt64
  entry : UInt64
  accepted : Option MemProposal
  promised : Option MemProposal
  deriving DecidableEq

/-- `sizeof(EntryRaw)`, with its one byte of data. -/
def entryRawSz : Nat := 9

/-! ## Proposals in memory -/

namespace MemProposal

/-- The block, byte by byte. -/
def bytes (p : MemProposal) : List UInt8 :=
  leBytes 8 p.pid.toNat ++ leBytes 8 p.term.toNat ++ leBytes 8 p.pinst.toNat ++
    leBytes 8 p.pentry.toNat ++ leBytes 8 p.lastChosen.toNat ++ leBytes 2 p.lastChosenFrom.toNat ++
    leBytes 2 p.proposer.toNat ++ leBytes 4 p.size.toNat ++ leBytes 4 p.status.toNat ++
    leBytes 8 p.opaqueData.toNat ++ leBytes 8 p.valueId.toNat ++ p.data

/-- mirrors core/ptype.h:129-134 -/
def dummy : MemProposal where
  pid := 0
  term := 0
  pinst := 0
  pentry := 0
  lastChosen := 0
  lastChosenFrom := 0
  proposer := 0
  size := 1
  status := 0
  opaqueData := 0
  valueId := 0
  data := [0]
  sized := rfl

/-- `p->size_` of the proposal at `off`. -/
def sizeAt (mem : Nat → UInt8) (off : Nat) : Nat := leNat (slice mem (off + 44) 4)

theorem sizeAt_lt (mem : Nat → UInt8) (off : Nat) : sizeAt mem off < 2 ^ 32 := by
  have h := leNat_lt (slice mem (off + 44) 4)
  rw [length_slice] at h
  exact h

/-- A copy of the header at `off` and of the value bytes behind it.
mirrors core/ptype.cpp:33-38 -/
def cloneProposal (mem : Nat → UInt8) (off : Nat) : MemProposal where
  pid := UInt64.ofNat (leNat (slice mem off 8))
  term := UInt64.ofNat (leNat (slice mem (off + 8) 8))
  pinst := UInt64.ofNat (leNat (slice mem (off + 16) 8))
  pentry := UInt64.ofNat (leNat (slice mem (off + 24) 8))
  lastChosen := UInt64.ofNat (leNat (slice mem (off + 32) 8))
  lastChosenFrom := UInt16.ofNat (leNat (slice mem (off + 40) 2))
  proposer := UInt16.ofNat (leNat (slice mem (off + 42) 2))
  size := UInt32.ofNat (sizeAt mem off)
  status := UInt32.ofNat (leNat (slice mem (off + 48) 4))
  opaqueData := UInt64.ofNat (leNat (slice mem (off + 52) 8))
  valueId := UInt64.ofNat (leNat (slice mem (off + 60) 8))
  data := slice mem (off + proposalHeaderSz) (sizeAt mem off)
  sized := by rw [length_slice, UInt32.toNat_ofNat_of_lt' (sizeAt_lt mem off)]

theorem length_bytes (p : MemProposal) : p.bytes.length = proposalHeaderSz + p.size.toNat := by
  simp only [bytes, List.length_append, length_leBytes, p.sized]
  rfl

section

variable {mem : Nat → UInt8} {off : Nat}

theorem word64_of_holds {x : UInt64} (h : Holds mem off (leBytes 8 x.toNat)) :
    UInt64.ofNat (leNat (slice mem off 8)) = x := by
  rw [h.leNat x.toNat_lt, UInt64.ofNat_toNat]

theorem word32_of_holds {x : UInt32} (h : Holds mem off (leBytes 4 x.toNat)) :
    UInt32.ofNat (leNat (slice mem off 4)) = x := by
  rw [h.leNat x.toNat_lt, UInt32.ofNat_toNat]

theorem word16_of_holds {x : UInt16} (h : Holds mem off (leBytes 2 x.toNat)) :
    UInt16.ofNat (leNat (slice mem off 2)) = x := by
  rw [h.leNat x.toNat_lt, UInt16.ofNat_toNat]

theorem sizeAt_of_holds {p : MemProposal} (h : Holds mem off p.bytes) :
    sizeAt mem off = p.size.toNat := by
  simp only [bytes, holds_append, List.length_append, length_leBytes, Nat.reduceAdd] at h
  obtain ⟨⟨⟨⟨⟨_, hsize⟩, _⟩, _⟩, _⟩, _⟩ := h
  exact hsize.leNat p.size.toNat_lt

theorem cloneProposal_of_holds {p : MemProposal} (h : Holds mem off p.bytes) :
    cloneProposal mem off = p := by
  have hsize := sizeAt_of_holds h
  simp only [bytes, holds_append, List.length_append, length_leBytes, Nat.reduceAdd] at h
  obtain ⟨⟨⟨⟨⟨⟨⟨⟨⟨⟨⟨hpid, hterm⟩, hpinst⟩, hpentry⟩, hlast⟩, hfrom⟩, hproposer⟩, hsz⟩, hstatus⟩,
    hopaque⟩, hvalueId⟩, hdata⟩ := h
  ext1
  · exact word64_of_holds hpid
  · exact word64_of_holds hterm
  · exact word64_of_holds hpinst
  · exact word64_of_holds hpentry
  · exact word64_of_holds hlast
  · exact word16_of_holds hfrom
  · exact word16_of_holds hproposer
  · exact word32_of_holds hsz
  · exact word32_of_holds hstatus
  · exact word64_of_holds hopaque
  · exact word64_of_holds hvalueId
  · show slice mem (off + proposalHeaderSz) (sizeAt mem off) = p.data
    rw [hsize, ← p.sized]
    exact hdata

theorem leBytes_slice (mem : Nat → UInt8) (off w : Nat) :
    leBytes w (leNat (slice mem off w)) = slice mem off w := by
  have h := leBytes_leNat (slice mem off w)
  rwa [length_slice] at h

theorem word64_bytes (mem : Nat → UInt8) (off : Nat) :
    leBytes 8 (UInt64.ofNat (leNat (slice mem off 8))).toNat = slice mem off 8 := by
  have h := leNat_lt (slice mem off 8)
  rw [length_slice] at h
  rw [UInt64.toNat_ofNat_of_lt' h, leBytes_slice]

theorem word32_bytes (mem : Nat → UInt8) (off : Nat) :
    leBytes 4 (UInt32.ofNat (leNat (slice mem off 4))).toNat = slice mem off 4 := by
  have h := leNat_lt (slice mem off 4)
  rw [length_slice] at h
  rw [UInt32.toNat_ofNat_of_lt' h, leBytes_slice]

theorem word16_bytes (mem : Nat → UInt8) (off : Nat) :
    leBytes 2 (UInt16.ofNat (leNat (slice mem off 2))).toNat = slice mem off 2 := by
  have h := leNat_lt (slice mem off 2)
  rw [length_slice] at h
  rw [UInt16.toNat_ofNat_of_lt' h, leBytes_slice]

theorem bytes_cloneProposal (mem : Nat → UInt8) (off : Nat) :
    (cloneProposal mem off).bytes = slice mem off (proposalHeaderSz + sizeAt mem off) := by
  have hsum : proposalHeaderSz + sizeAt mem off =
      8 + (8 + (8 + (8 + (8 + (2 + (2 + (4 + (4 + (8 + (8 + sizeAt mem off)))))))))) := by
    unfold proposalHeaderSz
    omega
  rw [hsum]
  simp only [slice_add, Nat.add_assoc, Nat.reduceAdd, bytes, cloneProposal, sizeAt, word64_bytes,
    word32_bytes, word16_bytes, List.append_assoc, proposalHeaderSz]

end

end MemProposal

open MemProposal

/-! ## Storing and loading -/

namespace MemEntry

/-- The proposal stored as the accepted one. -/
def first (e : MemEntry) : MemProposal := e.accepted.getD dummy

/-- The proposal stored as the promised one: beside a vote the promise is not needed. -/
def second (e : MemEntry) : MemProposal :=
  match e.accepted, e.promised with
  | none, some p => p
  | _, _ => dummy

/-- `proposal_sz`. -/
def proposalSz (e : MemEntry) : Nat :=
  proposalHeaderSz + (e.accepted.map fun a => a.size.toNat).getD 1

/-- `promised_sz`. -/
def promisedSz (e : MemEntry) : Nat :=
  proposalHeaderSz + match e.accepted, e.promised with
    | none, some p => p.size.toNat
    | _, _ => 1

/-- The total size and the stored form. The copies stay inside it while the sum of the sizes is
below `2 ^ 32`.
mirrors core/plog.cpp:18-39 -/
def serializeTo (e : MemEntry) : UInt32 × List UInt8 :=
  let totalSz := UInt32.ofNat (entryRawSz - 1 + e.proposalSz + e.promisedSz)
  (totalSz, leBytes 4 totalSz.toNat ++ leBytes 4 0x11 ++ e.first.bytes.take e.proposalSz ++
    e.second.bytes.take e.promisedSz)

end MemEntry

/-- Bytes read through a pointer into the string. -/
structure Span where
  off : Nat
  len : Nat
  deriving DecidableEq, Repr

/-- The error code, the entry afterwards and what was read. -/
structure Unserialized where
  errcode : Int
  entry : MemEntry
  reads : List Span

/-- What `CloneProposal` reads. -/
def cloneReads (mem : Nat → UInt8) (off : Nat) : List Span :=
  [⟨off + 44, 4⟩, ⟨off, proposalHeaderSz + sizeAt mem off⟩]

/-- `raw->data`, where the first proposal lies. -/
def dataOff : Nat := entryRawSz - 1

/-- Where the second proposal lies. -/
def secondOff (mem : Nat → UInt8) : Nat := dataOff + proposalHeaderSz + sizeAt mem dataOff

/-- The fields the size checks read. -/
def headerReads (mem : Nat → UInt8) : List Span :=
  [⟨0, 4⟩, ⟨dataOff + 44, 4⟩, ⟨secondOff mem + 44, 4⟩]

/-- `bs` is the string and `beyond` the memory behind it. The sizes are 32 bits wide, and so is
their sum.
mirrors core/plog.cpp:41-60 -/
def MemEntry.unserializeFrom (e : MemEntry) (bs : List UInt8) (beyond : Nat → UInt8) :
    Unserialized :=
  if bs.length < entryRawSz then ⟨ErrCode.unmarshalPlogFail, e, []⟩
  else
    let mem := memory bs beyond
    if leNat (slice mem 0 4) ≠ bs.length then ⟨ErrCode.invalidPlogData, e, [⟨0, 4⟩]⟩
    else
      let p1 := dataOff
      let p2 := secondOff mem
      if (sizeAt mem p1 + sizeAt mem p2) % 2 ^ 32 + 2 * proposalHeaderSz ≠
          bs.length - entryRawSz + 1 then
        ⟨ErrCode.invalidPlogData, e, headerReads mem⟩
      else
        ⟨ErrCode.ok,
          { e with
            accepted := some (MemProposal.cloneProposal mem p1)
            promised := some (MemProposal.cloneProposal mem p2) },
          headerReads mem ++ cloneReads mem p1 ++ cloneReads mem p2⟩

/-- A raw header whose size is that of the string, and two proposals that fill the rest. -/
def WellFormed (bs : List UInt8) : Prop :=
  ∃ (size version : List UInt8) (p1 p2 : MemProposal), size.length = 4 ∧ leNat size = bs.length ∧
    version.length = 4 ∧ bs = size ++ version ++ p1.bytes ++ p2.bytes

/-- Whatever lies behind the string, it is read inside its bounds and decoded if it is well formed,
and refused with the entry unchanged if not. -/
structure DecodesSafely (bs : List UInt8) : Prop where
  inside : ∀ e beyond, ∀ s ∈ (MemEntry.unserializeFrom e bs beyond).reads, s.off + s.len ≤ bs.length
  ok : ∀ e beyond, (MemEntry.unserializeFrom e bs beyond).errcode = ErrCode.ok ↔ WellFormed bs
  unchanged : ∀ e beyond, (MemEntry.unserializeFrom e bs beyond).errcode ≠ ErrCode.ok →
    (MemEntry.unserializeFrom e bs beyond).entry = e

/-- The number of four bytes at `off`. -/
def word (bs : List UInt8) (off : Nat) : Nat := leNat ((bs.drop off).take 4)

/-- The size in the header of the first proposal. -/
def firstSize (bs : List UInt8) : Nat := word bs 52

/-- The size in the header of the second one. -/
def secondSize (bs : List UInt8) : Nat := word bs (120 + firstSize bs)

/-- The string fails one of the first two checks, or it holds the header of the second proposal up
to its size and the sum of the sizes does not wrap around to the right length. -/
def Contained (bs : List UInt8) : Prop :=
  bs.length < entryRawSz ∨ word bs 0 ≠ bs.length ∨
    (124 + firstSize bs ≤ bs.length ∧
      ¬ (2 ^ 32 ≤ firstSize bs + secondSize bs ∧
        firstSize bs + secondSize bs + 144 = bs.length + 2 ^ 32))

/-! ## Decoding -/

section

variable {bs : List UInt8} (e : MemEntry) (beyond : Nat → UInt8)

/-- The first two checks are passed. -/
structure Admitted (bs : List UInt8) : Prop where
  long : entryRawSz ≤ bs.length
  size : word bs 0 = bs.length

theorem contained_of_not_admitted (h : ¬ Admitted bs) : Contained bs := by
  by_contra hc
  unfold Contained at hc
  rw [not_or, not_or, not_not] at hc
  exact h ⟨Nat.not_lt.mp hc.1, hc.2.1⟩

theorem leNat_slice_memory {off : Nat} (h : off + 4 ≤ bs.length) :
    leNat (slice (memory bs beyond) off 4) = word bs off := by
  rw [slice_memory beyond h, word]

theorem unserializeFrom_refused (h : ¬ Admitted bs) : ∃ c rs,
    e.unserializeFrom bs beyond = ⟨c, e, rs⟩ ∧ c ≠ ErrCode.ok ∧ ∀ s ∈ rs, s.off + s.len ≤ bs.length := by
  unfold MemEntry.unserializeFrom
  by_cases hlen : bs.length < entryRawSz
  · rw [if_pos hlen]
    exact ⟨_, _, rfl, by decide, by simp⟩
  · have hlong : 9 ≤ bs.length := Nat.not_lt.mp hlen
    have hsize : leNat (slice (memory bs beyond) 0 4) ≠ bs.length := by
      rw [leNat_slice_memory beyond (by omega)]
      exact fun hs => h ⟨hlong, hs⟩
    simp only [if_neg hlen, if_pos hsize]
    refine ⟨_, _, rfl, by decide, fun s hs => ?_⟩
    obtain rfl := List.mem_singleton.mp hs
    show 0 + 4 ≤ bs.length
    omega

/-- The sizes add up, in 32 bits. -/
def Adds (bs : List UInt8) (mem : Nat → UInt8) : Prop :=
  (sizeAt mem dataOff + sizeAt mem (secondOff mem)) % 2 ^ 32 + 2 * proposalHeaderSz =
    bs.length - entryRawSz + 1

theorem unserializeFrom_admitted (h : Admitted bs) :
    (¬ Adds bs (memory bs beyond) → e.unserializeFrom bs beyond =
        ⟨ErrCode.invalidPlogData, e, headerReads (memory bs beyond)⟩) ∧
      (Adds bs (memory bs beyond) → e.unserializeFrom bs beyond =
        ⟨ErrCode.ok,
          { e with
            accepted := some (MemProposal.cloneProposal (memory bs beyond) dataOff)
            promised := some (MemProposal.cloneProposal (memory bs beyond)
              (secondOff (memory bs beyond))) },
          headerReads (memory bs beyond) ++ cloneReads (memory bs beyond) dataOff ++
            cloneReads (memory bs beyond) (secondOff (memory bs beyond))⟩) := by
  have hlong : 9 ≤ bs.length := h.long
  have hsize : leNat (slice (memory bs beyond) 0 4) = bs.length := by
    rw [leNat_slice_memory beyond (by omega), h.size]
  have hlen : ¬ bs.length < entryRawSz := Nat.not_lt.mpr h.long
  unfold MemEntry.unserializeFrom
  simp only [if_neg hlen, hsize, ne_eq, not_true_eq_false, if_false]
  exact ⟨fun hne => if_pos hne, fun hadds => if_neg (not_not.mpr hadds)⟩

/-- Past the first two checks the sizes are read, whatever they are. -/
theorem headerReads_mem (h : Admitted bs) : ∀ s ∈ headerReads (memory bs beyond),
    s ∈ (e.unserializeFrom bs beyond).reads := by
  intro s hs
  obtain ⟨hne, hadds⟩ := unserializeFrom_admitted e beyond h
  by_cases hc : Adds bs (memory bs beyond)
  · rw [hadds hc]
    exact List.mem_append_left _ (List.mem_append_left _ hs)
  · rw [hne hc]
    exact hs

theorem sizeAt_data (h : 56 ≤ bs.length) :
    sizeAt (memory bs beyond) dataOff = firstSize bs := by
  have hoff : 52 + 4 ≤ bs.length := h
  exact leNat_slice_memory beyond hoff

theorem sizeAt_second (h : 124 + firstSize bs ≤ bs.length) :
    secondOff (memory bs beyond) = 76 + firstSize bs ∧
      sizeAt (memory bs beyond) (secondOff (memory bs beyond)) = secondSize bs := by
  have hoff : secondOff (memory bs beyond) = 76 + firstSize bs := by
    rw [secondOff, sizeAt_data beyond (by omega)]
    rfl
  refine ⟨hoff, ?_⟩
  have hword : 76 + firstSize bs + 44 = 120 + firstSize bs := by omega
  rw [sizeAt, hoff, hword, leNat_slice_memory beyond (by omega), secondSize]

/-- What the checks and the copies make of two blocks behind a raw header. -/
structure Blocks (bs : List UInt8) (mem : Nat → UInt8) (p1 p2 : MemProposal) : Prop where
  admitted : Admitted bs
  adds : Adds bs mem
  first : MemProposal.cloneProposal mem dataOff = p1
  second : MemProposal.cloneProposal mem (secondOff mem) = p2

theorem blocks {size version : List UInt8} {p1 p2 : MemProposal} (hs : size.length = 4)
    (hsz : leNat size = bs.length) (hv : version.length = 4)
    (hbs : bs = size ++ version ++ p1.bytes ++ p2.bytes) :
    Blocks bs (memory bs beyond) p1 p2 := by
  have hlen : bs.length = 144 + p1.size.toNat + p2.size.toNat := by
    rw [hbs]
    simp only [List.length_append, hs, hv, length_bytes, proposalHeaderSz]
    omega
  have hmem := holds_memory bs beyond
  rw [hbs] at hmem
  simp only [holds_append, List.length_append, hs, hv, length_bytes] at hmem
  rw [← hbs] at hmem
  obtain ⟨⟨⟨hsize, _⟩, hfirst⟩, hsecond⟩ := hmem
  have h1 : sizeAt (memory bs beyond) dataOff = p1.size.toNat := sizeAt_of_holds hfirst
  have hoff : 0 + (4 + 4 + (proposalHeaderSz + p1.size.toNat)) = secondOff (memory bs beyond) := by
    rw [secondOff, h1, dataOff, entryRawSz]
    omega
  rw [hoff] at hsecond
  have h2 := sizeAt_of_holds hsecond
  -- the size of the string is one of 32 bits
  have hbound := leNat_lt size
  rw [hs, hsz, hlen] at hbound
  refine ⟨⟨?_, ?_⟩, ?_, cloneProposal_of_holds hfirst, cloneProposal_of_holds hsecond⟩
  · rw [hlen, entryRawSz]
    omega
  · rw [Holds, hs] at hsize
    rw [← leNat_slice_memory beyond (by omega), hsize, hsz]
  · rw [Adds, h1, h2, hlen, entryRawSz, proposalHeaderSz]
    omega

theorem blocks_of_wellFormed (h : WellFormed bs) :
    ∃ p1 p2, Blocks bs (memory bs beyond) p1 p2 := by
  obtain ⟨size, version, p1, p2, hs, hsz, hv, hbs⟩ := h
  exact ⟨p1, p2, blocks beyond hs hsz hv hbs⟩

/-- Sizes that add up without wrapping around are those of a well-formed string. -/
theorem wellFormed_of_sizes (h : Admitted bs)
    (hlen : bs.length = 144 + firstSize bs + secondSize bs) : WellFormed bs := by
  let mem := memory bs fun _ => 0
  have h124 : 124 + firstSize bs ≤ bs.length := by omega
  have h56 : 56 ≤ bs.length := by omega
  obtain ⟨hoff, h2⟩ := sizeAt_second (fun _ => 0) h124
  have h1 := sizeAt_data (fun _ => 0) h56
  have hbs : slice mem 0 bs.length = bs := holds_memory bs _
  have hsum : bs.length = 4 + 4 + (proposalHeaderSz + firstSize bs) +
      (proposalHeaderSz + secondSize bs) := by
    rw [hlen, proposalHeaderSz]
    omega
  refine ⟨slice mem 0 4, slice mem 4 4, MemProposal.cloneProposal mem dataOff,
    MemProposal.cloneProposal mem (secondOff mem), length_slice _ _ _, ?_, length_slice _ _ _, ?_⟩
  · rw [leNat_slice_memory _ (by omega), h.size]
  · have hend : 4 + 4 + (proposalHeaderSz + firstSize bs) = 76 + firstSize bs := by
      unfold proposalHeaderSz
      omega
    rw [bytes_cloneProposal, bytes_cloneProposal, h1, h2, hoff]
    rw [hsum, slice_add, slice_add, slice_add, Nat.zero_add, Nat.zero_add, Nat.zero_add, hend] at hbs
    exact hbs.symm

theorem adds_iff (h : 124 + firstSize bs ≤ bs.length) :
    Adds bs (memory bs beyond) ↔ bs.length = 144 + firstSize bs + secondSize bs ∧
        firstSize bs + secondSize bs < 2 ^ 32 ∨
      2 ^ 32 ≤ firstSize bs + secondSize bs ∧
        firstSize bs + secondSize bs + 144 = bs.length + 2 ^ 32 := by
  obtain ⟨hoff, h2⟩ := sizeAt_second beyond h
  have h1 := sizeAt_data beyond (show 56 ≤ bs.length by omega)
  have hlt1 := sizeAt_lt (memory bs beyond) dataOff
  have hlt2 := sizeAt_lt (memory bs beyond) (secondOff (memory bs beyond))
  rw [h1] at hlt1
  rw [h2] at hlt2
  rw [Adds, h1, h2, entryRawSz, proposalHeaderSz]
  omega

theorem headerReads_inside (h : 124 + firstSize bs ≤ bs.length) :
    ∀ s ∈ headerReads (memory bs beyond), s.off + s.len ≤ bs.length := by
  obtain ⟨hoff, _⟩ := sizeAt_second beyond h
  intro s hs
  simp only [headerReads, hoff, dataOff, entryRawSz, List.mem_cons, List.not_mem_nil, or_false] at hs
  rcases hs with rfl | rfl | rfl <;> dsimp only <;> omega

theorem cloneReads_inside {mem : Nat → UInt8} {off n : Nat}
    (h : off + (proposalHeaderSz + sizeAt mem off) ≤ n) :
    ∀ s ∈ cloneReads mem off, s.off + s.len ≤ n := by
  intro s hs
  simp only [cloneReads, List.mem_cons, List.not_mem_nil, or_false] at hs
  rcases hs with rfl | rfl
  · unfold proposalHeaderSz at h
    dsimp only
    omega
  · exact h

/-- A string that fails the first two checks is refused. -/
theorem decodesSafely_of_not_admitted (h : ¬ Admitted bs) : DecodesSafely bs := by
  have hnot : ¬ WellFormed bs := by
    intro hw
    obtain ⟨p1, p2, hb⟩ := blocks_of_wellFormed (fun _ => 0) hw
    exact h hb.admitted
  refine ⟨fun e beyond => ?_, fun e beyond => ?_, fun e beyond _ => ?_⟩
  · obtain ⟨c, rs, he, _, hin⟩ := unserializeFrom_refused e beyond h
    rw [he]
    exact hin
  · obtain ⟨c, rs, he, hne, _⟩ := unserializeFrom_refused e beyond h
    rw [he]
    exact iff_of_false hne hnot
  · obtain ⟨c, rs, he, _⟩ := unserializeFrom_refused e beyond h
    rw [he]

/-- A string that holds both sizes is decoded if they fill it, and refused if not. -/
theorem decodesSafely_of_sizes (h : Admitted bs) (h124 : 124 + firstSize bs ≤ bs.length)
    (hwrap : ¬ (2 ^ 32 ≤ firstSize bs + secondSize bs ∧
      firstSize bs + secondSize bs + 144 = bs.length + 2 ^ 32)) : DecodesSafely bs := by
  have hsizes : ∀ beyond, Adds bs (memory bs beyond) →
      bs.length = 144 + firstSize bs + secondSize bs :=
    fun beyond hadds => (((adds_iff beyond h124).mp hadds).resolve_right hwrap).1
  have hwell : ∀ beyond, Adds bs (memory bs beyond) ↔ WellFormed bs := by
    intro beyond
    refine ⟨fun hadds => wellFormed_of_sizes h (hsizes beyond hadds), fun hw => ?_⟩
    obtain ⟨p1, p2, hb⟩ := blocks_of_wellFormed beyond hw
    exact hb.adds
  refine ⟨fun e beyond s hs => ?_, fun e beyond => ?_, fun e beyond hne => ?_⟩
  · have hheader := headerReads_inside beyond h124
    obtain ⟨hrefused, hok⟩ := unserializeFrom_admitted e beyond h
    by_cases hadds : Adds bs (memory bs beyond)
    · have hlen := hsizes beyond hadds
      obtain ⟨hoff, h2⟩ := sizeAt_second beyond h124
      have h1 := sizeAt_data beyond (show 56 ≤ bs.length by omega)
      have hfirst : dataOff + (proposalHeaderSz + sizeAt (memory bs beyond) dataOff) ≤ bs.length := by
        rw [h1, dataOff, entryRawSz, proposalHeaderSz]
        omega
      have hsecond : secondOff (memory bs beyond) + (proposalHeaderSz +
          sizeAt (memory bs beyond) (secondOff (memory bs beyond))) ≤ bs.length := by
        rw [h2, hoff, proposalHeaderSz]
        omega
      rw [hok hadds] at hs
      rcases List.mem_append.mp hs with hs | hs
      · rcases List.mem_append.mp hs with hs | hs
        · exact hheader s hs
        · exact cloneReads_inside hfirst s hs
      · exact cloneReads_inside hsecond s hs
    · rw [hrefused hadds] at hs
      exact hheader s hs
  · obtain ⟨hrefused, hok⟩ := unserializeFrom_admitted e beyond h
    rw [← hwell beyond]
    by_cases hadds : Adds bs (memory bs beyond)
    · rw [hok hadds]
      exact iff_of_true rfl hadds
    · rw [hrefused hadds]
      exact iff_of_false (show ErrCode.invalidPlogData ≠ ErrCode.ok by decide) hadds
  · obtain ⟨hrefused, hok⟩ := unserializeFrom_admitted e beyond h
    by_cases hadds : Adds bs (memory bs beyond)
    · rw [hok hadds] at hne
      exact absurd rfl hne
    · rw [hrefused hadds]

/-- What is decoded inside its bounds holds both sizes, and they do not wrap around to the right
length. -/
theorem sizes_of_decodesSafely (h : Admitted bs) (hsafe : DecodesSafely bs) :
    124 + firstSize bs ≤ bs.length ∧ ¬ (2 ^ 32 ≤ firstSize bs + secondSize bs ∧
      firstSize bs + secondSize bs + 144 = bs.length + 2 ^ 32) := by
  let mem := memory bs fun _ => 0
  have hin := hsafe.inside ⟨0, 0, none, none⟩ fun _ => 0
  have hread : ∀ s ∈ headerReads mem, s.off + s.len ≤ bs.length :=
    fun s hs => hin s (headerReads_mem _ _ h s hs)
  have h56 : 56 ≤ bs.length := hread ⟨dataOff + 44, 4⟩ (by simp [headerReads])
  have h124 : 124 + firstSize bs ≤ bs.length := by
    have hsnd : secondOff mem + 44 + 4 ≤ bs.length :=
      hread ⟨secondOff mem + 44, 4⟩ (by simp [headerReads])
    rw [secondOff, sizeAt_data _ h56, dataOff, entryRawSz, proposalHeaderSz] at hsnd
    omega
  refine ⟨h124, fun hwrap => ?_⟩
  have hadds := (adds_iff (fun _ => 0) h124).mpr (.inr hwrap)
  obtain ⟨hoff, h2⟩ := sizeAt_second (fun _ => 0) h124
  have hcopy : secondOff mem + (proposalHeaderSz + sizeAt mem (secondOff mem)) ≤ bs.length := by
    refine hin ⟨secondOff mem, proposalHeaderSz + sizeAt mem (secondOff mem)⟩ ?_
    rw [(unserializeFrom_admitted _ _ h).2 hadds]
    simp [cloneReads, mem]
  rw [h2, hoff, proposalHeaderSz] at hcopy
  omega

end

/-- The byte strings that are decoded inside their bounds, and right. -/
theorem decodesSafely_iff (bs : List UInt8) : DecodesSafely bs ↔ Contained bs := by
  by_cases h : Admitted bs
  · constructor
    · intro hsafe
      exact .inr (.inr (sizes_of_decodesSafely h hsafe))
    · intro hc
      obtain ⟨h124, hwrap⟩ := (hc.resolve_left (Nat.not_lt.mpr h.long)).resolve_left
        (not_not.mpr h.size)
      exact decodesSafely_of_sizes h h124 hwrap
  · exact iff_of_true (decodesSafely_of_not_admitted h) (contained_of_not_admitted h)

/-- Nine bytes with the right size: the first proposal begins at the last of them. -/
theorem not_decodesSafely : ¬ ∀ bs, DecodesSafely bs := by
  intro hall
  have hadm : Admitted [9, 0, 0, 0, 0x11, 0, 0, 0, 0] := ⟨by decide, by decide⟩
  exact absurd (sizes_of_decodesSafely hadm (hall _)).1 (by decide)

/-! ## Storing and loading again -/

/-- The entry comes back as the acceptor knows it. -/
structure RoundTrips (e e' : MemEntry) (beyond : Nat → UInt8) : Prop where
  ok : (e'.unserializeFrom e.serializeTo.2 beyond).errcode = ErrCode.ok
  accepted : (e'.unserializeFrom e.serializeTo.2 beyond).entry.accepted = e.accepted
  promised : e.accepted = none →
    (e'.unserializeFrom e.serializeTo.2 beyond).entry.promised = e.promised

section

variable (e : MemEntry)

theorem length_first : e.first.bytes.length = e.proposalSz := by
  rw [length_bytes, MemEntry.first, MemEntry.proposalSz]
  cases e.accepted <;> rfl

theorem length_second : e.second.bytes.length = e.promisedSz := by
  rw [length_bytes, MemEntry.second, MemEntry.promisedSz]
  cases e.accepted <;> cases e.promised <;> rfl

/-- The stored form is a raw header and two blocks. -/
theorem serializeTo_bytes : e.serializeTo.2 =
    leBytes 4 e.serializeTo.1.toNat ++ leBytes 4 0x11 ++ e.first.bytes ++ e.second.bytes := by
  have h1 := List.take_of_length_le (Nat.le_of_eq (length_first e))
  have h2 := List.take_of_length_le (Nat.le_of_eq (length_second e))
  calc e.serializeTo.2
      = leBytes 4 e.serializeTo.1.toNat ++ leBytes 4 0x11 ++ e.first.bytes.take e.proposalSz ++
        e.second.bytes.take e.promisedSz := rfl
    _ = leBytes 4 e.serializeTo.1.toNat ++ leBytes 4 0x11 ++ e.first.bytes ++ e.second.bytes := by
      rw [h1, h2]

variable {e}

/-- The stored form is loaded as the two blocks that were stored. -/
theorem unserializeFrom_serializeTo (hsz : entryRawSz - 1 + e.proposalSz + e.promisedSz < 2 ^ 32)
    (e' : MemEntry) (beyond : Nat → UInt8) :
    (e'.unserializeFrom e.serializeTo.2 beyond).errcode = ErrCode.ok ∧
      (e'.unserializeFrom e.serializeTo.2 beyond).entry =
        { e' with accepted := some e.first, promised := some e.second } := by
  have hbytes := serializeTo_bytes e
  have htotal : e.serializeTo.1.toNat = entryRawSz - 1 + e.proposalSz + e.promisedSz :=
    UInt32.toNat_ofNat_of_lt' hsz
  have hlen : e.serializeTo.2.length = entryRawSz - 1 + e.proposalSz + e.promisedSz := by
    rw [hbytes]
    simp only [List.length_append, length_leBytes, length_first, length_second, entryRawSz]
  have hsize : leNat (leBytes 4 e.serializeTo.1.toNat) = e.serializeTo.2.length := by
    rw [leNat_leBytes e.serializeTo.1.toNat_lt, htotal, hlen]
  have hb := blocks beyond (length_leBytes _ _) hsize (length_leBytes _ _) hbytes
  rw [(unserializeFrom_admitted e' beyond hb.admitted).2 hb.adds, hb.first, hb.second]
  exact ⟨rfl, rfl⟩

/-- An entry comes back as the acceptor knows it exactly if it has an accepted proposal: without
one the dummy comes back as the accepted proposal. -/
theorem roundTrip_iff (hsz : entryRawSz - 1 + e.proposalSz + e.promisedSz < 2 ^ 32) (e' : MemEntry)
    (beyond : Nat → UInt8) : RoundTrips e e' beyond ↔ e.accepted ≠ none := by
  obtain ⟨hok, hentry⟩ := unserializeFrom_serializeTo hsz e' beyond
  constructor
  · intro h
    rw [← h.accepted, hentry]
    exact Option.some_ne_none _
  · intro hne
    obtain ⟨a, ha⟩ := Option.ne_none_iff_exists'.mp hne
    refine ⟨hok, ?_, fun hnone => absurd hnone hne⟩
    rw [hentry]
    show some (e.accepted.getD dummy) = e.accepted
    rw [ha, Option.getD_some]

end

/-- A vote for one byte. -/
def voteEntry : MemEntry :=
  { pinst := 0, entry := 1, accepted := some { dummy with pid := 5, status := 3 }, promised := none }

theorem roundTrip_iff_vote : RoundTrips voteEntry ⟨0, 1, none, none⟩ (fun _ => 0) ↔
    voteEntry.accepted ≠ none :=
  roundTrip_iff (by decide) _ _

/-- A promise and no vote. -/
def promiseEntry : MemEntry :=
  { pinst := 0, entry := 1, accepted := none, promised := some { dummy with pid := 5, status := 2 } }

/-- A promise comes back beside a vote for the dummy. -/
theorem not_roundTrip : ¬ ∀ (e e' : MemEntry) (beyond : Nat → UInt8),
    entryRawSz - 1 + e.proposalSz + e.promisedSz < 2 ^ 32 → RoundTrips e e' beyond := by
  intro hall
  have h := hall promiseEntry ⟨0, 1, none, none⟩ (fun _ => 0) (by decide)
  have hacc := (unserializeFrom_serializeTo (e := promiseEntry) (by decide) ⟨0, 1, none, none⟩
    fun _ => 0).2
  have hnone := h.accepted
  rw [hacc] at hnone
  exact Option.some_ne_none _ hnone

end Quarrel
