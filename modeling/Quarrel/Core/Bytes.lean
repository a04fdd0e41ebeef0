import Mathlib.Algebra.Group.Nat.Defs
import Mathlib.Data.List.Basic

/-!
# Numbers and byte strings in memory

A number of fixed width lies in memory least significant byte first. `slice mem off n`
are the `n` bytes from `off` on, and `Holds mem off bs` says that they are `bs`.

* `leNat_leBytes`, `leBytes_leNat`: the numbers of `w` bytes are the byte strings of
  length `w`.
* `holds_append`: a concatenation lies in memory piece by piece.
* `slice_memory`: a byte string with anything behind it.
-/
namespace Quarrel

/-- The lowest `w` bytes of `n`. -/
def leBytes : Nat → Nat → List UInt8
  | 0, _ => []
  | w + 1, n => UInt8.ofNat n :: leBytes w (n / 256)

def leNat : List UInt8 → Nat
  | [] => 0
  | b :: bs => b.toNat + 256 * leNat bs

@[simp] theorem length_leBytes (w n : Nat) : (leBytes w n).length = w := by
  induction w generalizing n with
  | zero => rfl
  | succ w ih => rw [leBytes, List.length_cons, ih]

theorem leNat_lt (bs : List UInt8) : leNat bs < 256 ^ bs.length := by
  induction bs with
  | nil => exact Nat.one_pos
  | cons b bs ih =>
    have hb := b.toNat_lt
    rw [leNat, List.length_cons, Nat.pow_succ]
    omega

theorem leNat_leBytes {w n : Nat} (h : n < 256 ^ w) : leNat (leBytes w n) = n := by
  induction w generalizing n with
  | zero =>
    rw [Nat.pow_zero] at h
    rw [leBytes, leNat]
    omega
  | succ w ih =>
    have hdiv : n / 256 < 256 ^ w := by
      rw [Nat.pow_succ] at h
      omega
    rw [leBytes, leNat, ih hdiv, UInt8.toNat_ofNat']
    omega

theorem leBytes_leNat (bs : List UInt8) : leBytes bs.length (leNat bs) = bs := by
  induction bs with
  | nil => rfl
  | cons b bs ih =>
    have hb := b.toNat_lt
    have hlow : UInt8.ofNat (b.toNat + 256 * leNat bs) = b := by
      apply UInt8.toNat_inj.mp
      rw [UInt8.toNat_ofNat']
      omega
    have hhigh : (b.toNat + 256 * leNat bs) / 256 = leNat bs := by omega
    rw [List.length_cons, leBytes, leNat, hlow, hhigh, ih]

/-! ## Memory -/

def slice (mem : Nat → UInt8) : Nat → Nat → List UInt8
  | _, 0 => []
  | off, n + 1 => mem off :: slice mem (off + 1) n

def Holds (mem : Nat → UInt8) (off : Nat) (bs : List UInt8) : Prop := slice mem off bs.length = bs

/-- The string `bs`, and whatever lies behind it. -/
def memory (bs : List UInt8) (beyond : Nat → UInt8) : Nat → UInt8 := fun i => bs.getD i (beyond i)

section

variable {mem : Nat → UInt8} {off : Nat}

@[simp] theorem length_slice (mem : Nat → UInt8) (off n : Nat) : (slice mem off n).length = n := by
  induction n generalizing off with
  | zero => rfl
  | succ n ih => rw [slice, List.length_cons, ih]

theorem slice_add (mem : Nat → UInt8) (off m n : Nat) :
    slice mem off (m + n) = slice mem off m ++ slice mem (off + m) n := by
  induction m generalizing off with
  | zero => rw [Nat.zero_add, Nat.add_zero, slice, List.nil_append]
  | succ m ih =>
    have hoff : off + 1 + m = off + (m + 1) := by omega
    rw [Nat.succ_add, slice, slice, ih, hoff, List.cons_append]

theorem holds_append {a b : List UInt8} :
    Holds mem off (a ++ b) ↔ Holds mem off a ∧ Holds mem (off + a.length) b := by
  unfold Holds
  rw [List.length_append, slice_add]
  constructor
  · intro h
    exact List.append_inj h (length_slice _ _ _)
  · intro h
    rw [h.1, h.2]

/-- The number at `off` is the one that was put there. -/
theorem Holds.leNat {w n : Nat} (h : Holds mem off (leBytes w n)) (hn : n < 256 ^ w) :
    leNat (slice mem off w) = n := by
  rw [Holds, length_leBytes] at h
  rw [h, leNat_leBytes hn]

/-- Inside the string nothing depends on what lies behind it. -/
theorem slice_memory {bs : List UInt8} (beyond : Nat → UInt8) {n : Nat} (h : off + n ≤ bs.length) :
    slice (memory bs beyond) off n = (bs.drop off).take n := by
  induction n generalizing off with
  | zero => rw [slice, List.take_zero]
  | succ n ih =>
    have hlt : off < bs.length := by omega
    have hget : memory bs beyond off = bs[off] := by
      rw [memory, List.getD_eq_getElem?_getD, List.getElem?_eq_getElem hlt, Option.getD_some]
    rw [slice, ih (by omega), List.drop_eq_getElem_cons hlt, List.take_succ_cons, hget]

theorem holds_memory (bs : List UInt8) (beyond : Nat → UInt8) : Holds (memory bs beyond) 0 bs := by
  rw [Holds, slice_memory beyond (by omega), List.drop_zero, List.take_length]

end

end Quarrel
