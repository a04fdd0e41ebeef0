import Quarrel.L1Data.IdGen
import Mathlib.Order.Bounds.Basic
import Mathlib.Order.Lattice.Nat

/-!
# Id generators on machine words (`util/idgen.hpp`)

The generator with the widths of the source, where the sums and the product of
`SetGreaterThan` are taken modulo 2^64.

* `view_setGreaterThan`: without a carry the words are those of the unbounded generator.
* `jumpsPast_iff`: the next id is the least one above `v` on the steps of the
  generator exactly if it `Clears` `v`.
-/
namespace Quarrel

/-- mirrors util/idgen.hpp:8-38 -/
structure IdGen64 where
  id : UInt64
  step : UInt64
  deriving DecidableEq

namespace IdGen64

/-- mirrors util/idgen.hpp:18-22 -/
def getAndInc (g : IdGen64) : UInt64 × IdGen64 := (g.id, { g with id := g.id + g.step })

/-- mirrors util/idgen.hpp:28-33 -/
def setGreaterThan (g : IdGen64) (v : UInt64) : IdGen64 :=
  if v ≤ g.id then g else { g with id := g.id + (v - g.id + g.step - 1) / g.step * g.step }

/-- The words as numbers. -/
def view (g : IdGen64) : IdGen := ⟨g.id.toNat, g.step.toNat⟩

/-- The ids above `v`, not below the generator's and on its steps. -/
def idsPast (g : IdGen64) (v : UInt64) : Set Nat :=
  {n | v.toNat < n ∧ g.id.toNat ≤ n ∧ n ≡ g.id.toNat [MOD g.step.toNat]}

/-- The id that follows the jump is the least of them. -/
def JumpsPast (g : IdGen64) (v : UInt64) : Prop :=
  IsLeast (g.idsPast v) (g.setGreaterThan v).getAndInc.1.toNat

/-- One of them is a 64-bit number. -/
def Fits (g : IdGen64) (v : UInt64) : Prop := ∃ n ∈ g.idsPast v, n < 2 ^ 64

/-- `v - id_ + step_ - 1` is a 64-bit number. -/
def NoCarry (g : IdGen64) (v : UInt64) : Prop := v.toNat + g.step.toNat ≤ 2 ^ 64 + g.id.toNat

/-- `v` is below the generator, or on none of its steps and rounded up without a carry. -/
def Clears (g : IdGen64) (v : UInt64) : Prop :=
  v < g.id ∨ (¬ v.toNat ≡ g.id.toNat [MOD g.step.toNat] ∧ g.NoCarry v)

instance (g : IdGen64) (v : UInt64) : Decidable (g.NoCarry v) := by
  unfold NoCarry; exact inferInstance

instance (g : IdGen64) (v : UInt64) : Decidable (g.Clears v) := by
  unfold Clears; exact inferInstance

/-! ## Rounding up -/

theorem ceilDiv_le {a n k : Nat} (hn : 0 < n) (h : a ≤ k * n) : (a + n - 1) / n ≤ k := by
  refine Nat.le_of_lt_succ ((Nat.div_lt_iff_lt_mul hn).mpr ?_)
  rw [Nat.succ_mul]
  omega

theorem exists_step {n id step : Nat} (hle : id ≤ n) (h : n ≡ id [MOD step]) :
    ∃ k, n = id + k * step := by
  obtain ⟨k, hk⟩ := (Nat.modEq_iff_dvd' hle).mp h.symm
  rw [Nat.mul_comm] at hk
  exact ⟨k, by omega⟩

theorem on_step (id k step : Nat) : id + k * step ≡ id [MOD step] := by
  unfold Nat.ModEq
  rw [Nat.add_mul_mod_self_right]

/-! ## The jump -/

section

variable {g : IdGen64} {v : UInt64}

/-- The summand before it is rounded. -/
theorem toNat_round (hlt : g.id < v) :
    (v - g.id + g.step - 1).toNat = (v.toNat - g.id.toNat + g.step.toNat + (2 ^ 64 - 1)) % 2 ^ 64 := by
  have hle : g.id ≤ v := UInt64.le_of_lt hlt
  rw [UInt64.toNat_sub, UInt64.toNat_add, UInt64.toNat_sub_of_le _ _ hle]
  simp only [UInt64.toNat_one]
  omega

/-- A carry leaves the generator where it is. -/
theorem setGreaterThan_carry (hs : 0 < g.step) (hlt : g.id < v) (hc : ¬ g.NoCarry v) :
    g.setGreaterThan v = g := by
  have hlt' := UInt64.lt_iff_toNat_lt.mp hlt
  have hs' := UInt64.lt_iff_toNat_lt.mp hs
  have hv := v.toNat_lt
  unfold NoCarry at hc
  have hzero : (v - g.id + g.step - 1) / g.step = 0 := by
    apply UInt64.toNat_inj.mp
    rw [UInt64.toNat_div, toNat_round hlt]
    refine Nat.div_eq_of_lt ?_
    omega
  unfold setGreaterThan
  rw [if_neg (UInt64.not_le.mpr hlt), hzero]
  simp

/-- Without one it goes up to the first of its steps from `v` on. -/
theorem toNat_setGreaterThan (hs : 0 < g.step) (hlt : g.id < v) (hc : g.NoCarry v)
    (hfit : g.id.toNat + (v.toNat - g.id.toNat + g.step.toNat - 1) / g.step.toNat * g.step.toNat < 2 ^ 64) :
    (g.setGreaterThan v).id.toNat =
      g.id.toNat + (v.toNat - g.id.toNat + g.step.toNat - 1) / g.step.toNat * g.step.toNat := by
  have hlt' := UInt64.lt_iff_toNat_lt.mp hlt
  have hs' := UInt64.lt_iff_toNat_lt.mp hs
  unfold NoCarry at hc
  have hround : (v - g.id + g.step - 1).toNat = v.toNat - g.id.toNat + g.step.toNat - 1 := by
    rw [toNat_round hlt]
    omega
  unfold setGreaterThan
  rw [if_neg (UInt64.not_le.mpr hlt)]
  show (g.id + (v - g.id + g.step - 1) / g.step * g.step).toNat = _
  rw [UInt64.toNat_add, UInt64.toNat_mul, UInt64.toNat_div, hround]
  omega

theorem round_le {n : Nat} (hs : 0 < g.step) (hn : n ∈ g.idsPast v) :
    g.id.toNat + (v.toNat - g.id.toNat + g.step.toNat - 1) / g.step.toNat * g.step.toNat ≤ n := by
  have hs' := UInt64.lt_iff_toNat_lt.mp hs
  obtain ⟨hv, hle, hmod⟩ := hn
  obtain ⟨k, rfl⟩ := exists_step hle hmod
  have hk : (v.toNat - g.id.toNat + g.step.toNat - 1) / g.step.toNat ≤ k := ceilDiv_le hs' (by omega)
  exact Nat.add_le_add_left (Nat.mul_le_mul_right _ hk) _

theorem view_setGreaterThan (hs : 0 < g.step) (hc : g.NoCarry v) (hfit : g.Fits v) :
    (g.setGreaterThan v).view = g.view.setGreaterThan v.toNat := by
  by_cases hle : v ≤ g.id
  · have hle' := UInt64.le_iff_toNat_le.mp hle
    unfold setGreaterThan IdGen.setGreaterThan
    rw [if_pos hle, if_pos (show v.toNat ≤ g.view.id from hle')]
  · have hlt := UInt64.not_le.mp hle
    have hlt' := UInt64.lt_iff_toNat_lt.mp hlt
    obtain ⟨n, hn, hn64⟩ := hfit
    have hid := toNat_setGreaterThan hs hlt hc (Nat.lt_of_le_of_lt (round_le hs hn) hn64)
    have hstep : (g.setGreaterThan v).step = g.step := by
      unfold setGreaterThan
      rw [if_neg hle]
    unfold IdGen.setGreaterThan
    rw [if_neg (show ¬ v.toNat ≤ g.view.id from Nat.not_le.mpr hlt')]
    show IdGen.mk (g.setGreaterThan v).id.toNat (g.setGreaterThan v).step.toNat = _
    rw [hid, hstep]
    rfl

theorem setGreaterThan_of_le (hle : v ≤ g.id) : g.setGreaterThan v = g := by
  unfold setGreaterThan
  rw [if_pos hle]

/-- Without a carry, an id past `v` is the least one. -/
theorem jumpsPast_of_lt (hs : 0 < g.step) (hc : g.NoCarry v) (hfit : g.Fits v)
    (hpast : v.toNat < (g.setGreaterThan v).id.toNat) : g.JumpsPast v := by
  unfold JumpsPast
  show IsLeast _ (g.setGreaterThan v).id.toNat
  by_cases hle : v ≤ g.id
  · rw [setGreaterThan_of_le hle] at hpast ⊢
    exact ⟨⟨hpast, Nat.le_refl _, Nat.ModEq.refl _⟩, fun n hn => hn.2.1⟩
  · obtain ⟨n, hn, hn64⟩ := hfit
    have hid := toNat_setGreaterThan hs (UInt64.not_le.mp hle) hc
      (Nat.lt_of_le_of_lt (round_le hs hn) hn64)
    rw [hid] at hpast ⊢
    exact ⟨⟨hpast, Nat.le_add_right _ _, on_step _ _ _⟩, fun m hm => round_le hs hm⟩

/-- Without a carry the id drawn is past `v` exactly if `v` is cleared. -/
theorem past_iff (hs : 0 < g.step) (hc : g.NoCarry v) (hfit : g.Fits v) :
    v.toNat < (g.setGreaterThan v).id.toNat ↔ g.Clears v := by
  have hs' := UInt64.lt_iff_toNat_lt.mp hs
  unfold Clears
  by_cases hle : v ≤ g.id
  · rw [setGreaterThan_of_le hle]
    constructor
    · intro hpast
      exact .inl (UInt64.lt_iff_toNat_lt.mpr hpast)
    · intro hcond
      rcases hcond with hlt | ⟨hoff, -⟩
      · exact UInt64.lt_iff_toNat_lt.mp hlt
      · refine UInt64.lt_iff_toNat_lt.mp (UInt64.lt_of_le_of_ne hle fun he => hoff ?_)
        rw [he]
  · have hlt := UInt64.not_le.mp hle
    have hlt' := UInt64.lt_iff_toNat_lt.mp hlt
    obtain ⟨n, hn, hn64⟩ := hfit
    rw [toNat_setGreaterThan hs hlt hc (Nat.lt_of_le_of_lt (round_le hs hn) hn64)]
    constructor
    · intro hpast
      refine .inr ⟨fun hon => ?_, hc⟩
      -- `v` is on a step, so the rounding ends on `v` itself
      obtain ⟨k, hk⟩ := exists_step (Nat.le_of_lt hlt') hon
      have hq := ceilDiv_le (a := v.toNat - g.id.toNat) (k := k) hs' (by omega)
      have hmul := Nat.mul_le_mul_right g.step.toNat hq
      omega
    · intro hcond
      obtain ⟨hoff, -⟩ := hcond.resolve_left fun h => hle (UInt64.le_of_lt h)
      have hge := IdGen.le_ceilDiv_mul (v.toNat - g.id.toNat) g.step.toNat hs'
      refine Nat.lt_of_le_of_ne (by omega) fun he => hoff ?_
      rw [he]
      exact on_step _ _ _

/-- After a jump to `v` the next id is the least one past it if and only if `v` is cleared. -/
theorem jumpsPast_iff (hs : 0 < g.step) (hfit : g.Fits v) : g.JumpsPast v ↔ g.Clears v := by
  by_cases hc : g.NoCarry v
  · rw [← past_iff hs hc hfit]
    exact ⟨fun hleast => hleast.1.1, jumpsPast_of_lt hs hc hfit⟩
  · have hlt' : g.id.toNat < v.toNat := by
      have := g.step.toNat_lt
      unfold NoCarry at hc
      omega
    have hlt : g.id < v := UInt64.lt_iff_toNat_lt.mpr hlt'
    unfold JumpsPast
    rw [setGreaterThan_carry hs hlt hc]
    constructor
    · intro hleast
      have hpast : v.toNat < g.id.toNat := hleast.1.1
      omega
    · intro hcond
      rcases hcond with hbelow | ⟨-, hno⟩
      · have := UInt64.lt_iff_toNat_lt.mp hbelow
        omega
      · exact absurd hno hc

end

end IdGen64
end Quarrel
