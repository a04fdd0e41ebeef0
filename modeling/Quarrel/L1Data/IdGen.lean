import Mathlib.Data.Nat.ModEq

/-!
# Id generators (`util/idgen.hpp`)

`IdGen` hands out `id`, `id + step`, ...; `SetGreaterThan` jumps ahead in whole
steps. The ids are unbounded here: no generator of a run reaches 2^64.

* `getAndInc_onStep`, `setGreaterThan_onStep`: the residue class of the
  generator survives every operation, so two generators with the same step and
  different classes never produce the same id (`onStep_inj`).
* `setGreaterThan_ge`: a jump reaches its argument and never goes back.
-/
namespace Quarrel

/-- mirrors util/idgen.hpp:8-38 -/
structure IdGen where
  id : Nat
  step : Nat
  deriving DecidableEq, Repr

namespace IdGen

/-- The id to use, and the generator after it.
mirrors util/idgen.hpp:18-22 -/
def getAndInc (g : IdGen) : Nat × IdGen := (g.id, { g with id := g.id + g.step })

/-- mirrors util/idgen.hpp:24-26 -/
def reset (g : IdGen) (start : Nat) : IdGen := { g with id := start }

/-- mirrors util/idgen.hpp:28-33 -/
def setGreaterThan (g : IdGen) (v : Nat) : IdGen :=
  if v ≤ g.id then g else { g with id := g.id + (v - g.id + g.step - 1) / g.step * g.step }

/-- The generator of value ids; `sec` is `tv_sec` at construction.
mirrors util/idgen.hpp:40-47 -/
def byDate (sec mask step : Nat) : IdGen := setGreaterThan ⟨1, step⟩ (sec &&& mask)

@[simp] theorem getAndInc_step (g : IdGen) : g.getAndInc.2.step = g.step := rfl
@[simp] theorem reset_step (g : IdGen) (v : Nat) : (g.reset v).step = g.step := rfl
@[simp] theorem reset_id (g : IdGen) (v : Nat) : (g.reset v).id = v := rfl

@[simp] theorem setGreaterThan_step (g : IdGen) (v : Nat) : (g.setGreaterThan v).step = g.step := by
  unfold setGreaterThan; split <;> rfl

theorem le_ceilDiv_mul (a n : Nat) (hn : 0 < n) : a ≤ (a + n - 1) / n * n := by
  have h := Nat.div_add_mod (a + n - 1) n
  have hm := Nat.mod_lt (a + n - 1) hn
  rw [Nat.mul_comm] at h
  omega

theorem setGreaterThan_ge (g : IdGen) (v : Nat) (hs : 0 < g.step) :
    v ≤ (g.setGreaterThan v).id ∧ g.id ≤ (g.setGreaterThan v).id := by
  unfold setGreaterThan
  split
  · rename_i h; exact ⟨h, Nat.le_refl _⟩
  · have := le_ceilDiv_mul (v - g.id) g.step hs
    simp only
    omega

/-- The generator stands on `start + k * step`, with step `n`. -/
def OnStep (start n : Nat) (g : IdGen) : Prop := g.step = n ∧ ∃ k, g.id = start + k * n

theorem onStep_start (start n : Nat) : OnStep start n ⟨start, n⟩ := ⟨rfl, 0, by simp⟩

theorem getAndInc_onStep {start n : Nat} {g : IdGen} (h : OnStep start n g) :
    OnStep start n g.getAndInc.2 := by
  obtain ⟨hs, k, hk⟩ := h
  refine ⟨hs, k + 1, ?_⟩
  simp only [getAndInc, hk, hs, Nat.add_mul]
  omega

theorem reset_onStep {start n : Nat} {g : IdGen} (h : OnStep start n g) :
    OnStep start n (g.reset start) := ⟨h.1, 0, by simp⟩

theorem setGreaterThan_onStep {start n v : Nat} {g : IdGen} (h : OnStep start n g) :
    OnStep start n (g.setGreaterThan v) := by
  obtain ⟨hs, k, hk⟩ := h
  refine ⟨by simpa using hs, ?_⟩
  unfold setGreaterThan
  split
  · exact ⟨k, hk⟩
  · refine ⟨k + (v - g.id + g.step - 1) / g.step, ?_⟩
    simp only [Nat.add_mul, hk, hs]
    omega

/-- Ids on the steps of two starts below the step are equal only for one start. -/
theorem onStep_inj {a b n i j : Nat} (ha : a < n) (hb : b < n) (h : a + 1 + i * n = b + 1 + j * n) :
    a = b := by
  have h' : a + i * n = b + j * n := by omega
  have hmod := congrArg (· % n) h'
  simpa [Nat.add_mul_mod_self_right, Nat.mod_eq_of_lt ha, Nat.mod_eq_of_lt hb] using hmod

end IdGen
end Quarrel
