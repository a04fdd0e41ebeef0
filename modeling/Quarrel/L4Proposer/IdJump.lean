import Quarrel.L1Data.IdGen64
import Quarrel.L3Role.ProposerSpec

/-!
# The id after a rejection (`core/proposer.cpp:71-111`)

A peer that has promised a larger id makes the instance jump past it:
`UpdatePrepareId` moves the generator with `SetGreaterThan`, and the next call draws
from it. The early return and the rounding leave the generator on the id itself where
that is one of its own.

* `nextId_past_iff`: the next id is past the one given exactly if the generator clears it.
* `not_nextId_past`: generator 1, 4, ... and id 4.
-/
namespace Quarrel

open InstanceState

variable {g : IdGen64} {v : UInt64}

theorem pid_after_update {cfg : Configure} {s : InstanceState} {pinst opaqueData : Nat}
    {val : List UInt8} (hs : 0 < g.step) (hc : g.NoCarry v) (hfit : g.Fits v)
    (hcookie : cfg.pidCookie = 0) (hval : u32 val.length ≠ 0) (hig : s.ig = g.view) :
    ((s.updatePrepareId v.toNat).proposalMsg cfg pinst opaqueData val).pp.pid =
      (g.setGreaterThan v).id.toNat := by
  have hview : s.ig.setGreaterThan v.toNat = (g.setGreaterThan v).view := by
    rw [hig, IdGen64.view_setGreaterThan hs hc hfit]
  simp only [proposalMsg, allocPaxosMsg, updatePrepareId, hview, hval, ne_eq, not_false_eq_true,
    if_true, hcookie, Nat.or_zero]
  rfl

/-- The id after a jump to `v` is the least one past it, and the PREPARE that follows a
rejection with `v` has a larger id, if and only if the generator clears `v`. -/
theorem nextId_past_iff (hs : 0 < g.step) (hfit : g.Fits v) :
    (g.JumpsPast v ↔ g.Clears v) ∧
      ∀ (cfg : Configure) (s : InstanceState) (pinst opaqueData : Nat) (val : List UInt8),
        cfg.pidCookie = 0 → u32 val.length ≠ 0 → s.ig = g.view → g.NoCarry v →
        (v.toNat < ((s.updatePrepareId v.toNat).proposalMsg cfg pinst opaqueData val).pp.pid ↔
          g.Clears v) := by
  refine ⟨IdGen64.jumpsPast_iff hs hfit, fun cfg s pinst opaqueData val hcookie hval hig hc => ?_⟩
  rw [pid_after_update hs hc hfit hcookie hval hig]
  exact IdGen64.past_iff hs hc hfit

/-- The ids 11, 16, ... and a jump to 33. -/
theorem nextId_past_iff_six :
    let g : IdGen64 := ⟨11, 5⟩
    (g.JumpsPast 33 ↔ g.Clears 33) ∧
      (33 < (({ InstanceState.new 0 5 0 with ig := g.view }.updatePrepareId 33).proposalMsg
        (Configure.init 0) 0 0 [1]).pp.pid ↔ g.Clears 33) := by
  intro g
  have hboth := nextId_past_iff (g := g) (v := 33) (by decide)
    ⟨36, ⟨by decide, by decide, by decide⟩, by decide⟩
  exact ⟨hboth.1, hboth.2 _ _ 0 0 [1] rfl (by decide) rfl (by decide)⟩

/-- The ids 1, 4, ... and a jump to 4: the next id is 4. -/
theorem not_nextId_past :
    ¬ ∀ (g : IdGen64) (v : UInt64), 0 < g.step → g.Fits v → g.JumpsPast v := by
  intro hall
  have hleast := hall ⟨1, 3⟩ 4 (by decide) ⟨7, ⟨by decide, by decide, by decide⟩, by decide⟩
  exact absurd hleast.1.1 (by decide)

end Quarrel
