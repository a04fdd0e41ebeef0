import Mathlib.Logic.Function.Basic

/-!
# Locks

`LockHeld l o`: the lock `l` is with the thread that `o` says has it, and with no one if
there is none. It is kept by the three things a step does to a lock.
-/
namespace Quarrel

variable {θ : Type*} {l : Option θ} {o o' : θ → Prop} {t u : θ}

def LockHeld (l : Option θ) (o : θ → Prop) : Prop := ∀ t, l = some t ↔ o t

/-- Two threads are never inside. -/
theorem LockHeld.unique (h : LockHeld l o) (ht : o t) (hu : o u) : t = u := by
  have hlt := (h t).mpr ht
  rw [(h u).mpr hu] at hlt
  exact (Option.some.inj hlt).symm

theorem LockHeld.same (h : LockHeld l o) (ho : ∀ t, o' t ↔ o t) : LockHeld l o' :=
  fun t => (h t).trans (ho t).symm

theorem LockHeld.acquire (h : LockHeld none o) (hu : o' u) (ho : ∀ t, t ≠ u → (o' t ↔ o t)) :
    LockHeld (some u) o' := by
  intro t
  by_cases ht : t = u
  · subst ht
    exact iff_of_true rfl hu
  · refine iff_of_false (fun he => ht (Option.some.inj he).symm) fun hot => ?_
    cases (h t).mpr ((ho t ht).mp hot)

theorem LockHeld.release (h : LockHeld l o) (hu : o u) (hu' : ¬ o' u) (ho : ∀ t, t ≠ u → (o' t ↔ o t)) :
    LockHeld none o' := by
  refine fun t => iff_of_false (fun he => by cases he) fun hot => ?_
  by_cases ht : t = u
  · exact hu' (ht ▸ hot)
  · exact ht (h.unique ((ho t ht).mp hot) hu)

end Quarrel
