import Mathlib.Data.List.Basic

/-!
# Machines with outputs

A machine answers each input with an output, or is stuck. A specification answers
always. `run_refines` lifts a simulation of one step to a run: the machine is never
stuck and gives the outputs of the specification.

`C` is what the inputs still to come have to meet.
-/
namespace Quarrel.Machine

variable {S T I O : Type*}

/-- Feed the inputs in order; `none` is a machine that is stuck. -/
def run (f : S → I → Option (O × S)) : S → List I → Option (List O × S)
  | s, [] => some ([], s)
  | s, i :: is => (f s i).bind fun r => (run f r.2 is).map fun q => (r.1 :: q.1, q.2)

/-- The outputs of a specification, and the state after them. -/
def outputs (g : T → I → O × T) : T → List I → List O × T
  | t, [] => ([], t)
  | t, i :: is => ((g t i).1 :: (outputs g (g t i).2 is).1, (outputs g (g t i).2 is).2)

variable {f : S → I → Option (O × S)} {g : T → I → O × T} {R : S → T → Prop}
  {C : T → List I → Prop}

theorem run_cons {s s' : S} {i : I} {is : List I} {o : O} (h : f s i = some (o, s')) :
    run f s (i :: is) = (run f s' is).map fun q => (o :: q.1, q.2) := by
  simp only [run, h, Option.bind_some]

theorem run_refines (hok : ∀ t i is, C t (i :: is) → C (g t i).2 is)
    (hstep : ∀ s t i is, R s t → C t (i :: is) → ∃ s', f s i = some ((g t i).1, s') ∧ R s' (g t i).2) :
    ∀ (is : List I) (s : S) (t : T), R s t → C t is →
      ∃ s', run f s is = some ((outputs g t is).1, s') ∧ R s' (outputs g t is).2 := by
  intro is
  induction is with
  | nil => exact fun s t hR _ => ⟨s, rfl, hR⟩
  | cons i is ih =>
    intro s t hR ht
    obtain ⟨s₁, h₁, hR₁⟩ := hstep s t i is hR ht
    obtain ⟨s₂, h₂, hR₂⟩ := ih s₁ _ hR₁ (hok t i is ht)
    refine ⟨s₂, ?_, hR₂⟩
    rw [run_cons h₁, h₂]
    rfl

theorem outputs_concat (t : T) (is : List I) (i : I) :
    outputs g t (is ++ [i]) =
      ((outputs g t is).1 ++ [(g (outputs g t is).2 i).1], (g (outputs g t is).2 i).2) := by
  induction is generalizing t with
  | nil => rfl
  | cons j is ih => simp only [List.cons_append, outputs, ih]

/-- What every step of a specification keeps, together with a record of the inputs. -/
theorem outputs_preserve {A : Type*} {r : A → I → A} {P : A → T → Prop}
    (h : ∀ a t i, P a t → P (r a i) (g t i).2) :
    ∀ (is : List I) (a : A) (t : T), P a t → P (is.foldl r a) (outputs g t is).2 := by
  intro is
  induction is with
  | nil => exact fun _ _ hP => hP
  | cons i is ih => exact fun a t hP => ih _ _ (h a t i hP)

end Quarrel.Machine
