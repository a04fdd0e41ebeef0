import Quarrel.Core.Quorum
import Mathlib.Order.Defs.LinearOrder

/-!
# Votes in ballots

`vote a b v`: voter `a` has voted for value `v` in ballot `b`. A ballot is
closed below once a majority has no vote in an earlier one.

* `ClosedBelow.not_majority`: nothing is voted for by a majority below a closed
  ballot.
* `VotedFor.agree`: where no voter votes for two values in one ballot, and every
  ballot with a majority is closed below, one value in one ballot has a majority.
-/
namespace Quarrel

variable {α β γ : Type*} [Fintype α] [DecidableEq α] [LinearOrder β]

/-- A majority has voted for `v` in ballot `b`. -/
def VotedFor (vote : α → β → γ → Prop) (b : β) (v : γ) : Prop :=
  ∃ Q : Finset α, Majority Q ∧ ∀ a ∈ Q, vote a b v

/-- A majority has not voted in any ballot before `b`. -/
def ClosedBelow (vote : α → β → γ → Prop) (b : β) : Prop :=
  ∃ Q : Finset α, Majority Q ∧ ∀ a ∈ Q, ∀ b' v, vote a b' v → b ≤ b'

section

variable {vote : α → β → γ → Prop} {b b' : β} {v v' : γ}

theorem ClosedBelow.not_majority (h : ClosedBelow vote b) (hlt : b' < b) :
    ¬ ∃ P : Finset α, Majority P ∧ ∀ a ∈ P, ∃ v, vote a b' v := by
  obtain ⟨Q, hQ, hall⟩ := h
  refine hQ.not_all (p := fun a => ∃ v, vote a b' v) fun a ha ⟨v, hv⟩ => ?_
  exact absurd hlt (not_lt_of_ge (hall a ha b' v hv))

theorem ClosedBelow.le (h : ClosedBelow vote b) (h' : VotedFor vote b' v) : b ≤ b' := by
  obtain ⟨P, hP, hall⟩ := h'
  refine le_of_not_gt fun hlt => h.not_majority hlt ⟨P, hP, fun a ha => ⟨v, hall a ha⟩⟩

theorem VotedFor.agree (hone : ∀ a b v v', vote a b v → vote a b v' → v = v')
    (h : VotedFor vote b v) (h' : VotedFor vote b' v') (hb : ClosedBelow vote b)
    (hb' : ClosedBelow vote b') :
    b = b' ∧ v = v' := by
  obtain rfl : b = b' := le_antisymm (hb.le h') (hb'.le h)
  obtain ⟨P, hP, hall⟩ := h
  obtain ⟨Q, hQ, hall'⟩ := h'
  obtain ⟨a, ha, ha'⟩ := hP.inter hQ
  exact ⟨rfl, hone a b v v' (hall a ha) (hall' a ha')⟩

end

end Quarrel
