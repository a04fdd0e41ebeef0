import Mathlib.Data.Fintype.Card
import Mathlib.Data.Finset.Dedup

/-!
# Majorities of a finite set of voters

`Majority Q` is the count test `total / 2 + 1 ≤ votes`. Two majorities share
a voter (`Majority.inter`), and a count of votes that grows by one only when a
new voter answers never exceeds the number of voters that answered
(`card_insert_new`). Voters that every majority meets are `Blocking`. In a list of answers, one a voter, the answers that meet a
test are a majority's exactly when there are enough of them (`exists_majority_iff`).
-/
namespace Quarrel

variable {α : Type*} [Fintype α]

/-- At least half of the voters plus one. -/
def Majority (Q : Finset α) : Prop := Fintype.card α / 2 + 1 ≤ Q.card

theorem Majority.mono {P Q : Finset α} (h : Majority P) (hs : P ⊆ Q) : Majority Q :=
  Nat.le_trans h (Finset.card_le_card hs)

theorem Majority.inter [DecidableEq α] {P Q : Finset α} (hP : Majority P) (hQ : Majority Q) :
    ∃ a, a ∈ P ∧ a ∈ Q := by
  have hsum := Finset.card_union_add_card_inter P Q
  have hle := Finset.card_le_univ (P ∪ Q)
  unfold Majority at hP hQ
  have hpos : 0 < (P ∩ Q).card := by omega
  obtain ⟨a, ha⟩ := Finset.card_pos.mp hpos
  exact ⟨a, Finset.mem_inter.mp ha⟩

theorem majority_univ [Nonempty α] : Majority (Finset.univ : Finset α) := by
  have := Fintype.card_pos (α := α)
  unfold Majority
  rw [Finset.card_univ]
  omega

/-- A property that no member of one majority has is had by no majority. -/
theorem Majority.not_all [DecidableEq α] {Q : Finset α} {p : α → Prop} (hQ : Majority Q)
    (hp : ∀ a ∈ Q, ¬ p a) : ¬ ∃ P : Finset α, Majority P ∧ ∀ a ∈ P, p a := by
  intro hQ
  obtain ⟨P, hP, hall⟩ := hQ
  obtain ⟨a, haQ, haP⟩ := hQ.inter hP
  exact hp a haQ (hall a haP)

/-- Every majority has a voter with the property: those without it are none. -/
def Blocking (p : α → Prop) : Prop := ∀ Q : Finset α, Majority Q → ∃ a ∈ Q, p a

theorem Majority.blocking [DecidableEq α] {Q : Finset α} {p : α → Prop} (hQ : Majority Q)
    (hp : ∀ a ∈ Q, p a) : Blocking p := by
  intro P hP
  obtain ⟨a, haQ, haP⟩ := hQ.inter hP
  exact ⟨a, haP, hp a haQ⟩

omit [Fintype α] in
theorem card_insert_new [DecidableEq α] {Q : Finset α} {a : α} {v : Nat} (hv : v ≤ Q.card)
    (ha : a ∉ Q) : v + 1 ≤ (insert a Q).card := by
  rw [Finset.card_insert_of_notMem ha]; omega

/-! ## Lists of answers, one a voter -/

section

variable [DecidableEq α] {β : Type*} {p : β → Prop} [DecidablePred p] {l : List (α × β)}

theorem exists_majority_iff (hl : (l.map Prod.fst).Nodup) :
    (∃ Q : Finset α, Majority Q ∧ ∀ a ∈ Q, ∃ b, (a, b) ∈ l ∧ p b) ↔
      Fintype.card α / 2 + 1 ≤ (l.filter fun x => p x.2).length := by
  have hsub : ((l.filter fun x => p x.2).map Prod.fst).Nodup :=
    hl.sublist (List.filter_sublist.map Prod.fst)
  have hcard : ((l.filter fun x => p x.2).map Prod.fst).toFinset.card =
      (l.filter fun x => p x.2).length := by
    rw [List.toFinset_card_of_nodup hsub, List.length_map]
  constructor
  · intro hQ
    obtain ⟨Q, hQ, hall⟩ := hQ
    rw [← hcard]
    refine hQ.mono fun a ha => ?_
    obtain ⟨b, hb, hp⟩ := hall a ha
    exact List.mem_toFinset.mpr (List.mem_map.mpr ⟨(a, b), List.mem_filter.mpr ⟨hb, by simpa using hp⟩, rfl⟩)
  · intro h
    refine ⟨_, hcard.symm ▸ h, fun a ha => ?_⟩
    obtain ⟨⟨a', b⟩, hx, rfl⟩ := List.mem_map.mp (List.mem_toFinset.mp ha)
    obtain ⟨hmem, hp⟩ := List.mem_filter.mp hx
    exact ⟨b, hmem, by simpa using hp⟩

/-- As many answers as voters: every voter has answered. -/
theorem mem_of_all_answered (hl : (l.map Prod.fst).Nodup) (hn : l.length = Fintype.card α) (a : α) :
    a ∈ l.map Prod.fst := by
  have hcard : (l.map Prod.fst).toFinset.card = Fintype.card α := by
    rw [List.toFinset_card_of_nodup hl, List.length_map, hn]
  have huniv := Finset.eq_univ_of_card _ hcard
  exact List.mem_toFinset.mp (huniv ▸ Finset.mem_univ a)

omit [DecidableEq α] in
theorem length_le_card (hl : (l.map Prod.fst).Nodup) : l.length ≤ Fintype.card α := by
  rw [← List.length_map (f := Prod.fst)]
  exact hl.length_le_card

end

end Quarrel
