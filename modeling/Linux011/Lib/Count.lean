import Mathlib.Data.Finset.Card
import Mathlib.Algebra.BigOperators.Group.Finset.Piecewise
import Mathlib.Data.Fintype.BigOperators

/-!
# Counting under a single change

Reference counts are cardinals of filtered finite sets: how many places satisfy a predicate. A
program step changes the predicate at one place, and the count moves by the difference of the two
answers there. The law is stated without subtraction, so that `omega` can use it as it stands.
-/

namespace Linux011.Lib

open Finset

variable {α : Type*}

/-- Two predicates that agree on a set have the same count there. -/
theorem card_filter_agree {s : Finset α} {p q : α → Prop} [DecidablePred p] [DecidablePred q]
    (h : ∀ x ∈ s, (p x ↔ q x)) : (s.filter p).card = (s.filter q).card := by
  rw [filter_congr h]

/-- THE COUNTING LAW: predicates that agree away from `a` have counts that differ by their answers
at `a`. -/
theorem card_filter_change [DecidableEq α] {s : Finset α} {p q : α → Prop} [DecidablePred p] [DecidablePred q]
    {a : α} (ha : a ∈ s) (h : ∀ x ∈ s, x ≠ a → (p x ↔ q x)) :
    (s.filter q).card + (if p a then 1 else 0) = (s.filter p).card + (if q a then 1 else 0) := by
  have split : ∀ (r : α → Prop) [DecidablePred r],
      (s.filter r).card = ((s.erase a).filter r).card + (if r a then 1 else 0) := by
    intro r _
    conv_lhs => rw [← insert_erase ha, filter_insert]
    split
    · rw [card_insert_of_notMem (by simp)]
    · rfl
  have rest : ((s.erase a).filter p).card = ((s.erase a).filter q).card :=
    card_filter_agree fun x hx => h x (mem_of_mem_erase hx) (ne_of_mem_erase hx)
  rw [split p, split q, rest]
  omega

/-- A count is zero exactly when no place satisfies the predicate. -/
theorem card_filter_zero {s : Finset α} {p : α → Prop} [DecidablePred p] :
    (s.filter p).card = 0 ↔ ∀ x ∈ s, ¬ p x := by
  rw [card_eq_zero, filter_eq_empty_iff]

/-- A count is one when exactly one place satisfies the predicate. -/
theorem card_filter_one {s : Finset α} {p : α → Prop} [DecidablePred p] {a : α} (ha : a ∈ s)
    (hp : p a) (h : ∀ x ∈ s, p x → x = a) : (s.filter p).card = 1 := by
  rw [card_eq_one]
  refine ⟨a, ?_⟩
  ext x
  simp only [mem_filter, mem_singleton]
  constructor
  · rintro ⟨hx, hpx⟩
    exact h x hx hpx
  · rintro rfl
    exact ⟨ha, hp⟩

/-- A count is bounded by the number of values that an injective label takes on it. -/
theorem card_filter_le_of_label {β : Type*} {s : Finset α} {p : α → Prop}
    [DecidablePred p] (label : α → β) (t : Finset β) (hmem : ∀ x ∈ s, p x → label x ∈ t)
    (hinj : ∀ x ∈ s, p x → ∀ y ∈ s, p y → label x = label y → x = y) :
    (s.filter p).card ≤ t.card := by
  apply card_le_card_of_injOn label
  · intro x hx
    simp only [coe_filter, Set.mem_ofPred_eq] at hx
    exact hmem x hx.1 hx.2
  · intro x hx y hy hxy
    simp only [coe_filter, Set.mem_ofPred_eq] at hx hy
    exact hinj x hx.1 hx.2 y hy.1 hy.2 hxy

/-- A sum over a table one place of which has changed. -/
theorem sum_update {ι : Type*} [Fintype ι] [DecidableEq ι] (v : α → Nat) (table : ι → α) (i : ι) (x : α) :
    ∑ j, v (Function.update table i x j) + v (table i) = ∑ j, v (table j) + v x := by
  have hrest : ∀ j ∈ univ.erase i, v (Function.update table i x j) = v (table j) := by
    intro j hj
    rw [Function.update_of_ne (ne_of_mem_erase hj)]
  have hnew := add_sum_erase univ (fun j => v (Function.update table i x j)) (mem_univ i)
  have hold := add_sum_erase univ (fun j => v (table j)) (mem_univ i)
  rw [sum_congr rfl hrest, Function.update_self] at hnew
  rw [← hnew, ← hold]
  omega

end Linux011.Lib
