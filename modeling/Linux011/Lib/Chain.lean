import Mathlib.Data.List.Nodup
import Mathlib.Logic.Function.Basic

/-!
# Linked lists

A list of cells each of which points to the next. `Chain next p l` says that the pointers from `p` on
go through `l` and end. A chain is acyclic because it ends: from a cell the rest of the way is always
the same, so no cell comes twice.
-/

namespace Linux011.Lib

variable {ι : Type*} {next next' : ι → Option ι} {p : Option ι} {i j : ι} {l l' : List ι}

inductive Chain (next : ι → Option ι) : Option ι → List ι → Prop
  | nil : Chain next none []
  | cons {i : ι} {l : List ι} : Chain next (next i) l → Chain next (some i) (i :: l)

theorem Chain.unique (h : Chain next p l) (h' : Chain next p l') : l = l' := by
  induction h generalizing l' with
  | nil =>
    cases h'
    rfl
  | cons _ ih =>
    cases h' with
    | cons h' => rw [ih h']

/-- From a cell of the chain on. -/
theorem Chain.from_mem (h : Chain next p l) (hi : i ∈ l) :
    ∃ l', Chain next (some i) l' ∧ l'.length ≤ l.length := by
  induction h with
  | nil => cases hi
  | @cons j l hl ih =>
    obtain rfl | hi := List.mem_cons.mp hi
    · exact ⟨_, .cons hl, Nat.le_refl _⟩
    · obtain ⟨l', hl', hle⟩ := ih hi
      exact ⟨l', hl', Nat.le_succ_of_le hle⟩

theorem Chain.nodup (h : Chain next p l) : l.Nodup := by
  induction h with
  | nil => exact List.nodup_nil
  | @cons i l hl ih =>
    refine List.nodup_cons.mpr ⟨fun hi => ?_, ih⟩
    obtain ⟨l', hl', hle⟩ := hl.from_mem hi
    rw [← (Chain.cons hl).unique hl', List.length_cons] at hle
    exact Nat.not_succ_le_self _ hle

/-- Only the cells of the chain matter. -/
theorem Chain.congr (h : Chain next p l) (hnext : ∀ i ∈ l, next' i = next i) : Chain next' p l := by
  induction h with
  | nil => exact .nil
  | @cons i l _ ih =>
    refine .cons ?_
    rw [hnext i List.mem_cons_self]
    exact ih fun j hj => hnext j (List.mem_cons_of_mem _ hj)

/-- The first cell, and what it points to. -/
theorem Chain.head (h : Chain next (some i) l) : ∃ l', l = i :: l' ∧ Chain next (next i) l' := by
  cases h with
  | cons h => exact ⟨_, rfl, h⟩

theorem Chain.eq_nil (h : Chain next none l) : l = [] := by
  cases h
  rfl

/-- A new cell after cell `i`. -/
theorem Chain.insert [DecidableEq ι] {l₁ l₂ : List ι} (h : Chain next p (l₁ ++ i :: l₂))
    (hj : j ∉ l₁ ++ i :: l₂) :
    Chain (Function.update (Function.update next j (next i)) i (some j)) p (l₁ ++ i :: j :: l₂) := by
  have hnodup := h.nodup
  induction l₁ generalizing p with
  | nil =>
    cases h with
    | cons h =>
      rw [List.nil_append] at hj hnodup ⊢
      obtain ⟨hi, -⟩ := List.nodup_cons.mp hnodup
      have hne : j ≠ i := fun he => hj (he ▸ List.mem_cons_self)
      refine .cons ?_
      rw [Function.update_self]
      refine .cons ?_
      rw [Function.update_of_ne hne, Function.update_self]
      refine h.congr fun k hk => ?_
      have hki : k ≠ i := fun he => hi (he ▸ hk)
      have hkj : k ≠ j := fun he => hj (he ▸ List.mem_cons_of_mem _ hk)
      rw [Function.update_of_ne hki, Function.update_of_ne hkj]
  | cons k l₁ ih =>
    rw [List.cons_append] at h hj hnodup ⊢
    cases h with
    | cons h =>
      obtain ⟨hk, hnodup⟩ := List.nodup_cons.mp hnodup
      have hki : k ≠ i := fun he => hk (he ▸ List.mem_append_right _ List.mem_cons_self)
      have hkj : k ≠ j := fun he => hj (he ▸ List.mem_cons_self)
      refine .cons ?_
      rw [Function.update_of_ne hki, Function.update_of_ne hkj]
      exact ih h (fun hmem => hj (List.mem_cons_of_mem _ hmem)) hnodup

theorem Chain.tail {l : List ι} (h : Chain next p (i :: l)) : Chain next (next i) l := by
  cases h with
  | cons h => exact h

/-- What a cell points to goes through the rest. -/
theorem Chain.rest {l₁ l₂ : List ι} (h : Chain next p (l₁ ++ i :: l₂)) : Chain next (next i) l₂ := by
  induction l₁ generalizing p with
  | nil => exact h.tail
  | cons k l₁ ih =>
    rw [List.cons_append] at h
    cases h with
    | cons h => exact ih h

theorem Chain.start {l₂ : List ι} (h : Chain next p (i :: l₂)) : p = some i := by
  cases h
  rfl

/-- The cell after cell `i` is taken out. -/
theorem Chain.remove [DecidableEq ι] {l₁ l₂ : List ι} (h : Chain next p (l₁ ++ i :: j :: l₂)) :
    Chain (Function.update next i (next j)) p (l₁ ++ i :: l₂) := by
  have hnodup := h.nodup
  induction l₁ generalizing p with
  | nil =>
    cases h with
    | cons h =>
      obtain ⟨hi, -⟩ := List.nodup_cons.mp hnodup
      obtain ⟨l, hl, h⟩ : ∃ l, j :: l₂ = j :: l ∧ Chain next (next j) l := by
        generalize next i = q at h
        cases h with
        | cons h => exact ⟨_, rfl, h⟩
      cases hl
      refine .cons ?_
      rw [Function.update_self]
      refine h.congr fun k hk => Function.update_of_ne ?_ _ _
      exact fun he => hi (he ▸ List.mem_cons_of_mem _ hk)
  | cons k l₁ ih =>
    rw [List.cons_append] at h hnodup ⊢
    cases h with
    | cons h =>
      obtain ⟨hk, hnodup⟩ := List.nodup_cons.mp hnodup
      have hki : k ≠ i := fun he => hk (he ▸ List.mem_append_right _ List.mem_cons_self)
      refine .cons ?_
      rw [Function.update_of_ne hki]
      exact ih h hnodup

end Linux011.Lib
