import Mathlib.Data.List.Basic
import Mathlib.Logic.Function.Basic

/-!
# Taking the first free places

A loop goes over the places of a table and marks the first free ones, until it has as many as it wants or
there are no more. What it has marked is the beginning of the list of the free places, in their order.
-/

namespace Linux011.Lib

variable {ι α : Type*} [DecidableEq ι]

/-- Mark free places until there are `want`; `mark` is told how many there were before. -/
def take (free : α → Bool) (mark : Nat → α → α) (want : Nat) :
    List ι → List ι → (ι → α) → List ι × (ι → α)
  | [], got, s => (got, s)
  | i :: l, got, s =>
    if got.length < want then
      if free (s i) then take free mark want l (got ++ [i]) (Function.update s i (mark got.length (s i)))
      else take free mark want l got s
    else (got, s)

variable (free : α → Bool) (mark : Nat → α → α) {want : Nat} {l l₁ : List ι} (l₂ got : List ι) {s : ι → α}
  {i : ι}

theorem take_enough (l : List ι) (h : want ≤ got.length) : take free mark want l got s = (got, s) := by
  cases l with
  | nil => rfl
  | cons i l => exact if_neg (Nat.not_lt.mpr h)

/-- Places that are not free are passed. -/
theorem take_pass (h : ∀ i ∈ l₁, free (s i) = false) :
    take free mark want (l₁ ++ l₂) got s = take free mark want l₂ got s := by
  induction l₁ with
  | nil => rfl
  | cons i l₁ ih =>
    have hrest := ih fun j hj => h j (List.mem_cons_of_mem i hj)
    by_cases hgot : got.length < want
    · rw [List.cons_append, take, if_pos hgot, if_neg (by simp [h i List.mem_cons_self]), hrest]
    · rw [take_enough free mark got _ (Nat.not_lt.mp hgot), take_enough free mark got _ (Nat.not_lt.mp hgot)]

/-- The first free place is taken, and the others stay as they are. -/
theorem take_first (hl : l.Nodup) (hgot : got.length < want) {rest : List ι}
    (h : l.filter (fun i => free (s i)) = i :: rest) : ∃ l₂, l₂.Nodup ∧
      (l₂.filter fun j => free (Function.update s i (mark got.length (s i)) j)) = rest ∧
      take free mark want l got s =
        take free mark want l₂ (got ++ [i]) (Function.update s i (mark got.length (s i))) := by
  obtain ⟨l₁, l₂, rfl, hbefore, hfree, hrest⟩ := List.filter_eq_cons_iff.mp h
  have hl₂ : (i :: l₂).Nodup := (List.nodup_append.mp hl).2.1
  obtain ⟨hi, hl₂⟩ := List.nodup_cons.mp hl₂
  refine ⟨l₂, hl₂, ?_, ?_⟩
  · rw [← hrest]
    refine List.filter_congr fun j hj => ?_
    rw [Function.update_of_ne (ne_of_mem_of_not_mem hj hi)]
  · rw [take_pass free mark _ got fun j hj => by simpa using hbefore j hj, take, if_pos hgot, if_pos hfree]

theorem take_none (h : l.filter (fun i => free (s i)) = []) : take free mark want l got s = (got, s) := by
  have hnone : ∀ i ∈ l, free (s i) = false := by
    intro i hi
    simpa using List.filter_eq_nil_iff.mp h i hi
  have hpass : take free mark want (l ++ []) got s = take free mark want [] got s :=
    take_pass free mark [] got hnone
  rw [List.append_nil] at hpass
  exact hpass

/-- Two places are wanted. -/
theorem take_two (hl : l.Nodup) (s : ι → α) :
    take free mark 2 l [] s = match l.filter fun i => free (s i) with
      | [] => ([], s)
      | [a] => ([a], Function.update s a (mark 0 (s a)))
      | a :: b :: _ => ([a, b], Function.update (Function.update s a (mark 0 (s a))) b
          (mark 1 (Function.update s a (mark 0 (s a)) b))) := by
  cases h : l.filter fun i => free (s i) with
  | nil => exact take_none free mark [] h
  | cons a rest =>
    obtain ⟨l₂, hl₂, hrest, htake⟩ := take_first free mark [] hl Nat.zero_lt_two h
    rw [htake]
    cases rest with
    | nil => exact take_none free mark [a] hrest
    | cons b rest =>
      obtain ⟨l₃, -, -, htake'⟩ := take_first free mark [a] hl₂ Nat.one_lt_two hrest
      rw [List.nil_append, htake']
      exact take_enough free mark [a, b] l₃ (Nat.le_refl 2)

end Linux011.Lib
