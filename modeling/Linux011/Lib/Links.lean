import Mathlib.Data.List.Nodup
import Linux011.Lib.Chain

/-!
# Doubly linked lists

A list of cells with pointers both ways. `Segment next prev back p l ahead` says that the pointers from
`p` on go through `l` and then to `ahead`, and that the pointers the other way come back, at the first
cell to `back`. A list that ends has `none` at both ends. In a ring the ends are the last cell and the
first one.

Taking a cell out redirects the pointers that there are to it: they get what the cell itself has
(`Segment.skip`). A new cell goes to the front or to the end.
-/

namespace Linux011.Lib

variable {ι : Type*} {next next' prev prev' : ι → Option ι} {back back' p q ahead ahead' : Option ι}
  {i x : ι} {l l₁ l₂ : List ι}

inductive Segment (next prev : ι → Option ι) : Option ι → Option ι → List ι → Option ι → Prop
  | nil {back ahead : Option ι} : Segment next prev back ahead [] ahead
  | cons {back ahead : Option ι} {i : ι} {l : List ι} (hb : prev i = back)
      (h : Segment next prev (some i) (next i) l ahead) : Segment next prev back (some i) (i :: l) ahead

namespace Segment

theorem start_nil (h : Segment next prev back p [] ahead) : p = ahead := by
  cases h
  rfl

theorem start_cons (h : Segment next prev back p (i :: l) ahead) : p = some i := by
  cases h
  rfl

theorem tail (h : Segment next prev back p (i :: l) ahead) :
    prev i = back ∧ Segment next prev (some i) (next i) l ahead := by
  cases h with
  | cons hb h => exact ⟨hb, h⟩

/-- A list that ends is a chain in one direction. -/
theorem chain (h : Segment next prev back p l none) : Chain next p l := by
  generalize he : (none : Option ι) = ahead at h
  induction h with
  | nil =>
    cases he
    exact .nil
  | cons _ _ ih => exact .cons (ih he)

/-- Only the pointers of the cells matter. -/
theorem congr (h : Segment next prev back p l ahead) (hn : ∀ i ∈ l, next' i = next i)
    (hp : ∀ i ∈ l, prev' i = prev i) : Segment next' prev' back p l ahead := by
  induction h with
  | nil => exact .nil
  | cons hb _ ih =>
    refine .cons ((hp _ List.mem_cons_self).trans hb) ?_
    rw [hn _ List.mem_cons_self]
    exact ih (fun j hj => hn j (List.mem_cons_of_mem _ hj))
      fun j hj => hp j (List.mem_cons_of_mem _ hj)

/-- The last cell before what follows. -/
def last (back : Option ι) : List ι → Option ι
  | [] => back
  | i :: l => last (some i) l

theorem last_append (back : Option ι) (l₁ l₂ : List ι) :
    last back (l₁ ++ l₂) = last (last back l₁) l₂ := by
  induction l₁ generalizing back with
  | nil => rfl
  | cons i l₁ ih => exact ih (some i)

theorem last_mem (back : Option ι) (i : ι) (l : List ι) : ∃ j ∈ i :: l, last back (i :: l) = some j := by
  induction l generalizing i back with
  | nil => exact ⟨i, List.mem_cons_self, rfl⟩
  | cons k l ih =>
    obtain ⟨j, hj, hlast⟩ := ih (some i) k
    exact ⟨j, List.mem_cons_of_mem _ hj, hlast⟩

theorem append (h : Segment next prev back p l₁ q) (h' : Segment next prev (last back l₁) q l₂ ahead) :
    Segment next prev back p (l₁ ++ l₂) ahead := by
  induction h with
  | nil => exact h'
  | cons hb _ ih => exact .cons hb (ih h')

theorem split (h : Segment next prev back p (l₁ ++ l₂) ahead) :
    ∃ q, Segment next prev back p l₁ q ∧ Segment next prev (last back l₁) q l₂ ahead := by
  induction l₁ generalizing back p with
  | nil => exact ⟨p, .nil, h⟩
  | cons i l₁ ih =>
    rw [List.cons_append] at h
    cases h.start_cons
    obtain ⟨hb, h⟩ := h.tail
    obtain ⟨q, h₁, h₂⟩ := ih h
    exact ⟨q, .cons hb h₁, h₂⟩

/-- The pointers of one cell of the list. -/
theorem at_cell (h : Segment next prev back p (l₁ ++ x :: l₂) ahead) :
    Segment next prev back p l₁ (some x) ∧ prev x = last back l₁ ∧
      Segment next prev (some x) (next x) l₂ ahead := by
  obtain ⟨q, h₁, h₂⟩ := h.split
  cases h₂.start_cons
  exact ⟨h₁, h₂.tail⟩

/-! ## Lists and rings -/

/-- The ends of a list point nowhere, those of a ring at each other. -/
def Ends (back p : Option ι) (l : List ι) (ahead : Option ι) : Prop :=
  (back = none ∧ ahead = none) ∨ (back = last none l ∧ ahead = p)

theorem prev_of_next (h : Segment next prev back p l ahead) (E : Ends back p l ahead) (hi : i ∈ l)
    (hn : next i = some x) : x ∈ l ∧ prev x = some i := by
  obtain ⟨l₁, l₂, rfl⟩ := List.append_of_mem hi
  obtain ⟨-, -, h₂⟩ := h.at_cell
  rw [hn] at h₂
  cases l₂ with
  | cons y l₂ =>
    cases h₂.start_cons
    exact ⟨List.mem_append_right _ (List.mem_cons_of_mem _ List.mem_cons_self), h₂.tail.1⟩
  | nil =>
    -- the last cell of a ring points to the first one
    have ha := h₂.start_nil
    rcases E with ⟨-, hnone⟩ | ⟨hback, hp⟩
    · rw [hnone] at ha
      cases ha
    · rw [last_append] at hback
      rw [hp] at ha
      cases l₁ with
      | nil =>
        rw [List.nil_append] at h ⊢
        cases ha.trans h.start_cons
        exact ⟨List.mem_cons_self, h.tail.1.trans hback⟩
      | cons y l₁ =>
        rw [List.cons_append] at h ⊢
        cases ha.trans h.start_cons
        exact ⟨List.mem_cons_self, h.tail.1.trans hback⟩

theorem next_of_prev (h : Segment next prev back p l ahead) (E : Ends back p l ahead) (hx : x ∈ l)
    (hp : prev x = some i) : i ∈ l ∧ next i = some x := by
  obtain ⟨l₁, l₂, rfl⟩ := List.append_of_mem hx
  obtain ⟨h₁, hlast, -⟩ := h.at_cell
  rw [hp] at hlast
  rcases List.eq_nil_or_concat l₁ with rfl | ⟨l₀, z, rfl⟩
  · -- the first cell of a ring points back to the last one
    rcases E with ⟨hnone, -⟩ | ⟨hback, hahead⟩
    · rw [hnone] at hlast
      cases hlast
    · have hi : last none ([] ++ x :: l₂) = some i := by rw [← hback, hlast]; rfl
      rw [List.nil_append] at h hi ⊢
      rcases List.eq_nil_or_concat l₂ with rfl | ⟨l₀, z, rfl⟩
      · cases hi
        refine ⟨List.mem_cons_self, ?_⟩
        rw [h.tail.2.start_nil, hahead, h.start_cons]
      · rw [List.concat_eq_append, ← List.cons_append, last_append] at hi
        cases hi
        rw [List.concat_eq_append, ← List.cons_append] at h ⊢
        refine ⟨List.mem_append_right _ List.mem_cons_self, ?_⟩
        rw [h.at_cell.2.2.start_nil, hahead, h.start_cons]
  · rw [List.concat_eq_append] at h₁ h hlast ⊢
    rw [last_append] at hlast
    cases hlast
    refine ⟨List.mem_append_left _ (List.mem_append_right _ List.mem_cons_self), ?_⟩
    exact h₁.at_cell.2.2.start_nil

/-! ## Taking a cell out -/

/-- A pointer to `x` is replaced by what `x` has there. -/
def skip [DecidableEq ι] (x : ι) (r q : Option ι) : Option ι := if q = some x then r else q

variable [DecidableEq ι]

theorem skip_self (r : Option ι) : skip x r r = r := by
  unfold skip
  split
  · rfl
  · rfl

/-- Cells other than `x`, with the pointers to `x` redirected. -/
theorem redirect (h : Segment next prev back p l ahead) (hx : x ∉ l)
    (hn : ∀ i ∈ l, next' i = skip x (next x) (next i))
    (hp : ∀ i ∈ l, prev' i = skip x (prev x) (prev i)) :
    Segment next' prev' (skip x (prev x) back) (skip x (next x) p) l (skip x (next x) ahead) := by
  induction h with
  | nil => exact .nil
  | @cons back ahead i l hb _ ih =>
    have hne : i ≠ x := fun he => hx (he ▸ List.mem_cons_self)
    have hsome : ∀ r, skip x r (some i) = some i := fun _ =>
      if_neg fun he => hne (Option.some.inj he)
    have hrest := ih (fun hmem => hx (List.mem_cons_of_mem _ hmem))
      (fun j hj => hn j (List.mem_cons_of_mem _ hj)) fun j hj => hp j (List.mem_cons_of_mem _ hj)
    rw [hsome] at hrest ⊢
    refine .cons ?_ ?_
    · rw [hp i List.mem_cons_self, hb]
    · rw [hn i List.mem_cons_self]
      exact hrest

/-- The list without `x`. -/
theorem without (h : Segment next prev back p l ahead) (hnd : l.Nodup) (hx : x ∈ l)
    (hn : ∀ i ∈ l, i ≠ x → next' i = skip x (next x) (next i))
    (hp : ∀ i ∈ l, i ≠ x → prev' i = skip x (prev x) (prev i)) :
    Segment next' prev' (skip x (prev x) back) (skip x (next x) p) (l.erase x)
      (skip x (next x) ahead) := by
  obtain ⟨l₁, l₂, rfl⟩ := List.append_of_mem hx
  obtain ⟨h₁, hback, h₂⟩ := h.at_cell
  obtain ⟨hx₁, hx₂⟩ : x ∉ l₁ ∧ x ∉ l₂ := by
    have hno := (List.nodup_cons.mp (List.nodup_middle.mp hnd)).1
    rwa [List.mem_append, not_or] at hno
  have hmem₁ : ∀ i ∈ l₁, i ∈ l₁ ++ x :: l₂ ∧ i ≠ x := fun i hi =>
    ⟨List.mem_append_left _ hi, fun he => hx₁ (he ▸ hi)⟩
  have hmem₂ : ∀ i ∈ l₂, i ∈ l₁ ++ x :: l₂ ∧ i ≠ x := fun i hi =>
    ⟨List.mem_append_right _ (List.mem_cons_of_mem _ hi), fun he => hx₂ (he ▸ hi)⟩
  have r₁ : Segment next' prev' _ _ l₁ _ := h₁.redirect hx₁
    (fun i hi => hn i (hmem₁ i hi).1 (hmem₁ i hi).2) fun i hi => hp i (hmem₁ i hi).1 (hmem₁ i hi).2
  have r₂ : Segment next' prev' _ _ l₂ _ := h₂.redirect hx₂
    (fun i hi => hn i (hmem₂ i hi).1 (hmem₂ i hi).2) fun i hi => hp i (hmem₂ i hi).1 (hmem₂ i hi).2
  have hself : skip x (next x) (some x) = next x := if_pos rfl
  have hself' : skip x (prev x) (some x) = prev x := if_pos rfl
  have hlast : last (skip x (prev x) back) l₁ = prev x := by
    cases l₁ with
    | nil =>
      rw [hback]
      exact skip_self _
    | cons y l₁ => exact hback.symm
  rw [hself] at r₁
  rw [hself', skip_self, ← hlast] at r₂
  rw [List.erase_append_right _ hx₁, List.erase_cons_head]
  exact r₁.append r₂

/-- The two stores that take `x` out: behind `x` and in front of it. -/
theorem unlink (h : Segment next prev back p l ahead) (E : Ends back p l ahead) (hnd : l.Nodup)
    (hx : x ∈ l) (hn : ∀ i ∈ l, i ≠ x → next' i = if prev x = some i then next x else next i)
    (hp : ∀ i ∈ l, i ≠ x → prev' i = if next x = some i then prev x else prev i) :
    Segment next' prev' (skip x (prev x) back) (skip x (next x) p) (l.erase x)
      (skip x (next x) ahead) := by
  refine h.without hnd hx (fun i hi hne => ?_) fun i hi hne => ?_
  · rw [hn i hi hne, skip]
    exact if_congr ⟨fun he => (h.next_of_prev E hx he).2, fun he => (h.prev_of_next E hi he).2⟩
      rfl rfl
  · rw [hp i hi hne, skip]
    exact if_congr ⟨fun he => (h.prev_of_next E hx he).2, fun he => (h.next_of_prev E hi he).2⟩
      rfl rfl

theorem unlink_list (h : Segment next prev none p l none) (hnd : l.Nodup) (hx : x ∈ l)
    (hn : ∀ i ∈ l, i ≠ x → next' i = if prev x = some i then next x else next i)
    (hp : ∀ i ∈ l, i ≠ x → prev' i = if next x = some i then prev x else prev i) :
    Segment next' prev' none (skip x (next x) p) (l.erase x) none := by
  have hnone : ∀ r, skip x r none = none := fun r => if_neg nofun
  have key := h.unlink (Or.inl ⟨rfl, rfl⟩) hnd hx hn hp
  rwa [hnone, hnone] at key

theorem unlink_ring (h : Segment next prev (last none l) p l p) (hnd : l.Nodup) (hx : x ∈ l)
    (hn : ∀ i ∈ l, i ≠ x → next' i = if prev x = some i then next x else next i)
    (hp : ∀ i ∈ l, i ≠ x → prev' i = if next x = some i then prev x else prev i) :
    Segment next' prev' (last none (l.erase x)) (skip x (next x) p) (l.erase x)
      (skip x (next x) p) := by
  have key := h.unlink (Or.inr ⟨rfl, rfl⟩) hnd hx hn hp
  obtain ⟨l₁, l₂, rfl⟩ := List.append_of_mem hx
  obtain ⟨hx₁, hx₂⟩ : x ∉ l₁ ∧ x ∉ l₂ := by
    have hno := (List.nodup_cons.mp (List.nodup_middle.mp hnd)).1
    rwa [List.mem_append, not_or] at hno
  obtain ⟨-, hback, -⟩ := h.at_cell
  rw [List.erase_append_right _ hx₁, List.erase_cons_head] at key ⊢
  cases l₂ with
  | cons y l₂ =>
    -- the last cell is another one
    have hlast : ∀ b, last b (l₁ ++ y :: l₂) = last none (l₁ ++ x :: y :: l₂) := fun b => by
      rw [last_append, last_append]
      rfl
    obtain ⟨j, hj, hlj⟩ := last_mem none y l₂
    have hne : last none (l₁ ++ x :: y :: l₂) ≠ some x := by
      rw [last_append]
      intro he
      have hj' : some j = some x := hlj.symm.trans he
      exact hx₂ (Option.some.inj hj' ▸ hj)
    rw [skip, if_neg hne] at key
    rw [hlast]
    exact key
  | nil =>
    rw [List.append_nil] at key ⊢
    have hlast : last none (l₁ ++ [x]) = some x := last_append ..
    rw [hlast, skip, if_pos rfl, hback] at key
    cases l₁ with
    | nil =>
      rw [key.start_nil]
      exact .nil
    | cons y l₁ => exact key

/-! ## Putting a cell in -/

/-- The first cell points back to something else. -/
theorem reback (h : Segment next prev back p l ahead) (hnd : l.Nodup)
    (hp : ∀ i ∈ l, prev' i = if p = some i then back' else prev i) :
    Segment next prev' back' p l ahead := by
  cases h with
  | nil => exact .nil
  | @cons _ _ i l hb h =>
    have hfirst := hp i List.mem_cons_self
    rw [if_pos rfl] at hfirst
    refine .cons hfirst (h.congr (fun _ _ => rfl) fun j hj => ?_)
    have hne : ¬ some i = some j := fun he =>
      (List.nodup_cons.mp hnd).1 (Option.some.inj he ▸ hj)
    rw [hp j (List.mem_cons_of_mem _ hj), if_neg hne]

/-- The last cell points to something else. -/
theorem reahead (h : Segment next prev back p l ahead) (hnd : l.Nodup) (hl : l ≠ [])
    (hn : ∀ i ∈ l, next' i = if last none l = some i then ahead' else next i) :
    Segment next' prev back p l ahead' := by
  rcases List.eq_nil_or_concat l with rfl | ⟨l₀, z, rfl⟩
  · exact absurd rfl hl
  rw [List.concat_eq_append] at h hnd hn ⊢
  obtain ⟨h₁, hb, -⟩ := h.at_cell
  have hlast : last none (l₀ ++ [z]) = some z := last_append ..
  have hz := hn z (List.mem_append_right _ List.mem_cons_self)
  rw [hlast, if_pos rfl] at hz
  refine append (q := some z) (h₁.congr (fun i hi => ?_) fun _ _ => rfl) (.cons hb ?_)
  · have hne : ¬ some z = some i := fun he => by
      cases he
      exact (List.nodup_cons.mp (List.nodup_middle.mp hnd)).1 (List.mem_append_left _ hi)
    rw [hn i (List.mem_append_left _ hi), hlast, if_neg hne]
  · rw [hz]
    exact .nil

/-- A new first cell of a list. -/
theorem front (h : Segment next prev none p l none) (hnd : l.Nodup)
    (hn : next' x = p ∧ ∀ i ∈ l, next' i = next i)
    (hp : prev' x = none ∧ ∀ i ∈ l, prev' i = if p = some i then some x else prev i) :
    Segment next' prev' none (some x) (x :: l) none := by
  refine .cons hp.1 ?_
  rw [hn.1]
  exact (h.reback hnd hp.2).congr hn.2 fun _ _ => rfl

/-- A new last cell of a ring. -/
theorem behind (h : Segment next prev (last none l) p l p) (hnd : l.Nodup) (hl : l ≠ [])
    (hn : next' x = p ∧ ∀ i ∈ l, next' i = if last none l = some i then some x else next i)
    (hp : prev' x = last none l ∧ ∀ i ∈ l, prev' i = if p = some i then some x else prev i) :
    Segment next' prev' (last none (l ++ [x])) p (l ++ [x]) p := by
  rw [last_append]
  refine append (q := some x) ((h.reback hnd hp.2).reahead hnd hl hn.2) (.cons ?_ ?_)
  · rw [hp.1]
    cases l with
    | nil => exact absurd rfl hl
    | cons i l => rfl
  · rw [hn.1]
    exact .nil

end Segment

end Linux011.Lib
