import Mathlib.Logic.Function.Basic

/-!
# Pointer trees in a store

A FOREST is a store of nodes and the pointers to them from outside. A root pointer is named by its
owner and a key; a node keeps its pointers under keys; the pointer 0 points nowhere. A PATH names
the pointer that is reached from an owner by its keys.

Nothing in the store says which trees it holds, nor which nodes have pointers in them at all: a
shape, a set of paths, says that. A forest is SEPARATE when no two paths of the shape lead to one
node, and its allocated nodes are those that a path leads to. The rules say what keeps it separate:
to point an empty pointer to a blank node that is not allocated, to change a node that is not
allocated or has no pointers, and to give all nodes of one owner back.
-/

namespace Linux011.Lib

/-- A way from an owner to a pointer, the last key outermost. -/
inductive Path (κ : Type*)
  | root (k : κ)
  | step (p : Path κ) (k : κ)
  deriving DecidableEq

structure Forest (ι κ α : Type*) where
  root : ι → κ → α
  child : α → κ → α

variable {ι κ α : Type*} [Zero α] [DecidableEq α]

/-- The pointer at the end of a path, 0 when the path ends before. -/
def Forest.ref (F : Forest ι κ α) (i : ι) : Path κ → α
  | .root k => F.root i k
  | .step p k => if F.ref i p = 0 then 0 else F.child (F.ref i p) k

/-- Shape `V` has, with a path, all that it goes on from. -/
def Shape (V : Path κ → Prop) : Prop := ∀ p k, V (.step p k) → V p

/-- Each node has one path, and the allocated nodes are those with a path. -/
structure Forest.Separate (F : Forest ι κ α) (V : Path κ → Prop) (used : α → Prop) : Prop where
  inj : ∀ {i j p q}, V p → V q → F.ref i p ≠ 0 → F.ref i p = F.ref j q → i = j ∧ p = q
  used_iff : ∀ {a}, a ≠ 0 → (used a ↔ ∃ i p, V p ∧ F.ref i p = a)

variable {F F' : Forest ι κ α} {V : Path κ → Prop} {used : α → Prop} {i j : ι} {p q : Path κ}
  {k : κ} {a v : α}

theorem Forest.ref_step_of_zero (h : F.ref i p = 0) : F.ref i (.step p k) = 0 := by
  rw [Forest.ref, if_pos h]

theorem Forest.ref_step_of_ne (h : F.ref i p ≠ 0) : F.ref i (.step p k) = F.child (F.ref i p) k := by
  rw [Forest.ref, if_neg h]

/-! ## What the pointers depend on -/

/-- Forests with the same roots and the same nodes on their paths have the same pointers. -/
theorem Forest.ref_congr (hV : Shape V) (hroot : F'.root = F.root)
    (hchild : ∀ i p k, V (.step p k) → F.ref i p ≠ 0 →
      F'.child (F.ref i p) k = F.child (F.ref i p) k) :
    ∀ q, V q → F'.ref j q = F.ref j q := by
  intro q
  induction q with
  | root k => intro _; rw [Forest.ref, Forest.ref, hroot]
  | step q k ih =>
    intro hq
    have hsame := ih (hV q k hq)
    by_cases h0 : F.ref j q = 0
    · rw [ref_step_of_zero h0, ref_step_of_zero (hsame.trans h0)]
    · rw [ref_step_of_ne h0, ref_step_of_ne (hsame ▸ h0), hsame]
      exact hchild j q k hq h0

section
variable [DecidableEq ι] [DecidableEq κ]

/-- A pointer of `i` is set to a blank node. -/
theorem Forest.ref_setRoot (hroot : F.root i k = 0) (hv : v ≠ 0)
    (hblank : ∀ k, F'.child v k = 0)
    (hroots : ∀ j l, F'.root j l = if j = i ∧ l = k then v else F.root j l)
    (hchild : ∀ b l, b ≠ v → F'.child b l = F.child b l)
    (hfresh : ∀ j q, V q → F.ref j q ≠ v) (hV : Shape V) :
    ∀ q, V q → F'.ref j q = if j = i ∧ q = .root k then v else F.ref j q := by
  intro q
  induction q with
  | root l => intro _; simp only [Forest.ref, hroots, Path.root.injEq]
  | step q l ih =>
    intro hq
    have hsame := ih (hV q l hq)
    rw [if_neg fun h => by cases h.2]
    by_cases hpath : j = i ∧ q = .root k
    · obtain ⟨rfl, rfl⟩ := hpath
      rw [if_pos ⟨rfl, rfl⟩] at hsame
      have hnone : F.ref j (.root k) = 0 := hroot
      rw [ref_step_of_ne (hsame ▸ hv), hsame, hblank, ref_step_of_zero hnone]
    · rw [if_neg hpath] at hsame
      by_cases h0 : F.ref j q = 0
      · rw [ref_step_of_zero h0, ref_step_of_zero (hsame.trans h0)]
      · rw [ref_step_of_ne h0, ref_step_of_ne (hsame ▸ h0), hsame]
        exact hchild _ l (hfresh j q (hV q l hq))

/-- A pointer of the node at `p` is set to a blank node. -/
theorem Forest.ref_setChild (S : F.Separate V used) (hV : Shape V)
    (hp : V (.step p k)) (ha : F.ref i p ≠ 0) (hzero : F.child (F.ref i p) k = 0) (hv : v ≠ 0)
    (hfresh : ¬ used v) (hblank : ∀ k, F'.child v k = 0) (hroot : F'.root = F.root)
    (hchild : ∀ b l, b ≠ v → F'.child b l = if b = F.ref i p ∧ l = k then v else F.child b l) :
    ∀ q, V q → F'.ref j q = if j = i ∧ q = .step p k then v else F.ref j q := by
  have hne : ∀ j q, V q → F.ref j q ≠ v := fun j q hq h =>
    hfresh ((S.used_iff hv).mpr ⟨j, q, hq, h⟩)
  intro q
  induction q with
  | root l =>
    intro _
    rw [if_neg (fun h : j = i ∧ Path.root l = Path.step p k => by cases h.2), Forest.ref, Forest.ref,
      hroot]
  | step q l ih =>
    intro hq
    have hq' := hV q l hq
    have hsame := ih hq'
    by_cases hpath : j = i ∧ q = .step p k
    · obtain ⟨rfl, rfl⟩ := hpath
      have hnone : F.ref j (.step p k) = 0 := by rw [ref_step_of_ne ha, hzero]
      have hlong : ¬ (j = j ∧ Path.step (Path.step p k) l = Path.step p k) := by
        rintro ⟨-, h⟩
        have := congrArg sizeOf h
        simp only [Path.step.sizeOf_spec] at this
        omega
      rw [if_pos ⟨rfl, rfl⟩] at hsame
      rw [if_neg hlong, ref_step_of_ne (hsame ▸ hv), hsame, hblank, ref_step_of_zero hnone]
    · rw [if_neg hpath] at hsame
      by_cases h0 : F.ref j q = 0
      · have hother : ¬ (j = i ∧ Path.step q l = Path.step p k) := by
          rintro ⟨rfl, h⟩
          cases h
          exact ha h0
        rw [if_neg hother, ref_step_of_zero h0, ref_step_of_zero (hsame.trans h0)]
      · rw [ref_step_of_ne (hsame ▸ h0), hsame, hchild _ l (hne j q hq'), ref_step_of_ne h0]
        refine if_congr ?_ rfl rfl
        constructor
        · rintro ⟨h, rfl⟩
          obtain ⟨rfl, rfl⟩ := S.inj hq' (hV p _ hp) h0 h
          exact ⟨rfl, rfl⟩
        · rintro ⟨rfl, h⟩
          cases h
          exact ⟨rfl, rfl⟩

end

/-! ## What keeps a forest separate -/

theorem Forest.Separate.congr (S : F.Separate V used) (h : ∀ j q, V q → F'.ref j q = F.ref j q) :
    F'.Separate V used where
  inj {i j p q} hp hq h0 heq := by
    rw [h i p hp] at h0 heq
    rw [h j q hq] at heq
    exact S.inj hp hq h0 heq
  used_iff {a} ha := by
    rw [S.used_iff ha]
    constructor
    · rintro ⟨i, p, hp, rfl⟩
      exact ⟨i, p, hp, h i p hp⟩
    · rintro ⟨i, p, hp, rfl⟩
      exact ⟨i, p, hp, (h i p hp).symm⟩

section
variable [DecidableEq ι]

/-- One more node is allocated, and one pointer that was empty leads to it. -/
theorem Forest.Separate.attach [DecidableEq κ] (S : F.Separate V used) (hp : V p)
    (hzero : F.ref i p = 0) (hv : v ≠ 0) (hfresh : ¬ used v)
    (h : ∀ j q, V q → F'.ref j q = if j = i ∧ q = p then v else F.ref j q) :
    F'.Separate V fun a => a = v ∨ used a where
  inj {j l q r} hq hr h0 heq := by
    have hne : ∀ j q, V q → F.ref j q ≠ v := fun j q hq h =>
      hfresh ((S.used_iff hv).mpr ⟨j, q, hq, h⟩)
    rw [h j q hq] at h0 heq
    rw [h l r hr] at heq
    split at heq
    · next hjq =>
      split at heq
      · next hlr => exact ⟨hjq.1.trans hlr.1.symm, hjq.2.trans hlr.2.symm⟩
      · exact absurd heq.symm (hne l r hr)
    · next hjq =>
      rw [if_neg hjq] at h0
      split at heq
      · exact absurd heq (hne j q hq)
      · exact S.inj hq hr h0 heq
  used_iff {a} ha := by
    constructor
    · rintro (rfl | hu)
      · exact ⟨i, p, hp, by rw [h i p hp, if_pos ⟨rfl, rfl⟩]⟩
      · obtain ⟨j, q, hq, rfl⟩ := (S.used_iff ha).mp hu
        refine ⟨j, q, hq, ?_⟩
        rw [h j q hq, if_neg]
        rintro ⟨rfl, rfl⟩
        exact ha hzero
    · rintro ⟨j, q, hq, rfl⟩
      rw [h j q hq] at ha ⊢
      split
      · exact Or.inl rfl
      · next hjq =>
        rw [if_neg hjq] at ha
        exact Or.inr ((S.used_iff ha).mpr ⟨j, q, hq, rfl⟩)

/-- All nodes of `i` are given back. -/
theorem Forest.Separate.release (S : F.Separate V used)
    (h : ∀ j q, V q → F'.ref j q = if j = i then 0 else F.ref j q) :
    F'.Separate V fun a => used a ∧ ∀ p, V p → F.ref i p ≠ a where
  inj {j l q r} hq hr h0 heq := by
    rw [h j q hq] at h0 heq
    rw [h l r hr] at heq
    split at heq
    · next hj => exact absurd (if_pos hj) h0
    · next hj =>
      rw [if_neg hj] at h0
      split at heq
      · exact absurd heq h0
      · exact S.inj hq hr h0 heq
  used_iff {a} ha := by
    constructor
    · rintro ⟨hu, hother⟩
      obtain ⟨j, q, hq, rfl⟩ := (S.used_iff ha).mp hu
      refine ⟨j, q, hq, ?_⟩
      rw [h j q hq, if_neg]
      rintro rfl
      exact hother q hq rfl
    · rintro ⟨j, q, hq, rfl⟩
      rw [h j q hq] at ha ⊢
      split
      · next hj => exact absurd (if_pos hj) ha
      · next hj =>
        rw [if_neg hj] at ha
        refine ⟨(S.used_iff ha).mpr ⟨j, q, hq, rfl⟩, fun p hp heq => ?_⟩
        exact hj (S.inj hp hq (heq ▸ ha) heq).1.symm

end

end Linux011.Lib
