import Mathlib.Logic.Relation

/-!
# Nodes covered by roots

A node is COVERED when a path leads to it from a root. The rules say what becomes of the covered
nodes when roots change, and when a node leaves the graph: a path that went through it now starts
at its successor.
-/

namespace Linux011.Lib

open Relation

variable {α : Type*} {R S : α → Prop} {E F : α → α → Prop}

/-- A path leads from a root to the node. -/
def Covered (R : α → Prop) (E : α → α → Prop) (x : α) : Prop := ∃ r, R r ∧ ReflTransGen E r x

theorem Covered.root {x : α} (h : R x) : Covered R E x := ⟨x, h, .refl⟩

theorem Covered.tail {x y : α} (h : Covered R E x) (hxy : E x y) : Covered R E y := by
  obtain ⟨r, hr, hpath⟩ := h
  exact ⟨r, hr, hpath.tail hxy⟩

/-- What the old roots cover is covered when the old roots are. -/
theorem Covered.trans {x : α} (h : Covered R E x) (hroot : ∀ r, R r → Covered S F r)
    (hedge : ∀ a b, E a b → F a b) : Covered S F x := by
  obtain ⟨r, hr, hpath⟩ := h
  obtain ⟨r', hr', hpath'⟩ := hroot r hr
  exact ⟨r', hr', hpath'.trans (ReflTransGen.mono hedge _ _ hpath)⟩

/-- A path either does not leave `t`, or has a last part behind `t` that does not. -/
theorem reflTransGen_avoid {x y : α} (t : α) (h : ReflTransGen E x y) :
    ReflTransGen (fun a b => E a b ∧ a ≠ t) x y ∨
      ∃ u, E t u ∧ ReflTransGen (fun a b => E a b ∧ a ≠ t) u y := by
  induction h using ReflTransGen.head_induction_on with
  | refl => exact Or.inl .refl
  | @head a b hab _ ih =>
    rcases ih with hby | hu
    · by_cases ha : a = t
      · exact Or.inr ⟨b, ha ▸ hab, hby⟩
      · exact Or.inl (.head ⟨hab, ha⟩ hby)
    · exact Or.inr hu

/-- The node `t` leaves the graph. Only the nodes with `P` have edges; what was covered and has `P`
still is covered, when the other roots and the successors of `t` are. -/
theorem Covered.leave {P : α → Prop} {x : α} (t : α) (h : Covered R E x) (hx : x ≠ t) (hPx : P x)
    (hP : ∀ a b, E a b → P a) (hedge : ∀ a b, E a b → a ≠ t → F a b)
    (hnext : ∀ u, E t u → u ≠ t → P u → Covered S F u)
    (hroot : ∀ r, R r → r ≠ t → Covered S F r) : Covered S F x := by
  obtain ⟨r, hr, hpath⟩ := h
  have hjoin : ∀ u, ReflTransGen (fun a b => E a b ∧ a ≠ t) u x →
      (u ≠ t → P u → Covered S F u) → Covered S F x := by
    intro u hux hu
    have hstart : u ≠ t ∧ P u := by
      rcases hux.cases_head with rfl | ⟨b, ⟨hub, hut⟩, -⟩
      · exact ⟨hx, hPx⟩
      · exact ⟨hut, hP u b hub⟩
    obtain ⟨r', hr', hru⟩ := hu hstart.1 hstart.2
    exact ⟨r', hr', hru.trans (ReflTransGen.mono (fun a b hab => hedge a b hab.1 hab.2) _ _ hux)⟩
  rcases reflTransGen_avoid t hpath with hrx | ⟨u, htu, hux⟩
  · exact hjoin r hrx fun hne _ => hroot r hr hne
  · exact hjoin u hux (hnext u htu)

end Linux011.Lib
