import Mathlib.Logic.Function.Basic

/-!
# Block moves in a flat memory

A memory is a function from addresses to cells. `overlay` puts a block into it, and that is what a
repeated string instruction does in the end; the instruction does it cell by cell, and what it reads
may be something it has written. `moveUp` is `rep movs` with the direction flag clear, in units of `w` cells (one
cell for `movsb`, two for `movsw`). It is a plain copy if it runs away from its own source, to a
destination below, or if the two blocks are apart.
-/

namespace Linux011.Lib

variable {α : Type*} {m : Nat → α} {f g : Nat → α} {a b dst src n k w : Nat}

/-- `n` cells from `dst` on are those of `f`. -/
def overlay (m : Nat → α) (dst n : Nat) (f : Nat → α) : Nat → α :=
  fun a => if dst ≤ a ∧ a < dst + n then f (a - dst) else m a

theorem overlay_in (h : a < n) : overlay m dst n f (dst + a) = f a := by
  unfold overlay
  rw [if_pos ⟨Nat.le_add_right dst a, by omega⟩, Nat.add_sub_cancel_left]

theorem overlay_at (h₁ : dst ≤ a) (h₂ : a < dst + n) : overlay m dst n f a = f (a - dst) :=
  if_pos ⟨h₁, h₂⟩

theorem overlay_out (h : a < dst ∨ dst + n ≤ a) : overlay m dst n f a = m a :=
  if_neg (by omega)

theorem overlay_zero : overlay m dst 0 f = m := funext fun _ => overlay_out (by omega)

theorem overlay_congr (h : ∀ i < n, f i = g i) : overlay m dst n f = overlay m dst n g := by
  funext a
  unfold overlay
  split
  · exact h _ (by omega)
  · rfl

/-- Two blocks one behind the other are one block. -/
theorem overlay_append :
    overlay (overlay m dst k f) (dst + k) n (fun i => f (k + i)) = overlay m dst (k + n) f := by
  funext a
  unfold overlay
  split
  · rw [if_pos (by omega)]
    exact congrArg f (by omega)
  · split
    · rw [if_pos (by omega)]
    · rw [if_neg (by omega)]

/-- The same, when the later one is put there first. -/
theorem overlay_prepend :
    overlay (overlay m (dst + k) n (fun i => f (k + i))) dst k f = overlay m dst (k + n) f := by
  funext a
  unfold overlay
  split
  · rw [if_pos (by omega)]
  · split
    · rw [if_pos (by omega)]
      exact congrArg f (by omega)
    · rw [if_neg (by omega)]

theorem overlay_overlay : overlay (overlay m dst n g) dst n f = overlay m dst n f := by
  funext a
  unfold overlay
  split <;> rfl

/-! ## Moves -/

/-- `rep movs`, upwards, `n` times a unit of `w` cells. A unit is read before it is written. -/
def moveUp (w : Nat) : Nat → Nat → Nat → (Nat → α) → Nat → α
  | _, _, 0, m => m
  | src, dst, n + 1, m => moveUp w (src + w) (dst + w) n (overlay m dst w fun i => m (src + i))

theorem moveUp_eq (h : dst ≤ src ∨ src + w * n ≤ dst) :
    moveUp w src dst n m = overlay m dst (w * n) fun i => m (src + i) := by
  induction n generalizing m src dst with
  | zero => exact overlay_zero.symm
  | succ n ih =>
    have hw : w * (n + 1) = w + w * n := by rw [Nat.mul_succ, Nat.add_comm]
    rw [moveUp, ih (by omega), hw, ← overlay_append (f := fun i => m (src + i))]
    refine overlay_congr fun i hi => ?_
    rw [Nat.add_assoc, overlay_out (by omega)]

end Linux011.Lib
