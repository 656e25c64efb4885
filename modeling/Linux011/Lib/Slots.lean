import Mathlib.Algebra.GroupWithZero.Nat

/-!
# Slots — numerals for the slots of a finite table

The kernel's tables have fixed sizes, and a slot of one is an element of `Fin n`. A numeral is such
an element once `n` is not 0; the facts for the sizes of this development are named here, so that a
literal slot is the same term in every module.
-/

namespace Linux011.Lib

instance twoSlots : NeZero 2 := ⟨Nat.succ_ne_zero 1⟩

instance threeSlots : NeZero 3 := ⟨Nat.succ_ne_zero 2⟩

instance fileSlots : NeZero 20 := ⟨Nat.succ_ne_zero 19⟩

instance taskSlots : NeZero 64 := ⟨Nat.succ_ne_zero 63⟩

end Linux011.Lib
