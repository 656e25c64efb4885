import Mathlib.Logic.Basic

/-!
# Registers and their parts

A register of 32 bits, the half that a word instruction writes, and the two bytes of that half. A move to
a part keeps the rest of the register: this is said once, bit by bit, and the values of the parts follow.
-/

namespace Linux011.Lib

abbrev Reg := BitVec 32

namespace Reg

/-- The low byte, `%al`. -/
def low (r : Reg) : BitVec 8 := r.setWidth 8

/-- The second byte, `%ah`. -/
def high (r : Reg) : BitVec 8 := (r >>> 8).setWidth 8

def setLow (v : BitVec 8) (r : Reg) : Reg := r.extractLsb' 8 24 ++ v

def setHigh (v : BitVec 8) (r : Reg) : Reg := r.extractLsb' 16 16 ++ v ++ r.low

def setHalf (v : BitVec 16) (r : Reg) : Reg := r.extractLsb' 16 16 ++ v

variable {r : Reg}

/-! ## Bits -/

theorem getLsbD_low (i : Nat) : r.low.getLsbD i = (decide (i < 8) && r.getLsbD i) :=
  BitVec.getLsbD_setWidth _ _ _

theorem getLsbD_high (i : Nat) : r.high.getLsbD i = (decide (i < 8) && r.getLsbD (8 + i)) := by
  rw [high, BitVec.getLsbD_setWidth, BitVec.getLsbD_ushiftRight]

theorem getLsbD_setLow (v : BitVec 8) {i : Nat} (h : i < 32) :
    (r.setLow v).getLsbD i = if i < 8 then v.getLsbD i else r.getLsbD i := by
  refine BitVec.getLsbD_append.trans ?_
  split
  · rfl
  · rw [BitVec.getLsbD_extractLsb', decide_eq_true (by omega), Bool.true_and]
    congr 1
    omega

theorem getLsbD_setHalf (v : BitVec 16) {i : Nat} (h : i < 32) :
    (r.setHalf v).getLsbD i = if i < 16 then v.getLsbD i else r.getLsbD i := by
  refine BitVec.getLsbD_append.trans ?_
  split
  · rfl
  · rw [BitVec.getLsbD_extractLsb', decide_eq_true (by omega), Bool.true_and]
    congr 1
    omega

theorem getLsbD_setHigh (v : BitVec 8) {i : Nat} (h : i < 32) :
    (r.setHigh v).getLsbD i = if 8 ≤ i ∧ i < 16 then v.getLsbD (i - 8) else r.getLsbD i := by
  have happend : (r.setHigh v).getLsbD i =
      ((r.extractLsb' 16 16 ++ v ++ r.low : BitVec (16 + 8 + 8))).getLsbD i := rfl
  rw [happend, BitVec.getLsbD_append, BitVec.getLsbD_append]
  by_cases h8 : i < 8
  · rw [if_pos h8, if_neg (by omega), getLsbD_low, decide_eq_true h8, Bool.true_and]
  · rw [if_neg h8]
    by_cases h16 : i < 16
    · rw [if_pos (by omega), if_pos ⟨by omega, h16⟩]
    · rw [if_neg (by omega), if_neg (by omega), BitVec.getLsbD_extractLsb', decide_eq_true (by omega),
        Bool.true_and]
      congr 1
      omega

end Reg

end Linux011.Lib
