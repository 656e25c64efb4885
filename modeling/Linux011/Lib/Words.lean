import Mathlib.Logic.Function.Basic
import Mathlib.Algebra.Group.Nat.Defs

/-!
# Block moves in word memory

A memory of 16-bit words with 32-bit byte addresses, and the string instructions on it: `stosw` with a
repeat count, upwards and downwards, and `movsl`, which moves two words at a time. Addresses wrap.
Beside the words there is a range, and the record whether a store was ever made outside of it.

For each instruction there is a closed form of what a word is afterwards, and the fact that stores
inside the range leave the record as it is.
-/

namespace Linux011.Lib

/-! ## 32-bit addresses -/

def add32 (a b : Nat) : Nat := (a + b) % 2 ^ 32

def sub32 (a b : Nat) : Nat := (a + 2 ^ 32 - b % 2 ^ 32) % 2 ^ 32

theorem add32_eq {a b : Nat} (h : a + b < 2 ^ 32) : add32 a b = a + b := Nat.mod_eq_of_lt h

theorem sub32_eq {a b : Nat} (ha : a < 2 ^ 32) (h : b ≤ a) : sub32 a b = a - b := by
  unfold sub32
  omega

/-! ## Memory -/

structure Words (α : Type*) where
  word : Nat → α
  low : Nat
  high : Nat
  strayed : Bool

variable {α : Type*} {m : Words α} {w : α} {n a b src dst : Nat}

namespace Words

def store (a : Nat) (w : α) (m : Words α) : Words α :=
  { m with
    word := Function.update m.word a w
    strayed := m.strayed || !(m.low ≤ a && a + 2 ≤ m.high) }

/-- One `movsl`: both words are read first. -/
def move (src dst : Nat) (m : Words α) : Words α :=
  (m.store dst (m.word src)).store (add32 dst 2) (m.word (add32 src 2))

/-- `cld; rep stosw`. -/
def fill : Nat → Nat → α → Words α → Words α
  | 0, _, _, m => m
  | n + 1, a, w, m => fill n (add32 a 2) w (m.store a w)

/-- `std; rep stosw`. -/
def fillDown : Nat → Nat → α → Words α → Words α
  | 0, _, _, m => m
  | n + 1, a, w, m => fillDown n (sub32 a 2) w (m.store a w)

/-- `cld; rep movsl`. -/
def moves : Nat → Nat → Nat → Words α → Words α
  | 0, _, _, m => m
  | n + 1, src, dst, m => moves n (add32 src 4) (add32 dst 4) (m.move src dst)

/-- `std; rep movsl`. -/
def movesDown : Nat → Nat → Nat → Words α → Words α
  | 0, _, _, m => m
  | n + 1, src, dst, m => movesDown n (sub32 src 4) (sub32 dst 4) (m.move src dst)

/-! ## One store -/

theorem store_word : (m.store a w).word b = if b = a then w else m.word b :=
  Function.update_apply _ _ _ _

theorem store_inside (hlow : m.low ≤ a) (hhigh : a + 2 ≤ m.high) : (m.store a w).strayed = m.strayed := by
  show (m.strayed || !(decide (m.low ≤ a) && decide (a + 2 ≤ m.high))) = m.strayed
  rw [decide_eq_true hlow, decide_eq_true hhigh, Bool.and_self, Bool.not_true, Bool.or_false]

theorem move_word (hdst : dst + 2 < 2 ^ 32) (hsrc : src + 2 < 2 ^ 32) :
    (m.move src dst).word b =
      if b = dst then m.word src else if b = dst + 2 then m.word (src + 2) else m.word b := by
  unfold move
  rw [store_word, store_word, add32_eq hdst, add32_eq hsrc]
  by_cases hb : b = dst
  · have : b ≠ dst + 2 := by omega
    rw [if_neg this, if_pos hb, if_pos hb]
  · rw [if_neg hb, if_neg hb]

theorem move_inside (hdst : dst + 2 < 2 ^ 32) (hlow : m.low ≤ dst) (hhigh : dst + 4 ≤ m.high) :
    (m.move src dst).strayed = m.strayed := by
  unfold move
  rw [add32_eq hdst, store_inside (by show m.low ≤ _; omega) (by show _ ≤ m.high; omega),
    store_inside hlow (by omega)]

/-! ## Ranges -/

theorem fill_range : (m.fill n a w).low = m.low ∧ (m.fill n a w).high = m.high := by
  induction n generalizing a m with
  | zero => exact ⟨rfl, rfl⟩
  | succ n ih => exact ih

theorem fillDown_range : (m.fillDown n a w).low = m.low ∧ (m.fillDown n a w).high = m.high := by
  induction n generalizing a m with
  | zero => exact ⟨rfl, rfl⟩
  | succ n ih => exact ih

theorem moves_range : (m.moves n src dst).low = m.low ∧ (m.moves n src dst).high = m.high := by
  induction n generalizing src dst m with
  | zero => exact ⟨rfl, rfl⟩
  | succ n ih => exact ih

theorem movesDown_range : (m.movesDown n src dst).low = m.low ∧ (m.movesDown n src dst).high = m.high := by
  induction n generalizing src dst m with
  | zero => exact ⟨rfl, rfl⟩
  | succ n ih => exact ih

/-! ## Filling -/

/-- Up to 2^31 words are filled, from `a` on and around the end of the address space. -/
theorem fill_word (ha : a < 2 ^ 32) (hb : b < 2 ^ 32) (hn : n ≤ 2 ^ 31) :
    (m.fill n a w).word b = if sub32 b a % 2 = 0 ∧ sub32 b a / 2 < n then w else m.word b := by
  induction n generalizing a m with
  | zero => rw [if_neg (fun h => Nat.not_lt_zero _ h.2)]; rfl
  | succ n ih =>
    have hnext : add32 a 2 < 2 ^ 32 := Nat.mod_lt _ (by decide)
    show ((m.store a w).fill n (add32 a 2) w).word b = _
    rw [ih hnext (by omega), store_word]
    unfold sub32 add32
    split <;> split <;> (try split) <;> first | rfl | omega

/-- Without going around the end. -/
theorem fill_word_of_le (hn : a + 2 * n ≤ 2 ^ 32) (hb : b < 2 ^ 32) : (m.fill n a w).word b =
    if a ≤ b ∧ b < a + 2 * n ∧ (a + b) % 2 = 0 then w else m.word b := by
  cases n with
  | zero => rw [if_neg (by omega)]; rfl
  | succ n =>
    rw [fill_word (by omega) hb (by omega)]
    unfold sub32
    split <;> split <;> first | rfl | omega

theorem fill_inside (hlow : m.low ≤ a) (hhigh : a + 2 * n ≤ m.high) (hmax : m.high < 2 ^ 32) :
    (m.fill n a w).strayed = m.strayed := by
  induction n generalizing a m with
  | zero => rfl
  | succ n ih =>
    have hnext : add32 a 2 = a + 2 := add32_eq (by omega)
    show ((m.store a w).fill n (add32 a 2) w).strayed = _
    rw [hnext, ih (m := m.store a w) (a := a + 2) (by show m.low ≤ _; omega)
      (by show _ ≤ m.high; omega) hmax, store_inside hlow (by omega)]

theorem fillDown_word (hn : 2 * n ≤ a + 2) (ha : a + 2 ≤ 2 ^ 32) : (m.fillDown n a w).word b =
    if a + 2 ≤ b + 2 * n ∧ b ≤ a ∧ (a + b) % 2 = 0 then w else m.word b := by
  induction n generalizing a m with
  | zero => rw [if_neg (by omega)]; rfl
  | succ n ih =>
    show ((m.store a w).fillDown n (sub32 a 2) w).word b = _
    cases n with
    | zero =>
      show (m.store a w).word b = _
      rw [store_word]
      split <;> split <;> first | rfl | omega
    | succ n =>
      have hnext : sub32 a 2 = a - 2 := sub32_eq (by omega) (by omega)
      rw [hnext, ih (by omega) (by omega), store_word]
      split <;> split <;> (try split) <;> first | rfl | omega

theorem fillDown_inside (hn : m.low + 2 * n ≤ a + 2) (hhigh : a + 2 ≤ m.high) (hmax : m.high < 2 ^ 32) :
    (m.fillDown n a w).strayed = m.strayed := by
  induction n generalizing a m with
  | zero => rfl
  | succ n ih =>
    show ((m.store a w).fillDown n (sub32 a 2) w).strayed = _
    cases n with
    | zero => exact store_inside (by omega) hhigh
    | succ n =>
      have hnext : sub32 a 2 = a - 2 := sub32_eq (by omega) (by omega)
      rw [hnext, ih (m := m.store a w) (a := a - 2) (by show m.low + _ ≤ _; omega)
        (by show _ ≤ m.high; omega) hmax, store_inside (by omega) hhigh]

/-! ## Moving -/

/-- A move to lower addresses reads every word before it is written. -/
theorem moves_word (hsrc : src + 4 * n ≤ 2 ^ 32) (hdst : dst + 4 ≤ src) : (m.moves n src dst).word b =
    if dst ≤ b ∧ b < dst + 4 * n ∧ (dst + b) % 2 = 0 then m.word (b - dst + src) else m.word b := by
  induction n generalizing src dst m with
  | zero => rw [if_neg (by omega)]; rfl
  | succ n ih =>
    have hmove := fun b => move_word (m := m) (b := b) (show dst + 2 < 2 ^ 32 by omega)
      (show src + 2 < 2 ^ 32 by omega)
    show ((m.move src dst).moves n (add32 src 4) (add32 dst 4)).word b = _
    cases n with
    | zero =>
      show (m.move src dst).word b = _
      rw [hmove]
      by_cases h0 : b = dst
      · rw [if_pos h0, if_pos (by omega), h0, Nat.sub_self, Nat.zero_add]
      · rw [if_neg h0]
        by_cases h2 : b = dst + 2
        · rw [if_pos h2, if_pos (by omega)]
          congr 1
          omega
        · rw [if_neg h2, if_neg (by omega)]
    | succ n =>
      have hs : add32 src 4 = src + 4 := add32_eq (by omega)
      have hd : add32 dst 4 = dst + 4 := add32_eq (by omega)
      rw [hs, hd, ih (by omega) (by omega)]
      by_cases hin : dst + 4 ≤ b ∧ b < dst + 4 + 4 * (n + 1) ∧ (dst + 4 + b) % 2 = 0
      · have hout : dst ≤ b ∧ b < dst + 4 * (n + 1 + 1) ∧ (dst + b) % 2 = 0 := by omega
        have haddr : b - (dst + 4) + (src + 4) = b - dst + src := by omega
        rw [if_pos hin, if_pos hout, hmove, haddr, if_neg (by omega), if_neg (by omega)]
      · rw [if_neg hin, hmove]
        by_cases h0 : b = dst
        · rw [if_pos h0, if_pos (by omega), h0, Nat.sub_self, Nat.zero_add]
        · rw [if_neg h0]
          by_cases h2 : b = dst + 2
          · have haddr : b - dst + src = src + 2 := by omega
            rw [if_pos h2, if_pos (by omega), haddr]
          · rw [if_neg h2, if_neg (by omega)]

theorem moves_inside (hlow : m.low ≤ dst) (hhigh : dst + 4 * n ≤ m.high) (hmax : m.high < 2 ^ 32) :
    (m.moves n src dst).strayed = m.strayed := by
  induction n generalizing src dst m with
  | zero => rfl
  | succ n ih =>
    have hd : add32 dst 4 = dst + 4 := add32_eq (by omega)
    show ((m.move src dst).moves n (add32 src 4) (add32 dst 4)).strayed = _
    rw [hd, ih (m := m.move src dst) (by show m.low ≤ _; omega) (by show _ ≤ m.high; omega) hmax,
      move_inside (by omega) hlow (by omega)]

/-- A move to higher addresses, from the last words down. -/
theorem movesDown_word (hsrc : 4 * n ≤ src + 4) (hdst : src + 4 ≤ dst) (hmax : dst + 4 ≤ 2 ^ 32) :
    (m.movesDown n src dst).word b =
      if dst + 4 ≤ b + 4 * n ∧ b < dst + 4 ∧ (dst + b) % 2 = 0 then m.word (b - (dst - src))
      else m.word b := by
  induction n generalizing src dst m with
  | zero => rw [if_neg (by omega)]; rfl
  | succ n ih =>
    have hmove := fun b => move_word (m := m) (b := b) (show dst + 2 < 2 ^ 32 by omega)
      (show src + 2 < 2 ^ 32 by omega)
    show ((m.move src dst).movesDown n (sub32 src 4) (sub32 dst 4)).word b = _
    have hsub : dst + 2 - (dst - src) = src + 2 := by omega
    have hself : dst - (dst - src) = src := by omega
    cases n with
    | zero =>
      show (m.move src dst).word b = _
      rw [hmove]
      by_cases h0 : b = dst
      · rw [if_pos h0, if_pos (by omega), h0, hself]
      · rw [if_neg h0]
        by_cases h2 : b = dst + 2
        · rw [if_pos h2, if_pos (by omega), h2, hsub]
        · rw [if_neg h2, if_neg (by omega)]
    | succ n =>
      have hs : sub32 src 4 = src - 4 := sub32_eq (by omega) (by omega)
      have hd : sub32 dst 4 = dst - 4 := sub32_eq (by omega) (by omega)
      have hdiff : dst - 4 - (src - 4) = dst - src := by omega
      rw [hs, hd, ih (by omega) (by omega) (by omega), hdiff]
      by_cases hin : dst - 4 + 4 ≤ b + 4 * (n + 1) ∧ b < dst - 4 + 4 ∧ (dst - 4 + b) % 2 = 0
      · have hout : dst + 4 ≤ b + 4 * (n + 1 + 1) ∧ b < dst + 4 ∧ (dst + b) % 2 = 0 := by omega
        rw [if_pos hin, if_pos hout, hmove, if_neg (by omega), if_neg (by omega)]
      · rw [if_neg hin, hmove]
        by_cases h0 : b = dst
        · rw [if_pos h0, if_pos (by omega), h0, hself]
        · rw [if_neg h0]
          by_cases h2 : b = dst + 2
          · rw [if_pos h2, if_pos (by omega), h2, hsub]
          · rw [if_neg h2, if_neg (by omega)]

theorem movesDown_inside (hn : m.low + 4 * n ≤ dst + 4) (hhigh : dst + 4 ≤ m.high)
    (hmax : m.high < 2 ^ 32) : (m.movesDown n src dst).strayed = m.strayed := by
  induction n generalizing src dst m with
  | zero => rfl
  | succ n ih =>
    show ((m.move src dst).movesDown n (sub32 src 4) (sub32 dst 4)).strayed = _
    cases n with
    | zero => exact move_inside (by omega) (by omega) hhigh
    | succ n =>
      have hd : sub32 dst 4 = dst - 4 := sub32_eq (by omega) (by omega)
      rw [hd, ih (m := m.move src dst) (by show m.low + _ ≤ _; omega) (by show _ ≤ m.high; omega) hmax,
        move_inside (by omega) (by omega) hhigh]

end Words

end Linux011.Lib
