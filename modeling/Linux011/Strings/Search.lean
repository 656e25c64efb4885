import Mathlib.Data.List.Basic
import Linux011.Lib.ZeroTerminated

/-!
# Searching strings (`include/string.h`)

`strlen`, `strstr` and the search for characters of a set are inline assembly over `repne scasb` and
`repe cmpsb`. A set is measured once and then scanned for every character. `strstr` gives up at a position where the string itself has ended, and it finds the
empty string at once: the zero flag then is still the one from the `decl` that gave its length.

A loop over a string has a `fuel` argument. Addresses do not wrap.
-/

namespace Linux011.Strings

open Lib (IsString repneScasb repeCmpsb)

abbrev Byte := BitVec 8

abbrev Mem := Nat → Byte

variable {m : Mem} {p q : Nat} {s t : List Byte} {c : Byte} {fuel : Nat}

/-! ## The code -/

/-- `strlen`: `notl` and `decl` of the count. -/
def strlen (m : Mem) (s : Nat) : Nat := 0xffffffff - (repneScasb m 0 0xffffffff s false).1 - 1

/-- Whether `al` is in the set at `ct`, which has `edx` characters; `testb` has cleared the flag. -/
def member (m : Mem) (ct edx : Nat) (al : Byte) : Bool := (repneScasb m al edx ct false).2.2

/-- `lodsb` as long as the characters are in the set (`inside`) or not; `esi` and `al` at the end. -/
def skip (m : Mem) (ct edx : Nat) (inside : Bool) : Nat → Nat → Option (Nat × Byte)
  | 0, _ => none
  | fuel + 1, esi =>
    let al := m esi
    if al = 0 then some (esi + 1, al)
    else if member m ct edx al = inside then skip m ct edx inside fuel (esi + 1)
    else some (esi + 1, al)

/-- The loop of `strstr`. -/
def strstrLoop (m : Mem) (ct edx : Nat) : Nat → Nat → Bool → Option Nat
  | 0, _, _ => none
  | fuel + 1, esi, zf =>
    let r := repeCmpsb m edx esi ct zf
    if r.2 then some esi
    else if m (r.1 - 1) ≠ 0 then strstrLoop m ct edx fuel (esi + 1) false
    else some 0

def strstr (fuel : Nat) (m : Mem) (cs ct : Nat) : Option Nat :=
  let edx := strlen m ct
  strstrLoop m ct edx fuel cs (edx = 0)

/-! ## Sets of characters -/

theorem strlen_eq (h : IsString m p s) (hlen : s.length < 0xffffffff) : strlen m p = s.length := by
  unfold strlen
  rw [Lib.repneScasb_zero h hlen]
  dsimp only
  omega

/-- The loop stops behind the first character that ends the run, or behind the end of the string. -/
theorem skip_eq (inside : Bool) (hs : IsString m p s) (ht : IsString m q t) (hfuel : s.length < fuel) :
    skip m q t.length inside fuel p =
      some (p + (s.takeWhile fun c => decide (c ∈ t) = inside).length + 1,
        m (p + (s.takeWhile fun c => decide (c ∈ t) = inside).length)) := by
  induction s generalizing p fuel with
  | nil =>
    have hs : m p = 0 := hs
    cases fuel with
    | zero => exact absurd hfuel (Nat.not_lt_zero _)
    | succ n =>
      rw [skip]
      exact if_pos hs
  | cons c s ih =>
    obtain ⟨hc, hc0, hs⟩ := hs
    cases fuel with
    | zero => exact absurd hfuel (Nat.not_lt_zero _)
    | succ n =>
      have hmem : member m q t.length c = decide (c ∈ t) := Lib.repneScasb_mem ht
      rw [skip, hc, if_neg hc0, hmem]
      by_cases hin : decide (c ∈ t) = inside
      · rw [if_pos hin, List.takeWhile_cons_of_pos (p := fun c => decide (decide (c ∈ t) = inside))
            (decide_eq_true hin), List.length_cons,
          ih hs (Nat.lt_of_succ_lt_succ hfuel)]
        have hnext : ∀ k, p + 1 + k = p + (k + 1) := fun k => by omega
        rw [hnext]
      · rw [if_neg hin, List.takeWhile_cons_of_neg (p := fun c => decide (decide (c ∈ t) = inside))
            fun h => hin (of_decide_eq_true h)]
        exact congrArg some (Prod.ext rfl hc.symm)

/-! ## Strings in strings -/

/-- Where the string ends before the one that is looked for, there is nothing to find any more. -/
theorem not_prefix_drop (h : s <+: t) (hno : ¬ t <+: s) (j : Nat) : ¬ t <+: s.drop j := by
  intro hj
  have hle := hj.length_le
  rw [List.length_drop] at hle
  have heq : s = t :=
    h.eq_of_length (Nat.le_antisymm h.length_le (Nat.le_trans hle (Nat.sub_le _ _)))
  exact hno (heq ▸ List.prefix_rfl)

/-- The first place where `t` begins, from `p` on. -/
def Found (p : Nat) (s t : List Byte) (r : Nat) : Prop :=
  (∃ i, r = p + i ∧ i ≤ s.length ∧ t <+: s.drop i ∧ ∀ j < i, ¬ t <+: s.drop j) ∨
    r = 0 ∧ ∀ j, ¬ t <+: s.drop j

theorem strstrLoop_eq (hs : IsString m p s) (ht : IsString m q t) (hfuel : s.length < fuel)
    {zf : Bool} (hzf : t = [] → zf = true) :
    ∃ r, strstrLoop m q t.length fuel p zf = some r ∧ Found p s t r := by
  induction fuel generalizing p s zf with
  | zero => exact absurd hfuel (Nat.not_lt_zero _)
  | succ n ih =>
    obtain ⟨hyes, hno⟩ := Lib.repeCmpsb_spec zf hs ht
    rw [strstrLoop]
    by_cases hpre : t <+: s
    · have hflag : (repeCmpsb m t.length p q zf).2 = true := by
        rw [hyes hpre]
        cases t with
        | nil => rw [hzf rfl, Bool.true_or]
        | cons d t => exact Bool.or_true zf
      rw [hflag, if_pos rfl]
      exact ⟨p, rfl, Or.inl ⟨0, rfl, Nat.zero_le _, hpre, fun j hj => absurd hj (Nat.not_lt_zero j)⟩⟩
    · obtain ⟨hflag, hend⟩ := hno hpre
      rw [hflag, if_neg Bool.false_ne_true]
      by_cases hstop : s <+: t
      · rw [if_neg (not_not.mpr (hend.mpr hstop))]
        exact ⟨0, rfl, Or.inr ⟨rfl, not_prefix_drop hstop hpre⟩⟩
      · rw [if_pos fun h => hstop (hend.mp h)]
        cases s with
        | nil => exact absurd List.nil_prefix hstop
        | cons c s =>
          obtain ⟨r, hr, hfound⟩ := ih hs.2.2 (Nat.lt_of_succ_lt_succ hfuel)
            (show t = [] → false = true from fun h => absurd (h ▸ List.nil_prefix) hpre)
          refine ⟨r, hr, ?_⟩
          rcases hfound with ⟨i, rfl, hi, hat, hfirst⟩ | ⟨rfl, hnone⟩
          · refine Or.inl ⟨i + 1, by omega, Nat.succ_le_succ hi, hat, fun j hj => ?_⟩
            cases j with
            | zero => exact hpre
            | succ j => exact hfirst j (Nat.lt_of_succ_lt_succ hj)
          · refine Or.inr ⟨rfl, fun j => ?_⟩
            cases j with
            | zero => exact hpre
            | succ j => exact hnone j

/-- THE FIRST OCCURRENCE. `strstr` comes to an end, and gives the first place where the second string
begins in the first one, or NULL if there is none. The empty string begins everywhere. -/
theorem strstr_first (hs : IsString m p s) (ht : IsString m q t) (hlen : t.length < 0xffffffff)
    (hfuel : s.length < fuel) : ∃ r, strstr fuel m p q = some r ∧ Found p s t r := by
  unfold strstr
  rw [strlen_eq ht hlen]
  exact strstrLoop_eq hs ht hfuel fun h => by
    rw [h]
    rfl

/-- `aab` at 100, `ab` at 200. -/
def twoStrings : Mem := fun a =>
  if a < 200 then [0x61, 0x61, 0x62].getD (a - 100) 0 else [0x61, 0x62].getD (a - 200) 0

/-- The search starts again inside what has matched so far. -/
theorem strstr_first_again : ∃ r, strstr 4 twoStrings 100 200 = some r ∧ r = 101 ∧
    Found 100 [0x61, 0x61, 0x62] [0x61, 0x62] r := by
  obtain ⟨r, hr, hfound⟩ := strstr_first (m := twoStrings) (p := 100) (q := 200)
    (s := [0x61, 0x61, 0x62]) (t := [0x61, 0x62]) (by decide) (by decide) (by decide)
    (show 3 < 4 by decide)
  refine ⟨r, hr, ?_, hfound⟩
  rcases hfound with ⟨i, rfl, hi, hat, hfirst⟩ | ⟨-, hnone⟩
  · have hi1 : i ≤ 1 := Nat.le_of_not_lt fun h => hfirst 1 h (by decide)
    have hi0 : i ≠ 0 := fun h => absurd (h ▸ hat) (by decide)
    omega
  · exact absurd (hnone 1) (by decide)

end Linux011.Strings
