import Mathlib.Data.Nat.Digits.Lemmas
import Mathlib.Tactic.Common

/-!
# Formatting a number (`number` of `kernel/vsprintf.c`)

`number` counts the room that is left for padding down in `size`, and three loops use it up one behind the
other: blanks on the left, zeros or blanks behind the sign, blanks on the right. Each leaves `size` below
zero, so that of the three at most one writes anything. The digits are computed from behind into `tmp`.

What is written is a list of characters behind `str`. An access behind the end of `tmp` is an error here,
and so is the null pointer that `number` returns for a base it does not know.
-/

namespace Linux011.Printf

abbrev Byte := BitVec 8

/-- `int`. -/
abbrev Word := BitVec 32

/-! ## Code -/

/-- The bits of `flags`. -/
structure Flags where
  zeropad : Bool
  sign : Bool
  plus : Bool
  space : Bool
  left : Bool
  special : Bool
  small : Bool

inductive Stop
  /-- `number` returns 0. -/
  | null
  /-- `tmp` is too short. -/
  | overrun
  /-- An argument is read that was not passed. -/
  | missing
  deriving DecidableEq

/-- `digits`: 10 digits and 26 letters. -/
def digits (small : Bool) (k : Nat) : Byte :=
  if k < 10 then BitVec.ofNat 8 (48 + k)
  else if k < 36 then BitVec.ofNat 8 ((if small then 97 else 65) + (k - 10))
  else 0

/-- `while (lim < n--) *str++ = c;` -/
def countdown (c : Byte) (lim n : Word) (str : List Byte) : Word × List Byte :=
  if lim.toInt < n.toInt then countdown c lim (n - 1) (str ++ [c]) else (n - 1, str)
termination_by (n.toInt - lim.toInt).toNat
decreasing_by
  have h := BitVec.toInt_lt (x := n)
  have hl := BitVec.le_toInt lim
  have hsub : (n - 1).toInt = n.toInt - 1 := by
    rw [BitVec.toInt_sub, Int.bmod_eq_of_le (by simp; omega) (by simp; omega)]
    rfl
  omega

/-- `while (num != 0) tmp[i++] = digits[do_div(num,base)];`, with so many elements of `tmp` left. -/
def digitLoop (digits : Nat → Byte) (base : Word) : Nat → Word → List Byte → Option (List Byte)
  | 0, num, tmp => if num = 0 then some tmp else none
  | left + 1, num, tmp =>
    if num = 0 then some tmp
    else digitLoop digits base left (num / base) (tmp ++ [digits (num % base).toNat])

/-- `while (i-- > 0) *str++ = tmp[i];` -/
def copyLoop (tmp : List Byte) : Nat → List Byte → List Byte
  | 0, str => str
  | i + 1, str => copyLoop tmp i (str ++ [tmp.getD i 0])

/-- `sign`, which is 0 for no sign, and `num` without it. -/
def signOf (type : Flags) (num : Word) : Byte × Word :=
  if type.sign = true ∧ num.toInt < 0 then (45, -num)
  else (if type.plus then 43 else if type.space then 32 else 0, num)

/-- The room that the prefix takes. -/
def specialSize (type : Flags) (base size : Word) : Word :=
  if type.special then if base = 16 then size - 2 else if base = 8 then size - 1 else size else size

/-- `number` from `if (i>precision)` on. -/
def layout (tmp : List Byte) (sign c : Byte) (base size precision : Word) (type : Flags)
    (str : List Byte) : List Byte :=
  let i := BitVec.ofNat 32 tmp.length
  let precision := if precision.toInt < i.toInt then i else precision
  let size := size - precision
  let (size, str) :=
    if type.zeropad = false ∧ type.left = false then countdown 32 0 size str else (size, str)
  let str := if sign ≠ 0 then str ++ [sign] else str
  let str :=
    if type.special then
      if base = 8 then str ++ [48] else if base = 16 then str ++ [48, digits type.small 33] else str
    else str
  let (size, str) := if type.left = false then countdown c 0 size str else (size, str)
  let (_, str) := countdown 48 i precision str
  let str := copyLoop tmp tmp.length str
  (countdown 32 0 size str).2

/-- `number`. -/
def number (str : List Byte) (num base size precision : Word) (type : Flags) : Except Stop (List Byte) :=
  let type := if type.left then { type with zeropad := false } else type
  if base.toInt < 2 ∨ 36 < base.toInt then .error .null
  else
    let c : Byte := if type.zeropad then 48 else 32
    let (sign, num) := signOf type num
    let size := specialSize type base (if sign ≠ 0 then size - 1 else size)
    match if num = 0 then some [48] else digitLoop (digits type.small) base 36 num [] with
    | none => .error .overrun
    | some tmp => .ok (layout tmp sign c base size precision type str)

/-! ## The loops -/

variable {c : Byte} {lim n : Word} {str : List Byte}

theorem toInt_pred (h : -2 ^ 31 < n.toInt) : (n - 1).toInt = n.toInt - 1 := by
  have hlt := BitVec.toInt_lt (x := n)
  rw [BitVec.toInt_sub, Int.bmod_eq_of_le (by simp; omega) (by simp; omega)]
  rfl

theorem countdown_eq (c : Byte) (lim n : Word) (str : List Byte) :
    countdown c lim n str =
      (if lim.toInt < n.toInt then lim - 1 else n - 1,
        str ++ List.replicate (n.toInt - lim.toInt).toNat c) := by
  induction n, str using countdown.induct c lim with
  | case1 n str h ih =>
    have hlim := BitVec.le_toInt lim
    have hpred : (n - 1).toInt = n.toInt - 1 := toInt_pred (by omega)
    have hlen : (n.toInt - lim.toInt).toNat = (n.toInt - 1 - lim.toInt).toNat + 1 := by omega
    rw [countdown, if_pos h, ih, hpred, if_pos h, hlen, List.replicate_succ, List.append_assoc,
      List.singleton_append]
    by_cases hmore : lim.toInt < n.toInt - 1
    · rw [if_pos hmore]
    · have heq : n - 1 = lim := BitVec.eq_of_toInt_eq (by omega)
      rw [if_neg hmore, heq]
  | case2 n str h =>
    have hzero : (n.toInt - lim.toInt).toNat = 0 := by omega
    rw [countdown, if_neg h, if_neg h, hzero, List.replicate_zero, List.append_nil]

theorem digitLoop_eq {digits : Nat → Byte} {base : Word} (hbase : 2 ≤ base.toNat) :
    ∀ (k : Nat) (num : Word) (tmp : List Byte), (Nat.digits base.toNat num.toNat).length ≤ k →
      digitLoop digits base k num tmp =
        some (tmp ++ (Nat.digits base.toNat num.toNat).map digits) := by
  intro k
  induction k with
  | zero =>
    intro num tmp hlen
    have hnil := List.eq_nil_of_length_eq_zero (Nat.le_zero.mp hlen)
    have hzero : num = 0 := BitVec.eq_of_toNat_eq (Nat.digits_eq_nil_iff_eq_zero.mp hnil)
    rw [digitLoop, if_pos hzero, hnil]
    simp
  | succ k ih =>
    intro num tmp hlen
    by_cases hzero : num = 0
    · subst hzero
      simp [digitLoop]
    · have hpos : 0 < num.toNat := Nat.pos_of_ne_zero fun h => hzero (BitVec.eq_of_toNat_eq h)
      have hdigits : Nat.digits base.toNat num.toNat =
          num.toNat % base.toNat :: Nat.digits base.toNat (num.toNat / base.toNat) :=
        Nat.digits_def' hbase hpos
      rw [hdigits] at hlen ⊢
      have hrest := ih (num / base) (tmp ++ [digits (num % base).toNat])
        (by rw [BitVec.toNat_udiv]; exact Nat.le_of_succ_le_succ hlen)
      rw [digitLoop, if_neg hzero, hrest]
      simp [BitVec.toNat_udiv, BitVec.toNat_umod]

theorem copyLoop_eq (tmp : List Byte) : ∀ (i : Nat) (str : List Byte), i ≤ tmp.length →
    copyLoop tmp i str = str ++ (tmp.take i).reverse := by
  intro i
  induction i with
  | zero =>
    intro str _
    simp [copyLoop]
  | succ i ih =>
    intro str hi
    have hget : tmp.take (i + 1) = tmp.take i ++ [tmp.getD i 0] := by
      rw [List.take_succ_eq_append_getElem hi, List.getD_eq_getElem?_getD, List.getElem?_eq_getElem hi,
        Option.getD_some]
    rw [copyLoop, ih _ (Nat.le_of_succ_le hi), hget, List.reverse_append]
    simp

/-! ## Reading digits -/

/-- The value of a digit; other characters have none below 36. -/
def digitValue (c : Byte) : Nat :=
  if 48 ≤ c.toNat ∧ c.toNat < 58 then c.toNat - 48
  else if 65 ≤ c.toNat ∧ c.toNat < 91 then c.toNat - 55
  else if 97 ≤ c.toNat ∧ c.toNat < 123 then c.toNat - 87
  else 36

/-- The number that a string of digits stands for. -/
def readDigits (base : Nat) (l : List Byte) : Option Nat :=
  l.foldl (fun n c => n.bind fun n =>
    if digitValue c < base then some (n * base + digitValue c) else none) (some 0)

@[simp] theorem digitValue_zero : digitValue 48#8 = 0 := by decide

theorem readDigits_append (base : Nat) (l : List Byte) (c : Byte) : readDigits base (l ++ [c]) =
    (readDigits base l).bind fun n =>
      if digitValue c < base then some (n * base + digitValue c) else none := by
  simp [readDigits, List.foldl_append]

theorem digitValue_digits (small : Bool) {k : Nat} (hk : k < 36) : digitValue (digits small k) = k := by
  unfold digits
  by_cases hten : k < 10
  · simp only [if_pos hten, digitValue, BitVec.toNat_ofNat]
    rw [if_pos (by omega)]
    omega
  · rw [if_neg hten, if_pos hk]
    cases small
    · simp only [digitValue, BitVec.toNat_ofNat, Bool.false_eq_true, if_false]
      rw [if_neg (by omega), if_pos (by omega)]
      omega
    · simp only [digitValue, BitVec.toNat_ofNat, if_true]
      rw [if_neg (by omega), if_neg (by omega), if_pos (by omega)]
      omega

theorem readDigits_map (small : Bool) {base : Nat} (hbase : base ≤ 36) :
    ∀ ds : List Nat, (∀ d ∈ ds, d < base) →
      readDigits base (ds.map (digits small)).reverse = some (Nat.ofDigits base ds)
  | [], _ => rfl
  | d :: ds, hds => by
    have hd : d < base := hds d List.mem_cons_self
    have hrest := readDigits_map small hbase ds fun e he => hds e (List.mem_cons_of_mem d he)
    rw [List.map_cons, List.reverse_cons, readDigits_append, hrest, Option.bind_some,
      digitValue_digits small (Nat.lt_of_lt_of_le hd hbase), if_pos hd, Nat.ofDigits_cons]
    congr 1
    ring

theorem readDigits_zeros {base : Nat} (hbase : 0 < base) (n : Nat) (l : List Byte) :
    readDigits base (List.replicate n 48 ++ l) = readDigits base l := by
  induction n with
  | zero => rfl
  | succ n ih =>
    rw [List.replicate_succ, List.cons_append, ← ih]
    simp [readDigits, hbase]

/-! ## What is written -/

/-- The digits of a number, the first one first. -/
def numeral (small : Bool) (base num : Nat) : List Byte :=
  if num = 0 then [48] else ((Nat.digits base num).map (digits small)).reverse

/-- The prefix for `#`. -/
def prefixOf (type : Flags) (base : Word) : List Byte :=
  if type.special then if base = 8 then [48] else if base = 16 then [48, digits type.small 33] else []
  else []

/-- The sign as it is written. -/
def signText (sign : Byte) : List Byte := if sign ≠ 0 then [sign] else []

theorem signText_length (sign : Byte) : (signText sign).length ≤ 1 := by
  unfold signText
  split <;> simp

theorem numeral_pos (small : Bool) (base num : Nat) :
    0 < (numeral small base num).length := by
  unfold numeral
  split
  · exact Nat.one_pos
  · rename_i hnum
    rw [List.length_reverse, List.length_map]
    exact List.length_pos_of_ne_nil (Nat.digits_ne_nil_iff_ne_zero.mpr hnum)

theorem digits_length_le {base num : Nat} (hbase : 2 ≤ base) (hnum : num < 2 ^ 32) :
    (Nat.digits base num).length ≤ 32 := by
  rw [Nat.digits_length_le_iff hbase]
  exact Nat.lt_of_lt_of_le hnum (Nat.pow_le_pow_left hbase 32)

theorem numeral_length_le (small : Bool) {base num : Nat} (hbase : 2 ≤ base) (hnum : num < 2 ^ 32) :
    (numeral small base num).length ≤ 32 := by
  unfold numeral
  split
  · decide
  · rw [List.length_reverse, List.length_map]
    exact digits_length_le hbase hnum

theorem readDigits_numeral (small : Bool) {base num : Nat} (hlow : 2 ≤ base) (hhigh : base ≤ 36) :
    readDigits base (numeral small base num) = some num := by
  unfold numeral
  split
  · rename_i hnum
    simp [readDigits, hnum, Nat.lt_of_lt_of_le Nat.zero_lt_two hlow]
  · rw [readDigits_map small hhigh _ fun d hd => Nat.digits_lt_base hlow hd, Nat.ofDigits_digits]

/-- What is written: the sign, the prefix and the digits `ds`, padded with `room` characters. -/
def fieldText (type : Flags) (sign : Byte) (base : Word) (ds : List Byte) (room : Nat) : List Byte :=
  let head := signText sign ++ prefixOf type base
  if type.left then head ++ ds ++ List.replicate room 32
  else if type.zeropad then head ++ List.replicate room 48 ++ ds
  else List.replicate room 32 ++ head ++ ds

/-- The digits of a number, at least `precision` of them. -/
def digitText (type : Flags) (base : Word) (num precision : Nat) : List Byte :=
  let ds := numeral type.small base.toNat num
  List.replicate (precision - ds.length) 48 ++ ds

/-- A loop that has no room left writes nothing. -/
theorem countdown_done (c : Byte) (h : n.toInt ≤ 0) (str : List Byte) :
    countdown c 0 n str = (n - 1, str) := by
  have hno : ¬ (0 : Word).toInt < n.toInt := by simpa using h
  have hzero : (n.toInt - (0 : Word).toInt).toNat = 0 := by
    simp
    omega
  rw [countdown_eq, if_neg hno, hzero]
  simp

/-- What one loop writes, and that the next ones write nothing. -/
theorem countdown_pad (c : Byte) (hlow : -2 ^ 30 - 4 ≤ n.toInt) : ∃ n' : Word,
    (∀ str, countdown c 0 n str = (n', str ++ List.replicate n.toInt.toNat c)) ∧ n'.toInt ≤ -1 ∧
      -2 ^ 30 - 5 ≤ n'.toInt := by
  by_cases h : 0 < n.toInt
  · have hyes : (0 : Word).toInt < n.toInt := by simpa using h
    refine ⟨0 - 1, fun str => ?_, by decide, by decide⟩
    rw [countdown_eq, if_pos hyes]
    simp
  · have hpred := toInt_pred (n := n) (by omega)
    have hzero : n.toInt.toNat = 0 := by omega
    refine ⟨n - 1, fun str => ?_, by omega, by omega⟩
    rw [countdown_done c (by omega), hzero]
    simp

variable {num base size precision : Word} {type : Flags}

theorem base_toNat (hlow : 2 ≤ base.toInt) : (base.toNat : Int) = base.toInt := by
  rw [BitVec.toInt_eq_toNat_cond] at hlow ⊢
  have := base.isLt
  split at hlow
  · rename_i h
    rw [if_pos h]
  · omega

/-- The digits are computed into `tmp` from behind, and there is room for them. -/
theorem tmp_eq (base : Word) (small : Bool) (hbase : 2 ≤ base.toNat) (num : Word) :
    ∃ tmp : List Byte, (if num = 0 then some [48] else digitLoop (digits small) base 36 num []) = some tmp ∧
      tmp.reverse = numeral small base.toNat num.toNat := by
  by_cases hzero : num = 0
  · subst hzero
    exact ⟨[48], if_pos rfl, by simp [numeral]⟩
  · have hne : num.toNat ≠ 0 := fun h => hzero (BitVec.eq_of_toNat_eq h)
    have hlen := digits_length_le hbase num.isLt
    refine ⟨(Nat.digits base.toNat num.toNat).map (digits small), ?_, ?_⟩
    · rw [if_neg hzero, digitLoop_eq hbase 36 num [] (by omega), List.nil_append]
    · rw [numeral, if_neg hne]

theorem sign_text (sign : Byte) (str : List Byte) :
    (if sign ≠ 0 then str ++ [sign] else str) = str ++ signText sign := by
  unfold signText
  split
  · rfl
  · exact (List.append_nil str).symm

theorem prefix_text (type : Flags) (base : Word) (str : List Byte) :
    (if type.special then
      if base = 8 then str ++ [48] else if base = 16 then str ++ [48, digits type.small 33] else str
    else str) = str ++ prefixOf type base := by
  unfold prefixOf
  split
  · split
    · rfl
    · split
      · rfl
      · exact (List.append_nil str).symm
  · exact (List.append_nil str).symm

/-- What is left of `size` for the padding. -/
theorem room_eq (type : Flags) (base : Word) (sign : Byte) (hlow : -1 ≤ size.toInt)
    (hhigh : size.toInt ≤ 2 ^ 30) :
    (specialSize type base (if sign ≠ 0 then size - 1 else size)).toInt =
      size.toInt - (signText sign).length - (prefixOf type base).length := by
  have hsign : (if sign ≠ 0 then size - 1 else size).toInt = size.toInt - (signText sign).length := by
    unfold signText
    split
    · exact toInt_pred (by omega)
    · simp
  have hlen := signText_length sign
  rw [← hsign]
  have hmore : -2 ≤ (if sign ≠ 0 then size - 1 else size).toInt := by rw [hsign]; omega
  generalize (if sign ≠ 0 then size - 1 else size) = size' at hmore
  unfold specialSize prefixOf
  split
  · by_cases h16 : base = 16
    · have h8 : ¬ base = 8 := by rw [h16]; decide
      have htwo : size' - 2 = size' - 1 - 1 := by grind
      rw [if_pos h16, if_neg h8, if_pos h16, htwo, toInt_pred, toInt_pred (by omega)]
      · simp
        omega
      · rw [toInt_pred (by omega)]
        omega
    · rw [if_neg h16, if_neg h16]
      split
      · exact toInt_pred (by omega)
      · simp
  · simp

/-- The loop for the zeros that the precision asks for. -/
theorem zeros_text (precision : Word) (k : Nat) (hk : k ≤ 32) (str : List Byte) :
    (if precision.toInt < (BitVec.ofNat 32 k).toInt then BitVec.ofNat 32 k else precision).toInt =
        max precision.toInt k ∧
      (countdown 48 (BitVec.ofNat 32 k)
        (if precision.toInt < (BitVec.ofNat 32 k).toInt then BitVec.ofNat 32 k else precision) str).2 =
        str ++ List.replicate (precision.toInt.toNat - k) 48 := by
  have hofNat : (BitVec.ofNat 32 k).toInt = k := by
    have hmod : k % 2 ^ 32 = k := Nat.mod_eq_of_lt (by omega)
    rw [BitVec.toInt_eq_toNat_of_lt (by rw [BitVec.toNat_ofNat]; omega), BitVec.toNat_ofNat, hmod]
  rw [countdown_eq, hofNat]
  by_cases h : precision.toInt < k
  · rw [if_pos h, hofNat]
    refine ⟨by omega, ?_⟩
    have hzero : precision.toInt.toNat - k = 0 := by omega
    rw [hzero]
    simp
  · rw [if_neg h]
    refine ⟨by omega, ?_⟩
    have heq : (precision.toInt - k).toNat = precision.toInt.toNat - k := by omega
    rw [heq]

/-- The three loops for the padding share `size`, and one of them at most writes. -/
theorem layout_text {tmp : List Byte} {sign c : Byte} (hlen : tmp.length ≤ 32)
    (hlow : -4 ≤ size.toInt) (hhigh : size.toInt ≤ 2 ^ 30) (hprec : precision.toInt ≤ 2 ^ 30)
    (hc : c = if type.zeropad then 48 else 32) :
    layout tmp sign c base size precision type str = str ++ fieldText type sign base
      (List.replicate (precision.toInt.toNat - tmp.length) 48 ++ tmp.reverse)
      (size.toInt - max precision.toInt tmp.length).toNat := by
  obtain ⟨hmax, -⟩ := zeros_text precision tmp.length hlen []
  have hzeros := fun str => (zeros_text precision tmp.length hlen str).2
  have hcopy : ∀ str, copyLoop tmp tmp.length str = str ++ tmp.reverse := by
    intro str
    rw [copyLoop_eq tmp _ str (Nat.le_refl _), List.take_length]
  unfold layout fieldText
  dsimp only
  generalize hp : (if precision.toInt < (BitVec.ofNat 32 tmp.length).toInt then
    BitVec.ofNat 32 tmp.length else precision) = p at hmax hzeros ⊢
  have hroom : (size - p).toInt = size.toInt - max precision.toInt tmp.length := by
    rw [BitVec.toInt_sub, hmax, Int.bmod_eq_of_le (by simp; omega) (by simp; omega)]
  rw [← hroom]
  generalize size - p = room at hroom ⊢
  simp only [sign_text, prefix_text]
  cases hl : type.left with
  | true =>
    obtain ⟨n, hpad, -⟩ := countdown_pad 32 (n := room) (by omega)
    simp only [Bool.true_eq_false, and_false, if_false, if_true, hzeros, hcopy, hpad, List.append_assoc]
  | false =>
    cases hz : type.zeropad with
    | true =>
      obtain ⟨n, hpad, hn, hn'⟩ := countdown_pad 48 (n := room) (by omega)
      have hlast := countdown_done 32 (n := n) (by omega)
      simp only [hc, hz, Bool.true_eq_false, Bool.false_eq_true, false_and, if_false, if_true, hpad,
        hzeros, hcopy, hlast, List.append_assoc]
    | false =>
      obtain ⟨n, hpad, hn, hn'⟩ := countdown_pad 32 (n := room) (by omega)
      have hpred := toInt_pred (n := n) (by omega)
      have hsecond := countdown_done 32 (n := n) (by omega)
      have hlast := countdown_done 32 (n := n - 1) (by omega)
      simp only [hc, hz, Bool.false_eq_true, and_self, if_false, if_true, hpad, hsecond, hzeros, hcopy,
        hlast, List.append_assoc]

/-- `number` with all its parts, for sizes that do not overflow. -/
theorem number_text (num : Word) (type : Flags) (str : List Byte) (hlow : 2 ≤ base.toInt)
    (hhigh : base.toInt ≤ 36)
    (hsize : -1 ≤ size.toInt) (hsize' : size.toInt ≤ 2 ^ 30) (hprec : precision.toInt ≤ 2 ^ 30) :
    number str num base size precision type = .ok (str ++
      let sign := (signOf type num).1
      let ds := digitText type base (signOf type num).2.toNat precision.toInt.toNat
      fieldText type sign base ds
        (size.toInt - (signText sign).length - (prefixOf type base).length - ds.length).toNat) := by
  have hbase := base_toNat hlow
  have hno : ¬ (base.toInt < 2 ∨ 36 < base.toInt) := by omega
  obtain ⟨tmp, htmp, hrev⟩ := tmp_eq base type.small (by omega) (signOf type num).2
  have hlen : tmp.length = (numeral type.small base.toNat (signOf type num).2.toNat).length := by
    rw [← hrev, List.length_reverse]
  have hle : (numeral type.small base.toNat (signOf type num).2.toNat).length ≤ 32 :=
    numeral_length_le type.small (by omega) (signOf type num).2.isLt
  have hroom := room_eq type base (signOf type num).1 hsize hsize'
  have hds : digitText type base (signOf type num).2.toNat precision.toInt.toNat =
      List.replicate (precision.toInt.toNat - tmp.length) 48 ++ tmp.reverse := by
    rw [digitText, hrev, hlen]
  have hdslen : ((digitText type base (signOf type num).2.toNat precision.toInt.toNat).length : Int) =
      max precision.toInt tmp.length := by
    rw [hds, List.length_append, List.length_replicate, List.length_reverse]
    omega
  have hsign := signText_length (signOf type num).1
  have hprefix : (prefixOf type base).length ≤ 2 := by
    unfold prefixOf
    split
    · split
      · simp
      · split <;> simp
    · simp
  have hlayout : ∀ t : Flags, t.small = type.small → signOf t num = signOf type num →
      specialSize t base = specialSize type base → prefixOf t base = prefixOf type base →
      layout tmp (signOf type num).1 (if t.zeropad then 48 else 32) base
        (specialSize t base (if (signOf type num).1 ≠ 0 then size - 1 else size)) precision t str =
      str ++ fieldText t (signOf type num).1 base
        (digitText type base (signOf type num).2.toNat precision.toInt.toNat)
        (size.toInt - (signText (signOf type num).1).length - (prefixOf type base).length -
          (digitText type base (signOf type num).2.toNat precision.toInt.toNat).length).toNat := by
    intro t hsmall hsignt hspecial hpre
    rw [hspecial, layout_text (by omega) (by omega) (by omega) hprec rfl, hroom, hdslen, hds]
  cases hl : type.left with
  | true =>
    have hrun := hlayout { type with zeropad := false } rfl rfl rfl rfl
    have hsame : signOf { type with zeropad := false } num = signOf type num := rfl
    have hfield : ∀ (sign : Byte) (ds : List Byte) (room : Nat),
        fieldText { type with zeropad := false } sign base ds room = fieldText type sign base ds room := by
      intro sign ds room
      simp only [fieldText, hl, if_true]
      rfl
    rw [hfield] at hrun
    unfold number
    rw [if_pos hl]
    simp only [hno, if_false, hsame, htmp]
    exact congrArg Except.ok hrun
  | false =>
    have hrun := hlayout type rfl rfl rfl rfl
    simp only [number, hl, Bool.false_eq_true, if_false, hno, htmp]
    exact congrArg Except.ok hrun

/-! ## The number that is written -/

/-- The absolute value of a negative number that has a sign, and any other number without one. -/
def magnitude (type : Flags) (num : Word) : Nat :=
  if type.sign = true ∧ num.toInt < 0 then num.toInt.natAbs else num.toNat

theorem signOf_magnitude (type : Flags) (num : Word) : (signOf type num).2.toNat = magnitude type num := by
  unfold signOf magnitude
  split
  · rename_i h
    have hneg := h.2
    have hlt := num.isLt
    rw [BitVec.toInt_eq_toNat_cond] at hneg ⊢
    rw [BitVec.toNat_neg]
    split at hneg
    · omega
    · rename_i hbig
      rw [if_neg hbig]
      omega
  · rfl

theorem signText_minus (type : Flags) (num : Word) :
    signText (signOf type num).1 = [45] ↔ type.sign = true ∧ num.toInt < 0 := by
  unfold signOf
  split
  · rename_i h
    exact iff_of_true rfl h
  · rename_i h
    refine iff_of_false ?_ h
    cases type.plus <;> cases type.space <;> simp [signText]

theorem digitText_length (type : Flags) (base : Word) (num precision : Nat) :
    (digitText type base num precision).length =
      max precision (max 1 (Nat.digits base.toNat num).length) := by
  have hpos := numeral_pos type.small base.toNat num
  have hlen : (numeral type.small base.toNat num).length = max 1 (Nat.digits base.toNat num).length := by
    unfold numeral
    split
    · rename_i hzero
      simp [hzero]
    · rename_i hne
      have hdigits := List.length_pos_of_ne_nil (Nat.digits_ne_nil_iff_ne_zero (b := base.toNat).mpr hne)
      rw [List.length_reverse, List.length_map]
      omega
  rw [digitText, List.length_append, List.length_replicate]
  omega

theorem readDigits_digitText (type : Flags) (base : Word) (hlow : 2 ≤ base.toNat) (hhigh : base.toNat ≤ 36)
    (num precision zeros : Nat) :
    readDigits base.toNat (List.replicate zeros 48 ++ digitText type base num precision) = some num := by
  rw [digitText, readDigits_zeros (by omega), readDigits_zeros (by omega),
    readDigits_numeral type.small hlow hhigh]

/-- NUMBER FORMATTING. The digits that `number` writes read as the number, or as its absolute value behind
a '-'; they are as many as the number has, and at least `precision`; and the rest is padding up to `size`,
with blanks on the right, zeros before the digits, or blanks on the left. `tmp` is long enough. -/
theorem number_formatted (str : List Byte) (num base size precision : Word) (type : Flags)
    (hlow : 2 ≤ base.toInt) (hhigh : base.toInt ≤ 36) (hsize : -1 ≤ size.toInt)
    (hsize' : size.toInt ≤ 2 ^ 30) (hprec : -1 ≤ precision.toInt) (hprec' : precision.toInt ≤ 2 ^ 30) :
    ∃ before sign special zeros ds after : List Byte,
      number str num base size precision type =
        .ok (str ++ (before ++ sign ++ special ++ zeros ++ ds ++ after)) ∧
      readDigits base.toNat (zeros ++ ds) = some (magnitude type num) ∧
      sign.length ≤ 1 ∧ (sign = [45] ↔ type.sign = true ∧ num.toInt < 0) ∧
      special = prefixOf type base ∧
      (ds.length : Int) =
        max precision.toInt (max 1 (Nat.digits base.toNat (magnitude type num)).length) ∧
      ((before ++ sign ++ special ++ zeros ++ ds ++ after).length : Int) =
        max size.toInt (sign.length + special.length + ds.length) ∧
      (type.left = true → before = [] ∧ zeros = [] ∧ ∀ c ∈ after, c = 32) ∧
      (type.left = false → type.zeropad = true → before = [] ∧ after = [] ∧ ∀ c ∈ zeros, c = 48) ∧
      (type.left = false → type.zeropad = false → zeros = [] ∧ after = [] ∧ ∀ c ∈ before, c = 32) := by
  have hrun := number_text num type str hlow hhigh hsize hsize' hprec'
  have hbase := base_toNat hlow
  rw [signOf_magnitude] at hrun
  have hminus := signText_minus type num
  have hlen := digitText_length type base (magnitude type num) precision.toInt.toNat
  have hread := readDigits_digitText type base (by omega) (by omega) (magnitude type num)
    precision.toInt.toNat
  generalize digitText type base (magnitude type num) precision.toInt.toNat = ds at hrun hlen hread
  dsimp only at hrun
  generalize hroom : (size.toInt - (signText (signOf type num).1).length - (prefixOf type base).length -
    ds.length).toNat = room at hrun
  unfold fieldText at hrun
  cases hl : type.left with
  | true =>
    refine ⟨[], signText (signOf type num).1, prefixOf type base, [], ds, List.replicate room 32, ?_,
      hread 0, signText_length _, hminus, rfl, by omega, ?_, ?_, nofun, nofun⟩
    · rw [hrun]
      simp [hl]
    · simp only [List.nil_append, List.append_nil, List.length_append, List.length_replicate]
      omega
    · exact fun _ => ⟨rfl, rfl, fun c hc => List.eq_of_mem_replicate hc⟩
  | false =>
    cases hz : type.zeropad with
    | true =>
      refine ⟨[], signText (signOf type num).1, prefixOf type base, List.replicate room 48, ds, [], ?_,
        hread room, signText_length _, hminus, rfl, by omega, ?_, nofun, ?_, nofun⟩
      · rw [hrun]
        simp [hl, hz]
      · simp only [List.nil_append, List.append_nil, List.length_append, List.length_replicate]
        omega
      · exact fun _ _ => ⟨rfl, rfl, fun c hc => List.eq_of_mem_replicate hc⟩
    | false =>
      refine ⟨List.replicate room 32, signText (signOf type num).1, prefixOf type base, [], ds, [], ?_,
        hread 0, signText_length _, hminus, rfl, by omega, ?_, nofun, nofun, ?_⟩
      · rw [hrun]
        simp [hl, hz]
      · simp only [List.append_nil, List.length_append, List.length_replicate]
        omega
      · exact fun _ _ => ⟨rfl, rfl, fun c hc => List.eq_of_mem_replicate hc⟩

/-- -2147483648 in 13 columns with 11 digits. -/
theorem number_formatted_minimum :
    ∃ before sign special zeros ds after : List Byte,
      number [] (BitVec.intMin 32) 10 13 11 ⟨false, true, false, false, false, false, false⟩ =
        .ok ([] ++ (before ++ sign ++ special ++ zeros ++ ds ++ after)) ∧
      readDigits 10 (zeros ++ ds) = some 2147483648 ∧ sign = [45] := by
  obtain ⟨before, sign, special, zeros, ds, after, hrun, hread, -, hminus, -⟩ := number_formatted []
    (BitVec.intMin 32) 10 13 11 ⟨false, true, false, false, false, false, false⟩ (by decide) (by decide)
    (by decide) (by decide) (by decide) (by decide)
  exact ⟨before, sign, special, zeros, ds, after, hrun, hread, hminus.mpr (by decide)⟩

end Linux011.Printf
