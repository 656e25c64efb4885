import Linux011.Exec.Args
import Mathlib.Data.Nat.Bitwise
import Mathlib.Data.List.Induction
import Mathlib.Tactic.IntervalCases

/-!
# The stack of a new program

Whatever was copied so far stands in one run below the top of the argument pages: the strings in
their order, each with its terminator (`Laid`). `change_ldt` shows the same run at the end of the new
segment, and `create_tables` writes words below it, one behind the other. So in the end the memory from
the stack pointer on is `argc`, the two array addresses, the two arrays, and behind them the strings.
-/

namespace Linux011.Exec

open Linux011.Lib Linux011.Lib.Paged

variable {S : Supply} {demand : Nat → Nat → Byte} {fs v : Nat → Option Byte}
  {m m' : Paged Byte} {a p q argv envp n : Nat} {c c' : Copy} {text rest : List Byte}

/-! ## Strings and arrays -/

/-- A string of C: no byte of it is the terminator. -/
structure CString where
  chars : List Byte
  proper : (0 : Byte) ∉ chars

/-- The bytes of a string in memory. -/
def CString.stored (s : CString) : List Byte := s.chars ++ [0]

/-- `total` bytes hold the strings with their terminators. -/
def stored (strings : List CString) : List Byte := strings.flatMap CString.stored

/-- The array at `a` holds the pointers and a 0 behind them, and the pointers point at the strings. -/
structure ArrayAt (v : Nat → Option Byte) (a : Nat) (ps : List Nat) (strings : List CString) :
    Prop where
  words : ∀ i q, (ps ++ [0])[i]? = some q → readLong v (a + 4 * i) = some q
  length : ps.length = strings.length
  strings : ∀ (i q : Nat) (s : CString), ps[i]? = some q → strings[i]? = some s → q ≠ 0 ∧ Shows v q s.stored

/-- What a caller of `execve` passes: no array at all stands for the empty list. -/
def Passed (fs : Nat → Option Byte) (argv : Nat) (strings : List CString) : Prop :=
  if argv = 0 then strings = [] else ∃ ps, ArrayAt fs argv ps strings

theorem stored_append {x y : List CString} : stored (x ++ y) = stored x ++ stored y :=
  List.flatMap_append

theorem stored_singleton {s : CString} : stored [s] = s.stored := List.append_nil _

theorem CString.length_stored (s : CString) : s.stored.length = s.chars.length + 1 := List.length_append

theorem length_le_stored (strings : List CString) : strings.length ≤ (stored strings).length := by
  induction strings with
  | nil => exact Nat.le_refl _
  | cons s strings ih =>
    have : stored (s :: strings) = s.stored ++ stored strings := rfl
    rw [this, List.length_append, s.length_stored, List.length_cons]
    omega

/-! ## `count` and the length of a string -/

theorem countFrom_spec {ps : List Nat} (hw : ∀ i q, (ps ++ [0])[i]? = some q →
    readLong fs (a + 4 * i) = some q) (hps : ∀ q ∈ ps, q ≠ 0) (hn : ps.length < n) :
    countFrom fs n a = .ok ps.length := by
  induction ps generalizing a n with
  | nil =>
    obtain ⟨n, rfl⟩ := Nat.exists_eq_add_one.mpr hn
    have h0 : readLong fs a = some 0 := hw 0 0 rfl
    simp only [countFrom, getFsLong, h0, found]
    rfl
  | cons q ps ih =>
    obtain ⟨n, rfl⟩ := Nat.exists_eq_add_one.mpr (Nat.lt_of_le_of_lt (Nat.zero_le _) hn)
    have h0 : readLong fs a = some q := hw 0 q rfl
    have hrest := ih (a := a + 4) (n := n) (fun i r hi => by
      have := hw (i + 1) r hi
      rwa [show a + 4 * (i + 1) = a + 4 + 4 * i by omega] at this)
      (fun r hr => hps r (List.mem_cons_of_mem _ hr)) (by rw [List.length_cons] at hn; omega)
    have hq : q ≠ 0 := hps q List.mem_cons_self
    simp only [countFrom, getFsLong, h0, found]
    show (if q = 0 then _ else _) = _
    rw [if_neg hq, hrest]
    rfl

theorem strLen_spec {s : CString} (h : Shows fs a s.stored) (hn : s.chars.length < n) :
    strLen fs n a = .ok s.stored.length := by
  obtain ⟨s, hs⟩ := s
  induction s generalizing a n with
  | nil =>
    obtain ⟨n, rfl⟩ := Nat.exists_eq_add_one.mpr hn
    have h0 : fs a = some 0 := h.head
    simp only [strLen, getFsByte, h0, found]
    rfl
  | cons b s ih =>
    obtain ⟨n, rfl⟩ := Nat.exists_eq_add_one.mpr (Nat.lt_of_le_of_lt (Nat.zero_le _) hn)
    have h0 : fs a = some b := h.head
    have hb : b ≠ 0 := fun e => hs (e ▸ List.mem_cons_self)
    have hrest := ih (fun e => hs (List.mem_cons_of_mem _ e)) (a := a + 1) (n := n) h.tail
      (by simp only [List.length_cons] at hn ⊢; omega)
    simp only [strLen, getFsByte, h0, found]
    show (if b = 0 then _ else _) = _
    rw [if_neg hb, hrest]
    rfl

/-! ## `copy_strings` -/

/-- The end of the run of strings in the argument pages. -/
def top : Nat := pageSize * maxArgPages - 4

/-- The run from `p` to the end holds the text, and `pag` and `offset` are the page and the place of
`p`, unless the next byte looks its page up. -/
structure Laid (S : Supply) (c : Copy) (text : List Byte) : Prop where
  sound : c.mem.Sound S
  size : c.p + text.length = top
  shown : Shows (c.mem.view pageSize) c.p text
  nonneg : 0 ≤ c.offset
  place : 0 < c.offset → c.offset = (c.p % pageSize : Nat) ∧ c.pag = c.mem.table (c.p / pageSize) ∧
    c.pag ≠ 0

/-- `*(pag + offset) = b` after `stepDown` is a store at `p`. -/
theorem stepDown_spec (L : Laid S c text) (hp : 0 < c.p) : ∃ d, stepDown S c = .ok d ∧
    d.p = c.p - 1 ∧ d.offset = (d.p % pageSize : Nat) ∧ d.pag = d.mem.table (d.p / pageSize) ∧
    d.mem = c.mem.touch S pageSize (fun _ _ => 0) d.p := by
  have hsize := L.size
  have hlt : c.p ≤ 131068 := by
    have : top = 131068 := rfl
    omega
  have hsub : sub32 c.p 1 = c.p - 1 := sub32_eq (by omega) hp
  unfold stepDown
  by_cases h : c.offset - 1 < 0
  · have hin : ¬ maxArgPages ≤ sub32 c.p 1 / pageSize := by
      rw [hsub]
      unfold maxArgPages pageSize
      omega
    rw [if_pos h, if_neg hin]
    exact ⟨_, rfl, hsub, rfl, rfl, rfl⟩
  · rw [if_neg h]
    obtain ⟨ho, hpag, hne⟩ := L.place (by omega)
    have hnn := L.nonneg
    have hdiv : (c.p - 1) / pageSize = c.p / pageSize := by
      unfold pageSize at ho ⊢
      omega
    have hmod : ((c.p - 1) % pageSize : Nat) = c.offset - 1 := by
      unfold pageSize at ho ⊢
      omega
    refine ⟨_, rfl, hsub, ?_, ?_, ?_⟩
    · show c.offset - 1 = ((sub32 c.p 1 % pageSize : Nat) : Int)
      rw [hsub, hmod]
    · show c.pag = c.mem.table (sub32 c.p 1 / pageSize)
      rw [hsub, hdiv, hpag]
    · show c.mem = c.mem.touch S pageSize _ (sub32 c.p 1)
      rw [hsub, touch_of_present]
      rw [hdiv, ← hpag]
      exact hne

/-- One byte more. -/
theorem copyDown_succ {b : Byte} (L : Laid S c text) (hp : 0 < c.p) (hb : fs a = some b) :
    ∃ d, Laid S d (b :: text) ∧ copyDown S fs (n + 1) (a + 1) c = copyDown S fs n a d := by
  obtain ⟨d, hd, hdp, ho, hpag, hmem⟩ := stepDown_spec L hp
  have hst : d.mem.poke d.pag d.offset.toNat b = c.mem.store S pageSize (fun _ _ => 0) d.p b := by
    rw [store, ← hmem, ← hpag, ho]
    rfl
  refine ⟨{ d with mem := d.mem.poke d.pag d.offset.toNat b }, ?_, ?_⟩
  · constructor
    · show (d.mem.poke d.pag d.offset.toNat b).Sound S
      rw [hst]
      exact L.sound.store
    · show d.p + (text.length + 1) = top
      have := L.size
      omega
    · show Shows ((d.mem.poke d.pag d.offset.toNat b).view pageSize) d.p (b :: text)
      rw [hst]
      refine Shows.cons store_here ?_
      have hkept : Kept pageSize d.p (d.p + 1) c.mem
          (c.mem.store S pageSize (fun _ _ => 0) d.p b) := Kept.store L.sound
      rw [show d.p + 1 = c.p by omega] at hkept ⊢
      exact hkept.shows L.shown (Or.inr (Nat.le_refl _))
    · show 0 ≤ d.offset
      rw [ho]
      exact Int.natCast_nonneg _
    · intro _
      refine ⟨ho, hpag, ?_⟩
      show d.pag ≠ 0
      rw [hpag, hmem]
      exact touch_present
  · rw [copyDown, hd]
    simp only [getFsByte, Nat.add_sub_cancel, hb, found]
    rfl

/-- A whole string in front of the text. -/
theorem copyDown_spec {s : List Byte} (L : Laid S c text) (hs : Shows fs a s)
    (hlen : s.length ≤ c.p) : ∃ d, copyDown S fs s.length (a + s.length) c = .ok d ∧
    Laid S d (s ++ text) := by
  induction s using List.reverseRecOn generalizing c text with
  | nil => exact ⟨c, rfl, L⟩
  | append_singleton s b ih =>
    rw [List.length_append, List.length_singleton] at hlen
    obtain ⟨d, L', heq⟩ := copyDown_succ (n := s.length) L (by omega) hs.right.head
    obtain ⟨e, he, Le⟩ := ih L' hs.left (by
      have h1 := L.size
      have h2 := L'.size
      rw [List.length_cons] at h2
      omega)
    refine ⟨e, ?_, ?_⟩
    · rw [List.length_append, List.length_singleton, ← Nat.add_assoc, heq, he]
    · rw [List.append_assoc]
      exact Le

theorem copyString_spec {s : CString} (L : Laid S c text) (hq : q ≠ 0) (hs : Shows fs q s.stored)
    (hlen : s.stored.length ≤ c.p) : ∃ d, copyString S fs q c = .ok d ∧
    Laid S d (s.stored ++ text) := by
  have hp : c.p ≤ dataLimit := by
    have := L.size
    have h1 : top = 131068 := rfl
    have h2 : dataLimit = 67108864 := rfl
    omega
  obtain ⟨d, hd, Ld⟩ := copyDown_spec L hs hlen
  refine ⟨d, ?_, Ld⟩
  rw [s.length_stored] at hlen
  simp only [copyString, if_neg hq, strLen_spec hs (show s.chars.length < dataLimit by omega)]
  exact hd

/-- The first `n` strings of an array, the last one first. -/
theorem copyFrom_spec {ps : List Nat} {strings : List CString} (A : ArrayAt fs argv ps strings)
    (L : Laid S c text) (hn : n ≤ strings.length) (hlen : (stored (strings.take n)).length ≤ c.p) :
    ∃ d, copyFrom S fs argv n c = .ok d ∧ Laid S d (stored (strings.take n) ++ text) := by
  induction n generalizing c text with
  | zero => exact ⟨c, rfl, L⟩
  | succ n ih =>
    have hs : strings[n]? = some strings[n] := List.getElem?_eq_getElem hn
    have hq : ps[n]? = some (ps.get ⟨n, A.length ▸ hn⟩) := List.getElem?_eq_getElem _
    generalize strings[n] = s at hs
    generalize ps.get ⟨n, A.length ▸ hn⟩ = q at hq
    have hsplit : stored (strings.take (n + 1)) = stored (strings.take n) ++ s.stored := by
      rw [List.take_add_one, hs, stored_append]
      exact congrArg _ stored_singleton
    rw [hsplit, List.length_append] at hlen
    have hw : readLong fs (argv + 4 * n) = some q := A.words n q (by
      rw [List.getElem?_append_left (A.length ▸ hn), hq])
    obtain ⟨hne, hsh⟩ := A.strings n q s hq hs
    obtain ⟨d, hd, Ld⟩ := copyString_spec L hne hsh (by omega)
    obtain ⟨e, he, Le⟩ := ih Ld (by omega) (by
      have h1 := L.size
      have h2 := Ld.size
      rw [List.length_append] at h2
      omega)
    refine ⟨e, ?_, ?_⟩
    · simp only [copyFrom, getFsLong, hw, found]
      show ((copyString S fs q c).bind fun c => copyFrom S fs argv n c) = _
      rw [hd]
      exact he
    · rw [hsplit, List.append_assoc]
      exact Le

/-- What is laid down, seen without the variables of the loop. -/
structure Stored (S : Supply) (m : Paged Byte) (p : Nat) (text : List Byte) : Prop where
  sound : m.Sound S
  size : p + text.length = top
  shown : Shows (m.view pageSize) p text

theorem count_spec {strings : List CString} (A : Passed fs argv strings) (hn : strings.length < dataLimit) :
    count fs argv = .ok strings.length := by
  unfold Passed at A
  unfold count
  by_cases h0 : argv = 0
  · rw [if_pos h0] at A ⊢
    rw [A]
    rfl
  · rw [if_neg h0] at A ⊢
    obtain ⟨ps, A⟩ := A
    rw [← A.length]
    refine countFrom_spec A.words (fun q hq => ?_) (by rw [A.length]; exact hn)
    obtain ⟨i, hi, rfl⟩ := List.mem_iff_getElem.mp hq
    exact (A.strings i _ _ (List.getElem?_eq_getElem hi)
      (List.getElem?_eq_getElem (A.length ▸ hi))).1

/-- `count` and `copy_strings` of one array. -/
theorem copyStrings_spec {strings : List CString} (A : Passed fs argv strings) (M : Stored S m p text)
    (hlen : (stored strings).length < p) : count fs argv = .ok strings.length ∧
    ∃ p' m', copyStrings S fs strings.length argv p m = .ok (p', m') ∧
      Stored S m' p' (stored strings ++ text) := by
  have L : Laid S ⟨p, 0, 0, m⟩ text := ⟨M.sound, M.size, M.shown, Int.le_refl 0, fun h => by
    exact absurd h (Int.lt_irrefl 0)⟩
  have hlim : p ≤ dataLimit := by
    have := M.size
    have h1 : top = 131068 := rfl
    have h2 : dataLimit = 67108864 := rfl
    omega
  have hnum := length_le_stored strings
  refine ⟨count_spec A (by omega), ?_⟩
  unfold Passed at A
  unfold copyStrings
  rw [if_neg (by omega : ¬ p = 0)]
  by_cases h0 : argv = 0
  · rw [if_pos h0] at A
    rw [A]
    exact ⟨p, m, rfl, M⟩
  · rw [if_neg h0] at A
    obtain ⟨ps, A⟩ := A
    obtain ⟨d, hd, Ld⟩ := copyFrom_spec A L (Nat.le_refl _) (by
      rw [List.take_length]
      exact hlen.le)
    rw [List.take_length] at Ld
    refine ⟨d.p, d.mem, ?_, Ld.sound, Ld.size, Ld.shown⟩
    rw [hd]
    rfl

/-! ## `change_ldt` -/

/-- The pages of the array end at `b`, in their order. -/
theorem putPages_table {page : Nat → Nat} {b k : Nat} :
    (putPages page n (pageSize * (b + n)) m).table k =
      if b ≤ k ∧ k < b + n ∧ page (k - b) ≠ 0 then page (k - b) else m.table k := by
  induction n generalizing m with
  | zero => exact (if_neg (by omega)).symm
  | succ n ih =>
    have hsub : pageSize * (b + (n + 1)) - pageSize = pageSize * (b + n) := by
      unfold pageSize
      omega
    have hdiv : pageSize * (b + n) / pageSize = b + n := Nat.mul_div_cancel_left _ (by decide)
    rw [putPages, hsub, ih]
    by_cases hk : b ≤ k ∧ k < b + n ∧ page (k - b) ≠ 0
    · rw [if_pos hk, if_pos ⟨hk.1, by omega, hk.2.2⟩]
    · rw [if_neg hk]
      by_cases hkn : k = b + n
      · subst hkn
        rw [Nat.add_sub_cancel_left]
        by_cases hp : page n ≠ 0
        · rw [if_pos hp, if_pos ⟨by omega, by omega, hp⟩]
          show Function.update m.table (pageSize * (b + n) / pageSize) (page n) (b + n) = page n
          rw [hdiv, Function.update_self]
        · rw [if_neg hp, if_neg fun h => hp h.2.2]
      · rw [if_neg (fun h : b ≤ k ∧ k < b + (n + 1) ∧ page (k - b) ≠ 0 =>
          hk ⟨h.1, by omega, h.2.2⟩)]
        split
        · show Function.update m.table (pageSize * (b + n) / pageSize) (page n) k = m.table k
          rw [hdiv, Function.update_of_ne hkn]
        · rfl

theorem putPages_rest {page : Nat → Nat} : (putPages page n p m).ram = m.ram ∧
    (putPages page n p m).taken = m.taken := by
  induction n generalizing p m with
  | zero => exact ⟨rfl, rfl⟩
  | succ n ih =>
    rw [putPages, ih.1, ih.2]
    split <;> exact ⟨rfl, rfl⟩

/-- The last 128 KB of the segment. -/
def base : Nat := dataLimit - maxArgPages * pageSize

theorem changeLdt_table {k : Nat} : (changeLdt m).2.table k =
    if base / pageSize ≤ k ∧ k < base / pageSize + maxArgPages ∧ m.table (k - base / pageSize) ≠ 0
    then m.table (k - base / pageSize) else 0 := by
  have h : dataLimit = pageSize * (base / pageSize + maxArgPages) := by decide
  show (putPages m.table maxArgPages dataLimit { m with table := fun _ => 0 }).table k = _
  rw [h, putPages_table]

/-- The run of strings at its place in the segment. -/
theorem changeLdt_spec (M : Stored S m p text) :
    (changeLdt m).2.Sound S ∧ Shows ((changeLdt m).2.view pageSize) (base + p) text := by
  constructor
  · constructor
    · intro i j hi hij
      rw [changeLdt_table] at hi
      split at hi
      · next h =>
        rw [changeLdt_table, changeLdt_table, if_pos h] at hij
        split at hij
        · next h' =>
          have := M.sound.injective hi hij
          omega
        · exact absurd hij hi
      · exact absurd rfl hi
    · intro i hi
      rw [changeLdt_table] at hi ⊢
      split at hi
      · next h =>
        rw [if_pos h, show (changeLdt m).2.taken = m.taken from putPages_rest.2]
        exact M.sound.taken hi
      · exact absurd rfl hi
  · intro i b hb
    have hi := (List.getElem?_eq_some_iff.mp hb).1
    have hv := M.shown i b hb
    have hp := view_isSome hv
    have htop : p + i < maxArgPages * pageSize := by
      have := M.size
      have h1 : top + 4 = maxArgPages * pageSize := rfl
      omega
    have hk : (base + p + i) / pageSize = base / pageSize + (p + i) / pageSize := by
      have : base = pageSize * (base / pageSize) := by decide
      unfold pageSize at *
      omega
    have ho : (base + p + i) % pageSize = (p + i) % pageSize := by
      have : base = pageSize * (base / pageSize) := by decide
      unfold pageSize at *
      omega
    have hlt : (p + i) / pageSize < maxArgPages := Nat.div_lt_of_lt_mul (by rwa [Nat.mul_comm])
    have ht : (changeLdt m).2.table ((base + p + i) / pageSize) = m.table ((p + i) / pageSize) := by
      rw [changeLdt_table, hk, Nat.add_sub_cancel_left,
        if_pos ⟨Nat.le_add_right _ _, Nat.add_lt_add_left hlt _, hp⟩]
    have hr : (changeLdt m).2.ram = m.ram := putPages_rest.1
    rw [view, if_neg hp] at hv
    rw [view, ht, if_neg hp, hr, ho, hv]

/-! ## `create_tables` -/

theorem longBytes_length : (longBytes n).length = 4 := rfl

theorem mask_eq (hp : p < 2 ^ 32) : 0xfffffffc &&& p = p / 4 * 4 := by
  apply Nat.eq_of_testBit_eq
  intro i
  rw [Nat.testBit_and, show p / 4 * 4 = (p >>> 2) <<< 2 by
    rw [Nat.shiftRight_eq_div_pow, Nat.shiftLeft_eq], Nat.testBit_shiftLeft, Nat.testBit_shiftRight]
  by_cases hi : i < 32
  · have hbit : Nat.testBit 0xfffffffc i = decide (i ≥ 2) := by interval_cases i <;> rfl
    rw [hbit]
    by_cases h : i ≥ 2
    · rw [show 2 + (i - 2) = i by omega]
    · rw [decide_eq_false h, Bool.false_and, Bool.false_and]
  · rw [Nat.testBit_lt_two_pow (Nat.lt_of_lt_of_le hp (Nat.pow_le_pow_right (by omega) (by omega))),
      Bool.and_false, show 2 + (i - 2) = i by omega,
      Nat.testBit_lt_two_pow (Nat.lt_of_lt_of_le hp (Nat.pow_le_pow_right (by omega) (by omega))),
      Bool.and_false]

theorem storeBytes_spec (M : m.Sound S) : (storeBytes S demand text a m).Sound S ∧
    Shows ((storeBytes S demand text a m).view pageSize) a text ∧
    Kept pageSize a (a + text.length) m (storeBytes S demand text a m) := by
  induction text generalizing a m with
  | nil => exact ⟨M, Shows.nil, Kept.refl⟩
  | cons b text ih =>
    have M₁ : (m.store S pageSize demand a b).Sound S := M.store
    obtain ⟨M', hs, hk⟩ := ih (a := a + 1) M₁
    refine ⟨M', Shows.cons (hk _ _ (Or.inl (Nat.lt_succ_self a)) store_here) hs, ?_⟩
    rw [List.length_cons]
    exact ((Kept.store M).mono (Nat.le_refl _) (by omega)).trans (hk.mono (by omega) (by omega))

theorem putFsLong_spec (demand : Nat → Nat → Byte) (n a : Nat) (M : m.Sound S) (h : a + 4 ≤ dataLimit) : ∃ m', putFsLong S demand n a m = .ok m' ∧
    m'.Sound S ∧ Shows (m'.view pageSize) a (longBytes n) ∧ Kept pageSize a (a + 4) m m' :=
  ⟨_, if_neg (by omega), storeBytes_spec M⟩

theorem skipString_spec {s : CString} (demand : Nat → Nat → Byte) (n : Nat) (h : Shows (m.view pageSize) p s.stored)
    (hp : p + s.stored.length ≤ dataLimit) (hn : s.chars.length < n) :
    skipString S demand n p m = .ok (p + s.stored.length, m) := by
  obtain ⟨s, hs⟩ := s
  induction s generalizing p n with
  | nil =>
    obtain ⟨n, rfl⟩ := Nat.exists_eq_add_one.mpr hn
    have hp' : ¬ dataLimit ≤ p := by
      rw [CString.length_stored] at hp
      omega
    rw [skipString, if_neg hp', load_eq h.head]
    rfl
  | cons b s ih =>
    obtain ⟨n, rfl⟩ := Nat.exists_eq_add_one.mpr (Nat.lt_of_le_of_lt (Nat.zero_le _) hn)
    have hb : b ≠ 0 := fun e => hs (e ▸ List.mem_cons_self)
    have hl : (CString.stored ⟨b :: s, hs⟩).length = s.length + 2 := CString.length_stored _
    have hl' : (CString.stored ⟨s, fun e => hs (List.mem_cons_of_mem _ e)⟩).length = s.length + 1 :=
      CString.length_stored _
    have hn' : s.length < n := Nat.lt_of_succ_lt_succ hn
    have hrest := ih n (fun e => hs (List.mem_cons_of_mem _ e)) (p := p + 1) h.tail (by omega) hn'
    rw [hl] at hp ⊢
    rw [hl'] at hrest
    rw [skipString, if_neg (by omega : ¬ dataLimit ≤ p), load_eq h.head]
    show (if b = 0 then _ else _) = _
    rw [if_neg hb, hrest]
    exact congrArg (fun k => Except.ok (k, m)) (by omega)

/-- Where strings laid down from `p` on begin. -/
def addresses : Nat → List CString → List Nat
  | _, [] => []
  | p, s :: strings => p :: addresses (p + s.stored.length) strings

theorem addresses_length {strings : List CString} : (addresses p strings).length = strings.length := by
  induction strings generalizing p with
  | nil => rfl
  | cons s strings ih => exact congrArg (· + 1) ih

theorem stored_cons {s : CString} {strings : List CString} :
    stored (s :: strings) = s.stored ++ stored strings := rfl

/-- The bytes of an array of longs. -/
def bytes (words : List Nat) : List Byte := words.flatMap longBytes

theorem bytes_length {words : List Nat} : (bytes words).length = 4 * words.length := by
  induction words with
  | nil => rfl
  | cons w words ih =>
    show (longBytes w ++ bytes words).length = _
    rw [List.length_append, ih, longBytes_length, List.length_cons]
    omega

/-- One array is filled, and `p` runs over its strings. -/
theorem fillTable_spec {strings : List CString} (demand : Nat → Nat → Byte) (argv : Nat) (M : m.Sound S)
    (h : Shows (m.view pageSize) p (stored strings)) (hp : p + (stored strings).length ≤ dataLimit)
    (ha : argv + 4 * strings.length ≤ p) :
    ∃ m', fillTable S demand strings.length p argv m =
        .ok (p + (stored strings).length, argv + 4 * strings.length, m') ∧ m'.Sound S ∧
      Shows (m'.view pageSize) argv (bytes (addresses p strings)) ∧
      Kept pageSize argv (argv + 4 * strings.length) m m' := by
  induction strings generalizing p argv m with
  | nil => exact ⟨m, rfl, M, Shows.nil, Kept.refl⟩
  | cons s strings ih =>
    rw [stored_cons] at h hp ⊢
    rw [List.length_append] at hp ⊢
    rw [List.length_cons] at ha ⊢
    obtain ⟨m₁, h₁, M₁, hw, hk⟩ := putFsLong_spec demand (p) (argv) M (by omega)
    have hs₁ := hk.shows h (Or.inr (by omega))
    have hlen := s.length_stored
    have h₂ := skipString_spec (S := S) demand dataLimit hs₁.left (by omega) (by omega)
    obtain ⟨m₃, h₃, M₃, ht, hk₃⟩ := ih (argv + 4) M₁ hs₁.right (by omega) (by omega)
    refine ⟨m₃, ?_, M₃, ?_, ?_⟩
    · rw [fillTable, h₁]
      show ((skipString S demand dataLimit p m₁).bind fun r => fillTable S demand strings.length r.1
        (argv + 4) r.2) = _
      rw [h₂]
      show fillTable S demand strings.length _ _ m₁ = _
      rw [h₃]
      have hp' : p + s.stored.length + (stored strings).length =
          p + (s.stored.length + (stored strings).length) := Nat.add_assoc _ _ _
      have ha' : argv + 4 + 4 * strings.length = argv + 4 * (strings.length + 1) := by omega
      rw [hp', ha']
    · exact (hk₃.shows hw (Or.inl (Nat.le_refl _))).append ht rfl
    · exact (hk.mono (Nat.le_refl _) (by omega)).trans (hk₃.mono (by omega) (by omega))

theorem ok_bind {α β : Type} {x : α} {f : α → Except Stop β} : (Except.ok x >>= f) = f x := rfl

/-- What `create_tables` leaves: the words from the stack pointer on, and the strings as they were. -/
theorem createTables_spec {args envs : List CString} (demand : Nat → Nat → Byte) (M : m.Sound S)
    (h : Shows (m.view pageSize) p (stored args ++ stored envs))
    (hp : p + (stored args).length + (stored envs).length ≤ dataLimit)
    (ha : 4 * args.length + 4 * envs.length + 24 ≤ p) :
    ∃ m' sp, createTables S demand p args.length envs.length m = .ok (sp, m') ∧
      sp + 4 * (3 + (args.length + 1) + (envs.length + 1)) = p / 4 * 4 ∧
      Shows (m'.view pageSize) sp (bytes ([args.length, sp + 12, sp + 12 + 4 * (args.length + 1)] ++
        addresses p args ++ [0] ++ addresses (p + (stored args).length) envs ++ [0])) ∧
      Shows (m'.view pageSize) p (stored args ++ stored envs) ∧ m'.Sound S := by
  have hlim : dataLimit = 67108864 := rfl
  obtain ⟨sp, hsp⟩ : ∃ sp, sp + 4 * (3 + (args.length + 1) + (envs.length + 1)) = p / 4 * 4 :=
    ⟨p / 4 * 4 - 4 * (3 + (args.length + 1) + (envs.length + 1)), by omega⟩
  have henvp : sub32 (0xfffffffc &&& p) (4 * (envs.length + 1)) = sp + 12 + 4 * (args.length + 1) := by
    rw [mask_eq (by omega), sub32_eq (by omega) (by omega)]
    omega
  have hargv : sub32 (sp + 12 + 4 * (args.length + 1)) (4 * (args.length + 1)) = sp + 12 := by
    rw [sub32_eq (by omega) (by omega)]
    omega
  have hword (k : Nat) (hk : k ≤ 12) : sub32 (sp + 12) k = sp + 12 - k :=
    sub32_eq (by omega) (by omega)
  have hlen (a b c : Nat) (ws : List Nat) :
      (longBytes a ++ (longBytes b ++ longBytes c) ++ bytes ws).length = 12 + 4 * ws.length := by
    rw [List.length_append, bytes_length]
    rfl
  -- the three words, from the upper one down; each step keeps the run that is there and the strings
  obtain ⟨m₁, h₁, M₁, w₁, k₁⟩ := putFsLong_spec demand (sp + 12 + 4 * (args.length + 1)) (sp + 8) M (by omega)
  have s₁ := k₁.shows h (Or.inr (by omega))
  obtain ⟨m₂, h₂, M₂, w₂, k₂⟩ := putFsLong_spec demand (sp + 12) (sp + 4) M₁
    (by omega)
  have s₂ := k₂.shows s₁ (Or.inr (by omega))
  have r₂ := w₂.append (k₂.shows w₁ (Or.inr (Nat.le_refl _))) rfl
  obtain ⟨m₃, h₃, M₃, w₃, k₃⟩ := putFsLong_spec demand (args.length) (sp) M₂
    (by omega)
  have s₃ := k₃.shows s₂ (Or.inr (by omega))
  have r₃ := w₃.append (k₃.shows r₂ (Or.inr (Nat.le_refl _))) rfl
  -- the argument array
  obtain ⟨m₄, h₄, M₄, w₄, k₄⟩ := fillTable_spec demand (sp + 12) M₃ s₃.left
    (by omega) (by omega)
  have s₄ := k₄.shows s₃ (Or.inr (by omega))
  have r₄ := (k₄.shows r₃ (Or.inl (Nat.le_refl _))).append w₄ rfl
  obtain ⟨m₅, h₅, M₅, w₅, k₅⟩ := putFsLong_spec demand (0) (sp + 12 + 4 * args.length) M₄ (by omega)
  have s₅ := k₅.shows s₄ (Or.inr (by omega))
  have l₄ := hlen args.length (sp + 12) (sp + 12 + 4 * (args.length + 1)) (addresses p args)
  rw [addresses_length] at l₄
  have r₅ := (k₅.shows r₄ (Or.inl (by omega))).append w₅ (by omega)
  -- the environment array
  obtain ⟨m₆, h₆, M₆, w₆, k₆⟩ := fillTable_spec demand (sp + 12 + 4 * (args.length + 1)) M₅ s₅.right (by omega) (by omega)
  have s₆ := k₆.shows s₅ (Or.inr (by omega))
  have l₅ := congrArg (· + (longBytes 0).length) l₄
  rw [← List.length_append] at l₅
  rw [longBytes_length] at l₅
  have r₆ := (k₆.shows r₅ (Or.inl (by omega))).append w₆ (by omega)
  obtain ⟨m₇, h₇, M₇, w₇, k₇⟩ := putFsLong_spec demand (0) (sp + 12 + 4 * (args.length + 1) + 4 * envs.length) M₆ (by omega)
  have s₇ := k₇.shows s₆ (Or.inr (by omega))
  have l₆ := congrArg (· + (bytes (addresses (p + (stored args).length) envs)).length) l₅
  rw [← List.length_append] at l₆
  rw [bytes_length, addresses_length] at l₆
  have r₇ := (k₇.shows r₆ (Or.inl (by omega))).append w₇ (by omega)
  refine ⟨m₇, sp, ?_, hsp, ?_, s₇, M₇⟩
  · have e4 : sp + 12 - 4 = sp + 8 := by omega
    have e8 : sp + 12 - 8 = sp + 4 := by omega
    have e12 : sp + 12 - 12 = sp := by omega
    simp only [createTables, henvp, hargv, hword 4 (by omega), hword 8 (by omega),
      hword 12 (by omega), e4, e8, e12, h₁, h₂, h₃, h₄, h₅, h₆, h₇, ok_bind]
    rfl
  · simpa only [bytes, List.flatMap_append, List.flatMap_cons, List.flatMap_nil, List.append_nil,
      List.append_assoc] using r₇

/-! ## What the new program finds -/

theorem readLong_of_shows (h : Shows v a (longBytes n)) (hn : n < 2 ^ 32) : readLong v a = some n := by
  have h0 := h 0 _ rfl
  have h1 := h 1 _ rfl
  have h2 := h 2 _ rfl
  have h3 := h 3 _ rfl
  unfold readLong
  rw [h1, h2, h3, show v a = some (BitVec.ofNat 8 n) from h0]
  show some _ = some n
  simp only [BitVec.toNat_ofNat]
  congr 1
  omega

theorem bytes_append {x y : List Nat} : bytes (x ++ y) = bytes x ++ bytes y := List.flatMap_append

theorem shows_word {words : List Nat} {i w : Nat} (h : Shows v a (bytes words)) (hi : words[i]? = some w)
    (hw : w < 2 ^ 32) : readLong v (a + 4 * i) = some w := by
  induction words generalizing a i with
  | nil => simp at hi
  | cons u words ih =>
    cases i with
    | zero =>
      cases hi
      exact readLong_of_shows h.left hw
    | succ i =>
      have := ih h.right hi
      rwa [longBytes_length, show a + 4 + 4 * i = a + 4 * (i + 1) by omega] at this

theorem addresses_shows {strings : List CString} {i : Nat} {s : CString}
    (h : Shows v p (stored strings)) (hq : (addresses p strings)[i]? = some q)
    (hs : strings[i]? = some s) : p ≤ q ∧ Shows v q s.stored := by
  induction strings generalizing p i with
  | nil => simp at hs
  | cons t strings ih =>
    cases i with
    | zero =>
      cases hq
      cases hs
      exact ⟨Nat.le_refl _, h.left⟩
    | succ i =>
      obtain ⟨hle, hsh⟩ := ih h.right hq hs
      exact ⟨by omega, hsh⟩

theorem addresses_lt {strings : List CString} (hq : q ∈ addresses p strings) :
    q < p + (stored strings).length := by
  induction strings generalizing p with
  | nil => cases hq
  | cons s strings ih =>
    have hlen := s.length_stored
    rw [stored_cons, List.length_append]
    rcases List.mem_cons.mp hq with rfl | hq
    · omega
    · have := ih hq
      omega

/-- The array that stands at `a`, with its strings from `p` on. -/
theorem arrayAt_addresses {strings : List CString} (hp : 0 < p)
    (hlim : p + (stored strings).length ≤ dataLimit) (hw : Shows v a (bytes (addresses p strings ++ [0])))
    (h : Shows v p (stored strings)) : ArrayAt v a (addresses p strings) strings where
  words i q hi := by
    refine shows_word hw hi ?_
    have hlim' : dataLimit = 67108864 := rfl
    rcases List.mem_append.mp (List.mem_of_getElem? hi) with hq | hq
    · have := addresses_lt hq
      omega
    · rw [List.mem_singleton.mp hq]
      omega
  length := addresses_length
  strings i q s hq hs := by
    obtain ⟨hle, hsh⟩ := addresses_shows h hq hs
    exact ⟨by omega, hsh⟩

/-- Regions, each an address and a length, of which no two overlap. -/
def Apart (regions : List (Nat × Nat)) : Prop :=
  regions.Pairwise fun r r' => r.1 + r.2 ≤ r'.1 ∨ r'.1 + r'.2 ≤ r.1

/-- The regions of strings that begin at the given addresses. -/
def spans (ps : List Nat) (strings : List CString) : List (Nat × Nat) :=
  ps.zip (strings.map fun s => s.stored.length)

theorem spans_inside {strings : List CString} {r : Nat × Nat} (hr : r ∈ spans (addresses p strings) strings) :
    p ≤ r.1 ∧ r.1 + r.2 ≤ p + (stored strings).length := by
  induction strings generalizing p with
  | nil => cases hr
  | cons s strings ih =>
    rw [stored_cons, List.length_append]
    rcases List.mem_cons.mp hr with rfl | hr
    · exact ⟨Nat.le_refl _, by dsimp only; omega⟩
    · obtain ⟨h1, h2⟩ := ih hr
      exact ⟨by omega, by omega⟩

theorem spans_apart {strings : List CString} : Apart (spans (addresses p strings) strings) := by
  induction strings generalizing p with
  | nil => exact List.Pairwise.nil
  | cons s strings ih => exact List.pairwise_cons.mpr ⟨fun r hr => Or.inl (spans_inside hr).1, ih⟩

/-- The stack of a new program: the count, the two arrays with the strings they point at, and nothing
over anything else. -/
structure Layout (v : Nat → Option Byte) (sp argv envp : Nat) (argAt envAt : List Nat)
    (args envs : List CString) : Prop where
  count : readLong v sp = some args.length
  argvWord : readLong v (sp + 4) = some argv
  envpWord : readLong v (sp + 8) = some envp
  argArray : ArrayAt v argv argAt args
  envArray : ArrayAt v envp envAt envs
  apart : Apart ([(sp, 12), (argv, 4 * (args.length + 1)), (envp, 4 * (envs.length + 1))] ++
    (spans argAt args ++ spans envAt envs))

theorem layout_of_shows {sp : Nat} {args envs : List CString}
    (hp : p + (stored args).length + (stored envs).length ≤ dataLimit)
    (hsp : sp + 4 * (3 + (args.length + 1) + (envs.length + 1)) ≤ p)
    (hw : Shows v sp (bytes ([args.length, sp + 12, sp + 12 + 4 * (args.length + 1)] ++
      addresses p args ++ [0] ++ addresses (p + (stored args).length) envs ++ [0])))
    (h : Shows v p (stored args ++ stored envs)) :
    Layout v sp (sp + 12) (sp + 12 + 4 * (args.length + 1)) (addresses p args)
      (addresses (p + (stored args).length) envs) args envs := by
  have hlim : dataLimit = 67108864 := rfl
  rw [List.append_assoc, List.append_assoc, List.append_assoc, bytes_append] at hw
  have hr := hw.right
  rw [← List.append_assoc, bytes_append] at hr
  have hr' := hr.right
  have hargs : (bytes (addresses p args ++ [0])).length = 4 * (args.length + 1) := by
    rw [bytes_length, List.length_append, addresses_length]
    rfl
  rw [hargs] at hr'
  constructor
  · exact shows_word (i := 0) hw.left rfl (by omega)
  · exact shows_word (i := 1) hw.left rfl (by omega)
  · exact shows_word (i := 2) hw.left rfl (by omega)
  · exact arrayAt_addresses (by omega) (by omega) hr.left h.left
  · exact arrayAt_addresses (by omega) hp hr' h.right
  · refine List.pairwise_append.mpr ⟨?_, List.pairwise_append.mpr ⟨spans_apart, spans_apart, ?_⟩, ?_⟩
    · refine .cons (fun r hr => ?_) (.cons (fun r hr => ?_) (List.pairwise_singleton _ _))
      · simp only [List.mem_cons, List.not_mem_nil, or_false] at hr
        rcases hr with rfl | rfl
        · exact Or.inl (Nat.le_refl _)
        · exact Or.inl (by dsimp only; omega)
      · rw [List.mem_singleton.mp hr]
        exact Or.inl (Nat.le_refl _)
    · intro r hr r' hr'
      have h1 := spans_inside hr
      have h2 := spans_inside hr'
      exact Or.inl (by omega)
    · intro r hr r' hr'
      have h2 : p ≤ r'.1 := by
        rcases List.mem_append.mp hr' with hr' | hr'
        · exact (spans_inside hr').1
        · exact (Nat.le_add_right _ _).trans (spans_inside hr').1
      simp only [List.mem_cons, List.not_mem_nil, or_false] at hr
      rcases hr with rfl | rfl | rfl <;> exact Or.inl (by dsimp only; omega)

/-- The arguments and the environment of `execve`, as the new program finds them. -/
theorem arguments_passed (S : Supply) (demand : Nat → Nat → Byte) (fs : Nat → Option Byte)
    (argv envp : Nat) (args envs : List CString) (hargs : Passed fs argv args)
    (henvs : Passed fs envp envs)
    (hsize : (stored args).length + (stored envs).length < maxArgPages * pageSize - 4) :
    ∃ sp m argv' envp' argAt envAt, passArguments S demand fs argv envp = .ok (sp, m) ∧
      Layout (m.view pageSize) sp argv' envp' argAt envAt args envs := by
  have htop : top = 131068 := rfl
  have hmax : maxArgPages * pageSize - 4 = 131068 := rfl
  have hbase : base = 66977792 := rfl
  have hlim : dataLimit = 67108864 := rfl
  have M₀ : Stored S (⟨fun _ _ => 0, fun _ => 0, 0⟩ : Paged Byte) (pageSize * maxArgPages - 4) [] :=
    ⟨.empty fun _ => rfl, rfl, Shows.nil⟩
  obtain ⟨hc₁, p₁, m₁, h₁, M₁⟩ := copyStrings_spec henvs M₀ (by
    show _ < 131068
    omega)
  have hs₁ := M₁.size
  rw [List.append_nil] at hs₁ M₁
  obtain ⟨hc₂, p₂, m₂, h₂, M₂⟩ := copyStrings_spec hargs M₁ (by omega)
  have hs₂ := M₂.size
  rw [List.length_append] at hs₂
  obtain ⟨M₃, hsh⟩ := changeLdt_spec M₂
  have hn₁ := length_le_stored args
  have hn₂ := length_le_stored envs
  obtain ⟨m₄, sp, h₄, hsp, hw, hst, _⟩ := createTables_spec demand M₃ hsh (by omega) (by omega)
  refine ⟨sp, m₄, _, _, _, _, ?_, layout_of_shows (by omega) (by omega) hw hst⟩
  have hp₂ : ¬ p₂ = 0 := by omega
  have hp : p₂ + (changeLdt m₂).1 - maxArgPages * pageSize = base + p₂ := by
    show p₂ + 67108864 - 131072 = 66977792 + p₂
    omega
  simp only [passArguments, hc₁, hc₂, ok_bind, h₁, h₂, if_neg hp₂, hp]
  exact h₄

/-- The memory of a caller: `argv` at 16, `envp` at 28, and from 48 on `ls`, `x` and `A=b`. -/
def callerMemory : List Byte :=
  List.replicate 16 0 ++ longBytes 48 ++ longBytes 51 ++ longBytes 0 ++ longBytes 53 ++ longBytes 0 ++
    List.replicate 12 0 ++ [108, 115, 0, 120, 0, 65, 61, 98, 0]

/-- `ls x`, with `A=b` in the environment. -/
theorem arguments_passed_ls : ∃ sp m argv envp argAt envAt,
    passArguments ⟨(· + 1), Nat.succ_ne_zero, Nat.succ_injective⟩ (fun _ _ => 0) (callerMemory[·]?) 16 28 =
        .ok (sp, m) ∧
      Layout (m.view pageSize) sp argv envp argAt envAt [⟨[108, 115], by decide⟩, ⟨[120], by decide⟩]
        [⟨[65, 61, 98], by decide⟩] := by
  refine arguments_passed _ _ _ 16 28 _ _ ⟨[48, 51], ⟨?_, rfl, ?_⟩⟩ ⟨[53], ⟨?_, rfl, ?_⟩⟩ (by decide)
  · intro i q h
    match i, h with
    | 0, h => cases h; decide
    | 1, h => cases h; decide
    | 2, h => cases h; decide
  · intro i q s hq hs
    match i, hq, hs with
    | 0, hq, hs =>
      cases hq
      cases hs
      exact ⟨by decide, Shows.cons rfl (Shows.cons rfl (Shows.cons rfl Shows.nil))⟩
    | 1, hq, hs =>
      cases hq
      cases hs
      exact ⟨by decide, Shows.cons rfl (Shows.cons rfl Shows.nil)⟩
  · intro i q h
    match i, h with
    | 0, h => cases h; decide
    | 1, h => cases h; decide
  · intro i q s hq hs
    match i, hq, hs with
    | 0, hq, hs =>
      cases hq
      cases hs
      exact ⟨by decide, Shows.cons rfl (Shows.cons rfl (Shows.cons rfl (Shows.cons rfl Shows.nil)))⟩

end Linux011.Exec
