import Linux011.Exec.Layout
import Mathlib.Data.Finset.Card
import Mathlib.Order.Interval.Finset.Nat

/-!
# The whole of `copy_strings` (`fs/exec.c`)

Here `fs` holds one of two segments, `from_kmem` says when it is changed, and the pages run out. The
result is 0 when no page could be had, with the pages taken so far left in the array.

One call copies the bytes of its strings from the last one to the first, so all of it is one walk down
from `p` (`walk`). The walk ends at `p` minus the size of the strings when that is not below 0 and there
are pages for it. The test `p-len < 0` that should stop the rest compares unsigned numbers: from `p` 0
the walk goes on to 0xFFFFFFFF, and to `page[0xFFFFF]`.
-/

namespace Linux011.Exec.Strings

open Linux011.Lib Linux011.Lib.Paged

/-! ## The code -/

/-- What the register `fs` holds. -/
inductive Seg where
  | user
  | kernel
  deriving DecidableEq

/-- The memory behind the segments. -/
structure Space where
  view : Seg → Nat → Option Byte
  limit : ∀ s a, dataLimit ≤ a → view s a = none

/-- The free pages, in the order in which `get_free_page` gives them. -/
structure Pool extends Supply where
  total : Nat

/-- The variables of `copy_strings` and the register. -/
structure Walk where
  copy : Copy
  fs : Seg

/-- How a call ends before its last byte. -/
inductive Halt where
  /-- `return 0` -/
  | back (w : Walk)
  /-- a reference to `page[index]` behind the end of the array -/
  | outside (index : Nat)
  | stop (s : Stop)

def lift {α : Type} : Except Stop α → Except Halt α
  | .ok a => .ok a
  | .error s => .error (.stop s)

section Code

variable (P : Pool) (M : Space) (fromKmem : Int) (oldFs : Seg)

/-- `--p`, and the page of `p` when `--offset` is below zero. -/
def stepDown (w : Walk) : Except Halt Walk :=
  let p := sub32 w.copy.p 1
  if w.copy.offset - 1 < 0 then
    let fs := if fromKmem = 2 then oldFs else w.fs
    if maxArgPages ≤ p / pageSize then .error (.outside (p / pageSize))
    else if w.copy.mem.table (p / pageSize) = 0 ∧ P.total ≤ w.copy.mem.taken then
      .error (.back ⟨⟨p, ((p % pageSize : Nat) : Int), 0, w.copy.mem⟩, fs⟩)
    else
      let mem := w.copy.mem.touch P.toSupply pageSize (fun _ _ => 0) p
      .ok ⟨⟨p, ((p % pageSize : Nat) : Int), mem.table (p / pageSize), mem⟩,
        if fromKmem = 2 then .kernel else fs⟩
  else .ok ⟨⟨p, w.copy.offset - 1, w.copy.pag, w.copy.mem⟩, w.fs⟩

/-- `*(pag + offset) = b`. -/
def Walk.put (w : Walk) (b : Byte) : Walk :=
  { w with copy := { w.copy with mem := w.copy.mem.poke w.copy.pag w.copy.offset.toNat b } }

/-- `while (len)`. -/
def copyDown : Nat → Nat → Walk → Except Halt Walk
  | 0, _, w => .ok w
  | len + 1, tmp, w => do
    let w ← stepDown P fromKmem oldFs w
    let b ← lift (getFsByte (M.view w.fs) (tmp - 1))
    copyDown len (tmp - 1) (w.put b)

/-- `while (argc-- > 0)`. -/
def copyFrom (argv : Nat) : Nat → Walk → Except Halt Walk
  | 0, w => .ok w
  | argc + 1, w => do
    let w := if fromKmem = 1 then { w with fs := .kernel } else w
    let tmp ← lift (getFsLong (M.view w.fs) (argv + 4 * argc))
    if tmp = 0 then throw (.stop (.panic "argc is wrong"))
    let w := if fromKmem = 1 then { w with fs := oldFs } else w
    let len ← lift (strLen (M.view w.fs) dataLimit tmp)
    -- an unsigned difference
    if sub32 w.copy.p len < 0 then throw (.back { w with fs := oldFs })
    copyFrom argv argc (← copyDown P M fromKmem oldFs len (tmp + len) w)

/-- `copy_strings`: the result, the pages, and `fs`. -/
def copyStrings (argc : Int) (argv p : Nat) (mem : Paged Byte) : Except Halt (Nat × Paged Byte × Seg) :=
  if p = 0 then .ok (0, mem, oldFs)
  else
    let fs := if fromKmem = 2 then .kernel else oldFs
    match copyFrom P M fromKmem oldFs argv argc.toNat ⟨⟨p, 0, 0, mem⟩, fs⟩ with
    | .ok w => .ok (w.copy.p, w.copy.mem, if fromKmem = 2 then oldFs else w.fs)
    | .error (.back w) => .ok (0, w.copy.mem, w.fs)
    | .error e => .error e

end Code

/-! ## One walk over the bytes -/

section Walk

variable {P : Pool} {M : Space} {fromKmem : Int} {oldFs : Seg} {c d : Copy} {n a q argv : Nat}
  {text bytes : List Byte}

/-- One byte in front of the others. -/
def putByte (P : Pool) (oldFs : Seg) (b : Byte) (c : Copy) : Except Halt Copy :=
  (stepDown P 0 oldFs ⟨c, oldFs⟩).map fun w => (w.put b).copy

/-- The bytes as they are copied, the last one first. -/
def walk (P : Pool) (oldFs : Seg) : List Byte → Copy → Except Halt Copy
  | [], c => .ok c
  | b :: bytes, c => do walk P oldFs bytes (← putByte P oldFs b c)

theorem walk_append {bytes' : List Byte} :
    walk P oldFs (bytes ++ bytes') c = (do walk P oldFs bytes' (← walk P oldFs bytes c)) := by
  induction bytes generalizing c with
  | nil => rfl
  | cons b bytes ih =>
    show (do walk P oldFs (bytes ++ bytes') (← putByte P oldFs b c)) = _
    cases h : putByte P oldFs b c with
    | error e =>
      simp only [walk, h]
      rfl
    | ok d =>
      simp only [walk, h]
      exact ih

/-- The segment of the strings. -/
def stringSeg (fromKmem : Int) (oldFs : Seg) : Seg := if fromKmem = 2 then .kernel else oldFs

/-- The segment of the array. -/
def arraySeg (fromKmem : Int) (oldFs : Seg) : Seg :=
  if fromKmem = 1 ∨ fromKmem = 2 then .kernel else oldFs

/-- A walk that leaves the register at the strings. -/
def rest (fromKmem : Int) (oldFs : Seg) (r : Except Halt Copy) : Except Halt Walk :=
  r.map fun c => ⟨c, stringSeg fromKmem oldFs⟩

theorem stepDown_eq : stepDown P fromKmem oldFs ⟨c, stringSeg fromKmem oldFs⟩ =
    (stepDown P 0 oldFs ⟨c, oldFs⟩).map fun w => ⟨w.copy, stringSeg fromKmem oldFs⟩ := by
  have h0 : ¬ (0 : Int) = 2 := by decide
  unfold stepDown stringSeg
  dsimp only
  rw [if_neg h0]
  by_cases h2 : fromKmem = 2
  · simp only [if_pos h2]
    split
    · split
      · rfl
      · split <;> rfl
    · rfl
  · simp only [if_neg h2]
    split
    · split
      · rfl
      · split <;> rfl
    · rfl

theorem copyDown_eq (h : Shows (M.view (stringSeg fromKmem oldFs)) a text) :
    copyDown P M fromKmem oldFs text.length (a + text.length) ⟨c, stringSeg fromKmem oldFs⟩ =
      rest fromKmem oldFs (walk P oldFs text.reverse c) := by
  induction text using List.reverseRecOn generalizing c with
  | nil => rfl
  | append_singleton text b ih =>
    have hb : M.view (stringSeg fromKmem oldFs) (a + text.length) = some b := h.right.head
    rw [List.length_append, List.length_singleton, ← Nat.add_assoc, List.reverse_append]
    show (do
      let w ← stepDown P fromKmem oldFs ⟨c, stringSeg fromKmem oldFs⟩
      let b ← lift (getFsByte (M.view w.fs) (a + text.length + 1 - 1))
      copyDown P M fromKmem oldFs text.length (a + text.length + 1 - 1) (w.put b)) =
        rest fromKmem oldFs (do walk P oldFs text.reverse (← putByte P oldFs b c))
    rw [stepDown_eq, putByte]
    cases hs : stepDown P 0 oldFs ⟨c, oldFs⟩ with
    | error e => rfl
    | ok w =>
      show (do
        let b ← lift (getFsByte (M.view (stringSeg fromKmem oldFs)) (a + text.length + 1 - 1))
        copyDown P M fromKmem oldFs text.length (a + text.length + 1 - 1)
          (Walk.put ⟨w.copy, stringSeg fromKmem oldFs⟩ b)) = _
      simp only [Nat.add_sub_cancel, getFsByte, hb, found, lift]
      exact ih h.left

/-- The array and the strings of a call, each as its segment shows it. -/
structure Placed (array strings : Nat → Option Byte) (a : Nat) (ps : List Nat) (ss : List CString) :
    Prop where
  length : ps.length = ss.length
  words : ∀ i q, ps[i]? = some q → readLong array (a + 4 * i) = some q
  strings : ∀ (i q : Nat) (s : CString), ps[i]? = some q → ss[i]? = some s →
    q ≠ 0 ∧ Shows strings q s.stored

/-- A string lies inside of its segment. -/
theorem length_lt (M : Space) {s : Seg} {str : CString} (h : Shows (M.view s) q str.stored) :
    str.chars.length < dataLimit := by
  by_contra hle
  have hlast := h.right 0 0 rfl
  rw [M.limit s _ (by omega)] at hlast
  cases hlast

theorem copyFrom_eq {ps : List Nat} {ss : List CString}
    (h : Placed (M.view (arraySeg fromKmem oldFs)) (M.view (stringSeg fromKmem oldFs)) argv ps ss)
    (hn : n ≤ ss.length) :
    copyFrom P M fromKmem oldFs argv n ⟨c, stringSeg fromKmem oldFs⟩ =
      rest fromKmem oldFs (walk P oldFs (stored (ss.take n)).reverse c) := by
  induction n generalizing c with
  | zero => rfl
  | succ n ih =>
    have hs : ss[n]? = some ss[n] := List.getElem?_eq_getElem hn
    have hq : ps[n]? = some (ps.get ⟨n, h.length ▸ hn⟩) := List.getElem?_eq_getElem _
    generalize ss[n] = s at hs
    generalize ps.get ⟨n, h.length ▸ hn⟩ = q at hq
    obtain ⟨hne, hsh⟩ := h.strings n q s hq hs
    have hw := h.words n q hq
    have hlen := strLen_spec hsh (length_lt M hsh)
    have hsplit : stored (ss.take (n + 1)) = stored (ss.take n) ++ s.stored := by
      rw [List.take_add_one, hs, stored_append]
      exact congrArg _ stored_singleton
    have harr : (if fromKmem = 1 then (⟨c, .kernel⟩ : Walk) else ⟨c, stringSeg fromKmem oldFs⟩) =
        ⟨c, arraySeg fromKmem oldFs⟩ := by
      unfold stringSeg arraySeg
      by_cases h1 : fromKmem = 1
      · rw [if_pos h1, if_pos (Or.inl h1)]
      · rw [if_neg h1]
        simp only [h1, false_or]
    have hback : (if fromKmem = 1 then (⟨c, oldFs⟩ : Walk) else ⟨c, arraySeg fromKmem oldFs⟩) =
        ⟨c, stringSeg fromKmem oldFs⟩ := by
      unfold stringSeg arraySeg
      by_cases h1 : fromKmem = 1
      · rw [if_pos h1, if_neg (by omega)]
      · rw [if_neg h1]
        simp only [h1, false_or]
    rw [copyFrom]
    simp only [harr, getFsLong, hw, found, lift]
    simp only [bind, Except.bind, if_neg hne, hback, hlen, Nat.not_lt_zero, if_false]
    show (do copyFrom P M fromKmem oldFs argv n (← copyDown P M fromKmem oldFs s.stored.length
      (q + s.stored.length) ⟨c, stringSeg fromKmem oldFs⟩)) = _
    rw [copyDown_eq hsh, hsplit, List.reverse_append, walk_append]
    cases walk P oldFs s.stored.reverse c with
    | error e => rfl
    | ok d => exact ih (by omega)

/-! ## How far the walk comes -/

/-- The places in `page` of the `n` bytes below `p`, as far as no page is there. -/
def absent (m : Paged Byte) (p n : Nat) : Finset Nat :=
  ((Finset.Ico (p - n) p).image (· / pageSize)).filter fun i => m.table i = 0

/-- There are pages for the `n` bytes below `p`. -/
def Enough (P : Pool) (m : Paged Byte) (p n : Nat) : Prop := (absent m p n).card ≤ P.total - m.taken

instance {P : Pool} {m : Paged Byte} {p n : Nat} : Decidable (Enough P m p n) :=
  inferInstanceAs (Decidable (_ ≤ _))

/-- `pag` and `offset` are the page and the place of `p`, or the next byte looks its page up. -/
structure At (c : Copy) : Prop where
  bound : c.p ≤ maxArgPages * pageSize
  nonneg : 0 ≤ c.offset
  place : 0 < c.offset → c.offset = (c.p % pageSize : Nat) ∧ c.pag = c.mem.table (c.p / pageSize) ∧
    c.pag ≠ 0

theorem At.start {m : Paged Byte} {p : Nat} (h : p ≤ maxArgPages * pageSize) : At ⟨p, 0, 0, m⟩ :=
  ⟨h, Int.le_refl 0, fun h => absurd h (Int.lt_irrefl 0)⟩

theorem absent_succ {m : Paged Byte} {p : Nat} (hp : 0 < p) : absent m p (n + 1) =
    if m.table ((p - 1) / pageSize) = 0 then insert ((p - 1) / pageSize) (absent m (p - 1) n)
    else absent m (p - 1) n := by
  have hico : Finset.Ico (p - (n + 1)) p = insert (p - 1) (Finset.Ico (p - 1 - n) (p - 1)) := by
    ext i
    simp only [Finset.mem_insert, Finset.mem_Ico]
    omega
  unfold absent
  rw [hico, Finset.image_insert, Finset.filter_insert]

theorem absent_bring {m : Paged Byte} {p k : Nat} {page : Nat → Byte} :
    absent (m.bring P.toSupply page k) p n = (absent m p n).erase k := by
  ext i
  simp only [absent, Finset.mem_erase, Finset.mem_filter, bring, Function.update_apply]
  by_cases hi : i = k
  · simp only [hi, if_true, P.ne_zero, and_false, ne_eq, not_true, false_and]
  · simp only [hi, if_false, ne_eq, not_false_iff, true_and]

/-- There are never more than `MAX_ARG_PAGES` of them. -/
theorem absent_card_le {m : Paged Byte} {p : Nat} (hp : p ≤ maxArgPages * pageSize) :
    (absent m p n).card ≤ maxArgPages := by
  have hsub : absent m p n ⊆ Finset.range maxArgPages := by
    intro i hi
    obtain ⟨a, ha, rfl⟩ := Finset.mem_image.mp (Finset.mem_filter.mp hi).1
    have := (Finset.mem_Ico.mp ha).2
    exact Finset.mem_range.mpr (Nat.div_lt_of_lt_mul (by rw [Nat.mul_comm]; omega))
  exact (Finset.card_le_card hsub).trans_eq (Finset.card_range _)

/-- A page that is brought is one that is needed. -/
theorem enough_touch {m : Paged Byte} {p : Nat} (fill : Nat → Nat → Byte) (hp : 0 < p)
    (hfree : m.table ((p - 1) / pageSize) = 0 → m.taken < P.total) :
    Enough P m p (n + 1) ↔ Enough P (m.touch P.toSupply pageSize fill (p - 1)) (p - 1) n := by
  unfold Enough Paged.touch
  rw [absent_succ hp]
  by_cases h : m.table ((p - 1) / pageSize) = 0
  · have hlt := hfree h
    have hcard := Finset.card_erase_add_one (Finset.mem_insert_self ((p - 1) / pageSize)
      (absent m (p - 1) n))
    have htaken : (m.bring P.toSupply (fill ((p - 1) / pageSize)) ((p - 1) / pageSize)).taken =
      m.taken + 1 := rfl
    rw [if_pos h, if_pos h, absent_bring, htaken, ← hcard, Finset.erase_insert_eq_erase]
    omega
  · rw [if_neg h, if_neg h]

theorem not_enough {m : Paged Byte} {p : Nat} (hp : 0 < p) (h : m.table ((p - 1) / pageSize) = 0)
    (hfull : P.total ≤ m.taken) : ¬ Enough P m p (n + 1) := by
  unfold Enough
  rw [absent_succ hp, if_pos h]
  have := Finset.card_pos.mpr (Finset.insert_nonempty ((p - 1) / pageSize) (absent m (p - 1) n))
  omega

/-- The page of the byte below `p` is in the array or brought, or there is none. -/
theorem stepDown_cases (P : Pool) (oldFs : Seg) (C : At c) (hp : 0 < c.p) :
    (c.mem.table ((c.p - 1) / pageSize) = 0 ∧ P.total ≤ c.mem.taken ∧
      ∃ d, stepDown P 0 oldFs ⟨c, oldFs⟩ = .error (.back ⟨d, oldFs⟩) ∧ d.mem = c.mem) ∨
    ∃ d, stepDown P 0 oldFs ⟨c, oldFs⟩ = .ok ⟨d, oldFs⟩ ∧ d.p = c.p - 1 ∧
      (c.mem.table ((c.p - 1) / pageSize) = 0 → c.mem.taken < P.total)
        ∧ d.offset = (d.p % pageSize : Nat) ∧ d.pag = d.mem.table (d.p / pageSize) ∧
      d.mem = c.mem.touch P.toSupply pageSize (fun _ _ => 0) d.p := by
  have hbound := C.bound
  have hmax : maxArgPages * pageSize = 131072 := rfl
  have hsub : sub32 c.p 1 = c.p - 1 := sub32_eq (by omega) hp
  have h0 : ¬ (0 : Int) = 2 := by decide
  unfold stepDown
  dsimp only
  simp only [hsub, if_neg h0]
  by_cases ho : c.offset - 1 < 0
  · have hin : ¬ maxArgPages ≤ (c.p - 1) / pageSize := by
      unfold maxArgPages pageSize
      omega
    rw [if_pos ho, if_neg hin]
    by_cases hfull : c.mem.table ((c.p - 1) / pageSize) = 0 ∧ P.total ≤ c.mem.taken
    · rw [if_pos hfull]
      exact Or.inl ⟨hfull.1, hfull.2, _, rfl, rfl⟩
    · rw [if_neg hfull]
      exact Or.inr ⟨_, rfl, rfl, fun h => by omega, rfl, rfl, rfl⟩
  · rw [if_neg ho]
    obtain ⟨hoff, hpag, hne⟩ := C.place (by omega)
    have hdiv : (c.p - 1) / pageSize = c.p / pageSize := by
      unfold pageSize at hoff ⊢
      omega
    have hmod : ((c.p - 1) % pageSize : Nat) = c.offset - 1 := by
      unfold pageSize at hoff ⊢
      omega
    have hpres : c.mem.table ((c.p - 1) / pageSize) ≠ 0 := by
      rw [hdiv, ← hpag]
      exact hne
    refine Or.inr ⟨_, rfl, rfl, fun h => absurd h hpres, hmod.symm, ?_, ?_⟩
    · show c.pag = c.mem.table ((c.p - 1) / pageSize)
      rw [hdiv, hpag]
    · show c.mem = c.mem.touch P.toSupply pageSize _ (c.p - 1)
      rw [touch_of_present hpres]

/-- At 0 the index is past the array. -/
theorem stepDown_zero (C : At c) (hp : c.p = 0) :
    stepDown P 0 oldFs ⟨c, oldFs⟩ = .error (.outside 0xFFFFF) := by
  have ho : c.offset - 1 < 0 := by
    by_contra hlt
    have := (C.place (by omega)).1
    rw [hp] at this
    have : c.offset = 0 := this
    omega
  have hidx : sub32 0 1 / pageSize = 0xFFFFF := by decide
  unfold stepDown
  dsimp only
  rw [if_pos ho, hp, hidx, if_pos (by decide)]

/-- One byte of the walk. -/
theorem putByte_cases (P : Pool) (oldFs : Seg) (b : Byte) (n : Nat) (C : At c) (hp : 0 < c.p) :
    (¬ Enough P c.mem c.p (n + 1) ∧ ∃ d, putByte P oldFs b c = .error (.back ⟨d, oldFs⟩)) ∨
    ∃ d, putByte P oldFs b c = .ok d ∧ At d ∧ d.p = c.p - 1 ∧
      (Enough P c.mem c.p (n + 1) ↔ Enough P d.mem d.p n) ∧
      d.mem = c.mem.store P.toSupply pageSize (fun _ _ => 0) d.p b := by
  rcases stepDown_cases P oldFs C hp with ⟨hnone, hfull, d, hd, _⟩ | ⟨d, hd, hdp, hfree, ho, hpag, hmem⟩
  · refine Or.inl ⟨not_enough hp hnone hfull, d, ?_⟩
    rw [putByte, hd]
    rfl
  · have hst : d.mem.poke d.pag d.offset.toNat b =
        c.mem.store P.toSupply pageSize (fun _ _ => 0) d.p b := by
      rw [store, ← hmem, ← hpag, ho]
      rfl
    refine Or.inr ⟨{ d with mem := d.mem.poke d.pag d.offset.toNat b }, ?_, ⟨?_, ?_, ?_⟩, hdp, ?_, hst⟩
    · rw [putByte, hd]
      rfl
    · show d.p ≤ _
      have := C.bound
      omega
    · show 0 ≤ d.offset
      rw [ho]
      exact Int.natCast_nonneg _
    · intro _
      refine ⟨ho, hpag, ?_⟩
      show d.pag ≠ 0
      rw [hpag, hmem]
      exact touch_present
    · have hiff := enough_touch (P := P) (n := n) (fun _ _ => 0) hp hfree
      rw [← hdp, ← hmem] at hiff
      exact hiff

/-- With pages for the bytes and for `k` more, the walk ends in front of what was there. -/
theorem walk_ok {k : Nat} (oldFs : Seg) (C : At c) (hlen : bytes.length ≤ c.p)
    (h : Enough P c.mem c.p (bytes.length + k)) :
    ∃ d, walk P oldFs bytes c = .ok d ∧ At d ∧ d.p = c.p - bytes.length ∧ Enough P d.mem d.p k ∧
      (c.mem.Sound P.toSupply → d.mem.Sound P.toSupply ∧ ∀ text, Shows (c.mem.view pageSize) c.p text →
        Shows (d.mem.view pageSize) d.p (bytes.reverse ++ text)) := by
  induction bytes generalizing c with
  | nil =>
    rw [List.length_nil, Nat.zero_add] at h
    exact ⟨c, rfl, C, rfl, h, fun M => ⟨M, fun _ ht => ht⟩⟩
  | cons b bytes ih =>
    rw [List.length_cons, Nat.add_right_comm] at h
    rw [List.length_cons] at hlen
    rcases putByte_cases P oldFs b (bytes.length + k) C (by omega) with
      ⟨hno, _⟩ | ⟨d, hd, D, hdp, hiff, hst⟩
    · exact absurd h hno
    · obtain ⟨e, he, E, hep, hk, hshow⟩ := ih D (by omega) (hiff.mp h)
      refine ⟨e, ?_, E, ?_, hk, fun M => ?_⟩
      · rw [walk, hd]
        exact he
      · rw [hep, hdp, List.length_cons]
        omega
      · have M' : d.mem.Sound P.toSupply := by
          rw [hst]
          exact M.store
        obtain ⟨E', htext⟩ := hshow M'
        refine ⟨E', fun text ht => ?_⟩
        rw [List.reverse_cons, List.append_assoc]
        apply htext
        have hkept : Kept pageSize d.p (d.p + 1) c.mem d.mem := by
          rw [hst]
          exact Kept.store M
        refine Shows.cons ?_ ?_
        · rw [hst]
          exact store_here
        · rw [show d.p + 1 = c.p by omega] at hkept ⊢
          exact hkept.shows ht (Or.inr (Nat.le_refl _))

/-- Too few pages end it with `return 0`. -/
theorem walk_back (oldFs : Seg) (C : At c) (hlen : bytes.length ≤ c.p)
    (h : ¬ Enough P c.mem c.p bytes.length) :
    ∃ d, walk P oldFs bytes c = .error (.back ⟨d, oldFs⟩) := by
  induction bytes generalizing c with
  | nil =>
    refine absurd ?_ h
    unfold Enough absent
    simp
  | cons b bytes ih =>
    rw [List.length_cons] at hlen h
    rcases putByte_cases P oldFs b bytes.length C (by omega) with ⟨_, d, hd⟩ | ⟨d, hd, D, hdp, hiff, _⟩
    · refine ⟨d, ?_⟩
      rw [walk, hd]
      rfl
    · obtain ⟨e, he⟩ := ih D (by omega) fun h' => h (hiff.mpr h')
      refine ⟨e, ?_⟩
      rw [walk, hd]
      exact he

/-- More bytes than there are below `p`: the pages run out, or the array is left. -/
theorem walk_over (P : Pool) (oldFs : Seg) (C : At c) (hlen : c.p < bytes.length) :
    if Enough P c.mem c.p c.p then walk P oldFs bytes c = .error (.outside 0xFFFFF)
    else ∃ d, walk P oldFs bytes c = .error (.back ⟨d, oldFs⟩) := by
  have htake : (bytes.take c.p).length = c.p := List.length_take_of_le hlen.le
  obtain ⟨b, rest, hrest⟩ := List.exists_cons_of_length_pos (l := bytes.drop c.p) (by
    rw [List.length_drop]
    omega)
  rw [← List.take_append_drop c.p bytes, walk_append]
  split
  · next h =>
    obtain ⟨d, hd, D, hdp, _⟩ := walk_ok (k := 0) oldFs C htake.le (by rwa [htake])
    rw [hd, hrest]
    show (do walk P oldFs rest (← putByte P oldFs b d)) = _
    rw [putByte, stepDown_zero D (by omega)]
    rfl
  · next h =>
    obtain ⟨d, hd⟩ := walk_back oldFs C htake.le (by rwa [htake])
    refine ⟨d, ?_⟩
    rw [hd]
    rfl

end Walk

/-! ## The bounds of the argument pages -/

/-- What a caller of `copy_strings` relies on. -/
structure Bounded (P : Pool) (p : Nat) (mem : Paged Byte) (ss : List CString)
    (r : Except Halt (Nat × Paged Byte × Seg)) : Prop where
  inside : ∀ i, r ≠ .error (.outside i)
  full : p < (stored ss).length → ∃ mem' fs, r = .ok (0, mem', fs)
  fits : (stored ss).length ≤ p → Enough P mem p (stored ss).length →
    ∃ mem' fs, r = .ok (p - (stored ss).length, mem', fs)

section Calls

variable {P : Pool} {M : Space} {fromKmem : Int} {oldFs : Seg} {argv p : Nat} {mem : Paged Byte}
  {ps : List Nat} {ss : List CString}

/-- The answer of a call, from its walk. -/
def answer (oldFs : Seg) : Except Halt Copy → Except Halt (Nat × Paged Byte × Seg)
  | .ok c => .ok (c.p, c.mem, oldFs)
  | .error (.back w) => .ok (0, w.copy.mem, w.fs)
  | .error e => .error e

theorem copyStrings_eq
    (h : Placed (M.view (arraySeg fromKmem oldFs)) (M.view (stringSeg fromKmem oldFs)) argv ps ss)
    (hp : p ≠ 0) : copyStrings P M fromKmem oldFs ss.length argv p mem =
      answer oldFs (walk P oldFs (stored ss).reverse ⟨p, 0, 0, mem⟩) := by
  have hfrom := copyFrom_eq (P := P) (c := ⟨p, 0, 0, mem⟩) h (Nat.le_refl _)
  rw [List.take_length] at hfrom
  unfold copyStrings
  rw [if_neg hp]
  dsimp only
  rw [Int.toNat_natCast, show (if fromKmem = 2 then Seg.kernel else oldFs)
    = stringSeg fromKmem oldFs from rfl,
    hfrom]
  cases walk P oldFs (stored ss).reverse ⟨p, 0, 0, mem⟩ with
  | error e => cases e <;> rfl
  | ok c =>
    show Except.ok (c.p, c.mem, if fromKmem = 2 then oldFs else stringSeg fromKmem oldFs) = _
    unfold stringSeg
    by_cases h2 : fromKmem = 2
    · rw [if_pos h2]
      rfl
    · rw [if_neg h2, if_neg h2]
      rfl

theorem copyStrings_zero {argc : Int} :
    copyStrings P M fromKmem oldFs argc argv 0 mem = .ok (0, mem, oldFs) := rfl

theorem copyStrings_ok (hb : p ≤ maxArgPages * pageSize)
    (h : Placed (M.view (arraySeg fromKmem oldFs)) (M.view (stringSeg fromKmem oldFs)) argv ps ss)
    (hp : p ≠ 0) (hfit : (stored ss).length ≤ p) (he : Enough P mem p (stored ss).length) :
    ∃ mem', copyStrings P M fromKmem oldFs ss.length argv p mem = .ok
      (p - (stored ss).length, mem', oldFs) := by
  rw [← List.length_reverse] at hfit he
  obtain ⟨d, hd, _, hdp, _⟩ := walk_ok (k := 0) oldFs (At.start (m := mem) hb) hfit he
  rw [copyStrings_eq h hp, hd]
  rw [List.length_reverse] at hdp
  refine ⟨d.mem, ?_⟩
  rw [← hdp]
  rfl

/-- What a call leaves in the pages. -/
theorem copyStrings_stored {text : List Byte} {k : Nat} (fromKmem argc : Int) (oldFs : Seg)
    (h : Placed (M.view (arraySeg fromKmem oldFs)) (M.view (stringSeg fromKmem oldFs)) argv ps ss)
    (hargc : argc.toNat = ss.length) (L : Stored P.toSupply mem p text) (hp : p ≠ 0)
    (hfit : (stored ss).length ≤ p) (he : Enough P mem p ((stored ss).length + k)) :
    ∃ mem', copyStrings P M fromKmem oldFs argc argv p mem = .ok (p - (stored ss).length, mem', oldFs) ∧
      Stored P.toSupply mem' (p - (stored ss).length) (stored ss ++ text) ∧
      Enough P mem' (p - (stored ss).length) k := by
  have hb : p ≤ maxArgPages * pageSize := by
    have hsize := L.size
    have htop : top = 131068 := rfl
    have hmax : maxArgPages * pageSize = 131072 := rfl
    omega
  have heq : copyStrings P M fromKmem oldFs argc argv p mem =
      copyStrings P M fromKmem oldFs ss.length argv p mem := by
    simp only [copyStrings, hargc, Int.toNat_natCast]
  rw [← List.length_reverse] at hfit he
  obtain ⟨d, hd, _, hdp, hk, hshow⟩ := walk_ok oldFs (At.start (m := mem) hb) hfit he
  obtain ⟨D, htext⟩ := hshow L.sound
  have hshown := htext text L.shown
  rw [List.reverse_reverse] at hshown
  rw [List.length_reverse] at hdp hfit
  refine ⟨d.mem, ?_, ⟨D, ?_, ?_⟩, ?_⟩
  · rw [heq, copyStrings_eq h hp, hd, ← hdp]
    rfl
  · have hsize := L.size
    rw [List.length_append]
    omega
  · rw [← hdp]
    exact hshown
  · rw [← hdp]
    exact hk

theorem copyStrings_back (hb : p ≤ maxArgPages * pageSize)
    (h : Placed (M.view (arraySeg fromKmem oldFs)) (M.view (stringSeg fromKmem oldFs)) argv ps ss)
    (hp : p ≠ 0) (hno : ¬ Enough P mem p (min (stored ss).length p)) :
    ∃ mem', copyStrings P M fromKmem oldFs ss.length argv p mem = .ok (0, mem', oldFs) := by
  rw [copyStrings_eq h hp]
  by_cases hlen : (stored ss).length ≤ p
  · rw [Nat.min_eq_left hlen, ← List.length_reverse] at hno
    rw [← List.length_reverse] at hlen
    obtain ⟨d, hd⟩ := walk_back oldFs (At.start (m := mem) hb) hlen hno
    rw [hd]
    exact ⟨_, rfl⟩
  · rw [Nat.min_eq_right (by omega)] at hno
    rw [Nat.not_le, ← List.length_reverse] at hlen
    have hover := walk_over P oldFs (At.start (m := mem) hb) hlen
    rw [if_neg hno] at hover
    obtain ⟨d, hd⟩ := hover
    rw [hd]
    exact ⟨_, rfl⟩

theorem copyStrings_outside (hb : p ≤ maxArgPages * pageSize)
    (h : Placed (M.view (arraySeg fromKmem oldFs)) (M.view (stringSeg fromKmem oldFs)) argv ps ss)
    (hp : p ≠ 0) (hlen : p < (stored ss).length) (he : Enough P mem p p) :
    copyStrings P M fromKmem oldFs ss.length argv p mem = .error (.outside 0xFFFFF) := by
  rw [← List.length_reverse] at hlen
  have hover := walk_over P oldFs (At.start (m := mem) hb) hlen
  rw [if_pos he] at hover
  rw [copyStrings_eq h hp, hover]
  rfl

end Calls

/-- The bounds are kept exactly if the strings fit, or `p` is 0, or the pages run out first. -/
theorem copyStrings_bounded_iff (P : Pool) (M : Space) (fromKmem : Int) (oldFs : Seg) (argv p : Nat)
    (mem : Paged Byte) (ps : List Nat) (ss : List CString) (hb : p ≤ maxArgPages * pageSize)
    (h : Placed (M.view (arraySeg fromKmem oldFs)) (M.view (stringSeg fromKmem oldFs)) argv ps ss) :
    Bounded P p mem ss (copyStrings P M fromKmem oldFs ss.length argv p mem) ↔
      (stored ss).length ≤ p ∨ p = 0 ∨ ¬ Enough P mem p p := by
  constructor
  · intro B
    by_contra hnot
    rw [not_or, not_or, not_not, Nat.not_le] at hnot
    exact B.inside _ (copyStrings_outside hb h hnot.2.1 hnot.1 hnot.2.2)
  · intro hcond
    by_cases hp : p = 0
    · subst hp
      rw [copyStrings_zero]
      exact ⟨fun i h => (by cases h), fun _ => ⟨_, _, rfl⟩, fun _ _ => ⟨mem, oldFs, by rw [Nat.zero_sub]⟩⟩
    · by_cases hfit : (stored ss).length ≤ p
      · by_cases he : Enough P mem p (stored ss).length
        · obtain ⟨mem', heq⟩ := copyStrings_ok hb h hp hfit he
          rw [heq]
          exact ⟨fun i h => (by cases h), fun hlt => by omega, fun _ _ => ⟨_, _, rfl⟩⟩
        · obtain ⟨mem', heq⟩ := copyStrings_back hb h hp (by rwa [Nat.min_eq_left hfit])
          rw [heq]
          exact ⟨fun i h => (by cases h), fun hlt => by omega, fun _ he' => absurd he' he⟩
      · have hno : ¬ Enough P mem p p := by
          rcases hcond with h1 | h1 | h1
          · exact absurd h1 hfit
          · exact absurd h1 hp
          · exact h1
        obtain ⟨mem', heq⟩ := copyStrings_back hb h hp (by
          rwa [Nat.min_eq_right (by omega)])
        rw [heq]
        exact ⟨fun i h => (by cases h), fun _ => ⟨_, _, rfl⟩, fun hle => absurd hle hfit⟩

/-- `a` as often as given, with its terminator. -/
def aaa (n : Nat) : CString := ⟨List.replicate n 97, fun h => absurd (List.eq_of_mem_replicate h)
    (by decide)⟩

/-- A user segment with the array at 16 and the string of `n` times `a` at 32. -/
def oneString (n : Nat) : Space where
  view s a := if s = .user ∧ a < dataLimit then
    (if a = 16 then some 32 else if 32 ≤ a ∧ a < 32 + n then some 97 else some 0) else none
  limit _ _ h := if_neg fun h' => Nat.not_lt.mpr h h'.2

theorem oneString_placed {n : Nat} (hn : 32 + n < dataLimit) :
    Placed ((oneString n).view (arraySeg 0 .user)) ((oneString n).view (stringSeg 0 .user)) 16 [32]
      [aaa n] := by
  have hlim : dataLimit = 67108864 := rfl
  constructor
  · rfl
  · intro i q h
    cases i with
    | succ i => simp at h
    | zero =>
      cases h
      simp [readLong, oneString, arraySeg, hlim]
  · intro i q s hq hs
    cases i with
    | succ i => simp at hq
    | zero =>
      cases hq
      cases hs
      have hend : 32 + n = 32 + (aaa n).chars.length := by simp [aaa]
      refine ⟨by decide, Shows.append ?_ (Shows.cons ?_ Shows.nil) hend⟩
      · intro j b hb
        obtain ⟨hj, rfl⟩ := List.getElem?_eq_some_iff.mp hb
        have hjn : j < n := by simpa [aaa] using hj
        simp [oneString, stringSeg, aaa, hlim, hjn, show 32 + j < 67108864 by omega,
          show ¬ 32 + j = 16 by omega]
      · simp [oneString, stringSeg, hlim, show 32 + n < 67108864 by omega, show ¬ 32 + n = 16 by omega]

/-- 32 free pages. -/
def somePages : Pool := ⟨⟨(· + 1), Nat.succ_ne_zero, Nat.succ_injective⟩, 32⟩

def noPages : Paged Byte := ⟨fun _ _ => 0, fun _ => 0, 0⟩

/-- The argument `aaa`. -/
theorem copyStrings_bounded_iff_aaa : Bounded somePages 131068 noPages [aaa 3]
    (copyStrings somePages (oneString 3) 0 .user 1 16 131068 noPages) :=
  (copyStrings_bounded_iff somePages (oneString 3) 0 .user 16 131068 noPages [32] [aaa 3] (by decide)
    (oneString_placed (by decide))).mpr (Or.inl (by decide))

/-- One argument of 128 KB leaves the array. -/
theorem copyStrings_unbounded :
    Placed ((oneString 131068).view (arraySeg 0 .user)) ((oneString 131068).view (stringSeg 0 .user)) 16
      [32] [aaa 131068] ∧
    ¬ Bounded somePages 131068 noPages [aaa 131068]
      (copyStrings somePages (oneString 131068) 0 .user 1 16 131068 noPages) := by
  have hplaced := oneString_placed (show 32 + 131068 < dataLimit by decide)
  have hsize : (stored [aaa 131068]).length = 131069 := by
    rw [stored_singleton, CString.length_stored]
    exact congrArg (· + 1) List.length_replicate
  refine ⟨hplaced, fun B => B.inside 0xFFFFF ?_⟩
  have hbound : 131068 ≤ maxArgPages * pageSize := by decide
  have hpages : Enough somePages noPages 131068 131068 := absent_card_le hbound
  have hlen : 131068 < (stored [aaa 131068]).length := by omega
  have hout := copyStrings_outside hbound hplaced (Nat.succ_ne_zero _) hlen hpages
  rwa [List.length_singleton] at hout

end Linux011.Exec.Strings
