import Linux011.Mm.Memory
import Mathlib.Tactic.IntervalCases

/-!
# Entries, bit by bit

The paging code tests and changes entries with masks. These are the facts the rest of the
development uses instead of the masks: what each flag and the frame number become, and that the
comparisons the source makes on whole words are comparisons of frame numbers.
-/

namespace Linux011.Mm

theorem frame_eq (e : Word) : frame e = e.toNat / 4096 := by
  simp only [frame, BitVec.toNat_ushiftRight, Nat.shiftRight_eq_div_pow]

theorem frame_lt (e : Word) : frame e < 2 ^ 20 := by
  rw [frame_eq]
  have := e.isLt
  omega

/-- Setting flag bits keeps the frame. -/
theorem frame_or {e w : Word} (h : w.toNat < 4096) : frame (e ||| w) = frame e := by
  have flags : w.toNat >>> 12 = 0 := by
    rw [Nat.shiftRight_eq_div_pow]
    omega
  simp only [frame, BitVec.toNat_ushiftRight, BitVec.toNat_or, Nat.shiftRight_or_distrib, flags,
    Nat.or_zero]

/-- Clearing flag bits keeps the frame. -/
theorem frame_and {e w : Word} (h : w.toNat >>> 12 = 2 ^ 20 - 1) : frame (e &&& w) = frame e := by
  have bound : e.toNat >>> 12 < 2 ^ 20 := by
    simpa only [frame, BitVec.toNat_ushiftRight] using frame_lt e
  simp only [frame, BitVec.toNat_ushiftRight, BitVec.toNat_and, Nat.shiftRight_and_distrib, h]
  rw [Nat.and_two_pow_sub_one_eq_mod, Nat.mod_eq_of_lt bound]

@[simp] theorem present_userEntry (p : Nat) : present (userEntry p) = true := by
  simp [present, userEntry]

@[simp] theorem writable_userEntry (p : Nat) : writable (userEntry p) = true := by
  simp [writable, userEntry]

theorem frame_userEntry {p : Nat} (h : p < 2 ^ 20) : frame (userEntry p) = p := by
  rw [userEntry, frame_or (by decide), frame_eq, BitVec.toNat_ofNat]
  omega

/-- A fresh entry is clean: the page number shifted by twelve leaves bit 6 free. -/
@[simp] theorem dirty_userEntry (p : Nat) : dirty (userEntry p) = false := by
  have bit : (p * 4096).testBit 6 = false := by
    rw [show p * 4096 = 2 ^ 12 * p by omega, Nat.testBit_two_pow_mul]
    simp
  simp only [dirty, userEntry, BitVec.getLsbD_or, BitVec.getLsbD_ofNat, bit]
  rfl

@[simp] theorem present_clear (e : Word) : present (e &&& ~~~2) = present e := by
  simp [present]

@[simp] theorem writable_clear (e : Word) : writable (e &&& ~~~2) = false := by
  simp [writable]

@[simp] theorem dirty_clear (e : Word) : dirty (e &&& ~~~2) = dirty e := by
  simp [dirty]

@[simp] theorem frame_clear (e : Word) : frame (e &&& ~~~2) = frame e := frame_and (by decide)

@[simp] theorem frame_mask (e : Word) : frame (e &&& 0xfffff000) = frame e := frame_and (by decide)

@[simp] theorem present_or_two (e : Word) : present (e ||| 2) = present e := by
  simp [present]

@[simp] theorem writable_or_two (e : Word) : writable (e ||| 2) = true := by
  simp [writable]

@[simp] theorem dirty_or_two (e : Word) : dirty (e ||| 2) = dirty e := by
  simp [dirty]

@[simp] theorem frame_or_two (e : Word) : frame (e ||| 2) = frame e := frame_or (by decide)

@[simp] theorem present_or_used (e : Word) : present (e ||| 0x60) = present e := by
  simp [present]

@[simp] theorem writable_or_used (e : Word) : writable (e ||| 0x60) = writable e := by
  simp [writable]

@[simp] theorem dirty_or_used (e : Word) : dirty (e ||| 0x60) = true := by
  simp [dirty]

@[simp] theorem frame_or_used (e : Word) : frame (e ||| 0x60) = frame e := frame_or (by decide)

/-- `(e & 0x41) == 0x01`: present and clean. -/
theorem mask_clean (e : Word) : e &&& 0x41 = 1 ↔ present e = true ∧ dirty e = false := by
  simp only [present, dirty]
  constructor
  · intro h
    have h0 := congrArg (fun w => BitVec.getLsbD w 0) h
    have h6 := congrArg (fun w => BitVec.getLsbD w 6) h
    simp only [BitVec.getLsbD_and] at h0 h6
    exact ⟨by simpa using h0, by simpa using h6⟩
  · rintro ⟨hp, hd⟩
    apply BitVec.eq_of_getLsbD_eq
    intro i hi
    rw [BitVec.getLsbD_and]
    interval_cases i <;> first | rw [hp]; rfl | rw [hd]; rfl | simp

/-- `(3 & e) == 1`: present and not writable. -/
theorem mask_readOnly (e : Word) : e &&& 3 = 1 ↔ present e = true ∧ writable e = false := by
  simp only [present, writable]
  constructor
  · intro h
    have h0 := congrArg (fun w => BitVec.getLsbD w 0) h
    have h1 := congrArg (fun w => BitVec.getLsbD w 1) h
    simp only [BitVec.getLsbD_and] at h0 h1
    exact ⟨by simpa using h0, by simpa using h1⟩
  · rintro ⟨hp, hw⟩
    apply BitVec.eq_of_getLsbD_eq
    intro i hi
    rw [BitVec.getLsbD_and]
    interval_cases i <;> first | rw [hp]; rfl | rw [hw]; rfl | simp

/-- The `>` of `copy_page_tables` is a `>=` of frames: the P bit makes the word odd. -/
theorem above_lowMem {e : Word} (h : present e = true) : e > 0x100000 ↔ lowMem ≤ frame e := by
  have odd : e.toNat % 2 = 1 := by
    rw [present, BitVec.getLsbD, Nat.testBit_zero] at h
    simpa using h
  rw [frame_eq, lowMem, gt_iff_lt, BitVec.lt_def]
  simp only [BitVec.reduceToNat]
  omega

/-- The index the source computes from a page address is `MAP_NR`. -/
theorem mapNr_sub {e : Word} (h : lowMem ≤ frame e) :
    ((e - 0x100000) >>> 12).toNat = mapNr (frame e) := by
  have bound : 0x100000 ≤ e.toNat := by
    rw [frame_eq, lowMem] at h
    omega
  have := e.isLt
  rw [BitVec.toNat_ushiftRight, BitVec.toNat_sub, Nat.shiftRight_eq_div_pow, mapNr, frame_eq, lowMem]
  simp only [BitVec.reduceToNat]
  omega

end Linux011.Mm
