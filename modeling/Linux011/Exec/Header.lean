import Mathlib.Data.Nat.Basic
import Mathlib.Algebra.Group.Nat.Defs

/-!
# The header of a program (`fs/exec.c`, `include/linux/sched.h`)

`do_execve` takes the sizes of a program from the first 32 bytes of the file, and checks them in
unsigned arithmetic before it gives up the old program. Then `change_ldt` rounds the size of the text
up to pages and makes it the limit of the code segment, and the sizes become `end_code`, `end_data` and
`brk` of the task.

The sums are not checked for overflow, and a limit of 0 pages becomes a limit of all of them. For a
header that passes the checks the program is inside its 64MB exactly if neither happens
(`accepted_sane_iff`).
-/

namespace Linux011.Exec

/-! ## Segment descriptors -/

/-- The eight bytes of a segment descriptor. -/
structure Descriptor where
  b0 : BitVec 8
  b1 : BitVec 8
  b2 : BitVec 8
  b3 : BitVec 8
  b4 : BitVec 8
  b5 : BitVec 8
  b6 : BitVec 8
  b7 : BitVec 8

namespace Descriptor

/-- The limit is in pages. -/
def granular (d : Descriptor) : Bool := d.b6.getLsbD 7

/-- `_set_limit`: 16 bits at the beginning, and 4 bits into the low half of byte 6. -/
def storeLimit (limit : BitVec 32) (d : Descriptor) : Descriptor :=
  let edx := limit.rotateRight 16
  let dh := d.b6 &&& 0xf0
  { d with
    b0 := limit.setWidth 8
    b1 := (limit >>> 8).setWidth 8
    b6 := edx.setWidth 8 ||| dh }

/-- `set_limit`. -/
def setLimit (limit : BitVec 32) (d : Descriptor) : Descriptor := d.storeLimit ((limit - 1) >>> 12)

/-- The 20 bits of the limit. -/
def rawLimit (d : Descriptor) : BitVec 20 := d.b6.setWidth 4 ++ d.b1 ++ d.b0

/-- `lsll`: the last address of the segment. -/
def lastByte (d : Descriptor) : BitVec 32 :=
  if d.granular then d.rawLimit.setWidth 32 <<< 12 ||| 0xfff else d.rawLimit.setWidth 32

/-- How many addresses the segment has. -/
def bytes (d : Descriptor) : Nat := d.lastByte.toNat + 1

variable {d : Descriptor} {limit : BitVec 32}

theorem getLsbD_rawLimit (d : Descriptor) (i : Nat) : d.rawLimit.getLsbD i =
    if i < 8 then d.b0.getLsbD i
    else if i < 16 then d.b1.getLsbD (i - 8)
    else (decide (i < 20) && d.b6.getLsbD (i - 16)) := by
  have happend : d.rawLimit.getLsbD i =
      ((d.b6.setWidth 4 ++ d.b1 ++ d.b0 : BitVec (4 + 8 + 8))).getLsbD i := rfl
  rw [happend, BitVec.getLsbD_append, BitVec.getLsbD_append]
  by_cases h8 : i < 8
  · simp [h8]
  · have h16 : (i - 8 < 8) = (i < 16) := propext ⟨by omega, by omega⟩
    have h20 : (i - 16 < 4) = (i < 20) := propext ⟨by omega, by omega⟩
    simp [h8, h16, h20, Nat.sub_sub]

/-- Byte 6 has the high bits of the limit, and keeps the flags, when the limit has 20 bits. -/
theorem b6_storeLimit (h : limit < 0x100000) (k : Nat) (hk : k < 8) :
    (d.storeLimit limit).b6.getLsbD k = if k < 4 then limit.getLsbD (16 + k) else d.b6.getLsbD k := by
  have hhigh : ∀ i, 20 ≤ i → limit.getLsbD i = false := by
    intro i hi
    have hlt : limit.toNat < 2 ^ 20 := h
    exact Nat.testBit_lt_two_pow (Nat.lt_of_lt_of_le hlt (Nat.pow_le_pow_right (by decide) hi))
  have hdl : (limit.rotateRight 16).getLsbD k = limit.getLsbD (16 + k) := by
    simp [BitVec.getLsbD_rotateRight, show k < 16 by omega]
  have hmask : (0xf0 : BitVec 8).getLsbD k = !decide (k < 4) := by
    have hall : ∀ k < 8, (0xf0 : BitVec 8).getLsbD k = !decide (k < 4) := by decide
    exact hall k hk
  simp only [storeLimit, BitVec.getLsbD_or, BitVec.getLsbD_and, BitVec.getLsbD_setWidth, hdl, hmask, hk,
    decide_true, Bool.true_and]
  by_cases h4 : k < 4
  · simp [h4]
  · simp [h4, hhigh (16 + k) (by omega)]

theorem granular_storeLimit (h : limit < 0x100000) : (d.storeLimit limit).granular = d.granular := by
  exact (b6_storeLimit h 7 (by decide)).trans (if_neg (by decide))

theorem rawLimit_storeLimit (h : limit < 0x100000) :
    (d.storeLimit limit).rawLimit.setWidth 32 = limit := by
  apply BitVec.eq_of_getLsbD_eq
  intro i hi
  rw [BitVec.getLsbD_setWidth, getLsbD_rawLimit]
  by_cases h8 : i < 8
  · simp [storeLimit, h8, hi]
  by_cases h16 : i < 16
  · simp [storeLimit, h8, h16, hi, show 8 + (i - 8) = i by omega]
    omega
  by_cases h20 : i < 20
  · rw [b6_storeLimit h _ (by omega)]
    simp [h8, h16, h20, hi, show i - 16 < 4 by omega, show 16 + (i - 16) = i by omega]
  · have hlt : limit.toNat < 2 ^ 20 := h
    have hi' : limit.getLsbD i = false := Nat.testBit_lt_two_pow
      (Nat.lt_of_lt_of_le hlt (Nat.pow_le_pow_right (by decide) (Nat.le_of_not_lt h20)))
    simp [h8, h16, h20, hi']

theorem granular_setLimit : (d.setLimit limit).granular = d.granular := by
  apply granular_storeLimit
  show ((limit - 1) >>> 12).toNat < 0x100000
  rw [BitVec.toNat_ushiftRight, Nat.shiftRight_eq_div_pow]
  omega

/-- The size of the segment is the limit, rounded up to pages; of a limit of 0 it is everything. -/
theorem bytes_setLimit (hd : d.granular = true) :
    (d.setLimit limit).bytes = ((limit - 1).toNat / 4096 + 1) * 4096 := by
  have hsmall : ((limit - 1) >>> 12).toNat < 0x100000 := by
    rw [BitVec.toNat_ushiftRight, Nat.shiftRight_eq_div_pow]
    omega
  have hraw : (d.setLimit limit).rawLimit.setWidth 32 = (limit - 1) >>> 12 := rawLimit_storeLimit hsmall
  have hshift : ((limit - 1) >>> 12 <<< 12).toNat = ((limit - 1).toNat / 4096) <<< 12 := by
    rw [BitVec.toNat_shiftLeft, BitVec.toNat_ushiftRight, Nat.shiftRight_eq_div_pow]
    apply Nat.mod_eq_of_lt
    rw [Nat.shiftLeft_eq]
    omega
  unfold bytes lastByte
  rw [granular_setLimit, hd, if_pos rfl, hraw, BitVec.toNat_or, hshift]
  show (((limit - 1).toNat / 4096) <<< 12 ||| 4095) + 1 = _
  rw [← Nat.shiftLeft_add_eq_or_of_lt (by decide), Nat.shiftLeft_eq]
  omega

end Descriptor

/-! ## The header -/

/-- `struct exec`. -/
structure Header where
  magic : BitVec 32
  text : BitVec 32
  data : BitVec 32
  bss : BitVec 32
  syms : BitVec 32
  entry : BitVec 32
  trsize : BitVec 32
  drsize : BitVec 32

/-- `ZMAGIC`. -/
def zmagic : BitVec 32 := 0o413

/-- `SEGMENT_SIZE`. -/
def segmentSize : BitVec 32 := 1024

/-- `sizeof (struct exec)`. -/
def headerSize : BitVec 32 := 32

/-- `N_TXTOFF`. -/
def Header.txtOff (ex : Header) : BitVec 32 :=
  if ex.magic = zmagic then segmentSize - headerSize + headerSize else headerSize

/-- The checks of `do_execve` on the header of a file of `size` bytes. -/
def Header.accepted (ex : Header) (size : BitVec 32) : Bool :=
  if ex.magic ≠ zmagic ∨ ex.trsize ≠ 0 ∨ ex.drsize ≠ 0 ∨ ex.text + ex.data + ex.bss > 0x3000000 ∨
      size < ex.text + ex.data + ex.syms + ex.txtOff then false
  else if ex.txtOff ≠ 1024 then false
  else true

/-- The local descriptor table, and the sizes of a task. -/
structure Task where
  /-- `ldt[1]`, which counts in pages. -/
  code : { d : Descriptor // d.granular = true }
  data : { d : Descriptor // d.granular = true }
  endCode : BitVec 32
  endData : BitVec 32
  brk : BitVec 32

/-- `change_ldt`; the bases are stored as they are. -/
def Task.changeLdt (t : Task) (textSize : BitVec 32) : Task :=
  let codeLimit := (textSize + 4096 - 1) &&& 0xFFFFF000
  { t with
    code := ⟨t.code.1.setLimit codeLimit, Descriptor.granular_setLimit.trans t.code.2⟩
    data := ⟨t.data.1.setLimit 0x4000000, Descriptor.granular_setLimit.trans t.data.2⟩ }

/-- `do_execve` behind the point of no return, as far as the sizes go. -/
def Task.load (t : Task) (ex : Header) : Task :=
  { t.changeLdt ex.text with
    endCode := ex.text
    endData := ex.data + ex.text
    brk := ex.bss + (ex.data + ex.text) }

/-! ## What the checks are worth -/

/-- The program is in its file, and in the segments of its task. -/
structure Sane (ex : Header) (size : BitVec 32) (t : Task) : Prop where
  fits : ex.text.toNat + ex.data.toNat + ex.bss.toNat ≤ 0x3000000
  inFile : ex.text.toNat + ex.data.toNat + ex.syms.toNat + 1024 ≤ size.toNat
  covers : ex.text.toNat ≤ t.code.1.bytes
  limited : t.code.1.bytes ≤ 0x4000000
  code_le : t.endCode ≤ t.endData
  data_le : t.endData ≤ t.brk
  below : t.brk.toNat < 0x4000000 - 32 * 4096

variable {ex : Header} {size : BitVec 32} {t : Task}

/-- The two sums do not wrap, and there is a text. -/
structure Header.Exact (ex : Header) : Prop where
  sum : ex.text.toNat + ex.data.toNat + ex.bss.toNat < 2 ^ 32
  file : ex.text.toNat + ex.data.toNat + ex.syms.toNat + 1024 < 2 ^ 32
  text : ex.text ≠ 0

theorem accepted_iff : ex.accepted size = true ↔ ex.magic = zmagic ∧ ex.trsize = 0 ∧ ex.drsize = 0 ∧
    (ex.text + ex.data + ex.bss).toNat ≤ 0x3000000 ∧
    (ex.text + ex.data + ex.syms + 1024).toNat ≤ size.toNat := by
  unfold Header.accepted Header.txtOff
  by_cases hm : ex.magic = zmagic
  · have hoff : segmentSize - headerSize + headerSize = 1024 := by decide
    simp [hm, hoff, BitVec.lt_def]
  · simp [hm]

/-- The segment that `change_ldt` makes for a text. -/
theorem bytes_load : (t.load ex).code.1.bytes =
    ((((ex.text + 4096 - 1) &&& 0xFFFFF000) - 1).toNat / 4096 + 1) * 4096 :=
  Descriptor.bytes_setLimit t.code.2

/-- Whole pages. -/
theorem pages_eq (x : BitVec 32) : x &&& (0xFFFFF000 : BitVec 32) = x >>> 12 <<< 12 := by
  have hmask : ∀ i < 32, (0xFFFFF000 : BitVec 32).getLsbD i = !decide (i < 12) := by decide
  apply BitVec.eq_of_getLsbD_eq
  intro i hi
  rw [BitVec.getLsbD_and, hmask i hi, BitVec.getLsbD_shiftLeft, BitVec.getLsbD_ushiftRight]
  by_cases h12 : i < 12
  · simp [h12]
  · simp [h12, hi, show 12 + (i - 12) = i by omega]

/-- The limit of a text is the text in whole pages. -/
theorem codeLimit_toNat (h : ex.text.toNat + 4095 < 2 ^ 32) :
    ((ex.text + 4096 - 1) &&& 0xFFFFF000).toNat = (ex.text.toNat + 4095) / 4096 * 4096 := by
  have hsum : (ex.text + 4096 - 1).toNat = ex.text.toNat + 4095 := by
    rw [BitVec.toNat_sub, BitVec.toNat_add]
    show (2 ^ 32 - 1 + (ex.text.toNat + 4096) % 2 ^ 32) % 2 ^ 32 = _
    omega
  rw [pages_eq, BitVec.toNat_shiftLeft, BitVec.toNat_ushiftRight, hsum, Nat.shiftRight_eq_div_pow,
    Nat.shiftLeft_eq]
  apply Nat.mod_eq_of_lt
  omega

/-- A header that passes the checks is sane if and only if the sums are what they look like. -/
theorem accepted_sane_iff (ex : Header) (size : BitVec 32) (t : Task) (h : ex.accepted size = true) :
    Sane ex size (t.load ex) ↔ ex.Exact := by
  obtain ⟨-, -, -, hsum, hfile⟩ := accepted_iff.mp h
  simp only [BitVec.toNat_add] at hsum hfile
  constructor
  · intro hs
    have hsize := size.isLt
    refine ⟨?_, ?_, ?_⟩
    · exact Nat.lt_of_le_of_lt hs.fits (by decide)
    · exact Nat.lt_of_le_of_lt hs.inFile hsize
    · intro h0
      have hl := hs.limited
      rw [bytes_load, h0] at hl
      exact absurd hl (by decide)
  · rintro ⟨h1, h2, h0⟩
    have hsum' : ex.text.toNat + ex.data.toNat + ex.bss.toNat ≤ 0x3000000 := by omega
    have hpos : 0 < ex.text.toNat := by
      apply Nat.pos_of_ne_zero
      intro hz
      exact h0 (BitVec.eq_of_toNat_eq hz)
    have hlimit := @codeLimit_toNat ex (by omega)
    have hbytes : (t.load ex).code.1.bytes = (ex.text.toNat + 4095) / 4096 * 4096 := by
      rw [bytes_load, BitVec.toNat_sub, hlimit]
      show ((2 ^ 32 - 1 + (ex.text.toNat + 4095) / 4096 * 4096) % 2 ^ 32 / 4096 + 1) * 4096 = _
      omega
    have hdata : (ex.data + ex.text).toNat = ex.data.toNat + ex.text.toNat := by
      rw [BitVec.toNat_add]
      omega
    have hbrk : (ex.bss + (ex.data + ex.text)).toNat = ex.bss.toNat + (ex.data.toNat + ex.text.toNat) := by
      rw [BitVec.toNat_add, hdata]
      omega
    refine ⟨hsum', ?_, ?_, ?_, ?_, ?_, ?_⟩
    · rw [show BitVec.toNat (1024 : BitVec 32) = 1024 from rfl] at hfile
      omega
    · rw [hbytes]
      omega
    · rw [hbytes]
      omega
    · show ex.text.toNat ≤ (ex.data + ex.text).toNat
      rw [hdata]
      omega
    · show (ex.data + ex.text).toNat ≤ (ex.bss + (ex.data + ex.text)).toNat
      rw [hbrk, hdata]
      omega
    · show (ex.bss + (ex.data + ex.text)).toNat < _
      rw [hbrk]
      omega

/-- The segments of `INIT_TASK`. -/
def initTask : Task where
  code := ⟨⟨0x9f, 0, 0, 0, 0, 0xfa, 0xc0, 0⟩, rfl⟩
  data := ⟨⟨0x9f, 0, 0, 0, 0, 0xf2, 0xc0, 0⟩, rfl⟩
  endCode := 0
  endData := 0
  brk := 0

/-- A page of text, and little else, in a file of 5120 bytes. -/
def onePage : Header := ⟨zmagic, 4096, 0, 100, 0, 0, 0, 0⟩

theorem accepted_sane_onePage : Sane onePage 5120 (initTask.load onePage) :=
  (accepted_sane_iff onePage 5120 initTask (by decide)).mpr ⟨by decide, by decide, by decide⟩

/-- The text is nearly 4GB, and the sum with the data is 4096. -/
def wrapped : Header := ⟨zmagic, 0xfffff000, 0x2000, 0, 0, 0, 0, 0⟩

theorem accepted_not_sane : ∃ (ex : Header) (size : BitVec 32) (t : Task),
    ex.accepted size = true ∧ ¬ Sane ex size (t.load ex) := by
  refine ⟨wrapped, 8192, initTask, by decide, ?_⟩
  intro h
  exact absurd h.fits (by decide)

end Linux011.Exec
