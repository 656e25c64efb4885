import Linux011.Exec.Header
import Linux011.Lib.Registers

/-!
# Base and limit of a segment (`include/linux/sched.h`)

The eight bytes of a descriptor are three fields, which the processor takes out of them: a base of 32
bits in bytes 2, 3, 4 and 7, a limit of 20 bits in bytes 0, 1 and half of 6, and the attributes in what is
left. The macros of the kernel move the parts of a register to these bytes, and back.

A descriptor is its three fields (`ofFields_fields`), and each of the macros is an assignment to one of
them (`fields_setBase`, `fields_setLimit`); what is read is the field. Everything else follows from that.
-/

namespace Linux011.Exec

open Lib (Reg)

/-- What the bytes of a descriptor mean. -/
@[ext]
structure Fields where
  base : BitVec 32
  limit : BitVec 20
  attributes : BitVec 12

namespace Descriptor

variable {d : Descriptor} {base limit edx : BitVec 32}

/-! ## The macros -/

/-- `_set_base`. -/
def storeBase (base : BitVec 32) (d : Descriptor) : Descriptor :=
  let edx : Reg := base.rotateRight 16
  { d with
    b2 := base.setWidth 8
    b3 := (base >>> 8).setWidth 8
    b4 := edx.low
    b7 := edx.high }

/-- `set_base`. -/
def setBase (base : BitVec 32) (d : Descriptor) : Descriptor := d.storeBase base

/-- `_get_base`; the first two moves are into what the register happens to hold. -/
def loadBase (edx : Reg) (d : Descriptor) : BitVec 32 :=
  let edx := edx.setHigh d.b7
  let edx : Reg := (edx.setLow d.b4) <<< 16
  edx.setHalf (d.b3 ++ d.b2)

/-- `get_base`. -/
def getBase (edx : Reg) (d : Descriptor) : BitVec 32 := d.loadBase edx

/-- `get_limit`: `lsll` and `incl`. -/
def getLimit (d : Descriptor) : BitVec 32 := d.lastByte + 1

/-! ## The fields -/

def rawBase (d : Descriptor) : BitVec 32 := d.b7 ++ d.b4 ++ d.b3 ++ d.b2

/-- Type, privilege and presence, and the flags in the high half of byte 6. -/
def attributes (d : Descriptor) : BitVec 12 := d.b6.extractLsb' 4 4 ++ d.b5

def fields (d : Descriptor) : Fields := ⟨d.rawBase, d.rawLimit, d.attributes⟩

/-- The descriptor that has the fields. -/
def ofFields (f : Fields) : Descriptor where
  b0 := f.limit.setWidth 8
  b1 := f.limit.extractLsb' 8 8
  b2 := f.base.setWidth 8
  b3 := f.base.extractLsb' 8 8
  b4 := f.base.extractLsb' 16 8
  b5 := f.attributes.setWidth 8
  b6 := f.attributes.extractLsb' 8 4 ++ f.limit.extractLsb' 16 4
  b7 := f.base.extractLsb' 24 8

theorem getLsbD_rawBase (d : Descriptor) (i : Nat) : d.rawBase.getLsbD i =
    if i < 8 then d.b2.getLsbD i
    else if i < 16 then d.b3.getLsbD (i - 8)
    else if i < 24 then d.b4.getLsbD (i - 16)
    else d.b7.getLsbD (i - 24) := by
  have happend : d.rawBase.getLsbD i =
      ((d.b7 ++ d.b4 ++ d.b3 ++ d.b2 : BitVec (8 + 8 + 8 + 8))).getLsbD i := rfl
  rw [happend, BitVec.getLsbD_append, BitVec.getLsbD_append, BitVec.getLsbD_append]
  by_cases h8 : i < 8
  · simp [h8]
  · have h16 : (i - 8 < 8) = (i < 16) := propext ⟨by omega, by omega⟩
    have h24 : (i - 16 < 8) = (i < 24) := propext ⟨by omega, by omega⟩
    simp [h8, h16, h24, Nat.sub_sub]

theorem getLsbD_attributes (d : Descriptor) (i : Nat) : d.attributes.getLsbD i =
    if i < 8 then d.b5.getLsbD i else (decide (i < 12) && d.b6.getLsbD (i - 4)) := by
  have happend : d.attributes.getLsbD i =
      ((d.b6.extractLsb' 4 4 ++ d.b5 : BitVec (4 + 8))).getLsbD i := rfl
  rw [happend, BitVec.getLsbD_append]
  by_cases h8 : i < 8
  · simp [h8]
  · have h12 : (i - 8 < 4) = (i < 12) := propext ⟨by omega, by omega⟩
    simp [h8, h12, show 4 + (i - 8) = i - 4 by omega]

/-- Nothing of a descriptor is outside its fields. -/
theorem ofFields_fields (d : Descriptor) : ofFields d.fields = d := by
  obtain ⟨b0, b1, b2, b3, b4, b5, b6, b7⟩ := d
  simp only [ofFields, fields, Descriptor.mk.injEq]
  refine ⟨?_, ?_, ?_, ?_, ?_, ?_, ?_, ?_⟩ <;> apply BitVec.eq_of_getLsbD_eq <;> intro i hi
  · simp [getLsbD_rawLimit, hi]
  · simp [getLsbD_rawLimit, hi, show 8 + i < 16 by omega]
  · simp [getLsbD_rawBase, hi]
  · simp [getLsbD_rawBase, hi, show 8 + i < 16 by omega]
  · simp [getLsbD_rawBase, hi, show ¬ 16 + i < 8 by omega, show ¬ 16 + i < 16 by omega,
      show 16 + i < 24 by omega]
  · simp [getLsbD_attributes, hi]
  · refine BitVec.getLsbD_append.trans ?_
    rw [BitVec.getLsbD_extractLsb', BitVec.getLsbD_extractLsb', getLsbD_rawLimit, getLsbD_attributes]
    by_cases h4 : i < 4
    · simp [h4, show ¬ 16 + i < 8 by omega, show ¬ 16 + i < 16 by omega, show 16 + i < 20 by omega]
    · simp [h4, show ¬ 8 + (i - 4) < 8 by omega, show 8 + (i - 4) < 12 by omega,
        show 8 + (i - 4) - 4 = i by omega, show i - 4 < 4 by omega]
  · simp [getLsbD_rawBase, hi, show ¬ 24 + i < 8 by omega, show ¬ 24 + i < 16 by omega,
      show ¬ 24 + i < 24 by omega]

theorem fields_injective : Function.Injective fields :=
  Function.LeftInverse.injective ofFields_fields

/-! ## The macros are assignments -/

theorem rawBase_storeBase : (d.storeBase base).rawBase = base := by
  apply BitVec.eq_of_getLsbD_eq
  intro i hi
  have hror : ∀ k < 16, (base.rotateRight 16).getLsbD k = base.getLsbD (16 + k) := by
    intro k hk
    simp [BitVec.getLsbD_rotateRight, hk]
  rw [getLsbD_rawBase]
  by_cases h8 : i < 8
  · simp [storeBase, h8]
  by_cases h16 : i < 16
  · simp [storeBase, h8, h16, show i - 8 < 8 by omega, show 8 + (i - 8) = i by omega]
  by_cases h24 : i < 24
  · rw [if_neg h8, if_neg h16, if_pos h24]
    show (Reg.low (base.rotateRight 16)).getLsbD (i - 16) = _
    rw [Reg.getLsbD_low, hror _ (by omega), decide_eq_true (by omega), Bool.true_and,
      show 16 + (i - 16) = i by omega]
  · rw [if_neg h8, if_neg h16, if_neg h24]
    show (Reg.high (base.rotateRight 16)).getLsbD (i - 24) = _
    rw [Reg.getLsbD_high, hror _ (by omega), decide_eq_true (by omega), Bool.true_and,
      show 16 + (8 + (i - 24)) = i by omega]

/-- `set_base` assigns the base. -/
theorem fields_setBase : (d.setBase base).fields = { d.fields with base := base } :=
  Fields.ext rawBase_storeBase rfl rfl

/-- `get_base` reads it, whatever was in the register. -/
theorem getBase_eq : d.getBase edx = d.fields.base := by
  apply BitVec.eq_of_getLsbD_eq
  intro i hi
  show ((Reg.setHalf (d.b3 ++ d.b2) (((Reg.setLow d.b4 (Reg.setHigh d.b7 edx)) <<< 16 : Reg))).getLsbD i)
    = d.rawBase.getLsbD i
  rw [Reg.getLsbD_setHalf _ hi, getLsbD_rawBase, BitVec.getLsbD_append, BitVec.getLsbD_shiftLeft,
    Reg.getLsbD_setLow _ (by omega), Reg.getLsbD_setHigh _ (by omega)]
  by_cases h8 : i < 8
  · simp [h8, show i < 16 by omega]
  by_cases h16 : i < 16
  · simp [h8, h16]
  by_cases h24 : i < 24
  · simp [h8, h16, h24, hi, show i - 16 < 8 by omega]
  · simp [h8, h16, h24, hi, show ¬ i - 16 < 8 by omega, show i - 16 < 16 by omega,
      show 8 ≤ i - 16 by omega, Nat.sub_sub]

/-- The high half of byte 6 survives a new limit. -/
theorem attributes_storeLimit (h : limit < 0x100000) :
    (d.storeLimit limit).attributes = d.attributes := by
  apply BitVec.eq_of_getLsbD_eq
  intro i hi
  rw [getLsbD_attributes, getLsbD_attributes]
  by_cases h8 : i < 8
  · rw [if_pos h8, if_pos h8]
    rfl
  · rw [if_neg h8, if_neg h8, b6_storeLimit h _ (by omega), if_neg (by omega)]

theorem small_pages : (limit - 1) >>> 12 < 0x100000 := by
  show ((limit - 1) >>> 12).toNat < 0x100000
  rw [BitVec.toNat_ushiftRight, Nat.shiftRight_eq_div_pow]
  omega

/-- `set_limit` assigns the limit, in pages. -/
theorem fields_setLimit :
    (d.setLimit limit).fields = { d.fields with limit := ((limit - 1) >>> 12).setWidth 20 } := by
  refine Fields.ext rfl ?_ (attributes_storeLimit small_pages)
  have hraw := rawLimit_storeLimit (d := d) (@small_pages limit)
  have hwidth := congrArg (BitVec.setWidth 20) hraw
  rwa [BitVec.setWidth_setWidth_of_le _ (by decide), BitVec.setWidth_eq] at hwidth

/-- `get_limit` reads it as the number of bytes; of all 2^32 it can only say 0. -/
theorem getLimit_setLimit (hd : d.granular = true) (hpage : limit.toNat % 4096 = 0) :
    (d.setLimit limit).getLimit = limit := by
  apply BitVec.eq_of_toNat_eq
  have hbytes : (d.setLimit limit).bytes = _ := bytes_setLimit hd
  rw [BitVec.toNat_sub] at hbytes
  rw [getLimit, BitVec.toNat_add]
  show (d.setLimit limit).bytes % 2 ^ 32 = limit.toNat
  rw [hbytes]
  show ((2 ^ 32 - 1 + limit.toNat) % 2 ^ 32 / 4096 + 1) * 4096 % 2 ^ 32 = limit.toNat
  omega

/-- Assignments to different fields commute. -/
theorem setBase_setLimit : (d.setLimit limit).setBase base = (d.setBase base).setLimit limit := by
  apply fields_injective
  rw [fields_setBase, fields_setLimit, fields_setLimit, fields_setBase]

theorem setBase_setBase (base' : BitVec 32) : (d.setBase base').setBase base = d.setBase base := by
  apply fields_injective
  rw [fields_setBase, fields_setBase, fields_setBase]

theorem setLimit_setLimit (limit' : BitVec 32) :
    (d.setLimit limit').setLimit limit = d.setLimit limit := by
  apply fields_injective
  rw [fields_setLimit, fields_setLimit, fields_setLimit]

/-- Bases and limits are read as they were written, each write leaves the other field and the attributes
alone, and of several writes to a field the last counts. -/
theorem segment_encoding (d : Descriptor) (base base' : BitVec 32) (edx : Reg) (limit : Nat)
    (limit' : BitVec 32) (hpage : 4096 ∣ limit) :
    (d.setBase base).getBase edx = base ∧
    (d.granular = true → ((d.setLimit (.ofNat 32 limit)).getLimit).toNat = limit % 2 ^ 32) ∧
    ((d.setBase base).rawLimit = d.rawLimit ∧ (d.setBase base).getLimit = d.getLimit ∧
      (d.setBase base).attributes = d.attributes) ∧
    ((d.setLimit (.ofNat 32 limit)).rawBase = d.rawBase ∧
      (d.setLimit (.ofNat 32 limit)).getBase edx = d.getBase edx ∧
      (d.setLimit (.ofNat 32 limit)).attributes = d.attributes) ∧
    (d.setLimit (.ofNat 32 limit)).setBase base = (d.setBase base).setLimit (.ofNat 32 limit) ∧
    (d.setBase base').setBase base = d.setBase base ∧
    (d.setLimit limit').setLimit (.ofNat 32 limit) = d.setLimit (.ofNat 32 limit) := by
  have hbase := @fields_setBase d base
  have hlimit := @fields_setLimit d (.ofNat 32 limit)
  have hmod : (BitVec.ofNat 32 limit).toNat % 4096 = 0 := by
    rw [BitVec.toNat_ofNat]
    omega
  refine ⟨?_, fun hd => ?_, ⟨rfl, rfl, rfl⟩, ⟨rfl, ?_, ?_⟩, setBase_setLimit, setBase_setBase base',
    setLimit_setLimit limit'⟩
  · rw [getBase_eq, hbase]
  · rw [getLimit_setLimit hd hmod, BitVec.toNat_ofNat]
  · rw [getBase_eq, getBase_eq, hlimit]
  · exact congrArg Fields.attributes hlimit

theorem segment_encoding_init : (initTask.data.1.setBase 0x8000000).getBase 0 = 0x8000000 ∧
    (initTask.data.1.setLimit (.ofNat 32 0x4000000)).getLimit.toNat = 0x4000000 % 2 ^ 32 :=
  have h := segment_encoding initTask.data.1 0x8000000 0 0 0x4000000 0 ⟨0x4000, rfl⟩
  ⟨h.1, h.2.1 rfl⟩

end Descriptor

end Linux011.Exec
