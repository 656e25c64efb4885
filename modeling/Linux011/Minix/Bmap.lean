import Linux011.Minix.Disk

/-!
# The block map of a file (`_bmap`)

The zones of an inode are seven blocks of the file, an index block and a block of index blocks. The
inodes of a device with all their index blocks form a forest of pointers; the blocks of a file are
the leaves of it.

`_bmap` has one pattern three times: if the pointer is empty and the block is to be created, it gets
a new block. In an inode the pattern is `fillZone`, in an index block `fillEntry`.
-/

namespace Linux011.Minix

open Fs (Id Byte Block)
open Inode (Dev)
open Lib (Path Forest)

/-! ## `_bmap` -/

/-- `if (create && !inode->i_zone[k]) inode->i_zone[k] = new_block(inode->i_dev)`; the zone. -/
def fillZone (d : Disk) (i : Id) (k : Nat) (create : Bool) : Option (Block × Disk) :=
  if create ∧ (d.inode i).zone k = 0 then
    (newBlock d i.dev).map fun (b, d) => (b, d.setZone i k b)
  else some ((d.inode i).zone k, d)

/-- The index block is read, and its pointer `k` is filled in the same way; the pointer. -/
def fillEntry (d : Disk) (dev : Dev) (block : Block) (k : Nat) (create : Bool) :
    Option (Block × Disk) :=
  let d := d.bread dev block
  let i := pointer (d.block dev block) k
  if create ∧ i = 0 then
    (newBlock d dev).map fun (i, d) =>
      (i, (if i ≠ 0 then d.setEntry dev block k i else d).brelse dev block)
  else some (i, d.brelse dev block)

/-- `_bmap`; `none` is a panic. -/
def bmap (d : Disk) (i : Id) (blockSeq : Nat) (create : Bool) : Option (Block × Disk) :=
  if 7 + 512 + 512 * 512 ≤ blockSeq then none
  else if blockSeq < 7 then fillZone d i blockSeq create
  else
    let blockSeq := blockSeq - 7
    if blockSeq < 512 then
      (fillZone d i 7 create).bind fun (ind, d) =>
        if ind = 0 then some (0, d) else fillEntry d i.dev ind blockSeq create
    else
      let blockSeq := blockSeq - 512
      (fillZone d i 8 create).bind fun (dind, d) =>
        if dind = 0 then some (0, d)
        else
          (fillEntry d i.dev dind (blockSeq >>> 9) create).bind fun (ind, d) =>
            if ind = 0 then some (0, d) else fillEntry d i.dev ind (blockSeq &&& 511) create

def getDiskBlock (d : Disk) (i : Id) (blockSeq : Nat) : Option (Block × Disk) :=
  bmap d i blockSeq false

def createDiskBlock (d : Disk) (i : Id) (blockSeq : Nat) : Option (Block × Disk) :=
  bmap d i blockSeq true

/-! ## The forest of a device -/

/-- The pointers of a device: the zones of its files and directories, and their index blocks. -/
def Disk.forest (d : Disk) (dev : Dev) : Forest Inode.Num Nat Block where
  root n k := if (d.inode ⟨dev, n⟩).isFile then (d.inode ⟨dev, n⟩).zone k else 0
  child b k := pointer (d.block dev b) k

/-- The zones of an inode, the pointers of the index block in zone 7, those of the block in zone 8,
and those of the index blocks there. -/
def IsZone : Path Nat → Prop
  | .root k => k < 9
  | .step (.root k) l => (k = 7 ∨ k = 8) ∧ l < 512
  | .step (.step (.root k) l) m => k = 8 ∧ l < 512 ∧ m < 512
  | _ => False

/-- The pointers to blocks of the file itself. -/
def IsData : Path Nat → Prop
  | .root k => k < 7
  | .step (.root k) l => k = 7 ∧ l < 512
  | .step (.step (.root k) l) m => k = 8 ∧ l < 512 ∧ m < 512
  | _ => False

/-- Where block `blockSeq` of a file is. -/
def slot (blockSeq : Nat) : Path Nat :=
  if blockSeq < 7 then .root blockSeq
  else if blockSeq - 7 < 512 then .step (.root 7) (blockSeq - 7)
  else .step (.step (.root 8) ((blockSeq - 519) / 512)) ((blockSeq - 519) % 512)

theorem isZone_shape : Lib.Shape IsZone := by
  intro p k h
  match p, h with
  | .root l, ⟨hl, _⟩ => exact (by rcases hl with rfl | rfl <;> omega : l < 9)
  | .step (.root l) m, ⟨hl, hm, _⟩ => exact ⟨Or.inr hl, hm⟩

theorem IsData.isZone {p : Path Nat} (h : IsData p) : IsZone p := by
  match p, h with
  | .root k, h => exact Nat.lt_trans (show k < 7 from h) (by decide)
  | .step (.root k) l, ⟨hk, hl⟩ => exact ⟨Or.inl hk, hl⟩
  | .step (.step (.root k) l) m, h => exact h

/-- A block of the file has no pointers. -/
theorem IsData.not_step {p : Path Nat} {k : Nat} (h : IsData p) : ¬ IsZone (.step p k) := by
  intro hz
  match p, h, hz with
  | .root l, h, ⟨hl, _⟩ =>
    have : l < 7 := h
    omega
  | .step (.root l) m, ⟨h, _⟩, ⟨hl, _⟩ => omega

theorem slot_isData {n : Nat} (h : n < 7 + 512 + 512 * 512) : IsData (slot n) := by
  unfold slot
  split
  · assumption
  · split
    · next hn => exact ⟨rfl, hn⟩
    · exact ⟨rfl, by omega, Nat.mod_lt _ (by decide)⟩

/-- The block of the file that a data pointer is for. -/
def slotSeq : Path Nat → Nat
  | .root k => k
  | .step (.root _) l => 7 + l
  | .step (.step _ l) m => 519 + (512 * l + m)

theorem slotSeq_slot (n : Nat) : slotSeq (slot n) = n := by
  unfold slot
  split
  · rfl
  · split
    · exact (by omega : 7 + (n - 7) = n)
    · exact (by omega : 519 + (512 * ((n - 519) / 512) + (n - 519) % 512) = n)

theorem slot_inj {m n : Nat} (h : slot m = slot n) : m = n := by
  rw [← slotSeq_slot m, h, slotSeq_slot]

/-- `b` is in the data area, and its bit is set. -/
def Disk.Used (d : Disk) (dev : Dev) (sb : SuperBlock) (b : Block) : Prop :=
  sb.firstdatazone ≤ b.toNat ∧ b.toNat < sb.nzones ∧
    d.zmap dev (b.toNat - (sb.firstdatazone - 1)) = true

/-- `b` is in the data area, and its bit is clear. -/
structure Disk.Fresh (d : Disk) (dev : Dev) (sb : SuperBlock) (b : Block) : Prop where
  first : sb.firstdatazone ≤ b.toNat
  last : b.toNat < sb.nzones
  clear : d.zmap dev (b.toNat - (sb.firstdatazone - 1)) = false

/-- What the zone map of a device says is so: block 0 and the blocks past the end cannot be had, and
a block of the data area has its bit set if and only if a pointer leads to it, and then one does. -/
structure Disk.Sound (d : Disk) : Prop where
  layout : ∀ {dev sb}, d.super dev = some sb → 1 ≤ sb.firstdatazone ∧ sb.nzones ≤ 2 ^ 16
  reserved : ∀ {dev sb}, d.super dev = some sb → ∀ j < mapBits,
    j = 0 ∨ sb.nzones ≤ j + sb.firstdatazone - 1 → d.zmap dev j = true
  zones : ∀ {dev sb}, d.super dev = some sb → (d.forest dev).Separate IsZone (d.Used dev sb)

variable {d d' : Disk} {dev : Dev} {sb : SuperBlock} {i : Id} {b v : Block} {k n : Nat}
  {p q : Path Nat}

theorem Disk.Fresh.not_used (h : d.Fresh dev sb v) : ¬ d.Used dev sb v := fun hu => by
  have := hu.2.2
  rw [h.clear] at this
  cases this

theorem Disk.Fresh.ne_zero (S : d.Sound) (hsb : d.super dev = some sb) (h : d.Fresh dev sb v) :
    v ≠ 0 := by
  rintro rfl
  have hfirst := (S.layout hsb).1
  have := h.first
  rw [show (0 : Block).toNat = 0 from rfl] at this
  omega

/-- The block of a file at a data pointer is no index block. -/
theorem Disk.Sound.ref_ne (S : d.Sound) (hsb : d.super dev = some sb) {m n : Inode.Num}
    (hp : IsData p) (hq : IsZone (.step q k)) (h0 : (d.forest dev).ref m p ≠ 0) :
    (d.forest dev).ref m p ≠ (d.forest dev).ref n q := by
  intro h
  obtain ⟨-, rfl⟩ := (S.zones hsb).inj hp.isZone (isZone_shape q k hq) h0 h
  exact hp.not_step hq

/-! ## Taking a new block -/

/-- The block's bit is set and the block is cleared. -/
def Disk.alloc (d : Disk) (dev : Dev) (sb : SuperBlock) (v : Block) : Disk :=
  (d.setZmap dev (v.toNat - (sb.firstdatazone - 1)) true).setBlock dev v fun _ => 0

/-- The first part of `new_block` finds a free block of the data area, or there is none. -/
theorem takeBit_spec (hsb : d.super dev = some sb)
    (hlayout : 1 ≤ sb.firstdatazone ∧ sb.nzones ≤ 2 ^ 16)
    (hreserved : ∀ j < mapBits, j = 0 ∨ sb.nzones ≤ j + sb.firstdatazone - 1 → d.zmap dev j = true) :
    takeBit d dev = some (none, d) ∨ ∃ v, d.Fresh dev sb v ∧
      takeBit d dev = some (some v, d.setZmap dev (v.toNat - (sb.firstdatazone - 1)) true) := by
  obtain ⟨hfirst, hn⟩ := hlayout
  unfold takeBit
  rw [hsb]
  dsimp only
  cases hj : firstZero (d.zmap dev) mapBits 0 with
  | none => exact Or.inl rfl
  | some j =>
    obtain ⟨-, hlt, hclear⟩ := firstZero_some hj
    have hres : ¬ (j = 0 ∨ sb.nzones ≤ j + sb.firstdatazone - 1) := fun h => by
      have := hreserved j (by omega) h
      rw [hclear] at this
      cases this
    have hnat : (BitVec.ofNat 16 (j + sb.firstdatazone - 1)).toNat = j + sb.firstdatazone - 1 := by
      rw [BitVec.toNat_ofNat]
      exact Nat.mod_eq_of_lt (by omega)
    have hbit : (BitVec.ofNat 16 (j + sb.firstdatazone - 1)).toNat - (sb.firstdatazone - 1) = j := by
      rw [hnat]
      omega
    refine Or.inr ⟨BitVec.ofNat 16 (j + sb.firstdatazone - 1), ⟨?_, ?_, ?_⟩, ?_⟩
    · rw [hnat]
      omega
    · rw [hnat]
      omega
    · rw [hbit]
      exact hclear
    · dsimp only
      rw [if_neg fun h => hres (Or.inr h), hbit]

/-- `new_block` finds a free block of the data area, or there is none. -/
theorem newBlock_spec (S : d.Sound) (hsb : d.super dev = some sb) :
    newBlock d dev = some (0, d) ∨ ∃ v, d.Fresh dev sb v ∧
      (d.bcount dev v = 0 → newBlock d dev = some (v, d.alloc dev sb v)) := by
  rw [newBlock_eq]
  rcases takeBit_spec hsb (S.layout hsb) (S.reserved hsb) with h | ⟨v, hv, h⟩
  · exact Or.inl (by rw [h, Option.bind_some])
  · refine Or.inr ⟨v, hv, fun hcount => ?_⟩
    rw [h, Option.bind_some]
    dsimp only
    have hcount' : (d.setZmap dev (v.toNat - (sb.firstdatazone - 1)) true).bcount dev v = 0 := hcount
    rw [useBlock, if_neg fun h => h hcount']
    rfl

/-- After its bit has been set the block is allocated, and no other. -/
theorem Disk.used_setZmap (hfirst : 1 ≤ sb.firstdatazone) (hv : d.Fresh dev sb v) :
    (d.setZmap dev (v.toNat - (sb.firstdatazone - 1)) true).Used dev sb =
      fun a => a = v ∨ d.Used dev sb a := by
  funext a
  refine propext ?_
  have hzmap : ∀ j, (d.setZmap dev (v.toNat - (sb.firstdatazone - 1)) true).zmap dev j =
      if j = v.toNat - (sb.firstdatazone - 1) then true else d.zmap dev j := fun j =>
    if_congr (and_iff_right rfl) rfl rfl
  unfold Disk.Used
  rw [hzmap]
  have h1 := hv.first
  have h2 := hv.last
  constructor
  · rintro ⟨ha, hb, hbit⟩
    split at hbit
    · exact Or.inl (BitVec.eq_of_toNat_eq (by omega))
    · exact Or.inr ⟨ha, hb, hbit⟩
  · rintro (rfl | ⟨ha, hb, hbit⟩)
    · exact ⟨h1, h2, if_pos rfl⟩
    · refine ⟨ha, hb, ?_⟩
      split
      · rfl
      · exact hbit

theorem Disk.used_alloc (S : d.Sound) (hsb : d.super dev = some sb) (hv : d.Fresh dev sb v) :
    (d.alloc dev sb v).Used dev sb = fun a => a = v ∨ d.Used dev sb a :=
  d.used_setZmap (S.layout hsb).1 hv

end Linux011.Minix
