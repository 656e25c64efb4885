import Linux011.Lib.Forest
import Linux011.Fs.Inode

/-!
# The disk under one system call at a time

The inodes with their nine zones, the contents of the blocks, the zone map and the inode map of each
device. A block is 1024 bytes; an index block is the same block read as 512 pointers. What a block
contains while it is free is not kept: `new_block` clears it before anybody reads it.

Reading a block counts a reference to its buffer, and `free_block` and `new_block` look at that
count, so the buffers in use are part of the state. Every block can be read.
-/

namespace Linux011.Minix

open Fs (Id Byte Block)
open Inode (Dev)

/-- `struct m_inode`, without what no function here reads. -/
structure MInode where
  mode : BitVec 16
  uid : BitVec 16
  gid : BitVec 8
  nlinks : BitVec 8
  size : Nat
  /-- `i_zone[9]`. -/
  zone : Nat → Block
  mount : Bool

/-- The inode after `memset`. -/
def MInode.zero : MInode := ⟨0, 0, 0, 0, 0, fun _ => 0, false⟩

/-- `S_ISDIR`. -/
def MInode.isDir (h : MInode) : Bool := h.mode &&& 0o170000#16 = 0o040000#16

/-- `S_ISREG`. -/
def MInode.isReg (h : MInode) : Bool := h.mode &&& 0o170000#16 = 0o100000#16

/-- The zones of this inode are blocks of the disk. -/
def MInode.isFile (h : MInode) : Bool := h.isReg || h.isDir

/-- The sizes in `struct super_block`. -/
structure SuperBlock where
  firstdatazone : Nat
  nzones : Nat
  ninodes : Nat
  deriving DecidableEq

structure Disk where
  inode : Id → MInode
  /-- `check_in_superb`: the super block of a device that is mounted. -/
  super : Dev → Option SuperBlock
  /-- The bits of the eight blocks `s_zmap`; the bits of a block that is not there are set. -/
  zmap : Dev → Nat → Bool
  /-- The bits of `s_imap`, in the same way. -/
  imap : Dev → Nat → Bool
  block : Dev → Block → Nat → Byte
  /-- `b_count`. -/
  bcount : Dev → Block → Nat

/-! ## Pointers in an index block -/

/-- `((unsigned short *) b_data)[k]`. -/
def pointer (data : Nat → Byte) (k : Nat) : Block := data (2 * k + 1) ++ data (2 * k)

/-- The block after `((unsigned short *) b_data)[k] = b`. -/
def setPointer (data : Nat → Byte) (k : Nat) (b : Block) (n : Nat) : Byte :=
  if n = 2 * k then b.setWidth 8
  else if n = 2 * k + 1 then (b >>> 8).setWidth 8
  else data n

@[simp] theorem pointer_zero (k : Nat) : pointer (fun _ => 0) k = 0 := by
  show (0 : Byte) ++ (0 : Byte) = (0 : Block)
  decide

@[simp] theorem pointer_setPointer (data : Nat → Byte) (k : Nat) (b : Block) :
    pointer (setPointer data k b) k = b := by
  have hodd : ¬ 2 * k + 1 = 2 * k := by omega
  rw [pointer, setPointer, setPointer, if_neg hodd, if_pos rfl, if_pos rfl]
  ext n hn
  simp only [BitVec.getElem_append, BitVec.getElem_setWidth, BitVec.getLsbD_ushiftRight]
  split
  · exact (BitVec.getLsbD_eq_getElem hn)
  · rw [Nat.add_sub_cancel' (by omega)]
    exact (BitVec.getLsbD_eq_getElem hn)

theorem pointer_setPointer_of_ne {data : Nat → Byte} {j k : Nat} {b : Block} (h : j ≠ k) :
    pointer (setPointer data k b) j = pointer data j := by
  have h0 : ¬ 2 * j = 2 * k := by omega
  have h1 : ¬ 2 * j = 2 * k + 1 := by omega
  have h2 : ¬ 2 * j + 1 = 2 * k := by omega
  have h3 : ¬ 2 * j + 1 = 2 * k + 1 := by omega
  simp only [pointer, setPointer, if_neg h0, if_neg h1, if_neg h2, if_neg h3]

/-! ## Updates -/

/-- The buffer of the block gets these contents. -/
def Disk.setBlock (d : Disk) (dev : Dev) (b : Block) (data : Nat → Byte) : Disk :=
  { d with block := fun e c => if e = dev ∧ c = b then data else d.block e c }

def Disk.setZmap (d : Disk) (dev : Dev) (j : Nat) (bit : Bool) : Disk :=
  { d with zmap := fun e k => if e = dev ∧ k = j then bit else d.zmap e k }

def Disk.setImap (d : Disk) (dev : Dev) (j : Nat) (bit : Bool) : Disk :=
  { d with imap := fun e k => if e = dev ∧ k = j then bit else d.imap e k }

def Disk.setInode (d : Disk) (i : Id) (h : MInode) : Disk :=
  { d with inode := Function.update d.inode i h }

@[simp] theorem Disk.setInode_inode (d : Disk) (i : Id) (h : MInode) :
    (d.setInode i h).inode i = h := Function.update_self ..

@[simp] theorem Disk.setInode_setInode (d : Disk) (i : Id) (h h' : MInode) :
    (d.setInode i h).setInode i h' = d.setInode i h' := by
  simp only [Disk.setInode, Function.update_idem]

/-- `i_zone[k] = b`. -/
def Disk.setZone (d : Disk) (i : Id) (k : Nat) (b : Block) : Disk :=
  d.setInode i { d.inode i with zone := Function.update (d.inode i).zone k b }

/-- Pointer `k` of the index block is set. -/
def Disk.setEntry (d : Disk) (dev : Dev) (block : Block) (k : Nat) (b : Block) : Disk :=
  d.setBlock dev block (setPointer (d.block dev block) k b)

/-- `bread`: one more user of the buffer. -/
def Disk.bread (d : Disk) (dev : Dev) (b : Block) : Disk :=
  { d with bcount := fun e c => if e = dev ∧ c = b then d.bcount e c + 1 else d.bcount e c }

/-- `brelse`. -/
def Disk.brelse (d : Disk) (dev : Dev) (b : Block) : Disk :=
  { d with bcount := fun e c => if e = dev ∧ c = b then d.bcount e c - 1 else d.bcount e c }

theorem Disk.brelse_bread (d : Disk) (dev : Dev) (b : Block) :
    (d.bread dev b).brelse dev b = d := by
  have h : ((d.bread dev b).brelse dev b).bcount = d.bcount := by
    funext e c
    simp only [Disk.bread, Disk.brelse]
    by_cases hec : e = dev ∧ c = b
    · rw [if_pos hec, if_pos hec, Nat.add_sub_cancel]
    · rw [if_neg hec, if_neg hec]
  calc (d.bread dev b).brelse dev b
      = { d with bcount := ((d.bread dev b).brelse dev b).bcount } := rfl
    _ = d := by rw [h]

/-! ## The zone map (`fs/bitmap.c`) -/

/-- `find_first_zero` over all blocks of a map, from bit `i` on; `n` bounds the bits. -/
def firstZero (bit : Nat → Bool) : Nat → Nat → Option Nat
  | 0, _ => none
  | n + 1, i => if bit i then firstZero bit n (i + 1) else some i

/-- The bits that the eight blocks of a map have. -/
def mapBits : Nat := 8 * 8192

/-- `new_block`; `none` is a panic. -/
def newBlock (d : Disk) (dev : Dev) : Option (Block × Disk) :=
  match d.super dev with
  | none => none
  | some sb =>
    match firstZero (d.zmap dev) mapBits 0 with
    | none => some (0, d)
    | some j =>
      let d := d.setZmap dev j true
      let n := j + sb.firstdatazone - 1
      if sb.nzones ≤ n then some (0, d)
      else
        let b : Block := BitVec.ofNat 16 n
        if d.bcount dev b ≠ 0 then none
        else some (b, d.setBlock dev b fun _ => 0)

/-- `new_block` up to `getblk`: a bit is set, and the block is known; no block when there is none. -/
def takeBit (d : Disk) (dev : Dev) : Option (Option Block × Disk) :=
  match d.super dev with
  | none => none
  | some sb =>
    match firstZero (d.zmap dev) mapBits 0 with
    | none => some (none, d)
    | some j =>
      let d := d.setZmap dev j true
      let n := j + sb.firstdatazone - 1
      if sb.nzones ≤ n then some (none, d) else some (some (BitVec.ofNat 16 n), d)

/-- `new_block` from `getblk` on; `none` is a panic. -/
def useBlock (d : Disk) (dev : Dev) (b : Block) : Option Disk :=
  if d.bcount dev b ≠ 0 then none else some (d.setBlock dev b fun _ => 0)

theorem newBlock_eq (d : Disk) (dev : Dev) : newBlock d dev =
    (takeBit d dev).bind fun (b, d) =>
      match b with
      | none => some (0, d)
      | some b => (useBlock d dev b).map fun d => (b, d) := by
  unfold newBlock takeBit useBlock
  cases d.super dev with
  | none => rfl
  | some sb =>
    dsimp only
    cases firstZero (d.zmap dev) mapBits 0 with
    | none => rfl
    | some j =>
      dsimp only
      split
      · rfl
      · rw [Option.bind_some]
        dsimp only
        split <;> rfl

/-- `free_block`; `none` is a panic. A block whose buffer is in use is not freed, and the reference
of `get_hash_table` is not given back. -/
def freeBlock (d : Disk) (dev : Dev) (b : Block) : Option Disk :=
  match d.super dev with
  | none => none
  | some sb =>
    if b.toNat < sb.firstdatazone ∨ sb.nzones ≤ b.toNat then none
    else if d.bcount dev b ≠ 0 then some (d.bread dev b)
    else
      let j := b.toNat - (sb.firstdatazone - 1)
      if d.zmap dev j then some (d.setZmap dev j false) else none

theorem firstZero_some {bit : Nat → Bool} {n i j : Nat} (h : firstZero bit n i = some j) :
    i ≤ j ∧ j < i + n ∧ bit j = false := by
  induction n generalizing i with
  | zero => cases h
  | succ n ih =>
    rw [firstZero] at h
    split at h
    · obtain ⟨hle, hlt, hj⟩ := ih h
      exact ⟨by omega, by omega, hj⟩
    · next hi =>
      obtain rfl := Option.some.inj h
      exact ⟨Nat.le_refl _, by omega, Bool.eq_false_of_not_eq_true hi⟩

theorem firstZero_none {bit : Nat → Bool} {n i : Nat} (h : firstZero bit n i = none) :
    ∀ j, i ≤ j → j < i + n → bit j = true := by
  induction n generalizing i with
  | zero => intro j hi hj; omega
  | succ n ih =>
    rw [firstZero] at h
    split at h
    · next hi =>
      intro j hij hj
      by_cases hji : j = i
      · exact hji ▸ hi
      · exact ih h j (by omega) (by omega)
    · cases h

/-- `firstZero` passes over no zero. -/
theorem firstZero_below {bit : Nat → Bool} {n i j : Nat} (h : firstZero bit n i = some j) :
    ∀ k, i ≤ k → k < j → bit k = true := by
  induction n generalizing i with
  | zero => cases h
  | succ n ih =>
    rw [firstZero] at h
    split at h
    · next hi =>
      intro k hik hk
      by_cases hki : k = i
      · exact hki ▸ hi
      · exact ih h k (by omega) hk
    · obtain rfl := Option.some.inj h
      intro k hik hk
      omega

end Linux011.Minix
