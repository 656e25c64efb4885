import Linux011.Lib.Watch
import Linux011.Minix.Disk

/-!
# One file-system call at a time

The inode table, the super blocks and the buffer cache, as one task uses them while no other task
runs. A buffer is the block that it holds: while somebody refers to it, it holds no other. What
matters of it is `b_count`, and its contents, which are those of the disk as seen through the cache.
Every block can be read.

How the disk is laid out is a parameter: `Contents` has blocks of bytes, and the places of the
`struct d_inode`. On a disk (`Bytes`) the inodes are parts of blocks, whatever else uses the block; on a
disk whose files keep to their area (`Tables`) they are apart from all other blocks.

What depends on the rest of the machine is in the state as a sequence: whether `getblk` comes upon
dirty buffers only, and has to write back first, and what time it is.
-/

namespace Linux011.FileSys

open Minix (pointer setPointer)

abbrev Byte := BitVec 8

abbrev Dev := BitVec 16

abbrev Block := BitVec 32

/-- An entry of `i_zone` or of an index block. -/
abbrev Zone := BitVec 16

abbrev Num := BitVec 16

/-- A buffer in use: `b_dev` and `b_blocknr`. -/
abbrev Bh := Dev × Block

/-! ## Inodes -/

/-- `struct d_inode`, the part of an inode that is on the disk. -/
structure DInode where
  mode : BitVec 16
  uid : BitVec 16
  size : BitVec 32
  mtime : BitVec 32
  gid : BitVec 8
  nlinks : BitVec 8
  zone : Nat → Zone

/-- `struct m_inode`. -/
structure MInode where
  disk : DInode
  dev : Dev
  num : Num
  count : Nat
  dirt : Bool
  pipe : Bool
  mount : Bool

/-- `memset(inode,0,sizeof(*inode))`. -/
def MInode.zero : MInode := ⟨⟨0, 0, 0, 0, 0, 0, fun _ => 0⟩, 0, 0, 0, false, false, false⟩

/-- A test of the file type. -/
def DInode.isFormat (d : DInode) (format : BitVec 16) : Bool := d.mode &&& 0o170000 == format

/-- `S_ISREG`. -/
def DInode.isReg (d : DInode) : Bool := d.isFormat 0o100000

/-- `S_ISDIR`. -/
def DInode.isDir (d : DInode) : Bool := d.isFormat 0o040000

/-- `S_ISBLK`. -/
def DInode.isBlk (d : DInode) : Bool := d.isFormat 0o060000

/-- `S_ISCHR`. -/
def DInode.isChr (d : DInode) : Bool := d.isFormat 0o020000

/-! ## The disks -/

/-- Blocks of 1024 bytes, each of which may have 32 inodes. -/
class Contents (C : Type) where
  byte : C → Dev → Block → Nat → Byte
  setBytes : C → Dev → Block → (Nat → Byte) → C
  inode : C → Dev → Block → Nat → DInode
  setInode : C → Dev → Block → Nat → DInode → C

/-- The bytes at `n` and behind it as a number. -/
def word16 (data : Nat → Byte) (n : Nat) : BitVec 16 := data (n + 1) ++ data n

def word32 (data : Nat → Byte) (n : Nat) : BitVec 32 := word16 data (n + 2) ++ word16 data n

/-- The bits of a word are those of its bytes. -/
theorem getLsbD_word16 (data : Nat → Byte) (n r : Nat) (hr : r < 16) :
    (word16 data n).getLsbD r = (data (n + r / 8)).getLsbD (r % 8) := by
  unfold word16
  rw [BitVec.getLsbD_append]
  by_cases h : r < 8
  · simp [h, Nat.div_eq_of_lt h, Nat.mod_eq_of_lt h]
  · have hdiv : r / 8 = 1 := by omega
    have hmod : r % 8 = r - 8 := by omega
    simp [h, hdiv, hmod]

theorem getLsbD_word32 (data : Nat → Byte) (n r : Nat) (hr : r < 32) :
    (word32 data n).getLsbD r = (data (n + r / 8)).getLsbD (r % 8) := by
  unfold word32
  rw [BitVec.getLsbD_append]
  by_cases h : r < 16
  · rw [if_pos h, getLsbD_word16 _ _ _ h]
  · rw [if_neg h, getLsbD_word16 _ _ _ (by omega)]
    have hdiv : n + 2 + (r - 16) / 8 = n + r / 8 := by omega
    have hmod : (r - 16) % 8 = r % 8 := by omega
    rw [hdiv, hmod]

/-- The `struct d_inode` in the 32 bytes from `n` on. -/
def readDInode (data : Nat → Byte) (n : Nat) : DInode where
  mode := word16 data n
  uid := word16 data (n + 2)
  size := word32 data (n + 4)
  mtime := word32 data (n + 8)
  gid := data (n + 12)
  nlinks := data (n + 13)
  zone k := word16 data (n + 14 + 2 * k)

/-- Byte `k` of a number. -/
def byteOf {w : Nat} (x : BitVec w) (k : Nat) : Byte := (x >>> (8 * k)).setWidth 8

/-- The 32 bytes of a `struct d_inode`. -/
def DInode.byte (d : DInode) (k : Nat) : Byte :=
  if k < 2 then byteOf d.mode k
  else if k < 4 then byteOf d.uid (k - 2)
  else if k < 8 then byteOf d.size (k - 4)
  else if k < 12 then byteOf d.mtime (k - 8)
  else if k = 12 then d.gid
  else if k = 13 then d.nlinks
  else byteOf (d.zone ((k - 14) / 2)) ((k - 14) % 2)

/-- A disk: nothing but bytes. -/
structure Bytes where
  byte : Dev → Block → Nat → Byte

def Bytes.setBytes (c : Bytes) (dev : Dev) (block : Block) (data : Nat → Byte) : Bytes :=
  ⟨fun d b n => if d = dev ∧ b = block then data n else c.byte d b n⟩

instance : Contents Bytes where
  byte := Bytes.byte
  setBytes := Bytes.setBytes
  inode c dev block k := readDInode (c.byte dev block) (32 * k)
  setInode c dev block k d := c.setBytes dev block fun n =>
    if 32 * k ≤ n ∧ n < 32 * k + 32 then d.byte (n - 32 * k) else c.byte dev block n

/-- A disk whose inode table no file writes to. -/
structure Tables where
  byte : Dev → Block → Nat → Byte
  inode : Dev → Block → Nat → DInode

instance : Contents Tables where
  byte := Tables.byte
  setBytes c dev block data :=
    { c with byte := fun d b n => if d = dev ∧ b = block then data n else c.byte d b n }
  inode := Tables.inode
  setInode c dev block k h :=
    { c with inode := fun d b n => if d = dev ∧ b = block ∧ n = k then h else c.inode d b n }

/-! ## The state -/

/-- `struct super_block`; a bitmap is the block that its buffer holds, or nothing. -/
structure SuperBlock where
  dev : Dev
  ninodes : BitVec 16
  nzones : BitVec 16
  imapBlocks : BitVec 16
  zmapBlocks : BitVec 16
  firstdatazone : BitVec 16
  imap : Nat → Option Block
  zmap : Nat → Option Block
  inodeMount : Option Nat

/-- The fields of `struct task_struct` that the file system uses; inodes are entries of the table. -/
structure Task where
  euid : BitVec 16
  egid : BitVec 16
  umask : BitVec 16
  root : Option Nat
  pwd : Option Nat
  executable : Option Nat
  leader : Bool
  tty : Int

structure State (C : Type) where
  contents : C
  /-- `b_count`, 0 for a block that is in no buffer. -/
  bcount : Bh → Nat
  inode : Nat → MInode
  lastInode : Nat
  super : Nat → SuperBlock
  task : Task
  time : Nat
  /-- Whether `getblk` finds only dirty buffers. -/
  crowded : Nat → Bool
  /-- `CURRENT_TIME`. -/
  clock : Nat → BitVec 32

/-- Why a call does not return: a panic, a loop without end, or `brelse` of a free buffer. -/
inductive Stop
  | panic
  | hang
  | freeBuffer
  deriving DecidableEq

/-- What a watch may hear. -/
inductive Alarm
  /-- `free_block` finds the buffer of the block in use. -/
  | inUse
  /-- `is_empty_dir` finds a directory without "." and "..". -/
  | malformed
  /-- `is_empty_dir` finds a hole in the directory. -/
  | hole
  /-- `i_mtime` changes, and `i_dirt` is not set. -/
  | unmarked
  /-- `new_inode` takes an inode that is in the table. -/
  | taken
  deriving DecidableEq

abbrev Call (C : Type) := Lib.Prog (State C) Stop Alarm

/-! ## Access -/

section

variable {C : Type}

def getInode (i : Nat) : Call C MInode := .read fun s => s.inode i

def State.setInode (s : State C) (i : Nat) (h : MInode) : State C :=
  { s with inode := Function.update s.inode i h }

def editInode (i : Nat) (f : MInode → MInode) : Call C Unit :=
  .modify fun s => s.setInode i (f (s.inode i))

def MInode.editDisk (f : DInode → DInode) (h : MInode) : MInode := { h with disk := f h.disk }

/-- A field of the inode is assigned, and `i_dirt` set. -/
def MInode.mark (f : DInode → DInode) (h : MInode) : MInode := { h with disk := f h.disk, dirt := true }

/-- `i_zone[k] = b`. -/
def DInode.setZone (k : Nat) (b : Zone) (d : DInode) : DInode :=
  { d with zone := Function.update d.zone k b }

def getTask : Call C Task := .read State.task

def editTask (f : Task → Task) : Call C Unit := .modify fun s => { s with task := f s.task }

/-- `current->euid == 0`. -/
def suser : Call C Bool := do
  let t ← getTask
  return t.euid == 0

/-- `CURRENT_TIME`. -/
def currentTime : Call C (BitVec 32) := do
  let t ← Lib.Prog.read fun s => s.clock s.time
  Lib.Prog.modify fun s => { s with time := s.time + 1 }
  return t

/-- `check_in_superb`. -/
def checkInSuperb (dev : Dev) : Call C (Option SuperBlock) := .read fun s =>
  if dev = 0 then none else ((List.range 8).find? fun k => (s.super k).dev == dev).map s.super

/-- The super block of a device, without which the caller panics. -/
def superOf (dev : Dev) : Call C SuperBlock := do
  match ← checkInSuperb dev with
  | none => Lib.Prog.stop .panic
  | some sb => return sb

variable [Contents C]

def getBytes (bh : Bh) : Call C (Nat → Byte) := .read fun s => Contents.byte s.contents bh.1 bh.2

/-- The block in the buffer gets these bytes, and `b_dirt` is set. -/
def setBytes (bh : Bh) (data : Nat → Byte) : Call C Unit :=
  .modify fun s => { s with contents := Contents.setBytes s.contents bh.1 bh.2 data }

end

/-! ## Buffers (`buffer.c`), and the inodes that are written back (`inode.c`) -/

section

variable {C : Type}

/-- One more reference, and one less. -/
def incCount (n : Bh → Nat) (bh : Bh) : Bh → Nat := Function.update n bh (n bh + 1)

def decCount (n : Bh → Nat) (bh : Bh) : Bh → Nat := Function.update n bh (n bh - 1)

/-- `b_count++`. -/
def hold (bh : Bh) : Call C Unit := .modify fun s => { s with bcount := incCount s.bcount bh }

/-- `brelse`, of a buffer. -/
def brelse (bh : Bh) : Call C Unit := do
  let n ← Lib.Prog.read fun s => s.bcount bh
  if n = 0 then Lib.Prog.stop .freeBuffer
  else Lib.Prog.modify fun s => { s with bcount := decCount s.bcount bh }

/-- `brelse`, which does nothing with a null pointer. -/
def brelseOpt : Option Bh → Call C Unit
  | none => pure ()
  | some bh => brelse bh

/-- The block of an inode, and its place there; `INODES_PER_BLOCK` is unsigned, and so is the
division. -/
def SuperBlock.inodeBlock (sb : SuperBlock) (num : Num) : Block :=
  2 + sb.imapBlocks.zeroExtend 32 + sb.zmapBlocks.zeroExtend 32 + (num.zeroExtend 32 - 1) / 32

def inodePlace (num : Num) : Nat := ((num.zeroExtend 32 - 1 : Block) % 32).toNat

variable [Contents C]

/-- The inode goes into its block. -/
def State.storeInode (s : State C) (i : Nat) (bh : Bh) : State C :=
  let h := s.inode i
  { s.setInode i { h with dirt := false } with
    contents := Contents.setInode s.contents bh.1 bh.2 (inodePlace h.num) h.disk }

/-- `write_inode`. The inode is locked meanwhile, so `getblk` has no need to write back here: it would
wait for this inode for ever. -/
def writeInode (i : Nat) : Call C Unit := do
  let h ← getInode i
  if h.dirt = false ∨ h.dev = 0 then pure ()
  else
    let sb ← superOf h.dev
    let bh := (h.dev, sb.inodeBlock h.num)
    hold bh
    Lib.Prog.modify fun s => s.storeInode i bh
    brelse bh

/-- `sync_inodes`. -/
def syncInodes : Call C Unit :=
  .forEach (fun i => do
    let h ← getInode i
    Lib.Prog.when (h.dirt = true ∧ h.pipe = false) (writeInode i)) (List.range 32)

/-- `getblk`. When it has to, it calls `sync_dev`, which writes back all inodes, and buffers. -/
def getblk (dev : Dev) (block : Block) : Call C Bh := do
  let full ← Lib.Prog.read fun s => s.crowded s.time
  Lib.Prog.modify fun s => { s with time := s.time + 1 }
  Lib.Prog.when (full = true) syncInodes
  hold (dev, block)
  return (dev, block)

/-- `bread`. -/
def bread (dev : Dev) (block : Block) : Call C Bh := getblk dev block

/-- `breada` of three blocks; those that are read ahead are not kept. -/
def breada (dev : Dev) (block : Block) : Call C Bh := do
  let bh ← getblk dev block
  Lib.Prog.forEach (fun k => do
    let tmp ← getblk dev (block + k)
    brelse tmp) [1, 2]
  return bh

end

end Linux011.FileSys
