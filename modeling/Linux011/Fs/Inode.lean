import Linux011.Inode.Table
import Mathlib.Data.DFinsupp.Defs

/-!
# Inodes and directories

A file system as one system call at a time sees it: the inodes, wherever they are kept, the blocks
of the directories, and the two counters that a call changes and gives back, `i_count` and
`b_count`. An inode is named by its device and its number; the table has one entry for it
(`Linux011.Inode.inode_cache_unique`), so comparing two pointers to entries is comparing names.

Every block can be read. The table has 32 entries, and whoever asks for an inode first takes a free one,
whether it is needed or not; without one the kernel panics.
-/

namespace Linux011.Fs

open Inode (Dev)

abbrev Byte := BitVec 8

/-- A block number on a device; 0 means that there is none. -/
abbrev Block := BitVec 16

/-- The name of an inode: `i_dev` and `i_num`. -/
structure Id where
  dev : Dev
  num : Inode.Num
  deriving DecidableEq

/-- `struct m_inode`, without what no function here reads. -/
structure MInode where
  mode : BitVec 16
  uid : BitVec 16
  gid : BitVec 8
  nlinks : BitVec 8
  size : Nat
  /-- The block of the disk with each block of the file (`get_diskBlock`); `i_zone[0]` is the
  first one. -/
  zone : Nat → Block
  mount : Bool

/-- The inode after `memset`. -/
def MInode.zero : MInode := ⟨0, 0, 0, 0, 0, fun _ => 0, false⟩

/-- `struct dir_entry`; `name` has 14 bytes. -/
structure DirEntry where
  inodenr : Inode.Num
  name : Nat → Byte

/-- `struct super_block`: its device and the inode it is mounted on. -/
structure SuperBlock where
  dev : Dev
  inodeMount : Option Id

structure State where
  inode : Id → MInode
  /-- `i_count`, 0 for an inode that is not in the table. -/
  count : Π₀ _ : Id, Nat
  superBlock : Nat → SuperBlock
  /-- The blocks of the disk, read as directory entries. -/
  dirBlock : Dev → Block → Nat → DirEntry
  /-- `b_count`. -/
  bcount : Dev → Block → Nat

/-- `struct task_struct`, as far as names and permissions go. -/
structure Task where
  euid : BitVec 16
  egid : BitVec 16
  root : Id
  pwd : Id

/-- `S_ISDIR`. -/
def MInode.isDir (h : MInode) : Bool := h.mode &&& 0o170000#16 = 0o040000#16

/-- `S_ISREG`. -/
def MInode.isReg (h : MInode) : Bool := h.mode &&& 0o170000#16 = 0o100000#16

/-- `MAY_EXEC`, `MAY_WRITE` and `MAY_READ`, as `int`. -/
def mayExec : BitVec 32 := 1
def mayWrite : BitVec 32 := 2
def mayRead : BitVec 32 := 4

/-- `permission`: the bits of the owner, of the group or of the others; the superuser may do
everything, except with a deleted file. -/
def permission (t : Task) (i : Id) (h : MInode) (mask : BitVec 32) : Bool :=
  if i.dev ≠ 0 ∧ h.nlinks = 0 then false
  else
    let mode : BitVec 32 := h.mode.setWidth 32
    let mode :=
      if t.euid = h.uid then mode >>> 6
      else if t.egid = h.gid.setWidth 16 then mode >>> 3
      else mode
    mode &&& mask &&& 0o7 = mask ∨ t.euid = 0

/-! ## Counters -/

/-- `i_count++`. -/
def State.hold (fs : State) (i : Id) : State :=
  { fs with count := fs.count.update i (fs.count i + 1) }

/-- `i_count--`. -/
def State.drop (fs : State) (i : Id) : State :=
  { fs with count := fs.count.update i (fs.count i - 1) }

/-- `truncate` and `free_inode`: the inode is cleared, in the table and on the disk. -/
def State.destroy (fs : State) (i : Id) : State :=
  { fs with inode := Function.update fs.inode i .zero, count := fs.count.update i 0 }

/-- `iput` of an inode that is no pipe: the last reference to an inode without links destroys it. -/
def State.iput (fs : State) (i : Id) : State :=
  if i.dev = 0 ∨ 1 < fs.count i then fs.drop i
  else if (fs.inode i).nlinks = 0 then fs.destroy i
  else fs.drop i

/-- `check_in_superb`. -/
def checkInSuperb (fs : State) (dev : Dev) : Option SuperBlock :=
  if dev = 0 then none
  else ((List.range 8).find? fun k => (fs.superBlock k).dev = dev).map fs.superBlock

/-- The super block that is mounted on the inode. -/
def mountedOn (fs : State) (i : Id) : Option Nat :=
  (List.range 8).find? fun k => (fs.superBlock k).inodeMount = some i

/-- `NR_INODE`. -/
def nrInode : Nat := 32

/-- `get_empty_inode` finds an entry of the table. -/
def State.room (fs : State) : Bool := fs.count.support.card < nrInode

/-- The scan of `iget`, with the number of mounts that it may cross: it does not return when mounts lead
in a circle, and panics when the device is 0. -/
def igetLoop : Nat → State → Id → Option (Id × State)
  | 0, _, _ => none
  | n + 1, fs, i =>
    if i.dev = 0 then none
    else
      let fs := fs.hold i
      if (fs.inode i).mount then
        match mountedOn fs i with
        | none => some (i, fs)
        | some k => igetLoop n (fs.iput i) ⟨(fs.superBlock k).dev, 1⟩
      else some (i, fs)

/-- `iget`; it takes an entry before the scan, which it gives back if the inode is there, and panics
without one. -/
def iget (n : Nat) (fs : State) (i : Id) : Option (Id × State) :=
  if fs.room then igetLoop n fs i else none

/-- `bread`: one more user of the buffer. -/
def State.bread (fs : State) (dev : Dev) (block : Block) : State :=
  { fs with bcount := fun d b =>
      if d = dev ∧ b = block then fs.bcount d b + 1 else fs.bcount d b }

/-- `brelse`. -/
def State.brelse (fs : State) (dev : Dev) (block : Block) : State :=
  { fs with bcount := fun d b =>
      if d = dev ∧ b = block then fs.bcount d b - 1 else fs.bcount d b }

end Linux011.Fs
