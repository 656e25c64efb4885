import Linux011.Fs.Namei
import Linux011.Lib.Slots

/-!
# Open files, tasks and mounted file systems

The tables that system calls on files share: `file_table`, the part of `task_struct` about files, the
super blocks, and below them the inodes with what they contain. A pointer into a table is an index;
a pointer to an inode is its name. Pipes have no device, so a pipe is an inode of device 0.

A call that panics, or does not return, has no result. What the rest of the kernel decides, such as
whether there is memory, is an argument of the call.
-/

namespace Linux011.Files

open Fs (Id Byte Block MInode)
open Inode (Dev)

/-! ## Error numbers (`errno.h`) -/

def eperm : Int := 1
def enoent : Int := 2
def eio : Int := 5
def enoexec : Int := 8
def ebadf : Int := 9
def eagain : Int := 11
def enomem : Int := 12
def eacces : Int := 13
def enotblk : Int := 15
def ebusy : Int := 16
def eexist : Int := 17
def enotdir : Int := 20
def eisdir : Int := 21
def einval : Int := 22
def emfile : Int := 24
def enospc : Int := 28
def espipe : Int := 29

/-! ## Flags (`fcntl.h`) -/

def oAccMode : BitVec 32 := 0o3
def oWrOnly : BitVec 32 := 0o1
def oCreat : BitVec 32 := 0o100
def oExcl : BitVec 32 := 0o200
def oTrunc : BitVec 32 := 0o1000
def oAppend : BitVec 32 := 0o2000
def oNonblock : BitVec 32 := 0o4000

/-! ## The tables -/

/-- The inodes with the bytes of each file. -/
structure Volume where
  fs : Fs.State
  data : Id → Nat → Byte

/-- What `sys_open` has decided about an open file; no field of `struct file` holds it. -/
structure Opened where
  /-- The flags it was called with. -/
  flag : BitVec 32
  /-- It has created the file. -/
  created : Bool
  /-- The mask that `permission` has granted. -/
  passed : Option (BitVec 32)

/-- `struct file`, and the history of the open file. -/
structure File where
  mode : BitVec 16
  flags : BitVec 16
  count : Nat
  inode : Option Id
  pos : Nat
  opened : Option Opened

/-- `struct task_struct`, as far as files go; `close_on_exec` is a set of descriptors. -/
structure Task where
  euid : BitVec 16
  egid : BitVec 16
  umask : BitVec 16
  root : Option Id
  pwd : Option Id
  executable : Option Id
  filp : Fin 20 → Option (Fin 64)
  closeOnExec : Fin 20 → Bool
  leader : Bool
  tty : Int
  zombie : Bool

structure Kernel where
  vol : Volume
  /-- `s_inode_super`; the rest of a super block is in the volume. -/
  inodeSuper : Nat → Option Id
  file : Fin 64 → File
  task : Fin 64 → Option Task
  /-- `ROOT_DEV`. -/
  rootDev : Dev

/-! ## Access -/

def Kernel.setFs (k : Kernel) (fs : Fs.State) : Kernel := { k with vol := { k.vol with fs := fs } }

def Kernel.setFile (k : Kernel) (f : Fin 64) (file : File) : Kernel :=
  { k with file := Function.update k.file f file }

def Kernel.setTask (k : Kernel) (cur : Fin 64) (t : Task) : Kernel :=
  { k with task := Function.update k.task cur (some t) }

def Task.setFilp (t : Task) (fd : Fin 20) (p : Option (Fin 64)) : Task :=
  { t with filp := Function.update t.filp fd p }

/-- `close_on_exec &= ~(1<<fd)`. -/
def Task.clearExec (t : Task) (fd : Fin 20) : Task :=
  { t with closeOnExec := Function.update t.closeOnExec fd false }

/-- A descriptor, if it is one of the task's. -/
def Task.fd (t : Task) (fd : Nat) : Option (Fin 20 × Fin 64) :=
  if h : fd < 20 then (t.filp ⟨fd, h⟩).map fun f => (⟨fd, h⟩, f) else none

/-- The task as path resolution sees it; without a root or a working directory it panics. -/
def Task.names (t : Task) : Option Fs.Task :=
  match t.root, t.pwd with
  | some root, some pwd => some ⟨t.euid, t.egid, root, pwd⟩
  | _, _ => none

/-- The first free descriptor from `fd` on. -/
def Task.freeFd (t : Task) (fd : Nat) : Option (Fin 20) :=
  (List.finRange 20).find? fun n => fd ≤ n.val ∧ t.filp n = none

/-- The free entries of `file_table`, in order. -/
def Kernel.freeFiles (k : Kernel) : List (Fin 64) :=
  (List.finRange 64).filter fun f => (k.file f).count = 0

/-- `S_ISCHR`. -/
def isChr (h : MInode) : Bool := h.mode &&& 0o170000#16 = 0o020000#16

/-- `S_ISBLK`. -/
def isBlk (h : MInode) : Bool := h.mode &&& 0o170000#16 = 0o060000#16

/-- `MAJOR`. -/
def major (dev : BitVec 16) : Nat := dev.toNat / 256

/-- `MINOR`. -/
def minor (dev : BitVec 16) : Nat := dev.toNat % 256

/-- `i_pipe`. -/
def isPipe (i : Id) : Bool := i.dev = 0

/-- `iput`, which does nothing with a null pointer. -/
def iputOpt (fs : Fs.State) : Option Id → Fs.State
  | some i => fs.iput i
  | none => fs

/-- `i_count++`, if there is an inode. -/
def holdOpt (fs : Fs.State) : Option Id → Fs.State
  | some i => fs.hold i
  | none => fs

/-! ## The contents of a file -/

/-- A byte of a directory entry as it is on the disk: the number, then the name. -/
def entryByte (de : Fs.DirEntry) (n : Nat) : Byte :=
  if n = 0 then de.inodenr.setWidth 8
  else if n = 1 then (de.inodenr >>> 8).setWidth 8
  else de.name (n - 2)

/-- The byte at offset `p` of a file or directory. -/
def Volume.byteAt (v : Volume) (i : Id) (p : Nat) : Byte :=
  if (v.fs.inode i).isDir then
    let block := (v.fs.inode i).zone (p / 1024)
    if block = 0 then 0 else entryByte (v.fs.dirBlock i.dev block (p % 1024 / 16)) (p % 16)
  else v.data i p

def Volume.setInode (v : Volume) (i : Id) (h : MInode) : Volume :=
  { v with fs := { v.fs with inode := Function.update v.fs.inode i h } }

/-- `truncate`: the blocks of a file or directory are freed. -/
def Volume.truncate (v : Volume) (i : Id) : Volume :=
  let h := v.fs.inode i
  if ¬ h.isReg ∧ ¬ h.isDir then v
  else
    { v.setInode i { h with zone := fun _ => 0, size := 0 } with
      data := Function.update v.data i fun _ => 0 }

/-- `n` bytes of `buf` have been written to file `i` at `pos`. -/
def Volume.store (v : Volume) (i : Id) (pos n : Nat) (buf : Nat → Byte) : Volume :=
  let h := v.fs.inode i
  { v.setInode i { h with size := max h.size (pos + n) } with
    data := Function.update v.data i fun p =>
      if pos ≤ p ∧ p < pos + n then buf (p - pos) else v.data i p }

/-- The drive that a block device is: a hard disk has a number for itself and four for its partitions, a
floppy drive one for each kind of diskette. -/
def drive (dev : Dev) : Nat × Nat :=
  (major dev, if major dev = 3 then minor dev / 5 else if major dev = 2 then minor dev % 4 else minor dev)

/-- The blocks of a device have been written past its file system, and `disk` is what its drive holds then;
the inodes that are in use stay as they are in memory. -/
def Volume.overwrite (v : Volume) (dev : Dev) (disk : Volume) : Volume where
  fs := { v.fs with
    inode := fun i =>
      if drive i.dev = drive dev ∧ v.fs.count i = 0 then
        { disk.fs.inode i with mount := (v.fs.inode i).mount }
      else v.fs.inode i
    dirBlock := fun d => if drive d = drive dev then disk.fs.dirBlock d else v.fs.dirBlock d }
  data i := if drive i.dev = drive dev then disk.data i else v.data i

end Linux011.Files
