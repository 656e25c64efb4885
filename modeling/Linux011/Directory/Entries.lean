import Mathlib.Data.BitVec
import Mathlib.Logic.Function.Basic

/-!
# The entries of a directory (`fs/namei.c`)

`find_entry`, `add_entry` and `is_empty_dir` walk through the entries of a directory, block by block. A
block may be a hole, or fail to be read, and the three go on from there in different ways.

A pointer to an entry is the number of a block and a place in it. A call counts the references it has
taken to each buffer. What it must not do with its pointers is a fault, and here the call ends with the
first fault: in the kernel it would go on with what it finds there.

The dirty flags and the times of the inode are left out.
-/

namespace Linux011.Directory

abbrev Byte := BitVec 8

/-- `NAME_LEN`. -/
def nameLen : Nat := 14

/-- `DIR_ENTRIES_PER_BLOCK`. -/
def entriesPerBlock : Nat := 64

/-- `sizeof (struct dir_entry)`. -/
def dirEntrySize : Nat := 16

/-- The blocks that `_bmap` can map, `7+512+512*512`. -/
def maxBlocks : Nat := 262663

/-- `struct dir_entry`; the first `nameLen` bytes of the name are there. -/
structure DirEntry where
  inodenr : BitVec 16
  name : Nat → Byte

/-- What `get_diskBlock` and `bread` make of a block of a directory. -/
inductive Block
  /-- No block is mapped here, or the block that says so cannot be read. -/
  | hole
  | unreadable
  | data (entry : Nat → DirEntry)

/-- A directory: its number, its size in bytes and its blocks. -/
structure Dir where
  num : BitVec 16
  size : Nat
  block : Nat → Block

/-- A pointer to an entry: block and place. -/
abbrev Ref := Nat × Nat

inductive Fault
  /-- `bh->b_data`, where `bh` is NULL. -/
  | null
  /-- An entry in a buffer that is released. -/
  | released
  /-- A second `brelse`. -/
  | twice
  /-- A block number that is too big for `_bmap`. -/
  | panic
  /-- The loop has not come to its end. -/
  | endless
  deriving DecidableEq

/-- `bh`, `de`, and the references this call has taken. -/
structure Cursor where
  bh : Option Nat
  de : Ref
  held : Nat → Nat

namespace Cursor

/-- `bh = bread(block)` with `de = bh->b_data`. -/
def bread (c : Cursor) (k : Nat) : Cursor :=
  ⟨some k, (k, 0), Function.update c.held k (c.held k + 1)⟩

/-- `brelse(bh)`. -/
def brelse (c : Cursor) : Except Fault Cursor :=
  match c.bh with
  | none => .ok c
  | some k =>
    if c.held k = 0 then .error .twice
    else .ok { c with held := Function.update c.held k (c.held k - 1) }

/-- `de >= bh->b_data + BLOCK_SIZE`. -/
def atEnd (c : Cursor) : Except Fault Bool :=
  match c.bh with
  | none => .error .null
  | some k => .ok (decide (c.de.1 = k ∧ entriesPerBlock ≤ c.de.2))

/-- `de++`. -/
def next (c : Cursor) : Cursor := { c with de := (c.de.1, c.de.2 + 1) }

/-- No buffer is read yet. -/
def start : Cursor := ⟨none, (0, 0), fun _ => 0⟩

end Cursor

namespace Dir

/-- `*de`. -/
def entry (D : Dir) (c : Cursor) : Except Fault DirEntry :=
  if c.held c.de.1 = 0 then .error .released
  else
    match D.block c.de.1 with
    | .data f => .ok (f c.de.2)
    | _ => .error .null

/-- `*de = e`. -/
def store (D : Dir) (p : Ref) (e : DirEntry) : Dir :=
  match D.block p.1 with
  | .data f => { D with block := Function.update D.block p.1 (.data (Function.update f p.2 e)) }
  | _ => D

/-- A hole is filled: `new_block` clears the block. -/
def fill (D : Dir) (k : Nat) : Dir :=
  { D with block := Function.update D.block k (.data fun _ => ⟨0, fun _ => 0⟩) }

/-- The number of entries that `i_size` has. -/
def entries (D : Dir) : Nat := D.size / dirEntrySize

end Dir

/-- How a loop goes on at an entry: it has it, it goes on with the entry `entriesPerBlock` later, or the
call returns. -/
inductive Turn
  | ready (c : Cursor)
  | skip (c : Cursor)
  | stop (c : Cursor)

/-! ## Looking for a name -/

/-- `match`. -/
def matchName (name : List Byte) (e : DirEntry) : Bool :=
  decide (e.inodenr ≠ 0 ∧ name.length ≤ nameLen ∧ (name.length < nameLen → e.name name.length = 0) ∧
    ∀ i < name.length, e.name i = name.getD i 0)

def dot : List Byte := [46]

def dotdot : List Byte := [46, 46]

/-- `ROOT_INO`. -/
def rootIno : BitVec 16 := 1

/-- What the name `..` depends on: whether the directory is `current->root`, and `s_inode_mount` of its
super block. -/
structure Site where
  isRoot : Bool
  mount : Option Dir

/-- The name that is compared: `..` in a pseudo-root is `.`. -/
def Site.wanted (site : Site) (name : List Byte) : List Byte :=
  if name.take nameLen = dotdot ∧ site.isRoot then dot else name.take nameLen

/-- The directory that is read: `..` over a mount point is looked up in the covered directory. -/
def Site.searched (site : Site) (D : Dir) (name : List Byte) : Dir :=
  if name.take nameLen = dotdot ∧ site.isRoot = false ∧ D.num = rootIno then site.mount.getD D else D

/-- The beginning of the loop in `find_entry`. -/
def findTurn (D : Dir) (i : Nat) (c : Cursor) : Except Fault Turn := do
  if ← c.atEnd then
    let c ← c.brelse
    if maxBlocks ≤ i / entriesPerBlock then throw .panic
    match D.block (i / entriesPerBlock) with
    | .data _ => return .ready (c.bread (i / entriesPerBlock))
    | _ => return .skip { c with bh := none }
  else return .ready c

/-- The loop in `find_entry`. -/
def findLoop (D : Dir) (entries : Nat) (name : List Byte) :
    Nat → Nat → Cursor → Except Fault (Option Ref × Cursor)
  | 0, _, _ => .error .endless
  | n + 1, i, c =>
    if i < entries then do
      match ← findTurn D i c with
      | .ready c =>
        let e ← D.entry c
        if matchName name e then return (some c.de, c) else findLoop D entries name n (i + 1) c.next
      | .skip c => findLoop D entries name n (i + entriesPerBlock) c
      | .stop c => return (none, c)
    else do
      let c ← c.brelse
      return (none, c)

/-- `find_entry`: the entry, and the references the call has left. The number of entries is the one of the
directory the call was made for, also where another directory is read. -/
def findEntry (site : Site) (D : Dir) (name : List Byte) : Except Fault (Option Ref × Cursor) :=
  if name.take nameLen = [] then .ok (none, .start)
  else
    match (site.searched D name).block 0 with
    | .data _ =>
      findLoop (site.searched D name) D.entries (site.wanted name)
        (D.entries + 1) 0 (Cursor.start.bread 0)
    | _ => .ok (none, .start)

/-! ## Adding a name -/

/-- The beginning of the loop in `add_entry`; `room k` says whether `create_diskBlock` can fill a hole. -/
def addTurn (room : Nat → Bool) (D : Dir) (i : Nat) (c : Cursor) : Except Fault (Turn × Dir) := do
  if ← c.atEnd then
    let c ← c.brelse
    let k := i / entriesPerBlock
    if maxBlocks ≤ k then throw .panic
    match D.block k with
    | .data _ => return (.ready (c.bread k), D)
    | .unreadable => return (.skip { c with bh := none }, D)
    | .hole =>
      if room k then return (.ready (c.bread k), D.fill k) else return (.stop { c with bh := none }, D)
  else return (.ready c, D)

/-- Past the size there is no entry, whatever the block holds: it is cleared and the directory grows. -/
def Dir.grow (D : Dir) (i : Nat) (p : Ref) (e : DirEntry) : Dir :=
  if D.size ≤ i * dirEntrySize then
    { D.store p { e with inodenr := 0 } with size := (i + 1) * dirEntrySize }
  else D

/-- The loop in `add_entry`. -/
def addLoop (room : Nat → Bool) (name : List Byte) :
    Nat → Dir → Nat → Cursor → Except Fault (Option Ref × Dir × Cursor)
  | 0, _, _, _ => .error .endless
  | n + 1, D, i, c => do
    match ← addTurn room D i c with
    | (.ready c, D) =>
      let e ← D.entry c
      let D := D.grow i c.de e
      let e ← D.entry c
      if e.inodenr = 0 then return (some c.de, D.store c.de { e with name := (name.getD · 0) }, c)
      else addLoop room name n D (i + 1) c.next
    | (.skip c, D) => addLoop room name n D (i + entriesPerBlock) c
    | (.stop c, D) => return (none, D, c)

/-- `add_entry`: the entry, the directory and the references the call has left. -/
def addEntry (room : Nat → Bool) (D : Dir) (name : List Byte) : Except Fault
    (Option Ref × Dir × Cursor) :=
  if name.take nameLen = [] then .ok (none, D, .start)
  else
    match D.block 0 with
    | .data _ => addLoop room (name.take nameLen) (D.entries + 2) D 0 (Cursor.start.bread 0)
    | _ => .ok (none, D, .start)

/-! ## Whether a directory is empty -/

/-- `strcmp(s, de->name)` finds no difference. -/
def isName (s : List Byte) (e : DirEntry) : Bool :=
  decide (e.name s.length = 0 ∧ ∀ i < s.length, e.name i = s.getD i 0)

/-- The beginning of the loop in `is_empty_dir`. -/
def emptyTurn (D : Dir) (i : Nat) (c : Cursor) : Except Fault Turn := do
  if ← c.atEnd then
    let c ← c.brelse
    if maxBlocks ≤ i / entriesPerBlock then throw .panic
    match D.block (i / entriesPerBlock) with
    | .data _ => return .ready (c.bread (i / entriesPerBlock))
    | .hole => return .skip c
    | .unreadable => return .stop c
  else return .ready c

/-- The loop in `is_empty_dir`. -/
def emptyLoop (D : Dir) (len : Nat) : Nat → Nat → Cursor → Except Fault (Bool × Cursor)
  | 0, _, _ => .error .endless
  | n + 1, nr, c =>
    if nr < len then do
      match ← emptyTurn D nr c with
      | .ready c =>
        let e ← D.entry c
        if e.inodenr ≠ 0 then do
          let c ← c.brelse
          return (false, c)
        else emptyLoop D len n (nr + 1) c.next
      | .skip c => emptyLoop D len n (nr + entriesPerBlock) c
      | .stop c => return (false, c)
    else do
      let c ← c.brelse
      return (true, c)

/-- The first two entries are `.` and `..`. -/
def Dir.begins (D : Dir) (f : Nat → DirEntry) : Bool :=
  (f 0).inodenr = D.num && (f 1).inodenr ≠ 0 && isName dot (f 0) && isName dotdot (f 1)

/-- `is_empty_dir`. The first buffer is kept where the first two entries are not `.` and `..`. -/
def isEmptyDir (D : Dir) : Except Fault (Bool × Cursor) :=
  if D.entries < 2 then .ok (false, .start)
  else
    match D.block 0 with
    | .data f =>
      if D.begins f then emptyLoop D D.entries (D.entries + 1) 2 (Cursor.start.bread 0).next.next
      else .ok (false, Cursor.start.bread 0)
    | _ => .ok (false, .start)

end Linux011.Directory
