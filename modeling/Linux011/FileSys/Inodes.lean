import Linux011.FileSys.State

/-!
# Blocks and inodes (`bitmap.c`, `truncate.c`, `inode.c`)

What the functions on directories and files are written with. `new_inode` and `iget` return an entry of
the inode table, to which there is one more reference then.
-/

namespace Linux011.FileSys

open Lib.Prog (stop alarm when forEach)
open Minix (firstZero pointer setPointer)

variable {C : Type} [Contents C]

/-! ## Bitmaps -/

/-- Bit `n` of a block. -/
def bitOf (data : Nat → Byte) (n : Nat) : Bool := (data (n / 8)).getLsbD (n % 8)

/-- The block with bit `n` set or cleared. -/
def setBit (data : Nat → Byte) (n : Nat) (b : Bool) (k : Nat) : Byte :=
  if k = n / 8 then
    if b then data k ||| 1#8 <<< (n % 8) else data k &&& ~~~(1#8 <<< (n % 8))
  else data k

/-- The first block of a bitmap that has a zero, and its first zero. -/
def findZero (c : C) (dev : Dev) (map : Nat → Option Block) : Option (Nat × Block × Nat) :=
  (List.range 8).findSome? fun i => (map i).bind fun b =>
    (firstZero (bitOf (Contents.byte c dev b)) 8192 0).map fun j => (i, b, j)

/-- `free_block`. A block whose buffer is in use is not freed. -/
def freeBlock (dev : Dev) (block : Zone) : Call C Unit := do
  let sb ← superOf dev
  if block.toNat < sb.firstdatazone.toNat ∨ sb.nzones.toNat ≤ block.toNat then stop .panic
  else
    let bh := (dev, block.zeroExtend 32)
    let n ← Lib.Prog.read fun s => s.bcount bh
    if n ≠ 0 then
      -- get_hash_table has counted one more, and nobody gives it back
      alarm .inUse
      hold bh
    else
      let j := block.toNat + 1 - sb.firstdatazone.toNat
      match sb.zmap (j / 8192) with
      | none => stop .panic
      | some map =>
        let data ← getBytes (dev, map)
        if bitOf data (j % 8192) then setBytes (dev, map) (setBit data (j % 8192) false)
        else stop .panic

/-- `new_block`; 0 if the disk is full. -/
def newBlock (dev : Dev) : Call C Zone := do
  let sb ← superOf dev
  let zero ← Lib.Prog.read fun s => findZero s.contents dev sb.zmap
  match zero with
  | none => return 0
  | some (i, map, j) =>
    let data ← getBytes (dev, map)
    setBytes (dev, map) (setBit data j true)
    let n := j + i * 8192 + sb.firstdatazone.toNat - 1
    if sb.nzones.toNat ≤ n then return 0
    else
      let bh ← getblk dev (BitVec.ofNat 32 n)
      let count ← Lib.Prog.read fun s => s.bcount bh
      if count ≠ 1 then stop .panic
      else
        setBytes bh fun _ => 0
        brelse bh
        return BitVec.ofNat 16 n

/-- `free_inode`. -/
def freeInode (i : Nat) : Call C Unit := do
  let h ← getInode i
  if h.dev = 0 then editInode i fun _ => .zero
  else if 1 < h.count ∨ h.disk.nlinks ≠ 0 then stop .panic
  else
    let sb ← superOf h.dev
    if h.num.toNat < 1 ∨ sb.ninodes.toNat < h.num.toNat then stop .panic
    else
      match sb.imap (h.num.toNat / 8192) with
      | none => stop .panic
      | some map =>
        let data ← getBytes (h.dev, map)
        setBytes (h.dev, map) (setBit data (h.num.toNat % 8192) false)
        editInode i fun _ => .zero

/-! ## `truncate.c` -/

/-- The loop of `free_ind` and `free_dind`; `each` frees what an entry of the block names. -/
def freeEntries (each : Zone → Call C Unit) (bh : Bh) : Call C Unit :=
  forEach (fun k => do
    let data ← getBytes bh
    when (pointer data k ≠ 0) (each (pointer data k))) (List.range 512)

/-- `free_ind` and `free_dind`. -/
def freeTable (each : Zone → Call C Unit) (dev : Dev) (block : Zone) : Call C Unit :=
  when (block ≠ 0) do
    let bh ← bread dev (block.zeroExtend 32)
    freeEntries each bh
    brelse bh
    freeBlock dev block

def freeInd (dev : Dev) : Zone → Call C Unit := freeTable (freeBlock dev) dev

def freeDind (dev : Dev) : Zone → Call C Unit := freeTable (freeInd dev) dev

/-- `truncate`. -/
def truncate (i : Nat) : Call C Unit := do
  let h ← getInode i
  when (h.disk.isReg = true ∨ h.disk.isDir = true) do
    forEach (fun k => do
      let h ← getInode i
      when (h.disk.zone k ≠ 0) do
        freeBlock h.dev (h.disk.zone k)
        editInode i (MInode.editDisk (DInode.setZone k 0))) (List.range 7)
    let h ← getInode i
    freeInd h.dev (h.disk.zone 7)
    freeDind h.dev (h.disk.zone 8)
    let t ← currentTime
    editInode i (MInode.mark fun d => { (d.setZone 7 0).setZone 8 0 with size := 0, mtime := t })

/-! ## The block map -/

/-- `if (create && !inode->i_zone[k])`: a new block in the inode; the zone. -/
def fillZone (i k : Nat) (create : Bool) : Call C Zone := do
  let h ← getInode i
  if create = true ∧ h.disk.zone k = 0 then
    let b ← newBlock h.dev
    when (b ≠ 0) (editInode i (MInode.mark (DInode.setZone k b)))
    return b
  else return h.disk.zone k

/-- The same in index block `block`. -/
def fillEntry (dev : Dev) (block : Zone) (k : Nat) (create : Bool) : Call C Zone := do
  let bh ← bread dev (block.zeroExtend 32)
  let data ← getBytes bh
  if create = true ∧ pointer data k = 0 then
    let b ← newBlock dev
    when (b ≠ 0) do
      let data ← getBytes bh
      setBytes bh (setPointer data k b)
    brelse bh
    return b
  else
    brelse bh
    return pointer data k

/-- `_bmap`. -/
def bmap (i : Nat) (blockSeq : Nat) (create : Bool) : Call C Zone := do
  let h ← getInode i
  if 7 + 512 + 512 * 512 ≤ blockSeq then stop .panic
  else if blockSeq < 7 then fillZone i blockSeq create
  else if blockSeq - 7 < 512 then
    let ind ← fillZone i 7 create
    if ind = 0 then return 0 else fillEntry h.dev ind (blockSeq - 7) create
  else
    let dind ← fillZone i 8 create
    if dind = 0 then return 0
    else
      let ind ← fillEntry h.dev dind ((blockSeq - 7 - 512) / 512) create
      if ind = 0 then return 0 else fillEntry h.dev ind ((blockSeq - 7 - 512) % 512) create

def getDiskBlock (i blockSeq : Nat) : Call C Zone := bmap i blockSeq false

def createDiskBlock (i blockSeq : Nat) : Call C Zone := bmap i blockSeq true

/-! ## References to inodes -/

def MInode.addCount (n : Nat) (h : MInode) : MInode := { h with count := h.count + n }

def MInode.dropCount (h : MInode) : MInode := { h with count := h.count - 1 }

/-- `iput` from `repeat` on; once the inode is written it is clean. -/
def iputRepeat (i : Nat) : Nat → Call C Unit
  | 0 => stop .hang
  | n + 1 => do
    let h ← getInode i
    if 1 < h.count then editInode i MInode.dropCount
    else if h.disk.nlinks = 0 then do
      truncate i
      freeInode i
    else if h.dirt then do
      writeInode i
      iputRepeat i n
    else editInode i MInode.dropCount

/-- `iput`. -/
def iput (i : Nat) : Call C Unit := do
  let h ← getInode i
  if h.count = 0 then stop .panic
  else if h.pipe then
    if 1 < h.count then editInode i MInode.dropCount
    else editInode i fun h => { h with count := 0, dirt := false, pipe := false }
  else if h.dev = 0 then editInode i MInode.dropCount
  else
    -- sync_dev
    when (h.disk.isBlk = true) syncInodes
    iputRepeat i 2

/-- `iput`, which does nothing with a null pointer. -/
def iputOpt : Option Nat → Call C Unit
  | none => pure ()
  | some i => iput i

/-- The loop of `get_empty_inode`: the inode that was found, and `last_inode`. -/
def scanInodes (inode : Nat → MInode) : Nat → Nat → Option Nat → Option Nat × Nat
  | 0, last, found => (found, last)
  | n + 1, last, found =>
    let last := if last + 1 ≥ 32 then 0 else last + 1
    if (inode last).count = 0 then
      if (inode last).dirt = false then (some last, last) else scanInodes inode n last (some last)
    else scanInodes inode n last found

/-- `get_empty_inode`. A dirty inode without a device would be written for ever. -/
def getEmptyInode : Call C Nat := do
  let found ← Lib.Prog.read fun s => scanInodes s.inode 32 s.lastInode none
  Lib.Prog.modify fun s => { s with lastInode := found.2 }
  match found.1 with
  | none => stop .panic
  | some i =>
    writeInode i
    let h ← getInode i
    if h.dirt = true then stop .hang
    else
      editInode i fun _ => { MInode.zero with count := 1 }
      return i

/-- `read_inode`; the inode is locked meanwhile. -/
def readInode (i : Nat) : Call C Unit := do
  let h ← getInode i
  let sb ← superOf h.dev
  let bh := (h.dev, sb.inodeBlock h.num)
  hold bh
  Lib.Prog.modify fun s => s.setInode i
    { s.inode i with disk := Contents.inode s.contents bh.1 bh.2 (inodePlace h.num) }
  brelse bh

/-- The inode that is in the table, if it is. -/
def findInode (inode : Nat → MInode) (dev : Dev) (nr : Num) : Option Nat :=
  (List.range 32).find? fun i => (inode i).dev == dev && (inode i).num == nr

/-- The loop of `iget`, which begins again after a mount point; `n` bounds how often. -/
def igetLoop (empty : Nat) : Nat → Dev → Num → Call C Nat
  | 0, _, _ => stop .hang
  | n + 1, dev, nr => do
    let found ← Lib.Prog.read fun s => findInode s.inode dev nr
    match found with
    | none =>
      editInode empty fun h => { h with dev := dev, num := nr }
      readInode empty
      return empty
    | some i =>
      editInode i (MInode.addCount 1)
      let h ← getInode i
      if h.mount then
        let mounted ← Lib.Prog.read fun s =>
          (List.range 8).find? fun k => (s.super k).inodeMount == some i
        match mounted with
        | none =>
          iput empty
          return i
        | some k =>
          iput i
          let dev ← Lib.Prog.read fun s => (s.super k).dev
          igetLoop empty n dev 1
      else
        iput empty
        return i

/-- `iget`. -/
def iget (dev : Dev) (nr : Num) : Call C Nat :=
  if dev = 0 then stop .panic
  else do
    let empty ← getEmptyInode
    igetLoop empty 9 dev nr

/-- `new_inode`; nothing if the disk is full. -/
def newInode (dev : Dev) : Call C (Option Nat) := do
  let i ← getEmptyInode
  let sb ← superOf dev
  let zero ← Lib.Prog.read fun s => findZero s.contents dev sb.imap
  match zero with
  | none =>
    iput i
    return none
  | some (k, map, j) =>
    let nr := j + k * 8192
    if sb.ninodes.toNat < nr then
      iput i
      return none
    else
      let data ← getBytes (dev, map)
      setBytes (dev, map) (setBit data j true)
      let found ← Lib.Prog.read fun s => findInode s.inode dev (BitVec.ofNat 16 nr)
      when (found.isSome = true) (alarm .taken)
      let me ← getTask
      let t ← currentTime
      editInode i fun h =>
        { h with
          count := 1
          dev := dev
          num := BitVec.ofNat 16 nr
          dirt := true
          disk := { h.disk with nlinks := 1, uid := me.euid, gid := me.egid.setWidth 8, mtime := t } }
      return some i

end Linux011.FileSys
