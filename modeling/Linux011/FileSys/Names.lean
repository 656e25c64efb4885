import Linux011.FileSys.Inodes

/-!
# Directories and names (`namei.c`)

A directory is the inode's entry in the table; an entry of a directory is a buffer and a place in it,
and who has found one has a reference to the buffer. A name in user memory is a list of bytes without
NUL; a pointer into a path is the rest of the list.
-/

namespace Linux011.FileSys

open Lib.Prog (stop alarm when forEach)

variable {C : Type} [Contents C]

/-- `MAY_EXEC`, `MAY_WRITE` and `MAY_READ`. -/
def mayExec : BitVec 32 := 1
def mayWrite : BitVec 32 := 2
def mayRead : BitVec 32 := 4

/-- `permission`. -/
def permission (i : Nat) (mask : BitVec 32) : Call C Bool := do
  let h ← getInode i
  let t ← getTask
  if h.dev ≠ 0 ∧ h.disk.nlinks = 0 then return false
  else
    let mode : BitVec 32 := h.disk.mode.setWidth 32
    let mode :=
      if t.euid = h.disk.uid then mode >>> 6
      else if t.egid = h.disk.gid.setWidth 16 then mode >>> 3
      else mode
    return mode &&& mask &&& 0o7 = mask ∨ t.euid = 0

/-! ## Entries -/

/-- `de->inodenr` of the entry at place `e` of a block. -/
def entryInode (data : Nat → Byte) (e : Nat) : Num := word16 data (16 * e)

/-- `de->name[k]`. -/
def entryName (data : Nat → Byte) (e k : Nat) : Byte := data (16 * e + 2 + k)

/-- The block with `de->inodenr = nr`. -/
def setEntryInode (data : Nat → Byte) (e : Nat) (nr : Num) (n : Nat) : Byte :=
  if n = 16 * e then byteOf nr 0 else if n = 16 * e + 1 then byteOf nr 1 else data n

/-- The block with a name in the entry; `name` is padded with NULs. -/
def setEntryName (data : Nat → Byte) (e : Nat) (name : List Byte) (n : Nat) : Byte :=
  if 16 * e + 2 ≤ n ∧ n < 16 * e + 16 then name.getD (n - (16 * e + 2)) 0 else data n

/-- `match`. -/
def matchName (len : Nat) (name : List Byte) (data : Nat → Byte) (e : Nat) : Bool :=
  entryInode data e ≠ 0 ∧ len ≤ 14 ∧ (len < 14 → entryName data e len = 0) ∧
    ∀ i < len, name.getD i 0 = entryName data e i

/-- `de->inodenr = nr; bh->b_dirt = 1`. -/
def writeEntryInode (bh : Bh) (e : Nat) (nr : Num) : Call C Unit := do
  let data ← getBytes bh
  setBytes bh (setEntryInode data e nr)

/-! ## `find_entry` -/

/-- The loop from entry `i` on, with the buffer of its block; a block that is not there is skipped.
`n` bounds the rounds. -/
def scanEntries (dir : Nat) (name : List Byte) (len entries : Nat) :
    Nat → Nat → Option Bh → Call C (Option (Bh × Nat))
  | 0, _, _ => stop .hang
  | n + 1, i, bh =>
    if entries ≤ i then do
      brelseOpt bh
      return none
    else if i % 64 = 0 ∧ i ≠ 0 then do
      brelseOpt bh
      let block ← getDiskBlock dir (i / 64)
      if block = 0 then scanEntries dir name len entries n (i + 64) none
      else
        let h ← getInode dir
        let bh ← bread h.dev (block.zeroExtend 32)
        let data ← getBytes bh
        if matchName len name data 0 then return some (bh, 0)
        else scanEntries dir name len entries n (i + 1) (some bh)
    else
      match bh with
      | none => stop .panic
      | some bh => do
        let data ← getBytes bh
        if matchName len name data (i % 64) then return some (bh, i % 64)
        else scanEntries dir name len entries n (i + 1) (some bh)

/-- The check of `find_entry` for `..`: the directory to look in, and the length of the name. -/
def dotdot (dir : Nat) (name : List Byte) (namelen : Nat) : Call C (Nat × Nat) := do
  if namelen = 2 ∧ name.getD 0 0 = 46 ∧ name.getD 1 0 = 46 then
    let t ← getTask
    let h ← getInode dir
    if t.root = some dir then return (dir, 1)
    else if h.num = 1 then
      let sb ← superOf h.dev
      match sb.inodeMount with
      | none => return (dir, namelen)
      | some m =>
        iput dir
        editInode m (MInode.addCount 1)
        return (m, namelen)
    else return (dir, namelen)
  else return (dir, namelen)

/-- `find_entry`: the directory it has looked in, which it may exchange, and the entry. -/
def findEntry (dir : Nat) (name : List Byte) (namelen : Nat) :
    Call C (Nat × Option (Bh × Nat)) := do
  let namelen := if namelen > 14 then 14 else namelen
  let h ← getInode dir
  let entries := h.disk.size.toNat / 16
  if namelen = 0 then return (dir, none)
  else
    let (dir, namelen) ← dotdot dir name namelen
    let h ← getInode dir
    if h.disk.zone 0 = 0 then return (dir, none)
    else
      let bh ← bread h.dev ((h.disk.zone 0).zeroExtend 32)
      let found ← scanEntries dir name namelen entries (entries + 1) 0 (some bh)
      return (dir, found)

/-! ## `add_entry` -/

/-- `i_mtime = CURRENT_TIME`. The alarm is for a caller that does not set `i_dirt` either. -/
def touch (i : Nat) (marked : Bool) : Call C Unit := do
  let t ← currentTime
  let h ← getInode i
  when (marked = false ∧ h.dirt = false ∧ h.disk.mtime ≠ t) (alarm .unmarked)
  editInode i (MInode.editDisk fun d => { d with mtime := t })

/-- One round of the loop of `add_entry`, for entry `i` in buffer `bh`: an entry behind the end is
cleared, and a free entry is taken. -/
def tryEntry (dir : Nat) (name : List Byte) (marked : Bool) (i : Nat) (bh : Bh) : Call C Bool := do
  let h ← getInode dir
  when (h.disk.size.toNat ≤ 16 * i) do
    writeEntryInode bh (i % 64) 0
    editInode dir (MInode.mark fun d => { d with size := BitVec.ofNat 32 (16 * (i + 1)) })
  let data ← getBytes bh
  if entryInode data (i % 64) = 0 then
    touch dir marked
    setBytes bh (setEntryName data (i % 64) name)
    return true
  else return false

/-- The loop from entry `i` on; `n` bounds the rounds. -/
def addLoop (dir : Nat) (name : List Byte) (marked : Bool) :
    Nat → Nat → Bh → Call C (Option (Bh × Nat))
  | 0, _, _ => stop .hang
  | n + 1, i, bh =>
    if i % 64 = 0 ∧ i ≠ 0 then do
      brelse bh
      let block ← createDiskBlock dir (i / 64)
      if block = 0 then return none
      else
        let h ← getInode dir
        let bh ← bread h.dev (block.zeroExtend 32)
        if ← tryEntry dir name marked i bh then return some (bh, i % 64)
        else addLoop dir name marked n (i + 1) bh
    else do
      if ← tryEntry dir name marked i bh then return some (bh, i % 64)
      else addLoop dir name marked n (i + 1) bh

/-- `add_entry`; the number of the entry is 0. `marked` is whether the caller sets `i_dirt` of the
directory afterwards. -/
def addEntry (dir : Nat) (name : List Byte) (marked : Bool) : Call C (Option (Bh × Nat)) := do
  let h ← getInode dir
  if name = [] then return none
  else if h.disk.zone 0 = 0 then return none
  else
    let bh ← bread h.dev ((h.disk.zone 0).zeroExtend 32)
    addLoop dir (name.take 14) marked (h.disk.size.toNat / 16 + 2) 0 bh

/-! ## Paths -/

/-- The length of the name that a path begins with. -/
def nameLen : List Byte → Nat
  | [] => 0
  | c :: p => if c = 47 then 0 else nameLen p + 1

/-- The loop of `get_dir_inode`; `n` bounds the rounds. -/
def getDirLoop : Nat → Nat → List Byte → Call C (Option Nat)
  | 0, _, _ => stop .hang
  | n + 1, inode, pathname => do
    let h ← getInode inode
    let may ← permission inode mayExec
    if ¬ h.disk.isDir ∨ ¬ may then do
      iput inode
      return none
    else if pathname.length ≤ nameLen pathname then return some inode
    else
      let (inode, found) ← findEntry inode pathname (nameLen pathname)
      match found with
      | none =>
        iput inode
        return none
      | some (bh, e) =>
        let data ← getBytes bh
        let h ← getInode inode
        brelse bh
        iput inode
        let inode ← iget h.dev (entryInode data e)
        getDirLoop n inode (pathname.drop (nameLen pathname + 1))

/-- `get_dir_inode`. -/
def getDirInode (pathname : List Byte) : Call C (Option Nat) := do
  let t ← getTask
  match t.root, t.pwd with
  | some root, some pwd =>
    let r ← getInode root
    let p ← getInode pwd
    if r.count = 0 ∨ p.count = 0 then stop .panic
    else
      match pathname with
      | [] => return none
      | c :: path =>
        let start := if c = 47 then root else pwd
        editInode start (MInode.addCount 1)
        getDirLoop (pathname.length + 1) start (if c = 47 then path else pathname)
  | _, _ => stop .panic

/-- The loop of `dir_namei` that looks for the last slash. -/
def baseName : List Byte → List Byte → List Byte
  | [], basename => basename
  | c :: pathname, basename => baseName pathname (if c = 47 then pathname else basename)

/-- `dir_namei`: the directory, and the rest of the path from the last name on. -/
def dirNamei (pathname : List Byte) : Call C (Option (Nat × List Byte)) := do
  match ← getDirInode pathname with
  | none => return none
  | some dir => return some (dir, baseName pathname pathname)

/-- `namei`; `i_dirt` is set for the sake of `i_atime`. -/
def namei (pathname : List Byte) : Call C (Option Nat) := do
  match ← dirNamei pathname with
  | none => return none
  | some (dir, basename) =>
    if basename = [] then return some dir
    else
      let (dir, found) ← findEntry dir basename basename.length
      match found with
      | none =>
        iput dir
        return none
      | some (bh, e) =>
        let data ← getBytes bh
        let h ← getInode dir
        brelse bh
        iput dir
        let i ← iget h.dev (entryInode data e)
        editInode i fun h => { h with dirt := true }
        return some i

end Linux011.FileSys
