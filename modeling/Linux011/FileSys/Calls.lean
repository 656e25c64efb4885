import Linux011.FileSys.Names

/-!
# The calls on files (`namei.c`, `open.c`, `stat.c`, `exec.c`, `read_write.c`)

An open file is its inode, its flags and its position. The result is that of the C function, negative
for an error; a call that returns an inode returns it beside.
-/

namespace Linux011.FileSys

open Lib.Prog (stop alarm when forEach)

/-! ## Error numbers, flags -/

def eperm : Int := 1
def enoent : Int := 2
def enoexec : Int := 8
def enomem : Int := 12
def eacces : Int := 13
def eexist : Int := 17
def exdev : Int := 18
def enotdir : Int := 20
def eisdir : Int := 21
def einval : Int := 22
def enospc : Int := 28
def enotempty : Int := 39

def oAccMode : BitVec 32 := 0o3
def oWrOnly : BitVec 32 := 0o1
def oCreat : BitVec 32 := 0o100
def oExcl : BitVec 32 := 0o200
def oTrunc : BitVec 32 := 0o1000
def oAppend : BitVec 32 := 0o2000

variable {C : Type} [Contents C]

/-! ## `open_namei` and `sys_open` -/

/-- `ACC_MODE`: the byte of `"\004\002\006\377"`, as a signed `char`. -/
def accMode (flag : BitVec 32) : BitVec 32 :=
  if flag &&& oAccMode = 0 then 4
  else if flag &&& oAccMode = 1 then 2
  else if flag &&& oAccMode = 2 then 6
  else -1

/-- A new inode that is not wanted after all: it loses its links, and is put. -/
def discard (i : Nat) (nlinks : BitVec 8 → BitVec 8) : Call C Unit := do
  editInode i (MInode.editDisk fun d => { d with nlinks := nlinks d.nlinks })
  iput i

/-- The file does not exist: `open_namei` creates it. -/
def createFile (dir : Nat) (basename : List Byte) (flag : BitVec 32) (mode : BitVec 16) :
    Call C (Int × Option Nat) := do
  if flag &&& oCreat = 0 then
    iput dir
    return (-enoent, none)
  else
    let may ← permission dir mayWrite
    if ¬ may then
      iput dir
      return (-eacces, none)
    else
      let h ← getInode dir
      match ← newInode h.dev with
      | none =>
        iput dir
        return (-enospc, none)
      | some i =>
        let me ← getTask
        editInode i (MInode.mark fun d => { d with uid := me.euid, mode := mode })
        match ← addEntry dir basename false with
        | none =>
          discard i fun n => n - 1
          iput dir
          return (-enospc, none)
        | some (bh, e) =>
          let h ← getInode i
          writeEntryInode bh e h.num
          brelse bh
          iput dir
          return (0, some i)

/-- The file exists: `open_namei` checks the permissions, and empties the file if it is told to. -/
def openFile (dir : Nat) (bh : Bh) (e : Nat) (flag : BitVec 32) : Call C (Int × Option Nat) := do
  let data ← getBytes bh
  let h ← getInode dir
  brelse bh
  iput dir
  if flag &&& oExcl ≠ 0 then return (-eexist, none)
  else
    let i ← iget h.dev (entryInode data e)
    let h ← getInode i
    let may ← permission i (accMode flag)
    if (h.disk.isDir ∧ flag &&& oAccMode ≠ 0) ∨ ¬ may then
      iput i
      return (-eperm, none)
    else
      when (flag &&& oTrunc ≠ 0) (truncate i)
      return (0, some i)

/-- `open_namei`. -/
def openNamei (pathname : List Byte) (flag : BitVec 32) (mode : BitVec 16) :
    Call C (Int × Option Nat) := do
  let flag := if flag &&& oTrunc ≠ 0 ∧ flag &&& oAccMode = 0 then flag ||| oWrOnly else flag
  let t ← getTask
  let mode := mode &&& (0o777 &&& ~~~t.umask) ||| 0o100000
  match ← dirNamei pathname with
  | none => return (-enoent, none)
  | some (dir, basename) =>
    if basename = [] then
      if flag &&& (oAccMode ||| oCreat ||| oTrunc) = 0 then return (0, some dir)
      else
        iput dir
        return (-eisdir, none)
    else
      let (dir, found) ← findEntry dir basename basename.length
      match found with
      | none => createFile dir basename flag mode
      | some (bh, e) => openFile dir bh e flag

/-- `sys_open`; `free` is whether there is a descriptor and an entry of `file_table`. The result is
the inode of the file. -/
def sysOpen (filename : List Byte) (flag : BitVec 32) (mode : BitVec 16) (free : Bool) :
    Call C (Int × Option Nat) := do
  if free = false then return (-einval, none)
  else
    let t ← getTask
    match ← openNamei filename flag (mode &&& (0o777 &&& ~~~t.umask)) with
    | (e, none) => return (e, none)
    | (e, some i) =>
      let h ← getInode i
      -- ttys are somewhat special
      let major := (h.disk.zone 0).toNat / 256
      if h.disk.isChr ∧ major = 4 then
        when (t.leader = true ∧ t.tty < 0)
          (editTask fun t => { t with tty := (h.disk.zone 0).toNat % 256 })
        return (e, some i)
      else if h.disk.isChr ∧ major = 5 ∧ t.tty < 0 then
        iput i
        return (-eperm, none)
      else return (e, some i)

/-- `sys_creat`. -/
def sysCreat (filename : List Byte) (mode : BitVec 16) (free : Bool) : Call C (Int × Option Nat) :=
  sysOpen filename (oCreat ||| oTrunc) mode free

/-! ## New entries -/

/-- `sys_mknod` and `sys_mkdir` up to `new_inode`: the directory in which `filename` is to be made, and
the last part of the name. -/
def makeIn (filename : List Byte) : Call C (Int × Option (Nat × List Byte)) := do
  let su ← suser
  if ¬ su then return (-eperm, none)
  else
    match ← dirNamei filename with
    | none => return (-enoent, none)
    | some (dir, basename) =>
      if basename = [] then
        iput dir
        return (-enoent, none)
      else
        let may ← permission dir mayWrite
        if ¬ may then
          iput dir
          return (-eperm, none)
        else
          let (dir, found) ← findEntry dir basename basename.length
          match found with
          | some (bh, _) =>
            brelse bh
            iput dir
            return (-eexist, none)
          | none => return (0, some (dir, basename))

/-- `sys_mknod`. -/
def sysMknod (filename : List Byte) (mode dev : BitVec 16) : Call C Int := do
  match ← makeIn filename with
  | (e, none) => return e
  | (_, some (dir, basename)) =>
    let h ← getInode dir
    match ← newInode h.dev with
    | none =>
      iput dir
      return -enospc
    | some i =>
      let t ← currentTime
      editInode i (MInode.mark fun d =>
        let d := { d with mode := mode, mtime := t }
        if d.isBlk || d.isChr then d.setZone 0 dev else d)
      match ← addEntry dir basename false with
      | none =>
        iput dir
        discard i fun _ => 0
        return -enospc
      | some (bh, e) =>
        let h ← getInode i
        writeEntryInode bh e h.num
        iput dir
        iput i
        brelse bh
        return 0

/-- The first block of a new directory: "." and "..". -/
def firstEntries (data : Nat → Byte) (self parent : Num) (n : Nat) : Byte :=
  if n = 2 ∨ n = 18 ∨ n = 19 then 46
  else if n = 3 ∨ n = 20 then 0
  else setEntryInode (setEntryInode data 0 self) 1 parent n

/-- `sys_mkdir`. -/
def sysMkdir (pathname : List Byte) (mode : BitVec 16) : Call C Int := do
  match ← makeIn pathname with
  | (e, none) => return e
  | (_, some (dir, basename)) =>
    let h ← getInode dir
    match ← newInode h.dev with
    | none =>
      iput dir
      return -enospc
    | some i =>
      let t ← currentTime
      editInode i (MInode.mark fun d => { d with size := 32, mtime := t })
      let self ← getInode i
      let b ← newBlock self.dev
      if b = 0 then
        iput dir
        discard i fun n => n - 1
        return -enospc
      else
        editInode i (MInode.mark (DInode.setZone 0 b))
        let dirBlock ← bread self.dev (b.zeroExtend 32)
        let data ← getBytes dirBlock
        let parent ← getInode dir
        setBytes dirBlock (firstEntries data self.num parent.num)
        editInode i (MInode.editDisk fun d => { d with nlinks := 2 })
        brelse dirBlock
        let t ← getTask
        editInode i (MInode.mark fun d =>
          { d with mode := 0o040000 ||| (mode &&& 0o777 &&& ~~~t.umask) })
        match ← addEntry dir basename true with
        | none =>
          iput dir
          freeBlock self.dev b
          discard i fun _ => 0
          return -enospc
        | some (bh, e) =>
          writeEntryInode bh e self.num
          editInode dir (MInode.mark fun d => { d with nlinks := d.nlinks + 1 })
          iput dir
          iput i
          brelse bh
          return 0

/-- `sys_link`. -/
def sysLink (oldname newname : List Byte) : Call C Int := do
  match ← namei oldname with
  | none => return -enoent
  | some old =>
    let h ← getInode old
    if h.disk.isDir then
      iput old
      return -eperm
    else
      match ← dirNamei newname with
      | none =>
        iput old
        return -eacces
      | some (dir, basename) =>
        let hdir ← getInode dir
        if basename = [] then
          iput old
          iput dir
          return -eperm
        else if hdir.dev ≠ h.dev then
          iput dir
          iput old
          return -exdev
        else
          let may ← permission dir mayWrite
          if ¬ may then
            iput dir
            iput old
            return -eacces
          else
            let (dir, found) ← findEntry dir basename basename.length
            match found with
            | some (bh, _) =>
              brelse bh
              iput dir
              iput old
              return -eexist
            | none =>
              match ← addEntry dir basename false with
              | none =>
                iput dir
                iput old
                return -enospc
              | some (bh, e) =>
                writeEntryInode bh e h.num
                brelse bh
                iput dir
                editInode old (MInode.mark fun d => { d with nlinks := d.nlinks + 1 })
                iput old
                return 0

/-! ## Entries that are removed -/

/-- `sys_rmdir` and `sys_unlink` up to `iget`: the directory, the inode, and the entry. -/
def removeFrom (name : List Byte) : Call C (Int × Option (Nat × Nat × Bh × Nat)) := do
  match ← dirNamei name with
  | none => return (-enoent, none)
  | some (dir, basename) =>
    if basename = [] then
      iput dir
      return (-enoent, none)
    else
      let may ← permission dir mayWrite
      if ¬ may then
        iput dir
        return (-eperm, none)
      else
        let (dir, found) ← findEntry dir basename basename.length
        match found with
        | none =>
          iput dir
          return (-enoent, none)
        | some (bh, e) =>
          let data ← getBytes bh
          let h ← getInode dir
          let i ← iget h.dev (entryInode data e)
          return (0, some (dir, i, bh, e))

/-- A `return` of `sys_rmdir` and `sys_unlink` that gives everything back. -/
def giveUp (first second : Nat) (bh : Bh) (e : Int) : Call C Int := do
  iput first
  iput second
  brelse bh
  return -e

/-- `strcmp(name,de->name) == 0`, for "." and "..". -/
def isName (name : List Byte) (data : Nat → Byte) (e : Nat) : Bool :=
  (List.range (name.length + 1)).all fun k => entryName data e k == name.getD k 0

/-- The loop of `is_empty_dir` from entry `nr` on. After a hole `bh` is a buffer that has been given
back, and it is given back once more. -/
def emptyLoop (inode len : Nat) : Nat → Nat → Bh → Call C Bool
  | 0, _, _ => stop .hang
  | n + 1, nr, bh =>
    if len ≤ nr then do
      brelse bh
      return true
    else if nr % 64 = 0 then do
      brelse bh
      let block ← getDiskBlock inode (nr / 64)
      if block = 0 then
        alarm .hole
        emptyLoop inode len n (nr + 64) bh
      else
        let h ← getInode inode
        let bh ← bread h.dev (block.zeroExtend 32)
        let data ← getBytes bh
        if entryInode data 0 ≠ 0 then
          brelse bh
          return false
        else emptyLoop inode len n (nr + 1) bh
    else do
      let data ← getBytes bh
      if entryInode data (nr % 64) ≠ 0 then
        brelse bh
        return false
      else emptyLoop inode len n (nr + 1) bh

/-- `is_empty_dir`. -/
def isEmptyDir (inode : Nat) : Call C Bool := do
  let h ← getInode inode
  let len := h.disk.size.toNat / 16
  if len < 2 ∨ h.disk.zone 0 = 0 then return false
  else
    let bh ← bread h.dev ((h.disk.zone 0).zeroExtend 32)
    let data ← getBytes bh
    if entryInode data 0 ≠ h.num ∨ entryInode data 1 = 0 ∨ ¬ isName [46] data 0 ∨
        ¬ isName [46, 46] data 1 then
      -- the buffer is not given back
      alarm .malformed
      return false
    else emptyLoop inode len (len + 1) 2 bh

/-- `sys_rmdir`. -/
def sysRmdir (name : List Byte) : Call C Int := do
  let su ← suser
  if ¬ su then return -eperm
  else
    match ← removeFrom name with
    | (e, none) => return e
    | (_, some (dir, i, bh, e)) =>
      let t ← getTask
      let hdir ← getInode dir
      let h ← getInode i
      if hdir.disk.mode &&& 0o1000 ≠ 0 ∧ t.euid ≠ 0 ∧ h.disk.uid ≠ t.euid then
        giveUp dir i bh eperm
      else if h.dev ≠ hdir.dev ∨ 1 < h.count then giveUp dir i bh eperm
      -- we may not delete ".", but "../dir" is ok
      else if i = dir then giveUp i dir bh eperm
      else if ¬ h.disk.isDir then giveUp i dir bh enotdir
      else
        let empty ← isEmptyDir i
        if ¬ empty then giveUp i dir bh enotempty
        else
          writeEntryInode bh e 0
          brelse bh
          editInode i (MInode.mark fun d => { d with nlinks := 0 })
          let t ← currentTime
          editInode dir (MInode.mark fun d => { d with nlinks := d.nlinks - 1, mtime := t })
          iput dir
          iput i
          return 0

/-- `sys_unlink`. -/
def sysUnlink (name : List Byte) : Call C Int := do
  match ← removeFrom name with
  | (e, none) => return e
  | (_, some (dir, i, bh, e)) =>
    let t ← getTask
    let hdir ← getInode dir
    let h ← getInode i
    if hdir.disk.mode &&& 0o1000 ≠ 0 ∧ t.euid ≠ 0 ∧ t.euid ≠ h.disk.uid ∧
        t.euid ≠ hdir.disk.uid then
      giveUp dir i bh eperm
    else if h.disk.isDir then giveUp i dir bh eperm
    else
      writeEntryInode bh e 0
      brelse bh
      editInode i (MInode.mark fun d =>
        { d with nlinks := (if d.nlinks = 0 then 1 else d.nlinks) - 1 })
      iput i
      iput dir
      return 0

/-! ## Calls on one inode -/

/-- A call on the inode of a name: `check` may refuse, then `f` changes the inode. -/
def changeInode (filename : List Byte) (check : Task → MInode → Option Int)
    (f : BitVec 32 → DInode → DInode) : Call C Int := do
  match ← namei filename with
  | none => return -enoent
  | some i =>
    let t ← getTask
    let h ← getInode i
    match check t h with
    | some e =>
      iput i
      return -e
    | none =>
      let now ← currentTime
      editInode i (MInode.mark (f now))
      iput i
      return 0

/-- `sys_chmod`. -/
def sysChmod (filename : List Byte) (mode : BitVec 16) : Call C Int :=
  changeInode filename
    (fun t h => if t.euid ≠ h.disk.uid ∧ t.euid ≠ 0 then some eacces else none)
    fun _ d => { d with mode := mode &&& 0o7777 ||| d.mode &&& ~~~0o7777 }

/-- `sys_chown`. -/
def sysChown (filename : List Byte) (uid : BitVec 16) (gid : BitVec 8) : Call C Int :=
  changeInode filename (fun t _ => if t.euid ≠ 0 then some eacces else none)
    fun _ d => { d with uid := uid, gid := gid }

/-- `sys_utime`, with the time of modification, if there is one. -/
def sysUtime (filename : List Byte) (modtime : Option (BitVec 32)) : Call C Int :=
  changeInode filename (fun _ _ => none) fun now d => { d with mtime := modtime.getD now }

/-- `sys_stat`: the inode of which `cp_stat` tells. -/
def sysStat (filename : List Byte) : Call C (Int × Option MInode) := do
  match ← namei filename with
  | none => return (-enoent, none)
  | some i =>
    let h ← getInode i
    iput i
    return (0, some h)

/-- `sys_chdir`. -/
def sysChdir (filename : List Byte) : Call C Int := do
  match ← namei filename with
  | none => return -enoent
  | some i =>
    let h ← getInode i
    if ¬ h.disk.isDir then
      iput i
      return -enotdir
    else
      let t ← getTask
      iputOpt t.pwd
      editTask fun t => { t with pwd := some i }
      return 0

/-! ## `do_execve` -/

/-- The checks of `do_execve` on the inode. -/
def execCheck (t : Task) (d : DInode) : Option Int :=
  if ¬ d.isReg then some eacces
  else
    let i := if t.euid = d.uid then d.mode >>> 6
      else if t.egid = d.gid.setWidth 16 then d.mode >>> 3
      else d.mode
    if i &&& 1 = 0 ∧ ¬ (d.mode &&& 0o111 ≠ 0 ∧ t.euid = 0) then some enoexec else none

/-- A space or a tab. -/
def isBlank (c : Byte) : Bool := c == 32 || c == 9

/-- The interpreter that a script names in its first line. -/
def interpreter (data : Nat → Byte) : Option (List Byte) :=
  let buf := ((List.range 1022).map fun k => data (k + 2)).takeWhile (· != 0)
  if buf.contains 10 then
    match (buf.takeWhile (· != 10)).dropWhile isBlank with
    | [] => none
    | line => some (line.takeWhile (! isBlank ·))
  else none

/-- The header of a program that can be run: `ZMAGIC`, no relocation, and a file that is long
enough. -/
def isProgram (data : Nat → Byte) (d : DInode) : Bool :=
  let text := (word32 data 4).toNat
  let dataSize := (word32 data 8).toNat
  let bss := (word32 data 12).toNat
  let syms := (word32 data 16).toNat
  word32 data 0 = 0o413 ∧ word32 data 24 = 0 ∧ word32 data 28 = 0 ∧
    (text + dataSize + bss) % 2 ^ 32 ≤ 0x3000000 ∧
    (text + dataSize + syms + 1024) % 2 ^ 32 ≤ d.size.toNat

/-- `do_execve` up to the header: the inode, and the buffer of its first block. -/
def openProgram (i : Nat) : Call C (Int × Option (MInode × Bh)) := do
  let t ← getTask
  let h ← getInode i
  match execCheck t h.disk with
  | some e =>
    iput i
    return (-e, none)
  | none =>
    let bh ← bread h.dev ((h.disk.zone 0).zeroExtend 32)
    return (0, some (h, bh))

/-- The end of `do_execve`, for a file that is no script; `room` is whether the arguments fit. -/
def startProgram (room : Bool) (i : Nat) (h : MInode) (bh : Bh) : Call C Int := do
  let data ← getBytes bh
  brelse bh
  if ¬ isProgram data h.disk then
    iput i
    return -enoexec
  else if room = false then
    iput i
    return -enomem
  else
    let t ← getTask
    iputOpt t.executable
    editTask fun t => { t with executable := some i }
    return 0

/-- `do_execve` from `restart_interp` on; so many scripts are interpreted. -/
def execFile (room : Bool) : Nat → Nat → Call C Int
  | 0, i => do
    match ← openProgram i with
    | (e, none) => return e
    | (_, some (h, bh)) => startProgram room i h bh
  | bangs + 1, i => do
    match ← openProgram i with
    | (e, none) => return e
    | (_, some (h, bh)) =>
      let data ← getBytes bh
      if data 0 = 35 ∧ data 1 = 33 then
        brelse bh
        iput i
        match interpreter data with
        | none => return -enoexec
        | some interp =>
          if room = false then return -enomem
          else
            match ← namei interp with
            | none => return -enoent
            | some i => execFile room bangs i
      else startProgram room i h bh

/-- `do_execve`, as far as the file system goes. -/
def execLookup (filename : List Byte) (room : Bool) : Call C Int := do
  match ← namei filename with
  | none => return -enoent
  | some i => execFile room 1 i

/-! ## Reading and writing (`file_dev.c`, `block_dev.c`) -/

/-- An open file, `struct file`. -/
structure File where
  inode : Nat
  flags : BitVec 32
  pos : Nat

/-- The bytes of a block with `n` of them replaced. -/
def patch (data : Nat → Byte) (from' n : Nat) (buf : Nat → Byte) (k : Nat) : Byte :=
  if from' ≤ k ∧ k < from' + n then buf (k - from') else data k

/-- The loop of `file_read` for `left` bytes; `n` bounds the rounds. -/
def readLoop (i : Nat) : Nat → Nat → Nat → Call C (List Byte)
  | 0, _, _ => return []
  | n + 1, pos, left =>
    if left = 0 then return []
    else do
      let chars := min (1024 - pos % 1024) left
      let nr ← getDiskBlock i (pos / 1024)
      if nr = 0 then
        let rest ← readLoop i n (pos + chars) (left - chars)
        return List.replicate chars 0 ++ rest
      else
        let h ← getInode i
        let bh ← bread h.dev (nr.zeroExtend 32)
        let data ← getBytes bh
        brelse bh
        let rest ← readLoop i n (pos + chars) (left - chars)
        return (List.range chars).map (fun k => data (pos % 1024 + k)) ++ rest

/-- `file_read`. -/
def fileRead (file : File) (count : Nat) : Call C (List Byte) :=
  readLoop file.inode count file.pos count

/-- `inode->i_size = pos`, if the file grows. -/
def growFile (i pos : Nat) : Call C Unit := do
  let h ← getInode i
  when (h.disk.size.toNat < pos)
    (editInode i (MInode.mark fun d => { d with size := BitVec.ofNat 32 pos }))

/-- The loop of `file_write`, after `done` bytes; `n` bounds the rounds. The position, and how much is
written. -/
def writeLoop (i : Nat) (buf : Nat → Byte) (count : Nat) : Nat → Nat → Nat → Call C (Nat × Nat)
  | 0, pos, done => return (pos, done)
  | n + 1, pos, done =>
    if count ≤ done then return (pos, done)
    else do
      let block ← createDiskBlock i (pos / 1024)
      if block = 0 then return (pos, done)
      else
        let h ← getInode i
        let bh ← bread h.dev (block.zeroExtend 32)
        let c := min (1024 - pos % 1024) (count - done)
        growFile i (pos + c)
        let data ← getBytes bh
        setBytes bh (patch data (pos % 1024) c fun k => buf (done + k))
        brelse bh
        writeLoop i buf count n (pos + c) (done + c)

/-- `file_write`: the result, and the new position. From a size of 2 GB on `pos` is negative under `O_APPEND`
and `_bmap` panics, as it does here. The exception are sizes from 2^32 - 1023 on, where `pos/BLOCK_SIZE` is 0
and the store goes to the memory in front of the buffer; no file that this kernel writes comes near them. -/
def fileWrite (file : File) (buf : Nat → Byte) (count : Nat) : Call C (Int × Nat) := do
  let h ← getInode file.inode
  let append := decide (file.flags &&& oAppend ≠ 0)
  let start := if append then h.disk.size.toNat else file.pos
  let (pos, done) ← writeLoop file.inode buf count count start 0
  touch file.inode false
  return (if done ≠ 0 then done else -1, if append then file.pos else pos)

/-- The loop of `block_read`; `n` bounds the rounds. -/
def blockReadFrom (dev : Dev) : Nat → Block → Nat → Nat → Call C (List Byte)
  | 0, _, _, _ => return []
  | n + 1, block, offset, count =>
    if count = 0 then return []
    else do
      let chars := min (1024 - offset) count
      let bh ← breada dev block
      let data ← getBytes bh
      brelse bh
      let rest ← blockReadFrom dev n (block + 1) 0 (count - chars)
      return (List.range chars).map (fun k => data (offset + k)) ++ rest

/-- `block_read`, with an `unsigned long` for the position. -/
def blockRead (dev : Dev) (pos count : Nat) : Call C (List Byte) :=
  blockReadFrom dev count (BitVec.ofNat 32 pos >>> 10) (pos % 1024) count

/-- The buffer to write `chars` bytes to; a whole block need not be read. -/
def blockFor (dev : Dev) (block : Block) (chars : Nat) : Call C Bh :=
  if chars = 1024 then getblk dev block else breada dev block

/-- The loop of `block_write`, after `written` bytes; `n` bounds the rounds. -/
def blockWriteFrom (dev : Dev) (buf : Nat → Byte) : Nat → Block → Nat → Nat → Nat → Call C Nat
  | 0, _, _, _, written => return written
  | n + 1, block, offset, count, written =>
    if count = 0 then return written
    else do
      let chars := min (1024 - offset) count
      let bh ← blockFor dev block chars
      let data ← getBytes bh
      setBytes bh (patch data offset chars fun k => buf (written + k))
      brelse bh
      blockWriteFrom dev buf n (block + 1) 0 (count - chars) (written + chars)

/-- `block_write`, with a `long` for the position: the shift keeps its sign. -/
def blockWrite (dev : Dev) (buf : Nat → Byte) (pos count : Nat) : Call C Nat :=
  blockWriteFrom dev buf count ((BitVec.ofNat 32 pos).sshiftRight 10) (pos % 1024) count 0

/-- `sys_read` from an open file: the result, or what a pipe or a terminal gives. -/
def sysRead (file : File) (count : Int) (io : Int × List Byte) : Call C (Int × List Byte) := do
  if count < 0 then return (-einval, [])
  else if count = 0 then return (0, [])
  else
    let h ← getInode file.inode
    if h.pipe ∨ h.disk.isChr then return io
    else if h.disk.isBlk then
      let bytes ← blockRead (h.disk.zone 0) file.pos count.toNat
      return (bytes.length, bytes)
    else if h.disk.isDir ∨ h.disk.isReg then
      let left := min count.toNat (h.disk.size.toNat - file.pos)
      if left = 0 then return (0, [])
      else
        let bytes ← fileRead file left
        return (bytes.length, bytes)
    else return (-einval, [])

/-- `sys_write` to an open file, with the new position. -/
def sysWrite (file : File) (count : Int) (buf : Nat → Byte) (io : Int) : Call C (Int × Nat) := do
  if count < 0 then return (-einval, file.pos)
  else if count = 0 then return (0, file.pos)
  else
    let h ← getInode file.inode
    if h.pipe ∨ h.disk.isChr then return (io, file.pos)
    else if h.disk.isBlk then
      let written ← blockWrite (h.disk.zone 0) buf file.pos count.toNat
      return (written, file.pos + written)
    else if h.disk.isReg then fileWrite file buf count.toNat
    else return (-einval, file.pos)

/-! ## The calls, with what they return left out -/

inductive SysCall
  | open (filename : List Byte) (flag : BitVec 32) (mode : BitVec 16) (free : Bool)
  | creat (filename : List Byte) (mode : BitVec 16) (free : Bool)
  | mkdir (pathname : List Byte) (mode : BitVec 16)
  | rmdir (name : List Byte)
  | unlink (name : List Byte)
  | link (oldname newname : List Byte)
  | mknod (filename : List Byte) (mode dev : BitVec 16)
  | stat (filename : List Byte)
  | chdir (filename : List Byte)
  | exec (filename : List Byte) (room : Bool)
  | read (file : File) (count : Int) (io : Int × List Byte)
  | write (file : File) (count : Int) (buf : Nat → Byte) (io : Int)

/-- A call without its result. -/
def forget {α : Type} (x : Call C α) : Call C Unit := do
  let _ ← x
  return ()

def SysCall.run : SysCall → Call C Unit
  | .open filename flag mode free => forget (sysOpen filename flag mode free)
  | .creat filename mode free => forget (sysCreat filename mode free)
  | .mkdir pathname mode => forget (sysMkdir pathname mode)
  | .rmdir name => forget (sysRmdir name)
  | .unlink name => forget (sysUnlink name)
  | .link oldname newname => forget (sysLink oldname newname)
  | .mknod filename mode dev => forget (sysMknod filename mode dev)
  | .stat filename => forget (sysStat filename)
  | .chdir filename => forget (sysChdir filename)
  | .exec filename room => forget (execLookup filename room)
  | .read file count io => forget (sysRead file count io)
  | .write file count buf io => forget (sysWrite file count buf io)

end Linux011.FileSys
