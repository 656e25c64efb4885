import Linux011.Files.Kernel

/-!
# Opening a file (`open_namei` and `sys_open`)

`open_namei` finds the inode, or creates it; `sys_open` reserves a descriptor and an entry of
`file_table` first and fills the entry in when the inode is there. The permission check is made here
and nowhere else.
-/

namespace Linux011.Files

open Fs (Id Byte Block MInode DirEntry)
open Inode (Dev)

/-- What the disk has room for: the number that `new_inode` takes, and the block that a directory
grows by, 0 if there is none. -/
structure Room where
  inode : Option Inode.Num
  block : Block

/-! ## `new_inode` -/

/-- `new_inode`, with the number whose bit it finds clear. Such a number belongs to no file, and
nobody refers to it. -/
def newInode (me : Fs.Task) (v : Volume) (dev : Dev) (n : Inode.Num) : Option (Id × Volume) :=
  let i : Id := ⟨dev, n⟩
  if dev = 0 ∨ n = 0 ∨ v.fs.count i ≠ 0 ∨ (v.fs.inode i).nlinks ≠ 0 then none
  else
    let h : MInode := { MInode.zero with nlinks := 1, uid := me.euid, gid := me.egid.setWidth 8 }
    let fs := { v.fs with inode := Function.update v.fs.inode i h }
    some (i, ⟨fs.hold i, Function.update v.data i fun _ => 0⟩)

/-! ## `add_entry` -/

/-- Write the directory entry at place `e` of a block. -/
def setEntry (fs : Fs.State) (dev : Dev) (block : Block) (e : Nat) (de : DirEntry) : Fs.State :=
  { fs with dirBlock := fun d b n =>
      if d = dev ∧ b = block ∧ n = e then de else fs.dirBlock d b n }

/-- The entry that `add_entry` leaves: a name of 14 bytes at most, and no inode yet. -/
def newEntry (name : List Byte) : DirEntry := ⟨0, fun i => if i < 14 then name.getD i 0 else 0⟩

/-- `create_diskBlock` on a directory, with the block that `new_block` returns. -/
def dirBlockOf (fs : Fs.State) (dir : Id) (b : Nat) (fresh : Block) : Block × Fs.State :=
  let h := fs.inode dir
  if h.zone b = 0 then
    if fresh = 0 then (0, fs)
    else
      (fresh, { fs with
        inode := Function.update fs.inode dir { h with zone := Function.update h.zone b fresh }
        dirBlock := fun d c n =>
          if d = dir.dev ∧ c = fresh then ⟨0, fun _ => 0⟩ else fs.dirBlock d c n })
  else (h.zone b, fs)

/-- The buffer that entry `i` is in: at the end of a block, that of the next one. -/
def nextBlock (dir : Id) (fresh : Block) (fs : Fs.State) (i : Nat) (bh : Option Block) :
    Option Block × Fs.State :=
  if i % 64 = 0 ∧ i ≠ 0 then
    let fs := (bh.map (fs.brelse dir.dev)).getD fs
    let r := dirBlockOf fs dir (i / 64) fresh
    if r.1 = 0 then (none, r.2) else (some r.1, r.2.bread dir.dev r.1)
  else (bh, fs)

/-- An entry behind the end of the directory is cleared, and belongs to it from now on. -/
def growDir (dir : Id) (fs : Fs.State) (i : Nat) (block : Block) : Fs.State :=
  let h := fs.inode dir
  if h.size ≤ i * 16 then
    let de := fs.dirBlock dir.dev block (i % 64)
    { setEntry fs dir.dev block (i % 64) { de with inodenr := 0 } with
      inode := Function.update fs.inode dir { h with size := (i + 1) * 16 } }
  else fs

/-- The loop of `add_entry` from entry `i` on, with the buffer of the block it is in; the place of
the new entry, or nothing if the disk is full. `n` bounds the rounds. -/
def addLoop (dir : Id) (name : List Byte) (fresh : Block) :
    Nat → Fs.State → Nat → Option Block → Option (Option (Block × Nat) × Fs.State)
  | 0, _, _, _ => none
  | n + 1, fs, i, bh =>
    match nextBlock dir fresh fs i bh with
    | (none, fs) => some (none, fs)
    | (some block, fs) =>
      let fs := growDir dir fs i block
      if (fs.dirBlock dir.dev block (i % 64)).inodenr = 0 then
        some (some (block, i % 64), setEntry fs dir.dev block (i % 64) (newEntry name))
      else addLoop dir name fresh n fs (i + 1) (some block)

/-- `add_entry`; the buffer of the entry is in use. -/
def addEntry (fs : Fs.State) (dir : Id) (name : List Byte) (fresh : Block) :
    Option (Option (Block × Nat) × Fs.State) :=
  if name = [] then some (none, fs)
  else
    let block := (fs.inode dir).zone 0
    if block = 0 then some (none, fs)
    else addLoop dir name fresh ((fs.inode dir).size / 16 + 2) (fs.bread dir.dev block) 0 (some block)

/-! ## `open_namei` -/

/-- `ACC_MODE`: the byte of `"\004\002\006\377"`, as a signed `char`. -/
def accMode (flag : BitVec 32) : BitVec 32 :=
  if flag &&& oAccMode = 0 then 4
  else if flag &&& oAccMode = 1 then 2
  else if flag &&& oAccMode = 2 then 6
  else -1

/-- `O_TRUNC` alone asks for writing. -/
def effective (flag : BitVec 32) : BitVec 32 :=
  if flag &&& oTrunc ≠ 0 ∧ flag &&& oAccMode = 0 then flag ||| oWrOnly else flag

/-- The file does not exist: `open_namei` creates it. -/
def createFile (me : Fs.Task) (v : Volume) (dir : Id) (basename : List Byte)
    (flag : BitVec 32) (mode : BitVec 16) (room : Room) :
    Option ((Int ⊕ Id × Opened) × Volume) :=
  if effective flag &&& oCreat = 0 then some (.inl (-enoent), { v with fs := v.fs.iput dir })
  else if ¬ Fs.permission me dir (v.fs.inode dir) Fs.mayWrite then
    some (.inl (-eacces), { v with fs := v.fs.iput dir })
  -- `new_inode` takes an entry of the table before it looks for a number
  else if ¬ v.fs.room then none
  else
    match room.inode with
    | none => some (.inl (-enospc), { v with fs := v.fs.iput dir })
    | some n =>
      (newInode me v dir.dev n).bind fun (i, v) =>
        let v := v.setInode i { v.fs.inode i with uid := me.euid, mode := mode }
        (addEntry v.fs dir basename room.block).map fun (place, fs) =>
          match place with
          | none =>
            let h := fs.inode i
            let v := ({ v with fs := fs } : Volume).setInode i { h with nlinks := h.nlinks - 1 }
            (.inl (-enospc), { v with fs := (v.fs.iput i).iput dir })
          | some (block, e) =>
            let de := fs.dirBlock dir.dev block e
            let fs := setEntry fs dir.dev block e { de with inodenr := i.num }
            (.inr (i, ⟨flag, true, none⟩),
              { v with fs := (fs.brelse dir.dev block).iput dir })

/-- The file exists: `open_namei` checks the permissions, and empties the file if it is told to. -/
def openFile (me : Fs.Task) (v : Volume) (dir : Id) (block : Block) (de : DirEntry)
    (flag : BitVec 32) : Option ((Int ⊕ Id × Opened) × Volume) :=
  let fs := (v.fs.brelse dir.dev block).iput dir
  if effective flag &&& oExcl ≠ 0 then some (.inl (-eexist), { v with fs := fs })
  else
    (Fs.iget 9 fs ⟨dir.dev, de.inodenr⟩).map fun (i, fs) =>
      let v := { v with fs := fs }
      let h := fs.inode i
      if (h.isDir ∧ effective flag &&& oAccMode ≠ 0) ∨
          ¬ Fs.permission me i h (accMode (effective flag)) then
        (.inl (-eperm), { v with fs := fs.iput i })
      else
        (.inr (i, ⟨flag, false, some (accMode (effective flag))⟩),
          if effective flag &&& oTrunc ≠ 0 then v.truncate i else v)

/-- `open_namei`: the error, or the inode. -/
def openNamei (me : Fs.Task) (umask : BitVec 16) (v : Volume) (pathname : List Byte)
    (flag : BitVec 32) (mode : BitVec 16) (room : Room) :
    Option ((Int ⊕ Id × Opened) × Volume) :=
  match Fs.dirNamei me v.fs pathname with
  | none => none
  | some (none, fs) => some (.inl (-enoent), { v with fs := fs })
  | some (some (dir, basename), fs) =>
    let v := { v with fs := fs }
    -- special case: '/usr/' etc
    if basename.length = 0 then
      if effective flag &&& (oAccMode ||| oCreat ||| oTrunc) = 0 then
        some (.inr (dir, ⟨flag, false, none⟩), v)
      else some (.inl (-eisdir), { v with fs := fs.iput dir })
    else
      match Fs.findEntry me fs dir basename basename.length with
      | (dir, none, fs) =>
        createFile me { v with fs := fs } dir basename flag
          (mode &&& (0o777 &&& ~~~umask) ||| 0o100000) room
      | (dir, some (block, de), fs) => openFile me { v with fs := fs } dir block de flag

/-! ## `sys_open` -/

/-- A terminal is opened: the leader of a session gets it; `/dev/tty` is there only for a task with a
terminal. The device is `i_zone[0]`. -/
def openTty (t : Task) (dev : BitVec 16) : Option Task :=
  if major dev = 4 then
    some (if t.leader ∧ t.tty < 0 then { t with tty := minor dev } else t)
  else if major dev = 5 ∧ t.tty < 0 then none
  else some t

/-- The task with descriptor `fd` reserved for entry `f`. -/
def Kernel.reserve (k : Kernel) (cur : Fin 64) (t : Task) (fd : Fin 20) (f : Fin 64) : Kernel :=
  (k.setTask cur (t.setFilp fd (some f))).setFile f
    { k.file f with count := (k.file f).count + 1 }

/-- The reservation is given up. -/
def Kernel.giveUp (k : Kernel) (cur : Fin 64) (t : Task) (fd : Fin 20) (f : Fin 64) : Kernel :=
  (k.setTask cur (t.setFilp fd none)).setFile f { k.file f with count := 0 }

/-- `sys_open`. -/
def sysOpen (k : Kernel) (cur : Fin 64) (pathname : List Byte) (flag : BitVec 32)
    (mode : BitVec 16) (room : Room) : Option (Int × Kernel) :=
  (k.task cur).bind fun t =>
    match t.freeFd 0 with
    | none => some (-einval, k)
    | some fd =>
      let t := t.clearExec fd
      let k := k.setTask cur t
      match k.freeFiles.head? with
      | none => some (-einval, k)
      | some f =>
        let k := k.reserve cur t fd f
        t.names.bind fun me =>
          (openNamei me t.umask k.vol pathname flag (mode &&& (0o777 &&& ~~~t.umask)) room).map
            fun (res, v) =>
              let k := { k with vol := v }
              match res with
              | .inl e => (e, k.giveUp cur t fd f)
              | .inr (i, opened) =>
                let h := v.fs.inode i
                match (if isChr h then openTty t (h.zone 0) else some t) with
                | none => (-eperm, (k.setFs (v.fs.iput i)).giveUp cur t fd f)
                | some t =>
                  (fd.val, (k.setTask cur (t.setFilp fd (some f))).setFile f
                    ⟨h.mode, flag.setWidth 16, 1, some i, 0, some opened⟩)

/-- `sys_creat`. -/
def sysCreat (k : Kernel) (cur : Fin 64) (pathname : List Byte) (mode : BitVec 16) (room : Room) :
    Option (Int × Kernel) :=
  sysOpen k cur pathname (oCreat ||| oTrunc) mode room

end Linux011.Files
