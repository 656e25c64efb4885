import Linux011.Fs.Inode

/-!
# Path resolution (`fs/namei.c`)

`namei` and what it calls. A pointer into the path is the rest of the string; its end stands for the
terminating NUL, so a path is a list of bytes none of which is 0.

`find_entry` may exchange the directory it is given, at a mount point; it says so in its result. The
buffer of the entry it finds is in use, until its caller gives it back.
-/

namespace Linux011.Fs

open Inode (Dev)

/-- `match`: the first `len` bytes of `name` are the name of the entry. -/
def matchName (len : Nat) (name : List Byte) (de : DirEntry) : Bool :=
  de.inodenr ≠ 0 ∧ len ≤ 14 ∧ (len < 14 → de.name len = 0) ∧
    ∀ i < len, name.getD i 0 = de.name i

/-- The loop of `find_entry` over the entries of directory `dir`, from entry `i` on, with the buffer
of the block; `n` bounds the rounds. A block that is not there is skipped. -/
def scan (dir : MInode) (dev : Dev) (entries len : Nat) (name : List Byte) :
    Nat → Nat → Option Block → State → Option (Block × DirEntry) × State
  | 0, _, bh, fs => (none, (bh.map (fs.brelse dev)).getD fs)
  | n + 1, i, bh, fs =>
    if entries ≤ i then (none, (bh.map (fs.brelse dev)).getD fs)
    else if i % 64 = 0 ∧ i ≠ 0 then
      let fs := (bh.map (fs.brelse dev)).getD fs
      let block := dir.zone (i / 64)
      if block = 0 then scan dir dev entries len name n (i + 64) none fs
      else
        let fs := fs.bread dev block
        let de := fs.dirBlock dev block 0
        if matchName len name de then (some (block, de), fs)
        else scan dir dev entries len name n (i + 1) (some block) fs
    else
      match bh with
      | none => (none, fs)
      | some block =>
        let de := fs.dirBlock dev block (i % 64)
        if matchName len name de then (some (block, de), fs)
        else scan dir dev entries len name n (i + 1) (some block) fs

/-- The inode that `..` in the root of a mounted file system stands for. -/
def mountPoint (fs : State) (dir : Id) : Option Id :=
  if dir.num = 1 then (checkInSuperb fs dir.dev).bind SuperBlock.inodeMount else none

/-- The check of `find_entry` for `..`: the directory to look in, and the length of the name. In a
pseudo-root it is a faked `.`; over a mount point the directory is exchanged. -/
def dotdot (t : Task) (fs : State) (dir : Id) (name : List Byte) (namelen : Nat) :
    Id × Nat × State :=
  if namelen = 2 ∧ name.getD 0 0 = 46 ∧ name.getD 1 0 = 46 then
    if dir = t.root then (dir, 1, fs)
    else
      match mountPoint fs dir with
      | some m => (m, namelen, (fs.iput dir).hold m)
      | none => (dir, namelen, fs)
  else (dir, namelen, fs)

/-- The search of `find_entry` through the blocks of the directory. -/
def findIn (fs : State) (dir : Id) (entries len : Nat) (name : List Byte) :
    Option (Block × DirEntry) × State :=
  let block := (fs.inode dir).zone 0
  if block = 0 then (none, fs)
  else
    scan (fs.inode dir) dir.dev entries len name entries 0 (some block) (fs.bread dir.dev block)

/-- `find_entry`: the directory it has looked in, and the entry with the block it is in. The number
of entries is that of the directory it is called with. -/
def findEntry (t : Task) (fs : State) (dir : Id) (name : List Byte) (namelen : Nat) :
    Id × Option (Block × DirEntry) × State :=
  let namelen := if namelen > 14 then 14 else namelen
  let entries := (fs.inode dir).size / 16
  if namelen = 0 then (dir, none, fs)
  else
    let (dir, namelen, fs) := dotdot t fs dir name namelen
    (dir, findIn fs dir entries namelen name)

/-- What a caller of `find_entry` does with the entry it finds: it gives the buffer and the
directory back and gets the inode. -/
def follow (fs : State) (dir : Id) (block : Block) (de : DirEntry) : Option (Id × State) :=
  iget 9 ((fs.brelse dir.dev block).iput dir) ⟨dir.dev, de.inodenr⟩

/-- The length of the name that a path begins with: up to a slash or the end. -/
def nameLen : List Byte → Nat
  | [] => 0
  | c :: p => if c = 47 then 0 else nameLen p + 1

/-- The loop of `get_dir_inode`; `n` bounds the rounds. -/
def getDirLoop (t : Task) : Nat → State → Id → List Byte → Option (Option Id × State)
  | 0, _, _, _ => none
  | n + 1, fs, inode, pathname =>
    if ¬ (fs.inode inode).isDir ∨ ¬ permission t inode (fs.inode inode) mayExec then
      some (none, fs.iput inode)
    else
      let namelen := nameLen pathname
      if pathname.length ≤ namelen then some (some inode, fs)
      else
        match findEntry t fs inode pathname namelen with
        | (inode, none, fs) => some (none, fs.iput inode)
        | (inode, some (block, de), fs) =>
          match follow fs inode block de with
          | none => none
          | some (inode, fs) => getDirLoop t n fs inode (pathname.drop (namelen + 1))

/-- `get_dir_inode`; `none` when it does not return, or panics because nobody refers to the root or to
the working directory. -/
def getDirInode (t : Task) (fs : State) (pathname : List Byte) : Option (Option Id × State) :=
  if fs.count t.root = 0 ∨ fs.count t.pwd = 0 then none
  else
    match pathname with
    | [] => some (none, fs)
    | c :: p =>
      if c = 47 then getDirLoop t (p.length + 1) (fs.hold t.root) t.root p
      else getDirLoop t (pathname.length + 1) (fs.hold t.pwd) t.pwd pathname

/-- The loop of `dir_namei` that looks for the last slash. -/
def baseName : List Byte → List Byte → List Byte
  | [], basename => basename
  | c :: pathname, basename => baseName pathname (if c = 47 then pathname else basename)

/-- `dir_namei`: the directory, and the rest of the path from the last name on. -/
def dirNamei (t : Task) (fs : State) (pathname : List Byte) :
    Option (Option (Id × List Byte) × State) :=
  (getDirInode t fs pathname).map fun (node, fs) =>
    (node.map fun dir => (dir, baseName pathname pathname), fs)

/-- `namei`. -/
def namei (t : Task) (fs : State) (pathname : List Byte) : Option (Option Id × State) :=
  match dirNamei t fs pathname with
  | none => none
  | some (none, fs) => some (none, fs)
  | some (some (dir, basename), fs) =>
    let namelen := basename.length
    -- special case: '/usr/' etc
    if namelen = 0 then some (some dir, fs)
    else
      match findEntry t fs dir basename namelen with
      | (dir, none, fs) => some (none, fs.iput dir)
      | (dir, some (block, de), fs) =>
        (follow fs dir block de).map fun (i, fs) => (some i, fs)

end Linux011.Fs
