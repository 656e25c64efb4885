import Linux011.Files.Open

/-!
# The system calls on files

Each call as the current task makes it, with its result and its errors; then the machine whose steps
are these calls, one after another, each of them complete. A task that has exited makes no call.
-/

namespace Linux011.Files

open Fs (Id Byte Block MInode)
open Inode (Dev)

/-! ## Descriptors (`open.c`, `fcntl.c`) -/

/-- `sys_close`. -/
def sysClose (k : Kernel) (cur : Fin 64) (fd : Nat) : Option (Int × Kernel) :=
  (k.task cur).bind fun t =>
    if h : fd < 20 then
      let t := t.clearExec ⟨fd, h⟩
      match t.filp ⟨fd, h⟩ with
      | none => some (-einval, k.setTask cur t)
      | some f =>
        let file := k.file f
        let k := k.setTask cur (t.setFilp ⟨fd, h⟩ none)
        if file.count = 0 then none
        else
          let k := k.setFile f { file with count := file.count - 1 }
          if file.count - 1 ≠ 0 then some (0, k)
          else some (0, k.setFs (iputOpt k.vol.fs file.inode))
    else some (-einval, k)

/-- `dupfd`. -/
def dupfd (k : Kernel) (cur : Fin 64) (fd arg : Nat) : Option (Int × Kernel) :=
  (k.task cur).bind fun t =>
    match t.fd fd with
    | none => some (-ebadf, k)
    | some (_, f) =>
      if 20 ≤ arg then some (-einval, k)
      else
        match t.freeFd arg with
        | none => some (-emfile, k)
        | some n =>
          some (n.val, (k.setTask cur ((t.clearExec n).setFilp n (some f))).setFile f
            { k.file f with count := (k.file f).count + 1 })

/-- `sys_dup2`. -/
def sysDup2 (k : Kernel) (cur : Fin 64) (oldfd newfd : Nat) : Option (Int × Kernel) :=
  (sysClose k cur newfd).bind fun (_, k) => dupfd k cur oldfd newfd

/-- `sys_dup`. -/
def sysDup (k : Kernel) (cur : Fin 64) (fd : Nat) : Option (Int × Kernel) := dupfd k cur fd 0

/-- The commands of `sys_fcntl`; the lock commands are not implemented. -/
inductive Cmd
  | dupfd
  | getfd
  | setfd
  | getfl
  | setfl
  | other

/-- `sys_fcntl`. -/
def sysFcntl (k : Kernel) (cur : Fin 64) (fd : Nat) (cmd : Cmd) (arg : BitVec 32) :
    Option (Int × Kernel) :=
  (k.task cur).bind fun t =>
    match t.fd fd with
    | none => some (-ebadf, k)
    | some (n, f) =>
      match cmd with
      | .dupfd => dupfd k cur fd arg.toNat
      | .getfd => some (if t.closeOnExec n then 1 else 0, k)
      | .setfd =>
        let bit : Bool := arg &&& 1 ≠ 0
        some (0, k.setTask cur { t with closeOnExec := Function.update t.closeOnExec n bit })
      | .getfl => some ((k.file f).flags.toNat, k)
      | .setfl =>
        let mask := (oAppend ||| oNonblock).setWidth 16
        let flags := (k.file f).flags &&& ~~~mask ||| arg.setWidth 16 &&& mask
        some (0, k.setFile f { k.file f with flags := flags })
      | .other => some (-1, k)

/-- `sys_pipe`, with the inode that `get_pipe_inode` finds, if there is a page; without an entry of the
inode table it panics. What it has reserved when it fails it gives back. -/
def sysPipe (k : Kernel) (cur : Fin 64) (inode : Option Inode.Num) : Option (Int × Kernel) :=
  (k.task cur).bind fun t =>
    match k.freeFiles, (List.finRange 20).filter fun fd => t.filp fd = none with
    | f0 :: f1 :: _, fd0 :: fd1 :: _ =>
      if ¬ k.vol.fs.room then none
      else
        match inode with
        | none => some (-1, k)
        | some n =>
          let i : Id := ⟨0, n⟩
          if k.vol.fs.count i ≠ 0 then none
          else
            let v := k.vol.setInode i .zero
            let k := { k with vol := { v with fs := (v.fs.hold i).hold i } }
            let k := k.setTask cur ((t.setFilp fd0 (some f0)).setFilp fd1 (some f1))
            let k := k.setFile f0
              { k.file f0 with mode := 1, count := 1, inode := some i, pos := 0, opened := none }
            some (0, k.setFile f1
              { k.file f1 with mode := 2, count := 1, inode := some i, pos := 0, opened := none })
    | _, _ => some (-1, k)

/-! ## Tasks (`fork.c`, `exec.c`, `exit.c`) -/

/-- The loop of `copy_process` over the descriptors. -/
def shareFiles (file : Fin 64 → File) (filp : Fin 20 → Option (Fin 64)) : Fin 64 → File :=
  (List.finRange 20).foldl (fun file fd =>
    match filp fd with
    | some f => Function.update file f { file f with count := (file f).count + 1 }
    | none => file) file

/-- `copy_process` for the slot that `find_empty_process` finds. -/
def sysFork (k : Kernel) (cur : Fin 64) (pid : Nat) (memory : Bool) : Option (Int × Kernel) :=
  (k.task cur).bind fun t =>
    match (List.finRange 64).find? fun nr => nr ≠ 0 ∧ (k.task nr).isNone with
    | none => some (-eagain, k)
    | some nr =>
      if ¬ memory then some (-eagain, k)
      else
        let fs := holdOpt (holdOpt (holdOpt k.vol.fs t.pwd) t.root) t.executable
        some (pid, { (k.setFs fs).setTask nr { t with leader := false } with
          file := shareFiles k.file t.filp })

/-- Close the descriptors that satisfy `p`, in order. -/
def closeIf (p : Task → Fin 20 → Bool) (k : Kernel) (cur : Fin 64) : Option Kernel :=
  (List.finRange 20).foldlM (fun k fd => (k.task cur).bind fun t =>
    if p t fd then (sysClose k cur fd).map Prod.snd else some k) k

/-- What `do_execve` finds in a file that may be executed: no program, a script with its interpreter
(or nothing to run it with), or a program. -/
inductive Image
  | refused (e : Int)
  | script (interp : Except Int (List Byte))
  | program

/-- The checks of `do_execve` on the inode. -/
def execCheck (t : Task) (h : MInode) : Option Int :=
  if ¬ h.isReg then some eacces
  else
    let i := if t.euid = h.uid then h.mode >>> 6
      else if t.egid = h.gid.setWidth 16 then h.mode >>> 3
      else h.mode
    if i &&& 1 = 0 ∧ ¬ (h.mode &&& 0o111 ≠ 0 ∧ t.euid = 0) then some enoexec else none

/-- The point of no return: the task runs program `i`. -/
def startProgram (k : Kernel) (cur : Fin 64) (t : Task) (i : Id) : Option (Int × Kernel) :=
  let h := k.vol.fs.inode i
  let euid := if h.mode &&& 0o4000 ≠ 0 then h.uid else t.euid
  let egid := if h.mode &&& 0o2000 ≠ 0 then h.gid.setWidth 16 else t.egid
  let k := (k.setFs (iputOpt k.vol.fs t.executable)).setTask cur { t with executable := some i }
  (closeIf Task.closeOnExec k cur).bind fun k =>
    (k.task cur).map fun t =>
      (0, k.setTask cur { t with closeOnExec := fun _ => false, euid := euid, egid := egid })

/-- `do_execve`, with what it finds in the files; a script's interpreter cannot be a script. -/
def execLoop (cur : Fin 64) (t : Task) (me : Fs.Task) :
    List Image → Kernel → List Byte → Option (Int × Kernel)
  | [], _, _ => none
  | image :: images, k, filename =>
    (Fs.namei me k.vol.fs filename).bind fun (r, fs) =>
      match r with
      | none => some (-enoent, k.setFs fs)
      | some i =>
        match execCheck t (fs.inode i) with
        | some e => some (-e, k.setFs (fs.iput i))
        | none =>
          match image with
          | .refused e => some (-e, k.setFs (fs.iput i))
          | .program => startProgram (k.setFs fs) cur t i
          | .script interp =>
            if images = [] then some (-enoexec, k.setFs (fs.iput i))
            else
              match interp with
              | .error e => some (-e, k.setFs (fs.iput i))
              | .ok interp => execLoop cur t me images (k.setFs (fs.iput i)) interp

def sysExecve (k : Kernel) (cur : Fin 64) (filename : List Byte) (image interp : Image) :
    Option (Int × Kernel) :=
  (k.task cur).bind fun t => t.names.bind fun me =>
    execLoop cur t me [image, interp] k filename

/-- `do_exit`; a task without a father is released at once. -/
def sysExit (k : Kernel) (cur : Fin 64) (orphan : Bool) : Option (Int × Kernel) :=
  (closeIf (fun t fd => (t.filp fd).isSome) k cur).bind fun k =>
    (k.task cur).bind fun t =>
      let k := k.setFs (iputOpt (iputOpt (iputOpt k.vol.fs t.pwd) t.root) t.executable)
      if orphan then
        if cur = 0 then none else some (-1, { k with task := Function.update k.task cur none })
      else
        some (-1, k.setTask cur
          { t with pwd := none, root := none, executable := none, zombie := true })

/-! ## Directories (`open.c`) -/

/-- `sys_chdir` and `sys_chroot`: the directory that the task has, and the change. -/
def changeDir (old : Task → Option Id) (change : Task → Id → Task) (k : Kernel) (cur : Fin 64)
    (filename : List Byte) : Option (Int × Kernel) :=
  (k.task cur).bind fun t => t.names.bind fun me =>
    (Fs.namei me k.vol.fs filename).map fun (r, fs) =>
      match r with
      | none => (-enoent, k.setFs fs)
      | some i =>
        if ¬ (fs.inode i).isDir then (-enotdir, k.setFs (fs.iput i))
        else (0, (k.setFs (iputOpt fs (old t))).setTask cur (change t i))

def sysChdir : Kernel → Fin 64 → List Byte → Option (Int × Kernel) :=
  changeDir Task.pwd fun t i => { t with pwd := some i }

def sysChroot : Kernel → Fin 64 → List Byte → Option (Int × Kernel) :=
  changeDir Task.root fun t i => { t with root := some i }

/-! ## Mounts (`super.c`) -/

/-- The super block of a device, by its index. -/
def superOf (fs : Fs.State) (dev : Dev) : Option Nat :=
  if dev = 0 then none else (List.range 8).find? fun s => (fs.superBlock s).dev = dev

/-- Write a super block. -/
def Kernel.setSuper (k : Kernel) (s : Nat) (sb : Fs.SuperBlock) (inodeSuper : Option Id) : Kernel :=
  { k.setFs { k.vol.fs with superBlock := Function.update k.vol.fs.superBlock s sb } with
    inodeSuper := Function.update k.inodeSuper s inodeSuper }

/-- `i_mount = b`. -/
def setMount (fs : Fs.State) (i : Id) (b : Bool) : Fs.State :=
  { fs with inode := Function.update fs.inode i { fs.inode i with mount := b } }

/-- `read_super`; whether the device has a file system is for the disk to say. -/
def readSuper (k : Kernel) (dev : Dev) (readable : Bool) : Option Nat × Kernel :=
  if dev = 0 then (none, k)
  else
    match superOf k.vol.fs dev with
    | some s => (some s, k)
    | none =>
      match (List.range 8).find? fun s => (k.vol.fs.superBlock s).dev = 0 with
      | none => (none, k)
      | some s =>
        if readable then (some s, k.setSuper s ⟨dev, none⟩ none)
        else (none, k.setSuper s ⟨0, none⟩ none)

/-- The end of `sys_mount`, for the directory: it keeps the reference. -/
def mountOn (k : Kernel) (dir : Id) (dev : Dev) (readable : Bool) : Int × Kernel :=
  let fs := k.vol.fs
  if fs.count dir ≠ 1 ∨ dir.num = 1 then (-ebusy, k.setFs (fs.iput dir))
  else if ¬ (fs.inode dir).isDir then (-eperm, k.setFs (fs.iput dir))
  else
    match readSuper k dev readable with
    | (none, k) => (-ebusy, k.setFs (k.vol.fs.iput dir))
    | (some s, k) =>
      let sb := k.vol.fs.superBlock s
      if sb.inodeMount.isSome then (-ebusy, k.setFs (k.vol.fs.iput dir))
      else if (k.vol.fs.inode dir).mount then (-eperm, k.setFs (k.vol.fs.iput dir))
      else
        (0, (k.setFs (setMount k.vol.fs dir true)).setSuper s
          { sb with inodeMount := some dir } (k.inodeSuper s))

/-- `sys_mount`. -/
def sysMount (k : Kernel) (cur : Fin 64) (devName dirName : List Byte) (readable : Bool) :
    Option (Int × Kernel) :=
  (k.task cur).bind fun t => t.names.bind fun me =>
    (Fs.namei me k.vol.fs devName).bind fun (r, fs) =>
      match r with
      | none => some (-enoent, k.setFs fs)
      | some i =>
        let dev := (fs.inode i).zone 0
        if ¬ isBlk (fs.inode i) then some (-eperm, k.setFs (fs.iput i))
        else
          (Fs.namei me (fs.iput i) dirName).map fun (r, fs) =>
            match r with
            | none => (-enoent, k.setFs fs)
            | some dir => mountOn (k.setFs fs) dir dev readable

/-- Somebody refers to an inode of the device. -/
def inUse (fs : Fs.State) (dev : Dev) : Bool :=
  (List.range 65536).any fun n => fs.count ⟨dev, BitVec.ofNat 16 n⟩ ≠ 0

/-- The end of `sys_umount`, for a super block that is mounted on `dir`. -/
def umountFrom (k : Kernel) (s : Nat) (dir : Id) : Kernel :=
  let fs := setMount k.vol.fs dir false
  (k.setFs (iputOpt (fs.iput dir) (k.inodeSuper s))).setSuper s ⟨0, none⟩ none

/-- `sys_umount`. -/
def sysUmount (k : Kernel) (cur : Fin 64) (devName : List Byte) : Option (Int × Kernel) :=
  (k.task cur).bind fun t => t.names.bind fun me =>
    (Fs.namei me k.vol.fs devName).map fun (r, fs) =>
      match r with
      | none => (-enoent, k.setFs fs)
      | some i =>
        let dev := (fs.inode i).zone 0
        if ¬ isBlk (fs.inode i) then (-enotblk, k.setFs (fs.iput i))
        else
          let k := k.setFs (fs.iput i)
          if dev = k.rootDev then (-ebusy, k)
          else
            match superOf k.vol.fs dev with
            | none => (-enoent, k)
            | some s =>
              match (k.vol.fs.superBlock s).inodeMount with
              | none => (-enoent, k)
              | some dir =>
                if inUse k.vol.fs dev then (-ebusy, k) else (0, umountFrom k s dir)

/-! ## Reading and writing (`read_write.c`, `file_dev.c`) -/

/-- `IS_SEEKABLE(MAJOR(i_dev))`. -/
def isSeekable (i : Id) : Bool := 1 ≤ major i.dev ∧ major i.dev ≤ 3

/-- `sys_lseek`; `int` and `off_t` have 32 bits. -/
def sysLseek (k : Kernel) (cur : Fin 64) (fd : Nat) (offset : Int) (origin : Nat) :
    Option (Int × Kernel) :=
  (k.task cur).map fun t =>
    match (t.fd fd).bind fun p => (k.file p.2).inode.map fun i => (p.2, i) with
    | none => (-ebadf, k)
    | some (f, i) =>
      if ¬ isSeekable i then (-ebadf, k)
      else if isPipe i then (-espipe, k)
      else
        let target : Option Int :=
          if origin = 0 then some offset
          else if origin = 1 then some (((k.file f).pos + offset).bmod (2 ^ 32))
          else if origin = 2 then some (((k.vol.fs.inode i).size + offset).bmod (2 ^ 32))
          else none
        match target with
        | none => (-einval, k)
        | some pos =>
          if pos < 0 then (-einval, k)
          else (pos, k.setFile f { k.file f with pos := pos.toNat })

/-- `sys_read`: the result and the bytes. For a pipe or a device they are what is there, with the new
position. -/
def sysRead (k : Kernel) (cur : Fin 64) (fd : Nat) (count : Int) (io : Int × List Byte × Nat) :
    Option (Int × List Byte × Kernel) :=
  (k.task cur).bind fun t =>
    match t.fd fd with
    | none => some (-einval, [], k)
    | some (_, f) =>
      if count < 0 then some (-einval, [], k)
      else if count = 0 then some (0, [], k)
      else
        let file := k.file f
        file.inode.bind fun i =>
          let h := k.vol.fs.inode i
          if isPipe i then
            if file.mode &&& 1 ≠ 0 then some (io.1, io.2.1, k) else some (-eio, [], k)
          else if isChr h ∨ isBlk h then some (io.1, io.2.1, k.setFile f { file with pos := io.2.2 })
          else if h.isDir ∨ h.isReg then
            let count := if (h.size : Int) < count + file.pos then (h.size : Int) - file.pos else count
            if count ≤ 0 then some (0, [], k)
            else
              let bytes := (List.range count.toNat).map fun p => k.vol.byteAt i (file.pos + p)
              some (count, bytes, k.setFile f { file with pos := file.pos + count.toNat })
          else some (-einval, [], k)

/-- `file_write` of the `n` bytes that the disk has room for. -/
def fileWrite (v : Volume) (i : Id) (file : File) (buf : Nat → Byte) (n : Nat) :
    Int × File × Volume :=
  let append := file.flags &&& oAppend.setWidth 16 ≠ 0
  let pos := if append then (v.fs.inode i).size else file.pos
  (if n ≠ 0 then n else -1, if append then file else { file with pos := pos + n },
    if n = 0 then v else v.store i pos n buf)

/-- `sys_write`; `fit` is how much of it the disk has room for. `block_write` does not ask whether the
device has a file system; what the drive holds afterwards is `disk`. -/
def sysWrite (k : Kernel) (cur : Fin 64) (fd : Nat) (count : Int) (buf : Nat → Byte)
    (io : Int × Nat) (fit : Nat) (disk : Volume) : Option (Int × Kernel) :=
  (k.task cur).bind fun t =>
    match t.fd fd with
    | none => some (-einval, k)
    | some (_, f) =>
      if count < 0 then some (-einval, k)
      else if count = 0 then some (0, k)
      else
        let file := k.file f
        file.inode.bind fun i =>
          let h := k.vol.fs.inode i
          let moved := k.setFile f { file with pos := io.2 }
          if isPipe i then
            if file.mode &&& 2 ≠ 0 then some (io.1, k) else some (-eio, k)
          else if isChr h then some (io.1, moved)
          else if isBlk h then some (io.1, { moved with vol := k.vol.overwrite (h.zone 0) disk })
          else if h.isReg then
            let r := fileWrite k.vol i file buf (min fit count.toNat)
            some (r.1, { k.setFile f r.2.1 with vol := r.2.2 })
          else some (-einval, k)

/-! ## The machine -/

/-- A system call with its arguments, and with what the rest of the kernel decides. -/
inductive Call
  | open (pathname : List Byte) (flag : BitVec 32) (mode : BitVec 16) (room : Room)
  | creat (pathname : List Byte) (mode : BitVec 16) (room : Room)
  | close (fd : Nat)
  | dup (fd : Nat)
  | dup2 (oldfd newfd : Nat)
  | fcntl (fd : Nat) (cmd : Cmd) (arg : BitVec 32)
  | pipe (inode : Option Inode.Num)
  | fork (pid : Nat) (memory : Bool)
  | execve (filename : List Byte) (image interp : Image)
  | exit (orphan : Bool)
  | chdir (filename : List Byte)
  | chroot (filename : List Byte)
  | mount (devName dirName : List Byte) (readable : Bool)
  | umount (devName : List Byte)
  | lseek (fd : Nat) (offset : Int) (origin : Nat)
  | read (fd : Nat) (count : Int) (io : Int × List Byte × Nat)
  | write (fd : Nat) (count : Int) (buf : Nat → Byte) (io : Int × Nat) (fit : Nat) (disk : Volume)

/-- The call of task `cur`. -/
def Call.act (cur : Fin 64) (k : Kernel) : Call → Option (Int × Kernel)
  | .open pathname flag mode room => sysOpen k cur pathname flag mode room
  | .creat pathname mode room => sysCreat k cur pathname mode room
  | .close fd => sysClose k cur fd
  | .dup fd => sysDup k cur fd
  | .dup2 oldfd newfd => sysDup2 k cur oldfd newfd
  | .fcntl fd cmd arg => sysFcntl k cur fd cmd arg
  | .pipe inode => sysPipe k cur inode
  | .fork pid memory => sysFork k cur pid memory
  | .execve filename image interp => sysExecve k cur filename image interp
  | .exit orphan => sysExit k cur orphan
  | .chdir filename => sysChdir k cur filename
  | .chroot filename => sysChroot k cur filename
  | .mount devName dirName readable => sysMount k cur devName dirName readable
  | .umount devName => sysUmount k cur devName
  | .lseek fd offset origin => sysLseek k cur fd offset origin
  | .read fd count io => (sysRead k cur fd count io).map fun r => (r.1, r.2.2)
  | .write fd count buf io fit disk => sysWrite k cur fd count buf io fit disk

structure Event where
  cur : Fin 64
  call : Call

def step (k : Kernel) (e : Event) : Option Kernel :=
  (k.task e.cur).bind fun t =>
    if t.zombie then none else (e.call.act e.cur k).map Prod.snd

/-! ## `mount_root` -/

/-- The kernel before it has a file system: nobody refers to anything. -/
structure Booted (k : Kernel) : Prop where
  count : ∀ i, k.vol.fs.count i = 0
  bcount : ∀ dev block, k.vol.fs.bcount dev block = 0
  file : ∀ f, (k.file f).count = 0
  super : ∀ s, (k.vol.fs.superBlock s).dev = 0 ∧ (k.vol.fs.superBlock s).inodeMount = none ∧
    k.inodeSuper s = none
  task : ∀ cur t, k.task cur = some t → t.root = none ∧ t.pwd = none ∧ t.executable = none ∧
    (∀ fd, t.filp fd = none) ∧ ∀ fd, t.closeOnExec fd = false

/-- `mount_root`, which task `cur` runs: the root inode is used four times. -/
def mountRoot (k : Kernel) (cur : Fin 64) : Option Kernel :=
  let k := { k with file := fun f => { k.file f with count := 0 } }
  match readSuper k k.rootDev true with
  | (none, _) => none
  | (some s, k) =>
    (Fs.iget 9 k.vol.fs ⟨k.rootDev, 1⟩).bind fun (i, fs) =>
      (k.task cur).map fun t =>
        let k := k.setFs (((fs.hold i).hold i).hold i)
        (k.setSuper s { k.vol.fs.superBlock s with inodeMount := some i } (some i)).setTask cur
          { t with pwd := some i, root := some i }

/-- The states that the calls start from. -/
def Mounted (k : Kernel) : Prop := ∃ k0 cur, Booted k0 ∧ mountRoot k0 cur = some k

end Linux011.Files
