import Linux011.Exec.Script
import Linux011.Files.Effect
import Linux011.Lib.Watch
import Linux011.Mm.Fault

/-!
# What `do_execve` takes and gives back (`fs/exec.c`)

The whole of `do_execve` over the tables it shares with the rest of the kernel: inodes and buffers,
the files of the task, `mem_map` and the page tables. It reads the path, the arrays and the strings
out of the memory of the old program, byte by byte through the segment of the task, and every such
byte may be on a page that is not there yet: then `do_no_page` brings it, which takes pages from
`mem_map`, and may end the task when there are none.

Up to the point of no return (`prepare`) an error leaves the call through `exec_error1`, with the
inode given back or not, or through `exec_error2`. Behind it (`enter`) there is no error any more:
the region is released, the argument pages are mapped at the top of it, and the answers of `put_page`
are not looked at.

No other task runs in between. `fs` is seen in which function reads from which segment; the path is
read as a whole before `namei` walks it. What a block holds is `block`, which fails
where `bread` does; what pages of a program `do_no_page` loads is `file`. The registers, the
coprocessor and `start_stack` are left out, and the check that the call comes from user mode.
-/

namespace Linux011.Exec.Execve

open Lib (Prog Triple Keeps sub32)
open Lib.Prog (read modify stop when)
open Mm (Sys Sound Grown Served Dead slotBase presentAt entryAt dirs)
open Script (Block)

/-! ## The state -/

/-- The kernel as `do_execve` sees it; `handler` are the `sa_handler` of `sigaction`. -/
structure State where
  kernel : Files.Kernel
  sys : Sys
  handler : Nat → BitVec 32
  endCode : Nat
  brk : Nat

/-- Why a call does not return. -/
inductive Stop where
  /-- a panic, or a walk that comes to no end -/
  | panic
  /-- `do_exit` out of a page fault -/
  | exit
  /-- a reference outside of the segment or of the array `page` -/
  | trap
  deriving DecidableEq

abbrev Call := Prog State Stop Empty

/-- A part of the state that must be there. -/
def fetch {α : Type} (f : State → Option α) : Call α := do
  match ← read f with
  | some a => pure a
  | none => stop .panic

/-- The inode as `current->executable`, for the memory manager. -/
def number (i : Fs.Id) : Nat := i.dev.toNat * 65536 + i.num.toNat

/-- Byte `k` of a word, and the word with another byte there. -/
def getByte (w : Mm.Word) (k : Nat) : Byte := (w >>> (8 * k)).setWidth 8

def setByte (w : Mm.Word) (k : Nat) (b : Byte) : Mm.Word :=
  (w &&& ~~~ (0xff#32 <<< (8 * k))) ||| (b.setWidth 32 <<< (8 * k))

section Code

variable (cur : Fin 64) (file : Nat → Mm.Program) (block : Inode.Dev → Fs.Block → Option Block)

/-- `current`, as far as memory goes. -/
def current : Call Mm.Task := fetch fun s => s.sys.task cur

def setSys (f : Sys → Sys) : Call Unit := modify fun s => { s with sys := f s.sys }

def setMem (f : Mm.Mem → Mm.Mem) : Call Unit := setSys fun s => { s with mem := f s.mem }

/-- A function of the memory manager. -/
def run {α : Type} (f : Mm.Mem → Mm.Res α) : Call α := do
  match ← read fun s => f s.sys.mem with
  | .ok a m => do
    setMem fun _ => m
    return a
  | .panic _ _ => stop .panic
  | .oom _ => stop .exit

/-! ## User memory (`segment.h`) -/

/-- `executable->i_count`. -/
def iCount (s : State) : Nat :=
  match (s.kernel.task cur).bind Files.Task.executable with
  | some i => s.kernel.vol.fs.count i
  | none => 0

/-- `do_no_page`. -/
def doNoPage (off : Nat) : Call Unit := do
  let sys ← fetch fun s => Mm.serveNoPage file s.sys cur off (iCount cur s)
  setSys fun _ => sys
  let t ← current cur
  if t.phase = .zombie then stop .exit else pure ()

/-- A reference to an offset in the segment. -/
def touch (off : Nat) : Call Unit := do
  let t ← current cur
  if t.dataLimit ≤ off then stop .trap
  else do
    let there ← read fun s => presentAt s.sys.mem (slotBase cur + off)
    when (there = false) (doNoPage cur file off)

/-- The word of memory behind an offset. -/
def wordAt (m : Mm.Mem) (off : Nat) : Mm.Word :=
  m.ram (Mm.frame (entryAt m (slotBase cur + off))) ((slotBase cur + off) / 4 % 1024)

/-- `get_fs_byte`. -/
def getFsByte (off : Nat) : Call Byte := do
  touch cur file off
  read fun s => getByte (wordAt cur s.sys.mem off) (off % 4)

/-- `get_fs_long`. -/
def getFsLong (off : Nat) : Call Nat := do
  let a ← getFsByte cur file off
  let b ← getFsByte cur file (off + 1)
  let c ← getFsByte cur file (off + 2)
  let d ← getFsByte cur file (off + 3)
  return a.toNat + 256 * b.toNat + 65536 * c.toNat + 16777216 * d.toNat

/-- `put_fs_byte`. -/
def putFsByte (b : Byte) (off : Nat) : Call Unit := do
  touch cur file off
  setMem fun m => m.storeAt (slotBase cur + off) (setByte (wordAt cur m off) (off % 4) b)

/-- `put_fs_long` at a multiple of four. -/
def putFsLong (val off : Nat) : Call Unit := do
  touch cur file off
  setMem fun m => m.storeAt (slotBase cur + off) (BitVec.ofNat 32 val)

/-- A string; every round of the loop is inside the segment. -/
def readString : Nat → Nat → Call (List Byte)
  | 0, _ => stop .trap
  | n + 1, off => do
    let b ← getFsByte cur file off
    if b = 0 then return []
    else return b :: (← readString n (off + 1))

/-- The loop of `count`. -/
def countLoop : Nat → Nat → Call Int
  | 0, _ => stop .trap
  | n + 1, tmp => do
    let w ← getFsLong cur file tmp
    if w = 0 then return 0
    else return (← countLoop n (tmp + 4)) + 1

/-- `count`. -/
def count (argv : Nat) : Call Int := if argv = 0 then return 0 else countLoop cur file dataLimit argv

/-! ## `copy_strings` -/

/-- Where a string is: in the segment of the task, or in the kernel's. -/
inductive Text where
  | user (tmp : Nat)
  | kernel (chars : List Byte)

/-- The length with the terminator. -/
def Text.len : Text → Call Nat
  | .user tmp => do return (← readString cur file dataLimit tmp).length + 1
  | .kernel chars => return chars.length + 1

def Text.byte : Text → Nat → Call Byte
  | .user tmp, k => getFsByte cur file (tmp + k)
  | .kernel chars, k => return chars.getD k 0

/-- `page[i]`, with a page from `get_free_page` if there is none yet. -/
def argPage (i : Nat) : Call (Option Nat) := do
  let t ← current cur
  match t.args.lookup i with
  | some f => return some f
  | none =>
    match ← read fun s => Mm.getFreePage s.sys.mem with
    | none => return none
    | some (f, m) => do
      setSys fun s => Sys.setTask ⟨m, Function.update s.held f true, s.task⟩ cur
        { t with args := (i, f) :: t.args }
      return some f

/-- The variables of `copy_strings`: `p`, `offset`, and the page of `pag`. -/
structure Walk where
  p : Nat
  offset : Nat
  pag : Nat

/-- `--p`, and `--offset` with the page of `p` when it falls below zero. -/
def stepDown (w : Walk) : Call (Option Walk) :=
  let p := sub32 w.p 1
  if w.offset = 0 then
    if maxArgPages ≤ p / pageSize then stop .trap
    else do
      match ← argPage cur (p / pageSize) with
      | none => return none
      | some pag => return some ⟨p, p % pageSize, pag⟩
  else return some ⟨p, w.offset - 1, w.pag⟩

/-- `*(pag + offset) = b`. -/
def putArg (w : Walk) (b : Byte) : Call Unit :=
  setMem fun m => m.poke w.pag (w.offset / 4) (setByte (m.ram w.pag (w.offset / 4)) (w.offset % 4) b)

/-- `while (len)`. -/
def copyDown (text : Text) : Nat → Walk → Call (Option Walk)
  | 0, w => return some w
  | len + 1, w => do
    match ← stepDown cur w with
    | none => return none
    | some w => do
      let b ← text.byte cur file len
      putArg w b
      copyDown text len w

/-- One string. The test `p-len < 0` compares unsigned numbers and never holds. -/
def copyString (text : Text) (w : Walk) : Call (Option Walk) :=
  match text with
  | .user 0 => stop .panic
  | text => do
    let len ← text.len cur file
    copyDown cur file text len w

/-- `while (argc-- > 0)`. -/
def copyEach (argv : Nat) : Nat → Walk → Call (Option Walk)
  | 0, w => return some w
  | argc + 1, w => do
    let tmp ← getFsLong cur file (argv + 4 * argc)
    match ← copyString cur file (.user tmp) w with
    | none => return none
    | some w => copyEach argv argc w

/-- What `copy_strings` returns. -/
def result : Option Walk → Nat
  | none => 0
  | some w => w.p

/-- `copy_strings` of an array of the task. -/
def copyStrings (argc : Int) (argv p : Nat) : Call Nat :=
  if p = 0 then return 0
  else do return result (← copyEach cur file argv argc.toNat ⟨p, 0, 0⟩)

/-- `copy_strings` of one string, to which a variable of the kernel points. -/
def copyOne (text : Text) (p : Nat) : Call Nat :=
  if p = 0 then return 0
  else do return result (← copyString cur file text ⟨p, 0, 0⟩)

/-! ## Up to the point of no return -/

/-- `namei` of a path that has been read. -/
def namei (path : List Byte) : Call (Option Fs.Id) := do
  let me ← fetch fun s => (s.kernel.task cur).bind Files.Task.names
  let r ← fetch fun s => Fs.namei me s.kernel.vol.fs path
  modify fun s => { s with kernel := s.kernel.setFs r.2 }
  return r.1

def iput (i : Fs.Id) : Call Unit :=
  modify fun s => { s with kernel := s.kernel.setFs (s.kernel.vol.fs.iput i) }

/-- `exec_error1`. -/
def execError1 {α : Type} (retval : Int) : Call (Except Int α) := do
  let t ← current cur
  let r ← fetch fun s => Mm.freeArgs t.args (s.sys.mem, s.sys.held)
  setSys fun s => Sys.setTask ⟨r.1, r.2, s.task⟩ cur { t with args := [] }
  return .error retval

/-- `exec_error2`. -/
def execError2 {α : Type} (i : Fs.Id) (retval : Int) : Call (Except Int α) := do
  iput i
  execError1 cur retval

/-- The checks from `restart_interp` on, and the first block; its buffer is given back as soon as the
header or the line has been copied. -/
def firstBlock (i : Fs.Id) : Call (Except Int Block) := do
  let t ← fetch fun s => s.kernel.task cur
  let h ← read fun s => s.kernel.vol.fs.inode i
  match Files.execCheck t h with
  | some e => return .error e
  | none =>
    match block i.dev (h.zone 0) with
    | none => return .error Files.eacces
    | some b => do
      modify fun s => { s with kernel := s.kernel.setFs (s.kernel.vol.fs.bread i.dev (h.zone 0)) }
      modify fun s => { s with kernel := s.kernel.setFs (s.kernel.vol.fs.brelse i.dev (h.zone 0)) }
      return .ok b

/-- What has been decided at the point of no return. -/
structure Entry where
  inode : Fs.Id
  ex : Header
  argc : Int
  envc : Int
  p : Nat

/-- The checks of the header. -/
def accepted (i : Fs.Id) (b : Block) : Call Bool := do
  let h ← read fun s => s.kernel.vol.fs.inode i
  return b.header.accepted (BitVec.ofNat 32 h.size)

variable (filename argv envp : Nat)

/-- A file with a header of its own. -/
def prepareProgram (i : Fs.Id) (b : Block) (argc envc : Int) (p : Nat) :
    Call (Except Int Entry) := do
  if ← accepted i b then do
    let p ← copyStrings cur file envc envp p
    let p ← copyStrings cur file argc argv p
    if p = 0 then execError2 cur i Files.enomem
    else return .ok ⟨i, b.header, argc, envc, p⟩
  else execError2 cur i Files.enoexec

/-- The string at an offset of `buf`. -/
def cstring (buf : List Byte) (at' : Nat) : List Byte := (buf.drop at').takeWhile (· ≠ 0)

/-- The copying of the `#!` section: `p` and `argc`. -/
def splice (line : Script.Line) (argc envc : Int) (p : Nat) : Call (Nat × Int) := do
  let p ← copyStrings cur file envc envp p
  let argc := argc - 1
  let p ← copyStrings cur file argc (argv + 4) p
  let p ← copyOne cur file (.user filename) p
  let argc := argc + 1
  match line.iArg with
  | some at' => do
    let p ← copyOne cur file (.kernel (cstring line.buf at')) p
    let p ← copyOne cur file (.kernel (cstring line.buf line.iName)) p
    return (p, argc + 1 + 1)
  | none => do
    let p ← copyOne cur file (.kernel (cstring line.buf line.iName)) p
    return (p, argc + 1)

/-- The interpreter in place of a script; it may not be a script itself. -/
def prepareScript (i : Fs.Id) (b : Block) (argc envc : Int) (p : Nat) :
    Call (Except Int Entry) := do
  iput i
  match Script.parseLine b with
  | none => execError1 cur Files.enoexec
  | some line => do
    let (p, argc) ← splice cur file filename argv envp line argc envc p
    if p = 0 then execError1 cur Files.enomem
    else do
      match ← namei cur (cstring line.buf line.interp) with
      | none => execError1 cur Files.enoent
      | some i => do
        match ← firstBlock cur block i with
        | .error e => execError2 cur i e
        | .ok b => do
          if ← accepted i b then return .ok ⟨i, b.header, argc, envc, p⟩
          else execError2 cur i Files.enoexec

/-- `do_execve` up to the point of no return: an error number, or what to go on with. -/
def prepare : Call (Except Int Entry) := do
  let path ← readString cur file dataLimit filename
  match ← namei cur path with
  | none => return .error Files.enoent
  | some i => do
    let argc ← count cur file argv
    let envc ← count cur file envp
    match ← firstBlock cur block i with
    | .error e => execError2 cur i e
    | .ok b =>
      let p := pageSize * maxArgPages - 4
      if b.isScript then prepareScript cur file block filename argv envp i b argc envc p
      else prepareProgram cur file argv envp i b argc envc p

/-! ## Behind it -/

/-- `change_ldt`. -/
def changeLdt (text : BitVec 32) : Call Nat := do
  let t ← current cur
  setSys fun s =>
    let r := Mm.putArgs (slotBase cur) t.args (List.range 32).reverse (s.mem, s.held)
    Sys.setTask ⟨r.1, r.2, s.task⟩ cur { t with
      codeLimit := ((text + 4095) &&& 0xfffff000#32).toNat, dataLimit := dataLimit, args := [] }
  return dataLimit

/-- `while (get_fs_byte(p++))`. -/
def skipString (p : Nat) : Call Nat := do return p + (← readString cur file dataLimit p).length + 1

/-- `while (argc-->0)`: the new `p` and the end of the array. -/
def fillTable : Nat → Nat → Nat → Call (Nat × Nat)
  | 0, p, argv => return (p, argv)
  | argc + 1, p, argv => do
    putFsLong cur file p argv
    let p ← skipString cur file p
    fillTable argc p (argv + 4)

/-- `create_tables`. -/
def createTables (p argc envc : Nat) : Call Nat := do
  let sp := 0xfffffffc &&& p
  let envp := sub32 sp (4 * (envc + 1))
  let argv := sub32 envp (4 * (argc + 1))
  putFsLong cur file envp (sub32 argv 4)
  putFsLong cur file argv (sub32 argv 8)
  putFsLong cur file argc (sub32 argv 12)
  let (p, argv) ← fillTable cur file argc p argv
  putFsLong cur file 0 argv
  let (_, envp) ← fillTable cur file envc p envp
  putFsLong cur file 0 envp
  return sub32 sp (4 * (envc + 1) + 4 * (argc + 1) + 12)

/-- `while (i&0xfff) put_fs_byte(0,(char *) (i++))`; there are less than 4096 rounds. -/
def clearTail : Nat → Nat → Call Unit
  | 0, _ => return ()
  | n + 1, i =>
    if i % pageSize = 0 then return ()
    else do
      putFsByte cur file 0 i
      clearTail n (i + 1)

/-- `do_execve` from `change_ldt` on. -/
def build (x : Entry) : Call Int := do
  let limit ← changeLdt cur x.ex.text
  let _ ← createTables cur file (x.p + limit - maxArgPages * pageSize) x.argc.toNat x.envc.toNat
  let t ← current cur
  let endData := (x.ex.data + x.ex.text).toNat
  setSys fun s => s.setTask cur { t with endData := endData }
  modify fun s => { s with
    endCode := x.ex.text.toNat, brk := (x.ex.bss + (x.ex.data + x.ex.text)).toNat }
  clearTail cur file pageSize endData
  return 0

/-- `do_execve` from the point of no return on. -/
def enter (x : Entry) : Call Int := do
  let t ← fetch fun s => s.kernel.task cur
  let k ← fetch fun s => Files.startProgram s.kernel cur t x.inode
  modify fun s => { s with kernel := k.2, handler := fun i => if i < 32 then 0 else s.handler i }
  let t ← current cur
  setSys fun s => s.setTask cur { t with executable := some (number x.inode) }
  run (Mm.freePageTables (slotBase cur) t.codeLimit)
  run (Mm.freePageTables (slotBase cur) t.dataLimit)
  build cur file x

/-- `do_execve`. -/
def doExecve : Call Int := do
  match ← prepare cur file block filename argv envp with
  | .error e => return -e
  | .ok x => enter cur file x

end Code

end Linux011.Exec.Execve
