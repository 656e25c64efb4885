import Linux011.Lib.Machine
import Mathlib.Logic.Function.Basic
import Mathlib.Algebra.Group.Nat.Defs

/-!
# Physical memory and the paging code (`mm/memory.c`)

The faithful layer of the memory manager. A page-aligned physical address is written by its FRAME
NUMBER, so `LOW_MEM` is frame 256 and `MAP_NR` subtracts it; a page of memory is 1024 words of 32
bits. The page directory is frame 0 (`_pg_dir = 0` in the source), and a page table is the frame
its directory entry names: both live in the same memory that user pages live in, so nothing but a
proof keeps a user page from being a page table.

`mem_map` is an array of unsigned chars: increments and decrements wrap at 256, except in
`free_page`, where the source tests for zero first.

A function ends in one of three ways: it returns, it panics, or it calls `oom`, which is
`do_exit(SIGSEGV)` of the current task and never comes back. `Res` keeps the memory in all three
cases. `invalidate()` reloads `cr3` and the `printk`s of `put_page` only print; neither changes
what is modelled here, and both are left out.
-/

namespace Linux011.Mm

/-- A 32-bit word of physical memory; directory and page-table entries are such words. -/
abbrev Word := BitVec 32

/-! ## Entries -/

/-- `1 & e`: the P bit. -/
def present (e : Word) : Bool := e.getLsbD 0

/-- `2 & e`: the R/W bit. -/
def writable (e : Word) : Bool := e.getLsbD 1

/-- `0x40 & e`: the dirty bit, set by the processor on a write through the entry. -/
def dirty (e : Word) : Bool := e.getLsbD 6

/-- `0xfffff000 & e`, as a frame number. -/
def frame (e : Word) : Nat := (e >>> 12).toNat

/-- `page | 7`: present, writable, user. -/
def userEntry (page : Nat) : Word := BitVec.ofNat 32 (page * 4096) ||| 7

/-! ## The memory -/

/-- `LOW_MEM >> 12`. -/
def lowMem : Nat := 0x100

/-- `PAGING_PAGES`: 15 MB of paged memory. -/
def pagingPages : Nat := 3840

/-- `USED`, the count `mem_init` gives to memory that is not to be allocated. -/
def used : Nat := 100

/-- `MAP_NR` of a frame. -/
def mapNr (f : Nat) : Nat := f - lowMem

/-- Physical memory, the usage counts, and `HIGH_MEMORY` as a frame number. -/
structure Mem where
  ram : Nat → Nat → Word
  memMap : Nat → Nat
  highMemory : Nat

/-- How a function of `mm/memory.c` ends. -/
inductive Res (α : Type) where
  | ok (value : α) (m : Mem)
  | panic (msg : String) (m : Mem)
  | oom (m : Mem)

/-- The memory at the end, whatever the end is. -/
def Res.mem {α : Type} : Res α → Mem
  | .ok _ m => m
  | .panic _ m => m
  | .oom m => m

/-- Go on after a return; a panic and an `oom` end the caller too. -/
def Res.bind {α β : Type} : Res α → (α → Mem → Res β) → Res β
  | .ok a m, k => k a m
  | .panic msg m, _ => .panic msg m
  | .oom m, _ => .oom m

/-- Store one word. -/
def Mem.poke (m : Mem) (f i : Nat) (w : Word) : Mem :=
  { m with ram := Function.update m.ram f (Function.update (m.ram f) i w) }

/-- Overwrite one page. -/
def Mem.fill (m : Mem) (f : Nat) (page : Nat → Word) : Mem :=
  { m with ram := Function.update m.ram f page }

/-- Set one usage count. -/
def Mem.setCount (m : Mem) (i n : Nat) : Mem :=
  { m with memMap := Function.update m.memMap i n }

/-- A `for` loop whose body may leave the whole function with a failure (`false`). -/
def forLoop (body : Nat → Mem → Res Bool) : List Nat → Mem → Res Bool
  | [], m => .ok true m
  | i :: is, m => (body i m).bind fun go m => if go then forLoop body is m else .ok false m

/-! ## `get_free_page`, `free_page` -/

/-- `std ; repne ; scasb`: the scan for a zero count, from the last entry of `mem_map` down. -/
def scanFree (memMap : Nat → Nat) : Nat → Option Nat
  | 0 => none
  | n + 1 => if memMap n = 0 then some n else scanFree memMap n

/-- `get_free_page`: mark the page and clear it; `none` is the return value 0. -/
def getFreePage (m : Mem) : Option (Nat × Mem) :=
  (scanFree m.memMap pagingPages).map fun i =>
    (i + lowMem, (m.setCount i 1).fill (i + lowMem) fun _ => 0)

/-- `free_page`. -/
def freePage (f : Nat) (m : Mem) : Res Unit :=
  if f < lowMem then .ok () m
  else if f ≥ m.highMemory then .panic "trying to free nonexistent page" m
  else if m.memMap (mapNr f) ≠ 0 then .ok () (m.setCount (mapNr f) (m.memMap (mapNr f) - 1))
  else .panic "trying to free free page" (m.setCount (mapNr f) 0)

/-! ## `free_page_tables` -/

/-- One turn of the inner loop: release the page of entry `i` of table `t` and clear the entry. -/
def freeEntry (t i : Nat) (m : Mem) : Res Bool :=
  if present (m.ram t i) then
    (freePage (frame (m.ram t i)) m).bind fun _ m => .ok true (m.poke t i 0)
  else .ok true (m.poke t i 0)

/-- One turn of the outer loop: release the page table of directory entry `d`. -/
def freeDir (d : Nat) (m : Mem) : Res Bool :=
  if present (m.ram 0 d) then
    (forLoop (freeEntry (frame (m.ram 0 d))) (List.range 1024) m).bind fun _ m =>
      (freePage (frame (m.ram 0 d)) m).bind fun _ m => .ok true (m.poke 0 d 0)
  else .ok true m

/-- The number of 4 MB blocks of a size, in the 32-bit arithmetic of the source. -/
def blocks (size : Nat) : Nat := ((size + 0x3fffff) % 2 ^ 32) >>> 22

/-- The directory index of a linear address. -/
def dirIndex (address : Nat) : Nat := (address >>> 22) % 1024

/-- The page-table index of a linear address. -/
def tableIndex (address : Nat) : Nat := (address >>> 12) % 1024

/-- `free_page_tables`. -/
def freePageTables (start size : Nat) (m : Mem) : Res Unit :=
  if start % 0x400000 ≠ 0 then .panic "free_page_tables called with wrong alignment" m
  else if start = 0 then .panic "Trying to free up swapper memory space" m
  else (forLoop freeDir (List.range' (dirIndex start) (blocks size)) m).bind fun _ m => .ok () m

/-! ## `copy_page_tables` -/

/-- One turn of the inner loop of `copy_page_tables`: the entry is copied without its R/W bit, and
a page above `LOW_MEM` loses the bit on the old side too and is counted once more. The comparison
is made on the whole word, flag bits included. -/
def copyEntry (fromTable toTable i : Nat) (m : Mem) : Res Bool :=
  let thisPage := m.ram fromTable i
  if present thisPage then
    let thisPage := thisPage &&& ~~~2
    let m := m.poke toTable i thisPage
    if thisPage > 0x100000 then
      let m := m.poke fromTable i thisPage
      let nr := ((thisPage - 0x100000) >>> 12).toNat
      .ok true (m.setCount nr ((m.memMap nr + 1) % 256))
    else .ok true m
  else .ok true m

/-- One turn of the outer loop: a fresh page table for `toDir`, filled from that of `fromDir`. The
answer `false` is the early `return -1`. -/
def copyDir (nr fromDir toDir : Nat) (m : Mem) : Res Bool :=
  if present (m.ram 0 toDir) then .panic "copy_page_tables: already exist" m
  else if present (m.ram 0 fromDir) then
    match getFreePage m with
    | none => .ok false m
    | some (toTable, m') =>
      forLoop (copyEntry (frame (m.ram 0 fromDir)) toTable) (List.range nr)
        (m'.poke 0 toDir (userEntry toTable))
  else .ok true m

/-- `copy_page_tables`; the answer `false` is the return value -1. -/
def copyPageTables (start dest size : Nat) (m : Mem) : Res Bool :=
  if start % 0x400000 ≠ 0 ∨ dest % 0x400000 ≠ 0 then
    .panic "copy_page_tables called with wrong alignment" m
  else
    let nr := if start = 0 then 0xA0 else 1024
    forLoop (fun k => copyDir nr (dirIndex start + k) (dirIndex dest + k)) (List.range (blocks size)) m

/-! ## `put_page`, `get_empty_page` -/

/-- `put_page`: the answer `false` is the return value 0. -/
def putPage (page address : Nat) (m : Mem) : Bool × Mem :=
  if present (m.ram 0 (dirIndex address)) then
    (true, m.poke (frame (m.ram 0 (dirIndex address))) (tableIndex address) (userEntry page))
  else
    match getFreePage m with
    | none => (false, m)
    | some (tmp, m') =>
      (true, (m'.poke 0 (dirIndex address) (userEntry tmp)).poke tmp (tableIndex address)
        (userEntry page))

/-- `get_empty_page`. -/
def getEmptyPage (address : Nat) (m : Mem) : Res Unit :=
  match getFreePage m with
  | none => .oom m
  | some (tmp, m') =>
    match putPage tmp address m' with
    | (true, m'') => .ok () m''
    | (false, m'') => (freePage tmp m'').bind fun _ m => .oom m

/-! ## `un_wp_page`, `do_wp_page`, `write_verify` -/

/-- `un_wp_page` of entry `i` of table `t`. -/
def unWpPage (t i : Nat) (m : Mem) : Res Unit :=
  let oldPage := frame (m.ram t i)
  if oldPage ≥ lowMem ∧ m.memMap (mapNr oldPage) = 1 then
    .ok () (m.poke t i (m.ram t i ||| 2))
  else
    match getFreePage m with
    | none => .oom m
    | some (newPage, m') =>
      let m' := if oldPage ≥ lowMem
        then m'.setCount (mapNr oldPage) ((m'.memMap (mapNr oldPage) + 255) % 256) else m'
      let m' := m'.poke t i (userEntry newPage)
      .ok () (m'.fill newPage (m'.ram oldPage))

/-- `do_wp_page`. -/
def doWpPage (address : Nat) (m : Mem) : Res Unit :=
  unWpPage (frame (m.ram 0 (dirIndex address))) (tableIndex address) m

/-- `write_verify`. -/
def writeVerify (address : Nat) (m : Mem) : Res Unit :=
  if present (m.ram 0 (dirIndex address)) then
    let t := frame (m.ram 0 (dirIndex address))
    if m.ram t (tableIndex address) &&& 3 = 1 then unWpPage t (tableIndex address) m else .ok () m
  else .ok () m

/-! ## `try_to_share` -/

/-- The last lines of `try_to_share`, once the page table of the current task is there: `toTable`
is that table, `fromTable` the one of the other task, `physAddr` the page to share. -/
def shareEntry (physAddr : Word) (fromTable toTable i : Nat) (m : Mem) : Res Bool :=
  if present (m.ram toTable i) then .panic "try_to_share: to_page already exists" m
  else
    let m := m.poke fromTable i (m.ram fromTable i &&& ~~~2)
    let m := m.poke toTable i (m.ram fromTable i)
    let nr := ((physAddr - 0x100000) >>> 12).toNat
    .ok true (m.setCount nr ((m.memMap nr + 1) % 256))

/-- `try_to_share` of the page at `address` between the task whose code starts at `pStart` and the
current one, whose code starts at `curStart`. -/
def tryToShare (address pStart curStart : Nat) (m : Mem) : Res Bool :=
  let fromDir := dirIndex address + dirIndex pStart
  let toDir := dirIndex address + dirIndex curStart
  let i := tableIndex address
  if present (m.ram 0 fromDir) then
    let fromTable := frame (m.ram 0 fromDir)
    if m.ram fromTable i &&& 0x41 ≠ 1 then .ok false m
    else
      let physAddr := m.ram fromTable i &&& 0xfffff000
      if frame physAddr ≥ m.highMemory ∨ frame physAddr < lowMem then .ok false m
      else if present (m.ram 0 toDir) then shareEntry physAddr fromTable (frame (m.ram 0 toDir)) i m
      else
        match getFreePage m with
        | none => .oom m
        | some (toTable, m') =>
          shareEntry physAddr fromTable toTable i (m'.poke 0 toDir (userEntry toTable))
  else .ok false m

/-! ## The initial memory -/

/-- The `while` loop of `mem_init`. -/
def clearCounts (memMap : Nat → Nat) (i : Nat) : Nat → Nat → Nat
  | 0 => memMap
  | n + 1 => clearCounts (Function.update memMap i 0) (i + 1) n

/-- `mem_init` of the frames from `startMem` up to `endMem`. -/
def memInit (startMem endMem : Nat) (m : Mem) : Mem :=
  { m with
    highMemory := endMem
    memMap := clearCounts (fun _ => used) (mapNr startMem) (endMem - startMem) }

/-- `setup_paging` (`boot/head.s`): the directory and the four tables behind it are cleared, the
first four directory entries name the tables, and the tables map 16 MB onto themselves. -/
def setupPaging (m : Mem) : Mem :=
  { m with
    ram := fun f i =>
      if f = 0 then (if i < 4 then userEntry (i + 1) else 0)
      else if f ≤ 4 then userEntry ((f - 1) * 1024 + i)
      else m.ram f i }

end Linux011.Mm
