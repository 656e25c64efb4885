import Linux011.Lib.Paged
import Linux011.Lib.Words

/-!
# How `do_execve` passes the arguments (`fs/exec.c`)

The strings are copied from the memory of the old program to up to 32 fresh pages, the last string
first and each one from its end, with an `offset` into the current page that is counted down beside
`p`. `change_ldt` puts the pages below the end of the new data segment, and `create_tables` writes
the pointer arrays under the strings, finding where each string begins by reading over the one before.

The script case of `do_execve` is left out, and with it the argument `from_kmem`, which only moves
`fs`. The memory of the old program is what `fs` shows; a read outside of the segment traps. All page
allocations succeed, and a page that a page table needs is not seen here. A page that a fault brings
below the strings is a fresh one; what `do_no_page` puts into it is the parameter `demand`.
-/

namespace Linux011.Exec

open Linux011.Lib

abbrev Byte := BitVec 8

/-- `PAGE_SIZE`. -/
def pageSize : Nat := 4096

/-- `MAX_ARG_PAGES`. -/
def maxArgPages : Nat := 32

/-- `data_limit` of `change_ldt`, the size of a data segment. -/
def dataLimit : Nat := 0x4000000

/-- How the argument passing may end early. -/
inductive Stop where
  /-- `return -ENOMEM` -/
  | noMemory
  | panic (msg : String)
  /-- a reference outside of the segment or of the array `page` -/
  | trap

/-! ## Longs in memory -/

/-- The four bytes of an unsigned long, the lowest first. -/
def longBytes (w : Nat) : List Byte :=
  [BitVec.ofNat 8 w, BitVec.ofNat 8 (w / 256), BitVec.ofNat 8 (w / 65536), BitVec.ofNat 8 (w / 16777216)]

def readLong (v : Nat → Option Byte) (a : Nat) : Option Nat := do
  let b0 ← v a
  let b1 ← v (a + 1)
  let b2 ← v (a + 2)
  let b3 ← v (a + 3)
  pure (b0.toNat + 256 * b1.toNat + 65536 * b2.toNat + 16777216 * b3.toNat)

/-- A value that must be there. -/
def found {α : Type} : Option α → Except Stop α
  | some a => .ok a
  | none => .error .trap

def getFsByte (fs : Nat → Option Byte) (a : Nat) : Except Stop Byte := found (fs a)

def getFsLong (fs : Nat → Option Byte) (a : Nat) : Except Stop Nat := found (readLong fs a)

/-! ## `count` -/

/-- The `while` loop of `count`. A loop that has run `dataLimit` times has left the segment. -/
def countFrom (fs : Nat → Option Byte) : Nat → Nat → Except Stop Nat
  | 0, _ => .error .trap
  | n + 1, tmp => do
    if (← getFsLong fs tmp) = 0 then pure 0 else return (← countFrom fs n (tmp + 4)) + 1

/-- `count`. -/
def count (fs : Nat → Option Byte) (argv : Nat) : Except Stop Nat :=
  if argv = 0 then pure 0 else countFrom fs dataLimit argv

/-! ## `copy_strings` -/

/-- The variables of `copy_strings`; the table of `mem` is the array `page`. -/
structure Copy where
  p : Nat
  offset : Int
  pag : Nat
  mem : Paged Byte

/-- `do { len++; } while (get_fs_byte(tmp++))`: the length with the terminator. -/
def strLen (fs : Nat → Option Byte) : Nat → Nat → Except Stop Nat
  | 0, _ => .error .trap
  | n + 1, tmp => do
    if (← getFsByte fs tmp) = 0 then pure 1 else return (← strLen fs n (tmp + 1)) + 1

/-- `--p`, `--offset`, and the page of `p` when the offset falls below zero. -/
def stepDown (S : Supply) (c : Copy) : Except Stop Copy :=
  let p := sub32 c.p 1
  if c.offset - 1 < 0 then
    if maxArgPages ≤ p / pageSize then .error .trap
    else
      let mem := c.mem.touch S pageSize (fun _ _ => 0) p
      .ok ⟨p, ((p % pageSize : Nat) : Int), mem.table (p / pageSize), mem⟩
  else .ok ⟨p, c.offset - 1, c.pag, c.mem⟩

/-- `while (len)`: one string, from its end. -/
def copyDown (S : Supply) (fs : Nat → Option Byte) : Nat → Nat → Copy → Except Stop Copy
  | 0, _, c => .ok c
  | len + 1, tmp, c => do
    let c ← stepDown S c
    let b ← getFsByte fs (tmp - 1)
    copyDown S fs len (tmp - 1) { c with mem := c.mem.poke c.pag c.offset.toNat b }

/-- The body of `while (argc-- > 0)` for the string at `tmp`. The test `p-len < 0` compares unsigned
numbers and never holds. -/
def copyString (S : Supply) (fs : Nat → Option Byte) (tmp : Nat) (c : Copy) : Except Stop Copy := do
  if tmp = 0 then throw (.panic "argc is wrong")
  let len ← strLen fs dataLimit tmp
  copyDown S fs len (tmp + len) c

def copyFrom (S : Supply) (fs : Nat → Option Byte) (argv : Nat) : Nat → Copy → Except Stop Copy
  | 0, c => .ok c
  | argc + 1, c => do
    let tmp ← getFsLong fs (argv + 4 * argc)
    copyFrom S fs argv argc (← copyString S fs tmp c)

/-- `copy_strings` with `from_kmem` 0: the new `p` and the pages. -/
def copyStrings (S : Supply) (fs : Nat → Option Byte) (argc argv p : Nat) (mem : Paged Byte) :
    Except Stop (Nat × Paged Byte) :=
  if p = 0 then .ok (0, mem)
  else do
    let c ← copyFrom S fs argv argc ⟨p, 0, 0, mem⟩
    return (c.p, c.mem)

/-! ## `change_ldt` -/

/-- `put_page`: the page table of the new program. -/
def putPage (page address : Nat) (m : Paged Byte) : Paged Byte :=
  { m with table := Function.update m.table (address / pageSize) page }

/-- The `for` loop of `change_ldt`. -/
def putPages (page : Nat → Nat) : Nat → Nat → Paged Byte → Paged Byte
  | 0, _, m => m
  | i + 1, dataBase, m =>
    putPages page i (dataBase - pageSize)
      (if page i ≠ 0 then putPage (page i) (dataBase - pageSize) m else m)

/-- `change_ldt`, after `free_page_tables` has emptied the segment. Addresses are those in the
segment. -/
def changeLdt (m : Paged Byte) : Nat × Paged Byte :=
  (dataLimit, putPages m.table maxArgPages dataLimit { m with table := fun _ => 0 })

/-! ## `create_tables` -/

section Tables

variable (S : Supply) (demand : Nat → Nat → Byte)

def storeBytes : List Byte → Nat → Paged Byte → Paged Byte
  | [], _, m => m
  | b :: bs, a, m => storeBytes bs (a + 1) (m.store S pageSize demand a b)

/-- `put_fs_long`. -/
def putFsLong (val addr : Nat) (m : Paged Byte) : Except Stop (Paged Byte) :=
  if dataLimit < addr + 4 then .error .trap else .ok (storeBytes S demand (longBytes val) addr m)

/-- `while (get_fs_byte(p++))`. -/
def skipString : Nat → Nat → Paged Byte → Except Stop (Nat × Paged Byte)
  | 0, _, _ => .error .trap
  | n + 1, p, m =>
    if dataLimit ≤ p then .error .trap
    else
      let (b, m) := m.load S pageSize demand p
      if b = 0 then .ok (p + 1, m) else skipString n (p + 1) m

/-- `while (argc-->0)`: one pointer array; the answer is the new `p` and `argv`. -/
def fillTable : Nat → Nat → Nat → Paged Byte → Except Stop (Nat × Nat × Paged Byte)
  | 0, p, argv, m => .ok (p, argv, m)
  | argc + 1, p, argv, m => do
    let m ← putFsLong S demand p argv m
    let (p, m) ← skipString S demand dataLimit p m
    fillTable argc p (argv + 4) m

/-- `create_tables`. -/
def createTables (p argc envc : Nat) (m : Paged Byte) : Except Stop (Nat × Paged Byte) := do
  let sp := 0xfffffffc &&& p
  let envp := sub32 sp (4 * (envc + 1))
  let argv := sub32 envp (4 * (argc + 1))
  let m ← putFsLong S demand envp (sub32 argv 4) m
  let m ← putFsLong S demand argv (sub32 argv 8) m
  let m ← putFsLong S demand argc (sub32 argv 12) m
  let (p, argv', m) ← fillTable S demand argc p argv m
  let m ← putFsLong S demand 0 argv' m
  let (_, envp', m) ← fillTable S demand envc p envp m
  let m ← putFsLong S demand 0 envp' m
  return (sub32 argv 12, m)

end Tables

/-- The lines of `do_execve` that pass the arguments: the stack pointer and the new memory. -/
def passArguments (S : Supply) (demand : Nat → Nat → Byte) (fs : Nat → Option Byte)
    (argv envp : Nat) : Except Stop (Nat × Paged Byte) := do
  let argc ← count fs argv
  let envc ← count fs envp
  let p := pageSize * maxArgPages - 4
  let (p, mem) ← copyStrings S fs envc envp p ⟨fun _ _ => 0, fun _ => 0, 0⟩
  let (p, mem) ← copyStrings S fs argc argv p mem
  if p = 0 then throw .noMemory
  let (limit, mem) := changeLdt mem
  createTables S demand (p + limit - maxArgPages * pageSize) argc envc mem

end Linux011.Exec
