import Linux011.Mm.View
import Linux011.Mm.PageCount

/-!
# Tasks and their memory (`do_no_page`, `fork`, `exit`, `exec`)

The tasks of the system as one machine over the memory of `Memory.lean`. A task runs until it
sleeps or is preempted, so an event is one stretch of code without such a point:

- `fork` (`copy_process` with `copy_mem`), `exit` and `release` never sleep while they change page
  tables, and are one event each;
- a page fault on an absent page maps a page at once, or goes to sleep in `bread_page` with a page
  of its own (`noPage`), and maps that page when the blocks are there (`loaded`);
- a user-mode write to a present page faults, is served and is retried in one event (`userWrite`);
  `wpFault` is the fault alone, for a task that is preempted before it retries;
- `do_execve` collects pages with argument strings (`execArg`, `execFail`), sets `executable`
  (`execSet`), may sleep in `sys_close`, rebuilds the region (`execFinish`), and clears the rest of
  the last data page byte by byte through user addresses (`zeroByte`, `execDone`).

`share_page` reads `i_count` of the executable, which belongs to the file system: its value is part
of the event. A panic stops the machine. Kernel-mode stores ignore the R/W bit of an entry, as the
80386 does; the ones of `do_execve` are the only ones here. Stores set the dirty bit of the entry
they go through.
-/

namespace Linux011.Mm

/-! ## Executables -/

/-- The header of an executable (`struct exec`); all fields are 32-bit. -/
structure Exec where
  magic : Nat
  text : Nat
  data : Nat
  bss : Nat
  syms : Nat
  trsize : Nat
  drsize : Nat

/-- An executable file: its header, `i_size`, and the words of its blocks (a hole reads as
zeros). -/
structure Program where
  exec : Exec
  size : Nat
  block : Nat → Nat → Word

/-- `ZMAGIC`. -/
def zmagic : Nat := 0o413

/-- The checks of `do_execve` on the header, in unsigned 32-bit arithmetic. `N_TXTOFF` of a
`ZMAGIC` file is 1024. -/
def Program.Accepted (p : Program) : Prop :=
  p.exec.magic = zmagic ∧ p.exec.trsize = 0 ∧ p.exec.drsize = 0 ∧
    (p.exec.text + p.exec.data + p.exec.bss) % 2 ^ 32 ≤ 0x3000000 ∧
    (p.exec.text + p.exec.data + p.exec.syms + 1024) % 2 ^ 32 ≤ p.size

/-- The sum of the sizes in the header does not wrap. -/
def Program.Sane (p : Program) : Prop := p.exec.text + p.exec.data + p.exec.bss < 2 ^ 32

instance (p : Program) : Decidable p.Accepted := inferInstanceAs (Decidable (_ ∧ _ ∧ _ ∧ _ ∧ _))

instance (p : Program) : Decidable p.Sane := inferInstanceAs (Decidable (_ < _))

/-- `end_data` of a task that runs the program. -/
def Program.endData (p : Program) : Nat := (p.exec.data + p.exec.text) % 2 ^ 32

/-- The code limit `change_ldt` sets. -/
def Program.codeLimit (p : Program) : Nat := (p.exec.text + 4095) % 2 ^ 32 / 4096 * 4096

/-- A page whose bytes from `n` on are cleared. -/
def zeroFrom (n : Nat) (page : Nat → Word) (k : Nat) : Word :=
  page k &&& BitVec.ofNat 32 (2 ^ (8 * min (n - 4 * k) 4) - 1)

/-- What `do_no_page` loads at offset `tmp`: four file blocks, with everything from `endData` on
cleared. -/
def Program.image (p : Program) (tmp endData : Nat) : Nat → Word :=
  zeroFrom (endData - tmp) fun k => p.block (1 + tmp / 1024 + k / 256) (k % 256)

/-! ## Tasks -/

/-- Where a task is. -/
inductive Phase where
  | running
  | closing
  | zeroing (i : Nat)
  | zombie
  deriving DecidableEq

/-- The fields of a task that memory management reads; `page` is the page of the `task_struct`,
`args` the pages `copy_strings` has filled with their indices, and `loading` the offset and the page
of a fault that sleeps in `bread_page`. -/
structure Task where
  executable : Option Nat
  endData : Nat
  codeLimit : Nat
  dataLimit : Nat
  args : List (Nat × Nat)
  loading : Option (Nat × Nat)
  phase : Phase
  page : Nat

/-- `INIT_TASK`: 640 KB of code and data. -/
def initTask : Task where
  executable := none
  endData := 0
  codeLimit := 0xA0000
  dataLimit := 0xA0000
  args := []
  loading := none
  phase := .running
  page := 0

/-- The task is in user mode, or enters a system call or an exception. -/
def Task.InUser (t : Task) : Prop := t.phase = .running ∧ t.loading = none ∧ t.args = []

instance (t : Task) : Decidable t.InUser := inferInstanceAs (Decidable (_ ∧ _ ∧ _))

/-- The memory, the pages the kernel holds, and the task table. -/
structure Sys where
  mem : Mem
  held : Nat → Bool
  task : Nat → Option Task

/-- Write one slot of the task table. -/
def Sys.setTask (s : Sys) (nr : Nat) (t : Task) : Sys :=
  { s with task := Function.update s.task nr (some t) }

/-- The page-table entry of a linear address. -/
def entryAt (m : Mem) (address : Nat) : Word :=
  m.ram (frame (m.ram 0 (dirIndex address))) (tableIndex address)

/-- There is a page at a linear address. -/
def presentAt (m : Mem) (address : Nat) : Bool :=
  present (m.ram 0 (dirIndex address)) && present (entryAt m address)

/-- A store to a linear address whose page is present. -/
def Mem.storeAt (m : Mem) (address : Nat) (w : Word) : Mem :=
  m.store (dirIndex address) (tableIndex address) (address / 4 % 1024) w

/-! ## `exit`, `release`, `fork` -/

/-- `do_exit`: both regions are released; the task is a zombie without an executable. -/
def doExit (s : Sys) (nr : Nat) (t : Task) : Option Sys :=
  match freePageTables (slotBase nr) t.codeLimit s.mem with
  | .ok _ m =>
    match freePageTables (slotBase nr) t.dataLimit m with
    | .ok _ m => some ({ s with mem := m }.setTask nr
        { t with executable := none, args := [], loading := none, phase := .zombie })
    | _ => none
  | _ => none

/-- How a task goes on after a function of the memory manager: `oom` is `do_exit`. -/
def Sys.after (s : Sys) (nr : Nat) (t : Task) : Res Unit → Option Sys
  | .ok _ m => some { s with mem := m }
  | .panic _ _ => none
  | .oom m => doExit { s with mem := m } nr t

/-- `release`. -/
def release (s : Sys) (nr : Nat) (t : Task) : Option Sys :=
  match freePage t.page s.mem with
  | .ok _ m => some ⟨m, Function.update s.held t.page false, Function.update s.task nr none⟩
  | _ => none

/-- `copy_process` into the free slot `child`. -/
def fork (s : Sys) (parent child : Nat) (t : Task) : Option Sys :=
  match getFreePage s.mem with
  | none => some s
  | some (p, m) =>
    if t.dataLimit < t.codeLimit then none
    else
      match copyPageTables (slotBase parent) (slotBase child) t.dataLimit m with
      | .ok true m => some ⟨m, Function.update s.held p true,
          Function.update s.task child (some { t with page := p })⟩
      | .ok false m =>
        match freePageTables (slotBase child) t.dataLimit m with
        | .ok _ m =>
          match freePage p m with
          | .ok _ m => some { s with mem := m }
          | _ => none
        | _ => none
      | _ => none

/-! ## Faults -/

/-- A user-mode write to a present page, with the write-protection fault it may take. -/
def userWrite (s : Sys) (nr : Nat) (t : Task) (address : Nat) (w : Word) : Option Sys :=
  if writable (entryAt s.mem address) then some { s with mem := s.mem.storeAt address w }
  else
    match doWpPage address s.mem with
    | .ok _ m => some { s with mem := m.storeAt address w }
    | .panic _ _ => none
    | .oom m => doExit { s with mem := m } nr t

/-- `share_page`: the loop over the task table, from the last slot down. -/
def sharePage (task : Nat → Option Task) (nr ino address : Nat) : Nat → Mem → Res Bool
  | 0, m => .ok false m
  | p + 1, m =>
    match task (p + 1) with
    | none => sharePage task nr ino address p m
    | some t =>
      if nr = p + 1 ∨ t.executable ≠ some ino then sharePage task nr ino address p m
      else (tryToShare address (slotBase (p + 1)) (slotBase nr) m).bind fun done m =>
        if done then .ok true m else sharePage task nr ino address p m

/-- The part of `do_no_page` between `share_page` and the sleep in `bread_page`. -/
def readPage (s : Sys) (nr : Nat) (t : Task) (tmp : Nat) : Option Sys :=
  match getFreePage s.mem with
  | none => doExit s nr t
  | some (page, m) => some (Sys.setTask ⟨m, Function.update s.held page true, s.task⟩ nr
      { t with loading := some (tmp, page) })

/-- `do_no_page` up to the sleep in `bread_page`; `iCount` is `executable->i_count`. -/
def noPage (s : Sys) (nr : Nat) (t : Task) (tmp iCount : Nat) : Option Sys :=
  match t.executable with
  | none => s.after nr t (getEmptyPage (slotBase nr + tmp) s.mem)
  | some ino =>
    if t.endData ≤ tmp then s.after nr t (getEmptyPage (slotBase nr + tmp) s.mem)
    else
      match (if iCount < 2 then .ok false s.mem else sharePage s.task nr ino tmp 63 s.mem) with
      | .ok true m => some { s with mem := m }
      | .ok false m => readPage { s with mem := m } nr t tmp
      | .panic _ _ => none
      | .oom m => doExit { s with mem := m } nr t

/-- The end of `do_no_page`: the blocks have arrived. -/
def loaded (file : Nat → Program) (s : Sys) (nr : Nat) (t : Task) (ino tmp page : Nat) :
    Option Sys :=
  match putPage page (slotBase nr + tmp) (s.mem.fill page ((file ino).image tmp t.endData)) with
  | (true, m) => some (Sys.setTask ⟨m, Function.update s.held page false, s.task⟩ nr
      { t with loading := none })
  | (false, m) =>
    match freePage page m with
    | .ok _ m => doExit ⟨m, Function.update s.held page false, s.task⟩ nr { t with loading := none }
    | _ => none

/-! ## `do_execve` -/

/-- One page of argument strings; without a page nothing happens here. -/
def execArg (s : Sys) (nr : Nat) (t : Task) (i : Nat) (content : Nat → Word) : Sys :=
  match getFreePage s.mem with
  | none => s
  | some (f, m) => Sys.setTask ⟨m.fill f content, Function.update s.held f true, s.task⟩ nr
      { t with args := (i, f) :: t.args }

/-- The exits `exec_error1` and `exec_error2`: `free_page` of all argument pages. -/
def freeArgs : List (Nat × Nat) → Mem × (Nat → Bool) → Option (Mem × (Nat → Bool))
  | [], r => some r
  | (_, f) :: args, (m, held) =>
    match freePage f m with
    | .ok _ m => freeArgs args (m, Function.update held f false)
    | _ => none

/-- The loop of `change_ldt`; the answer of `put_page` is not looked at. -/
def putArgs (base : Nat) (args : List (Nat × Nat)) :
    List Nat → Mem × (Nat → Bool) → Mem × (Nat → Bool)
  | [], r => r
  | i :: is, (m, held) =>
    match args.lookup i with
    | none => putArgs base args is (m, held)
    | some f =>
      match putPage f (base + 0x4000000 - (32 - i) * 4096) m with
      | (true, m) => putArgs base args is (m, Function.update held f false)
      | (false, m) => putArgs base args is (m, held)

/-- A read (`none`) or a write of a word of a page that is present. -/
def Mem.access (m : Mem) (address : Nat) : Option Word → Mem
  | none => m
  | some w => m.storeAt address w

/-- `create_tables`: reads (`none`) and writes of words at offsets of the stack, in kernel mode. An
absent page is a fault that `get_empty_page` serves. -/
def createTables (base : Nat) : List (Nat × Option Word) → Mem → Res Unit
  | [], m => .ok () m
  | (off, w) :: rest, m =>
    (if presentAt m (base + off) then .ok () m else getEmptyPage (base + off) m).bind fun _ m =>
      createTables base rest (m.access (base + off) w)

/-- `do_execve` from the first `free_page_tables` to the assignment of `end_data`. -/
def execFinish (file : Nat → Program) (s : Sys) (nr : Nat) (t : Task) (ino : Nat)
    (stack : List (Nat × Option Word)) : Option Sys :=
  match freePageTables (slotBase nr) t.codeLimit s.mem with
  | .ok _ m =>
    match freePageTables (slotBase nr) t.dataLimit m with
    | .ok _ m =>
      let t := { t with codeLimit := (file ino).codeLimit, dataLimit := 0x4000000 }
      let r := putArgs (slotBase nr) t.args (List.range 32).reverse (m, s.held)
      let s := { s with held := r.2 }
      match createTables (slotBase nr) stack r.1 with
      | .ok _ m => some (Sys.setTask { s with mem := m } nr
          { t with args := [], endData := (file ino).endData,
                   phase := .zeroing (((file ino).exec.text + (file ino).exec.data) % 2 ^ 32) })
      | .panic _ _ => none
      | .oom m => doExit { s with mem := m } nr t
    | _ => none
  | _ => none

/-- A page whose byte at a linear address is cleared. -/
def clearByte (address : Nat) (page : Nat → Word) : Nat → Word :=
  Function.update page (address / 4 % 1024)
    (page (address / 4 % 1024) &&& ~~~ (0xff#32 <<< (8 * (address % 4))))

/-- `put_fs_byte(0, i)`. -/
def zeroByte (m : Mem) (address : Nat) : Mem :=
  m.storeAt address
    (clearByte address (m.ram (frame (entryAt m address))) (address / 4 % 1024))

/-! ## The machine -/

/-- What can happen. Offsets are relative to the data segment of the task. -/
inductive Event where
  | fork (parent child : Nat)
  | exit (nr : Nat)
  | release (nr : Nat)
  | userWrite (nr off : Nat) (w : Word)
  | wpFault (nr off : Nat)
  | verify (nr address : Nat)
  | noPage (nr off iCount : Nat)
  | loaded (nr : Nat)
  | execArg (nr i : Nat) (content : Nat → Word)
  | execFail (nr : Nat)
  | execSet (nr ino : Nat)
  | execFinish (nr : Nat) (stack : List (Nat × Option Word))
  | zeroByte (nr : Nat)
  | execDone (nr : Nat)

/-- Run `k` on the task of a slot when the condition holds. -/
def Sys.withTask (s : Sys) (nr : Nat) (cond : Task → Bool) (k : Task → Option Sys) : Option Sys :=
  match s.task nr with
  | some t => if 1 ≤ nr ∧ cond t then k t else none
  | none => none

/-- A page fault may happen in user mode, in `copy_strings` and while `do_execve` clears the last
page. -/
def Task.mayFault (t : Task) : Bool :=
  t.loading.isNone && match t.phase with
    | .running => true
    | .zeroing _ => true
    | _ => false

/-- One event. Between `sys_close` and `end_data = …` the stack of a new program lies above the
`end_data` of the old one: 32 argument pages, their pointers and 3 words fit into one megabyte. -/
def step (file : Nat → Program) (s : Sys) : Event → Option Sys
  | .fork parent child =>
    match s.task parent, s.task child with
    | some t, none => if t.InUser ∧ 1 ≤ child ∧ child < 64 then fork s parent child t else none
    | _, _ => none
  | .exit nr => s.withTask nr (fun t => t.InUser) fun t => doExit s nr t
  | .release nr => s.withTask nr (fun t => t.phase = .zombie) fun t => release s nr t
  | .userWrite nr off w =>
    s.withTask nr (fun t => t.InUser ∧ off < t.dataLimit ∧ presentAt s.mem (slotBase nr + off))
      fun t => userWrite s nr t (slotBase nr + off) w
  | .wpFault nr off =>
    s.withTask nr (fun t => t.InUser ∧ off < t.dataLimit ∧ presentAt s.mem (slotBase nr + off)
        ∧ writable (entryAt s.mem (slotBase nr + off)) = false)
      fun t => s.after nr t (doWpPage (slotBase nr + off) s.mem)
  | .verify nr address =>
    s.withTask nr (fun t => t.InUser ∧ address < 2 ^ 32)
      fun t => s.after nr t (writeVerify address s.mem)
  | .noPage nr off iCount =>
    s.withTask nr (fun t => t.mayFault ∧ off < t.dataLimit ∧
        presentAt s.mem (slotBase nr + off) = false)
      fun t => noPage s nr t (off / 4096 * 4096) iCount
  | .loaded nr =>
    s.withTask nr (fun _ => true) fun t =>
      match t.loading, t.executable with
      | some (tmp, page), some ino => loaded file s nr t ino tmp page
      | _, _ => none
  | .execArg nr i content =>
    s.withTask nr (fun t => t.phase = .running ∧ t.loading.isNone ∧ i < 32 ∧
        (t.args.lookup i).isNone)
      fun t => some (execArg s nr t i content)
  | .execFail nr =>
    s.withTask nr (fun t => t.phase = .running ∧ t.loading.isNone) fun t =>
      (freeArgs t.args (s.mem, s.held)).map fun r =>
        Sys.setTask ⟨r.1, r.2, s.task⟩ nr { t with args := [] }
  | .execSet nr ino =>
    s.withTask nr (fun t => t.phase = .running ∧ t.loading.isNone ∧ (file ino).Accepted)
      fun t => some (s.setTask nr { t with executable := some ino, phase := .closing })
  | .execFinish nr stack =>
    s.withTask nr (fun t => t.phase = .closing ∧ t.loading.isNone ∧
        ∀ x ∈ stack, 0x3F00000 ≤ x.1 ∧ x.1 < 0x4000000 ∧ t.endData ≤ x.1 / 4096 * 4096)
      fun t => t.executable.bind fun ino => execFinish file s nr t ino stack
  | .zeroByte nr =>
    s.withTask nr (fun _ => true) fun t =>
      match t.phase with
      | .zeroing i =>
        if t.loading.isNone ∧ i % 4096 ≠ 0 ∧ i < t.dataLimit ∧ presentAt s.mem (slotBase nr + i)
        then some (Sys.setTask { s with mem := zeroByte s.mem (slotBase nr + i) } nr
          { t with phase := .zeroing (i + 1) })
        else none
      | _ => none
  | .execDone nr =>
    s.withTask nr (fun _ => true) fun t =>
      match t.phase with
      | .zeroing i => if t.loading.isNone ∧ i % 4096 = 0
          then some (s.setTask nr { t with phase := .running }) else none
      | _ => none

/-- The system `main` starts with: task 0 alone. -/
def Sys.boot (lo hi : Nat) (m : Mem) : Sys :=
  ⟨Mm.boot lo hi m, fun _ => false, fun nr => if nr = 0 then some initTask else none⟩

end Linux011.Mm
