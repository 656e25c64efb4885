import Linux011.Lib.Machine
import Linux011.Lib.Tally
import Linux011.Inode.Table
import Linux011.Lib.Slots

/-!
# Tasks in the inode table

Any number of tasks run `iget`, `iput` and `get_empty_inode` at once. A task that runs keeps the
processor until it sleeps: `current` names it. A task sleeps where an inode is locked, and where a
block is read (`read_inode`, `write_inode`, the blocks that `truncate` frees).

The activations of a task form a stack of frames. A frame below the top waits for the one above it.

`iput` of a block device calls `sync_dev`, which writes any number of inodes and blocks; so it may
start `write_inode` on any entry and sleep. A panic stops the machine, and so does a device without
a super block.
-/

namespace Linux011.Inode

/-! ## Frames -/

/-- On whose behalf `get_empty_inode` runs. -/
inductive Caller where
  | client
  | iget (dev : Dev) (num : Num)
  deriving DecidableEq

/-- The points at which a task can be. -/
inductive Frame where
  /-- `get_empty_inode`: the top of its loop. -/
  | empty (k : Caller)
  /-- `get_empty_inode`: `wait_on_inode_unlock`, `while (inode->i_dirt)`, and the test of
  `i_count`. -/
  | emptyWait (k : Caller) (i : Nat)
  /-- `iget`: the search from `inode_table` on, with the entry `empty`. -/
  | search (dev : Dev) (num : Num) (empty : Nat)
  /-- `iget`: `wait_on_inode_unlock` of the entry found, and what follows. -/
  | found (dev : Dev) (num : Num) (empty i : Nat)
  /-- `iget`: on to the root of the super block, when the inode it is mounted on is put back. -/
  | cross (k empty : Nat)
  /-- `iget`: `return inode`. -/
  | give (i : Nat)
  /-- `read_inode`: `lock_inode`. -/
  | readInode (i : Nat)
  /-- `read_inode`: `bread`. -/
  | readBlock (i : Nat)
  /-- `write_inode`: `lock_inode`, and the test behind it. -/
  | writeInode (i : Nat)
  /-- `write_inode`: `bread`. -/
  | writeBlock (i : Nat)
  /-- `iput`: from the beginning on. -/
  | iput (i : Nat)
  /-- `iput`: `sync_dev` of a block device. -/
  | iputSync (i : Nat)
  /-- `iput`: `wait_on_inode_unlock` before `repeat`. -/
  | iputWait (i : Nat)
  /-- `iput`: `repeat`. -/
  | iputRepeat (i : Nat)
  /-- `truncate`. -/
  | truncate (i : Nat)
  /-- `free_inode`. -/
  | freeInode (i : Nat)
  deriving DecidableEq

/-- What a block, or the code outside, brings: the task sleeps, it goes on, `sync_dev` writes an
inode; `data` is what `read_inode` finds on the disk. -/
inductive Choice where
  | sleep
  | done
  | write (i : Nat)
  | data (mode : Mode) (nlinks : Nat)

/-- A reference a client holds, with the identity at the time it got it. -/
structure Ref where
  i : Nat
  dev : Dev
  num : Num
  deriving DecidableEq

/-- What one instruction of the top frame comes to. -/
inductive Outcome where
  | next (c : Table) (fs : List Frame)
  | sleep (fs : List Frame)
  | hand (c : Table) (i : Nat)
  | panic

/-! ## Instructions -/

/-- `wait_on_inode_unlock` and `lock_inode`: the frame stays while the entry is locked. -/
def waitUnlock (c : Table) (i : Nat) (f : Frame) (next : Outcome) : Outcome :=
  if (c.inode i).lock then .sleep [f] else next

/-- `repeat` of `iput`. -/
def iputTest (c : Table) (i : Nat) : Outcome :=
  if (c.inode i).count > 1 then .next (c.drop i) []
  else if (c.inode i).nlinks = 0 then .next c [.truncate i, .freeInode i]
  else if (c.inode i).dirt then .next c [.writeInode i, .iputWait i]
  else .next (c.drop i) []

/-- One instruction of the top frame. -/
def exec (c : Table) (x : Choice) : Frame → Outcome
  | .empty k =>
    match scanEmpty c.inode 32 c.last none with
    | (last, some i) => .next { c with last := last } [.emptyWait k i]
    | (_, none) => .panic
  | .emptyWait k i =>
    waitUnlock c i (.emptyWait k i) <|
      if (c.inode i).dirt then .next c [.writeInode i, .emptyWait k i]
      else if (c.inode i).count ≠ 0 then .next c [.empty k]
      else
        match k with
        | .client => .hand (c.clear i) i
        | .iget dev num => .next (c.clear i) [.search dev num i]
  | .search dev num empty =>
    match findInode c dev num with
    | some i => .next c [.found dev num empty i]
    | none => .next (c.identify empty dev num) [.readInode empty]
  | .found dev num empty i =>
    waitUnlock c i (.found dev num empty i) <|
      if ¬ (c.inode i).Is dev num then .next c [.search dev num empty]
      else if (c.inode i).mount then
        match mountedOn c i with
        | some k => .next (c.hold i) [.iput i, .cross k empty]
        | none => .next (c.hold i) [.iput empty, .give i]
      else .next (c.hold i) [.iput empty, .give i]
  | .cross k empty => .next c [.search (c.superBlock k).dev 1 empty]
  | .give i => .hand c i
  | .readInode i =>
    waitUnlock c i (.readInode i) <|
      .next (c.modify i fun h => { h with lock := true }) [.readBlock i]
  | .readBlock i =>
    match x with
    | .data mode nlinks =>
      .hand (c.modify i fun h => { h with mode := mode, nlinks := nlinks, lock := false }) i
    | _ => .sleep [.readBlock i]
  | .writeInode i =>
    waitUnlock c i (.writeInode i) <|
      if (c.inode i).dirt = false ∨ (c.inode i).dev = 0 then .next c []
      else .next (c.modify i fun h => { h with lock := true }) [.writeBlock i]
  | .writeBlock i =>
    match x with
    | .done => .next (c.modify i fun h => { h with dirt := false, lock := false }) []
    | _ => .sleep [.writeBlock i]
  | .iput i =>
    waitUnlock c i (.iput i) <|
      if (c.inode i).count = 0 then .panic
      else if (c.inode i).dev = 0 then .next (c.drop i) []
      else if (c.inode i).mode = .block then .next c [.iputSync i]
      else .next c [.iputRepeat i]
  | .iputSync i =>
    match x with
    | .done => .next c [.iputWait i]
    | .write j => .next c [.writeInode j, .iputSync i]
    | _ => .sleep [.iputSync i]
  | .iputWait i => waitUnlock c i (.iputWait i) <| .next c [.iputRepeat i]
  | .iputRepeat i => iputTest c i
  | .truncate i =>
    if (c.inode i).mode = .regular ∨ (c.inode i).mode = .directory then
      match x with
      | .done => .next (c.modify i fun h => { h with dirt := true }) []
      | _ => .sleep [.truncate i]
    else .next c []
  | .freeInode i =>
    if (c.inode i).dev = 0 then .next (c.modify i fun _ => .zero) []
    else if (c.inode i).count > 1 then .panic
    else if (c.inode i).nlinks ≠ 0 then .panic
    else .next (c.modify i fun _ => .zero) []

/-! ## The machine -/

/-- The table, the stack of every task, the references its client holds, and the task that has the
processor. -/
structure Sys (ι : Type*) where
  table : Table
  stack : ι → List Frame
  held : ι → List Ref
  current : Option ι

/-- What can happen: a task gets the processor or gives it away in user mode, calls a function with
a reference it holds where it needs one, marks an inode dirty or changes its link count through a
reference, mounts a device on an inode it holds, or executes an instruction. -/
inductive Event (ι : Type*) where
  | resume (t : ι)
  | leave (t : ι)
  | iget (t : ι) (dev : Dev) (num : Num)
  | getEmptyInode (t : ι)
  | iput (t : ι) (r : Ref)
  | change (t : ι) (r : Ref) (nlinks : Nat)
  | mount (t : ι) (r : Ref) (k : Nat) (dev : Dev)
  | run (t : ι) (x : Choice)

section
variable {ι : Type*} [DecidableEq ι]

/-- Task `t`, with the stack `fs` and the references `rs` from now on. -/
def Sys.goto (s : Sys ι) (t : ι) (c : Table) (fs : List Frame) (rs : List Ref)
    (current : Option ι) : Sys ι :=
  ⟨c, Function.update s.stack t fs, Function.update s.held t rs, current⟩

/-- The next instruction of task `t`. -/
def runTask (s : Sys ι) (t : ι) (x : Choice) : Option (Sys ι) :=
  match s.stack t with
  | [] => none
  | f :: rest =>
    match exec s.table x f with
    | .next c fs => some (s.goto t c (fs ++ rest) (s.held t) (some t))
    | .sleep fs => some (s.goto t s.table (fs ++ rest) (s.held t) none)
    | .hand c i =>
      some (s.goto t c rest (⟨i, (c.inode i).dev, (c.inode i).num⟩ :: s.held t) (some t))
    | .panic => none

/-- The task is in user mode, and has the processor. -/
def Sys.User (s : Sys ι) (t : ι) : Prop := s.current = some t ∧ s.stack t = []

instance (s : Sys ι) (t : ι) : Decidable (s.User t) := inferInstanceAs (Decidable (_ ∧ _))

/-- One event. -/
def step (s : Sys ι) : Event ι → Option (Sys ι)
  | .resume t => if s.current = none then some { s with current := some t } else none
  | .leave t => if s.User t then some { s with current := none } else none
  | .iget t dev num =>
    -- iget with dev==0 is a panic
    if s.User t ∧ dev ≠ 0 then
      some (s.goto t s.table [.empty (.iget dev num)] (s.held t) (some t))
    else none
  | .getEmptyInode t =>
    if s.User t then some (s.goto t s.table [.empty .client] (s.held t) (some t)) else none
  | .iput t r =>
    if s.User t ∧ r ∈ s.held t then
      some (s.goto t s.table [.iput r.i] ((s.held t).erase r) (some t))
    else none
  | .change t r nlinks =>
    if s.User t ∧ r ∈ s.held t then
      some { s with table := s.table.modify r.i fun h => { h with nlinks := nlinks, dirt := true } }
    else none
  | .mount t r k dev =>
    if s.User t ∧ r ∈ s.held t ∧ dev ≠ 0 then
      some { s with table := { s.table.modify r.i (fun h => { h with mount := true }) with
        superBlock := Function.update s.table.superBlock k ⟨dev, some r.i⟩ } }
    else none
  | .run t x => if s.current = some t then runTask s t x else none

end

/-- An empty table and tasks that do nothing yet. -/
def Sys.Start {ι : Type*} (s : Sys ι) : Prop :=
  (∀ i, s.table.inode i = .zero) ∧ (∀ k, (s.table.superBlock k).inodeMount = none) ∧
    (∀ t, s.stack t = []) ∧ (∀ t, s.held t = []) ∧ s.current = none

end Linux011.Inode
