import Mathlib.Data.List.FinRange
import Mathlib.Logic.Function.Basic
import Linux011.Lib.Machine
import Mathlib.Algebra.Group.Nat.Defs
import Mathlib.Algebra.Group.Int.Defs
import Linux011.Lib.Slots

/-!
# The process table (`kernel/fork.c`, `kernel/exit.c`)

`task` has 64 slots. `fork` puts a new task into a free one, with a pid that no task has; `do_exit`
gives the children of the task to init, goes to sleep while it closes files, and makes the task a
zombie; `sys_waitpid` of the father takes the zombie out of its slot. A task runs until it sleeps, so
an event is what one task does between two sleeps.

Everything here is by pid, and pids come again after the counter has wrapped. To say what `fork`,
`exit` and `waitpid` do to one process, each gets a number of its own at its fork. The code does not
see these numbers: `id` is the number of a task and `parent` that of its father; `History` keeps, by
number, what `fork` and `do_exit` said and what `waitpid` returned.
-/

namespace Linux011.TaskTable

/-! ## State -/

abbrev Mask := BitVec 32

/-- The values of `state`. -/
inductive State
  | running
  | interruptible
  | uninterruptible
  | zombie
  | stopped
  deriving DecidableEq

/-- What `waitpid` says of the child numbered `child`. -/
structure Return where
  child : Nat
  /-- Who called. -/
  caller : Nat
  /-- The father of the child at that time. -/
  father : Nat
  pid : Int
  code : Int
  deriving DecidableEq

/-- Where a task is. -/
inductive Phase
  | user
  /-- Asleep in `waitpid`. -/
  | waiting (pid options : Int)
  /-- In `waitpid`, in the `schedule` of `release`. -/
  | releasing (r : Return)
  /-- In `do_exit`, its children given away. -/
  | exiting (code : Int)
  | exited
  deriving DecidableEq

/-- `struct task_struct`, as far as the process table goes. -/
structure Task where
  state : State
  signal : Mask
  exitCode : Int
  pid : Int
  father : Int
  pgrp : Int
  session : Int
  leader : Bool
  /-- What the last call returned. -/
  eax : Int
  phase : Phase
  id : Nat
  parent : Nat

structure History where
  /-- The number of the next fork. -/
  next : Nat
  pid : Nat → Int
  /-- The code passed to `do_exit`. -/
  exit : Nat → Option Int
  zombies : List Nat
  released : List Nat
  returned : List Return

/-- `NR_TASKS`. -/
abbrev nrTasks : Nat := 64

abbrev Slot := Fin nrTasks

structure Table where
  lastPid : Int
  task : Slot → Option Task
  hist : History

def Table.put (s : Table) (i : Slot) (t : Task) : Table :=
  { s with task := Function.update s.task i (some t) }

/-! ## Errors and options -/

def echild : Int := 10
def eagain : Int := 11
def eintr : Int := 4
def eperm : Int := 1
def esrch : Int := 3

/-- `WNOHANG` and `WUNTRACED` are bits 0 and 1. -/
def wnohang (options : Int) : Bool := decide (options % 2 = 1)
def wuntraced (options : Int) : Bool := decide (options / 2 % 2 = 1)

/-- The bit of `SIGCHLD`. -/
def sigchld : Mask := (1 : Mask) <<< 16

/-! ## Fork -/

/-- `if ((++last_pid)<0) last_pid=1`. -/
def nextPid (lastPid : Int) : Int :=
  let p := (lastPid + 1).bmod (2 ^ 32)
  if p < 0 then 1 else p

/-- `task[i] && task[i]->pid == pid` for some `i`. -/
def taken (task : Slot → Option Task) (pid : Int) : Bool :=
  (List.finRange nrTasks).any fun i => (task i).any fun t => t.pid = pid

/-- The loop `repeat` of `find_empty_process`, at most `fuel` times around. -/
def unusedPid (task : Slot → Option Task) : Nat → Int → Option Int
  | 0, _ => none
  | fuel + 1, lastPid =>
    if taken task (nextPid lastPid) then unusedPid task fuel (nextPid lastPid) else some (nextPid lastPid)

/-- The first free slot from 1 on. -/
def emptySlot (task : Slot → Option Task) : Option Slot :=
  (List.finRange nrTasks).find? fun i => i ≠ 0 ∧ (task i).isNone

/-- The child that `copy_process` makes of `current`. -/
def Task.child (current : Task) (pid : Int) (id : Nat) : Task :=
  { current with
    state := .running
    pid := pid
    father := current.pid
    signal := 0
    leader := false
    eax := 0
    phase := .user
    id := id
    parent := current.id }

/-- `copy_process` into slot `nr`; without memory there is no child. -/
def copyProcess (i nr : Slot) (t : Task) (memory : Bool) (s : Table) : Table :=
  if memory then
    let s := s.put nr (t.child s.lastPid s.hist.next)
    let s := s.put i { t with eax := s.lastPid }
    { s with hist := { s.hist with
        next := s.hist.next + 1
        pid := Function.update s.hist.pid s.hist.next s.lastPid } }
  else s.put i { t with eax := -eagain }

/-- `sys_fork`: `find_empty_process` and `copy_process`. It is `none` only if no pid was found. -/
def sysFork (i : Slot) (t : Task) (memory : Bool) (s : Table) : Option Table :=
  (unusedPid s.task (nrTasks + 1) s.lastPid).map fun pid =>
    let s := { s with lastPid := pid }
    match emptySlot s.task with
    | none => s.put i { t with eax := -eagain }
    | some nr => copyProcess i nr t memory s

/-! ## Exit -/

/-- `task[nr] = NULL` of `release`. -/
def release (nr : Slot) (s : Table) : Table :=
  match s.task nr with
  | none => s
  | some t =>
    { s with
      task := Function.update s.task nr none
      hist := { s.hist with released := t.id :: s.hist.released } }

/-- A task gets init for its father, if that was `current`. Its number `parent` follows. -/
def reparent (current : Task) (initId : Nat) (u : Task) : Task :=
  { u with
    father := if u.father = current.pid then 1 else u.father
    parent := if u.parent = current.id then initId else u.parent }

/-- A child of `current` is a zombie. -/
def orphaned (current : Task) (task : Slot → Option Task) : Bool :=
  (List.finRange nrTasks).any fun i =>
    (task i).any fun u => u.father = current.pid ∧ u.state = .zombie

/-- `SIGCHLD` for the task in slot `i`, if there is one. -/
def tell (i : Slot) (task : Slot → Option Task) : Slot → Option Task :=
  Function.update task i ((task i).map fun u => { u with signal := u.signal ||| sigchld })

/-- The loop of `do_exit` over the children of `current`. -/
def adopt (current : Task) (task : Slot → Option Task) : Slot → Option Task :=
  let initId := ((task 1).map Task.id).getD 0
  let adopted := fun i => (task i).map (reparent current initId)
  if orphaned current task then tell 1 adopted else adopted

/-- `do_exit`, up to its first sleep. -/
def doExit (i : Slot) (t : Task) (code : Int) (s : Table) : Table :=
  let task := adopt t s.task
  { s with
    task := Function.update task i ((task i).map fun t => { t with phase := .exiting code })
    hist := { s.hist with exit := Function.update s.hist.exit t.id (some code) } }

/-- `tell_father`: the first task with that pid. -/
def fatherSlot (task : Slot → Option Task) (pid : Int) : Option Slot :=
  if pid = 0 then none
  else (List.finRange nrTasks).find? fun i => (task i).any fun t => t.pid = pid

/-- The end of `do_exit`, from `current->state = TASK_ZOMBIE` on. -/
def becomeZombie (i : Slot) (t : Task) (code : Int) (s : Table) : Table :=
  let s := s.put i { t with state := .zombie, exitCode := code, phase := .exited }
  let s := { s with hist := { s.hist with zombies := t.id :: s.hist.zombies } }
  match fatherSlot s.task t.father with
  | none => release i s
  | some j => { s with task := tell j s.task }

/-! ## Wait -/

/-- The child is one that `waitpid` with this `pid` is about. -/
def wanted (current u : Task) (pid : Int) : Bool :=
  if pid > 0 then u.pid = pid
  else if pid = 0 then u.pgrp = current.pgrp
  else pid = -1 ∨ u.pgrp = -pid

inductive Found
  | stopped (u : Task)
  | zombie (nr : Slot) (u : Task)
  | none (flag : Bool)

/-- The loop of `sys_waitpid` over these slots. -/
def scan (s : Table) (i : Slot) (t : Task) (pid options : Int) : List Slot → Bool → Found
  | [], flag => .none flag
  | nr :: nrs, flag =>
    match s.task nr with
    | none => scan s i t pid options nrs flag
    | some u =>
      if nr = i ∨ u.father ≠ t.pid ∨ ¬ wanted t u pid then scan s i t pid options nrs flag
      else match u.state with
        | .stopped => if wuntraced options then .stopped u else scan s i t pid options nrs flag
        | .zombie => .zombie nr u
        | _ => scan s i t pid options nrs true

/-- `&LAST_TASK` down to the slot after `&FIRST_TASK`. -/
def slots : List Slot := ((List.finRange nrTasks).filter fun i => i ≠ 0).reverse

/-- `sys_waitpid` from `repeat` on, up to its return or a sleep. -/
def waitpid (i : Slot) (t : Task) (pid options : Int) (s : Table) : Table :=
  match scan s i t pid options slots false with
  | .stopped u =>
    let s := s.put i { t with eax := u.pid, phase := .user }
    { s with hist := { s.hist with returned := ⟨u.id, t.id, u.parent, u.pid, 0x7f⟩ :: s.hist.returned } }
  | .zombie nr u => (release nr s).put i { t with phase := .releasing ⟨u.id, t.id, u.parent, u.pid, u.exitCode⟩ }
  | .none true =>
    if wnohang options then s.put i { t with eax := 0, phase := .user }
    else s.put i { t with state := .interruptible, phase := .waiting pid options }
  | .none false => s.put i { t with eax := -echild, phase := .user }

/-- `sys_waitpid` after its sleep. -/
def wake (i : Slot) (t : Task) (pid options : Int) (s : Table) : Table :=
  let t := { t with state := .running, signal := t.signal &&& ~~~sigchld }
  let s := s.put i t
  if t.signal = 0#32 then waitpid i t pid options s
  else s.put i { t with eax := -eintr, phase := .user }

/-- The end of `sys_waitpid` once `release` is back. -/
def finish (i : Slot) (t : Task) (r : Return) (s : Table) : Table :=
  let s := s.put i { t with eax := r.pid, phase := .user }
  { s with hist := { s.hist with returned := r :: s.hist.returned } }

/-! ## Groups and signals -/

/-- `sys_setpgid`. -/
def setpgid (i : Slot) (t : Task) (pid pgid : Int) (s : Table) : Table :=
  let pid := if pid = 0 then t.pid else pid
  let pgid := if pgid = 0 then t.pid else pgid
  match (List.finRange nrTasks).find? fun j => (s.task j).any fun u => u.pid = pid with
  | none => s.put i { t with eax := -esrch }
  | some j =>
    match s.task j with
    | none => s
    | some u =>
      if u.leader ∨ u.session ≠ t.session then s.put i { t with eax := -eperm }
      else
        let s := s.put j { u with pgrp := pgid }
        { s with task := Function.update s.task i ((s.task i).map fun t => { t with eax := 0 }) }

/-- `sys_setsid`. -/
def setsid (i : Slot) (t : Task) (suser : Bool) (s : Table) : Table :=
  if t.leader ∧ ¬ suser then s.put i { t with eax := -eperm }
  else s.put i { t with leader := true, session := t.pid, pgrp := t.pid, eax := t.pid }

/-! ## The system -/

/-- What a task does between two sleeps. -/
inductive Event
  /-- `memory`: there is a page for the child and for each of its tables. -/
  | fork (i : Slot) (memory : Bool)
  | exit (i : Slot) (code : Int)
  /-- The files of `i` are closed. -/
  | zombie (i : Slot)
  | waitpid (i : Slot) (pid options : Int)
  /-- A task in `waitpid` goes on. -/
  | wake (i : Slot)
  | setpgid (i : Slot) (pid pgid : Int)
  | setsid (i : Slot) (suser : Bool)
  /-- Signals come. -/
  | post (i : Slot) (bits : Mask)

/-- A task that runs in user mode makes a call. Task 0 makes none once init is there. -/
def call (s : Table) (i : Slot) (f : Task → Option Table) : Option Table :=
  if i = 0 then none
  else (s.task i).bind fun t => if t.phase = .user then f t else none

/-- The rest of a call of `i`. -/
def resume (s : Table) (i : Slot) : Option Table :=
  (s.task i).bind fun t =>
    match t.phase with
    | .waiting pid options => some (wake i t pid options s)
    | .releasing r => some (finish i t r s)
    | _ => none

/-- The end of `do_exit` of `i`. -/
def die (s : Table) (i : Slot) : Option Table :=
  (s.task i).bind fun t =>
    match t.phase with
    | .exiting code => some (becomeZombie i t code s)
    | _ => none

def step (s : Table) : Event → Option Table
  | .fork i memory => call s i fun t => sysFork i t memory s
  -- init does not exit
  | .exit i code => if i = 1 then none else call s i fun t => some (doExit i t code s)
  | .zombie i => die s i
  | .waitpid i pid options => call s i fun t => some (waitpid i t pid options s)
  | .wake i => resume s i
  | .setpgid i pid pgid => call s i fun t => some (setpgid i t pid pgid s)
  | .setsid i suser => call s i fun t => some (setsid i t suser s)
  | .post i bits => (s.task i).map fun t => s.put i { t with signal := t.signal ||| bits }

/-- `INIT_TASK`. -/
def initTask : Task := ⟨.running, 0, 0, 0, -1, 0, 0, false, 0, .user, 0, 0⟩

/-- The table when `main` has forked init. -/
def boot : Table :=
  { lastPid := 1
    task := fun i => if i = 0 then some { initTask with eax := 1 }
      else if i = 1 then some (initTask.child 1 1) else none
    hist := ⟨2, fun n => if n = 1 then 1 else 0, fun _ => none, [], [], []⟩ }

end Linux011.TaskTable
