import Mathlib.Data.List.FinRange
import Mathlib.Logic.Function.Basic
import Linux011.Lib.Machine
import Mathlib.Algebra.Group.Nat.Defs

/-!
# Block requests (`kernel/blk_drv/ll_rw_blk.c`, `kernel/blk_drv/blk.h`)

A task that wants a buffer read or written locks it, takes a free slot of `request`, fills it in and
links it into the queue of the device. The driver works on the first request of its queue and ends it:
the buffer is unlocked and the slot is free again. A task may sleep twice on its way, in `lock_buffer`
and for a free slot, and it holds the lock when it sleeps for a slot.

Requests get numbers in the order in which they are queued, and `ended` has the numbers of those that
were ended. The code does not see these.
-/

namespace Linux011.Block

/-! ## State -/

/-- `NR_REQUEST`. -/
abbrev nrRequest : Nat := 32

abbrev Slot := Fin nrRequest

inductive Rw
  | read
  | write
  | readAhead
  | writeAhead
  deriving DecidableEq

/-- The values of `READ` and so on. -/
def Rw.val : Rw → Nat
  | .read => 0
  | .write => 1
  | .readAhead => 2
  | .writeAhead => 3

/-- `struct buffer_head`. -/
structure Buffer where
  data : Nat
  blocknr : Nat
  dev : Nat
  uptodate : Bool
  dirt : Bool
  lock : Bool

/-- `struct blk_request`; `dev` is -1 if there is no request. -/
structure Request (β κ : Type*) where
  dev : Int
  cmd : Rw
  errors : Nat
  sector : Nat
  nrSectors : Nat
  buffer : Nat
  waiting : Option κ
  bh : Option β
  next : Option Slot

/-- Where a task is. -/
inductive Phase (β : Type*)
  | idle
  /-- Asleep in `lock_buffer`. -/
  | locking (major : Nat) (rw : Rw) (ahead : Bool) (bh : β)
  /-- Asleep on `wait_for_request`. -/
  | waiting (major : Nat) (rw : Rw) (bh : β)

structure State (β κ : Type*) where
  buffer : β → Buffer
  request : Slot → Request β κ
  /-- `current_request` of each device. -/
  current : Nat → Option Slot
  phase : κ → Phase β
  number : Slot → Nat
  queued : Nat
  ended : List Nat

variable {β κ : Type*} [DecidableEq β] [DecidableEq κ]

def State.modify (s : State β κ) (bh : β) (f : Buffer → Buffer) : State β κ :=
  { s with buffer := Function.update s.buffer bh (f (s.buffer bh)) }

def State.at (s : State β κ) (t : κ) (p : Phase β) : State β κ :=
  { s with phase := Function.update s.phase t p }

/-- `unlock_buffer`. -/
def unlockBuffer (bh : β) (s : State β κ) : State β κ := s.modify bh fun b => { b with lock := false }

/-! ## The queue -/

omit [DecidableEq β] [DecidableEq κ] in
/-- `IN_ORDER`. -/
def inOrder (q r : Request β κ) : Bool :=
  q.cmd.val < r.cmd.val ∨
    q.cmd = r.cmd ∧ (q.dev < r.dev ∨ q.dev = r.dev ∧ q.sector < r.sector)

/-- The loop of `add_request` from `tmp` on, at most `fuel` times around. -/
def place (request : Slot → Request β κ) (r : Slot) : Nat → Slot → Option Slot
  | 0, _ => none
  | fuel + 1, tmp =>
    match (request tmp).next with
    | none => some tmp
    | some n =>
      if (inOrder (request tmp) (request r) || !inOrder (request tmp) (request n)) &&
          inOrder (request r) (request n) then some tmp
      else place request r fuel n

/-- The requests with `r` linked behind `p`. -/
def link (request : Slot → Request β κ) (r p : Slot) : Slot → Request β κ :=
  let request := Function.update request r { request r with next := (request p).next }
  Function.update request p { request p with next := some r }

/-- `add_request` of slot `r`. It is `none` only if the loop does not end. -/
def addRequest (major : Nat) (r : Slot) (s : State β κ) : Option (State β κ) :=
  let s := { s with request := Function.update s.request r { s.request r with next := none } }
  let s := match (s.request r).bh with
    | none => s
    | some bh => s.modify bh fun b => { b with dirt := false }
  match s.current major with
  | none => some { s with current := Function.update s.current major (some r) }
  | some tmp => (place s.request r nrRequest tmp).map fun p => { s with request := link s.request r p }

/-! ## Making a request -/

/-- How many slots a request may have: the last third is for reads. -/
def limit (rw : Rw) : Nat := if rw = .read then nrRequest else nrRequest * 2 / 3

/-- The free slot with the highest index below the limit. -/
def freeSlot (request : Slot → Request β κ) (rw : Rw) : Option Slot :=
  (List.finRange nrRequest).reverse.find? fun r => r.val < limit rw ∧ (request r).dev < 0

/-- The request for `bh`. -/
def fill (rw : Rw) (bh : β) (b : Buffer) : Request β κ where
  dev := b.dev
  cmd := rw
  errors := 0
  sector := b.blocknr * 2 % 2 ^ 32
  nrSectors := 2
  buffer := b.data
  waiting := none
  bh := some bh
  next := none

/-- `make_request` from `repeat` on. -/
def findRequest (t : κ) (major : Nat) (rw : Rw) (ahead : Bool) (bh : β) (s : State β κ) :
    Option (State β κ) :=
  match freeSlot s.request rw with
  | none =>
    if ahead then some ((unlockBuffer bh s).at t .idle) else some (s.at t (.waiting major rw bh))
  | some r =>
    addRequest major r
      { s.at t .idle with
        request := Function.update s.request r (fill rw bh (s.buffer bh))
        number := Function.update s.number r s.queued
        queued := s.queued + 1 }

/-- `make_request` from `lock_buffer` on. -/
def lockBuffer (t : κ) (major : Nat) (rw : Rw) (ahead : Bool) (bh : β) (s : State β κ) :
    Option (State β κ) :=
  if (s.buffer bh).lock then some (s.at t (.locking major rw ahead bh))
  else
    let s := s.modify bh fun b => { b with lock := true }
    if (rw = .write ∧ ¬ (s.buffer bh).dirt) ∨ (rw = .read ∧ (s.buffer bh).uptodate) then
      some ((unlockBuffer bh s).at t .idle)
    else findRequest t major rw ahead bh s

/-- `make_request`. -/
def makeRequest (t : κ) (major : Nat) (rw : Rw) (bh : β) (s : State β κ) : Option (State β κ) :=
  match rw with
  | .readAhead => if (s.buffer bh).lock then some s else lockBuffer t major .read true bh s
  | .writeAhead => if (s.buffer bh).lock then some s else lockBuffer t major .write true bh s
  | .read => lockBuffer t major .read false bh s
  | .write => lockBuffer t major .write false bh s

/-- `ll_rw_block`; `served` are the devices that there are and that have a `request_fn`. -/
def llRwBlock (served : Nat → Bool) (t : κ) (rw : Rw) (bh : β) (s : State β κ) : Option (State β κ) :=
  if served ((s.buffer bh).dev / 256) then makeRequest t ((s.buffer bh).dev / 256) rw bh s else some s

/-! ## Ending a request -/

/-- `end_request` of a device; `none` if its queue is empty. -/
def endRequest (major : Nat) (uptodate : Bool) (s : State β κ) : Option (State β κ) :=
  (s.current major).map fun r =>
    let s := match (s.request r).bh with
      | none => s
      | some bh => unlockBuffer bh (s.modify bh fun b => { b with uptodate := uptodate })
    { s with
      request := Function.update s.request r { s.request r with dev := -1 }
      current := Function.update s.current major (s.request r).next
      ended := s.number r :: s.ended }

/-! ## The system -/

inductive Event (β κ : Type*)
  | llRwBlock (t : κ) (rw : Rw) (bh : β)
  /-- A task goes on after its sleep. -/
  | wake (t : κ)
  | endRequest (major : Nat) (uptodate : Bool)
  /-- The rest of the kernel changes a buffer, but not its lock. -/
  | touch (bh : β) (b : Buffer)

/-- Task `t` goes on. -/
def resume (s : State β κ) (t : κ) : Option (State β κ) :=
  match s.phase t with
  | .idle => none
  | .locking major rw ahead bh => lockBuffer t major rw ahead bh s
  | .waiting major rw bh => findRequest t major rw false bh s

/-- Task `t` calls `ll_rw_block`. -/
def call (served : Nat → Bool) (s : State β κ) (t : κ) (rw : Rw) (bh : β) : Option (State β κ) :=
  match s.phase t with
  | .idle => llRwBlock served t rw bh s
  | _ => none

def step (served : Nat → Bool) (s : State β κ) : Event β κ → Option (State β κ)
  | .llRwBlock t rw bh => call served s t rw bh
  | .wake t => resume s t
  | .endRequest major uptodate => endRequest major uptodate s
  | .touch bh b => some (s.modify bh fun old => { b with lock := old.lock })

/-- After `blk_dev_init`, and nobody is in `make_request`. -/
structure Start (s : State β κ) : Prop where
  request : ∀ r, (s.request r).dev = -1 ∧ (s.request r).next = none
  current : ∀ d, s.current d = none
  lock : ∀ b, (s.buffer b).lock = false
  phase : ∀ t, s.phase t = .idle
  queued : s.queued = 0
  ended : s.ended = []

end Linux011.Block
