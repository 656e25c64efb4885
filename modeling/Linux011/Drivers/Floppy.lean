import Linux011.Drivers.Hd
import Mathlib.Data.BitVec
import Mathlib.Logic.Function.Basic

/-!
# The floppy driver (`kernel/blk_drv/floppy.c`)

`do_fd_request` sets a timer for the first request of the queue, because the motor has to be on. The timer
calls `transfer`, which seeks or starts the transfer, and leaves a handler in `do_floppy` for the
interrupt. Each byte for the controller may fail to be sent, and each result to be read; then `reset` is
set, and `do_fd_request` resets and recalibrates the drive before it looks at the queue.

A step is an interrupt, a timer that is due, or a new request. With it comes what the controller does
meanwhile: whether it takes each byte, what it replies, and how long the motor still needs. The motor, the
copies to and from the area that DMA can reach, and the DMA controller itself are left out.
-/

namespace Linux011.Drivers

abbrev Byte := BitVec 8

namespace Fd

/-- `MAX_ERRORS`. -/
def maxErrors : Nat := 8

/-- `MAX_REPLIES`. -/
def maxReplies : Nat := 7

/-- `struct floppy_struct`. -/
structure FloppyType where
  size : Nat
  sect : Nat
  head : Nat
  track : Nat
  stretch : Nat
  gap : Byte
  rate : Byte
  spec1 : Byte

/-- `floppy_type`. -/
def floppyType : List FloppyType :=
  [⟨0, 0, 0, 0, 0, 0x00, 0x00, 0x00⟩, ⟨720, 9, 2, 40, 0, 0x2A, 0x02, 0xDF⟩,
    ⟨2400, 15, 2, 80, 0, 0x1B, 0x00, 0xDF⟩, ⟨720, 9, 2, 40, 1, 0x2A, 0x02, 0xDF⟩,
    ⟨1440, 9, 2, 80, 0, 0x2A, 0x02, 0xDF⟩, ⟨720, 9, 2, 40, 1, 0x23, 0x01, 0xDF⟩,
    ⟨1440, 9, 2, 80, 0, 0x23, 0x01, 0xDF⟩, ⟨2880, 18, 2, 80, 0, 0x1B, 0x00, 0xCF⟩]

def noTesting : FloppyType := ⟨0, 0, 0, 0, 0, 0x00, 0x00, 0x00⟩

/-- `struct blk_request`; the number `id` tells requests apart. -/
structure Request where
  id : Nat
  dev : Nat
  cmd : Rw
  errors : Nat
  sector : Nat

/-- The request that `make_request` fills in. -/
def Request.make (id dev : Nat) (cmd : Rw) (block : Nat) : Request := ⟨id, dev, cmd, 0, 2 * block⟩

inductive Handler
  | rwInterrupt
  | seekInterrupt
  | recalInterrupt
  | resetInterrupt
  deriving DecidableEq

/-- What a timer calls. -/
inductive Timer
  | floppyOn
  | transfer
  deriving DecidableEq

/-- What the controller replies, and whether it is ready after that. -/
structure Reply where
  bytes : List Byte
  ready : Bool

inductive Event
  /-- An error in what was done for `owner`, and the request it is counted in. -/
  | error (owner charged : Nat)
  | ended (id : Nat) (uptodate : Bool)
  deriving DecidableEq

/-- `FD_READ`, `FD_WRITE`. -/
def commandOf : Rw → Byte
  | .read => 0xE6
  | .write => 0xC5

end Fd

/-- The queue and the variables of the driver; `cur_spec1` and `cur_rate` may be -1. The owner is the
request that `do_fd_request` has taken up last. -/
structure Fd where
  queue : List Fd.Request
  recalibrate : Bool
  reset : Bool
  seek : Bool
  curSpec1 : Option Byte
  curRate : Option Byte
  floppy : Fd.FloppyType
  currentDrive : Nat
  sector : Byte
  head : Byte
  track : Byte
  seekTrack : Byte
  currentTrack : Byte
  command : Byte
  selected : Bool
  /-- The drive in `current_DOR`. -/
  dorDrive : Nat
  doFloppy : Option Fd.Handler
  timers : List Fd.Timer
  /-- `reply_buffer`. -/
  reply : Nat → Byte
  owner : Nat
  /-- `CURRENT` is NULL and something is looked up there. -/
  fault : Bool
  log : List Fd.Event
  /-- The bytes sent to the controller, and whether it takes the next ones. -/
  sent : List Byte
  takes : List Bool
  /-- The ticks until the motor is on. -/
  motor : Nat

namespace Fd

/-- Look at `CURRENT`. -/
def current (s : Fd) (f : Request → List Request → Fd) : Fd :=
  match s.queue with
  | [] => { s with fault := true }
  | r :: q => f r q

def say (s : Fd) (e : Event) : Fd := { s with log := e :: s.log }

/-- `end_request`. -/
def endRequest (uptodate : Bool) (s : Fd) : Fd :=
  s.current fun r q => { s with queue := q }.say (.ended r.id uptodate)

/-- `floppy_deselect`. -/
def floppyDeselect (s : Fd) : Fd := { s with selected := false }

/-! ## The controller -/

/-- `output_byte`. -/
def outputByte (s : Fd) (byte : Byte) : Fd :=
  if s.reset then s
  else
    match s.takes with
    | false :: takes => { s with reset := true, takes := takes }
    | takes => { s with sent := byte :: s.sent, takes := takes.tail }

def outputBytes (s : Fd) (bytes : List Byte) : Fd := bytes.foldl outputByte s

/-- `result`, which is `none` for -1. -/
def result (r : Reply) (s : Fd) : Option Nat × Fd :=
  if s.reset then (none, s)
  else
    let s := { s with reply := fun i => if i < maxReplies then r.bytes.getD i (s.reply i) else s.reply i }
    if r.ready ∧ r.bytes.length ≤ maxReplies then (some r.bytes.length, s)
      else (none, { s with reset := true })

def st0 (s : Fd) : Byte := s.reply 0

def st1 (s : Fd) : Byte := s.reply 1

def st2 (s : Fd) : Byte := s.reply 2

/-- `head<<2 | current_drive`. -/
def unit (s : Fd) : Byte := s.head <<< 2 ||| BitVec.ofNat 8 s.currentDrive

/-! ## Starting again -/

/-- `reset_floppy`. -/
def resetFloppy (s : Fd) : Fd :=
  { s with
    reset := false, curSpec1 := none, curRate := none, recalibrate := true,
      doFloppy := some .resetInterrupt }

/-- `do_fd_request`, when `reset` is set. -/
def restart (s : Fd) : Fd := { s with seek := false }.resetFloppy

/-- `if (reset) do_fd_request();`. -/
def unlessReset (s : Fd) : Fd := if s.reset then s.restart else s

/-- `recalibrate_floppy`. -/
def recalibrateFloppy (s : Fd) : Fd :=
  let s := { s with recalibrate := false, currentTrack := 0, doFloppy := some .recalInterrupt }
  (s.outputBytes [0x07, s.unit]).unlessReset

/-! ## A transfer -/

/-- `setup_DMA`: it looks for the buffer of `CURRENT`. -/
def setupDma (s : Fd) : Fd := s.current fun _ _ => s

/-- `setup_rw_floppy`. -/
def setupRwFloppy (s : Fd) : Fd :=
  let s := { s.setupDma with doFloppy := some .rwInterrupt }
  (s.outputBytes [s.command, s.unit, s.track, s.head, s.sector, 2, BitVec.ofNat 8 s.floppy.sect,
    s.floppy.gap,
    0xFF]).unlessReset

/-- `transfer`. -/
def transfer (s : Fd) : Fd :=
  let s := if s.curSpec1 ≠ some s.floppy.spec1 then
    { s with curSpec1 := some s.floppy.spec1 }.outputBytes [0x03, s.floppy.spec1, 6] else s
  let s := { s with curRate := some s.floppy.rate }
  if s.reset then s.restart
  else if s.seek = false then s.setupRwFloppy
  else
    let s := { s with doFloppy := some .seekInterrupt }
    (s.outputBytes (if s.seekTrack ≠ 0 then [0x0F, s.unit, s.seekTrack] else [0x07, s.unit])).unlessReset

/-- `floppy_on_interrupt`. -/
def floppyOnInterrupt (s : Fd) : Fd :=
  let s := { s with selected := true }
  if s.currentDrive ≠ s.dorDrive then
    { s with dorDrive := s.currentDrive, timers := .transfer :: s.timers }
  else s.transfer

/-- `add_timer(ticks_to_floppy_on(current_drive), &floppy_on_interrupt)`. -/
def floppyOn (s : Fd) : Fd :=
  let s := if s.selected then s else { s with dorDrive := s.currentDrive }
  if s.motor = 0 then s.floppyOnInterrupt else { s with timers := .floppyOn :: s.timers }

/-- `do_fd_request` for a request that it accepts. -/
def serve (r : Request) (s : Fd) : Fd :=
  let block := r.sector / s.floppy.sect
  let track := BitVec.ofNat 8 (block / s.floppy.head)
  let seekTrack := track <<< s.floppy.stretch
  floppyOn { s with
    owner := r.id
    sector := BitVec.ofNat 8 (r.sector % s.floppy.sect) + 1
    head := BitVec.ofNat 8 (block % s.floppy.head)
    track := track
    seekTrack := seekTrack
    seek := s.seek || decide (seekTrack ≠ s.currentTrack)
    command := commandOf r.cmd }

/-- `do_fd_request` from `INIT_REQUEST` on, with the queue. -/
def request : List Request → Fd → Fd
  | [], s => { s with queue := [] }
  | r :: q, s =>
    let s := { s with
      floppy := floppyType.getD (r.dev / 4) noTesting
      seek := s.seek || decide (s.currentDrive ≠ r.dev % 4)
      currentDrive := r.dev % 4 }
    if s.floppy.size < r.sector + 2 then request q (s.say (.ended r.id false))
    else serve r { s with queue := r :: q }

/-- `do_fd_request`. -/
def doFdRequest (s : Fd) : Fd :=
  if s.reset then s.restart
  else if s.recalibrate then { s with seek := false }.recalibrateFloppy
  else request s.queue { s with seek := false }

/-! ## Handlers -/

/-- `bad_flp_intr`. -/
def badFlpIntr (s : Fd) : Fd :=
  s.current fun r q =>
    let s := { s with queue := { r with errors := r.errors + 1 } :: q }.say (.error s.owner r.id)
    let s := if maxErrors < r.errors + 1 then s.floppyDeselect.endRequest false else s
    s.current fun r _ =>
      if maxErrors / 2 < r.errors then { s with reset := true } else { s with recalibrate := true }

/-- What `rw_interrupt` takes for an error. -/
def rwFails (n : Option Nat) (s : Fd) : Bool :=
  n ≠ some 7 || s.st0 &&& 0xf8 ≠ 0 || s.st1 &&& 0xbf ≠ 0 || s.st2 &&& 0x73 ≠ 0

/-- What it takes for write protection. -/
def writeProtected (s : Fd) : Bool := s.st1 &&& 0x02 ≠ 0

/-- What `seek_interrupt` takes for an error. -/
def seekFails (n : Option Nat) (s : Fd) : Bool :=
  n ≠ some 2 || s.st0 &&& 0xF8 ≠ 0x20 || s.st1 ≠ s.seekTrack

/-- `rw_interrupt`. -/
def rwInterrupt (reply : Reply) (s : Fd) : Fd :=
  let (n, s) := result reply s
  if rwFails n s then
    if s.writeProtected then (s.floppyDeselect.endRequest false).doFdRequest
    else s.badFlpIntr.doFdRequest
  else
    -- the buffer of a read is looked up once more
    let s := if s.command = commandOf .read then s.current fun _ _ => s else s
    (s.floppyDeselect.endRequest true).doFdRequest

/-- `seek_interrupt`. -/
def seekInterrupt (reply : Reply) (s : Fd) : Fd :=
  let (n, s) := result reply (s.outputByte 0x08)
  if seekFails n s then s.badFlpIntr.doFdRequest
  else { s with currentTrack := s.st1 }.setupRwFloppy

/-- `recal_interrupt`. -/
def recalInterrupt (reply : Reply) (s : Fd) : Fd :=
  let (n, s) := result reply (s.outputByte 0x08)
  if n ≠ some 2 ∨ s.st0 &&& 0xE0 = 0x60 then { s with reset := true }.doFdRequest
  else { s with recalibrate := false }.doFdRequest

/-- `unexpected_floppy_interrupt`. -/
def unexpectedFloppyInterrupt (reply : Reply) (s : Fd) : Fd :=
  let (n, s) := result reply (s.outputByte 0x08)
  if n ≠ some 2 ∨ s.st0 &&& 0xE0 = 0x60 then { s with reset := true } else { s with recalibrate := true }

/-- `reset_interrupt`. -/
def resetInterrupt (reply : Reply) (s : Fd) : Fd :=
  let (_, s) := result reply (s.outputByte 0x08)
  (s.outputBytes [0x03, s.curSpec1.getD 0xFF, 6]).doFdRequest

/-- The interrupt calls what is in `do_floppy`. -/
def call (reply : Reply) (s : Fd) : Handler → Fd
  | .rwInterrupt => rwInterrupt reply s
  | .seekInterrupt => seekInterrupt reply s
  | .recalInterrupt => recalInterrupt reply s
  | .resetInterrupt => resetInterrupt reply s

def interrupt (reply : Reply) (s : Fd) : Fd :=
  match s.doFloppy with
  | none => unexpectedFloppyInterrupt reply s
  | some h => call reply { s with doFloppy := none } h

theorem interrupt_none {reply : Reply} {s : Fd} (h : s.doFloppy = none) :
    interrupt reply s = unexpectedFloppyInterrupt reply s := by
  rw [interrupt, h]

theorem interrupt_some {reply : Reply} {s : Fd} {handler : Handler} (h : s.doFloppy = some handler) :
    interrupt reply s = call reply { s with doFloppy := none } handler := by
  rw [interrupt, h]

/-- A timer is due. -/
def expire (s : Fd) : Timer → Fd
  | .floppyOn => s.floppyOnInterrupt
  | .transfer => s.transfer

end Fd

end Linux011.Drivers
