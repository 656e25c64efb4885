import Linux011.Lib.Machine

/-!
# The hard disk driver (`kernel/blk_drv/hd.c`)

`do_hd_request` sends a command for the first request of the queue and leaves a handler in `do_hd`; the
next interrupt calls it. A write waits for the controller before it sends the first sector. So the driver has
at each time one question to the controller: whether it is ready for data, or how the last command went. An
ANSWER is yes or no. Here a wait is over before the next interrupt comes. Calls that an interrupt comes into are
left to the account of the errors.

An error is counted in the request, and with the seventh the request ends. From the fourth on the
controller is reset: `WIN_SPECIFY` and `WIN_RESTORE` come before the next try, and their errors count too.

The controller is ready for each command. The ends of the queue that `INIT_REQUEST` checks (major number
and lock of the buffer) are those of the block layer. What is done for which request is in the log.
-/

namespace Linux011.Drivers

/-- What a request wants. -/
inductive Rw
  | read
  | write
  deriving DecidableEq

namespace Hd

/-- `MAX_ERRORS`. -/
def maxErrors : Nat := 7

/-- `struct hd_i_struct`: a drive that the controller can address. -/
structure Geometry where
  head : Nat
  sect : Nat
  cyl : Nat
  head_pos : 0 < head
  head_le : head ≤ 16
  sect_pos : 0 < sect
  sect_lt : sect < 256
  cyl_lt : cyl < 65536

/-- `struct hd_struct`. -/
structure Part where
  startSect : Nat
  nrSects : Nat

/-- `NR_HD`, `hd_info` and `hd`, when `sys_setup` has read partition tables that fit the drives. -/
structure Disks where
  nrHd : Nat
  info : Nat → Geometry
  hd : Nat → Part
  nrHd_le : nrHd ≤ 2
  fits : ∀ dev < 5 * nrHd, (hd dev).startSect + (hd dev).nrSects ≤
    (info (dev / 5)).cyl * (info (dev / 5)).head * (info (dev / 5)).sect

/-- One drive of 41820 sectors, with its partitions. -/
def Disks.single (hd : Nat → Part)
    (fits : ∀ dev < 5, (hd dev).startSect + (hd dev).nrSects ≤ 615 * 4 * 17) : Disks where
  nrHd := 1
  info _ := ⟨4, 17, 615, by decide, by decide, by decide, by decide, by decide⟩
  hd := hd
  nrHd_le := by decide
  fits := fits

/-- `struct blk_request`: the minor number of its device, and how far `buffer` is behind `b_data`. The
number `id` tells requests apart. -/
structure Request where
  id : Nat
  dev : Nat
  cmd : Rw
  errors : Nat
  sector : Nat
  nrSectors : Nat
  buffer : Nat

/-- The request that `make_request` fills in. -/
def Request.make (id dev : Nat) (cmd : Rw) (block : Nat) : Request := ⟨id, dev, cmd, 0, 2 * block, 2, 0⟩

inductive Handler
  | readIntr
  | writeIntr
  | recalIntr
  deriving DecidableEq

inductive Command
  | read
  | write
  | restore
  | specify
  deriving DecidableEq

inductive Event
  /-- `hd_out`, as the controller understands its registers. -/
  | command (id : Nat) (cmd : Command) (drive nsect sector : Nat)
  /-- `port_write`: a sector is sent. -/
  | sent (id drive sector buffer : Nat)
  /-- A sector is read into the buffer, or what was sent is written. -/
  | moved (id drive sector buffer : Nat)
  /-- An error in what was done for `owner`, and the request it is counted in. -/
  | error (owner charged errors : Nat)
  | ended (id : Nat) (uptodate : Bool)
  deriving DecidableEq

inductive Fault
  /-- `CURRENT` is NULL and something is looked up there. -/
  | null
  /-- The panic in `hd_out`. -/
  | panic
  deriving DecidableEq

end Hd

/-- The queue, the variables of the driver, and the controller: the request the last command is for, the
drive, and the sector that comes next. -/
structure Hd where
  queue : List Hd.Request
  reset : Bool
  recalibrate : Bool
  doHd : Option Hd.Handler
  /-- The write waits for the controller. -/
  polling : Bool
  owner : Nat
  drive : Nat
  pos : Nat
  fault : Option Hd.Fault
  log : List Hd.Event

namespace Hd

/-- Look at `CURRENT`. -/
def current (s : Hd) (f : Request → List Request → Hd) : Hd :=
  match s.queue with
  | [] => { s with fault := some .null }
  | r :: q => f r q

def say (s : Hd) (e : Event) : Hd := { s with log := e :: s.log }

/-- `end_request`. -/
def endRequest (uptodate : Bool) (s : Hd) : Hd :=
  s.current fun r q => { s with queue := q }.say (.ended r.id uptodate)

/-- `hd_out`. The registers have 8 bits, and those of the cylinder 16. -/
def hdOut (d : Disks) (id drive nsect sect head cyl : Nat) (cmd : Command) (h : Handler) (s : Hd) : Hd :=
  if 1 < drive ∨ 15 < head then { s with fault := some .panic }
  else
    let g := d.info drive
    let sector := (cyl % 65536 * g.head + head) * g.sect + (sect % 256 - 1)
    { s with doHd := some h, owner := id, drive := drive, pos := sector }.say
      (.command id cmd drive (nsect % 256) sector)

/-- `port_write` of the next sector of the buffer. -/
def portWrite (s : Hd) : Hd :=
  s.current fun r _ => s.say (.sent r.id s.drive s.pos r.buffer)

/-- `do_hd_request` for a request that it accepts. -/
def serve (d : Disks) (r : Request) (s : Hd) : Hd :=
  let block := r.sector + (d.hd r.dev).startSect
  let dev := r.dev / 5
  let g := d.info dev
  let sec := block % g.sect + 1
  let head := block / g.sect % g.head
  let cyl := block / g.sect / g.head
  if s.reset then
    hdOut d r.id dev g.sect g.sect (g.head - 1) g.cyl .specify .recalIntr
      { s with reset := false, recalibrate := true }
  else if s.recalibrate then
    hdOut d r.id dev g.sect 0 0 0 .restore .recalIntr { s with recalibrate := false }
  else
    match r.cmd with
    | .write => hdOut d r.id dev r.nrSectors sec head cyl .write .writeIntr { s with polling := true }
    | .read => hdOut d r.id dev r.nrSectors sec head cyl .read .readIntr s

/-- The request is for a partition that there is, and its block is in it. -/
def accepts (d : Disks) (r : Request) : Bool :=
  decide (r.dev < 5 * d.nrHd ∧ r.sector + 2 ≤ (d.hd r.dev).nrSects)

/-- `do_hd_request`, with the queue. -/
def request (d : Disks) : List Request → Hd → Hd
  | [], s => { s with queue := [] }
  | r :: q, s =>
    if accepts d r then serve d r { s with queue := r :: q }
    else request d q (s.say (.ended r.id false))

/-- `do_hd_request`. -/
def doHdRequest (d : Disks) (s : Hd) : Hd := request d s.queue s

/-- `bad_rw_intr`. -/
def badRwIntr (s : Hd) : Hd :=
  s.current fun r q =>
    let s := { s with queue := { r with errors := r.errors + 1 } :: q }.say
      (.error s.owner r.id (r.errors + 1))
    let s := if maxErrors ≤ r.errors + 1 then s.endRequest false else s
    s.current fun r _ => if maxErrors / 2 < r.errors then { s with reset := true } else s

/-- `read_intr`; `ok` says that `win_result` finds no error. -/
def readIntr (d : Disks) (ok : Bool) (s : Hd) : Hd :=
  if ok then
    s.current fun r q =>
      let r' := { r with
        errors := 0, buffer := r.buffer + 512, sector := r.sector + 1, nrSectors := r.nrSectors - 1 }
      let s := { s with queue := r' :: q, pos := s.pos + 1 }.say (.moved r.id s.drive s.pos r.buffer)
      if r'.nrSectors ≠ 0 then { s with doHd := some .readIntr }
      else doHdRequest d (s.endRequest true)
  else doHdRequest d s.badRwIntr

/-- `write_intr`. -/
def writeIntr (d : Disks) (ok : Bool) (s : Hd) : Hd :=
  if ok then
    s.current fun r q =>
      let s := { s with pos := s.pos + 1 }.say (.moved r.id s.drive s.pos r.buffer)
      if r.nrSectors - 1 ≠ 0 then
        let r' := { r with
          buffer := r.buffer + 512, sector := r.sector + 1, nrSectors := r.nrSectors - 1 }
        { s with queue := r' :: q, doHd := some .writeIntr }.portWrite
      else doHdRequest d ({ s with queue := { r with nrSectors := 0 } :: q }.endRequest true)
  else doHdRequest d s.badRwIntr

/-- `recal_intr`. -/
def recalIntr (d : Disks) (ok : Bool) (s : Hd) : Hd :=
  doHdRequest d (if ok then s else s.badRwIntr)

/-- The interrupt calls what is in `do_hd`. -/
def call (d : Disks) (ok : Bool) (s : Hd) : Handler → Hd
  | .readIntr => readIntr d ok s
  | .writeIntr => writeIntr d ok s
  | .recalIntr => recalIntr d ok s

/-- The controller answers: to a write that waits, or with an interrupt. -/
def answer (d : Disks) (ok : Bool) (s : Hd) : Hd :=
  if s.polling then
    if ok then { s with polling := false }.portWrite
    else doHdRequest d { s with polling := false }.badRwIntr
  else
    match s.doHd with
    | none => s
    | some h => call d ok { s with doHd := none } h

theorem answer_polling {d : Disks} {ok : Bool} {s : Hd} (h : s.polling = true) : answer d ok s =
    if ok then { s with polling := false }.portWrite
    else doHdRequest d { s with polling := false }.badRwIntr := if_pos h

theorem answer_interrupt {d : Disks} {ok : Bool} {s : Hd} {h : Handler} (hp : s.polling = false)
    (hdo : s.doHd = some h) : answer d ok s = call d ok { s with doHd := none } h := by
  have hno : ¬ s.polling = true := by simp [hp]
  rw [answer, if_neg hno, hdo]

end Hd

end Linux011.Drivers
