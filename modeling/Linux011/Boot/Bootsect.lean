import Mathlib.Algebra.Group.Nat.Defs
import Mathlib.Data.List.Basic
import Linux011.Lib.Bytes

/-!
# The boot sector (`boot/bootsect.s`)

The boot sector moves itself out of the way, loads the setup sectors behind itself, and loads the
system at `0x10000`, a track at a time where it can. Two things must not happen on the way: a read must
not go beyond the end of its track, and it must not cross a 64kB boundary, where the transfer would
wrap around. A read that fails is repeated after a reset.

The registers are numbers below `2 ^ 16`. The variables `sread`, `head`, `track` and `sectors` of the
boot sector are fields of the state, not cells of its memory.
-/

namespace Linux011.Boot

/-! ## The machine -/

abbrev Byte := BitVec 8

abbrev Mem := Nat → Byte

def word (n : Nat) : Nat := n % 2 ^ 16

/-- `BOOTSEG`, `INITSEG`, `SETUPSEG`, `SYSSEG`, `SYSSIZE`, `ENDSEG`, `SETUPLEN`. -/
abbrev bootSeg : Nat := 0x07c0

abbrev initSeg : Nat := 0x9000

abbrev sysSeg : Nat := 0x1000

abbrev sysSize : Nat := 0x3000

abbrev endSeg : Nat := sysSeg + sysSize

abbrev setupLen : Nat := 4

/-- A call of function 2 of `int 0x13`. -/
structure Read where
  count : Nat
  cylinder : Nat
  /-- From 1 on. -/
  sector : Nat
  head : Nat
  drive : Nat
  es : Nat
  bx : Nat
  deriving DecidableEq

/-- What the boot code finds: the diskette, and how the BIOS does its work. -/
structure Bios where
  /-- The bytes of a sector: cylinder, head, sector and offset. -/
  disk : Nat → Nat → Nat → Nat → Byte
  /-- Sectors per track, as function 8 of `int 0x13` gives them. -/
  sectors : Nat
  /-- Whether the read with this number fails. -/
  fails : Nat → Bool
  /-- What it leaves in its buffer then. -/
  junk : Nat → Nat → Byte

/-- Where the boot sector is in its work. -/
structure State where
  mem : Mem
  es : Nat
  bx : Nat
  sread : Nat
  head : Nat
  track : Nat
  sectors : Nat
  /-- The reads so far, the last one first. -/
  reads : List Read

/-- What a read finds on the diskette. -/
def Bios.found (bios : Bios) (r : Read) (i : Nat) : Byte :=
  bios.disk r.cylinder r.head (r.sector + i / 512) (i % 512)

/-- `int 0x13`, function 2; the carry flag. -/
def int13 (bios : Bios) (r : Read) (s : State) : Bool × State :=
  let n := s.reads.length
  let bytes := if bios.fails n then bios.junk n else bios.found r
  (bios.fails n, { s with
    mem := Lib.overlay s.mem (16 * r.es + r.bx) (512 * r.count) bytes
    reads := r :: s.reads })

/-! ## Reading the system -/

/-- `read_track`, with the count in `ax`. It tries again until a read is good; `fuel` bounds the
attempts. -/
def readTrack (bios : Bios) : Nat → Nat → State → Option State
  | 0, _, _ => none
  | fuel + 1, ax, s =>
    let cl := word (s.sread + 1) % 256
    let ch := s.track % 256
    let r := int13 bios ⟨ax % 256, ch + 256 * (cl / 64), cl % 64, s.head % 256 % 2, 0, s.es, s.bx⟩ s
    if r.1 then readTrack bios fuel ax r.2 else some r.2

/-- How many sectors `ok1_read` asks for: the rest of the track, or what fits into the segment. -/
def rest (s : State) : Nat :=
  let ax := word (s.sectors + 2 ^ 16 - s.sread)
  let cx := word (ax * 2 ^ 9)
  -- `jnc` and `je` after the addition
  if cx + s.bx < 2 ^ 16 ∨ word (cx + s.bx) = 0 then ax else word (2 ^ 16 - s.bx) / 2 ^ 9

/-- From `ok2_read` on: the next sector, and the head and the track it is on. -/
def advance (ax : Nat) (s : State) : State :=
  let n := word (ax + s.sread)
  if n = s.sectors then
    let head := word (1 + 2 ^ 16 - s.head)
    { s with track := if head = 0 then word (s.track + 1) else s.track, head := head, sread := 0 }
  else { s with sread := n }

/-- The end of `ok3_read`: the address behind the sectors that were read. -/
def forward (ax : Nat) (s : State) : State :=
  let cx := word (ax * 2 ^ 9)
  if s.bx + cx < 2 ^ 16 then { s with bx := s.bx + cx }
  else { s with es := word (s.es + 0x1000), bx := 0 }

/-- The loop `rp_read`, at most `fuel` times around. -/
def rpRead (bios : Bios) (tries : Nat) : Nat → State → Option State
  | 0, _ => none
  | fuel + 1, s =>
    if s.es < endSeg then
      (readTrack bios tries (rest s) s).bind fun t =>
        rpRead bios tries fuel (forward (rest s) (advance (rest s) t))
    else some s

/-- `read_it`. It is `none` too if `es` is not at a 64kB boundary, where the code loops for ever. -/
def readIt (bios : Bios) (fuel : Nat) (s : State) : Option State :=
  if s.es % 0x1000 = 0 then rpRead bios fuel fuel { s with bx := 0 } else none

/-! ## The boot sector -/

/-- `rep movs` from `ds:si` to `es:di`, in units of `w` bytes; the offsets wrap. -/
def repMovs (w ds es : Nat) : Nat → Nat → Nat → Mem → Mem
  | _, _, 0, m => m
  | si, di, cx + 1, m =>
    repMovs w ds es (word (si + w)) (word (di + w)) cx
      (Lib.overlay m (16 * es + di) w fun i => m (16 * ds + word (si + i)))

/-- `load_setup`. -/
def loadSetup (bios : Bios) : Nat → State → Option State
  | 0, _ => none
  | fuel + 1, s =>
    let r := int13 bios ⟨setupLen, 0, 2, 0, 0, initSeg, 0x200⟩ s
    if r.1 then loadSetup bios fuel r.2 else some r.2

def loadWord (m : Mem) (a : Nat) : Nat := (m a).toNat + 256 * (m (a + 1)).toNat

def storeWord (m : Mem) (a w : Nat) : Mem := Lib.overlay m a 2 fun i => BitVec.ofNat 8 (w / 256 ^ i)

/-- The address of `root_dev`, at offset 508 of the boot sector. -/
abbrev rootDev : Nat := 16 * initSeg + 508

/-- The root device, if there is none in the boot sector: the boot diskette. `none` is the endless loop
at `undef_root`. -/
def root (dev sectors : Nat) : Option Nat :=
  if dev ≠ 0 then some dev
  else if sectors = 15 then some 0x0208
  else if sectors = 18 then some 0x021c
  else none

/-- The boot sector, from `_start` to the jump to `setup`. -/
def bootsect (bios : Bios) (fuel : Nat) (m : Mem) : Option State := do
  let m := repMovs 2 bootSeg initSeg 0 0 256 m
  let s ← loadSetup bios fuel ⟨m, initSeg, 0x200, 1 + setupLen, 0, 0, 0, []⟩
  let s ← readIt bios fuel { s with es := sysSeg, sectors := bios.sectors }
  let ax ← root (loadWord s.mem rootDev) s.sectors
  some { s with mem := storeWord s.mem rootDev ax }

end Linux011.Boot
