import Linux011.Lib.Queue
import Mathlib.Tactic.Common

/-!
# The line discipline (`kernel/chr_drv/tty_io.c`, `tty_ioctl.c`)

Characters arrive in `read_q`; `copy_to_cooked` takes them out one by one, edits the line that stands at
the end of `secondary` and echoes into `write_q`. `tty_read` takes characters from `secondary`.

Here are the terminal and what is decided about a character; how the calls go on, step by step, is in
`Linux011.TtyIo.Handlers`. Signals to the process group, and the processes that wait for a queue, are
left out.

A character is a `signed char` where the source compares it with a control character, which is an
`unsigned char`: from 128 on they are never equal (`same`).
-/

namespace Linux011.TtyIo

open Linux011.Lib

abbrev Byte := BitVec 8

/-- `struct tty_queue`, with `TTY_BUF_SIZE` 1024. -/
abbrev TtyQueue := Queue Byte 1024

theorem ttyBufSize_pos : 0 < 1024 := Nat.succ_pos 1023

/-! ## Settings -/

/-- The fields of `struct termios` that the line discipline reads. -/
structure Termios where
  iflag : BitVec 32
  oflag : BitVec 32
  lflag : BitVec 32
  cc : Nat → Byte

/-- `_L_FLAG`, `_I_FLAG` and `_O_FLAG`. -/
def flag (flags mask : BitVec 32) : Bool := flags &&& mask != 0

namespace Termios

variable (t : Termios)

def inlcr : Bool := flag t.iflag 0o0000100
def igncr : Bool := flag t.iflag 0o0000200
def icrnl : Bool := flag t.iflag 0o0000400
def iuclc : Bool := flag t.iflag 0o0001000
def isig : Bool := flag t.lflag 0o0000001
def canon : Bool := flag t.lflag 0o0000002
def echo : Bool := flag t.lflag 0o0000010
def echoctl : Bool := flag t.lflag 0o0001000
def opost : Bool := flag t.oflag 0o0000001
def olcuc : Bool := flag t.oflag 0o0000002
def onlcr : Bool := flag t.oflag 0o0000004
def ocrnl : Bool := flag t.oflag 0o0000010
def onlret : Bool := flag t.oflag 0o0000040

/-- `INTR_CHAR` and so on: the entries of `c_cc`. -/
def intrChar : Byte := t.cc 0
def quitChar : Byte := t.cc 1
def eraseChar : Byte := t.cc 2
def killChar : Byte := t.cc 3
def eofChar : Byte := t.cc 4
def startChar : Byte := t.cc 8
def stopChar : Byte := t.cc 9

end Termios

/-- What `TCSETA` passes: the low halves of the flags and the first eight control characters. -/
structure Termio where
  iflag : BitVec 16
  oflag : BitVec 16
  lflag : BitVec 16
  cc : Nat → Byte

/-- A store of an `unsigned short` to the low half of an `unsigned long`. -/
def lowHalf (new : BitVec 16) (old : BitVec 32) : BitVec 32 := (old &&& 0xffff0000) ||| new.zeroExtend 32

/-- `set_termio`. -/
def setTermio (new : Termio) (t : Termios) : Termios where
  iflag := lowHalf new.iflag t.iflag
  oflag := lowHalf new.oflag t.oflag
  lflag := lowHalf new.lflag t.lflag
  cc i := if i < 8 then new.cc i else t.cc i

/-! ## Characters -/

/-- `c == …_CHAR(tty)` for a `signed char c`. -/
def same (c cc : Byte) : Bool := c.toInt == (cc.toNat : Int)

/-- Below 128 a `signed char` and an `unsigned char` compare as they should. -/
theorem same_eq {c cc : Byte} (h : cc.toNat < 128) : same c cc = (c == cc) := by
  rw [same, Bool.eq_iff_iff, beq_iff_eq, beq_iff_eq, BitVec.toInt_eq_toNat_cond]
  have := c.isLt
  constructor
  · intro he
    apply BitVec.eq_of_toNat_eq
    split at he <;> omega
  · rintro rfl
    rw [if_pos (by omega)]

/-- From 128 on they are never equal. -/
theorem same_high {c cc : Byte} (h : 128 ≤ cc.toNat) : same c cc = false := by
  rw [same, beq_eq_false_iff_ne, BitVec.toInt_eq_toNat_cond]
  have := c.isLt
  split <;> omega

/-- `isupper` and `islower`, bits 0 and 1 of `(_ctype+1)[c]`. The table begins at -1; for a smaller `c`
the byte comes from `below`, the memory in front of it. -/
def ctypeBit (below : Byte → Byte) (bit lo hi : Nat) (c : Byte) : Bool :=
  if c.toNat < 128 then decide (lo ≤ c.toNat ∧ c.toNat ≤ hi)
  else if c = 255 then false else (below c).getLsbD bit

/-- `tolower`. -/
def tolower (below : Byte → Byte) (c : Byte) : Byte := if ctypeBit below 0 65 90 c then c + 32 else c

/-- `toupper`. -/
def toupper (below : Byte → Byte) (c : Byte) : Byte := if ctypeBit below 1 97 122 c then c - 32 else c

/-! ## Terminals -/

/-- The fields of `struct tty_struct`; `data` is `secondary.data`, `console` tells `con_write` from
`rs_write`. -/
structure Tty where
  termios : Termios
  stopped : Bool
  console : Bool
  readQ : TtyQueue
  writeQ : TtyQueue
  secondary : TtyQueue
  data : BitVec 32

/-- What `tty->write(tty)` does to `write_q`: `con_write` takes what is in it, `rs_write` only allows the
interrupt. -/
def Tty.write (tty : Tty) : Tty :=
  if tty.console then { tty with writeQ := Nat.repeat Queue.take tty.writeQ.chars tty.writeQ } else tty

/-! ## `copy_to_cooked` -/

/-- The first lines of the loop: the character after the input mappings, unless it is ignored. -/
def mapInput (below : Byte → Byte) (t : Termios) (c : Byte) : Option Byte :=
  (if c = 13 then
    if t.icrnl then some 10
    else if t.igncr then none
    else some c
  else if c = 10 ∧ t.inlcr then some 13
  else some c).map fun c => if t.iuclc then tolower below c else c

/-- What a character means. -/
inductive Action where
  | kill
  | erase
  | stop
  | start
  | signal
  | store
  deriving DecidableEq

def classify (t : Termios) (c : Byte) : Action :=
  if t.canon && same c t.killChar then .kill
  else if t.canon && same c t.eraseChar then .erase
  else if t.canon && same c t.stopChar then .stop
  else if t.canon && same c t.startChar then .start
  else if t.isig && same c t.intrChar then .signal
  else if t.isig && same c t.quitChar then .signal
  else .store

/-- `c==10 || c==EOF_CHAR(tty)`. -/
def ends (t : Termios) (c : Byte) : Bool := c == 10 || same c t.eofChar

/-- `while (!EMPTY(tty->read_q) && !FULL(tty->secondary))`. -/
def Tty.goesOn (tty : Tty) : Bool := !tty.readQ.empty && !tty.secondary.full

/-! ## `tty_read` -/

/-- The test before characters are taken, negated: there is a line, or nearly no room. -/
def Tty.readable (tty : Tty) : Bool :=
  !(tty.secondary.empty || (tty.termios.canon && tty.data == 0 && decide (tty.secondary.left > 20)))

/-- `GETCH`, and the count of lines. -/
def Tty.readChar (tty : Tty) : Tty :=
  { tty with
    secondary := tty.secondary.take
    data := if ends tty.termios tty.secondary.first then tty.data - 1 else tty.data }

end Linux011.TtyIo
