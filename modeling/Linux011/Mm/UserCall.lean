import Linux011.Mm.DemandLoad

/-!
# Kernel stores to user memory

In kernel mode the 80386 ignores the R/W bit, so a system call that stores to user memory runs
`verify_area` over its destination first (`kernel/fork.c`), and then stores with `put_fs_byte` and
`put_fs_long` (`asm/segment.h`). A long is stored as its four bytes here. A page that is absent
faults at the store: `do_no_page` serves it, and the store is made again.

A call is the size it gives to `verify_area` and the bytes it stores. That is said for each call,
in the layout the compiler gives to the structures. Between the two only `sys_waitpid` sleeps.
Blocks of the executable are in the buffer cache, so that a fault does not sleep. A task that runs
out of memory has exited, and the rest of its call is not executed.
-/

namespace Linux011.Mm

abbrev Byte := BitVec 8

/-! ## `verify_area` -/

/-- Go on with a task that has not exited. -/
def Sys.live (s : Sys) (nr : Nat) (k : Task → Option Sys) : Option Sys :=
  match s.task nr with
  | some t => if t.phase = .zombie then some s else k t
  | none => none

/-- The value of an `int`. -/
def int32 (n : Nat) : Int :=
  if n % 2 ^ 32 < 2 ^ 31 then ((n % 2 ^ 32 : Nat) : Int) else ((n % 2 ^ 32 : Nat) : Int) - 2 ^ 32

/-- How often the loop of `verify_area` takes 4096 from a positive `size`. -/
def verifyTurns (address size : Nat) : Nat := ((int32 (size + address % 4096) + 4095) / 4096).toNat

/-- The loop. An address past 4 GB has the directory index of its lower 32 bits. -/
def verifyLoop (nr : Nat) : Nat → Nat → Sys → Option Sys
  | 0, _, s => some s
  | n + 1, start, s =>
    (s.live nr fun t => s.after nr t (writeVerify start s.mem)).bind (verifyLoop nr n (start + 4096))

/-- `verify_area`. -/
def verifyArea (nr address size : Nat) (s : Sys) : Option Sys :=
  verifyLoop nr (verifyTurns address size) (slotBase nr + address / 4096 * 4096) s

/-- Near 2 GB the sum overflows, and nothing is verified. -/
example : verifyTurns 1 0x7fffffff = 0 := by decide

/-! ## `put_fs_byte` -/

/-- A word with one byte replaced. -/
def setByte (w : Word) (k : Nat) (b : Byte) : Word :=
  (w &&& ~~~ (0xff#32 <<< (8 * k))) ||| (b.zeroExtend 32 <<< (8 * k))

/-- A store of one byte to a linear address whose page is present. -/
def Mem.storeByte (m : Mem) (address : Nat) (b : Byte) : Mem :=
  m.storeAt address
    (setByte (m.ram (frame (entryAt m address)) (address / 4 % 1024)) (address % 4) b)

/-- `do_no_page` with the blocks of the executable in the buffer cache. -/
def doNoPage (file : Nat → Program) (iCount nr tmp : Nat) (t : Task) (s : Sys) : Option Sys :=
  (noPage s nr t tmp iCount).bind fun s => s.live nr fun t =>
    match t.loading, t.executable with
    | some (tmp, page), some ino => loaded file s nr t ino tmp page
    | _, _ => some s

/-- `put_fs_byte`. -/
def putFsByte (file : Nat → Program) (iCount nr off : Nat) (b : Byte) (s : Sys) : Option Sys :=
  s.live nr fun t =>
    if presentAt s.mem (slotBase nr + off) then
      some { s with mem := s.mem.storeByte (slotBase nr + off) b }
    else (doNoPage file iCount nr (off / 4096 * 4096) t s).bind fun s => s.live nr fun _ =>
      some { s with mem := s.mem.storeByte (slotBase nr + off) b }

/-- Bytes to successive addresses. -/
def putFs (file : Nat → Program) (iCount nr : Nat) : Nat → List Byte → Sys → Option Sys
  | _, [], s => some s
  | off, b :: bytes, s => (putFsByte file iCount nr off b s).bind (putFs file iCount nr (off + 1) bytes)

/-! ## The calls -/

/-- What a call does to user memory: where it stores, the size it verifies, the bytes. -/
structure UserCopy where
  address : Nat
  verified : Option Nat
  bytes : List Byte

def UserCopy.verify (c : UserCopy) (nr : Nat) (s : Sys) : Option Sys :=
  match c.verified with
  | some size => verifyArea nr c.address size s
  | none => some s

def UserCopy.store (c : UserCopy) (file : Nat → Program) (iCount nr : Nat) (s : Sys) : Option Sys :=
  putFs file iCount nr c.address c.bytes s

/-- The `n` bytes of a number, the low byte first. -/
def little (n w : Nat) : List Byte := (List.range n).map fun k => BitVec.ofNat 8 (w >>> (8 * k))

def longs (ws : List Nat) : List Byte := ws.flatMap (little 4)

/-- `verify_area` of what is stored. -/
def checked (address : Nat) (bytes : List Byte) : UserCopy := ⟨address, some bytes.length, bytes⟩

/-- `sys_pipe`: the two descriptors. -/
def sysPipe (fildes fd0 fd1 : Nat) : UserCopy := ⟨fildes, none, longs [fd0, fd1]⟩

/-- `sys_read` of a regular file with `i_size` bytes, from `f_pos` on. The sum of `count` and `f_pos`
is compared with `i_size` as an unsigned number. -/
def sysRead (buf count pos size : Nat) (content : Nat → Byte) : UserCopy :=
  let n := if (count + pos) % 2 ^ 32 > size then int32 (size + (2 ^ 32 - pos)) else count
  ⟨buf, some count, (List.range n.toNat).map fun i => content (pos + i)⟩

/-- `struct stat`; `pad` is what the compiler leaves between the fields. -/
structure Stat where
  dev : Nat
  ino : Nat
  mode : Nat
  nlink : Nat
  uid : Nat
  gid : Nat
  rdev : Nat
  size : Nat
  atime : Nat
  mtime : Nat
  ctime : Nat
  pad : Nat → Nat

def Stat.bytes (st : Stat) : List Byte :=
  little 2 st.dev ++ little 2 st.ino ++ little 2 st.mode ++ little 1 st.nlink ++ little 1 (st.pad 0) ++
    little 2 st.uid ++ little 1 st.gid ++ little 1 (st.pad 1) ++ little 2 st.rdev ++
    little 2 (st.pad 2) ++ longs [st.size, st.atime, st.mtime, st.ctime]

/-- `cp_stat`, of `sys_stat` and `sys_fstat`. -/
def cpStat (statbuf : Nat) (st : Stat) : UserCopy := checked statbuf st.bytes

/-- `sys_waitpid` with a child to tell about. -/
def sysWaitpid (statAddr code : Nat) : UserCopy := checked statAddr (little 4 code)

/-- `sys_time` with an address. -/
def sysTime (tloc i : Nat) : UserCopy := checked tloc (little 4 i)

/-- `sys_times` with an address. -/
def sysTimes (tbuf utime stime cutime cstime : Nat) : UserCopy :=
  checked tbuf (longs [utime, stime, cutime, cstime])

/-- `char name[9]`. -/
def name9 (s : List Char) : List Byte :=
  (List.range 9).map fun i => BitVec.ofNat 8 ((s.getD i (Char.ofNat 0)).toNat)

def thisname : List Byte :=
  name9 ['l', 'i', 'n', 'u', 'x', ' ', '.', '0'] ++ name9 ['n', 'o', 'd', 'e', 'n', 'a', 'm', 'e'] ++
    name9 ['r', 'e', 'l', 'e', 'a', 's', 'e', ' '] ++ name9 ['v', 'e', 'r', 's', 'i', 'o', 'n', ' '] ++
    name9 ['m', 'a', 'c', 'h', 'i', 'n', 'e', ' ']

/-- `sys_uname` with an address. -/
def sysUname (name : Nat) : UserCopy := checked name thisname

/-- `save_old`, of `sys_sigaction` with `oldaction`. -/
def saveOld (dst handler mask flags restorer : Nat) : UserCopy :=
  checked dst (longs [handler, mask, flags, restorer])

/-- The fields of `struct termios`, and what follows them in memory. -/
structure Termios where
  iflag : Nat
  oflag : Nat
  cflag : Nat
  lflag : Nat
  line : Nat
  cc : Nat → Nat
  pad : Nat

/-- `get_termios`. -/
def getTermios (termios : Nat) (t : Termios) : UserCopy :=
  checked termios (longs [t.iflag, t.oflag, t.cflag, t.lflag] ++ little 1 t.line ++
    (List.range 17).flatMap (fun i => little 1 (t.cc i)) ++ little 2 t.pad)

/-- `get_termio`. -/
def getTermio (termio : Nat) (t : Termios) : UserCopy :=
  checked termio ([t.iflag, t.oflag, t.cflag, t.lflag].flatMap (little 2) ++ little 1 t.line ++
    (List.range 8).flatMap (fun i => little 1 (t.cc i)) ++ little 1 t.pad)

/-- `TIOCGPGRP` and `TIOCINQ` of `tty_ioctl`. -/
def ttyLong (arg value : Nat) : UserCopy := checked arg (little 4 value)

/-- What `do_signal` saves. -/
structure SignalFrame where
  restorer : Nat
  signr : Nat
  blocked : Nat
  eax : Nat
  ecx : Nat
  edx : Nat
  eflags : Nat
  eip : Nat

/-- `do_signal` of a signal with a handler; `noMask` is `sa_flags & SA_NOMASK`. -/
def doSignal (esp : Nat) (noMask : Bool) (f : SignalFrame) : UserCopy :=
  let n := if noMask then 7 else 8
  ⟨(esp + 2 ^ 32 - 4 * n) % 2 ^ 32, some (n * 4),
    longs ([f.restorer, f.signr] ++ (if noMask then [] else [f.blocked]) ++
      [f.eax, f.ecx, f.edx, f.eflags, f.eip])⟩

/-- The calls that store to user memory. -/
inductive UserCall where
  | pipe (fildes fd0 fd1 : Nat)
  | read (buf count pos size : Nat) (content : Nat → Byte)
  | stat (statbuf : Nat) (st : Stat)
  | waitpid (statAddr code : Nat)
  | time (tloc i : Nat)
  | times (tbuf utime stime cutime cstime : Nat)
  | uname (name : Nat)
  | sigaction (oldaction handler mask flags restorer : Nat)
  | tcgets (termios : Nat) (t : Termios)
  | tcgeta (termio : Nat) (t : Termios)
  | tiocgpgrp (arg pgrp : Nat)
  | tiocinq (arg chars : Nat)
  | signal (esp : Nat) (noMask : Bool) (f : SignalFrame)

def UserCall.copy : UserCall → UserCopy
  | .pipe fildes fd0 fd1 => sysPipe fildes fd0 fd1
  | .read buf count pos size content => sysRead buf count pos size content
  | .stat statbuf st => cpStat statbuf st
  | .waitpid statAddr code => sysWaitpid statAddr code
  | .time tloc i => sysTime tloc i
  | .times tbuf utime stime cutime cstime => sysTimes tbuf utime stime cutime cstime
  | .uname name => sysUname name
  | .sigaction oldaction handler mask flags restorer => saveOld oldaction handler mask flags restorer
  | .tcgets termios t => getTermios termios t
  | .tcgeta termio t => getTermio termio t
  | .tiocgpgrp arg pgrp => ttyLong arg pgrp
  | .tiocinq arg chars => ttyLong arg chars
  | .signal esp noMask f => doSignal esp noMask f

/-- `sys_read` refuses a negative count, and `f_pos` is never negative. -/
def UserCall.Admitted : UserCall → Prop
  | .read _ count pos size _ => count < 2 ^ 31 ∧ pos < 2 ^ 31 ∧ size < 2 ^ 32
  | _ => True

/-! ## What is safe -/

/-- `verify_area` runs over all that is stored: the size is verified, and does not overflow with
the offset in the page. -/
def UserCall.Verified : UserCall → Prop
  | .pipe _ _ _ => False
  | .read buf count _ _ _ => count + buf % 4096 < 2 ^ 31
  | _ => True

/-- No other entry names the page of an entry. -/
def Alone (m : Mem) (d i : Nat) : Prop :=
  lowMem ≤ frame (m.pte d i) ∧
    ∀ d' i', Points (m.pte d' i') (frame (m.pte d i)) → d' = d ∧ i' = i

/-- `do_no_page` would map a page of another task: it has the same executable and a clean page
there. -/
def Shareable (s : Sys) (iCount nr tmp : Nat) (t : Task) : Prop :=
  2 ≤ iCount ∧ tmp < t.endData ∧ ∃ ino p t' c, t.executable = some ino ∧ p ≠ nr ∧
    s.task p = some t' ∧ t'.executable = some ino ∧
      cellView s.mem (dirIndex (slotBase p + tmp)) (tableIndex (slotBase p + tmp)) = .page false c

/-- A store to this offset stays with the task: its page, if it is there, is named by one entry only,
and if it is not, `do_no_page` brings a page of its own. -/
def Own (s : Sys) (iCount nr off : Nat) (t : Task) : Prop :=
  (presentAt s.mem (slotBase nr + off) = true →
    Alone s.mem (dirIndex (slotBase nr + off)) (tableIndex (slotBase nr + off))) ∧
  (presentAt s.mem (slotBase nr + off) = false → ¬ Shareable s iCount nr (off / 4096 * 4096) t)

end Linux011.Mm
