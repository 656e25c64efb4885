import Linux011.Lib.Machine
import Mathlib.Logic.Function.Basic
import Mathlib.Data.Int.Init
import Linux011.Lib.Slots

/-!
# Pipes (`fs/pipe.c`)

A pipe is an inode with a page: `i_zone[0]` and `i_zone[1]` are the head and the tail of a ring of
4096 bytes, one of which stays free, and `i_count` is the number of ends that are open.

A call of `read_pipe` or `write_pipe` is a loop. The top of the loop body claims a chunk: it moves
the tail or the head at once. Then the bytes of the chunk are copied one by one between the page and
the user's buffer.

Bytes are numbered in the order in which writers claim room for them, and readers claim them by
these numbers. The last fields of `Ring` are a history: they say which numbers have been
claimed, which byte was stored in a slot of the page last, and what went through the pipe. Nothing
in the source has them, and no function here tests them.
-/

namespace Linux011.Pipe

abbrev Byte := BitVec 8

/-- A byte that a reader has delivered: the number it claimed, and what was in the slot. -/
structure Delivery where
  number : Nat
  stamp : Option Nat
  byte : Byte

structure Ring where
  /-- `PIPE_HEAD`, that is `i_zone[0]`. -/
  head : Nat
  /-- `PIPE_TAIL`, that is `i_zone[1]`. -/
  tail : Nat
  /-- The page at `i_size`. -/
  page : Nat → Byte
  iCount : Nat
  -- history
  stamp : Nat → Option Nat
  written : Nat
  taken : Nat
  accepted : List Byte
  delivered : List Delivery

/-- `PIPE_SIZE`. -/
def pipeSize (p : Ring) : Nat := (((p.head : Int) - p.tail) % 4096).toNat

/-- A call of `read_pipe` or `write_pipe`, with its variables; `chars` is what the inner loop has
still to copy. The fields after the line are a history. -/
structure Call where
  write : Bool
  buf : Nat → Byte
  count : Int
  chars : Nat
  /-- The index of the next slot of the page. -/
  size : Nat
  /-- `read` or `written`. -/
  done : Nat
  -- history
  requested : Int
  number : Nat
  moved : List Byte

/-- The start of a call. -/
def Call.start (write : Bool) (buf : Nat → Byte) (count : Int) : Call :=
  ⟨write, buf, count, 0, 0, 0, count, 0, []⟩

/-- What the top of the loop comes to: the call returns, and gets `SIGPIPE` or does not; or it sleeps, or
has claimed a chunk. -/
inductive Top where
  | ret (value : Int) (sigpipe : Bool)
  | sleep
  | chunk (p : Ring) (c : Call)

/-- The room in the ring for a writer, and the bytes in it for a reader. -/
def room (p : Ring) (write : Bool) : Nat := if write then 4095 - pipeSize p else pipeSize p

/-- `chars`: the rest of the page, the rest of the call and the room limit a chunk. -/
def chunkSize (p : Ring) (c : Call) : Nat :=
  min (min (4096 - if c.write then p.head else p.tail) c.count.toNat) (room p c.write)

/-- The top of the loop of `read_pipe`. -/
def readTop (p : Ring) (c : Call) : Top :=
  if c.count ≤ 0 then .ret c.done false
  else if room p false = 0 then
    if p.iCount ≠ 2 then .ret c.done false else .sleep
  else
    let chars := chunkSize p c
    .chunk { p with tail := (p.tail + chars) % 65536 % 4096, taken := p.taken + chars }
      { c with
        count := c.count - chars, chars := chars, size := p.tail, done := c.done + chars
        number := p.taken }

/-- The top of the loop of `write_pipe`. -/
def writeTop (p : Ring) (c : Call) : Top :=
  if c.count ≤ 0 then .ret c.done false
  else if room p true = 0 then
    -- no readers
    if p.iCount ≠ 2 then .ret (if c.done = 0 then -1 else c.done) true else .sleep
  else
    let chars := chunkSize p c
    .chunk { p with head := (p.head + chars) % 65536 % 4096, written := p.written + chars }
      { c with
        count := c.count - chars, chars := chars, size := p.head, done := c.done + chars
        number := p.written }

/-- The top of the loop. -/
def top (p : Ring) (c : Call) : Top := if c.write then writeTop p c else readTop p c

/-- `put_fs_byte` of the next byte of the page. -/
def putByte (p : Ring) (c : Call) : Ring :=
  { p with delivered := p.delivered ++ [⟨c.number, p.stamp c.size, p.page c.size⟩] }

/-- `get_fs_byte` of the next byte of the user. -/
def getByte (p : Ring) (c : Call) : Ring :=
  let byte := c.buf (c.done - c.chars)
  { p with
    page := Function.update p.page c.size byte
    stamp := Function.update p.stamp c.size (some c.number)
    accepted := p.accepted ++ [byte] }

/-- The call after one more byte. -/
def Call.next (c : Call) (byte : Byte) : Call :=
  { c with
    chars := c.chars - 1, size := c.size + 1, number := c.number + 1, moved := c.moved ++ [byte] }

/-- One round of the inner loop. -/
def copyByte (p : Ring) (c : Call) : Ring × Call :=
  if c.write then (getByte p c, c.next (c.buf (c.done - c.chars)))
  else (putByte p c, c.next (p.page c.size))

/-- The inner loop `while (chars-->0)`, for so many rounds. -/
def copyChunk : Nat → Ring → Call → Ring × Call
  | 0, p, c => (p, c)
  | n + 1, p, c => copyChunk n (copyByte p c).1 (copyByte p c).2

/-- A call that has returned: its value, whether `SIGPIPE` was set, and `i_count` at that time. -/
structure Return where
  write : Bool
  buf : Nat → Byte
  requested : Int
  value : Int
  sigpipe : Bool
  moved : List Byte
  iCount : Nat

def Call.ret (c : Call) (p : Ring) (value : Int) (sigpipe : Bool) : Return :=
  ⟨c.write, c.buf, c.requested, value, sigpipe, c.moved, p.iCount⟩

/-- The pipe of `get_pipe_inode`. -/
def Ring.Fresh (p : Ring) : Prop :=
  p.head = 0 ∧ p.tail = 0 ∧ p.iCount = 2 ∧ p.written = 0 ∧ p.taken = 0 ∧ p.accepted = [] ∧
    p.delivered = []

/-! ## The ring -/

variable {p p' : Ring} {c c' : Call}

theorem pipeSize_lt (p : Ring) : pipeSize p < 4096 := by
  unfold pipeSize
  omega

/-- A reader's claim. -/
theorem pipeSize_take {chars : Nat}
    (h : chars ≤ pipeSize p) (htail : p'.tail = (p.tail + chars) % 65536 % 4096)
    (hsame : p'.head = p.head) : pipeSize p' = pipeSize p - chars := by
  unfold pipeSize at h ⊢
  rw [htail, hsame]
  omega

/-- A writer's claim. -/
theorem pipeSize_put {chars : Nat}
    (h : pipeSize p + chars ≤ 4095) (hnew : p'.head = (p.head + chars) % 65536 % 4096)
    (hsame : p'.tail = p.tail) : pipeSize p' = pipeSize p + chars := by
  unfold pipeSize at h ⊢
  rw [hnew, hsame]
  omega

/-- The head is behind the bytes in the ring. -/
theorem tail_add_pipeSize (hhead : p.head < 4096) :
    (p.tail + pipeSize p) % 4096 = p.head := by
  unfold pipeSize
  omega

end Linux011.Pipe
