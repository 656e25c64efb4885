import Linux011.TtyIo.Discipline
import Linux011.Lib.Machine

/-!
# The handlers of a terminal (`tty_io.c`, `console.c`, `serial.c`)

`copy_to_cooked` is called from the interrupts of the keyboard and of the serial lines, and from `respond`.
For its echo it calls `con_write`, which calls `respond` where a program has asked the console what it is.
Interrupts are enabled on the way, so another call of `copy_to_cooked` may begin between any two steps of
one, from an interrupt or in the call itself.

A handler is the list of what it has still to do (`Act`), down to the single `PUTCH`, `GETCH`, `DEC` and
change of the counter. The handlers stand on a stack: an interrupt puts its handler on top, and the one on
top goes on. Below them is the process that has the processor (`Process`), in `tty_write` or `tty_read`. It
goes on when no handler is left; where it reaches into user memory it may have to wait for the page, and
another process goes on meanwhile.

Which characters make `con_write` call `respond` is left open, as are the signals that end a read.
-/

namespace Linux011.TtyIo

open Linux011.Lib

/-! ## `copy_to_cooked` and `con_write` -/

/-- What a handler has to do next. -/
inductive Act where
  /-- the test of the loop of `copy_to_cooked` -/
  | cook
  /-- `GETCH(tty->read_q,c)`, and the mappings -/
  | getch
  /-- what the character means -/
  | key (c : Byte)
  /-- `EMPTY(tty->secondary)`, in the loop that kills the line or for a single erasure -/
  | look (kill : Bool)
  /-- `(c=LAST(tty->secondary))==10 || c==EOF_CHAR(tty)`, behind it -/
  | last (kill : Bool)
  /-- `PUTCH(c,tty->write_q)` -/
  | echo (c : Byte)
  /-- `tty->write(tty)` -/
  | write
  /-- `DEC(tty->secondary.head)` -/
  | back
  /-- `tty->secondary.data++` -/
  | count
  /-- `PUTCH(c,tty->secondary)` -/
  | store (c : Byte)
  /-- `GETCH(tty->write_q,c)` in `con_write` -/
  | take
  /-- `respond(tty)` -/
  | respond
  deriving DecidableEq

/-- The echo of an erasure. -/
def eraseEcho (t : Termios) (c : Byte) : List Act :=
  if t.echo then (if c.toInt < 32 then [.echo 127] else []) ++ [.echo 127, .write] else []

/-- The echo of a character that is stored. -/
def storeEcho (t : Termios) (c : Byte) : List Act :=
  if t.echo then
    (if c = 10 then [.echo 10, .echo 13]
    else if c.toInt < 32 then if t.echoctl then [.echo 94, .echo (c + 64)] else []
    else [.echo c]) ++ [.write]
  else []

/-- `RESPONSE`, `"\033[?1;2c"`. -/
def response : List Byte := [27, 91, 63, 49, 59, 50, 99]

/-- One act, and what the handler has to do in its place. `answers` tells whether the character that
`con_write` takes asks for `respond`. -/
def Tty.act (below : Byte → Byte) (answers : Bool) (tty : Tty) : Act → Tty × List Act
  | .cook => (tty, if tty.goesOn then [.getch, .cook] else [])
  | .getch =>
    ({ tty with readQ := tty.readQ.take },
      match mapInput below tty.termios tty.readQ.first with
      | none => []
      | some c => [.key c])
  | .key c =>
    match classify tty.termios c with
    | .kill => (tty, [.look true])
    | .erase => (tty, [.look false])
    | .stop => ({ tty with stopped := true }, [])
    | .start => ({ tty with stopped := false }, [])
    | .signal => (tty, [])
    | .store =>
      (tty, (if ends tty.termios c then [.count] else []) ++ storeEcho tty.termios c ++ [.store c])
  | .look kill => (tty, if tty.secondary.empty then [] else [.last kill])
  | .last kill =>
    (tty, if ends tty.termios tty.secondary.last then []
      else eraseEcho tty.termios tty.secondary.last ++ if kill then [.back, .look true] else [.back])
  | .echo c => ({ tty with writeQ := tty.writeQ.put c }, [])
  | .write => (tty, if tty.console then List.replicate tty.writeQ.chars .take else [])
  | .back => ({ tty with secondary := tty.secondary.back }, [])
  | .count => ({ tty with data := tty.data + 1 }, [])
  | .store c => ({ tty with secondary := tty.secondary.put c }, [])
  | .take => ({ tty with writeQ := tty.writeQ.take }, if answers then [.respond] else [])
  | .respond => ({ tty with readQ := tty.readQ.putAll response }, [.cook])

/-- `put_queue`, and `read_char` with one character: all of them or none. -/
def Tty.putQueue (cs : List Byte) (tty : Tty) : Tty :=
  if tty.readQ.left < cs.length then tty else { tty with readQ := tty.readQ.putAll cs }

/-! ## `tty_write` and `tty_read` -/

/-- A call of `tty_read`: `nr`, `b-buf`, `minimum`, and whether it is in the inner loop. -/
structure Reader where
  nr : Nat
  got : Nat
  minimum : Nat
  inner : Bool

/-- Where the process is that has the processor. -/
inductive Process where
  /-- in no call for this terminal -/
  | elsewhere
  /-- at the test of the inner loop of `tty_write`, with the characters that it is to put -/
  | output (cs : List Byte)
  /-- at `get_fs_byte` -/
  | fetch (c : Byte) (cs : List Byte)
  /-- at `PUTCH(c,tty->write_q)` -/
  | put (c : Byte) (cs : List Byte)
  /-- at a test of `tty_read` -/
  | read (r : Reader)
  /-- at `GETCH(tty->secondary,c)` -/
  | getch (r : Reader)
  /-- at the comparison of the character with the ends of a line -/
  | compare (c : Byte) (r : Reader)
  /-- at `put_fs_byte` -/
  | deliver (r : Reader)

/-- Whether a call of `tty_read` takes a character when it goes on. -/
def Tty.takes (tty : Tty) (r : Reader) : Bool :=
  if r.inner then decide (r.nr > 0) && !tty.secondary.empty else r.nr != 0 && tty.readable

/-- Where the call is when it takes none: the end of the outer loop behind the inner one, and its head. -/
def Tty.leave (tty : Tty) (r : Reader) : Process :=
  if r.inner then
    if tty.termios.canon then if r.got > 0 then .elsewhere else .read { r with inner := false }
    else if r.got ≥ r.minimum then .elsewhere else .read { r with inner := false }
  else if r.nr = 0 then .elsewhere else .read r

/-- The process goes on: what it does to the terminal, where it is then, and the handler that it calls. The
rest of the characters of `tty_write` is left to another turn of its outer loop. -/
def Tty.proceed (tty : Tty) : Process → Tty × Process × List (List Act)
  | .elsewhere => (tty, .elsewhere, [])
  | .output [] => (tty, .elsewhere, [[.write]])
  | .output (c :: cs) =>
    if tty.writeQ.full then (tty, .elsewhere, [[.write]]) else (tty, .fetch c cs, [])
  | .fetch c cs => (tty, .put c cs, [])
  | .put c cs => ({ tty with writeQ := tty.writeQ.put c }, .output cs, [])
  | .read r => (tty, if tty.takes r then .getch r else tty.leave r, [])
  | .getch r => ({ tty with secondary := tty.secondary.take }, .compare tty.secondary.first r, [])
  | .compare c r =>
    ({ tty with data := if ends tty.termios c then tty.data - 1 else tty.data },
      if same c tty.termios.eofChar && tty.termios.canon then .elsewhere else .deliver r, [])
  | .deliver r => (tty, .read { r with nr := r.nr - 1, got := r.got + 1, inner := true }, [])

/-- Where a process may give up the processor: at the user's memory, and in `sleep_if_empty`. -/
def Process.sleeps (tty : Tty) : Process → Bool
  | .fetch _ _ | .deliver _ => true
  | .read r => !r.inner && tty.secondary.empty
  | _ => false

/-! ## The machine -/

/-- A terminal with the handlers that have not ended, the first of which goes on, and the processes. -/
structure Handlers where
  tty : Tty
  stack : List (List Act)
  process : Process
  asleep : List Process

inductive HandlerEvent where
  /-- the handler on top goes on -/
  | go (answers : Bool)
  /-- an interrupt of the keyboard -/
  | key (cs : List Byte)
  /-- a character comes in on a serial line -/
  | receive (c : Byte)
  /-- a serial line has sent a character: `write_char` -/
  | transmit
  /-- a process comes to the inner loop of `tty_write` -/
  | write (cs : List Byte)
  /-- a process calls `tty_read` -/
  | read (nr minimum : Nat)
  /-- the process goes on -/
  | proceed
  /-- a call outside of the inner loop of `tty_read` ends because of a signal -/
  | signal
  /-- the process gives up the processor, and one that did gets it back -/
  | sleep
  | wake (i : Nat)
  | setTermios (t : Termios)
  | setTermio (t : Termio)

/-- The new settings of an event. -/
def Tty.setTermios (t : Termios) (tty : Tty) : Tty := { tty with termios := t }

/-- No handler runs, and no process is in a call. -/
def Handlers.idle (s : Handlers) : Bool :=
  s.stack.isEmpty && match s.process with
    | .elsewhere => true
    | _ => false

theorem idle_iff {s : Handlers} : s.idle = true ↔ s.stack = [] ∧ s.process = .elsewhere := by
  unfold Handlers.idle
  rw [Bool.and_eq_true, List.isEmpty_iff]
  cases s.process <;> simp

def handlerStep (below : Byte → Byte) (s : Handlers) : HandlerEvent → Option Handlers
  | .go answers =>
    match s.stack with
    | [] => none
    | [] :: st => some { s with stack := st }
    | (a :: rest) :: st =>
      some { s with
        tty := (s.tty.act below answers a).1
        stack := ((s.tty.act below answers a).2 ++ rest) :: st }
  | .key cs =>
    if s.tty.console then some { s with tty := s.tty.putQueue cs, stack := [.cook] :: s.stack } else none
  | .receive c =>
    if s.tty.console then none else some { s with tty := s.tty.putQueue [c], stack := [.cook] :: s.stack }
  | .transmit =>
    if s.tty.console || s.tty.writeQ.empty then none
    else some { s with tty := { s.tty with writeQ := s.tty.writeQ.take } }
  | .write cs => if s.idle then some { s with process := .output cs } else none
  | .read nr minimum =>
    if s.idle then some { s with process := .read ⟨nr, 0, min minimum nr, false⟩ } else none
  | .proceed =>
    if s.stack.isEmpty then
      some { s with
        tty := (s.tty.proceed s.process).1
        process := (s.tty.proceed s.process).2.1
        stack := (s.tty.proceed s.process).2.2 }
    else none
  | .signal =>
    match s.process with
    | .read r => if s.stack.isEmpty && !r.inner then some { s with process := .elsewhere } else none
    | _ => none
  | .sleep =>
    if s.stack.isEmpty && s.process.sleeps s.tty then
      some { s with process := .elsewhere, asleep := s.process :: s.asleep }
    else none
  | .wake i =>
    if s.idle then s.asleep[i]?.map fun p => { s with process := p, asleep := s.asleep.eraseIdx i }
    else none
  | .setTermios t => if s.idle then some { s with tty := s.tty.setTermios t } else none
  | .setTermio t => if s.idle then some { s with tty := s.tty.setTermios (setTermio t s.tty.termios) } else none

/-- No handler runs, and no process has called. -/
structure Handlers.Quiet (s : Handlers) : Prop where
  stack : s.stack = []
  process : s.process = .elsewhere
  asleep : s.asleep = []

/-! ## What an act leaves to be done -/

/-- The acts of an echo. -/
def Act.ofEcho : Act → Bool
  | .echo _ | .write => true
  | _ => false

/-- Acts that put nothing and count nothing. -/
def Act.light : Act → Bool
  | .echo _ | .count | .store _ => false
  | _ => true

/-- The decisions about a character and about an erasure. -/
def Act.decides : Act → Bool
  | .key _ | .last _ => true
  | _ => false

variable {below : Byte → Byte} {answers : Bool} {a : Act}

theorem storeEcho_ofEcho (t : Termios) (c : Byte) : (storeEcho t c).all Act.ofEcho = true := by
  unfold storeEcho
  split
  · split
    · rfl
    · split
      · split <;> rfl
      · rfl
  · rfl

theorem eraseEcho_ofEcho (t : Termios) (c : Byte) : (eraseEcho t c).all Act.ofEcho = true := by
  unfold eraseEcho
  split
  · split <;> rfl
  · rfl

/-- Only these lead to acts that put or count something. -/
theorem act_light (tty : Tty) (ha : a.decides = false) :
    (tty.act below answers a).2.all Act.light = true := by
  cases a with
  | key c | last kill => cases ha
  | write =>
    simp only [Tty.act]
    split
    · exact List.all_eq_true.mpr fun b hb => List.eq_of_mem_replicate hb ▸ rfl
    · rfl
  | cook | getch | look kill | take =>
    simp only [Tty.act]
    split <;> rfl
  | _ => rfl

/-! ## What a step can do -/

/-- A process at the head of a loop, or in no call: it is to put no character, and has taken none. -/
def Process.plain : Process → Bool
  | .elsewhere | .output _ | .read _ => true
  | _ => false

/-- The events with which a call begins, or ends because of a signal. -/
def HandlerEvent.calls : HandlerEvent → Bool
  | .write _ | .read _ _ | .signal => true
  | _ => false

/-- The steps, by what they change. -/
inductive Handlers.Moves (below : Byte → Byte) (s : Handlers) : HandlerEvent → Handlers → Prop
  | act {answers : Bool} {a : Act} {rest : List Act} {st : List (List Act)}
    (hs : s.stack = (a :: rest) :: st) : Moves below s (.go answers) { s with
      tty := (s.tty.act below answers a).1
      stack := ((s.tty.act below answers a).2 ++ rest) :: st }
  | ended {answers : Bool} {st : List (List Act)} (hs : s.stack = [] :: st) :
    Moves below s (.go answers) { s with stack := st }
  | key {cs : List Byte} : Moves below s (.key cs)
      { s with tty := s.tty.putQueue cs, stack := [.cook] :: s.stack }
  | receive {c : Byte} : Moves below s (.receive c)
      { s with tty := s.tty.putQueue [c], stack := [.cook] :: s.stack }
  | transmit (he : s.tty.writeQ.empty = false) : Moves below s .transmit
      { s with tty := { s.tty with writeQ := s.tty.writeQ.take } }
  | proceed (hs : s.stack = []) : Moves below s .proceed { s with
      tty := (s.tty.proceed s.process).1
      process := (s.tty.proceed s.process).2.1
      stack := (s.tty.proceed s.process).2.2 }
  | call {e : HandlerEvent} {p : Process} (he : e.calls = true) (hs : s.stack = [])
    (hq : s.process.plain = true) (hp : p.plain = true) : Moves below s e { s with process := p }
  | sleep (hs : s.process.sleeps s.tty = true) : Moves below s .sleep
      { s with process := .elsewhere, asleep := s.process :: s.asleep }
  | wake {i : Nat} {p : Process} (hq : s.process = .elsewhere) (hp : s.asleep[i]? = some p) :
    Moves below s (.wake i) { s with process := p, asleep := s.asleep.eraseIdx i }
  | setTermios {t : Termios} (hi : s.idle = true) : Moves below s (.setTermios t)
      { s with tty := s.tty.setTermios t }
  | setTermio {t : Termio} (hi : s.idle = true) : Moves below s (.setTermio t)
      { s with tty := s.tty.setTermios (setTermio t s.tty.termios) }

theorem handlerStep_moves {s s' : Handlers} {e : HandlerEvent} (h : handlerStep below s e = some s') :
    s.Moves below e s' := by
  have plain : s.idle = true → s.process.plain = true := fun hi => by
    rw [(idle_iff.mp hi).2]
    rfl
  cases e with
  | go answers =>
    simp only [handlerStep] at h
    split at h
    · cases h
    · next st hs =>
      cases h
      exact .ended hs
    · next a rest st hs =>
      cases h
      exact .act hs
  | key cs =>
    obtain ⟨-, rfl⟩ := of_guard h
    exact .key
  | receive c =>
    simp only [handlerStep] at h
    split at h
    · cases h
    · cases h
      exact .receive
  | transmit =>
    simp only [handlerStep] at h
    split at h
    · cases h
    · next he =>
      cases h
      rw [Bool.or_eq_true, not_or, Bool.not_eq_true, Bool.not_eq_true] at he
      exact .transmit he.2
  | write cs =>
    obtain ⟨hi, rfl⟩ := of_guard h
    exact .call rfl (idle_iff.mp hi).1 (plain hi) rfl
  | read nr minimum =>
    obtain ⟨hi, rfl⟩ := of_guard h
    exact .call rfl (idle_iff.mp hi).1 (plain hi) rfl
  | proceed =>
    obtain ⟨hs, rfl⟩ := of_guard h
    exact .proceed (List.isEmpty_iff.mp hs)
  | signal =>
    simp only [handlerStep] at h
    split at h
    · next r hr =>
      obtain ⟨hc, rfl⟩ := of_guard h
      rw [Bool.and_eq_true, List.isEmpty_iff] at hc
      exact .call rfl hc.1 (by rw [hr]; rfl) rfl
    · cases h
  | sleep =>
    obtain ⟨hc, rfl⟩ := of_guard h
    exact .sleep ((Bool.and_eq_true _ _).mp hc).2
  | wake i =>
    simp only [handlerStep] at h
    split at h
    · next hi =>
      obtain ⟨p, hp, rfl⟩ := Option.map_eq_some_iff.mp h
      exact .wake (idle_iff.mp hi).2 hp
    · cases h
  | setTermios t =>
    obtain ⟨hi, rfl⟩ := of_guard h
    exact .setTermios hi
  | setTermio t =>
    obtain ⟨hi, rfl⟩ := of_guard h
    exact .setTermio hi

/-- Where a call is when it takes no character. -/
theorem leave_plain (tty : Tty) (r : Reader) : (tty.leave r).plain = true := by
  unfold Tty.leave
  split
  · split <;> split <;> rfl
  · split <;> rfl

end Linux011.TtyIo
