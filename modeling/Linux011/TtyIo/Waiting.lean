import Linux011.TtyIo.Reading
import Linux011.TtyIo.Output

/-!
# The loops of `tty_read` and `tty_write` wait

A system call keeps the processor until it calls `schedule()`, so a loop that comes back to its head without
a change spins. `moved` says that since the loop was at its head a character has been transferred, the
task has called `schedule()` or, for a reader, an interrupt has put something there.

The test in `tty_read` decides to wait as long as there is no line, and `sleep_if_empty` sleeps as long as
there is no character: with part of a line in the queue the loop spins, and otherwise it waits.
`tty_write` calls `schedule()` at the end of every turn of its loop.
-/

namespace Linux011.TtyIo.Reading

open Linux011.Lib Linux011.TtyIo

variable {s s' : State}

/-- The loop does not come back to its head unchanged. -/
def Moves (s : State) : Prop := s.pc = .head → s.moved = true

/-- Where the test decides to wait the queue is empty: no part of a line is in it. -/
def WholeLines (s : State) : Event → Prop
  | .step => s.pc = .wait → s.tty.readable = false → s.tty.secondary.empty = true
  | _ => True

/-- What holds at each place of a call when the loop does not spin. -/
def Waits (s : State) : Prop :=
  match s.pc with
  | .pending | .take | .finish | .done _ => True
  | .wait => s.moved = false → s.signal = 0
  | .sleep => s.moved = false → s.signal = 0 ∧ s.tty.secondary.empty = true
  | .entry _ _ | .test _ | .arm _ | .head | .asleep | .store | .batch | .tail => s.moved = true

theorem Waits.of_moved (h : s.moved = true) : Waits s := by
  have hno : s.moved ≠ false := fun hf => Bool.noConfusion (h.symm.trans hf)
  unfold Waits
  cases s.pc with
  | pending | take | finish | done r => trivial
  | wait => exact fun hf => absurd hf hno
  | sleep => exact fun hf => absurd hf hno
  | entry | test | arm | head | asleep | store | batch | tail => exact h

theorem Waits.moves (h : Waits s) : Moves s := by
  intro hpc
  unfold Waits at h
  rw [hpc] at h
  exact h

theorem moved_enter {channel : Nat} {nr : Int} : (s.enter channel nr).moved = s.moved := by
  unfold State.enter
  dsimp only
  split
  · rfl
  · split
    · rfl
    · rfl

theorem Waits.advance (h : Waits s) (hg : WholeLines s .step) (hstep : s.advance = some s') : Waits s' := by
  unfold Waits at h
  unfold State.advance at hstep
  cases hpc : s.pc with
  | entry channel nr =>
    rw [hpc] at h hstep
    cases hstep
    exact .of_moved (moved_enter.trans h)
  | test again =>
    rw [hpc] at h hstep
    dsimp only at hstep
    split at hstep
    · cases hstep
      exact h
    · cases again with
      | true => cases hstep; exact h
      | false => cases hstep; exact h
  | arm again =>
    rw [hpc] at h hstep
    cases hstep
    exact .of_moved h
  | head =>
    rw [hpc] at h hstep
    dsimp only at hstep
    split at hstep
    · cases hstep
      trivial
    · split at hstep
      · cases hstep
        trivial
      · cases hstep
        trivial
  | pending =>
    rw [hpc] at hstep
    cases hstep
    by_cases hsignal : s.signal = 0
    · unfold Waits
      simp only [if_neg (fun hne : s.signal ≠ 0 => hne hsignal)]
      exact fun _ => hsignal
    · unfold Waits
      simp only [if_pos (show s.signal ≠ 0 from hsignal)]
  | wait =>
    rw [hpc] at h hstep
    cases hstep
    by_cases hread : s.tty.readable = true
    · unfold Waits
      simp only [hread, if_true]
    · have hempty := hg hpc (Bool.eq_false_iff.mpr hread)
      unfold Waits
      simp only [if_neg hread]
      exact fun hstill => ⟨h hstill, hempty⟩
  | sleep =>
    rw [hpc] at h hstep
    dsimp only at hstep
    split at hstep
    · cases hstep
      exact .of_moved rfl
    · rename_i hawake
      cases hstep
      exact .of_moved (Bool.of_not_eq_false fun hstill => hawake (h hstill))
  | take =>
    rw [hpc] at hstep
    dsimp only at hstep
    split at hstep
    · cases hstep
      exact .of_moved rfl
    · cases hstep
      exact .of_moved rfl
  | store =>
    rw [hpc] at h hstep
    cases hstep
    exact .of_moved h
  | batch =>
    rw [hpc] at h hstep
    cases hstep
    exact .of_moved h
  | tail =>
    rw [hpc] at h hstep
    cases hstep
    exact .of_moved h
  | finish =>
    rw [hpc] at hstep
    cases hstep
    trivial
  | asleep => rw [hpc] at hstep; cases hstep
  | done r => rw [hpc] at hstep; cases hstep

theorem moved_checkAlarm : s.checkAlarm.moved = s.moved := by
  unfold State.checkAlarm
  split
  · rfl
  · rfl

theorem Waits.step {e : Event} (h : Waits s) (hg : WholeLines s e) (hstep : step s e = some s') :
    Waits s' := by
  cases e with
  | step => exact h.advance hg hstep
  | tick =>
    cases hstep
    exact h
  | input secondary data =>
    cases hstep
    exact .of_moved rfl
  | raise bits =>
    cases hstep
    exact .of_moved rfl
  | schedule =>
    obtain ⟨hpc, rfl⟩ := of_guard hstep
    have hmoved : s.moved = true := by
      unfold Waits at h
      rcases hpc with hpc | hpc
      · rw [hpc] at h
        exact h
      · rw [hpc] at h
        exact h
    exact .of_moved (moved_checkAlarm.trans hmoved)
  | wake =>
    obtain ⟨hpc, rfl⟩ := of_guard hstep
    unfold Waits at h
    rw [hpc] at h
    exact .of_moved h

theorem Waits.init (h : Initial s) : Waits s := .of_moved h.moved

/-- A call that decides to wait with part of a line in the queue is back at its head two steps later. -/
theorem spins (hpc : s.pc = .wait) (hstill : s.moved = false) (hread : s.tty.readable = false)
    (hpart : s.tty.secondary.empty = false) :
    ∃ s', run step s [.step, .step] = some s' ∧ ¬ Moves s' := by
  have hwait : step s .step = some { s with pc := .sleep } := by
    simp only [step, State.advance, hpc, hread, Bool.false_eq_true, if_false]
  have hsleep : step { s with pc := .sleep } .step = some { s with pc := .head } := by
    simp only [step, State.advance, hpart, Bool.false_eq_true, and_false, if_false]
  refine ⟨{ s with pc := .head }, ?_, fun hmoves => ?_⟩
  · rw [run, hwait, Option.bind_some, run, hsleep]
    rfl
  · exact Bool.noConfusion ((hmoves rfl).symm.trans hstill)

end Linux011.TtyIo.Reading

/-! ## `tty_write` -/

namespace Linux011.TtyIo.Writing

open Linux011.Lib Linux011.TtyIo

/-- Where a call stands. -/
inductive Pc
  /-- before the first line -/
  | entry (channel : Nat) (nr : Int)
  /-- `while (nr>0)` -/
  | head
  /-- `if (!FULL(*queue))` of `sleep_if_full` -/
  | full
  /-- `while (!current->signal && LEFT(*queue)<128)` -/
  | sleep
  /-- in `interruptible_sleep_on` -/
  | asleep
  /-- `if (current->signal)` -/
  | pending
  /-- the inner loop -/
  | put
  /-- `tty->write(tty)` -/
  | flush
  /-- `if (nr>0)` at the end -/
  | tail
  /-- in `schedule()` -/
  | scheduled
  | done (r : Int)
  deriving DecidableEq

structure State where
  tty : Tty
  crFlag : Bool
  /-- `current->signal` -/
  signal : BitVec 32
  buf : Nat → Byte
  nr : Nat
  /-- `b-buf` -/
  pos : Nat
  pc : Pc
  moved : Bool

namespace State

/-- A turn of the inner loop. -/
def putNext (below : Byte → Byte) (s : State) : State :=
  let t := s.tty.termios
  let c := s.buf s.pos
  if expands t c ∧ ¬ s.crFlag then
    { s with crFlag := true, tty := { s.tty with writeQ := s.tty.writeQ.put 13 }, moved := true }
  else
    { s with crFlag := false, tty := { s.tty with writeQ := s.tty.writeQ.put (outputChar below t c) }
             pos := s.pos + 1, nr := s.nr - 1, moved := true }

/-- A step of a call; one that has given up the processor or has returned makes none. -/
def advance (below : Byte → Byte) (s : State) : Option State :=
  match s.pc with
  | .entry channel nr =>
    if channel > 2 ∨ nr < 0 then some { s with pc := .done (-1) }
    else some { s with nr := nr.toNat, pos := 0, pc := .head }
  | .head =>
    if 0 < s.nr then some { s with moved := false, pc := .full } else some { s with pc := .done s.pos }
  | .full => some { s with pc := if s.tty.writeQ.full then .sleep else .pending }
  | .sleep =>
    if s.signal = 0 ∧ s.tty.writeQ.left < 128 then some { s with moved := true, pc := .asleep }
    else some { s with pc := .pending }
  | .pending => some { s with pc := if s.signal ≠ 0 then .done s.pos else .put }
  | .put => if 0 < s.nr ∧ ¬ s.tty.writeQ.full then some (s.putNext below) else some { s with pc := .flush }
  | .flush => some { s with tty := s.tty.write, pc := .tail }
  | .tail => if 0 < s.nr then some { s with moved := true, pc := .scheduled } else some { s with pc := .head }
  | .asleep | .scheduled | .done _ => none

end State

inductive Event
  /-- the call goes on -/
  | step
  /-- an interrupt takes characters from the queue, or another task does something on the terminal -/
  | output (tty : Tty) (crFlag : Bool)
  /-- signals are raised -/
  | raise (bits : BitVec 32)
  /-- the task gets the processor again -/
  | resume

def step (below : Byte → Byte) (s : State) : Event → Option State
  | .step => s.advance below
  | .output tty crFlag => some { s with tty := tty, crFlag := crFlag }
  | .raise bits => some { s with signal := s.signal ||| bits }
  | .resume =>
    match s.pc with
    | .asleep => some { s with pc := .sleep }
    | .scheduled => some { s with pc := .head }
    | _ => none

/-- A call begins, with any terminal, buffer and signals. -/
structure Initial (s : State) : Prop where
  pc : ∃ channel nr, s.pc = .entry channel nr
  moved : s.moved = true

variable {below : Byte → Byte} {s s' : State}

/-- The loop does not come back to its head unchanged. -/
def Moves (s : State) : Prop := s.pc = .head → s.moved = true

/-- What holds at each place of a call: a turn that has done nothing yet has a character to write. -/
def Waits (s : State) : Prop :=
  match s.pc with
  | .entry _ _ | .head | .asleep | .scheduled => s.moved = true
  | .done _ => True
  | .full | .sleep | .pending | .put | .flush | .tail => s.moved = false → 0 < s.nr

theorem Waits.moves (h : Waits s) : Moves s := by
  intro hpc
  unfold Waits at h
  rw [hpc] at h
  exact h

theorem Waits.init (h : Initial s) : Waits s := by
  obtain ⟨channel, nr, hpc⟩ := h.pc
  unfold Waits
  rw [hpc]
  exact h.moved

theorem moved_putNext : (s.putNext below).moved = true := by
  unfold State.putNext
  dsimp only
  split
  · rfl
  · rfl

theorem pc_putNext : (s.putNext below).pc = s.pc := by
  unfold State.putNext
  dsimp only
  split
  · rfl
  · rfl

theorem Waits.advance (h : Waits s) (hstep : s.advance below = some s') : Waits s' := by
  unfold Waits at h
  unfold State.advance at hstep
  cases hpc : s.pc with
  | entry channel nr =>
    rw [hpc] at h hstep
    dsimp only at hstep
    split at hstep
    · cases hstep
      trivial
    · cases hstep
      exact h
  | head =>
    rw [hpc] at hstep
    dsimp only at hstep
    split at hstep
    · rename_i hnr
      cases hstep
      exact fun _ => hnr
    · cases hstep
      trivial
  | full =>
    rw [hpc] at h hstep
    cases hstep
    by_cases hfull : s.tty.writeQ.full = true
    · unfold Waits
      simp only [if_pos hfull]
      exact h
    · unfold Waits
      simp only [if_neg hfull]
      exact h
  | sleep =>
    rw [hpc] at h hstep
    dsimp only at hstep
    split at hstep
    · cases hstep
      rfl
    · cases hstep
      exact h
  | pending =>
    rw [hpc] at h hstep
    cases hstep
    by_cases hsignal : s.signal ≠ 0
    · unfold Waits
      simp only [if_pos hsignal]
    · unfold Waits
      simp only [if_neg hsignal]
      exact h
  | put =>
    rw [hpc] at h hstep
    dsimp only at hstep
    split at hstep
    · cases hstep
      unfold Waits
      rw [pc_putNext, hpc]
      intro hstill
      exact Bool.noConfusion (moved_putNext.symm.trans hstill)
    · cases hstep
      exact h
  | flush =>
    rw [hpc] at h hstep
    cases hstep
    exact h
  | tail =>
    rw [hpc] at h hstep
    dsimp only at hstep
    split at hstep
    · cases hstep
      rfl
    · rename_i hnr
      cases hstep
      exact Bool.of_not_eq_false fun hstill => hnr (h hstill)
  | asleep | scheduled => rw [hpc] at hstep; cases hstep
  | done r => rw [hpc] at hstep; cases hstep

theorem Waits.step {e : Event} (h : Waits s) (hstep : step below s e = some s') : Waits s' := by
  cases e with
  | step => exact h.advance hstep
  | output tty crFlag =>
    cases hstep
    exact h
  | raise bits =>
    cases hstep
    exact h
  | resume =>
    unfold Writing.step at hstep
    unfold Waits at h
    cases hpc : s.pc with
    | asleep =>
      rw [hpc] at h hstep
      cases hstep
      exact fun hstill => Bool.noConfusion (h.symm.trans hstill)
    | scheduled =>
      rw [hpc] at h hstep
      cases hstep
      exact h
    | entry | head | full | sleep | pending | put | flush | tail | done r => rw [hpc] at hstep; cases hstep

end Linux011.TtyIo.Writing

namespace Linux011.TtyIo

open Linux011.Lib

/-- `tty_read` does not spin as long as its test finds no part of a line where it decides to wait, and spins
at once where it does; `tty_write` never spins. -/
theorem loops_wait (below : Byte → Byte) :
    (∀ s, Reach Reading.step Reading.WholeLines Reading.Initial s → Reading.Moves s) ∧
    (∀ s : Reading.State, s.pc = .wait → s.moved = false → s.tty.readable = false →
      s.tty.secondary.empty = false →
      ∃ s', run Reading.step s [.step, .step] = some s' ∧ ¬ Reading.Moves s') ∧
    ∀ s, Reach (Writing.step below) (fun _ _ => True) Writing.Initial s → Writing.Moves s := by
  refine ⟨fun s h => ?_, fun s => Reading.spins, fun s h => ?_⟩
  · exact (Reach.invariant (fun _ => Reading.Waits.init) (fun _ _ _ hw hg => hw.step hg) h).moves
  · exact (Reach.invariant (fun _ => Writing.Waits.init) (fun _ _ _ hw _ => hw.step) h).moves

/-- A reader that has slept, one that finds part of a line, and a writer. -/
theorem loops_wait_head : ∃ (r : Reading.State) (w : Writing.State),
    r.pc = .head ∧ r.moved = true ∧ w.pc = .head ∧ w.moved = true ∧
    ∃ s', run Reading.step
      { Reading.caller (Reading.typedTty cookedSettings 97) 0 with pc := .wait, moved := false }
      [.step, .step] = some s' ∧ ¬ Reading.Moves s' := by
  have hread : ((run (fun s e => (Reading.step s e).filter
      fun _ => decide (s.pc = .wait) → !s.tty.readable → s.tty.secondary.empty)
      (Reading.caller (quietTty cookedSettings) 0)
      ([.step, .step, .step, .step, .step, .raise 2, .wake, .step])).map fun s => s.pc) = some .head := by
    decide +kernel
  have hwrite : ((run (Writing.step fun _ => 0)
      ⟨quietTty cookedSettings, false, 0, fun _ => 97, 0, 0, .entry 0 1, true⟩
      (List.replicate 8 .step)).map fun s => s.pc) = some .head := by
    decide +kernel
  obtain ⟨r, hr, hrpc⟩ := Option.map_eq_some_iff.mp hread
  obtain ⟨w, hw, hwpc⟩ := Option.map_eq_some_iff.mp hwrite
  have hcheck (u : Reading.State) (e : Reading.Event) (u' : Reading.State)
      (_ : Reading.step u e = some u')
      (hch : decide (decide (u.pc = .wait) → !u.tty.readable → u.tty.secondary.empty) = true) :
      Reading.WholeLines u e := by
    cases e with
    | step =>
      intro hpc hno
      exact of_decide_eq_true hch (decide_eq_true hpc) (by rw [hno]; rfl)
    | tick | input | raise | schedule | wake => trivial
  have hwait := loops_wait fun _ => 0
  exact ⟨r, w, hrpc, hwait.1 r (.ofChecked hcheck (.start (Reading.caller_initial _ _)) hr) hrpc, hwpc,
    hwait.2.2 w (.ofRun (fun _ _ => trivial) (.start ⟨⟨0, 1, rfl⟩, rfl⟩) hw) hwpc,
    hwait.2.1 _ rfl rfl (by decide +kernel) (by decide +kernel)⟩

/-- An `a` is typed, and a task reads a line. -/
theorem line_spins : ¬ ((∀ s, Reach Reading.step (fun _ _ => True) Reading.Initial s → Reading.Moves s) ∧
    ∀ s, Reach (Writing.step fun _ => 0) (fun _ _ => True) Writing.Initial s → Writing.Moves s) := by
  intro hall
  have hrun : ((run Reading.step (Reading.caller (Reading.typedTty cookedSettings 97) 0)
      (List.replicate 5 .step)).map fun s => (s.pc, s.moved)) = some (.head, false) := by decide +kernel
  obtain ⟨s, hs, hv⟩ := Option.map_eq_some_iff.mp hrun
  obtain ⟨hpc, hstill⟩ := Prod.mk.inj hv
  have hmoves := hall.1 s (.ofRun (fun _ _ => trivial) (.start (Reading.caller_initial _ _)) hs)
  exact Bool.noConfusion ((hmoves hpc).symm.trans hstill)

end Linux011.TtyIo
