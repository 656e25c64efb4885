import Linux011.TtyIo.Counter

/-!
# The alarm of a reader (`tty_read`)

A task has one alarm, and `tty_read` borrows it for its timeout: it sets `current->alarm` when there is none
or when it would go off later, and is to set it back before it returns. `flag` says that the alarm is
borrowed.

A call goes on step by step, and between its steps the clock ticks, characters come and go and signals are
raised. `schedule()` looks at the alarms, and it is called only while the task has given up the processor:
in `interruptible_sleep_on`, and where `put_fs_byte` has to wait for the page it stores into.

Beside the code stand the alarm at the beginning (`prior`), whether that one has gone off (`expired`),
whether anything but the timeout has raised SIGALRM (`other`), and whether something has happened since the
loop was at its head (`moved`).
-/

namespace Linux011.TtyIo.Reading

open Linux011.Lib Linux011.TtyIo

/-- `long` and `int`. -/
abbrev Word := BitVec 32

/-- `ALRMMASK`. -/
def alrm : Word := 1 <<< 13

/-! ## Code -/

/-- Where a call stands. -/
inductive Pc
  /-- before the first line -/
  | entry (channel : Nat) (nr : Int)
  /-- `flag=(!oldalarm || time+jiffies<oldalarm)`, before the loop or behind a batch of characters -/
  | test (again : Bool)
  /-- `current->alarm = time+jiffies` -/
  | arm (again : Bool)
  /-- `while (nr>0)` and the test for the timeout -/
  | head
  /-- `if (current->signal)` -/
  | pending
  /-- the test whether there is something to read -/
  | wait
  /-- `while (!current->signal && EMPTY(*queue))` of `sleep_if_empty` -/
  | sleep
  /-- in `interruptible_sleep_on` -/
  | asleep
  /-- `GETCH` -/
  | take
  /-- `put_fs_byte` -/
  | store
  /-- behind the inner loop -/
  | batch
  /-- `if (L_CANON(tty))` -/
  | tail
  /-- `current->alarm = oldalarm` behind the loop -/
  | finish
  | done (r : Int)
  deriving DecidableEq

structure State where
  tty : Tty
  jiffies : Word
  /-- `current->alarm` and `current->signal` -/
  alarm : Word
  signal : Word
  nr : Nat
  /-- `b-buf` -/
  got : Nat
  minimum : Nat
  time : Word
  flag : Bool
  oldalarm : Word
  pc : Pc
  prior : Word
  expired : Bool
  other : Bool
  moved : Bool

namespace State

/-- SIGALRM is pending. -/
def ringing (s : State) : Bool := s.signal &&& alrm ≠ 0

/-- `schedule()` finds that the alarm has gone off. -/
def overdue (s : State) : Bool := s.alarm ≠ 0 ∧ s.alarm.toInt < s.jiffies.toInt

/-- The lines before the first test. -/
def enter (channel : Nat) (nr : Int) (s : State) : State :=
  if channel > 2 ∨ nr < 0 then { s with pc := .done (-1) }
  else
    let time := 10 * (s.tty.termios.cc 5).setWidth 32
    let minimum := (s.tty.termios.cc 6).toNat
    let s := { s with nr := nr.toNat, got := 0, time := time, flag := false, oldalarm := s.alarm }
    if time ≠ 0 ∧ minimum = 0 then { s with minimum := min 1 nr.toNat, pc := .test false }
    else { s with minimum := min minimum nr.toNat, pc := .head }

/-- A step of a call; one that sleeps or has returned makes none. -/
def advance (s : State) : Option State :=
  match s.pc with
  | .entry channel nr => some (s.enter channel nr)
  | .test again =>
    if s.oldalarm = 0 ∨ (s.time + s.jiffies).toInt < s.oldalarm.toInt then
      some { s with flag := true, pc := .arm again }
    else if again then some { s with flag := false, alarm := s.oldalarm, pc := .tail }
    else some { s with flag := false, pc := .head }
  | .arm again => some { s with alarm := s.time + s.jiffies, pc := if again then .tail else .head }
  | .head =>
    if s.nr = 0 then some { s with pc := .finish }
    else if s.flag ∧ s.ringing then some { s with signal := s.signal &&& ~~~alrm, pc := .finish }
    else some { s with moved := false, pc := .pending }
  | .pending => some { s with pc := if s.signal ≠ 0 then .finish else .wait }
  | .wait => some { s with pc := if s.tty.readable then .take else .sleep }
  | .sleep =>
    if s.signal = 0 ∧ s.tty.secondary.empty then some { s with moved := true, pc := .asleep }
    else some { s with pc := .head }
  | .take =>
    if same s.tty.secondary.first s.tty.termios.eofChar ∧ s.tty.termios.canon then
      some { s with tty := s.tty.readChar, moved := true, pc := .done s.got }
    else some { s with tty := s.tty.readChar, moved := true, pc := .store }
  | .store =>
    some { s with nr := s.nr - 1, got := s.got + 1
                  pc := if s.nr - 1 = 0 ∨ s.tty.secondary.empty then .batch else .take }
  | .batch => some { s with pc := if s.time ≠ 0 ∧ ¬ s.tty.termios.canon then .test true else .tail }
  | .tail =>
    let leaves := if s.tty.termios.canon then decide (0 < s.got) else decide (s.minimum ≤ s.got)
    some { s with pc := if leaves then .finish else .head }
  | .finish =>
    some { s with alarm := s.oldalarm, pc := .done (if s.signal ≠ 0 ∧ s.got = 0 then -4 else s.got) }
  | .asleep | .done _ => none

/-- Signals that come from elsewhere. -/
def raise (bits : Word) (s : State) : State :=
  { s with signal := s.signal ||| bits, other := s.other || decide (bits &&& alrm ≠ 0), moved := true }

/-- `schedule()` looks at the alarm. -/
def checkAlarm (s : State) : State :=
  if s.overdue then
    { s with signal := s.signal ||| alrm, alarm := 0
             expired := s.expired || !s.flag, other := s.other || !s.flag }
  else s

end State

/-! ## The machine -/

inductive Event
  /-- the call goes on -/
  | step
  | tick
  /-- characters come or go -/
  | input (secondary : TtyQueue) (data : BitVec 32)
  /-- signals are raised -/
  | raise (bits : Word)
  /-- another task calls `schedule()` -/
  | schedule
  /-- the task that sleeps is woken up -/
  | wake

def step (s : State) : Event → Option State
  | .step => s.advance
  | .tick => some { s with jiffies := s.jiffies + 1 }
  | .input secondary data =>
    some { s with tty := { s.tty with secondary := secondary, data := data }, moved := true }
  | .raise bits => some (s.raise bits)
  | .schedule => if s.pc = .asleep ∨ s.pc = .store then some s.checkAlarm else none
  | .wake => if s.pc = .asleep then some { s with pc := .sleep } else none

/-- A call begins, with any terminal, alarm and signals. -/
structure Initial (s : State) : Prop where
  pc : ∃ channel nr, s.pc = .entry channel nr
  prior : s.prior = s.alarm
  expired : s.expired = false
  other : s.other = s.ringing
  moved : s.moved = true

/-! ## The alarm and SIGALRM -/

/-- What a call that returns leaves: the alarm of before, unless that one has gone off, and no SIGALRM that
only the timeout has raised. -/
def GivesBack (s : State) : Prop :=
  ∀ r, s.pc = .done r → (s.alarm = s.prior ∨ s.expired = true) ∧ (s.ringing = true → s.other = true)

/-- No EOF character is taken while the alarm is borrowed, and the timeout does not go off while a character
is stored. -/
def Careful (s : State) : Event → Prop
  | .step => s.pc = .take → s.flag = true →
      ¬ (same s.tty.secondary.first s.tty.termios.eofChar = true ∧ s.tty.termios.canon = true)
  | .schedule => s.pc = .store → s.flag = true → s.overdue = false
  | _ => True

variable {s s' : State}

/-- The alarm is that of before, unless it has gone off. -/
def Kept (s : State) : Prop := s.alarm = s.prior ∨ s.expired = true

/-- `oldalarm` is the alarm of before, and unless it is borrowed the alarm is that one. -/
def Saved (s : State) : Prop := s.oldalarm = s.prior ∧ (s.flag = false → Kept s)

/-- Not only the timeout has raised SIGALRM. -/
def Quiet (s : State) : Prop := s.ringing = true → s.other = true

/-- If the timeout has raised SIGALRM then the next look at `flag` finds it. -/
def Rests (s : State) : Prop := s.ringing = true → s.other = true ∨ s.flag = true ∧ 0 < s.nr

/-- What holds at each place of a call. -/
def Inv (s : State) : Prop :=
  match s.pc with
  | .entry _ _ => s.alarm = s.prior ∧ Quiet s
  | .test again => Saved s ∧ Quiet s ∧ (again = false → s.flag = false)
  | .arm _ => Saved s ∧ Quiet s ∧ s.flag = true
  | .head => Saved s ∧ Rests s
  | .pending | .wait => Saved s ∧ Quiet s ∧ 0 < s.nr
  | .sleep | .asleep => Saved s ∧ Rests s ∧ 0 < s.nr
  | .take | .store | .batch | .tail | .finish => Saved s ∧ Quiet s
  | .done _ => Kept s ∧ Quiet s

theorem ringing_clear (s : State) : (s.signal &&& ~~~alrm) &&& alrm = 0 := by
  rw [BitVec.and_assoc, BitVec.and_comm (~~~alrm), BitVec.and_not_self]
  exact BitVec.and_zero

theorem Inv.init (h : Initial s) : Inv s := by
  obtain ⟨channel, nr, hpc⟩ := h.pc
  have hquiet : Quiet s := fun hring => by rw [h.other, hring]
  unfold Inv
  rw [hpc]
  exact ⟨h.prior.symm, hquiet⟩

theorem Inv.enter {channel : Nat} {nr : Int} (halarm : s.alarm = s.prior) (hquiet : Quiet s) :
    Inv (s.enter channel nr) := by
  unfold State.enter
  dsimp only
  split
  · exact ⟨.inl halarm, hquiet⟩
  · split
    · exact ⟨⟨halarm, fun _ => .inl halarm⟩, hquiet, fun _ => rfl⟩
    · exact ⟨⟨halarm, fun _ => .inl halarm⟩, fun hring => .inl (hquiet hring)⟩

theorem Inv.advance (h : Inv s) (hg : Careful s .step) (hstep : s.advance = some s') : Inv s' := by
  unfold Inv at h
  unfold State.advance at hstep
  cases hpc : s.pc with
  | entry channel nr =>
    rw [hpc] at h hstep
    cases hstep
    exact Inv.enter h.1 h.2
  | test again =>
    rw [hpc] at h hstep
    obtain ⟨⟨hold, hlent⟩, hquiet, hfirst⟩ := h
    dsimp only at hstep
    split at hstep
    · cases hstep
      exact ⟨⟨hold, nofun⟩, hquiet, rfl⟩
    · cases again with
      | true =>
        cases hstep
        exact ⟨⟨hold, fun _ => .inl hold⟩, hquiet⟩
      | false =>
        cases hstep
        exact ⟨⟨hold, fun _ => hlent (hfirst rfl)⟩, fun hring => .inl (hquiet hring)⟩
  | arm again =>
    rw [hpc] at h hstep
    obtain ⟨⟨hold, hlent⟩, hquiet, hflag⟩ := h
    cases hstep
    have hsaved : ∀ a pc, Saved { s with alarm := a, pc := pc } :=
      fun a pc => ⟨hold, fun hno => absurd hflag (Bool.eq_false_iff.mp hno)⟩
    cases again with
    | true => exact ⟨hsaved _ _, hquiet⟩
    | false => exact ⟨hsaved _ _, fun hring => .inl (hquiet hring)⟩
  | head =>
    rw [hpc] at h hstep
    obtain ⟨hsaved, hrests⟩ := h
    dsimp only at hstep
    split at hstep
    · rename_i hnr
      cases hstep
      refine ⟨hsaved, fun hring => (hrests hring).resolve_right fun htimeout => ?_⟩
      exact absurd hnr (Nat.ne_of_gt htimeout.2)
    · rename_i hnr
      split at hstep
      · cases hstep
        refine ⟨hsaved, fun hring => ?_⟩
        unfold State.ringing at hring
        rw [ringing_clear] at hring
        cases hring
      · rename_i hno
        cases hstep
        refine ⟨hsaved, fun hring => (hrests hring).resolve_right fun htimeout => ?_, Nat.pos_of_ne_zero hnr⟩
        exact hno ⟨htimeout.1, hring⟩
  | pending =>
    rw [hpc] at h hstep
    obtain ⟨hsaved, hquiet, hnr⟩ := h
    cases hstep
    by_cases hsignal : s.signal ≠ 0
    · unfold Inv
      simp only [if_pos hsignal]
      exact ⟨hsaved, hquiet⟩
    · unfold Inv
      simp only [if_neg hsignal]
      exact ⟨hsaved, hquiet, hnr⟩
  | wait =>
    rw [hpc] at h hstep
    obtain ⟨hsaved, hquiet, hnr⟩ := h
    cases hstep
    by_cases hread : s.tty.readable = true
    · unfold Inv
      simp only [if_pos hread]
      exact ⟨hsaved, hquiet⟩
    · unfold Inv
      simp only [if_neg hread]
      exact ⟨hsaved, fun hring => .inl (hquiet hring), hnr⟩
  | sleep =>
    rw [hpc] at h hstep
    obtain ⟨hsaved, hrests, hnr⟩ := h
    dsimp only at hstep
    split at hstep
    · cases hstep
      exact ⟨hsaved, hrests, hnr⟩
    · cases hstep
      exact ⟨hsaved, hrests⟩
  | take =>
    rw [hpc] at h hstep
    obtain ⟨⟨hold, hlent⟩, hquiet⟩ := h
    dsimp only at hstep
    split at hstep
    · rename_i heof
      have hflag : s.flag = false := Bool.eq_false_iff.mpr fun hflag => hg hpc hflag heof
      cases hstep
      exact ⟨hlent hflag, hquiet⟩
    · cases hstep
      exact ⟨⟨hold, hlent⟩, hquiet⟩
  | store =>
    rw [hpc] at h hstep
    obtain ⟨hsaved, hquiet⟩ := h
    cases hstep
    by_cases hlast : s.nr - 1 = 0 ∨ s.tty.secondary.empty = true
    · unfold Inv
      simp only [if_pos hlast]
      exact ⟨hsaved, hquiet⟩
    · unfold Inv
      simp only [if_neg hlast]
      exact ⟨hsaved, hquiet⟩
  | batch =>
    rw [hpc] at h hstep
    obtain ⟨hsaved, hquiet⟩ := h
    cases hstep
    by_cases hraw : s.time ≠ 0 ∧ ¬ s.tty.termios.canon = true
    · unfold Inv
      simp only [if_pos hraw]
      exact ⟨hsaved, hquiet, nofun⟩
    · unfold Inv
      simp only [if_neg hraw]
      exact ⟨hsaved, hquiet⟩
  | tail =>
    rw [hpc] at h hstep
    obtain ⟨hsaved, hquiet⟩ := h
    dsimp only at hstep
    generalize (if s.tty.termios.canon = true then decide (0 < s.got)
      else decide (s.minimum ≤ s.got)) = leaves at hstep
    cases hstep
    cases leaves with
    | true => exact ⟨hsaved, hquiet⟩
    | false => exact ⟨hsaved, fun hring => .inl (hquiet hring)⟩
  | finish =>
    rw [hpc] at h hstep
    obtain ⟨⟨hold, hlent⟩, hquiet⟩ := h
    cases hstep
    exact ⟨.inl hold, hquiet⟩
  | asleep => rw [hpc] at hstep; cases hstep
  | done r => rw [hpc] at hstep; cases hstep

theorem ringing_raise {bits : Word} (h : (s.raise bits).ringing = true) :
    s.ringing = true ∨ (s.raise bits).other = true := by
  by_cases hbits : bits &&& alrm = 0
  · left
    simpa [State.ringing, State.raise, BitVec.and_or_distrib_right, hbits] using h
  · right
    have hset : decide (bits &&& alrm ≠ 0) = true := decide_eq_true hbits
    simp only [State.raise, hset, Bool.or_true]

theorem other_raise {bits : Word} (h : s.other = true) : (s.raise bits).other = true := by
  simp [State.raise, h]

theorem Quiet.raise (bits : Word) (h : Quiet s) : Quiet (s.raise bits) := by
  intro hring
  rcases ringing_raise hring with hbefore | hother
  · exact other_raise (h hbefore)
  · exact hother

theorem Rests.raise (bits : Word) (h : Rests s) : Rests (s.raise bits) := by
  intro hring
  rcases ringing_raise hring with hbefore | hother
  · exact (h hbefore).imp_left other_raise
  · exact .inl hother

theorem Inv.raise (bits : Word) (h : Inv s) : Inv (s.raise bits) := by
  unfold Inv at h ⊢
  rw [show (s.raise bits).pc = s.pc from rfl]
  cases hpc : s.pc with
  | entry channel nr => rw [hpc] at h; exact ⟨h.1, h.2.raise bits⟩
  | test again => rw [hpc] at h; exact ⟨h.1, h.2.1.raise bits, h.2.2⟩
  | arm again => rw [hpc] at h; exact ⟨h.1, h.2.1.raise bits, h.2.2⟩
  | head => rw [hpc] at h; exact ⟨h.1, h.2.raise bits⟩
  | pending | wait => rw [hpc] at h; exact ⟨h.1, h.2.1.raise bits, h.2.2⟩
  | sleep | asleep => rw [hpc] at h; exact ⟨h.1, h.2.1.raise bits, h.2.2⟩
  | take | store | batch | tail | finish | done r => rw [hpc] at h; exact ⟨h.1, h.2.raise bits⟩

theorem checkAlarm_of_not (h : s.overdue = false) : s.checkAlarm = s := by
  simp [State.checkAlarm, h]

/-- The timeout goes off while the task sleeps; the loop goes back to its head, which looks at it. -/
theorem Inv.checkAlarm_asleep (hpc : s.pc = .asleep) (h : Inv s) : Inv s.checkAlarm := by
  by_cases hover : s.overdue = true
  · unfold Inv at h
    rw [hpc] at h
    obtain ⟨⟨hold, hlent⟩, hrests, hnr⟩ := h
    unfold State.checkAlarm Inv
    rw [if_pos hover]
    simp only [hpc]
    cases hflag : s.flag with
    | true => exact ⟨⟨hold, nofun⟩, fun _ => .inr ⟨rfl, hnr⟩, hnr⟩
    | false =>
      have hother : (s.other || !false) = true := Bool.or_true _
      exact ⟨⟨hold, fun _ => .inr (Bool.or_true _)⟩, fun _ => .inl hother, hnr⟩
  · rwa [checkAlarm_of_not (Bool.eq_false_iff.mpr hover)]

/-- While a character is stored only the alarm of before may go off. -/
theorem Inv.checkAlarm_store (hpc : s.pc = .store) (hg : s.flag = true → s.overdue = false) (h : Inv s) :
    Inv s.checkAlarm := by
  by_cases hover : s.overdue = true
  · have hflag : s.flag = false := by
      cases hflag : s.flag with
      | true => rw [hg hflag] at hover; cases hover
      | false => rfl
    unfold Inv at h
    rw [hpc] at h
    obtain ⟨⟨hold, hlent⟩, hquiet⟩ := h
    unfold State.checkAlarm Inv
    rw [if_pos hover]
    simp only [hpc, hflag]
    exact ⟨⟨hold, fun _ => .inr (Bool.or_true _)⟩, fun _ => Bool.or_true _⟩
  · rwa [checkAlarm_of_not (Bool.eq_false_iff.mpr hover)]

theorem Inv.step {e : Event} (h : Inv s) (hg : Careful s e) (hstep : step s e = some s') : Inv s' := by
  cases e with
  | step => exact h.advance hg hstep
  | tick =>
    cases hstep
    exact h
  | input secondary data =>
    cases hstep
    exact h
  | raise bits =>
    cases hstep
    exact h.raise bits
  | schedule =>
    obtain ⟨hpc, rfl⟩ := of_guard hstep
    rcases hpc with hpc | hpc
    · exact h.checkAlarm_asleep hpc
    · exact h.checkAlarm_store hpc (hg hpc)
  | wake =>
    obtain ⟨hpc, rfl⟩ := of_guard hstep
    unfold Inv at h
    rw [hpc] at h
    exact h

theorem Inv.givesBack (h : Inv s) : GivesBack s := by
  intro r hr
  unfold Inv at h
  rw [hr] at h
  exact h

/-- As long as no EOF character is taken while the alarm is borrowed, and the timeout does not go off in the
middle of a store, a call gives the alarm back. -/
theorem alarm_given_back : ∀ s, Reach step Careful Initial s → GivesBack s :=
  fun _ h => (Reach.invariant (fun _ => Inv.init) (fun _ _ _ hs hg => hs.step hg) h).givesBack

/-! ## Two calls -/

/-- A timeout of a tenth of a second and no minimum, and 4 as the EOF character. -/
def timedSettings (lflag : BitVec 32) : Termios :=
  ⟨0, 0, lflag, fun i => if i = 4 then 4 else if i = 5 then 1 else 0⟩

/-- A terminal on which `c` has been typed: it is stored, and counted if it ends a line. -/
def typedTty (t : Termios) (c : Byte) : Tty :=
  { quietTty t with
    secondary := (quietTty t).secondary.put c
    data := if ends t c then 1 else 0 }

/-- A task is about to read a character, 100 ticks after the start of the system. -/
def caller (tty : Tty) (alarm : Word) : State where
  tty := tty
  jiffies := 100
  alarm := alarm
  signal := 0
  nr := 0
  got := 0
  minimum := 0
  time := 0
  flag := false
  oldalarm := 0
  pc := .entry 0 1
  prior := alarm
  expired := false
  other := false
  moved := true

theorem caller_initial (tty : Tty) (alarm : Word) : Initial (caller tty alarm) :=
  ⟨⟨0, 1, rfl⟩, rfl, rfl, by simp [caller, State.ringing], rfl⟩

/-- A character is read; the alarm that was to go off after 500 ticks still is. -/
theorem alarm_given_back_character : ∃ s, s.pc = .done 1 ∧ s.flag = true ∧ GivesBack s := by
  let check (s : State) (e : Event) (_ : State) : Bool :=
    match e with
    | .step => !(same s.tty.secondary.first s.tty.termios.eofChar)
    | _ => false
  have hrun : ((run (fun s e => (step s e).filter (check s e)) (caller (typedTty (timedSettings 0) 97) 500)
      (List.replicate 13 .step)).map fun s => (s.pc, s.flag)) = some (.done 1, true) := by
    decide +kernel
  obtain ⟨s, hs, hv⟩ := Option.map_eq_some_iff.mp hrun
  obtain ⟨hpc, hflag⟩ := Prod.mk.inj hv
  have hcheck (u : State) (e : Event) (u' : State) (_ : step u e = some u')
      (hch : check u e u' = true) : Careful u e := by
    cases e with
    | step =>
      intro _ _ heof
      simp only [check, heof.1, Bool.not_true, Bool.false_eq_true] at hch
    | tick | input | raise | schedule | wake => cases hch
  exact ⟨s, hpc, hflag, alarm_given_back s (.ofChecked hcheck (.start (caller_initial _ _)) hs)⟩

/-- A task without an alarm reads the EOF character and has one afterwards. -/
theorem alarm_left : ¬ ∀ s, Reach step (fun _ _ => True) Initial s → GivesBack s := by
  intro hall
  have hrun : ((run step (caller (typedTty (timedSettings 2) 4) 0) (List.replicate 7 .step)).map fun s =>
      (s.pc, s.alarm, s.prior, s.expired)) = some (.done 0, 110, 0, false) := by decide +kernel
  obtain ⟨s, hs, hv⟩ := Option.map_eq_some_iff.mp hrun
  obtain ⟨hpc, hrest⟩ := Prod.mk.inj hv
  obtain ⟨halarm, hrest⟩ := Prod.mk.inj hrest
  obtain ⟨hprior, hexpired⟩ := Prod.mk.inj hrest
  obtain ⟨hkept | hkept, -⟩ :=
    hall s (.ofRun (fun _ _ => trivial) (.start (caller_initial _ _)) hs) 0 hpc
  · rw [halarm, hprior] at hkept
    cases hkept
  · rw [hexpired] at hkept
    cases hkept

end Linux011.TtyIo.Reading
