import Linux011.TtyIo.Discipline
import Linux011.Lib.Machine

/-!
# Output processing

`tty_write` translates the characters of a buffer into the write queue of a terminal. Where a newline
becomes two characters the queue can fill up between them; the call then sleeps, and `cr_flag` is to
tell it that the carriage return has been put. The flag is one for all terminals and all calls.

The machine has any number of calls. The kernel takes the processor from none of them, so a call in the
inner loop goes on alone (`cpu`), while the interrupts take characters out of the queues; at
`sleep_if_full` and at `schedule()` another call may go on. Beside the code stand the history of every
write queue, with the call that put each character, and `owed`: the call has put the carriage return of
the newline it is at. As long as `cr_flag` says the same as `owed` to every call that comes to such a
newline, each call writes the translation of what it has taken from its buffer (`output_translated`);
where it does not, the call goes wrong at once (`put_good_iff`).
-/

namespace Linux011.TtyIo

open Linux011.Lib

variable {below : Byte → Byte} {t : Termios} {k k' ch : Nat} {x : Byte}

/-! ## Translation -/

/-- A character after the mappings of newlines and carriage returns. -/
def mapOutput (t : Termios) (c : Byte) : Byte :=
  if t.opost then
    if c = 13 ∧ t.ocrnl then 10
    else if c = 10 ∧ t.onlret then 13
    else c
  else c

/-- A newline that is to have a carriage return in front. -/
def expands (t : Termios) (c : Byte) : Bool := t.opost && mapOutput t c == 10 && t.onlcr

/-- The character that is put for `c`. -/
def outputChar (below : Byte → Byte) (t : Termios) (c : Byte) : Byte :=
  if t.opost && t.olcuc then toupper below (mapOutput t c) else mapOutput t c

/-- What is to be written for a character. -/
def translate (below : Byte → Byte) (t : Termios) (c : Byte) : List Byte :=
  (if expands t c then [13] else []) ++ [outputChar below t c]

/-! ## A terminal and the history of its write queue -/

/-- `log` is what has been put into the queue, with the calls, and `taken` what has left it. -/
structure Line where
  tty : Tty
  log : List (Option Nat × Byte)
  taken : List Byte

namespace Line

/-- `PUTCH(c,tty->write_q)` by a call. -/
def put (k : Nat) (x : Byte) (l : Line) : Line :=
  { l with tty := { l.tty with writeQ := l.tty.writeQ.put x }, log := l.log ++ [(some k, x)] }

/-- A character leaves the queue. -/
def drain (l : Line) : Line :=
  { l with tty := { l.tty with writeQ := l.tty.writeQ.take }, taken := l.taken ++ [l.tty.writeQ.first] }

/-- `tty->write(tty)`. -/
def write (l : Line) : Line :=
  { l with
    tty := l.tty.write
    taken := if l.tty.console then l.taken ++ l.tty.writeQ.contents else l.taken }

/-- What a call has put into the queue. -/
def appended (k : Nat) (l : Line) : List Byte := (l.log.filter fun p => p.1 == some k).map Prod.snd

/-- Nothing is lost: what has been put has left the queue or is in it. -/
def Kept (l : Line) : Prop := l.taken ++ l.tty.writeQ.contents = l.log.map Prod.snd

end Line

/-! ## `tty_write` -/

/-- Where a call stands. -/
inductive Phase where
  /-- at `while (nr>0)` -/
  | loop
  /-- in `sleep_if_full` -/
  | asleep
  /-- in the inner loop -/
  | writing
  | returned (r : Int)
  deriving DecidableEq

/-- `pos` is `b-buf`, `signal` is `current->signal != 0`. -/
structure Call where
  channel : Nat
  buf : Nat → Byte
  nr : Nat
  pos : Nat
  phase : Phase
  signal : Bool
  owed : Bool

/-- The first line of `tty_write`. -/
def Call.enter (channel : Nat) (buf : Nat → Byte) (nr : Int) : Call :=
  ⟨channel, buf, nr.toNat, 0, if channel > 2 ∨ nr < 0 then .returned (-1) else .loop, false, false⟩

/-- All terminals and calls, with the one `cr_flag`, and the call that is in the inner loop. -/
structure World where
  crFlag : Bool
  line : Nat → Line
  calls : Nat → Option Call
  cpu : Option Nat

inductive OutputEvent where
  | call (k channel : Nat) (buf : Nat → Byte) (nr : Int)
  /-- a call goes on -/
  | go (k : Nat)
  /-- the process of a call gets a signal -/
  | signal (k : Nat)
  /-- an interrupt takes a character from a write queue -/
  | drain (ch : Nat)

namespace World

variable {s s' : World} {c c' : Call}

def setCall (k : Nat) (c : Call) (s : World) : World :=
  { s with calls := Function.update s.calls k (some c) }

def setLine (ch : Nat) (l : Line) (s : World) : World := { s with line := Function.update s.line ch l }

/-- The queue of a call, and its settings. -/
def queue (s : World) (c : Call) : TtyQueue := (s.line c.channel).tty.writeQ

def settings (s : World) (c : Call) : Termios := (s.line c.channel).tty.termios

/-- From `sleep_if_full` to the inner loop, or `break`. -/
def wake (s : World) (k : Nat) (c : Call) : World :=
  if c.signal then s.setCall k { c with phase := .returned c.pos }
  else { s.setCall k { c with phase := .writing } with cpu := some k }

/-- One turn of the inner loop. -/
def put (below : Byte → Byte) (s : World) (k : Nat) (c : Call) : World :=
  if expands (s.settings c) (c.buf c.pos) && !s.crFlag then
    { (s.setCall k { c with owed := true }).setLine c.channel ((s.line c.channel).put k 13) with
      crFlag := true }
  else
    { (s.setCall k { c with pos := c.pos + 1, nr := c.nr - 1, owed := false }).setLine c.channel
        ((s.line c.channel).put k (outputChar below (s.settings c) (c.buf c.pos))) with crFlag := false }

/-- The end of the inner loop: `tty->write(tty)`, and `schedule()` or the end of the call. -/
def leave (s : World) (k : Nat) (c : Call) : World :=
  { (s.setCall k { c with phase := if c.nr = 0 then .returned c.pos else .loop }).setLine c.channel
      (s.line c.channel).write with cpu := none }

/-- A call goes on; one that has to sleep on does not. -/
def go (below : Byte → Byte) (s : World) (k : Nat) (c : Call) : Option World :=
  match c.phase with
  | .loop =>
    if c.nr = 0 then some (s.setCall k { c with phase := .returned c.pos })
    else if (s.queue c).full && !c.signal then some (s.setCall k { c with phase := .asleep })
    else some (s.wake k c)
  | .asleep => if !c.signal && decide ((s.queue c).left < 128) then none else some (s.wake k c)
  | .writing => if c.nr = 0 ∨ (s.queue c).full then some (s.leave k c) else some (s.put below k c)
  | .returned _ => none

/-- Nothing has been called; the queues hold what they hold. -/
structure Initial (s : World) : Prop where
  flag : s.crFlag = false
  calls : ∀ k, s.calls k = none
  log : ∀ ch, (s.line ch).log = (s.line ch).tty.writeQ.contents.map fun x => (none, x)
  taken : ∀ ch, (s.line ch).taken = []

end World

def outputStep (below : Byte → Byte) (s : World) : OutputEvent → Option World
  | .call k channel buf nr =>
    if (s.calls k).isNone ∧ s.cpu = none then some (s.setCall k (.enter channel buf nr)) else none
  | .go k =>
    if s.cpu = none ∨ s.cpu = some k then (s.calls k).bind fun c => s.go below k c else none
  | .signal k => (s.calls k).map fun c => s.setCall k { c with signal := true }
  | .drain ch =>
    if (s.line ch).tty.writeQ.empty then none else some (s.setLine ch (s.line ch).drain)

/-- A call that comes to a newline which is to be expanded finds in `cr_flag` whether it has itself put
the carriage return. -/
def OwnFlag (s : World) : OutputEvent → Prop
  | .go k => ∀ c, s.calls k = some c → c.phase = .writing → c.nr ≠ 0 → (s.queue c).full = false →
      expands (s.settings c) (c.buf c.pos) = true → s.crFlag = c.owed
  | _ => True

/-! ## The history of a queue -/

namespace Line

variable {l : Line}

theorem kept_put (h : l.Kept) (hf : l.tty.writeQ.full = false) : (l.put k x).Kept := by
  show l.taken ++ (l.tty.writeQ.put x).contents = (l.log ++ [(some k, x)]).map Prod.snd
  rw [Queue.contents_put hf, ← List.append_assoc, h, List.map_append]
  rfl

theorem kept_drain (h : l.Kept) (he : l.tty.writeQ.empty = false) : l.drain.Kept := by
  show (l.taken ++ [l.tty.writeQ.first]) ++ l.tty.writeQ.take.contents = l.log.map Prod.snd
  rw [List.append_assoc, List.singleton_append, ← Queue.contents_take he]
  exact h

theorem kept_write (h : l.Kept) : l.write.Kept := by
  unfold Kept write
  unfold Tty.write
  split
  · show l.taken ++ l.tty.writeQ.contents ++
      (Nat.repeat Queue.take l.tty.writeQ.chars l.tty.writeQ).contents = l.log.map Prod.snd
    rw [← Queue.length_contents, Queue.contents_repeat_take (Nat.le_refl _), List.drop_length,
      List.append_nil]
    exact h
  · exact h

theorem termios_write : l.write.tty.termios = l.tty.termios := by
  show l.tty.write.termios = l.tty.termios
  unfold Tty.write
  split <;> rfl

theorem appended_put : (l.put k' x).appended k = l.appended k ++ if k = k' then [x] else [] := by
  unfold appended put
  rw [List.filter_append, List.map_append]
  refine congrArg₂ (· ++ ·) rfl ?_
  by_cases h : k = k'
  · rw [if_pos h, List.filter_cons_of_pos (by simp [h])]
    rfl
  · rw [if_neg h, List.filter_cons_of_neg (by simpa using Ne.symm h)]
    rfl

end Line

/-! ## What a call is to have put -/

/-- The characters that the call has taken from its buffer. -/
def Call.consumed (c : Call) : List Byte := (List.range c.pos).map c.buf

/-- What a call owes or has returned. -/
structure Call.Ready (t : Termios) (c : Call) : Prop where
  owed : c.owed = true → c.nr ≠ 0 ∧ expands t (c.buf c.pos) = true
  result : ∀ r, c.phase = .returned r →
    r = -1 ∧ c.pos = 0 ∧ c.owed = false ∨ r = c.pos ∧ (c.nr = 0 ∨ c.signal = true)

namespace World

variable {s s' : World} {c c' : Call} {l : Line}

/-- The translation of what the call has consumed, and a carriage return that stands alone. -/
def sent (below : Byte → Byte) (s : World) (c : Call) : List Byte :=
  c.consumed.flatMap (translate below (s.settings c)) ++ if c.owed then [13] else []

/-- What call `k` is to have put into the queue of a terminal. -/
def due (below : Byte → Byte) (s : World) (k ch : Nat) : List Byte :=
  match s.calls k with
  | none => []
  | some c => if ch = c.channel then s.sent below c else []

structure Good (below : Byte → Byte) (s : World) : Prop where
  kept : ∀ ch, (s.line ch).Kept
  due : ∀ k ch, (s.line ch).appended k = s.due below k ch
  ready : ∀ k c, s.calls k = some c → c.Ready (s.settings c)

theorem due_some (h : s.calls k = some c) :
    s.due below k ch = if ch = c.channel then s.sent below c else [] := by
  unfold due
  rw [h]

@[simp] theorem setCall_self : (s.setCall k c).calls k = some c := Function.update_self ..

theorem setCall_other (h : k' ≠ k) : (s.setCall k c).calls k' = s.calls k' := Function.update_of_ne h ..

@[simp] theorem setLine_self : (s.setLine ch l).line ch = l := Function.update_self ..

theorem setLine_other {j : Nat} (h : j ≠ ch) : (s.setLine ch l).line j = s.line j :=
  Function.update_of_ne h ..

theorem settings_setLine (ht : l.tty.termios = (s.line ch).tty.termios) :
    (s.setLine ch l).settings c = s.settings c := by
  unfold settings
  by_cases hc : c.channel = ch
  · rw [hc, setLine_self, ht]
  · rw [setLine_other hc]

theorem due_setLine (ht : l.tty.termios = (s.line ch).tty.termios) :
    (s.setLine ch l).due below = s.due below := by
  funext i j
  unfold due sent
  simp only [settings_setLine ht]
  rfl

theorem due_other (h : k' ≠ k) : (s.setCall k c).due below k' = s.due below k' := by
  funext j
  unfold due
  rw [setCall_other h]
  rfl

theorem Good.ready_setCall (h : s.Good below) (hc : c.Ready (s.settings c)) :
    ∀ i d, (s.setCall k c).calls i = some d → d.Ready (s.settings d) := by
  intro i d hi
  by_cases hik : i = k
  · rw [hik, setCall_self] at hi
    cases hi
    exact hc
  · rw [setCall_other hik] at hi
    exact h.ready i d hi

/-- A call goes from one place to another and puts nothing. -/
theorem Good.setCall (h : s.Good below) (hd : (s.setCall k c).due below k = s.due below k)
    (hc : c.Ready (s.settings c)) : (s.setCall k c).Good below := by
  refine ⟨h.kept, fun i ch => ?_, h.ready_setCall hc⟩
  by_cases hik : i = k
  · rw [hik, hd]
    exact h.due k ch
  · rw [due_other hik]
    exact h.due i ch

/-- Characters leave a queue. -/
theorem Good.setLine (h : s.Good below) (hk : l.Kept) (hl : l.log = (s.line ch).log)
    (ht : l.tty.termios = (s.line ch).tty.termios) : (s.setLine ch l).Good below := by
  refine ⟨fun j => ?_, fun i j => ?_, fun i d hi => ?_⟩
  · by_cases hj : j = ch
    · rw [hj, setLine_self]
      exact hk
    · rw [setLine_other hj]
      exact h.kept j
  · rw [due_setLine ht, ← h.due i j]
    by_cases hj : j = ch
    · rw [hj, setLine_self]
      unfold Line.appended
      rw [hl]
    · rw [setLine_other hj]
  · rw [settings_setLine ht]
    exact h.ready i d hi

/-- A call puts a character and accounts for it. -/
theorem Good.append (h : s.Good below) (hs : s.calls k = some c) (hf : (s.queue c).full = false)
    (hch : c'.channel = c.channel) (hsent : s.sent below c' = s.sent below c ++ [x])
    (hc : c'.Ready (s.settings c')) :
    ((s.setCall k c').setLine c.channel ((s.line c.channel).put k x)).Good below := by
  have ht : ((s.line c.channel).put k x).tty.termios = (s.line c.channel).tty.termios := rfl
  refine ⟨fun j => ?_, fun i j => ?_, fun i d hi => ?_⟩
  · by_cases hj : j = c.channel
    · rw [hj, setLine_self]
      exact Line.kept_put (h.kept _) hf
    · rw [setLine_other hj]
      exact h.kept j
  · rw [due_setLine (s := s.setCall k c') ht]
    by_cases hj : j = c.channel
    · rw [hj, setLine_self, Line.appended_put, h.due i c.channel]
      by_cases hik : i = k
      · rw [hik, if_pos rfl, due_some hs, if_pos rfl, due_some setCall_self, if_pos hch.symm]
        exact hsent.symm
      · rw [if_neg hik, List.append_nil, due_other hik]
    · rw [setLine_other hj]
      refine (h.due i j).trans ?_
      by_cases hik : i = k
      · rw [hik, due_some hs, if_neg hj, due_some setCall_self, if_neg (hch ▸ hj)]
      · rw [due_other hik]
  · rw [settings_setLine (s := s.setCall k c') ht]
    exact h.ready_setCall hc i d hi

/-- An account that does not show the character is wrong. -/
theorem Good.sent_append (h : s.Good below) (hs : s.calls k = some c) (hch : c'.channel = c.channel)
    (h' : ((s.setCall k c').setLine c.channel ((s.line c.channel).put k x)).Good below) :
    s.sent below c' = s.sent below c ++ [x] := by
  have hd := h'.due k c.channel
  have ht : ((s.line c.channel).put k x).tty.termios = (s.line c.channel).tty.termios := rfl
  rw [due_setLine (s := s.setCall k c') ht, setLine_self, Line.appended_put, h.due k c.channel,
    if_pos rfl, due_some hs, if_pos rfl, due_some setCall_self, if_pos hch.symm] at hd
  exact hd.symm

/-! ## One turn of the inner loop -/

/-- A carriage return is right when none has been put. -/
theorem sent_carriage :
    s.sent below { c with owed := true } = s.sent below c ++ [13] ↔ c.owed = false := by
  show c.consumed.flatMap (translate below (s.settings c)) ++ [13] = _ ++ _ ++ [13] ↔ _
  cases c.owed <;> simp

/-- A character is right when the carriage return that belongs to it has been put. -/
theorem sent_next : s.sent below { c with pos := c.pos + 1, nr := c.nr - 1, owed := false } =
      s.sent below c ++ [outputChar below (s.settings c) (c.buf c.pos)] ↔
    c.owed = expands (s.settings c) (c.buf c.pos) := by
  show ((List.range (c.pos + 1)).map c.buf).flatMap (translate below (s.settings c)) ++ [] =
    c.consumed.flatMap (translate below (s.settings c)) ++ _ ++ _ ↔ _
  rw [List.range_succ, List.map_append, List.flatMap_append, List.append_nil, List.append_assoc]
  show c.consumed.flatMap _ ++ (translate below (s.settings c) (c.buf c.pos) ++ []) = _ ↔ _
  rw [List.append_cancel_left_eq, List.append_nil, translate, List.append_cancel_right_eq]
  cases c.owed <;> cases expands (s.settings c) (c.buf c.pos) <;> simp

/-- A turn goes right exactly when `cr_flag` is the caller's own, at a newline that is expanded. -/
theorem put_good_iff (h : s.Good below) (hs : s.calls k = some c) (hw : c.phase = .writing)
    (hn : c.nr ≠ 0) (hf : (s.queue c).full = false) : (s.put below k c).Good below ↔
      (expands (s.settings c) (c.buf c.pos) = true → s.crFlag = c.owed) := by
  have hready := h.ready k c hs
  have hcrflag {u : World} {b : Bool} : ({ u with crFlag := b } : World).Good below ↔ u.Good below :=
    ⟨fun g => ⟨g.kept, g.due, g.ready⟩, fun g => ⟨g.kept, g.due, g.ready⟩⟩
  unfold put
  by_cases he : (expands (s.settings c) (c.buf c.pos) && !s.crFlag) = true
  · rw [if_pos he, hcrflag]
    rw [Bool.and_eq_true, Bool.not_eq_true'] at he
    rw [he.2]
    constructor
    · intro g _
      exact (sent_carriage.mp (h.sent_append hs rfl g)).symm
    · intro ho
      refine h.append hs hf rfl (sent_carriage.mpr (ho he.1).symm) ⟨fun _ => ⟨hn, he.1⟩, fun r hr => ?_⟩
      cases hw.symm.trans hr
  · rw [if_neg he, hcrflag]
    rw [Bool.and_eq_true, Bool.not_eq_true', not_and, Bool.not_eq_false] at he
    constructor
    · intro g hx
      rw [he hx, sent_next.mp (h.sent_append hs rfl g), hx]
    · intro ho
      refine h.append hs hf rfl (sent_next.mpr ?_) ⟨nofun, fun r hr => ?_⟩
      · cases hx : expands (s.settings c) (c.buf c.pos) with
        | true => rw [← ho hx, he hx]
        | false => exact Bool.eq_false_iff.mpr fun hc => by rw [(hready.owed hc).2] at hx; cases hx
      · cases hw.symm.trans hr

/-! ## The other steps -/

/-- A call only changes its place. -/
theorem Good.move {p : Phase} (h : s.Good below) (hs : s.calls k = some c)
    (hp : ∀ r, p = .returned r → r = c.pos ∧ (c.nr = 0 ∨ c.signal = true)) :
    (s.setCall k { c with phase := p }).Good below := by
  refine h.setCall ?_ ⟨(h.ready k c hs).owed, fun r hr => .inr (hp r hr)⟩
  funext ch
  rw [due_some setCall_self, due_some hs]
  rfl

theorem Good.wake (h : s.Good below) (hs : s.calls k = some c) : (s.wake k c).Good below := by
  unfold World.wake
  split
  · next hc =>
    refine h.move hs fun r hr => ?_
    cases hr
    exact ⟨rfl, .inr hc⟩
  · have g := h.move (p := .writing) hs nofun
    exact ⟨g.kept, g.due, g.ready⟩

theorem Good.leave (h : s.Good below) (hs : s.calls k = some c) : (s.leave k c).Good below := by
  have g := h.move (p := if c.nr = 0 then .returned c.pos else .loop) hs fun r hr => by
    split at hr
    · next hn =>
      cases hr
      exact ⟨rfl, .inl hn⟩
    · cases hr
  have hlog : (s.line c.channel).write.log = (s.line c.channel).log := rfl
  have g' := g.setLine (Line.kept_write (h.kept c.channel)) hlog Line.termios_write
  exact ⟨g'.kept, g'.due, g'.ready⟩

theorem Good.go (h : s.Good below) (hs : s.calls k = some c) (ho : OwnFlag s (.go k))
    (hgo : s.go below k c = some s') : s'.Good below := by
  unfold World.go at hgo
  split at hgo
  · split at hgo
    · next hn =>
      cases hgo
      refine h.move hs fun r hr => ?_
      cases hr
      exact ⟨rfl, .inl hn⟩
    · split at hgo
      · cases hgo
        exact h.move hs nofun
      · cases hgo
        exact h.wake hs
  · split at hgo
    · cases hgo
    · cases hgo
      exact h.wake hs
  · next hw =>
    split at hgo
    · cases hgo
      exact h.leave hs
    · next hn =>
      cases hgo
      rw [not_or, Bool.not_eq_true] at hn
      exact (put_good_iff h hs hw hn.1 hn.2).mpr (ho c hs hw hn.1 hn.2)
  · cases hgo

/-- A call begins with nothing put. -/
theorem Good.call {channel : Nat} {buf : Nat → Byte} {nr : Int} (h : s.Good below)
    (hs : s.calls k = none) : (s.setCall k (.enter channel buf nr)).Good below := by
  refine h.setCall ?_ ⟨nofun, fun r hr => .inl ?_⟩
  · funext ch
    rw [due_some setCall_self, World.due, hs]
    exact ite_self _
  · unfold Call.enter at hr
    split at hr
    · cases hr
      exact ⟨rfl, rfl, rfl⟩
    · cases hr

theorem Good.signal (h : s.Good below) (hs : s.calls k = some c) :
    (s.setCall k { c with signal := true }).Good below := by
  have hready := h.ready k c hs
  refine h.setCall ?_ ⟨hready.owed, fun r hr => ?_⟩
  · funext ch
    rw [due_some setCall_self, due_some hs]
    rfl
  · exact (hready.result r hr).imp id fun hp => ⟨hp.1, .inr rfl⟩

theorem Good.step {e : OutputEvent} (h : s.Good below) (ho : OwnFlag s e)
    (hs : outputStep below s e = some s') : s'.Good below := by
  cases e with
  | call k channel buf nr =>
    obtain ⟨⟨hn, -⟩, rfl⟩ := of_guard hs
    exact h.call (Option.isNone_iff_eq_none.mp hn)
  | go k =>
    simp only [outputStep] at hs
    split at hs
    · obtain ⟨c, hc, hgo⟩ := Option.bind_eq_some_iff.mp hs
      exact h.go hc ho hgo
    · cases hs
  | signal k =>
    obtain ⟨c, hc, rfl⟩ := Option.map_eq_some_iff.mp hs
    exact h.signal hc
  | drain ch =>
    simp only [outputStep] at hs
    split at hs
    · cases hs
    · next he =>
      cases hs
      exact h.setLine (Line.kept_drain (h.kept ch) (Bool.eq_false_iff.mpr he)) rfl rfl

theorem Initial.good (h : s.Initial) : s.Good below := by
  refine ⟨fun ch => ?_, fun k ch => ?_, fun k c hc => ?_⟩
  · unfold Line.Kept
    rw [h.log ch, h.taken ch, List.map_map, List.nil_append]
    exact (List.map_id _).symm
  · unfold due Line.appended
    rw [h.calls k, h.log ch, List.filter_map, List.map_map]
    have hnil : (s.line ch).tty.writeQ.contents.filter
        ((fun p : Option Nat × Byte => p.1 == some k) ∘ fun x => (none, x)) = [] :=
      List.filter_eq_nil_iff.mpr fun _ _ => by simp
    rw [hnil]
    rfl
  · rw [h.calls k] at hc
    cases hc

/-! ## Whole runs -/

/-- A call that has returned has written the translation of the part of its buffer that its result
gives; when a signal has ended it, perhaps the carriage return of the next newline too. -/
def Translated (below : Byte → Byte) (s : World) : Prop :=
  ∀ k c r, s.calls k = some c → c.phase = .returned r →
    (∀ ch, ch ≠ c.channel → (s.line ch).appended k = []) ∧
    (r = -1 ∧ (s.line c.channel).appended k = [] ∨
      r = c.pos ∧ (c.nr = 0 ∨ c.signal = true) ∧
        ((s.line c.channel).appended k = c.consumed.flatMap (translate below (s.settings c)) ∨
          c.signal = true ∧ expands (s.settings c) (c.buf c.pos) = true ∧
            (s.line c.channel).appended k =
              c.consumed.flatMap (translate below (s.settings c)) ++ [13]))

theorem Good.translated (h : s.Good below) : s.Translated below := by
  intro k c r hc hr
  have hown := h.due k c.channel
  rw [due_some hc, if_pos rfl, sent] at hown
  refine ⟨fun ch hch => ?_, ?_⟩
  · rw [h.due k ch, due_some hc, if_neg hch]
  · obtain ⟨rfl, hpos, ho⟩ | ⟨hr, hend⟩ := (h.ready k c hc).result r hr
    · refine .inl ⟨rfl, ?_⟩
      rw [hown, ho, Call.consumed, hpos]
      rfl
    · refine .inr ⟨hr, hend, ?_⟩
      cases ho : c.owed with
      | false =>
        rw [ho] at hown
        exact .inl (hown.trans (List.append_nil _))
      | true =>
        obtain ⟨hn, he⟩ := (h.ready k c hc).owed ho
        rw [ho] at hown
        exact .inr ⟨hend.resolve_left hn, he, hown⟩

end World

/-- While `cr_flag` is the caller's own at every newline that is expanded, nothing that is put into a
write queue is lost, and every call writes the translation of what it has consumed. -/
theorem output_translated (below : Byte → Byte) (s : World)
    (h : Reach (outputStep below) OwnFlag World.Initial s) :
    (∀ ch, (s.line ch).Kept) ∧ s.Translated below := by
  have hg : s.Good below := h.invariant (I := World.Good below) (fun _ hi => hi.good)
    fun _ _ _ hi ho hs => hi.step ho hs
  exact ⟨hg.kept, hg.translated⟩

/-- Output processing with `ONLCR`. -/
def newlineSettings : Termios := ⟨0, 5, 0, fun _ => 0⟩

/-- A serial line with `n` characters in its write queue. -/
def busyQueue (n : Nat) (h : n < 1024) : TtyQueue := ⟨fun _ => 97, n, 0, false, h, ttyBufSize_pos⟩

def busyLine (n : Nat) (h : n < 1024) : Line where
  tty := ⟨newlineSettings, false, false, Queue.fresh (fun _ => 0) ttyBufSize_pos, busyQueue n h,
    Queue.fresh (fun _ => 0) ttyBufSize_pos, 0⟩
  log := (busyQueue n h).contents.map fun x => (none, x)
  taken := []

/-- Line 1 has room for one character, the others have much. -/
def busyWorld : World where
  crFlag := false
  line ch := if ch = 1 then busyLine 1022 (by omega) else busyLine 0 ttyBufSize_pos
  calls _ := none
  cpu := none

theorem busyWorld_initial : busyWorld.Initial := by
  refine ⟨rfl, fun _ => rfl, fun ch => ?_, fun ch => ?_⟩
  · by_cases h : ch = 1
    · simp only [busyWorld, if_pos h, busyLine]
    · simp only [busyWorld, if_neg h, busyLine]
  · by_cases h : ch = 1
    · simp only [busyWorld, if_pos h, busyLine]
    · simp only [busyWorld, if_neg h, busyLine]

/-- A signal ends a call between the two characters of a newline; the newline that the next call writes
on another line comes without its carriage return. -/
theorem newline_bare : ¬ ∀ s, Reach (outputStep fun c => c) (fun _ _ => True) World.Initial s →
    s.Translated fun c => c := by
  intro hall
  have hrun : (run (outputStep fun c => c) busyWorld
      [.call 0 1 (fun _ => 10) 1, .go 0, .go 0, .go 0, .signal 0, .go 0,
        .call 1 2 (fun _ => 10) 1, .go 1, .go 1, .go 1]).map (fun s =>
        ((s.line 2).appended 1, (s.calls 1).map fun c =>
          (c.channel, c.phase, c.consumed.flatMap (translate (fun c => c) (s.settings c))))) =
      some ([10], some (2, .returned 1, [13, 10])) := by decide +kernel
  obtain ⟨s, hs, hv⟩ := Option.map_eq_some_iff.mp hrun
  obtain ⟨happ, hcall⟩ := Prod.mk.inj hv
  obtain ⟨c, hc, hcv⟩ := Option.map_eq_some_iff.mp hcall
  obtain ⟨hch, hrest⟩ := Prod.mk.inj hcv
  obtain ⟨hphase, hcons⟩ := Prod.mk.inj hrest
  have hr : Reach (outputStep fun c => c) (fun _ _ => True) World.Initial s :=
    .ofRun (fun _ _ => trivial) (.start busyWorld_initial) hs
  obtain ⟨-, h⟩ := hall s hr 1 c 1 hc hphase
  rw [hch, happ, hcons] at h
  obtain ⟨h, -⟩ | ⟨-, -, h | ⟨-, -, h⟩⟩ := h
  · cases h
  · cases h
  · cases h

/-- One call alone writes a newline with its carriage return. -/
theorem output_translated_newline : ∃ s : World, (s.line 2).appended 0 = [13, 10] ∧
    (∀ ch, (s.line ch).Kept) ∧ s.Translated fun c => c := by
  let check (s : World) (e : OutputEvent) (_ : World) : Bool :=
    match e with
    | .go k => match s.calls k with
      | none => true
      | some c => s.crFlag == c.owed
    | _ => true
  have hrun : (run (fun s e => (outputStep (fun c => c) s e).filter (check s e)) busyWorld
      [.call 0 2 (fun _ => 10) 1, .go 0, .go 0, .go 0, .go 0]).map (fun s => (s.line 2).appended 0) =
      some [13, 10] := by decide +kernel
  obtain ⟨s, hs, happ⟩ := Option.map_eq_some_iff.mp hrun
  have hcheck (u : World) (e : OutputEvent) (u' : World) (_ : outputStep (fun c => c) u e = some u')
      (hch : check u e u' = true) : OwnFlag u e := by
    cases e with
    | go k =>
      intro c hc _ _ _ _
      simp only [check, hc, beq_iff_eq] at hch
      exact hch
    | call k channel buf nr => trivial
    | signal k => trivial
    | drain ch => trivial
  exact ⟨s, happ, output_translated (fun c => c) s
    (.ofChecked hcheck (.start busyWorld_initial) hs)⟩

end Linux011.TtyIo
