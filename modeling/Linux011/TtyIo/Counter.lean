import Linux011.TtyIo.Handlers
import Mathlib.Data.List.DropRight

/-!
# The count of lines in the cooked queue

`secondary.data` is to be the number of characters in `secondary` that end a line: newlines and EOF
characters. `copy_to_cooked` counts a character before it echoes and stores it and `tty_read` when it is
taken, each with the EOF character of the moment, and a change of the settings counts nothing again. So the
count is right as long as every change leaves the number as it is, no EOF character from 128 on is at work,
which is never equal to a `signed char`, and a handler that was interrupted finds what it has looked at: the
character that it erases ends no line, a place is free for the one that it stores, and a reader finds a
character.

In between the count differs from the number by the characters that are on their way (`Balanced`).
-/

namespace Linux011.TtyIo

open Linux011.Lib

variable {below : Byte → Byte} {t : Termios} {tty : Tty} {c : Byte} {l : List Byte}

/-! ## The number of line ends -/

/-- A newline or the EOF character. -/
def counted (t : Termios) (c : Byte) : Bool := c == 10 || c == t.eofChar

/-- The number of line ends in the queue. -/
def Tty.lines (tty : Tty) : Nat := tty.secondary.contents.countP (counted tty.termios)

/-- The EOF character is below 128, or it is not this character. -/
def Plain (t : Termios) (c : Byte) : Prop := t.eofChar.toNat < 128 ∨ c ≠ t.eofChar

theorem Plain.ends_eq (h : Plain t c) : ends t c = counted t c := by
  unfold ends counted
  by_cases hlt : t.eofChar.toNat < 128
  · rw [same_eq hlt]
  · rw [same_high (Nat.le_of_not_lt hlt), beq_eq_false_iff_ne.mpr (h.resolve_left hlt)]

theorem lines_put (h : tty.secondary.full = false) :
    Tty.lines { tty with secondary := tty.secondary.put c } =
      tty.lines + if counted tty.termios c then 1 else 0 := by
  show (tty.secondary.put c).contents.countP _ = _
  rw [Queue.contents_put h, List.countP_append, List.countP_singleton]
  rfl

theorem lines_take (h : tty.secondary.empty = false) :
    tty.lines = Tty.lines { tty with secondary := tty.secondary.take } +
      if counted tty.termios tty.secondary.first then 1 else 0 := by
  show tty.secondary.contents.countP _ = _
  rw [Queue.contents_take h, List.countP_cons]
  rfl

theorem lines_back (h : tty.secondary.empty = false)
    (hl : counted tty.termios tty.secondary.last = false) :
    Tty.lines { tty with secondary := tty.secondary.back } = tty.lines := by
  show tty.secondary.back.contents.countP _ = tty.secondary.contents.countP _
  rw [Queue.contents_back h, List.countP_append, List.countP_singleton, hl]
  rfl

/-! ## Characters on their way -/

/-- A change of the counter that is still to come. -/
def Act.counts : Act → Bool
  | .count => true
  | _ => false

/-- A line end that is still to be stored. -/
def Act.ends (t : Termios) : Act → Bool
  | .store c => counted t c
  | _ => false

/-- A line end that was taken and is still to be taken from the count. -/
def Process.ends (t : Termios) : Process → Bool
  | .compare c _ => counted t c
  | _ => false

/-- The counter, with the changes that are still to come, is the number of line ends, with those that are
not yet stored and the one that is not yet taken from the count. -/
def Balance (data : BitVec 32) (counts lines : Nat) : Prop :=
  data + BitVec.ofNat 32 counts = BitVec.ofNat 32 lines

theorem Balance.move {d : BitVec 32} {m n m' n' : Nat} (h : Balance d m n) (hn : m' + n = m + n') :
    Balance d m' n' := by
  unfold Balance at h ⊢
  have hc := congrArg (BitVec.ofNat 32) hn
  rw [BitVec.ofNat_add, BitVec.ofNat_add, ← h] at hc
  grind

theorem Balance.count {d : BitVec 32} {m n : Nat} (h : Balance d (m + 1) n) : Balance (d + 1) m n := by
  unfold Balance at h ⊢
  rw [← h, BitVec.ofNat_add]
  grind

theorem Balance.uncount {d : BitVec 32} {m n : Nat} (h : Balance d m (n + 1)) : Balance (d - 1) m n := by
  unfold Balance at h ⊢
  rw [BitVec.ofNat_add] at h
  grind

/-- What every reachable state has. -/
structure Handlers.Balanced (s : Handlers) : Prop where
  balance : Balance s.tty.data (s.stack.flatten.countP Act.counts)
    (s.tty.lines + s.stack.flatten.countP (Act.ends s.tty.termios) +
      if s.process.ends s.tty.termios then 1 else 0)
  asleep : ∀ p ∈ s.asleep, ∀ t, p.ends t = false

/-- No handler is between the count and the store of a character, and no reader between taking it and
taking it from the count. -/
structure Handlers.Settled (s : Handlers) : Prop where
  counts : ∀ a ∈ s.stack.flatten, a.counts = false
  ends : ∀ a ∈ s.stack.flatten, a.ends s.tty.termios = false
  process : s.process.ends s.tty.termios = false

/-- The steps that keep the count right. -/
def Careful (s : Handlers) : HandlerEvent → Prop
  | .go _ => ∀ a rest st, s.stack = (a :: rest) :: st →
    match a with
    | .key c => Plain s.tty.termios c
    | .back => s.tty.secondary.empty = false ∧ counted s.tty.termios s.tty.secondary.last = false
    | .store _ => s.tty.secondary.full = false
    | _ => True
  | .proceed => s.stack = [] →
    match s.process with
    | .getch _ => s.tty.secondary.empty = false
    | .compare c _ => Plain s.tty.termios c
    | _ => True
  | .setTermios t => (s.tty.setTermios t).lines = s.tty.lines
  | .setTermio t => (s.tty.setTermios (setTermio t s.tty.termios)).lines = s.tty.lines
  | _ => True

/-! ## One act -/

variable {s s' : Handlers} {a : Act} {rest new : List Act} {st : List (List Act)} {answers : Bool}

/-- What an act puts into the queue was on its way, and what it decides is counted and stored. -/
theorem Handlers.Balanced.act (h : s.Balanced) (hs : s.stack = (a :: rest) :: st)
    (ht : tty.termios = s.tty.termios)
    (hd : tty.data = s.tty.data + BitVec.ofNat 32 (if a.counts then 1 else 0))
    (hn : s.tty.lines + new.countP Act.counts + (if a.ends s.tty.termios then 1 else 0) =
      tty.lines + new.countP (Act.ends s.tty.termios)) :
    Handlers.Balanced { s with tty, stack := (new ++ rest) :: st } := by
  refine ⟨?_, h.asleep⟩
  have hb := h.balance
  rw [hs] at hb
  show Balance tty.data (((new ++ rest) :: st).flatten.countP Act.counts)
    (tty.lines + ((new ++ rest) :: st).flatten.countP (Act.ends tty.termios) +
      if s.process.ends tty.termios then 1 else 0)
  rw [ht, hd]
  simp only [List.flatten_cons, List.cons_append, List.countP_cons, List.countP_append] at hb ⊢
  cases hc : a.counts with
  | true =>
    rw [hc, if_pos rfl] at hb
    rw [if_pos rfl]
    exact Balance.count (hb.move (by omega))
  | false =>
    rw [hc, if_neg Bool.false_ne_true] at hb
    rw [if_neg Bool.false_ne_true, BitVec.add_zero]
    exact hb.move (by omega)

/-- Acts that neither count nor store. -/
theorem countP_uncounted (t : Termios)
    (h : ∀ b ∈ new, b.light = true ∨ b.ofEcho = true) :
    new.countP Act.counts = 0 ∧ new.countP (Act.ends t) = 0 := by
  refine ⟨List.countP_eq_zero.mpr fun b hb => ?_, List.countP_eq_zero.mpr fun b hb => ?_⟩ <;>
    · have hb := h b hb
      cases b with
      | count => exact absurd hb (by decide)
      | store c => exact hb.elim nofun nofun
      | _ => exact Bool.false_ne_true

theorem uncounted_light (h : new.all Act.light = true) : ∀ b ∈ new, b.light = true ∨ b.ofEcho = true :=
  fun b hb => .inl (List.all_eq_true.mp h b hb)

theorem uncounted_echo (h : new.all Act.ofEcho = true) : ∀ b ∈ new, b.light = true ∨ b.ofEcho = true :=
  fun b hb => .inr (List.all_eq_true.mp h b hb)

/-- Acts that leave the count and the queue alone. -/
theorem Handlers.Balanced.decide (h : s.Balanced) (hs : s.stack = (a :: rest) :: st)
    (hc : a.counts = false) (he : a.ends s.tty.termios = false) (ht : tty.termios = s.tty.termios)
    (hd : tty.data = s.tty.data) (hse : tty.secondary = s.tty.secondary)
    (hn : ∀ b ∈ new, b.light = true ∨ b.ofEcho = true) :
    Handlers.Balanced { s with tty, stack := (new ++ rest) :: st } := by
  obtain ⟨h1, h2⟩ := countP_uncounted s.tty.termios hn
  refine h.act hs ht ?_ ?_
  · rw [hc, hd, if_neg Bool.false_ne_true, BitVec.add_zero]
  · rw [h1, h2, he, if_neg Bool.false_ne_true, Tty.lines, Tty.lines, hse, ht]

/-- What a character means; it is counted exactly when a line end is going to be stored. -/
theorem Handlers.Balanced.key (h : s.Balanced) (hs : s.stack = (.key c :: rest) :: st)
    (hp : Plain s.tty.termios c) : Handlers.Balanced { s with
      tty := (s.tty.act below answers (.key c)).1
      stack := ((s.tty.act below answers (.key c)).2 ++ rest) :: st } := by
  simp only [Tty.act]
  cases classify s.tty.termios c with
  | store =>
    obtain ⟨h1, h2⟩ := countP_uncounted s.tty.termios (uncounted_echo (storeEcho_ofEcho s.tty.termios c))
    refine h.act hs rfl (BitVec.add_zero _).symm ?_
    rw [List.countP_append, List.countP_append, List.countP_append, List.countP_append, h1, h2,
      hp.ends_eq]
    cases hc : counted s.tty.termios c with
    | true => simp [Act.counts, Act.ends, hc]
    | false => simp [Act.counts, Act.ends, hc]
  | _ => exact h.decide hs rfl rfl rfl rfl rfl (uncounted_light rfl)

theorem Handlers.Balanced.go (h : s.Balanced) (hs : s.stack = (a :: rest) :: st)
    (hg : Careful s (.go answers)) : Handlers.Balanced { s with
      tty := (s.tty.act below answers a).1
      stack := ((s.tty.act below answers a).2 ++ rest) :: st } := by
  have hg := hg a rest st hs
  cases a with
  | key c => exact h.key hs hg
  | last kill =>
    refine h.decide hs rfl rfl rfl rfl rfl fun b hb => ?_
    simp only [Tty.act] at hb
    split at hb
    · cases hb
    · rcases List.mem_append.mp hb with hb | hb
      · exact uncounted_echo (eraseEcho_ofEcho _ _) b hb
      · split at hb
        · exact uncounted_light rfl b hb
        · exact uncounted_light rfl b hb
  | back =>
    simp only [Tty.act]
    refine h.act hs rfl (BitVec.add_zero _).symm ?_
    show s.tty.lines + 0 + 0 = Tty.lines { s.tty with secondary := s.tty.secondary.back } + 0
    rw [lines_back hg.1 hg.2]
  | count =>
    refine h.act hs rfl rfl ?_
    show s.tty.lines + 0 + 0 = s.tty.lines + 0
    rfl
  | store c =>
    refine h.act hs rfl (BitVec.add_zero _).symm ?_
    show s.tty.lines + 0 + (if counted s.tty.termios c then 1 else 0) =
      Tty.lines { s.tty with secondary := s.tty.secondary.put c } + 0
    rw [lines_put hg]
    rfl
  | _ => exact h.decide hs rfl rfl rfl rfl rfl (uncounted_light (act_light _ rfl))

/-! ## A process -/

theorem ends_of_plain {p : Process} (t : Termios) (hp : p.plain = true) : p.ends t = false := by
  cases p with
  | compare c r => cases hp
  | _ => rfl

/-- A step of a process that leaves the count and the queue alone, and calls nothing but `tty->write`. -/
theorem Handlers.Balanced.elsewhere (h : s.Balanced) (hs : s.stack = []) {p : Process}
    (hp : ∀ t, p.ends t = false) (hq : ∀ t, s.process.ends t = false)
    (hst : st = [] ∨ st = [[.write]]) (ht : tty.termios = s.tty.termios)
    (hd : tty.data = s.tty.data) (hse : tty.secondary = s.tty.secondary) :
    Handlers.Balanced { s with tty, process := p, stack := st } := by
  have hb := h.balance
  rw [hs, hq] at hb
  refine ⟨?_, h.asleep⟩
  show Balance tty.data (st.flatten.countP Act.counts)
    (tty.lines + st.flatten.countP (Act.ends tty.termios) + if p.ends tty.termios then 1 else 0)
  rw [hd, hp, Tty.lines, hse, ht]
  rcases hst with rfl | rfl
  · exact hb
  · exact hb

theorem Handlers.Balanced.proceed (h : s.Balanced) (hs : s.stack = []) (hg : Careful s .proceed) :
    Handlers.Balanced { s with
      tty := (s.tty.proceed s.process).1
      process := (s.tty.proceed s.process).2.1
      stack := (s.tty.proceed s.process).2.2 } := by
  have hg := hg hs
  have hb := h.balance
  rw [hs] at hb
  cases hp : s.process with
  | getch r =>
    rw [hp] at hg hb
    rw [lines_take hg] at hb
    exact ⟨hb, h.asleep⟩
  | compare c r =>
    rw [hp] at hg hb
    have hends : (s.tty.proceed (.compare c r)).2.1.ends s.tty.termios = false := by
      simp only [Tty.proceed]
      split <;> rfl
    refine ⟨?_, h.asleep⟩
    show Balance (if ends s.tty.termios c then s.tty.data - 1 else s.tty.data) 0
      (s.tty.lines + 0 + if (s.tty.proceed (.compare c r)).2.1.ends s.tty.termios then 1 else 0)
    rw [hg.ends_eq, hends]
    cases hc : counted s.tty.termios c with
    | true =>
      rw [Process.ends, hc] at hb
      exact hb.uncount
    | false =>
      rw [Process.ends, hc] at hb
      exact hb
  | read r =>
    refine h.elsewhere hs (fun t => ?_) (fun _ => by rw [hp]; rfl) (.inl rfl) rfl rfl rfl
    simp only [Tty.proceed]
    split
    · rfl
    · exact ends_of_plain t (leave_plain s.tty r)
  | output cs =>
    cases cs with
    | nil => exact h.elsewhere hs (fun _ => rfl) (fun _ => by rw [hp]; rfl) (.inr rfl) rfl rfl rfl
    | cons c cs =>
      simp only [Tty.proceed]
      split
      · exact h.elsewhere hs (fun _ => rfl) (fun _ => by rw [hp]; rfl) (.inr rfl) rfl rfl rfl
      · exact h.elsewhere hs (fun _ => rfl) (fun _ => by rw [hp]; rfl) (.inl rfl) rfl rfl rfl
  | _ => exact h.elsewhere hs (fun _ => rfl) (fun _ => by rw [hp]; rfl) (.inl rfl) rfl rfl rfl

/-! ## Whole runs -/

/-- A change of the settings, in a call of `ioctl`. -/
theorem Handlers.Balanced.set (h : s.Balanced) (hi : s.idle = true)
    (hl : (s.tty.setTermios t).lines = s.tty.lines) :
    Handlers.Balanced { s with tty := s.tty.setTermios t } := by
  obtain ⟨hst, hp⟩ := idle_iff.mp hi
  refine ⟨?_, h.asleep⟩
  have hb := h.balance
  rw [hst, hp] at hb
  show Balance s.tty.data (s.stack.flatten.countP Act.counts)
    ((s.tty.setTermios t).lines + s.stack.flatten.countP _ + if s.process.ends _ then 1 else 0)
  rw [hst, hp, hl]
  exact hb

/-- A character that comes in changes neither queue nor count. -/
theorem Handlers.Balanced.putQueue (h : s.Balanced) (cs : List Byte) :
    Handlers.Balanced { s with tty := s.tty.putQueue cs, stack := [.cook] :: s.stack } := by
  unfold Tty.putQueue
  split <;> exact ⟨h.balance, h.asleep⟩

/-- Any settings, and no line. -/
def Handlers.Lineless (s : Handlers) : Prop :=
  s.Quiet ∧ s.tty.secondary.contents = [] ∧ s.tty.data = 0

theorem Handlers.Lineless.balanced (h : s.Lineless) : s.Balanced := by
  obtain ⟨hq, hc, hd⟩ := h
  refine ⟨?_, fun p hp => ?_⟩
  · rw [hq.stack, hq.process, hd, Tty.lines, hc]
    rfl
  · rw [hq.asleep] at hp
    cases hp

/-- Canonical mode with EOF character 4, with and without echo, and no canonical mode with EOF character
`a`. -/
def cookedSettings : Termios := ⟨0, 0, 2, fun i => if i = 4 then 4 else 0⟩

def quietTty (t : Termios) : Tty :=
  ⟨t, false, true, Queue.fresh (fun _ => 0) ttyBufSize_pos, Queue.fresh (fun _ => 0) ttyBufSize_pos,
    Queue.fresh (fun _ => 0) ttyBufSize_pos, 0⟩

/-- A key, and `n` steps of the handlers. -/
def typed (c : Byte) (n : Nat) : List HandlerEvent := .key [c] :: List.replicate n (.go false)

/-- Enough for a step to be careful. -/
def carefulCheck (s : Handlers) (e : HandlerEvent) (_ : Handlers) : Bool :=
  match e with
  | .go _ =>
    match s.stack with
    | (.key _ :: _) :: _ => decide (s.tty.termios.eofChar.toNat < 128)
    | (.back :: _) :: _ => !s.tty.secondary.empty && !counted s.tty.termios s.tty.secondary.last
    | (.store _ :: _) :: _ => !s.tty.secondary.full
    | _ => true
  | .proceed =>
    match s.process with
    | .getch _ => !s.tty.secondary.empty
    | .compare _ _ => decide (s.tty.termios.eofChar.toNat < 128)
    | _ => true
  | .setTermios _ | .setTermio _ => false
  | _ => true

theorem careful_of_check (s : Handlers) (e : HandlerEvent) (s' : Handlers)
    (h : carefulCheck s e s' = true) : Careful s e := by
  cases e with
  | go answers =>
    intro a rest st hst
    simp only [carefulCheck, hst] at h
    cases a with
    | key c => exact .inl (of_decide_eq_true h)
    | back =>
      rw [Bool.and_eq_true, Bool.not_eq_true', Bool.not_eq_true'] at h
      exact h
    | store c => exact (Bool.not_eq_true' _).mp h
    | _ => trivial
  | proceed =>
    intro _
    simp only [carefulCheck] at h
    cases hp : s.process with
    | getch r =>
      rw [hp] at h
      exact (Bool.not_eq_true' _).mp h
    | compare c r =>
      rw [hp] at h
      exact .inl (of_decide_eq_true h)
    | _ => trivial
  | setTermios t => cases h
  | setTermio t => cases h
  | _ => trivial

end Linux011.TtyIo
