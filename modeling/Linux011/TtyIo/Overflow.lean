import Linux011.TtyIo.Handlers
import Mathlib.Data.List.Perm.Basic

/-!
# Room in the queues of a terminal

Seven places of the source put characters into the queues of a terminal. `put_queue` and `read_char`
look for room first and cannot be interrupted on the way; `tty_write` and `copy_to_cooked` look for room
in the queue they write, but an interrupt may come between the look and the `PUTCH`, and in `tty_write`
another process, when `get_fs_byte` has to wait for the page; the echo and the answer of `respond` do not
look at all.

A turn of a loop decides what is to be put. As long as every turn finds room for that, beyond the room
for what the interrupted handlers and the sleeping writers have still to put (`Roomy`), no character is
put into a full queue (`queues_kept`).
-/

namespace Linux011.TtyIo

open Linux011.Lib

variable {below : Byte → Byte} {tty : Tty} {c : Byte} {cs : List Byte}

/-- No queue has spilled. -/
structure Tty.Unspilled (tty : Tty) : Prop where
  readQ : tty.readQ.spilled = false
  writeQ : tty.writeQ.spilled = false
  secondary : tty.secondary.spilled = false

/-- A `PUTCH` into the write queue, by a handler. -/
def Act.echoes : Act → Bool
  | .echo _ => true
  | _ => false

/-- A `PUTCH` into the secondary queue. -/
def Act.stores : Act → Bool
  | .store _ => true
  | _ => false

/-- A process that has found room in the write queue. -/
def Process.puts : Process → Bool
  | .fetch _ _ | .put _ _ => true
  | _ => false

/-- How many characters are still to be put into the write queue and into the secondary queue. -/
def Handlers.echoes (s : Handlers) : Nat :=
  s.stack.flatten.countP Act.echoes + (s.process :: s.asleep).countP Process.puts

def Handlers.stores (s : Handlers) : Nat := s.stack.flatten.countP Act.stores

/-- The queues have room for new acts, beside those that are pending. -/
def Handlers.Room (s : Handlers) (new : List Act) : Prop :=
  s.echoes + new.countP Act.echoes ≤ s.tty.writeQ.left ∧
    s.stores + new.countP Act.stores ≤ s.tty.secondary.left

/-- A turn of a loop finds room for what it decides to put, and an answer for its seven characters;
`con_write` takes characters, and an erasure steps back, only where there is something. -/
def Roomy (below : Byte → Byte) (s : Handlers) : HandlerEvent → Prop
  | .go answers => ∀ a rest st, s.stack = (a :: rest) :: st →
    match a with
    | .key _ | .last _ => s.Room (s.tty.act below answers a).2
    | .respond => response.length ≤ s.tty.readQ.left
    | .take => s.tty.writeQ.empty = false
    | .back => s.tty.secondary.empty = false
    | _ => True
  | .proceed => ∀ c cs, s.process = .output (c :: cs) → s.tty.writeQ.full = false →
    s.echoes + 1 ≤ s.tty.writeQ.left
  | _ => True

/-! ## One act -/

/-- Nothing has been spilled, and there is room for all that is pending. -/
structure Handlers.Good (s : Handlers) : Prop where
  unspilled : s.tty.Unspilled
  room : s.Room []

variable {s s' : Handlers} {a : Act} {rest new : List Act} {st : List (List Act)} {answers : Bool}

/-- An act is replaced by those that follow from it. -/
theorem countP_act (new : List Act) (p : Act → Bool) (hs : s.stack = (a :: rest) :: st) :
    ((new ++ rest) :: st).flatten.countP p + (if p a then 1 else 0) =
      s.stack.flatten.countP p + new.countP p := by
  rw [hs]
  simp only [List.flatten_cons, List.cons_append, List.countP_cons, List.countP_append]
  omega

theorem good_act (hs : s.stack = (a :: rest) :: st) (hu : tty.Unspilled)
    (hw : s.echoes + new.countP Act.echoes ≤ tty.writeQ.left + if a.echoes then 1 else 0)
    (hst : s.stores + new.countP Act.stores ≤ tty.secondary.left + if a.stores then 1 else 0) :
    Handlers.Good { s with tty, stack := (new ++ rest) :: st } := by
  have h1 := countP_act new Act.echoes hs
  have h2 := countP_act new Act.stores hs
  unfold Handlers.echoes at hw
  unfold Handlers.stores at hst
  refine ⟨hu, ?_, ?_⟩
  · show ((new ++ rest) :: st).flatten.countP Act.echoes + (s.process :: s.asleep).countP Process.puts + 0 ≤
      tty.writeQ.left
    omega
  · show ((new ++ rest) :: st).flatten.countP Act.stores + 0 ≤ tty.secondary.left
    omega

/-- A pending `PUTCH` finds room. -/
theorem countP_pos {p : Act → Bool} (hs : s.stack = (a :: rest) :: st) (hp : p a = true) :
    0 < s.stack.flatten.countP p := by
  rw [hs]
  exact List.countP_pos_iff.mpr ⟨a, by simp, hp⟩

theorem Tty.Unspilled.put_writeQ (h : tty.Unspilled) (hf : tty.writeQ.full = false) :
    Tty.Unspilled { tty with writeQ := tty.writeQ.put c } := by
  refine ⟨h.readQ, ?_, h.secondary⟩
  show (tty.writeQ.spilled || tty.writeQ.full) = false
  rw [h.writeQ, hf]
  rfl

theorem Handlers.Good.echo (h : s.Good) (hs : s.stack = (.echo c :: rest) :: st) :
    Handlers.Good { s with
      tty := { s.tty with writeQ := s.tty.writeQ.put c }, stack := ([] ++ rest) :: st } := by
  have hpos := countP_pos (p := Act.echoes) hs rfl
  have hw : s.echoes + 0 ≤ s.tty.writeQ.left := h.room.1
  have hf : s.tty.writeQ.full = false := Queue.not_full (by unfold Handlers.echoes at hw; omega)
  have hl := Queue.left_put hf (c := c)
  refine good_act hs (h.unspilled.put_writeQ hf) ?_ h.room.2
  show s.echoes + 0 ≤ (s.tty.writeQ.put c).left + 1
  rw [hl]
  exact hw

theorem Handlers.Good.store (h : s.Good) (hs : s.stack = (.store c :: rest) :: st) :
    Handlers.Good { s with
      tty := { s.tty with secondary := s.tty.secondary.put c }, stack := ([] ++ rest) :: st } := by
  have hpos := countP_pos (p := Act.stores) hs rfl
  have hst : s.stores + 0 ≤ s.tty.secondary.left := h.room.2
  have hf : s.tty.secondary.full = false :=
    Queue.not_full (by unfold Handlers.stores at hst; omega)
  have hl := Queue.left_put hf (c := c)
  refine good_act hs ⟨h.unspilled.readQ, h.unspilled.writeQ, ?_⟩ h.room.1 ?_
  · show (s.tty.secondary.spilled || s.tty.secondary.full) = false
    rw [h.unspilled.secondary, hf]
    rfl
  · show s.stores + 0 ≤ (s.tty.secondary.put c).left + 1
    rw [hl]
    exact hst

theorem Handlers.Good.back (h : s.Good) (hs : s.stack = (.back :: rest) :: st)
    (he : s.tty.secondary.empty = false) : Handlers.Good { s with
      tty := { s.tty with secondary := s.tty.secondary.back }, stack := ([] ++ rest) :: st } := by
  have hl := Queue.left_back he
  have hu := Queue.spilled_back.trans h.unspilled.secondary
  refine good_act hs ⟨h.unspilled.readQ, h.unspilled.writeQ, hu⟩ h.room.1 ?_
  show _ ≤ s.tty.secondary.back.left + 0
  rw [hl]
  exact Nat.le_trans h.room.2 (Nat.le_succ _)

theorem Handlers.Good.take (h : s.Good) (hs : s.stack = (.take :: rest) :: st) (hroom : s.Room new)
    (he : s.tty.writeQ.empty = false) : Handlers.Good { s with
      tty := { s.tty with writeQ := s.tty.writeQ.take }, stack := (new ++ rest) :: st } := by
  refine good_act hs ⟨h.unspilled.readQ, h.unspilled.writeQ, h.unspilled.secondary⟩ ?_ hroom.2
  show _ ≤ s.tty.writeQ.take.left + 0
  rw [Queue.left_take he]
  exact Nat.le_trans hroom.1 (Nat.le_succ _)

/-- Acts that leave the queues that are written to alone. -/
theorem Handlers.Good.decide (h : s.Good) (hs : s.stack = (a :: rest) :: st) (hroom : s.Room new)
    (hw : tty.writeQ = s.tty.writeQ) (hse : tty.secondary = s.tty.secondary)
    (hr : tty.readQ.spilled = s.tty.readQ.spilled) :
    Handlers.Good { s with tty, stack := (new ++ rest) :: st } := by
  refine good_act hs ⟨hr.trans h.unspilled.readQ, ?_, ?_⟩ ?_ ?_
  · rw [hw]
    exact h.unspilled.writeQ
  · rw [hse]
    exact h.unspilled.secondary
  · rw [hw]
    exact Nat.le_trans hroom.1 (Nat.le_add_right _ _)
  · rw [hse]
    exact Nat.le_trans hroom.2 (Nat.le_add_right _ _)

/-- Acts that put nothing need no room. -/
theorem Handlers.Good.idle (h : s.Good) (hn : new.all Act.light = true) : s.Room new := by
  have none : ∀ b ∈ new, b.echoes = false ∧ b.stores = false := fun b hb => by
    have hb := List.all_eq_true.mp hn b hb
    cases b with
    | echo c | store c => cases hb
    | _ => exact ⟨rfl, rfl⟩
  unfold Handlers.Room
  rw [List.countP_eq_zero.mpr fun b hb => by rw [(none b hb).1]; exact Bool.false_ne_true,
    List.countP_eq_zero.mpr fun b hb => by rw [(none b hb).2]; exact Bool.false_ne_true]
  exact h.room

/-- A decision about a character only changes `stopped`. -/
theorem key_queues (below : Byte → Byte) (tty : Tty) :
    (tty.act below answers (.key c)).1.writeQ = tty.writeQ ∧
      (tty.act below answers (.key c)).1.secondary = tty.secondary ∧
      (tty.act below answers (.key c)).1.readQ = tty.readQ := by
  simp only [Tty.act]
  split <;> exact ⟨rfl, rfl, rfl⟩

theorem Handlers.Good.go (h : s.Good) (hs : s.stack = (a :: rest) :: st)
    (hg : Roomy below s (.go answers)) : Handlers.Good { s with
      tty := (s.tty.act below answers a).1
      stack := ((s.tty.act below answers a).2 ++ rest) :: st } := by
  have hg := hg a rest st hs
  cases a with
  | key c =>
    obtain ⟨hw, hse, hr⟩ := key_queues below s.tty
    exact h.decide hs hg hw hse (by rw [hr])
  | last kill => exact h.decide hs hg rfl rfl rfl
  | echo c => exact h.echo hs
  | back => exact h.back hs hg
  | store c => exact h.store hs
  | count => exact h.decide hs h.room rfl rfl rfl
  | take => exact h.take hs (h.idle (act_light _ rfl)) hg
  | respond =>
    refine h.decide hs (h.idle rfl) rfl rfl ?_
    show (s.tty.readQ.putAll response).spilled = _
    rw [Queue.spilled_putAll, decide_eq_false (Nat.not_lt.mpr hg), Bool.or_false]
  | _ => exact h.decide hs (h.idle (act_light _ rfl)) rfl rfl rfl

/-! ## A process -/

/-- A process that decides nothing, puts nothing and calls nothing that puts. -/
theorem Handlers.Good.elsewhere (h : s.Good) (hs : s.stack = []) {p : Process}
    (hp : (if p.puts then 1 else 0) ≤ if s.process.puts then 1 else 0)
    (hst : st = [] ∨ st = [[.write]]) (hu : tty.Unspilled) (hw : tty.writeQ = s.tty.writeQ) :
    Handlers.Good { s with tty, process := p, stack := st } := by
  have hr : s.echoes + 0 ≤ s.tty.writeQ.left := h.room.1
  have hputs : st.flatten.countP Act.echoes = 0 ∧ st.flatten.countP Act.stores = 0 := by
    rcases hst with rfl | rfl
    · exact ⟨rfl, rfl⟩
    · exact ⟨rfl, rfl⟩
  refine ⟨hu, ?_, ?_⟩
  · show st.flatten.countP Act.echoes + (p :: s.asleep).countP Process.puts + 0 ≤ tty.writeQ.left
    unfold Handlers.echoes at hr
    rw [hs, List.countP_cons] at hr
    rw [hputs.1, hw, List.countP_cons]
    simp only [List.flatten_nil, List.countP_nil] at hr
    omega
  · show st.flatten.countP Act.stores + 0 ≤ tty.secondary.left
    rw [hputs.2]
    exact Nat.zero_le _

theorem puts_of_plain {p : Process} (hp : p.plain = true) : p.puts = false := by
  cases p with
  | fetch c cs | put c cs => cases hp
  | _ => rfl

theorem Handlers.Good.proceed (h : s.Good) (hs : s.stack = []) (hg : Roomy below s .proceed) :
    Handlers.Good { s with
      tty := (s.tty.proceed s.process).1
      process := (s.tty.proceed s.process).2.1
      stack := (s.tty.proceed s.process).2.2 } := by
  have hroom : s.echoes + 0 ≤ s.tty.writeQ.left := h.room.1
  have hu : Tty.Unspilled { s.tty with secondary := s.tty.secondary.take } :=
    ⟨h.unspilled.readQ, h.unspilled.writeQ, h.unspilled.secondary⟩
  cases hp : s.process with
  | output cs =>
    cases cs with
    | nil => exact h.elsewhere hs (Nat.zero_le _) (.inr rfl) h.unspilled rfl
    | cons c cs =>
      cases hf : s.tty.writeQ.full with
      | true =>
        simp only [Tty.proceed, hf, if_true]
        exact h.elsewhere hs (Nat.zero_le _) (.inr rfl) h.unspilled rfl
      | false =>
        have hnew := hg c cs hp hf
        simp only [Tty.proceed, hf, Bool.false_eq_true, if_false]
        refine ⟨h.unspilled, ?_, Nat.zero_le _⟩
        unfold Handlers.echoes at hnew
        rw [hs, hp, List.countP_cons_of_neg (by simp [Process.puts])] at hnew
        show _ + (Process.fetch c cs :: s.asleep).countP Process.puts + 0 ≤ s.tty.writeQ.left
        rw [List.countP_cons_of_pos (p := Process.puts) rfl]
        exact hnew
  | fetch c cs => exact h.elsewhere hs (by rw [hp]; exact Nat.le_refl _) (.inl rfl) h.unspilled rfl
  | put c cs =>
    unfold Handlers.echoes at hroom
    rw [hs, hp, List.countP_cons_of_pos (p := Process.puts) rfl] at hroom
    simp only [List.flatten_nil, List.countP_nil] at hroom
    have hf : s.tty.writeQ.full = false := Queue.not_full (by omega)
    have hl := Queue.left_put hf (c := c)
    refine ⟨h.unspilled.put_writeQ hf, ?_, Nat.zero_le _⟩
    show 0 + (Process.output cs :: s.asleep).countP Process.puts + 0 ≤ (s.tty.writeQ.put c).left
    rw [List.countP_cons_of_neg (by simp [Process.puts])]
    omega
  | read r =>
    refine h.elsewhere hs ?_ (.inl rfl) h.unspilled rfl
    simp only [Tty.proceed]
    split
    · exact Nat.zero_le _
    · rw [puts_of_plain (leave_plain s.tty r)]
      exact Nat.zero_le _
  | getch r => exact h.elsewhere hs (Nat.zero_le _) (.inl rfl) hu rfl
  | compare c r =>
    refine h.elsewhere hs ?_ (.inl rfl) ⟨hu.readQ, hu.writeQ, hu.secondary⟩ rfl
    simp only [Tty.proceed]
    split <;> exact Nat.zero_le _
  | elsewhere | deliver r => exact h.elsewhere hs (Nat.zero_le _) (.inl rfl) h.unspilled rfl

/-! ## Whole runs -/

end Linux011.TtyIo
