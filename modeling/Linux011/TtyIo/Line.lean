import Linux011.TtyIo.Counter

/-!
# Canonical input as a line editor

The purpose of the line discipline, in its own terms: an editor that holds a closed part and the line
that is being typed (`Editor`). A newline or an EOF character closes the line, the erase and the kill
character work on the line only, and what has been read can no longer be erased.

With control characters below 128 and 7-bit input, what `tty_read` has taken and what is still in
`secondary` is what this editor has made of the characters that `copy_to_cooked` took from `read_q`, as long
as a turn of its loop begins only where no other turn is in the middle (`Orderly`). The code does not see to
that: a character is stored behind its echo, and the echo may call `copy_to_cooked` itself, by way of
`respond`, or be interrupted by a key (`answer_overtakes`).
-/

namespace Linux011.TtyIo

open Linux011.Lib

variable {below : Byte → Byte} {t : Termios} {tty : Tty} {c : Byte} {n : Nat} {l : List Byte}

/-! ## The edit -/

/-- The end of the line that may be erased goes away. -/
def killLine (t : Termios) (l : List Byte) : List Byte := l.rdropWhile fun c => !ends t c

/-- The last character goes away, unless it ends a line. -/
def eraseLast (t : Termios) (l : List Byte) : List Byte :=
  match l.getLast? with
  | none => l
  | some c => if ends t c then l else l.dropLast

/-- What a character, after the mappings, does to the contents of the queue. -/
def edit (t : Termios) (c : Byte) (l : List Byte) : List Byte :=
  match classify t c with
  | .kill => killLine t l
  | .erase => eraseLast t l
  | .store => l ++ [c]
  | .stop | .start | .signal => l

theorem eraseLast_concat : eraseLast t (l ++ [c]) = if ends t c then l ++ [c] else l := by
  rw [eraseLast, List.getLast?_concat, List.dropLast_concat]

theorem killLine_concat : killLine t (l ++ [c]) = if ends t c then l ++ [c] else killLine t l := by
  rw [killLine, List.rdropWhile_concat]
  cases ends t c <;> rfl

/-! ## The editor -/

structure Editor where
  closed : List Byte
  line : List Byte

/-- The input mappings, for 7-bit characters. -/
def inputMapping (t : Termios) (c : Byte) : Option Byte :=
  if c = 13 ∧ t.icrnl then some 10
  else if c = 13 ∧ t.igncr then none
  else if c = 10 ∧ t.inlcr then some 13
  else if t.iuclc ∧ 65 ≤ c.toNat ∧ c.toNat ≤ 90 then some (c + 32)
  else some c

namespace Editor

def output (e : Editor) : List Byte := e.closed ++ e.line

/-- A character after the mappings. -/
def key (t : Termios) (c : Byte) (e : Editor) : Editor :=
  if c = t.killChar then { e with line := [] }
  else if c = t.eraseChar then { e with line := e.line.dropLast }
  else if c = t.stopChar ∨ c = t.startChar then e
  else if t.isig ∧ (c = t.intrChar ∨ c = t.quitChar) then e
  else if c = 10 ∨ c = t.eofChar then ⟨e.closed ++ e.line ++ [c], []⟩
  else { e with line := e.line ++ [c] }

/-- A character that was typed. -/
def input (t : Termios) (c : Byte) (e : Editor) : Editor :=
  match inputMapping t c with
  | none => e
  | some c => e.key t c

/-- `n` characters of the output have been read. -/
def read (n : Nat) (e : Editor) : Editor where
  closed := e.closed ++ e.line.take (n - e.closed.length)
  line := e.line.drop (n - e.closed.length)

end Editor

/-- Canonical mode with control characters below 128. -/
structure Canonical (t : Termios) : Prop where
  canon : t.canon = true
  low : ∀ i ∈ [0, 1, 2, 3, 4, 8, 9], (t.cc i).toNat < 128

/-! ## The mappings and the decision -/

theorem mapInput_eq (h : c.toNat < 128) : mapInput below t c = inputMapping t c := by
  have hlow (c : Byte) (h : c.toNat < 128) : tolower below c =
      if 65 ≤ c.toNat ∧ c.toNat ≤ 90 then c + 32 else c := by
    unfold tolower ctypeBit
    rw [if_pos h]
    by_cases hu : 65 ≤ c.toNat ∧ c.toNat ≤ 90
    · rw [if_pos (decide_eq_true hu), if_pos hu]
    · rw [decide_eq_false hu, if_neg Bool.false_ne_true, if_neg hu]
  have h10 : tolower below 10 = 10 := hlow 10 (by decide)
  have h13 : tolower below 13 = 13 := hlow 13 (by decide)
  unfold mapInput inputMapping
  by_cases hcr : c = 13
  · subst hcr
    cases t.icrnl with
    | true =>
      cases t.iuclc with
      | true => exact congrArg some h10
      | false => rfl
    | false =>
      cases t.igncr with
      | true => rfl
      | false =>
        cases t.iuclc with
        | true => exact congrArg some h13
        | false => rfl
  · by_cases hnl : c = 10 ∧ t.inlcr
    · rw [if_neg hcr, if_pos hnl, if_neg (fun h => hcr h.1), if_neg (fun h => hcr h.1), if_pos hnl]
      cases t.iuclc with
      | true => exact congrArg some h13
      | false => rfl
    · rw [if_neg hcr, if_neg hnl, if_neg (fun h => hcr h.1), if_neg (fun h => hcr h.1), if_neg hnl]
      cases hu : t.iuclc with
      | true =>
        rw [Option.map_some, if_pos rfl, hlow c h]
        by_cases hup : 65 ≤ c.toNat ∧ c.toNat ≤ 90
        · rw [if_pos hup, if_pos ⟨rfl, hup⟩]
        · rw [if_neg hup, if_neg fun h => hup h.2]
      | false => rw [if_neg fun h => Bool.false_ne_true h.1]; rfl

theorem Canonical.same_eq (C : Canonical t) {i : Nat} (hi : i ∈ [0, 1, 2, 3, 4, 8, 9]) :
    same c (t.cc i) = (c == t.cc i) := TtyIo.same_eq (C.low i hi)

/-- The end of a line, without signs. -/
theorem Canonical.ends_iff (C : Canonical t) : ends t c = true ↔ c = 10 ∨ c = t.eofChar := by
  rw [ends, Termios.eofChar, C.same_eq (i := 4) (by decide), Bool.or_eq_true, beq_iff_eq, beq_iff_eq]

/-! ## One character -/

/-- The editor beside the queue: what was read and what is still in front of the line is closed, the line
is the end of the queue, and in front of it a line has ended or everything was read. -/
structure Follows (t : Termios) (taken contents : List Byte) (e : Editor) (front : List Byte) : Prop where
  contents : contents = front ++ e.line
  closed : taken ++ front = e.closed
  line : ∀ c ∈ e.line, ends t c = false
  front : ∀ c, front.getLast? = some c → ends t c = true

variable {taken contents front : List Byte} {e : Editor}

theorem killLine_of_ends {front line : List Byte} (hl : ∀ c ∈ line, ends t c = false)
    (hf : ∀ c, front.getLast? = some c → ends t c = true) : killLine t (front ++ line) = front := by
  induction line using List.reverseRecOn with
  | nil =>
    rw [List.append_nil]
    rcases List.eq_nil_or_concat' front with rfl | ⟨l, c, rfl⟩
    · rfl
    · rw [killLine, List.rdropWhile_concat_neg]
      rw [hf c (List.getLast?_concat)]
      decide
  | append_singleton line c ih =>
    rw [← List.append_assoc, killLine, List.rdropWhile_concat_pos]
    · exact ih fun x hx => hl x (List.mem_append_left _ hx)
    · rw [hl c (List.mem_append_right _ List.mem_cons_self)]
      rfl

theorem eraseLast_of_ends {front line : List Byte} (hl : ∀ c ∈ line, ends t c = false)
    (hf : ∀ c, front.getLast? = some c → ends t c = true) :
    eraseLast t (front ++ line) = front ++ line.dropLast := by
  rcases List.eq_nil_or_concat' line with rfl | ⟨l, c, rfl⟩
  · rw [List.append_nil, List.dropLast_nil, List.append_nil]
    rcases List.eq_nil_or_concat' front with rfl | ⟨l, c, rfl⟩
    · rfl
    · rw [eraseLast_concat, if_pos (hf c List.getLast?_concat)]
  · rw [← List.append_assoc, eraseLast_concat, List.dropLast_concat,
      if_neg (by rw [hl c (List.mem_append_right _ List.mem_cons_self)]; exact Bool.false_ne_true)]

/-- An edit of the queue is a key of the editor. -/
theorem Follows.edit (F : Follows t taken contents e front) (C : Canonical t) :
    ∃ front', Follows t taken (edit t c contents) (e.key t c) front' := by
  have hkill : same c t.killChar = (c == t.killChar) := C.same_eq (i := 3) (by decide)
  have herase : same c t.eraseChar = (c == t.eraseChar) := C.same_eq (i := 2) (by decide)
  have hstop : same c t.stopChar = (c == t.stopChar) := C.same_eq (i := 9) (by decide)
  have hstart : same c t.startChar = (c == t.startChar) := C.same_eq (i := 8) (by decide)
  have hintr : same c t.intrChar = (c == t.intrChar) := C.same_eq (i := 0) (by decide)
  have hquit : same c t.quitChar = (c == t.quitChar) := C.same_eq (i := 1) (by decide)
  unfold TtyIo.edit classify Editor.key
  simp only [C.canon, Bool.true_and, hkill, herase, hstop, hstart, hintr, hquit, beq_iff_eq,
    Bool.and_eq_true]
  by_cases h3 : c = t.killChar
  · rw [if_pos h3, if_pos h3]
    refine ⟨front, ?_, F.closed, (fun x hx => nomatch hx), F.front⟩
    dsimp only
    rw [F.contents, killLine_of_ends F.line F.front, List.append_nil]
  rw [if_neg h3, if_neg h3]
  by_cases h2 : c = t.eraseChar
  · rw [if_pos h2, if_pos h2]
    refine ⟨front, ?_, F.closed, fun x hx => F.line x ((List.dropLast_sublist _).subset hx), F.front⟩
    dsimp only
    rw [F.contents, eraseLast_of_ends F.line F.front]
  rw [if_neg h2, if_neg h2]
  by_cases h9 : c = t.stopChar
  · rw [if_pos h9, if_pos (Or.inl h9)]
    exact ⟨front, F⟩
  rw [if_neg h9]
  by_cases h8 : c = t.startChar
  · rw [if_pos h8, if_pos (Or.inr h8)]
    exact ⟨front, F⟩
  rw [if_neg h8, if_neg (fun h : c = t.stopChar ∨ c = t.startChar => h.elim h9 h8)]
  by_cases h0 : t.isig ∧ c = t.intrChar
  · rw [if_pos h0, if_pos ⟨h0.1, Or.inl h0.2⟩]
    exact ⟨front, F⟩
  rw [if_neg h0]
  by_cases h1 : t.isig ∧ c = t.quitChar
  · rw [if_pos h1, if_pos ⟨h1.1, Or.inr h1.2⟩]
    exact ⟨front, F⟩
  rw [if_neg h1,
    if_neg (fun h : t.isig = true ∧ (c = t.intrChar ∨ c = t.quitChar) =>
      h.2.elim (fun hc => h0 ⟨h.1, hc⟩) fun hc => h1 ⟨h.1, hc⟩)]
  -- the character is stored
  dsimp only
  by_cases hend : c = 10 ∨ c = t.eofChar
  · rw [if_pos hend]
    refine ⟨front ++ e.line ++ [c], ?_, ?_, (fun x hx => nomatch hx), fun x hx => ?_⟩
    · rw [F.contents, List.append_nil]
    · rw [← F.closed]
      simp only [List.append_assoc]
    · rw [List.getLast?_concat] at hx
      cases hx
      exact C.ends_iff.mpr hend
  · rw [if_neg hend]
    refine ⟨front, ?_, F.closed, fun x hx => ?_, F.front⟩
    · rw [F.contents, List.append_assoc]
    · rcases List.mem_append.mp hx with hx | hx
      · exact F.line x hx
      · rw [List.mem_singleton.mp hx]
        exact Bool.eq_false_iff.mpr fun h => hend (C.ends_iff.mp h)

/-- A character that is read can no longer be erased. -/
theorem Follows.read (F : Follows t taken (c :: contents) e front) :
    ∃ front', Follows t (taken ++ [c]) contents (e.read (taken.length + 1)) front' := by
  obtain ⟨hc, hcl, hl, hf⟩ := F
  cases front with
  | nil =>
    rw [List.nil_append] at hc
    rw [List.append_nil] at hcl
    have hone : taken.length + 1 - e.closed.length = 1 := by
      rw [← hcl]
      omega
    refine ⟨[], ?_, ?_, fun x hx => hl x (List.mem_of_mem_drop hx), fun x hx => nomatch hx⟩
    · show contents = [] ++ e.line.drop (taken.length + 1 - e.closed.length)
      rw [hone, ← hc]
      rfl
    · show taken ++ [c] ++ [] = e.closed ++ e.line.take (taken.length + 1 - e.closed.length)
      rw [hone, ← hc, List.append_nil, hcl]
      rfl
  | cons x front =>
    obtain ⟨rfl, hrest⟩ := List.cons.inj hc
    have hzero : taken.length + 1 - e.closed.length = 0 := by
      rw [← hcl, List.length_append, List.length_cons]
      omega
    refine ⟨front, ?_, ?_, fun y hy => hl y (List.mem_of_mem_drop hy), fun y hy => hf y ?_⟩
    · show contents = front ++ e.line.drop (taken.length + 1 - e.closed.length)
      rw [hzero]
      exact hrest
    · show taken ++ [c] ++ front = e.closed ++ e.line.take (taken.length + 1 - e.closed.length)
      rw [hzero, List.append_assoc, List.take_zero, List.append_nil]
      exact hcl
    · rw [List.getLast?_cons, hy]
      rfl

/-! ## Runs with the editor beside them -/

/-- A terminal, what came into `read_q`, what was taken out of it, what was taken out of `secondary`, and
the editor that was given the same. -/
structure Session where
  state : Handlers
  arrived : List Byte
  cooked : List Byte
  taken : List Byte
  editor : Editor

/-- What an event adds to that. -/
def Session.note (x : Session) : HandlerEvent → Session
  | .key cs =>
    if x.state.tty.readQ.left < cs.length then x else { x with arrived := x.arrived ++ cs }
  | .receive c => if x.state.tty.readQ.left < 1 then x else { x with arrived := x.arrived ++ [c] }
  | .go _ =>
    match x.state.stack with
    | (.respond :: _) :: _ => { x with arrived := x.arrived ++ response }
    | (.getch :: _) :: _ =>
      { x with
        cooked := x.cooked ++ [x.state.tty.readQ.first]
        editor := x.editor.input x.state.tty.termios x.state.tty.readQ.first }
    | _ => x
  | .proceed =>
    match x.state.process with
    | .getch _ =>
      { x with
        taken := x.taken ++ [x.state.tty.secondary.first]
        editor := x.editor.read (x.taken.length + 1) }
    | _ => x
  | _ => x

def sessionStep (below : Byte → Byte) (x : Session) (e : HandlerEvent) : Option Session :=
  (handlerStep below x.state e).map fun s => { x.note e with state := s }

/-- The acts of a turn of `copy_to_cooked` that are between the test of the loop and its last change of
`secondary`; what is left to be done to the echo is not among them. -/
def Act.turns : Act → Bool
  | .getch | .key _ | .look _ | .last _ | .back | .count | .store _ => true
  | _ => false

/-- What is left of the turns. -/
def Handlers.turn (s : Handlers) : List Act := s.stack.flatten.filter Act.turns

/-- 7-bit characters come in, the settings stay, and `secondary` does not fill up. -/
def Typed (x : Session) : HandlerEvent → Prop
  | .key cs => ∀ c ∈ cs, c.toNat < 128
  | .receive c => c.toNat < 128
  | .go _ => ∀ rest st, x.state.stack = (.cook :: rest) :: st → x.state.tty.secondary.full = false
  | .setTermios _ | .setTermio _ => False
  | _ => True

/-- A turn begins where no other is in the middle, an answer finds room in `read_q`, and a reader finds the
character that it has seen. -/
def Apart (x : Session) : HandlerEvent → Prop
  | .go _ => ∀ a rest st, x.state.stack = (a :: rest) :: st →
    match a with
    | .cook => x.state.tty.readQ.empty = false → x.state.turn = []
    | .respond => response.length ≤ x.state.tty.readQ.left
    | _ => True
  | .proceed => ∀ r, x.state.process = .getch r → x.state.tty.secondary.empty = false
  | _ => True

/-- The steps with which the queue follows the editor. -/
def Orderly (x : Session) (e : HandlerEvent) : Prop := Typed x e ∧ Apart x e

/-- Empty queues, and nothing runs. -/
structure Session.Initial (t : Termios) (x : Session) : Prop where
  termios : x.state.tty.termios = t
  quiet : x.state.Quiet
  readQ : x.state.tty.readQ.contents = []
  secondary : x.state.tty.secondary.contents = []
  arrived : x.arrived = []
  cooked : x.cooked = []
  taken : x.taken = []
  editor : x.editor = ⟨[], []⟩

/-! ## What is left of a turn -/

/-- The rests that a turn has, with what the queues are then. -/
inductive Turn (tty : Tty) : List Act → Prop
  | none : Turn tty []
  | getch : tty.readQ.empty = false → tty.secondary.full = false → Turn tty [.getch]
  | key (c : Byte) : tty.secondary.full = false → Turn tty [.key c]
  | look (kill : Bool) : Turn tty [.look kill]
  | last (kill : Bool) : tty.secondary.empty = false → Turn tty [.last kill]
  | back : tty.secondary.empty = false → Turn tty [.back]
  | again : tty.secondary.empty = false → Turn tty [.back, .look true]
  | count (c : Byte) : tty.secondary.full = false → Turn tty [.count, .store c]
  | store (c : Byte) : tty.secondary.full = false → Turn tty [.store c]

/-- What an act is going to do to the contents of `secondary`. -/
def Act.settle (t : Termios) (l : List Byte) : Act → List Byte
  | .key c => edit t c l
  | .look true | .last true => killLine t l
  | .look false | .last false => eraseLast t l
  | .back => l.dropLast
  | .store c => l ++ [c]
  | _ => l

/-- The contents of `secondary` when the turn has ended. -/
def Handlers.settled (s : Handlers) : List Byte :=
  s.turn.foldl (Act.settle s.tty.termios) s.tty.secondary.contents

/-- `read_q` may get more characters while a turn is in the middle. -/
theorem Turn.more {tty' : Tty} {acts : List Act} (h : Turn tty acts)
    (hr : tty.readQ.empty = false → tty'.readQ.empty = false) (hs : tty'.secondary = tty.secondary) :
    Turn tty' acts := by
  cases h with
  | none => exact .none
  | getch he hf => exact .getch (hr he) (hs ▸ hf)
  | key c hf => exact .key c (hs ▸ hf)
  | look kill => exact .look kill
  | last kill he => exact .last kill (hs ▸ he)
  | back he => exact .back (hs ▸ he)
  | again he => exact .again (hs ▸ he)
  | count c hf => exact .count c (hs ▸ hf)
  | store c hf => exact .store c (hs ▸ hf)

/-! ## One act -/

/-- What every reachable session has. -/
structure Session.Edited (t : Termios) (x : Session) : Prop where
  termios : x.state.tty.termios = t
  arrived : x.arrived = x.cooked ++ x.state.tty.readQ.contents
  typed : ∀ c ∈ x.arrived, c.toNat < 128
  waits : x.state.tty.readQ.empty = true ∨ .cook ∈ x.state.stack.flatten
  turn : Turn x.state.tty x.state.turn
  follows : ∃ front, Follows t x.taken x.state.settled x.editor front

variable {x y : Session} {a : Act} {rest new : List Act} {st : List (List Act)} {answers : Bool}

/-- The turn is that of the act and of what is behind it. -/
theorem turn_act {s : Handlers} (hs : s.stack = (a :: rest) :: st) :
    s.turn = [a].filter Act.turns ++ (rest ++ st.flatten).filter Act.turns := by
  unfold Handlers.turn
  rw [hs, ← List.filter_append]
  rfl

/-- A call of `copy_to_cooked` that goes on still has its loop to do. -/
theorem waits_act {s : Handlers} (hs : s.stack = (a :: rest) :: st) (ha : a ≠ .cook)
    (hw : s.tty.readQ.empty = true ∨ .cook ∈ s.stack.flatten) :
    s.tty.readQ.empty = true ∨ .cook ∈ ((new ++ rest) :: st).flatten := by
  refine hw.imp id fun hm => ?_
  rw [hs, List.flatten_cons, List.cons_append, List.mem_cons] at hm
  rw [List.flatten_cons, List.append_assoc, List.mem_append]
  exact .inr (hm.resolve_left fun h => ha h.symm)

theorem turns_ofEcho (h : new.all Act.ofEcho = true) : new.filter Act.turns = [] := by
  refine List.filter_eq_nil_iff.mpr fun b hb => ?_
  have hb := List.all_eq_true.mp h b hb
  cases b with
  | echo c | write => exact Bool.false_ne_true
  | _ => cases hb

/-- The acts of a turn, and of the echo within it. -/
def Act.inside : Act → Bool
  | .cook | .getch | .respond => false
  | _ => true

/-- An act within a turn leaves a rest that the turn has, and what the queue is going to be. -/
theorem Turn.act (below : Byte → Byte) (answers : Bool) {P : List Act} (ha : a.inside = true)
    (hT : Turn tty ([a].filter Act.turns ++ P)) :
    Turn (tty.act below answers a).1 ((tty.act below answers a).2.filter Act.turns ++ P) ∧
      ((tty.act below answers a).2.filter Act.turns ++ P).foldl (Act.settle tty.termios)
          (tty.act below answers a).1.secondary.contents =
        ([a].filter Act.turns ++ P).foldl (Act.settle tty.termios) tty.secondary.contents := by
  cases a with
  | cook | getch | respond => cases ha
  | echo c => exact ⟨hT.more id rfl, rfl⟩
  | write =>
    have hnone : (tty.act below answers .write).2.filter Act.turns = [] := by
      refine List.filter_eq_nil_iff.mpr fun b hb => ?_
      simp only [Tty.act] at hb
      split at hb
      · rw [List.eq_of_mem_replicate hb]
        exact Bool.false_ne_true
      · cases hb
    rw [hnone]
    exact ⟨hT, rfl⟩
  | take =>
    have hnone : (tty.act below answers .take).2.filter Act.turns = [] := by
      cases answers <;> rfl
    rw [hnone]
    exact ⟨hT.more id rfl, rfl⟩
  | key c =>
    cases hT with
    | key c hf =>
      have hedit : ([Act.key c].filter Act.turns).foldl (Act.settle tty.termios) tty.secondary.contents =
          edit tty.termios c tty.secondary.contents := rfl
      rw [List.append_nil, List.append_nil, hedit, edit]
      simp only [Tty.act]
      cases classify tty.termios c with
      | kill => exact ⟨.look true, rfl⟩
      | erase => exact ⟨.look false, rfl⟩
      | stop | start | signal => exact ⟨.none, rfl⟩
      | store =>
        dsimp only
        rw [List.filter_append, List.filter_append, turns_ofEcho (storeEcho_ofEcho _ _)]
        cases ends tty.termios c with
        | true => exact ⟨.count c hf, rfl⟩
        | false => exact ⟨.store c hf, rfl⟩
  | look kill =>
    cases hT with
    | look kill =>
      simp only [Tty.act]
      cases he : tty.secondary.empty with
      | true =>
        refine ⟨.none, ?_⟩
        have hnil := Queue.empty_iff_contents.mp he
        rw [hnil]
        cases kill <;> rfl
      | false => exact ⟨.last kill he, by cases kill <;> rfl⟩
  | last kill =>
    cases hT with
    | last kill he =>
      have hc := Queue.contents_back he
      simp only [Tty.act]
      cases hl : ends tty.termios tty.secondary.last with
      | true =>
        refine ⟨.none, ?_⟩
        cases kill with
        | true =>
          show tty.secondary.contents = killLine tty.termios tty.secondary.contents
          rw [hc, killLine_concat, if_pos hl]
        | false =>
          show tty.secondary.contents = eraseLast tty.termios tty.secondary.contents
          rw [hc, eraseLast_concat, if_pos hl]
      | false =>
        have hkeep : ends tty.termios tty.secondary.last ≠ true := by
          rw [hl]
          exact Bool.false_ne_true
        rw [if_neg Bool.false_ne_true, List.filter_append, turns_ofEcho (eraseEcho_ofEcho _ _)]
        cases kill with
        | true =>
          refine ⟨.again he, ?_⟩
          show killLine tty.termios tty.secondary.contents.dropLast =
            killLine tty.termios tty.secondary.contents
          rw [hc, List.dropLast_concat, killLine_concat, if_neg hkeep]
        | false =>
          refine ⟨.back he, ?_⟩
          show tty.secondary.contents.dropLast = eraseLast tty.termios tty.secondary.contents
          rw [hc, List.dropLast_concat, eraseLast_concat, if_neg hkeep]
  | back =>
    have hback : tty.secondary.empty = false →
        tty.secondary.back.contents = tty.secondary.contents.dropLast := fun he => by
      rw [Queue.contents_back he, List.dropLast_concat]
    cases hT with
    | back he => exact ⟨.none, hback he⟩
    | again he => exact ⟨.look true, congrArg (killLine tty.termios) (hback he)⟩
  | count =>
    cases hT with
    | count c hf => exact ⟨.store c hf, rfl⟩
  | store c =>
    cases hT with
    | store c hf =>
      refine ⟨.none, ?_⟩
      show (tty.secondary.put c).contents = tty.secondary.contents ++ [c]
      rw [Queue.contents_put hf]

/-- What an act within a turn leaves alone. -/
theorem act_inside (below : Byte → Byte) (answers : Bool) (tty : Tty) (ha : a.inside = true) :
    (tty.act below answers a).1.termios = tty.termios ∧ (tty.act below answers a).1.readQ = tty.readQ := by
  cases a with
  | cook | getch | respond => cases ha
  | key c =>
    simp only [Tty.act]
    split <;> exact ⟨rfl, rfl⟩
  | _ => simp only [Tty.act, and_self]

theorem Session.Edited.act (E : x.Edited t) (hs : x.state.stack = (a :: rest) :: st)
    (ha : a.inside = true) : Session.Edited t { x with state := { x.state with
      tty := (x.state.tty.act below answers a).1
      stack := ((x.state.tty.act below answers a).2 ++ rest) :: st } } := by
  obtain ⟨ht, hr⟩ := act_inside below answers x.state.tty ha
  have hT := E.turn
  have hfol := E.follows
  unfold Handlers.settled at hfol
  rw [turn_act hs] at hT hfol
  obtain ⟨hturn, hset⟩ := hT.act below answers ha
  have hthen : Handlers.turn { x.state with
      tty := (x.state.tty.act below answers a).1
      stack := ((x.state.tty.act below answers a).2 ++ rest) :: st } =
      (x.state.tty.act below answers a).2.filter Act.turns ++ (rest ++ st.flatten).filter Act.turns := by
    unfold Handlers.turn
    dsimp only
    rw [List.flatten_cons, List.append_assoc, List.filter_append]
  refine ⟨ht.trans E.termios, ?_, E.typed, ?_, ?_, ?_⟩
  · show x.arrived = x.cooked ++ (x.state.tty.act below answers a).1.readQ.contents
    rw [hr]
    exact E.arrived
  · show (x.state.tty.act below answers a).1.readQ.empty = true ∨ _
    rw [hr]
    exact waits_act hs (fun h => by rw [h] at ha; cases ha) E.waits
  · rw [hthen]
    exact hturn
  · unfold Handlers.settled
    rw [hthen]
    dsimp only
    rw [ht, hset]
    exact hfol

/-! ## The loop -/

/-- The test: a turn begins where no other is in the middle. -/
theorem Session.Edited.cook (E : x.Edited t) (hs : x.state.stack = (.cook :: rest) :: st)
    (hf : x.state.tty.secondary.full = false)
    (hno : x.state.tty.readQ.empty = false → x.state.turn = []) :
    Session.Edited t { x with state := { x.state with
      stack := ((if x.state.tty.goesOn then [.getch, .cook] else []) ++ rest) :: st } } := by
  have hrest : x.state.turn = (rest ++ st.flatten).filter Act.turns := by
    rw [turn_act hs]
    rfl
  cases he : x.state.tty.readQ.empty with
  | true =>
    have hgo : x.state.tty.goesOn = false := by rw [Tty.goesOn, he]; rfl
    rw [hgo, if_neg Bool.false_ne_true]
    have hturn : Handlers.turn { x.state with stack := ([] ++ rest) :: st } = x.state.turn := hrest.symm
    refine ⟨E.termios, E.arrived, E.typed, .inl he, hturn ▸ E.turn, ?_⟩
    unfold Handlers.settled
    rw [hturn]
    exact E.follows
  | false =>
    have hgo : x.state.tty.goesOn = true := by rw [Tty.goesOn, he, hf]; rfl
    rw [hgo, if_pos rfl]
    have hnone := hno he
    have hturn : Handlers.turn { x.state with stack := ([.getch, .cook] ++ rest) :: st } = [.getch] := by
      show Act.getch :: (rest ++ st.flatten).filter Act.turns = _
      rw [← hrest, hnone]
    have hfol := E.follows
    refine ⟨E.termios, E.arrived, E.typed, .inr ?_, hturn ▸ .getch he hf, ?_⟩
    · exact List.mem_flatten.mpr ⟨_, List.mem_cons_self, List.mem_cons_of_mem _ List.mem_cons_self⟩
    · unfold Handlers.settled at hfol ⊢
      rw [hturn]
      rw [hnone] at hfol
      exact hfol

/-- `GETCH`, and the mappings. -/
theorem Session.Edited.getch (E : x.Edited t) (C : Canonical t)
    (hs : x.state.stack = (.getch :: rest) :: st) :
    Session.Edited t { x with
      state := { x.state with
        tty := (x.state.tty.act below answers .getch).1
        stack := ((x.state.tty.act below answers .getch).2 ++ rest) :: st }
      cooked := x.cooked ++ [x.state.tty.readQ.first]
      editor := x.editor.input x.state.tty.termios x.state.tty.readQ.first } := by
  obtain rfl := E.termios
  have hT := E.turn
  have hfol := E.follows
  unfold Handlers.settled at hfol
  rw [turn_act hs, List.filter_cons_of_pos (by rfl)] at hT hfol
  generalize hP : (rest ++ st.flatten).filter Act.turns = P at hT hfol
  obtain ⟨rfl, he, hf⟩ :
      P = [] ∧ x.state.tty.readQ.empty = false ∧ x.state.tty.secondary.full = false := by
    cases hT with
    | getch he hf => exact ⟨rfl, he, hf⟩
  have htake := Queue.contents_take he
  have harr : x.arrived = x.cooked ++ [x.state.tty.readQ.first] ++ x.state.tty.readQ.take.contents := by
    rw [E.arrived, htake, List.append_assoc]
    rfl
  have hlow : x.state.tty.readQ.first.toNat < 128 := E.typed _ (by
    rw [E.arrived, htake]
    exact List.mem_append_right _ List.mem_cons_self)
  have hcook : Act.cook ∈ (rest :: st).flatten := by
    have hw := E.waits.resolve_left (by rw [he]; exact Bool.false_ne_true)
    rw [hs] at hw
    exact (List.mem_cons.mp hw).resolve_left nofun
  simp only [Tty.act]
  rw [mapInput_eq hlow, Editor.input]
  cases inputMapping x.state.tty.termios x.state.tty.readQ.first with
  | none =>
    have hturn : Handlers.turn { x.state with
        tty := { x.state.tty with readQ := x.state.tty.readQ.take }, stack := ([] ++ rest) :: st } = [] :=
      hP
    dsimp only
    refine ⟨rfl, harr, E.typed, .inr hcook, ?_, ?_⟩
    · rw [hturn]
      exact .none
    · unfold Handlers.settled
      rw [hturn]
      exact hfol
  | some c =>
    have hturn : Handlers.turn { x.state with
        tty := { x.state.tty with readQ := x.state.tty.readQ.take }, stack := ([.key c] ++ rest) :: st } =
        [.key c] := congrArg (Act.key c :: ·) hP
    dsimp only
    refine ⟨rfl, harr, E.typed, .inr (List.mem_cons_of_mem _ hcook), ?_, ?_⟩
    · rw [hturn]
      exact .key c hf
    · unfold Handlers.settled
      rw [hturn]
      obtain ⟨front, F⟩ := hfol
      exact F.edit C

/-- More characters come into `read_q`, and another call of `copy_to_cooked` is to do its loop. -/
theorem Session.Edited.more (E : x.Edited t) {stack : List (List Act)} {cs : List Byte}
    (hcs : ∀ c ∈ cs, c.toNat < 128) (hl : cs.length ≤ x.state.tty.readQ.left)
    (hturn : stack.flatten.filter Act.turns = x.state.turn) (hcook : .cook ∈ stack.flatten) :
    Session.Edited t { x with
      state := { x.state with
        tty := { x.state.tty with readQ := x.state.tty.readQ.putAll cs }, stack := stack }
      arrived := x.arrived ++ cs } := by
  have hcont := Queue.contents_putAll hl
  refine ⟨E.termios, ?_, fun c hc => (List.mem_append.mp hc).elim (E.typed c) (hcs c), .inr hcook, ?_, ?_⟩
  · show x.arrived ++ cs = x.cooked ++ (x.state.tty.readQ.putAll cs).contents
    rw [hcont, E.arrived, List.append_assoc]
  · show Turn _ (stack.flatten.filter Act.turns)
    rw [hturn]
    refine E.turn.more (fun he => ?_) rfl
    rw [Bool.eq_false_iff] at he ⊢
    intro hn
    have hnil := Queue.empty_iff_contents.mp hn
    rw [hcont] at hnil
    exact he (Queue.empty_iff_contents.mpr (List.append_eq_nil_iff.mp hnil).1)
  · have hfol := E.follows
    unfold Handlers.settled at hfol ⊢
    show ∃ front, Follows t x.taken
      ((stack.flatten.filter Act.turns).foldl (Act.settle x.state.tty.termios) _) x.editor front
    rw [hturn]
    exact hfol

theorem response_low : ∀ c ∈ response, c.toNat < 128 := by
  decide

theorem Session.Edited.go (E : x.Edited t) (C : Canonical t) (hg : Orderly x (.go answers))
    (hs : x.state.stack = (a :: rest) :: st) : Session.Edited t { x.note (.go answers) with
      state := { x.state with
        tty := (x.state.tty.act below answers a).1
        stack := ((x.state.tty.act below answers a).2 ++ rest) :: st } } := by
  have happ := hg.2 a rest st hs
  simp only [Session.note, hs]
  cases a with
  | cook => exact E.cook hs (hg.1 rest st hs) happ
  | getch => exact E.getch C hs
  | respond =>
    refine E.more response_low happ ?_ List.mem_cons_self
    rw [turn_act hs]
    rfl
  | _ => exact E.act hs rfl

/-! ## Processes -/

/-- Where no handler runs, no turn is in the middle. -/
theorem turn_of_stack {s : Handlers} (h : s.stack = []) : s.turn = [] := by
  rw [Handlers.turn, h]
  rfl

/-- A step that leaves `read_q` and `secondary` alone, where no handler runs. -/
theorem Session.Edited.elsewhere (E : x.Edited t) {s : Handlers} (hs : x.state.stack = [])
    (hst : s.stack = [] ∨ s.stack = [[.write]]) (ht : s.tty.termios = x.state.tty.termios)
    (hr : s.tty.readQ = x.state.tty.readQ) (hse : s.tty.secondary = x.state.tty.secondary) :
    Session.Edited t { x with state := s } := by
  have hturn : s.turn = [] := by
    rcases hst with h | h
    · exact turn_of_stack h
    · rw [Handlers.turn, h]
      rfl
  have hw := E.waits.resolve_right (by rw [hs]; exact List.not_mem_nil)
  refine ⟨ht.trans E.termios, ?_, E.typed, .inl (hr ▸ hw), ?_, ?_⟩
  · rw [E.arrived, ← hr]
  · show Turn s.tty s.turn
    rw [hturn]
    exact .none
  · have hfol := E.follows
    unfold Handlers.settled at hfol ⊢
    rw [turn_of_stack hs] at hfol
    show ∃ front, Follows t x.taken (s.turn.foldl _ s.tty.secondary.contents) x.editor front
    rw [hturn, hse]
    exact hfol

/-- `GETCH` in `tty_read`. -/
theorem Session.Edited.taking (E : x.Edited t) {s : Handlers} (hs : x.state.stack = [])
    (he : x.state.tty.secondary.empty = false) (hst : s.stack = [])
    (ht : s.tty.termios = x.state.tty.termios) (hr : s.tty.readQ = x.state.tty.readQ)
    (hse : s.tty.secondary = x.state.tty.secondary.take) :
    Session.Edited t { x with
      state := s
      taken := x.taken ++ [x.state.tty.secondary.first]
      editor := x.editor.read (x.taken.length + 1) } := by
  have hw := E.waits.resolve_right (by rw [hs]; exact List.not_mem_nil)
  refine ⟨ht.trans E.termios, ?_, E.typed, .inl (hr ▸ hw), ?_, ?_⟩
  · rw [E.arrived, ← hr]
  · show Turn s.tty s.turn
    rw [turn_of_stack hst]
    exact .none
  · obtain ⟨front, F⟩ := E.follows
    unfold Handlers.settled at F ⊢
    rw [turn_of_stack hs, List.foldl_nil, Queue.contents_take he] at F
    show ∃ front, Follows t _ (s.turn.foldl _ s.tty.secondary.contents) _ front
    rw [turn_of_stack hst, hse]
    exact F.read

theorem Session.Edited.proceed (E : x.Edited t) (hg : Orderly x .proceed) (hs : x.state.stack = []) :
    Session.Edited t { x.note .proceed with state := { x.state with
      tty := (x.state.tty.proceed x.state.process).1
      process := (x.state.tty.proceed x.state.process).2.1
      stack := (x.state.tty.proceed x.state.process).2.2 } } := by
  unfold Session.note
  cases hp : x.state.process with
  | output cs =>
    cases cs with
    | nil => exact E.elsewhere hs (.inr rfl) rfl rfl rfl
    | cons c cs =>
      simp only [Tty.proceed]
      split
      · exact E.elsewhere hs (.inr rfl) rfl rfl rfl
      · exact E.elsewhere hs (.inl rfl) rfl rfl rfl
  | getch r => exact E.taking hs (hg.2 r hp) rfl rfl rfl rfl
  | _ => exact E.elsewhere hs (.inl rfl) rfl rfl rfl

/-! ## Runs -/

/-- A key, or a character of a serial line. -/
theorem Session.Edited.putQueue (E : x.Edited t) {cs : List Byte} (hcs : ∀ c ∈ cs, c.toNat < 128) :
    Session.Edited t { (if x.state.tty.readQ.left < cs.length then x
        else { x with arrived := x.arrived ++ cs }) with
      state := { x.state with tty := x.state.tty.putQueue cs, stack := [.cook] :: x.state.stack } } := by
  unfold Tty.putQueue
  split
  · exact ⟨E.termios, E.arrived, E.typed, E.waits.imp id (List.mem_cons_of_mem _), E.turn, E.follows⟩
  · next hl => exact E.more hcs (Nat.le_of_not_lt hl) rfl List.mem_cons_self

theorem Session.Edited.step {e : HandlerEvent} (E : x.Edited t) (C : Canonical t) (hg : Orderly x e)
    (hs : sessionStep below x e = some y) : y.Edited t := by
  obtain ⟨s, hl, rfl⟩ := Option.map_eq_some_iff.mp hs
  cases handlerStep_moves hl with
  | act hst => exact E.go C hg hst
  | @ended answers st hst =>
    have hstack : st.flatten = x.state.stack.flatten := by
      rw [hst]
      rfl
    have hturn : Handlers.turn { x.state with stack := st } = x.state.turn :=
      congrArg (List.filter Act.turns) hstack
    simp only [Session.note, hst]
    refine ⟨E.termios, E.arrived, E.typed, hstack ▸ E.waits, hturn ▸ E.turn, ?_⟩
    unfold Handlers.settled
    rw [hturn]
    exact E.follows
  | key => exact E.putQueue hg.1
  | receive => exact E.putQueue fun d hd => List.mem_singleton.mp hd ▸ hg.1
  | transmit => exact ⟨E.termios, E.arrived, E.typed, E.waits, E.turn.more id rfl, E.follows⟩
  | proceed hst => exact E.proceed hg hst
  | call he =>
    have hnote : x.note e = x := by
      cases e with
      | write cs | read nr minimum | signal => rfl
      | _ => cases he
    rw [hnote]
    exact ⟨E.termios, E.arrived, E.typed, E.waits, E.turn, E.follows⟩
  | sleep | wake => exact ⟨E.termios, E.arrived, E.typed, E.waits, E.turn, E.follows⟩
  | setTermios | setTermio => exact hg.1.elim

end Linux011.TtyIo
