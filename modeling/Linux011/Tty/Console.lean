import Mathlib.Logic.Function.Iterate
import Linux011.Lib.Words
import Mathlib.Algebra.Group.Nat.Defs
import Mathlib.Algebra.Group.Int.Defs

/-!
# The console (`kernel/chr_drv/console.c`)

The screen is a window over video memory: `video_num_lines` rows from `origin` on, `scr_end` after the
last one. An EGA scrolls the whole screen by moving the window and comes back to the start of video
memory when it reaches the end; an MDA or a CGA moves the rows. `con_write` takes characters one by one
through the states of an escape sequence.

All of the C variables are unsigned and have 32 bits. They are natural numbers here, with `add32` and
`sub32` where a value comes from the user or goes into an address.

What the console sends elsewhere is left out: cursor and origin registers, the beep, and the answer to
`ESC Z`, which goes into the read queue of the tty.
-/

namespace Linux011.Tty

open Lib (add32 sub32 Words)

/-! ## State -/

inductive VideoType
  | mda
  | cga
  | egam
  | egac
  deriving DecidableEq

/-- What `con_init` finds. -/
structure Geometry where
  videoType : VideoType
  columns : Nat
  lines : Nat
  memStart : Nat
  memEnd : Nat

/-- `video_type == VIDEO_TYPE_EGAC || video_type == VIDEO_TYPE_EGAM`. -/
def Geometry.ega (g : Geometry) : Bool := g.videoType = .egac ∨ g.videoType = .egam

/-- `video_size_row`. -/
def Geometry.sizeRow (g : Geometry) : Nat := g.columns * 2

/-- Cursor, margins, parser and attribute. -/
structure Term where
  x : Nat
  y : Nat
  top : Nat
  bottom : Nat
  state : Nat
  npar : Nat
  par : Nat → Nat
  ques : Bool
  attr : Nat
  savedX : Nat
  savedY : Nat

structure Console where
  term : Term
  origin : Nat
  scrEnd : Nat
  pos : Nat
  mem : Words Nat

/-- `video_erase_char`. -/
def eraseChar : Nat := 0x0720

/-- `NPAR`. -/
def nPar : Nat := 16

variable (g : Geometry)

/-! ## Cursor -/

/-- `gotoxy`. -/
def gotoxy (newX newY : Nat) (s : Console) : Console :=
  if newX > g.columns ∨ newY ≥ g.lines then s
  else { s with
    term := { s.term with x := newX, y := newY }
    pos := add32 (add32 s.origin (newY * g.sizeRow)) (2 * newX) }

/-- `cr`. -/
def cr (s : Console) : Console :=
  { s with term := { s.term with x := 0 }, pos := sub32 s.pos (2 * s.term.x) }

/-- `del`. -/
def del (s : Console) : Console :=
  if s.term.x = 0 then s
  else { s with
    term := { s.term with x := s.term.x - 1 }
    pos := sub32 s.pos 2
    mem := s.mem.store (sub32 s.pos 2) eraseChar }

/-- `save_cur`. -/
def saveCur (s : Console) : Console :=
  { s with term := { s.term with savedX := s.term.x, savedY := s.term.y } }

/-- `restore_cur`. -/
def restoreCur (s : Console) : Console := gotoxy g s.term.savedX s.term.savedY s

/-! ## Scrolling -/

/-- The rows from `top` to `bottom` move up. -/
def moveUp (s : Console) : Console :=
  let n := (s.term.bottom - s.term.top - 1) * g.columns / 2
  let dst := s.origin + g.sizeRow * s.term.top
  let mem := s.mem.moves n (s.origin + g.sizeRow * (s.term.top + 1)) dst
  { s with mem := mem.fill g.columns (add32 dst (4 * n)) eraseChar }

/-- `scrup`. -/
def scrup (s : Console) : Console :=
  if g.ega ∧ s.term.top = 0 ∧ s.term.bottom = g.lines then
    let origin := add32 s.origin g.sizeRow
    let pos := add32 s.pos g.sizeRow
    let scrEnd := add32 s.scrEnd g.sizeRow
    if scrEnd > g.memEnd then
      let n := (g.lines - 1) * g.columns / 2
      let mem := s.mem.moves n origin g.memStart
      { s with
        mem := mem.fill g.columns (add32 g.memStart (4 * n)) eraseChar
        scrEnd := sub32 scrEnd (sub32 origin g.memStart)
        pos := sub32 pos (sub32 origin g.memStart)
        origin := g.memStart }
    else
      { s with
        mem := s.mem.fill g.columns (sub32 scrEnd g.sizeRow) eraseChar
        scrEnd := scrEnd
        pos := pos
        origin := origin }
  else moveUp g s

/-- `scrdown`: both branches are the same. -/
def scrdown (s : Console) : Console :=
  let n := (s.term.bottom - s.term.top - 1) * g.columns / 2
  let dst := s.origin + g.sizeRow * s.term.bottom - 4
  let mem := s.mem.movesDown n (s.origin + g.sizeRow * (s.term.bottom - 1) - 4) dst
  { s with mem := mem.fillDown g.columns (add32 (sub32 dst (4 * n)) 2) eraseChar }

/-- `lf`. -/
def lf (s : Console) : Console :=
  if s.term.y + 1 < s.term.bottom then
    { s with term := { s.term with y := s.term.y + 1 }, pos := add32 s.pos g.sizeRow }
  else scrup g s

/-- `ri`. -/
def ri (s : Console) : Console :=
  if s.term.y > s.term.top then
    { s with term := { s.term with y := s.term.y - 1 }, pos := sub32 s.pos g.sizeRow }
  else scrdown g s

/-! ## Erasing -/

def erase (count start : Nat) (s : Console) : Console :=
  { s with mem := s.mem.fill count start eraseChar }

/-- `csi_J`. -/
def csiJ (par : Nat) (s : Console) : Console :=
  if par = 0 then erase (sub32 s.scrEnd s.pos / 2) s.pos s
  else if par = 1 then erase (sub32 s.pos s.origin / 2) s.origin s
  else if par = 2 then erase (g.columns * g.lines) s.origin s
  else s

/-- `csi_K`. -/
def csiK (par : Nat) (s : Console) : Console :=
  if par = 0 then
    if s.term.x ≥ g.columns then s else erase (g.columns - s.term.x) s.pos s
  else if par = 1 then
    erase (if s.term.x < g.columns then s.term.x else g.columns) (sub32 s.pos (2 * s.term.x)) s
  else if par = 2 then erase g.columns (sub32 s.pos (2 * s.term.x)) s
  else s

/-! ## Characters and lines -/

/-- The loop of `insert_char`. -/
def shiftRight : Nat → Nat → Nat → Words Nat → Words Nat
  | 0, _, _, m => m
  | n + 1, p, old, m => shiftRight n (add32 p 2) (m.word p) (m.store p old)

/-- `insert_char`. -/
def insertChar (s : Console) : Console :=
  { s with mem := shiftRight (g.columns - s.term.x) s.pos eraseChar s.mem }

/-- The loop of `delete_char`, and the store after it. -/
def shiftLeft : Nat → Nat → Words Nat → Words Nat
  | 0, p, m => m.store p eraseChar
  | n + 1, p, m => shiftLeft n (add32 p 2) (m.store p (m.word (add32 p 2)))

/-- `delete_char`. -/
def deleteChar (s : Console) : Console :=
  if s.term.x ≥ g.columns then s
  else { s with mem := shiftLeft (g.columns - s.term.x - 1) s.pos s.mem }

/-- With the margins at the cursor line and the end of the screen, and back. -/
def belowCursor (f : Console → Console) (s : Console) : Console :=
  let s' := f { s with term := { s.term with top := s.term.y, bottom := g.lines } }
  { s' with term := { s'.term with top := s.term.top, bottom := s.term.bottom } }

/-- `insert_line`. -/
def insertLine (s : Console) : Console := belowCursor g (scrdown g) s

/-- `delete_line`. -/
def deleteLine (s : Console) : Console := belowCursor g (scrup g) s

/-- `nr` times, at least once and at most `most` times. -/
def times (most nr : Nat) (f : Console → Console) (s : Console) : Console :=
  f^[if nr > most then most else if nr = 0 then 1 else nr] s

/-- `csi_at`, `csi_L`, `csi_P` and `csi_M`. -/
def csiAt (nr : Nat) (s : Console) : Console := times g.columns nr (insertChar g) s
def csiL (nr : Nat) (s : Console) : Console := times g.lines nr (insertLine g) s
def csiP (nr : Nat) (s : Console) : Console := times g.columns nr (deleteChar g) s
def csiM (nr : Nat) (s : Console) : Console := times g.lines nr (deleteLine g) s

/-- The `switch` of `csi_m`. -/
def attrOf (par attr : Nat) : Nat :=
  if par = 0 then 0x07
  else if par = 1 then 0x0f
  else if par = 4 then 0x0f
  else if par = 7 then 0x70
  else if par = 27 then 0x07
  else attr

/-- `csi_m`. -/
def csim (s : Console) : Console :=
  { s with term := { s.term with
      attr := (List.range (s.term.npar + 1)).foldl (fun attr i => attrOf (s.term.par i) attr)
        s.term.attr } }

/-! ## Characters of `con_write` -/

def code (c : Char) : Int := c.toNat

def setState (n : Nat) (s : Console) : Console := { s with term := { s.term with state := n } }

def setPar (i v : Nat) (s : Console) : Console :=
  { s with term := { s.term with par := Function.update s.term.par i v } }

/-- The cursor is past the last column: it goes to the next line. -/
def wrap (s : Console) : Console :=
  lf g { s with
    term := { s.term with x := s.term.x - g.columns }
    pos := sub32 s.pos g.sizeRow }

/-- A character that is shown. -/
def put (c : Int) (s : Console) : Console :=
  let s := if s.term.x ≥ g.columns then wrap g s else s
  { s with
    mem := s.mem.store s.pos (s.term.attr * 256 + c.toNat)
    pos := add32 s.pos 2
    term := { s.term with x := add32 s.term.x 1 } }

/-- `case 9` of state 0. -/
def tab (s : Console) : Console :=
  let c := 8 - s.term.x % 8
  let s := { s with
    term := { s.term with x := add32 s.term.x c }
    pos := add32 s.pos (2 * c) }
  if s.term.x > g.columns then wrap g s else s

/-- `case 8` of state 0. -/
def back (s : Console) : Console :=
  if s.term.x = 0 then s
  else { s with term := { s.term with x := s.term.x - 1 }, pos := sub32 s.pos 2 }

/-- `case 0`; `eraseKey` is `ERASE_CHAR(tty)`. -/
def plain (eraseKey : Nat) (c : Int) (s : Console) : Console :=
  if c > 31 ∧ c < 127 then put g c s
  else if c = 27 then setState 1 s
  else if c = 10 ∨ c = 11 ∨ c = 12 then lf g s
  else if c = 13 then cr s
  else if c = eraseKey then del s
  else if c = 8 then back s
  else if c = 9 then tab g s
  else s

/-- `case 1`. The tests for `7` and `8` are on `x`. -/
def escape (c : Int) (s : Console) : Console :=
  let s := setState 0 s
  if c = code '[' then setState 2 s
  else if c = code 'E' then gotoxy g 0 (add32 s.term.y 1) s
  else if c = code 'M' then ri g s
  else if c = code 'D' then lf g s
  else if c = code 'Z' then s
  else if s.term.x = code '7' then saveCur s
  else if s.term.x = code '8' then restoreCur g s
  else s

/-- `if (!par[0]) par[0]++`. -/
def one (s : Console) : Console := if s.term.par 0 = 0 then setPar 0 1 s else s

/-- `if (par[i]) par[i]--`. -/
def less (i : Nat) (s : Console) : Console :=
  if s.term.par i = 0 then s else setPar i (s.term.par i - 1) s

/-- `case 'r'`. -/
def margins (s : Console) : Console :=
  let s := less 0 s
  let s := if s.term.par 1 = 0 then setPar 1 g.lines s else s
  if s.term.par 0 < s.term.par 1 ∧ s.term.par 1 ≤ g.lines then
    { s with term := { s.term with top := s.term.par 0, bottom := s.term.par 1 } }
  else s

/-- `gotoxy` to where the parameters and the cursor say. -/
def goto (newX newY : Term → Nat) (s : Console) : Console := gotoxy g (newX s.term) (newY s.term) s

/-- `case 4`. -/
def final (c : Int) (s : Console) : Console :=
  let s := setState 0 s
  -- 96 is the backquote
  if c = code 'G' ∨ c = 96 then goto g (·.par 0) (·.y) (less 0 s)
  else if c = code 'A' then goto g (·.x) (fun t => sub32 t.y (t.par 0)) (one s)
  else if c = code 'B' ∨ c = code 'e' then goto g (·.x) (fun t => add32 t.y (t.par 0)) (one s)
  else if c = code 'C' ∨ c = code 'a' then goto g (fun t => add32 t.x (t.par 0)) (·.y) (one s)
  else if c = code 'D' then goto g (fun t => sub32 t.x (t.par 0)) (·.y) (one s)
  else if c = code 'E' then goto g (fun _ => 0) (fun t => add32 t.y (t.par 0)) (one s)
  else if c = code 'F' then goto g (fun _ => 0) (fun t => sub32 t.y (t.par 0)) (one s)
  else if c = code 'd' then goto g (·.x) (·.par 0) (less 0 s)
  else if c = code 'H' ∨ c = code 'f' then goto g (·.par 1) (·.par 0) (less 1 (less 0 s))
  else if c = code 'J' then csiJ g (s.term.par 0) s
  else if c = code 'K' then csiK g (s.term.par 0) s
  else if c = code 'L' then csiL g (s.term.par 0) s
  else if c = code 'M' then csiM g (s.term.par 0) s
  else if c = code 'P' then csiP g (s.term.par 0) s
  else if c = code '@' then csiAt g (s.term.par 0) s
  else if c = code 'm' then csim s
  else if c = code 'r' then margins g s
  else if c = code 's' then saveCur s
  else if c = code 'u' then restoreCur g s
  else s

/-- `case 3`. -/
def params (c : Int) (s : Console) : Console :=
  if c = code ';' ∧ s.term.npar < nPar - 1 then
    { s with term := { s.term with npar := s.term.npar + 1 } }
  else if code '0' ≤ c ∧ c ≤ code '9' then
    setPar s.term.npar ((10 * s.term.par s.term.npar + (c - code '0').toNat) % 2 ^ 32) s
  else final g c s

/-- `case 2`. -/
def clear (c : Int) (s : Console) : Console :=
  let s := { s with term := { s.term with
    par := fun i => if i < nPar then 0 else s.term.par i
    npar := 0
    state := 3
    ques := c = code '?' } }
  if s.term.ques then s else params g c s

/-- One turn of the loop of `con_write`. -/
def conChar (eraseKey : Nat) (c : Int) (s : Console) : Console :=
  if s.term.state = 0 then plain g eraseKey c s
  else if s.term.state = 1 then escape g c s
  else if s.term.state = 2 then clear g c s
  else if s.term.state = 3 then params g c s
  else if s.term.state = 4 then final g c s
  else s

/-- `con_write`: the characters come with the erase key of the tty at that time. -/
def conWrite (input : List (Nat × Int)) (s : Console) : Console :=
  input.foldl (fun s k => conChar g k.1 k.2 s) s

/-! ## `con_init` -/

/-- What the setup routine left at 0x90000. -/
structure Bios where
  x : Nat
  y : Nat
  mode : Nat
  columns : Nat
  egaBx : Nat

/-- The video type, the place of video memory, and what is shown in the first line. -/
def Bios.found (b : Bios) : Geometry × List Char :=
  if b.mode = 7 then
    if b.egaBx % 256 ≠ 0x10 then (⟨.egam, b.columns, 25, 0xb0000, 0xb8000⟩, ['E', 'G', 'A', 'm'])
    else (⟨.mda, b.columns, 25, 0xb0000, 0xb2000⟩, ['*', 'M', 'D', 'A'])
  else if b.egaBx % 256 ≠ 0x10 then (⟨.egac, b.columns, 25, 0xb8000, 0xbc000⟩, ['E', 'G', 'A', 'c'])
  else (⟨.cga, b.columns, 25, 0xb8000, 0xba000⟩, ['*', 'C', 'G', 'A'])

def Bios.geometry (b : Bios) : Geometry := b.found.1

/-- `display_desc` goes into the lower bytes of the words from `p` on. -/
def describe : List Char → Nat → Words Nat → Words Nat
  | [], _, m => m
  | c :: desc, p, m => describe desc (add32 p 2) (m.store p (m.word p / 256 * 256 + c.toNat))

/-- The variables before `gotoxy`. -/
def Term.initial (lines : Nat) : Term :=
  { x := 0, y := 0, top := 0, bottom := lines, state := 0, npar := 0, par := fun _ => 0,
    ques := false, attr := 0x07,
    savedX := 0, savedY := 0 }

/-- `con_init`, with `word` in video memory. -/
def conInit (b : Bios) (word : Nat → Nat) : Console :=
  let g := b.geometry
  gotoxy g b.x b.y
    { term := .initial g.lines
      origin := g.memStart
      scrEnd := g.memStart + g.lines * g.sizeRow
      pos := 0
      mem := describe b.found.2 (sub32 (g.memStart + g.sizeRow) 8) ⟨word, g.memStart, g.memEnd, false⟩ }

end Linux011.Tty
