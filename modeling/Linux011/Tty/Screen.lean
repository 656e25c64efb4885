import Linux011.Tty.Console

/-!
# What the screen shows

A console shows a terminal state and a screen: cell `i` of the screen, counted row after row, is word
`i` from `origin` on. What the functions of the console do to the screen can be said without origin and
video type, and is said here for each of them: rows move up or down, cells are erased, cells of a line
move. So a console that scrolls by its origin and one that moves memory show the same.

The cursor may stand one past the last column. With two columns only, a tab takes it further, past the
end of the screen in the last line; so nothing here relies on the cursor being inside.
-/

namespace Linux011.Tty

open Lib (add32 sub32 add32_eq sub32_eq Words)

/-! ## Invariant -/

/-- The screen fits into video memory, which is below 1 MB. -/
structure Geometry.Fits (g : Geometry) : Prop where
  even : g.columns % 2 = 0
  wide : 2 ≤ g.columns
  lines : 0 < g.lines
  fits : g.memStart + g.lines * g.sizeRow ≤ g.memEnd
  high : g.memEnd ≤ 2 ^ 20

/-- The last column that the cursor may be in. -/
def Geometry.reach (g : Geometry) : Nat := if g.columns = 2 then 6 else g.columns

/-- The number of cells. -/
def Geometry.size (g : Geometry) : Nat := g.lines * g.columns

structure Term.Ok (g : Geometry) (t : Term) : Prop where
  x : t.x ≤ g.reach
  y : t.y < g.lines
  top : t.top < t.bottom
  bottom : t.bottom ≤ g.lines
  npar : t.npar < nPar
  state : t.state < 4

/-- The cell that the cursor is on. -/
def Term.cursor (g : Geometry) (t : Term) : Nat := t.y * g.columns + t.x

/-- The console is in order and shows screen `S`. -/
structure Shows (g : Geometry) (s : Console) (t : Term) (S : Nat → Nat) : Prop where
  term : s.term = t
  ok : t.Ok g
  pos : s.pos = s.origin + 2 * t.cursor g
  scrEnd : s.scrEnd = s.origin + 2 * g.size
  low : g.memStart ≤ s.origin
  high : s.scrEnd ≤ g.memEnd
  range : s.mem.low = g.memStart ∧ s.mem.high = g.memEnd
  inside : 4 ≤ g.columns → s.mem.strayed = false
  cell : ∀ i < g.size, s.mem.word (s.origin + 2 * i) = S i

variable {g : Geometry} {s : Console} {t : Term} {S : Nat → Nat} {m : Words Nat} {i k n : Nat}

/-! ## Arithmetic -/

theorem sizeRow_mul (r : Nat) : r * g.sizeRow = 2 * (r * g.columns) := by
  unfold Geometry.sizeRow
  rw [← Nat.mul_assoc, Nat.mul_comm]

theorem mul_sizeRow (r : Nat) : g.sizeRow * r = 2 * (r * g.columns) := by
  rw [Nat.mul_comm, sizeRow_mul]

theorem row_le {r : Nat} (h : r < g.lines) : r * g.columns + g.columns ≤ g.size := by
  unfold Geometry.size
  rw [← Nat.succ_mul]
  exact Nat.mul_le_mul_right _ h

theorem rows_le {r : Nat} (h : r ≤ g.lines) : r * g.columns ≤ g.size := Nat.mul_le_mul_right _ h

theorem even_mul (F : g.Fits) (r : Nat) : r * g.columns % 2 = 0 := by
  rw [Nat.mul_mod, F.even, Nat.mul_zero, Nat.zero_mod]

theorem reach_le (F : g.Fits) : g.columns ≤ g.reach ∧ g.reach ≤ g.columns + 4 ∧
    (4 ≤ g.columns → g.reach = g.columns) := by
  have := F.wide
  unfold Geometry.reach
  split <;> omega

/-- What is needed of the sizes. -/
theorem Shows.bounds (F : g.Fits) (h : Shows g s t S) :
    s.origin + 2 * g.size ≤ g.memEnd ∧ g.memStart ≤ s.origin ∧ g.memEnd ≤ 2 ^ 20 ∧
      t.y * g.columns + g.columns ≤ g.size ∧ s.pos = s.origin + 2 * (t.y * g.columns + t.x) ∧
        t.x ≤ g.columns + 4 ∧ (4 ≤ g.columns → t.x ≤ g.columns) ∧ 2 ≤ g.columns := by
  have hscr := h.scrEnd
  have hhigh := h.high
  obtain ⟨-, hreach, hwide⟩ := reach_le F
  have hx := h.ok.x
  refine ⟨by omega, h.low, F.high, row_le h.ok.y, h.pos, by omega, fun h4 => ?_, F.wide⟩
  rw [← hwide h4]
  exact hx

/-! ## Memory -/

/-- Only the memory changes. -/
theorem Shows.memory {S' : Nat → Nat} (h : Shows g s t S)
    (hrange : m.low = s.mem.low ∧ m.high = s.mem.high)
    (hinside : 4 ≤ g.columns → m.strayed = s.mem.strayed)
    (hcell : ∀ i < g.size, m.word (s.origin + 2 * i) = S' i) : Shows g { s with mem := m } t S' := by
  refine ⟨h.term, h.ok, h.pos, h.scrEnd, h.low, h.high, ?_, fun h4 => ?_, hcell⟩
  · exact ⟨hrange.1.trans h.range.1, hrange.2.trans h.range.2⟩
  · exact (hinside h4).trans (h.inside h4)

/-- `n` cells from `k` on are erased. -/
def wiped (k n : Nat) (S : Nat → Nat) (i : Nat) : Nat := if k ≤ i ∧ i < k + n then eraseChar else S i

theorem Shows.fill (F : g.Fits) (h : Shows g s t S) (hn : s.origin + 2 * (k + n) ≤ 2 ^ 32)
    (hin : 4 ≤ g.columns → k + n ≤ g.size) :
    Shows g { s with mem := s.mem.fill n (s.origin + 2 * k) eraseChar } t (wiped k n S) := by
  obtain ⟨hend, hlow, hhigh, -⟩ := h.bounds F
  refine h.memory Words.fill_range (fun h4 => ?_) fun i hi => ?_
  · have := hin h4
    exact Words.fill_inside (by rw [h.range.1]; omega) (by rw [h.range.2]; omega)
      (by rw [h.range.2]; omega)
  · rw [Words.fill_word_of_le (by omega) (by omega), h.cell i hi]
    unfold wiped
    split <;> split <;> first | rfl | omega

/-- One cell changes; it may be past the end of the screen. -/
theorem Shows.store (F : g.Fits) {w : Nat} (h : Shows g s t S) (hin : 4 ≤ g.columns → k < g.size) :
    Shows g { s with mem := s.mem.store (s.origin + 2 * k) w } t (Function.update S k w) := by
  obtain ⟨hend, hlow, hhigh, -⟩ := h.bounds F
  refine h.memory ⟨rfl, rfl⟩ (fun h4 => ?_) fun i hi => ?_
  · have := hin h4
    exact Words.store_inside (by rw [h.range.1]; omega) (by rw [h.range.2]; omega)
  · rw [Words.store_word, h.cell i hi, Function.update_apply]
    split <;> split <;> first | rfl | omega

/-! ## Scrolling -/

/-- The rows from `a` to `b` move up by `c` cells, and the last `c` cells are erased. -/
def movedUp (c a b : Nat) (S : Nat → Nat) (i : Nat) : Nat :=
  if a ≤ i ∧ i + c < b then S (i + c) else if a ≤ i ∧ i < b then eraseChar else S i

/-- The rows from `a` to `b` move down by `c` cells, and the first `c` cells are erased. -/
def movedDown (c a b : Nat) (S : Nat → Nat) (i : Nat) : Nat :=
  if a + c ≤ i ∧ i < b then S (i - c) else if a ≤ i ∧ i < b then eraseChar else S i

/-- The part of the screen between two margins, in cells. -/
theorem margin_cells (F : g.Fits) {top bottom : Nat} (h : top < bottom) (hb : bottom ≤ g.lines) :
    ∃ d, bottom * g.columns = top * g.columns + d + g.columns ∧ (bottom - top - 1) * g.columns = d ∧
      d % 2 = 0 ∧ bottom * g.columns ≤ g.size ∧ (bottom - 1) * g.columns = top * g.columns + d := by
  refine ⟨(bottom - top - 1) * g.columns, ?_, rfl, even_mul F _, rows_le hb, ?_⟩
  · calc bottom * g.columns = (top + (bottom - top - 1) + 1) * g.columns := by
          congr 1
          omega
      _ = top * g.columns + (bottom - top - 1) * g.columns + g.columns := by
          rw [Nat.succ_mul, Nat.add_mul]
  · rw [← Nat.add_mul]
    congr 1
    omega

/-- Moving `d` cells up and erasing `c` cells after them. -/
theorem moves_fill_word {src dst d c b : Nat} (hd : d % 2 = 0) (hsrc : dst + 4 ≤ src)
    (hmax : src + 2 * (d + c) ≤ 2 ^ 32) (hb : b < 2 ^ 32) :
    ((m.moves (d / 2) src dst).fill c (add32 dst (4 * (d / 2))) eraseChar).word b =
    if dst ≤ b ∧ b < dst + 2 * d ∧ (dst + b) % 2 = 0 then m.word (b - dst + src)
    else if dst ≤ b ∧ b < dst + 2 * (d + c) ∧ (dst + b) % 2 = 0 then eraseChar else m.word b := by
  have hn : 4 * (d / 2) = 2 * d := by omega
  have haddr : add32 dst (4 * (d / 2)) = dst + 2 * d := by
    rw [hn, add32_eq (by omega)]
  rw [haddr, Words.fill_word_of_le (by omega) hb, Words.moves_word (by omega) hsrc, hn]
  by_cases hin : dst ≤ b ∧ b < dst + 2 * d ∧ (dst + b) % 2 = 0
  · rw [if_neg (by omega), if_pos hin, if_pos hin]
  · rw [if_neg hin, if_neg hin]
    by_cases hlast : dst ≤ b ∧ b < dst + 2 * (d + c) ∧ (dst + b) % 2 = 0
    · rw [if_pos (by omega), if_pos hlast]
    · rw [if_neg (by omega), if_neg hlast]

/-- The words that are moved and erased are in video memory. -/
theorem moves_fill_inside {dst d c : Nat} (hd : d % 2 = 0) (hlow : m.low ≤ dst)
    (hhigh : dst + 2 * (d + c) ≤ m.high) (hmax : m.high ≤ 2 ^ 20) (src : Nat) :
    ((m.moves (d / 2) src dst).fill c (add32 dst (4 * (d / 2))) eraseChar).strayed = m.strayed := by
  have hn : 4 * (d / 2) = 2 * d := by omega
  have haddr : add32 dst (4 * (d / 2)) = dst + 2 * d := by
    rw [hn, add32_eq (by omega)]
  rw [haddr, Words.fill_inside (by rw [Words.moves_range.1]; omega)
    (by rw [Words.moves_range.2]; omega) (by rw [Words.moves_range.2]; omega),
    Words.moves_inside (by omega) (by omega) (by omega)]

theorem moves_fill_range {src dst a c : Nat} : ((m.moves n src dst).fill c a eraseChar).low = m.low ∧
    ((m.moves n src dst).fill c a eraseChar).high = m.high := by
  rw [Words.fill_range.1, Words.fill_range.2, Words.moves_range.1, Words.moves_range.2]
  exact ⟨rfl, rfl⟩

theorem moveUp_shows (F : g.Fits) (h : Shows g s t S) :
    Shows g (moveUp g s) t (movedUp g.columns (t.top * g.columns) (t.bottom * g.columns) S) := by
  obtain rfl := h.term
  obtain ⟨hend, hlow, hhigh, -⟩ := h.bounds F
  obtain ⟨hrlow, hrhigh⟩ := h.range
  obtain ⟨d, hbottom, hd, heven, hsize, -⟩ := margin_cells F h.ok.top h.ok.bottom
  have hwide := F.wide
  have hnext : (s.term.top + 1) * g.columns = s.term.top * g.columns + g.columns := Nat.succ_mul _ _
  unfold moveUp
  dsimp only
  rw [mul_sizeRow, mul_sizeRow, hd, hnext]
  refine h.memory moves_fill_range (fun _ => moves_fill_inside heven (by omega) (by omega) (by omega) _)
    fun i hi => ?_
  rw [moves_fill_word heven (by omega) (by omega) (by omega), h.cell i hi]
  unfold movedUp
  by_cases hin : s.term.top * g.columns ≤ i ∧ i + g.columns < s.term.bottom * g.columns
  · have haddr : s.origin + 2 * i - (s.origin + 2 * (s.term.top * g.columns)) +
        (s.origin + 2 * (s.term.top * g.columns + g.columns)) = s.origin + 2 * (i + g.columns) := by omega
    rw [if_pos hin, if_pos (by omega), haddr, h.cell _ (by omega)]
  · rw [if_neg hin, if_neg (by omega)]
    split <;> split <;> first | rfl | omega

/-- The terminal where the cursor, the margins and the parser stay in order. -/
theorem Shows.cursor {t' : Term} {pos' : Nat} (h : Shows g s t S) (hok : t'.Ok g)
    (hpos : pos' = s.origin + 2 * t'.cursor g) : Shows g { s with term := t', pos := pos' } t' S :=
  ⟨rfl, hok, hpos, h.scrEnd, h.low, h.high, h.range, h.inside, h.cell⟩

/-- `n` cells from `o` on that are moved to `dst`, less the first `c`, with `c` erased behind them. -/
theorem moves_fill_up {o dst d c : Nat} (hd : d % 2 = 0) (hn : d + c = n) (hsrc : dst + 4 ≤ o + 2 * c)
    (hmax : o + 2 * c + 2 * n ≤ 2 ^ 32) (hcell : ∀ i < n, m.word (o + 2 * i) = S i) (hi : i < n) :
    ((m.moves (d / 2) (o + 2 * c) dst).fill c (add32 dst (4 * (d / 2))) eraseChar).word (dst + 2 * i) =
      movedUp c 0 n S i := by
  rw [moves_fill_word hd hsrc (by omega) (by omega)]
  unfold movedUp
  by_cases hin : 0 ≤ i ∧ i + c < n
  · have haddr : dst + 2 * i - dst + (o + 2 * c) = o + 2 * (i + c) := by omega
    rw [if_pos hin, if_pos (by omega), haddr, hcell _ (by omega)]
  · rw [if_neg hin, if_neg (by omega), if_pos (by omega), if_pos (by omega)]

/-- A window of `n` cells at `o` that has gone on by `c`, with the last `c` erased. -/
theorem fill_up {o c : Nat} (hc : c ≤ n) (hmax : o + 2 * c + 2 * n ≤ 2 ^ 32)
    (hcell : ∀ i < n, m.word (o + 2 * i) = S i) (hi : i < n) :
    (m.fill c (o + 2 * c + 2 * (n - c)) eraseChar).word (o + 2 * c + 2 * i) = movedUp c 0 n S i := by
  rw [Words.fill_word_of_le (by omega) (by omega)]
  unfold movedUp
  by_cases hin : 0 ≤ i ∧ i + c < n
  · have haddr : o + 2 * c + 2 * i = o + 2 * (i + c) := by omega
    rw [if_neg (by omega), if_pos hin, haddr, hcell _ (by omega)]
  · rw [if_neg hin, if_pos (by omega), if_pos (by omega)]

/-- All rows but one. -/
theorem rows_but_one (F : g.Fits) : (g.lines - 1) * g.columns + g.columns = g.size := by
  have hlines := F.lines
  unfold Geometry.size
  rw [← Nat.succ_mul]
  congr 1
  omega

/-- The window has reached the end of video memory and begins at its start again. -/
theorem window_restarts (F : g.Fits) (h : Shows g s t S) {d : Nat} (hd : (g.lines - 1) * g.columns = d) :
    Shows g
      { s with
        mem := (s.mem.moves (d / 2) (s.origin + 2 * g.columns) g.memStart).fill g.columns
          (add32 g.memStart (4 * (d / 2))) eraseChar
        scrEnd := sub32 (s.origin + 2 * g.columns + 2 * g.size)
          (sub32 (s.origin + 2 * g.columns) g.memStart)
        pos := sub32 (s.origin + 2 * g.columns + 2 * t.cursor g)
          (sub32 (s.origin + 2 * g.columns) g.memStart)
        origin := g.memStart } t (movedUp g.columns 0 g.size S) := by
  obtain ⟨hend, hlow, hhigh, hrow, hcursor, hx, -, hwide⟩ := h.bounds F
  obtain ⟨hrlow, hrhigh⟩ := h.range
  have hrows := rows_but_one F
  have heven := even_mul F (g.lines - 1)
  have hfits := F.fits
  rw [sizeRow_mul] at hfits
  rw [hd] at hrows heven
  have hlines : g.lines * g.columns = g.size := rfl
  have hsub : sub32 (s.origin + 2 * g.columns) g.memStart = s.origin + 2 * g.columns - g.memStart :=
    sub32_eq (by omega) (by omega)
  have hback : ∀ k ≤ 2 * g.size + 8, sub32 (s.origin + 2 * g.columns + k)
      (sub32 (s.origin + 2 * g.columns) g.memStart) = g.memStart + k := by
    intro k hk
    rw [hsub, sub32_eq (by omega) (by omega)]
    omega
  have hpos : 2 * t.cursor g ≤ 2 * g.size + 8 := by
    unfold Term.cursor
    omega
  refine ⟨h.term, h.ok, hback _ hpos, hback _ (by omega), Nat.le_refl _, ?_,
    ⟨moves_fill_range.1.trans hrlow, moves_fill_range.2.trans hrhigh⟩, fun h4 => ?_, fun i hi => ?_⟩
  · exact Nat.le_trans (Nat.le_of_eq (hback _ (by omega))) hfits
  · exact (moves_fill_inside heven (by omega) (by omega) (by omega) _).trans (h.inside h4)
  · exact moves_fill_up heven hrows (by omega) (by omega) h.cell hi

/-- The window goes on by a row in video memory. -/
theorem window_goes_on (F : g.Fits) (h : Shows g s t S)
    (hroom : s.origin + 2 * g.columns + 2 * g.size ≤ g.memEnd) :
    Shows g
      { s with
        mem := s.mem.fill g.columns (sub32 (s.origin + 2 * g.columns + 2 * g.size) g.sizeRow) eraseChar
        scrEnd := s.origin + 2 * g.columns + 2 * g.size
        pos := s.origin + 2 * g.columns + 2 * t.cursor g
        origin := s.origin + 2 * g.columns } t (movedUp g.columns 0 g.size S) := by
  obtain ⟨-, hlow, hhigh, hrow, -⟩ := h.bounds F
  obtain ⟨hrlow, hrhigh⟩ := h.range
  have hr : g.sizeRow = 2 * g.columns := Nat.mul_comm _ _
  have hsub : sub32 (s.origin + 2 * g.columns + 2 * g.size) g.sizeRow =
      s.origin + 2 * g.columns + 2 * (g.size - g.columns) := by
    rw [hr, sub32_eq (by omega) (by omega)]
    omega
  rw [hsub]
  refine ⟨h.term, h.ok, rfl, rfl, Nat.le_trans hlow (Nat.le_add_right _ _), hroom,
    ⟨Words.fill_range.1.trans hrlow, Words.fill_range.2.trans hrhigh⟩, fun h4 => ?_, fun i hi => ?_⟩
  · exact (Words.fill_inside (by omega) (by omega) (by omega)).trans (h.inside h4)
  · exact fill_up (by omega) (by omega) h.cell hi

/-- The addresses of a window that goes on by a row. -/
theorem window_addresses (F : g.Fits) (h : Shows g s t S) :
    add32 s.origin g.sizeRow = s.origin + 2 * g.columns ∧
    add32 s.pos g.sizeRow = s.origin + 2 * g.columns + 2 * t.cursor g ∧
    add32 s.scrEnd g.sizeRow = s.origin + 2 * g.columns + 2 * g.size := by
  obtain ⟨hend, -, hhigh, hrow, hcursor, hx, -, -⟩ := h.bounds F
  have hr : g.sizeRow = 2 * g.columns := Nat.mul_comm _ _
  have hpos := h.pos
  have hscr := h.scrEnd
  rw [hr]
  refine ⟨add32_eq (by omega), ?_, ?_⟩
  · rw [add32_eq (by omega)]
    omega
  · rw [add32_eq (by omega)]
    omega

/-- With an EGA the whole screen moves up by moving the window. -/
theorem scrup_shows (F : g.Fits) (h : Shows g s t S) :
    Shows g (scrup g s) t (movedUp g.columns (t.top * g.columns) (t.bottom * g.columns) S) := by
  obtain rfl := h.term
  unfold scrup
  split
  · next hfull =>
    obtain ⟨-, htop, hbot⟩ := hfull
    have hsize : s.term.bottom * g.columns = g.size := by rw [hbot]; rfl
    have hzero : s.term.top * g.columns = 0 := by rw [htop, Nat.zero_mul]
    obtain ⟨horigin, hpos, hscr⟩ := window_addresses F h
    rw [hsize, hzero, horigin, hpos, hscr]
    dsimp only
    split
    · exact window_restarts F h rfl
    · next hroom => exact window_goes_on F h (Nat.le_of_not_lt hroom)
  · exact moveUp_shows F h

/-- Moving `d` cells from `a` on down by `c` and erasing the first `c`. -/
theorem movesDown_fill_word {o a d c : Nat} (hd : d % 2 = 0) (hc : 2 ≤ c)
    (hmax : o + 2 * (a + d + c) ≤ 2 ^ 32) (i : Nat) :
    ((m.movesDown (d / 2) (o + 2 * (a + d) - 4) (o + 2 * (a + d + c) - 4)).fillDown c
      (o + 2 * (a + c) - 2) eraseChar).word (o + 2 * i) =
    movedDown c a (a + d + c) (fun k => m.word (o + 2 * k)) i := by
  rw [Words.fillDown_word (by omega) (by omega)]
  unfold movedDown
  by_cases hfirst : a ≤ i ∧ i < a + c
  · rw [if_pos (by omega), if_neg (by omega), if_pos (by omega)]
  · rw [if_neg (by omega)]
    by_cases hd0 : d = 0
    · subst hd0
      show m.word _ = _
      rw [if_neg (by omega), if_neg (by omega)]
    · rw [Words.movesDown_word (by omega) (by omega) (by omega)]
      by_cases hin : a + c ≤ i ∧ i < a + d + c
      · have hsrc : o + 2 * i - (o + 2 * (a + d + c) - 4 - (o + 2 * (a + d) - 4)) = o + 2 * (i - c) := by
          omega
        rw [if_pos (by omega), if_pos hin, hsrc]
      · rw [if_neg (by omega), if_neg hin, if_neg (by omega)]

/-- The words that are moved and erased are in video memory. -/
theorem movesDown_fill_inside {o a d c : Nat} (hd : d % 2 = 0) (hc : 2 ≤ c) (hlow : m.low ≤ o)
    (hhigh : o + 2 * (a + d + c) ≤ m.high) (hmax : m.high ≤ 2 ^ 20) (src : Nat) :
    ((m.movesDown (d / 2) src (o + 2 * (a + d + c) - 4)).fillDown c (o + 2 * (a + c) - 2)
      eraseChar).strayed = m.strayed := by
  rw [Words.fillDown_inside (by rw [Words.movesDown_range.1]; omega)
    (by rw [Words.movesDown_range.2]; omega) (by rw [Words.movesDown_range.2]; omega),
    Words.movesDown_inside (by omega) (by omega) (by omega)]

/-- What moves is on the screen. -/
theorem movedDown_congr {S' : Nat → Nat} {c a b : Nat} (hS : ∀ i < n, S i = S' i) (hi : i < n) :
    movedDown c a b S i = movedDown c a b S' i := by
  unfold movedDown
  rw [hS i hi, hS (i - c) (by omega)]

theorem scrdown_shows (F : g.Fits) (h : Shows g s t S) :
    Shows g (scrdown g s) t (movedDown g.columns (t.top * g.columns) (t.bottom * g.columns) S) := by
  obtain rfl := h.term
  obtain ⟨hend, hlow, hhigh, -⟩ := h.bounds F
  obtain ⟨hrlow, hrhigh⟩ := h.range
  obtain ⟨d, hbottom, hd, heven, hsize, hlast⟩ := margin_cells F h.ok.top h.ok.bottom
  have hwide := F.wide
  have hn : 4 * (d / 2) = 2 * d := by omega
  unfold scrdown
  dsimp only
  rw [mul_sizeRow, mul_sizeRow, hd, hlast, hn]
  -- the last word of the first row
  have haddr : add32 (sub32 (s.origin + 2 * (s.term.bottom * g.columns) - 4) (2 * d)) 2 =
      s.origin + 2 * (s.term.top * g.columns + g.columns) - 2 := by
    rw [sub32_eq (by omega) (by omega), add32_eq (by omega)]
    omega
  rw [haddr]
  rw [hbottom] at hsize ⊢
  refine h.memory ?_ (fun _ => movesDown_fill_inside heven hwide (by omega) (by omega) (by omega) _)
    fun i hi => ?_
  · rw [Words.fillDown_range.1, Words.fillDown_range.2, Words.movesDown_range.1, Words.movesDown_range.2]
    exact ⟨rfl, rfl⟩
  · rw [movesDown_fill_word heven hwide (by omega)]
    exact movedDown_congr h.cell hi

/-! ## Moving the cursor -/

/-- `gotoxy`, for the terminal. -/
def Term.goto (columns lines newX newY : Nat) (t : Term) : Term :=
  if newX > columns ∨ newY ≥ lines then t else { t with x := newX, y := newY }

theorem gotoxy_shows (F : g.Fits) (h : Shows g s t S) (newX newY : Nat) :
    Shows g (gotoxy g newX newY s) (t.goto g.columns g.lines newX newY) S := by
  obtain rfl := h.term
  unfold gotoxy Term.goto
  split
  · exact h
  · next hin =>
    obtain ⟨hend, hlow, hhigh, -⟩ := h.bounds F
    obtain ⟨hreach, -, -⟩ := reach_le F
    have hy : newY < g.lines := by omega
    have hrow := row_le hy
    refine h.cursor ⟨by dsimp only; omega, hy, h.ok.top, h.ok.bottom, h.ok.npar, h.ok.state⟩ ?_
    rw [sizeRow_mul, add32_eq (a := s.origin) (by omega), add32_eq (by omega)]
    unfold Term.cursor
    dsimp only
    omega

/-- The cursor is moved along by `pos`. -/
theorem Shows.left (F : g.Fits) (h : Shows g s t S) {d : Nat} (hd : d ≤ t.x) :
    Shows g { s with term := { t with x := t.x - d }, pos := sub32 s.pos (2 * d) }
      { t with x := t.x - d } S := by
  obtain ⟨hend, -, hhigh, hrow, hpos, hx, -⟩ := h.bounds F
  refine h.cursor ⟨Nat.le_trans (Nat.sub_le _ _) h.ok.x, h.ok.y, h.ok.top, h.ok.bottom, h.ok.npar,
    h.ok.state⟩ ?_
  rw [sub32_eq (by omega) (by omega)]
  unfold Term.cursor
  dsimp only
  omega

theorem cr_shows (F : g.Fits) (h : Shows g s t S) : Shows g (cr s) { t with x := 0 } S := by
  obtain rfl := h.term
  have hleft := h.left F (Nat.le_refl s.term.x)
  rwa [Nat.sub_self] at hleft

theorem back_shows (F : g.Fits) (h : Shows g s t S) : Shows g (back s) { t with x := t.x - 1 } S := by
  obtain rfl := h.term
  unfold back
  split
  · next hx =>
    have : s.term.x - 1 = s.term.x := by omega
    rw [this]
    exact h
  · next hx => exact h.left F (Nat.one_le_iff_ne_zero.mpr hx)

theorem del_shows (F : g.Fits) (h : Shows g s t S) : Shows g (del s) { t with x := t.x - 1 }
    (if t.x = 0 then S else Function.update S (t.cursor g - 1) eraseChar) := by
  obtain rfl := h.term
  unfold del
  split
  · next hx =>
    have : s.term.x - 1 = s.term.x := by omega
    rw [this]
    exact h
  · next hx =>
    obtain ⟨hend, -, hhigh, hrow, hpos, hreach, hwide, -⟩ := h.bounds F
    have hcursor : s.term.cursor g = s.term.y * g.columns + s.term.x := rfl
    have hleft := h.left F (Nat.one_le_iff_ne_zero.mpr hx)
    have haddr : sub32 s.pos 2 = s.origin + 2 * (s.term.cursor g - 1) := by
      rw [sub32_eq (by omega) (by omega)]
      omega
    have hstore := hleft.store F (k := s.term.cursor g - 1) (w := eraseChar) fun h4 => by
      have := hwide h4
      omega
    rw [haddr]
    rw [Nat.mul_one, haddr] at hstore
    exact hstore

/-- A line down, in the margins or by scrolling. -/
def Term.lf (t : Term) : Term := if t.y + 1 < t.bottom then { t with y := t.y + 1 } else t

def lined (c : Nat) (t : Term) (S : Nat → Nat) : Nat → Nat :=
  if t.y + 1 < t.bottom then S else movedUp c (t.top * c) (t.bottom * c) S

theorem lf_shows (F : g.Fits) (h : Shows g s t S) : Shows g (lf g s) t.lf (lined g.columns t S) := by
  obtain rfl := h.term
  unfold lf Term.lf lined
  split
  · next hy =>
    have hlines : s.term.y + 1 < g.lines := Nat.lt_of_lt_of_le hy h.ok.bottom
    obtain ⟨hend, -, hhigh, -, hpos, hreach, -⟩ := h.bounds F
    have hrow := row_le hlines
    have hnext : (s.term.y + 1) * g.columns = s.term.y * g.columns + g.columns := Nat.succ_mul _ _
    have hr : g.sizeRow = 2 * g.columns := Nat.mul_comm _ _
    refine h.cursor ⟨h.ok.x, hlines, h.ok.top, h.ok.bottom, h.ok.npar, h.ok.state⟩ ?_
    rw [hr, add32_eq (by omega)]
    unfold Term.cursor
    dsimp only
    omega
  · exact scrup_shows F h

theorem ri_shows (F : g.Fits) (h : Shows g s t S) :
    Shows g (ri g s) (if t.y > t.top then { t with y := t.y - 1 } else t)
      (if t.y > t.top then S
        else movedDown g.columns (t.top * g.columns) (t.bottom * g.columns) S) := by
  obtain rfl := h.term
  unfold ri
  split
  · next hy =>
    obtain ⟨hend, -, hhigh, hrow, hpos, hreach, -⟩ := h.bounds F
    have hprev : s.term.y * g.columns = (s.term.y - 1) * g.columns + g.columns := by
      rw [← Nat.succ_mul]
      congr 1
      omega
    have hr : g.sizeRow = 2 * g.columns := Nat.mul_comm _ _
    refine h.cursor ⟨h.ok.x, Nat.lt_of_le_of_lt (Nat.sub_le _ _) h.ok.y, h.ok.top, h.ok.bottom, h.ok.npar,
      h.ok.state⟩ ?_
    rw [hr, sub32_eq (by omega) (by omega)]
    unfold Term.cursor
    dsimp only
    omega
  · exact scrdown_shows F h

theorem lf_x : t.lf.x = t.x := by
  unfold Term.lf
  split <;> rfl

/-- The cursor goes from past the last column to the next line. -/
theorem wrap_shows (F : g.Fits) (h : Shows g s t S) (hx : g.columns ≤ t.x) :
    Shows g (wrap g s) (Term.lf { t with x := t.x - g.columns })
      (lined g.columns { t with x := t.x - g.columns } S) := by
  obtain rfl := h.term
  have hr : g.sizeRow = 2 * g.columns := Nat.mul_comm _ _
  have hleft := h.left F hx
  rw [← hr] at hleft
  exact lf_shows F hleft

/-! ## Characters -/

/-- A cell is written and the cursor moves on. -/
theorem putCell_shows (F : g.Fits) (h : Shows g s t S) (hx : t.x < g.reach) (k : Int) :
    Shows g { s with
      mem := s.mem.store s.pos (s.term.attr * 256 + k.toNat)
      pos := add32 s.pos 2
      term := { s.term with x := add32 s.term.x 1 } } { t with x := add32 t.x 1 }
      (Function.update S (t.y * g.columns + t.x) (t.attr * 256 + k.toNat)) := by
  obtain rfl := h.term
  obtain ⟨hend, -, hhigh, hrow, hpos, hreach, -⟩ := h.bounds F
  obtain ⟨-, -, hwide⟩ := reach_le F
  have hstore := h.store F (k := s.term.y * g.columns + s.term.x)
    (w := s.term.attr * 256 + k.toNat) fun h4 => by
      have := hwide h4
      omega
  rw [← hpos] at hstore
  rw [add32_eq (a := s.term.x) (by omega)]
  refine hstore.cursor ⟨hx, h.ok.y, h.ok.top, h.ok.bottom, h.ok.npar, h.ok.state⟩ ?_
  rw [add32_eq (by omega)]
  unfold Term.cursor
  dsimp only
  omega

/-- `put`, for the terminal; where the cursor is before the character. -/
def Term.wrap (c : Nat) (t : Term) : Term := if t.x ≥ c then Term.lf { t with x := t.x - c } else t

def Term.put (c : Nat) (t : Term) : Term := { t.wrap c with x := add32 (t.wrap c).x 1 }

def wrapped (c : Nat) (t : Term) (S : Nat → Nat) : Nat → Nat :=
  if t.x ≥ c then lined c { t with x := t.x - c } S else S

def written (c : Nat) (k : Int) (t : Term) (S : Nat → Nat) : Nat → Nat :=
  Function.update (wrapped c t S) ((t.wrap c).y * c + (t.wrap c).x)
    ((t.wrap c).attr * 256 + k.toNat)

theorem wrap_lt (F : g.Fits) (hx : t.x ≤ g.reach) : (t.wrap g.columns).x < g.reach := by
  obtain ⟨hcols, hreach, hwide⟩ := reach_le F
  have := F.wide
  have := F.even
  unfold Term.wrap
  split
  · rw [lf_x]
    dsimp only
    omega
  · omega

theorem put_shows (F : g.Fits) (h : Shows g s t S) (k : Int) :
    Shows g (put g k s) (t.put g.columns) (written g.columns k t S) := by
  obtain rfl := h.term
  have hwrap : Shows g (if s.term.x ≥ g.columns then wrap g s else s) (s.term.wrap g.columns)
      (wrapped g.columns s.term S) := by
    unfold Term.wrap wrapped
    split
    · next hx => exact wrap_shows F h hx
    · exact h
  exact putCell_shows F hwrap (wrap_lt F h.ok.x) k

theorem tab_reach (F : g.Fits) {x : Nat} (hx : x ≤ g.reach) :
    x + (8 - x % 8) ≤ g.columns + g.reach ∧ x + (8 - x % 8) ≤ g.columns + 12 := by
  obtain ⟨-, hreach, -⟩ := reach_le F
  have heven := F.even
  have hwide := F.wide
  refine ⟨?_, by omega⟩
  unfold Geometry.reach at hx ⊢
  split at hx
  · next h2 =>
    rw [if_pos h2]
    omega
  · next h2 =>
    rw [if_neg h2]
    omega

/-- `tab`, for the terminal. -/
def Term.tab (c : Nat) (t : Term) : Term :=
  if add32 t.x (8 - t.x % 8) > c then Term.lf { t with x := add32 t.x (8 - t.x % 8) - c }
  else { t with x := add32 t.x (8 - t.x % 8) }

def tabbed (c : Nat) (t : Term) (S : Nat → Nat) : Nat → Nat :=
  if add32 t.x (8 - t.x % 8) > c then lined c { t with x := add32 t.x (8 - t.x % 8) - c } S else S

theorem tab_shows (F : g.Fits) (h : Shows g s t S) :
    Shows g (tab g s) (t.tab g.columns) (tabbed g.columns t S) := by
  obtain rfl := h.term
  obtain ⟨hend, -, hhigh, hrow, hpos, hreach, -, hwide⟩ := h.bounds F
  obtain ⟨htab, hsum⟩ := tab_reach F h.ok.x
  have hr : g.sizeRow = 2 * g.columns := Nat.mul_comm _ _
  unfold tab Term.tab tabbed
  generalize hk : 8 - s.term.x % 8 = k at htab hsum ⊢
  have hx : add32 s.term.x k = s.term.x + k := add32_eq (by omega)
  have hp : add32 s.pos (2 * k) = s.pos + 2 * k := add32_eq (by omega)
  dsimp only
  rw [hx, hp]
  split
  · next hover =>
    unfold wrap
    dsimp only
    refine lf_shows F (h.cursor ⟨by dsimp only; omega, h.ok.y, h.ok.top, h.ok.bottom, h.ok.npar,
      h.ok.state⟩ ?_)
    rw [hr, sub32_eq (by omega) (by omega)]
    unfold Term.cursor
    dsimp only
    omega
  · next hover =>
    obtain ⟨hcols, -, -⟩ := reach_le F
    refine h.cursor ⟨by dsimp only; omega, h.ok.y, h.ok.top, h.ok.bottom, h.ok.npar, h.ok.state⟩ ?_
    unfold Term.cursor
    dsimp only
    omega

/-! ## Erasing -/

/-- `csi_J`, for the screen. -/
def erasedJ (c l par : Nat) (t : Term) (S : Nat → Nat) : Nat → Nat :=
  if par = 0 then
    -- past the end of the screen, the count wraps and everything goes
    if t.y * c + t.x ≤ l * c then wiped (t.y * c + t.x) (l * c - (t.y * c + t.x)) S else wiped 0 (l * c) S
  else if par = 1 then wiped 0 (t.y * c + t.x) S
  else if par = 2 then wiped 0 (l * c) S
  else S

theorem erase_shows (F : g.Fits) (h : Shows g s t S) {start : Nat} (hstart : start = s.origin + 2 * k)
    (hn : s.origin + 2 * (k + n) ≤ 2 ^ 32) (hin : 4 ≤ g.columns → k + n ≤ g.size) :
    Shows g (erase n start s) t (wiped k n S) := by
  subst hstart
  exact h.fill F hn hin

theorem csiJ_shows (F : g.Fits) (h : Shows g s t S) (par : Nat) :
    Shows g (csiJ g par s) t (erasedJ g.columns g.lines par t S) := by
  obtain ⟨hend, hlow, hhigh, hrow, hpos, hreach, hwide, -⟩ := h.bounds F
  have hsize : g.lines * g.columns = g.size := rfl
  have hscr := h.scrEnd
  unfold csiJ erasedJ
  rw [hsize]
  generalize hk : t.y * g.columns + t.x = k at hpos ⊢
  have hin : 4 ≤ g.columns → k ≤ g.size := fun h4 => by
    have := hwide h4
    omega
  split
  · split
    · next hle =>
      have hcount : sub32 s.scrEnd s.pos / 2 = g.size - k := by
        rw [sub32_eq (by omega) (by omega)]
        omega
      rw [hcount]
      exact erase_shows F h hpos (by omega) fun _ => by omega
    · next hgt =>
      refine h.memory Words.fill_range (fun h4 => absurd (hin h4) hgt) fun i hi => ?_
      have hcount : sub32 s.scrEnd s.pos / 2 = 2 ^ 31 - (k - g.size) := by
        unfold sub32
        omega
      rw [hcount, hpos, Words.fill_word (by omega) (by omega) (by omega)]
      unfold sub32 wiped
      rw [if_pos (by omega), if_pos (by omega)]
  · split
    · have hcount : sub32 s.pos s.origin / 2 = k := by
        rw [sub32_eq (by omega) (by omega)]
        omega
      rw [hcount]
      exact erase_shows F h (k := 0) rfl (by omega) fun h4 => by
        have := hin h4
        omega
    · split
      · rw [Nat.mul_comm g.columns, hsize]
        exact erase_shows F h (k := 0) rfl (by omega) fun _ => by omega
      · exact h

/-- `csi_K`, for the screen. -/
def erasedK (c par : Nat) (t : Term) (S : Nat → Nat) : Nat → Nat :=
  if par = 0 then if t.x ≥ c then S else wiped (t.y * c + t.x) (c - t.x) S
  else if par = 1 then wiped (t.y * c) (if t.x < c then t.x else c) S
  else if par = 2 then wiped (t.y * c) c S
  else S

theorem csiK_shows (F : g.Fits) (h : Shows g s t S) (par : Nat) :
    Shows g (csiK g par s) t (erasedK g.columns par t S) := by
  obtain rfl := h.term
  obtain ⟨hend, hlow, hhigh, hrow, hpos, hreach, hwide, -⟩ := h.bounds F
  have hstart : sub32 s.pos (2 * s.term.x) = s.origin + 2 * (s.term.y * g.columns) := by
    rw [sub32_eq (by omega) (by omega)]
    omega
  unfold csiK erasedK
  rw [hstart]
  split
  · split
    · exact h
    · exact erase_shows F h hpos (by omega) fun _ => by omega
  · split
    · refine erase_shows F h rfl ?_ fun _ => ?_
      · split <;> omega
      · split <;> omega
    · split
      · exact erase_shows F h rfl (by omega) fun _ => by omega
      · exact h

/-! ## Inserting and deleting characters -/

theorem shiftRight_range {p old : Nat} :
    (shiftRight n p old m).low = m.low ∧ (shiftRight n p old m).high = m.high := by
  induction n generalizing p old m with
  | zero => exact ⟨rfl, rfl⟩
  | succ n ih => exact ih

theorem shiftRight_inside {p old : Nat} (hlow : m.low ≤ p) (hhigh : p + 2 * n ≤ m.high)
    (hmax : m.high < 2 ^ 32) : (shiftRight n p old m).strayed = m.strayed := by
  induction n generalizing p old m with
  | zero => rfl
  | succ n ih =>
    have hnext : add32 p 2 = p + 2 := add32_eq (by omega)
    show (shiftRight n (add32 p 2) (m.word p) (m.store p old)).strayed = _
    rw [hnext, ih (m := m.store p old) (by show m.low ≤ _; omega) (by show _ ≤ m.high; omega) hmax,
      Words.store_inside hlow (by omega)]

/-- Each word goes to the next place, and `old` to the first one. -/
theorem shiftRight_word {p old b : Nat} (hn : p + 2 * n < 2 ^ 32) : (shiftRight n p old m).word b =
    if p ≤ b ∧ b < p + 2 * n ∧ (p + b) % 2 = 0 then if b = p then old else m.word (b - 2)
      else m.word b := by
  induction n generalizing p old m with
  | zero => rw [if_neg (by omega)]; rfl
  | succ n ih =>
    have hnext : add32 p 2 = p + 2 := add32_eq (by omega)
    show (shiftRight n (add32 p 2) (m.word p) (m.store p old)).word b = _
    rw [hnext, ih (by omega), Words.store_word, Words.store_word]
    by_cases hb : b = p
    · rw [if_neg (by omega), if_pos hb, if_pos (by omega), if_pos hb]
    · by_cases hin : p + 2 ≤ b ∧ b < p + 2 + 2 * n ∧ (p + 2 + b) % 2 = 0
      · rw [if_pos hin, if_pos (show p ≤ b ∧ _ by omega), if_neg hb]
        by_cases hb2 : b = p + 2
        · rw [if_pos hb2, hb2, Nat.add_sub_cancel]
        · rw [if_neg hb2, if_neg (by omega)]
      · rw [if_neg hin, if_neg hb, if_neg (by omega)]

theorem shiftLeft_range {p : Nat} :
    (shiftLeft n p m).low = m.low ∧ (shiftLeft n p m).high = m.high := by
  induction n generalizing p m with
  | zero => exact ⟨rfl, rfl⟩
  | succ n ih => exact ih

theorem shiftLeft_inside {p : Nat} (hlow : m.low ≤ p) (hhigh : p + 2 * n + 2 ≤ m.high)
    (hmax : m.high < 2 ^ 32) : (shiftLeft n p m).strayed = m.strayed := by
  induction n generalizing p m with
  | zero => exact Words.store_inside hlow hhigh
  | succ n ih =>
    have hnext : add32 p 2 = p + 2 := add32_eq (by omega)
    show (shiftLeft n (add32 p 2) (m.store p (m.word (add32 p 2)))).strayed = _
    rw [hnext, ih (m := m.store p _) (by show m.low ≤ _; omega) (by show _ ≤ m.high; omega) hmax,
      Words.store_inside hlow (by omega)]

/-- Each word goes to the place before, and the last one is erased. -/
theorem shiftLeft_word {p b : Nat} (hn : p + 2 * n < 2 ^ 32) : (shiftLeft n p m).word b =
    if p ≤ b ∧ b < p + 2 * n ∧ (p + b) % 2 = 0 then m.word (b + 2)
    else if b = p + 2 * n then eraseChar else m.word b := by
  induction n generalizing p m with
  | zero => rw [if_neg (by omega)]; exact Words.store_word
  | succ n ih =>
    have hnext : add32 p 2 = p + 2 := add32_eq (by omega)
    show (shiftLeft n (add32 p 2) (m.store p (m.word (add32 p 2)))).word b = _
    rw [hnext, ih (by omega), Words.store_word, Words.store_word]
    by_cases hb : b = p
    · rw [if_neg (by omega), if_neg (by omega), if_pos hb, if_pos (by omega), hb]
    · by_cases hin : p + 2 ≤ b ∧ b < p + 2 + 2 * n ∧ (p + 2 + b) % 2 = 0
      · rw [if_pos hin, if_neg (by omega), if_pos (show p ≤ b ∧ _ by omega)]
      · rw [if_neg hin, if_neg hb, if_neg (show ¬(p ≤ b ∧ _) by omega)]
        split <;> split <;> first | rfl | omega

/-- The `n` cells from `k` on go one place on; the last one is lost. -/
def inserted (k n : Nat) (S : Nat → Nat) (i : Nat) : Nat :=
  if k ≤ i ∧ i < k + n then if i = k then eraseChar else S (i - 1) else S i

theorem insertChar_shows (F : g.Fits) (h : Shows g s t S) :
    Shows g (insertChar g s) t (inserted (t.y * g.columns + t.x) (g.columns - t.x) S) := by
  obtain rfl := h.term
  obtain ⟨hend, hlow, hhigh, hrow, hpos, hreach, hwide, -⟩ := h.bounds F
  obtain ⟨hrlow, hrhigh⟩ := h.range
  have hcount : s.pos + 2 * (g.columns - s.term.x) < 2 ^ 32 := by omega
  refine h.memory shiftRight_range (fun h4 => ?_) fun i hi => ?_
  · have := hwide h4
    exact shiftRight_inside (by omega) (by omega) (by omega)
  · rw [shiftRight_word hcount, h.cell i hi, hpos]
    unfold inserted
    by_cases hin : s.term.y * g.columns + s.term.x ≤ i ∧
        i < s.term.y * g.columns + s.term.x + (g.columns - s.term.x)
    · rw [if_pos (by omega), if_pos hin]
      by_cases hfirst : i = s.term.y * g.columns + s.term.x
      · rw [if_pos (by omega), if_pos hfirst]
      · have haddr : s.origin + 2 * i - 2 = s.origin + 2 * (i - 1) := by omega
        rw [if_neg (by omega), if_neg hfirst, haddr, h.cell _ (by omega)]
    · rw [if_neg (by omega), if_neg hin]

/-- The `n` cells after `k` go one place back; the last one is erased. -/
def deleted (k n : Nat) (S : Nat → Nat) (i : Nat) : Nat :=
  if k ≤ i ∧ i < k + n then S (i + 1) else if i = k + n then eraseChar else S i

theorem deleteChar_shows (F : g.Fits) (h : Shows g s t S) : Shows g (deleteChar g s) t
    (if t.x ≥ g.columns then S else deleted (t.y * g.columns + t.x) (g.columns - t.x - 1) S) := by
  obtain rfl := h.term
  unfold deleteChar
  split
  · exact h
  · next hx =>
    obtain ⟨hend, hlow, hhigh, hrow, hpos, hreach, hwide, -⟩ := h.bounds F
    obtain ⟨hrlow, hrhigh⟩ := h.range
    have hcount : s.pos + 2 * (g.columns - s.term.x - 1) < 2 ^ 32 := by omega
    refine h.memory shiftLeft_range (fun _ => ?_) fun i hi => ?_
    · exact shiftLeft_inside (by omega) (by omega) (by omega)
    · rw [shiftLeft_word hcount, h.cell i hi, hpos]
      unfold deleted
      by_cases hin : s.term.y * g.columns + s.term.x ≤ i ∧
          i < s.term.y * g.columns + s.term.x + (g.columns - s.term.x - 1)
      · have haddr : s.origin + 2 * i + 2 = s.origin + 2 * (i + 1) := by omega
        rw [if_pos (by omega), if_pos hin, haddr, h.cell _ (by omega)]
      · rw [if_neg (by omega), if_neg hin]
        split <;> split <;> first | rfl | omega

end Linux011.Tty
