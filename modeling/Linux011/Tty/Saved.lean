import Linux011.Tty.Console

/-!
# Saving and restoring the cursor

`CSI s` and `CSI u` save and restore the cursor, and `ESC 7` and `ESC 8` should do the same. But the tests
for `7` and `8` are on the column: after any ESC, a character that `con_write` knows nothing else for saves
the cursor in column 55 and restores it in column 56, and does nothing elsewhere.

`par`, `npar` and `ques` are not compared when the parser is idle: the next `CSI` sets them before they are
read.
-/

namespace Linux011.Tty

open Lib (add32)

variable (g : Geometry) (eraseKey : Nat)

/-- The characters one by one, with one erase key. -/
def send (w : List Int) (s : Console) : Console := conWrite g (w.map fun c => (eraseKey, c)) s

/-- A console without the variables of the parser. -/
def Console.forget (s : Console) : Console :=
  { s with term := { s.term with par := fun _ => 0, npar := 0, ques := false } }

def esc : Int := 27

/-! ## What is asked for -/

/-- No character of `w` is at the end of `ESC 7` or of `CSI s`. -/
def NoSave (w : List Int) (s : Console) : Prop :=
  ∀ w₁ c w₂, w = w₁ ++ c :: w₂ →
    ((send g eraseKey w₁ s).term.state = 1 → c ≠ code '7') ∧
    (2 ≤ (send g eraseKey w₁ s).term.state → c ≠ code 's')

/-- `ESC 7` is `CSI s`. -/
def SavesAlike (s : Console) : Prop :=
  (send g eraseKey [esc, code '7'] s).forget = (send g eraseKey [esc, code '[', code 's'] s).forget

/-- `ESC 8` is `CSI u`. -/
def RestoresAlike (s : Console) : Prop :=
  (send g eraseKey [esc, code '8'] s).forget = (send g eraseKey [esc, code '[', code 'u'] s).forget

/-- `ESC 8` brings the cursor back to where it was at `ESC 7`. -/
def BringsBack (s : Console) : Prop :=
  ∀ w, NoSave g eraseKey w (send g eraseKey [esc, code '7'] s) →
    (send g eraseKey ([esc, code '7'] ++ w) s).term.state = 0 →
    (send g eraseKey ([esc, code '7'] ++ w ++ [esc, code '8']) s).term.x = s.term.x ∧
    (send g eraseKey ([esc, code '7'] ++ w ++ [esc, code '8']) s).term.y = s.term.y

/-- No other sequence of two characters saves. -/
def OthersKeep (s : Console) : Prop :=
  ∀ c, c ≠ code '7' → (send g eraseKey [esc, c] s).term.savedX = s.term.savedX ∧
    (send g eraseKey [esc, c] s).term.savedY = s.term.savedY

/-! ## What the sequences do -/

variable {g eraseKey} {s : Console}

theorem send_append (w w' : List Int) (s : Console) :
    send g eraseKey (w ++ w') s = send g eraseKey w' (send g eraseKey w s) := by
  simp [send, conWrite, List.foldl_append]

theorem setState_zero (h : s.term.state = 0) : setState 0 s = s := by
  unfold setState
  rw [← h]

theorem send_esc (h : s.term.state = 0) (c : Int) :
    send g eraseKey [esc, c] s = escape g c (setState 1 s) := by
  simp [send, conWrite, conChar, h, plain, esc, setState]

/-- A character that is none of the five known ones. -/
theorem send_unknown (h : s.term.state = 0) {c : Int} (hc : c ≠ code '[' ∧ c ≠ code 'E' ∧ c ≠ code 'M' ∧
    c ≠ code 'D' ∧ c ≠ code 'Z') : send g eraseKey [esc, c] s =
      if s.term.x = 55 then saveCur s else if s.term.x = 56 then restoreCur g s else s := by
  obtain ⟨h1, h2, h3, h4, h5⟩ := hc
  have hstate : setState 0 (setState 1 s) = s := setState_zero h
  have h7 : (s.term.x : Int) = code '7' ↔ s.term.x = 55 := by
    rw [code]
    exact Int.ofNat_inj
  have h8 : (s.term.x : Int) = code '8' ↔ s.term.x = 56 := by
    rw [code]
    exact Int.ofNat_inj
  rw [send_esc h]
  simp only [escape, hstate, if_neg h1, if_neg h2, if_neg h3, if_neg h4, if_neg h5, h7, h8]

theorem unknown_seven : code '7' ≠ code '[' ∧ code '7' ≠ code 'E' ∧ code '7' ≠ code 'M' ∧
    code '7' ≠ code 'D' ∧ code '7' ≠ code 'Z' := by decide

theorem unknown_eight : code '8' ≠ code '[' ∧ code '8' ≠ code 'E' ∧ code '8' ≠ code 'M' ∧
    code '8' ≠ code 'D' ∧ code '8' ≠ code 'Z' := by decide

/-- The console when the parameters of `CSI` are empty. -/
def noParams (s : Console) : Console :=
  { s with term :=
      { s.term with par := fun i => if i < nPar then 0 else s.term.par i, npar := 0, ques := false } }

theorem send_csi_s (h : s.term.state = 0) :
    send g eraseKey [esc, code '[', code 's'] s = saveCur (noParams s) := by
  have hstate : setState 0 (noParams s) = noParams s := setState_zero h
  simp [send, conWrite, conChar, h, plain, esc, setState, escape, clear, params, final, noParams, saveCur,
    code]

theorem send_csi_u (h : s.term.state = 0) :
    send g eraseKey [esc, code '[', code 'u'] s = restoreCur g (noParams s) := by
  simp [send, conWrite, conChar, h, plain, esc, setState, escape, clear, params, final, noParams, saveCur,
    code]

/-! ## The parser is forgotten -/

@[simp] theorem forget_noParams (s : Console) : (noParams s).forget = s.forget := rfl
@[simp] theorem forget_save (s : Console) : (saveCur s).forget = saveCur s.forget := rfl

@[simp] theorem forget_restore (s : Console) : (restoreCur g s).forget = restoreCur g s.forget := by
  unfold restoreCur gotoxy
  by_cases h : s.term.savedX > g.columns ∨ s.term.savedY ≥ g.lines
  · exact (congrArg Console.forget (if_pos h)).trans (if_pos h).symm
  · exact (congrArg Console.forget (if_neg h)).trans (if_neg h).symm

/-- The saved position is that of the cursor. -/
def Console.Saved (s : Console) : Prop := s.term.savedX = s.term.x ∧ s.term.savedY = s.term.y

/-- The saved position is not on the screen, or it is that of the cursor and `pos` agrees with it. -/
def Console.Unmoved (g : Geometry) (s : Console) : Prop :=
  s.term.savedX > g.columns ∨ s.term.savedY ≥ g.lines ∨
    s.Saved ∧ s.pos = add32 (add32 s.origin (s.term.savedY * g.sizeRow)) (2 * s.term.savedX)

theorem save_eq_self : saveCur s = s ↔ s.Saved := by
  constructor
  · intro h
    have hx : s.term.x = s.term.savedX := congrArg (·.term.savedX) h
    have hy : s.term.y = s.term.savedY := congrArg (·.term.savedY) h
    exact ⟨hx.symm, hy.symm⟩
  · rintro ⟨hx, hy⟩
    unfold saveCur
    rw [← hx, ← hy]

theorem restore_eq_self : restoreCur g s = s ↔ s.Unmoved g := by
  unfold restoreCur gotoxy Console.Unmoved Console.Saved
  by_cases hx : s.term.savedX > g.columns
  · simp [hx]
  · by_cases hy : s.term.savedY ≥ g.lines
    · simp [hy]
    · have hno : ¬ (s.term.savedX > g.columns ∨ s.term.savedY ≥ g.lines) :=
        not_or.mpr ⟨hx, hy⟩
      rw [if_neg hno]
      constructor
      · intro h
        have hx' : s.term.savedX = s.term.x := congrArg (·.term.x) h
        have hy' : s.term.savedY = s.term.y := congrArg (·.term.y) h
        exact .inr (.inr ⟨⟨hx', hy'⟩, (congrArg (·.pos) h).symm⟩)
      · rintro (h | h | ⟨⟨hx', hy'⟩, hpos⟩)
        · exact absurd h hx
        · exact absurd h hy
        · rw [← hpos, hx', hy']

theorem restore_eq_save : restoreCur g s = saveCur s ↔ s.Saved ∧ s.Unmoved g := by
  rw [← save_eq_self, ← restore_eq_self (g := g)]
  constructor
  · intro h
    have hsaved : (restoreCur g s).term.savedX = s.term.savedX ∧
        (restoreCur g s).term.savedY = s.term.savedY := by
      unfold restoreCur gotoxy
      split <;> exact ⟨rfl, rfl⟩
    rw [h] at hsaved
    have hsave : saveCur s = s := save_eq_self.mpr ⟨hsaved.1.symm, hsaved.2.symm⟩
    exact ⟨hsave, h.trans hsave⟩
  · rintro ⟨hsave, hrestore⟩
    rw [hsave, hrestore]

/-! ## When the sequences do what they should -/

theorem savesAlike_iff (h : s.term.state = 0) :
    SavesAlike g eraseKey s ↔ s.term.x = 55 ∨ s.Saved ∧ (s.term.x = 56 → s.Unmoved g) := by
  have hsaved : s.forget.Saved ↔ s.Saved := Iff.rfl
  have hunmoved : s.forget.Unmoved g ↔ s.Unmoved g := Iff.rfl
  unfold SavesAlike
  rw [send_unknown h unknown_seven, send_csi_s h, forget_save, forget_noParams]
  by_cases h55 : s.term.x = 55
  · simp [h55]
  · by_cases h56 : s.term.x = 56
    · simp [h56, restore_eq_save, hsaved, hunmoved]
    · rw [if_neg h55, if_neg h56, eq_comm, save_eq_self, hsaved]
      simp [h55, h56]

theorem restoresAlike_iff (h : s.term.state = 0) :
    RestoresAlike g eraseKey s ↔ s.term.x = 56 ∨ s.Unmoved g ∧ (s.term.x = 55 → s.Saved) := by
  have hsaved : s.forget.Saved ↔ s.Saved := Iff.rfl
  have hunmoved : s.forget.Unmoved g ↔ s.Unmoved g := Iff.rfl
  unfold RestoresAlike
  rw [send_unknown h unknown_eight, send_csi_u h, forget_restore, forget_noParams]
  by_cases h55 : s.term.x = 55
  · rw [if_pos h55, forget_save, eq_comm, restore_eq_save, hsaved, hunmoved]
    simp [h55, and_comm]
  · by_cases h56 : s.term.x = 56
    · simp [h56]
    · rw [if_neg h55, if_neg h56, eq_comm, restore_eq_self, hunmoved]
      simp [h55, h56]

theorem gotoxy_saved (newX newY : Nat) (s : Console) : (gotoxy g newX newY s).term.savedX = s.term.savedX ∧
    (gotoxy g newX newY s).term.savedY = s.term.savedY := by
  unfold gotoxy
  split <;> exact ⟨rfl, rfl⟩

theorem lf_saved (s : Console) : (lf g s).term.savedX = s.term.savedX ∧
    (lf g s).term.savedY = s.term.savedY := by
  unfold lf scrup moveUp
  dsimp only
  split
  · exact ⟨rfl, rfl⟩
  · split
    · split <;> exact ⟨rfl, rfl⟩
    · exact ⟨rfl, rfl⟩

theorem ri_saved (s : Console) : (ri g s).term.savedX = s.term.savedX ∧
    (ri g s).term.savedY = s.term.savedY := by
  unfold ri
  split <;> exact ⟨rfl, rfl⟩

/-- The five characters that `con_write` knows behind an ESC save nothing. -/
theorem known_saved (h : s.term.state = 0) {c : Int} (hc : ¬ (c ≠ code '[' ∧ c ≠ code 'E' ∧ c ≠ code 'M' ∧
    c ≠ code 'D' ∧ c ≠ code 'Z')) : (send g eraseKey [esc, c] s).term.savedX = s.term.savedX ∧
      (send g eraseKey [esc, c] s).term.savedY = s.term.savedY := by
  have hstate : setState 0 (setState 1 s) = s := setState_zero h
  rw [send_esc h]
  unfold escape
  rw [hstate]
  dsimp only
  split
  · exact ⟨rfl, rfl⟩
  · split
    · exact gotoxy_saved _ _ _
    · split
      · exact ri_saved s
      · split
        · exact lf_saved s
        · split
          · exact ⟨rfl, rfl⟩
          · rename_i h1 h2 h3 h4 h5
            exact absurd ⟨h1, h2, h3, h4, h5⟩ hc

theorem othersKeep_iff (h : s.term.state = 0) :
    OthersKeep g eraseKey s ↔ s.term.x ≠ 55 ∨ s.Saved := by
  constructor
  · intro hkeep
    by_cases h55 : s.term.x = 55
    · have hsaves := hkeep (code '8') (by decide)
      rw [send_unknown h unknown_eight, if_pos h55] at hsaves
      exact .inr ⟨hsaves.1.symm, hsaves.2.symm⟩
    · exact .inl h55
  · intro hcond c _
    by_cases hc : c ≠ code '[' ∧ c ≠ code 'E' ∧ c ≠ code 'M' ∧ c ≠ code 'D' ∧ c ≠ code 'Z'
    · rw [send_unknown h hc]
      by_cases h55 : s.term.x = 55
      · have hsaved := hcond.resolve_left (not_not_intro h55)
        rw [if_pos h55, save_eq_self.mpr hsaved]
        exact ⟨rfl, rfl⟩
      · rw [if_neg h55]
        split
        · exact gotoxy_saved _ _ _
        · exact ⟨rfl, rfl⟩
    · exact known_saved h hc

/-! ## The cursor is not brought back -/

theorem noSave_single (h : s.term.state = 0) (c : Int) : NoSave g eraseKey [c] s := by
  intro w₁ c' w₂ heq
  have hnil : w₁ = [] := by
    cases w₁ with
    | nil => rfl
    | cons a w₁ =>
      have hlen := congrArg List.length heq
      simp at hlen
  subst hnil
  have hstate : (send g eraseKey [] s).term.state = 0 := h
  rw [hstate]
  exact ⟨nofun, nofun⟩

theorem send_cr (g : Geometry) (eraseKey : Nat) (h : s.term.state = 0) :
    (send g eraseKey [13] s).term.x = 0 ∧
    (send g eraseKey [13] s).term.state = 0 := by
  simp [send, conWrite, conChar, h, plain, cr]

theorem lf_term_eq (s : Console) : (lf g s).term.x = s.term.x ∧ (lf g s).term.state = s.term.state := by
  unfold lf scrup moveUp
  dsimp only
  split
  · exact ⟨rfl, rfl⟩
  · split
    · split <;> exact ⟨rfl, rfl⟩
    · exact ⟨rfl, rfl⟩

/-- A character in the first column. -/
theorem send_a (g : Geometry) (eraseKey : Nat) (h : s.term.state = 0) (hx : s.term.x = 0) :
    (send g eraseKey [97] s).term.x = 1 ∧
    (send g eraseKey [97] s).term.state = 0 := by
  have hput : send g eraseKey [97] s = put g 97 s := by
    simp [send, conWrite, conChar, h, plain]
  rw [hput]
  unfold put
  dsimp only
  split
  · have hwrap := lf_term_eq (g := g) { s with
      term := { s.term with x := s.term.x - g.columns }
      pos := Lib.sub32 s.pos g.sizeRow }
    refine ⟨?_, hwrap.2.trans h⟩
    rw [wrap, hwrap.1]
    simp [hx, add32]
  · exact ⟨by simp [hx, add32], h⟩

/-- `ESC 8` in the first two columns does nothing. -/
theorem send_escape_eight (h : s.term.state = 0) (hx : s.term.x ≤ 1) :
    send g eraseKey [esc, code '8'] s = s := by
  have h55 : s.term.x ≠ 55 := by omega
  have h56 : s.term.x ≠ 56 := by omega
  rw [send_unknown h unknown_eight, if_neg h55, if_neg h56]

theorem send_escape_seven_state (g : Geometry) (eraseKey : Nat) (h : s.term.state = 0) :
    (send g eraseKey [esc, code '7'] s).term.state = 0 := by
  rw [send_unknown h unknown_seven]
  split
  · exact h
  · split
    · unfold restoreCur gotoxy
      split <;> exact h
    · exact h

theorem not_bringsBack (h : s.term.state = 0) : ¬ BringsBack g eraseKey s := by
  intro hback
  have hseven := send_escape_seven_state g eraseKey h
  by_cases hx : s.term.x = 0
  · have hnothing : send g eraseKey [esc, code '7'] s = s := by
      rw [send_unknown h unknown_seven]
      simp [hx]
    obtain ⟨hone, hstate⟩ := send_a g eraseKey h hx
    have hcursor := (hback [97] (noSave_single hseven 97) (by rw [send_append, hnothing, hstate])).1
    rw [send_append, send_append, hnothing, send_escape_eight hstate (by omega), hone, hx] at hcursor
    cases hcursor
  · obtain ⟨hzero, hstate⟩ := send_cr g eraseKey hseven
    have hcursor := (hback [13] (noSave_single hseven 13) (by rw [send_append, hstate])).1
    rw [send_append, send_append, send_escape_eight hstate (by omega), hzero] at hcursor
    exact hx hcursor.symm

/-! ## Saving and restoring -/

/-- What the two-character sequences should do. -/
structure SavesCursor (g : Geometry) (eraseKey : Nat) (s : Console) : Prop where
  saves : SavesAlike g eraseKey s
  restores : RestoresAlike g eraseKey s
  back : BringsBack g eraseKey s
  others : OthersKeep g eraseKey s

/-- THE SAVED CURSOR. No state has all that the sequences should do: the cursor is never brought back
whatever is written in between. `ESC 7` saves in column 55, `ESC 8` restores in column 56, and the saved
position is kept by the others in every column but 55, or if it is that of the cursor already. -/
theorem saved_cursor (g : Geometry) (eraseKey : Nat) (s : Console) (h : s.term.state = 0) :
    ¬ SavesCursor g eraseKey s ∧ ¬ BringsBack g eraseKey s ∧
      (SavesAlike g eraseKey s ↔ s.term.x = 55 ∨ s.Saved ∧ (s.term.x = 56 → s.Unmoved g)) ∧
      (RestoresAlike g eraseKey s ↔ s.term.x = 56 ∨ s.Unmoved g ∧ (s.term.x = 55 → s.Saved)) ∧
      (OthersKeep g eraseKey s ↔ s.term.x ≠ 55 ∨ s.Saved) :=
  ⟨fun hsaves => not_bringsBack h hsaves.back, not_bringsBack h, savesAlike_iff h, restoresAlike_iff h,
    othersKeep_iff h⟩

/-- A colour display with 80 columns. -/
def colour : Bios := ⟨0, 0, 3, 80, 0⟩

/-- The console after the start. -/
theorem saved_cursor_start : ¬ SavesCursor colour.geometry 127 (conInit colour fun _ => 0) :=
  (saved_cursor colour.geometry 127 (conInit colour fun _ => 0) rfl).1

/-- After the start, a character between `ESC 7` and `ESC 8` leaves the cursor in column 1. -/
theorem cursor_not_brought_back : ¬ ∀ (g : Geometry) (eraseKey : Nat) (s : Console), s.term.state = 0 →
    SavesCursor g eraseKey s := by
  intro h
  have hback := (h colour.geometry 127 (conInit colour fun _ => 0) rfl).back
  exact not_bringsBack rfl hback

end Linux011.Tty
