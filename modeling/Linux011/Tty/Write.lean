import Linux011.Tty.Screen

/-!
# Two consoles that show the same

Two consoles with as many columns and lines, of any video type and anywhere in memory, are twins while
they have the same terminal state and show the same screen. Each function of the console takes twins to
twins, because what it does to the screen depends on the terminal state only; and so does `con_write`.

A screen without cells shows nothing, and then the terminal state is all there is: it never depends on
origin or memory.
-/

namespace Linux011.Tty

open Lib (add32 sub32 Words)

structure Twins (g g' : Geometry) (s s' : Console) : Prop where
  columns : g'.columns = g.columns
  lines : g'.lines = g.lines
  term : s'.term = s.term
  shows : g.Fits → g'.Fits → ∃ S, Shows g s s.term S ∧ Shows g' s' s.term S

variable {g g' : Geometry} {s s' : Console} {t : Term}

theorem Term.Ok.congr (hc : g'.columns = g.columns) (hl : g'.lines = g.lines) (h : t.Ok g) : t.Ok g' := by
  refine ⟨?_, by rw [hl]; exact h.y, h.top, by rw [hl]; exact h.bottom, h.npar, h.state⟩
  have hx := h.x
  unfold Geometry.reach at hx ⊢
  rw [hc]
  exact hx

/-! ## The terminal state after each function -/

theorem scrup_term : (scrup g s).term = s.term := by
  unfold scrup moveUp
  dsimp only
  split
  · split <;> rfl
  · rfl

theorem gotoxy_term {newX newY : Nat} :
    (gotoxy g newX newY s).term = s.term.goto g.columns g.lines newX newY := by
  unfold gotoxy Term.goto
  split <;> rfl

theorem back_term : (back s).term = { s.term with x := s.term.x - 1 } := by
  unfold back
  split
  · next hx =>
    have : s.term.x - 1 = s.term.x := by omega
    rw [this]
  · rfl

theorem del_term : (del s).term = { s.term with x := s.term.x - 1 } := by
  unfold del
  split
  · next hx =>
    have : s.term.x - 1 = s.term.x := by omega
    rw [this]
  · rfl

theorem lf_term : (lf g s).term = s.term.lf := by
  unfold lf Term.lf
  split
  · rfl
  · exact scrup_term

theorem wrap_term : (wrap g s).term = Term.lf { s.term with x := s.term.x - g.columns } := lf_term

theorem ri_term : (ri g s).term = if s.term.y > s.term.top then { s.term with y := s.term.y - 1 }
    else s.term := by
  unfold ri
  split <;> rfl

theorem tab_term : (tab g s).term = s.term.tab g.columns := by
  unfold tab Term.tab
  dsimp only
  split
  · exact wrap_term
  · rfl

theorem put_term {k : Int} : (put g k s).term = s.term.put g.columns := by
  have hwrap : (if s.term.x ≥ g.columns then wrap g s else s).term = s.term.wrap g.columns := by
    unfold Term.wrap
    split
    · exact wrap_term
    · rfl
  unfold put Term.put
  dsimp only
  rw [hwrap]

theorem erase_term {count start : Nat} : (erase count start s).term = s.term := rfl

theorem csiJ_term {par : Nat} : (csiJ g par s).term = s.term := by
  unfold csiJ
  split
  · exact erase_term
  · split
    · exact erase_term
    · split
      · exact erase_term
      · rfl

theorem csiK_term {par : Nat} : (csiK g par s).term = s.term := by
  unfold csiK
  split
  · split
    · rfl
    · exact erase_term
  · split
    · exact erase_term
    · split
      · exact erase_term
      · rfl

theorem deleteChar_term : (deleteChar g s).term = s.term := by
  unfold deleteChar
  split <;> rfl

namespace Twins

/-! ## Rules -/

/-- What a function does to terminal and screen is said by `F` and `E`. -/
theorem act {f : Geometry → Console → Console} {F : Nat → Nat → Term → Term}
    {E : Nat → Nat → Term → (Nat → Nat) → Nat → Nat} (h : Twins g g' s s')
    (hterm : ∀ g s, (f g s).term = F g.columns g.lines s.term)
    (hshows : ∀ g s S, g.Fits → Shows g s s.term S →
      Shows g (f g s) (F g.columns g.lines s.term) (E g.columns g.lines s.term S)) :
    Twins g g' (f g s) (f g' s') := by
  have heq : (f g' s').term = (f g s).term := by
    rw [hterm, hterm, h.columns, h.lines, h.term]
  refine ⟨h.columns, h.lines, heq, fun G G' => ?_⟩
  obtain ⟨S, hS, hS'⟩ := h.shows G G'
  have hleft := hshows g s S G hS
  have hright := hshows g' s' S G' (h.term ▸ hS')
  rw [← hterm] at hleft hright
  rw [h.columns, h.lines, h.term, heq] at hright
  exact ⟨_, hleft, hright⟩

theorem ok (h : Twins g g' s s') (G : g.Fits) (G' : g'.Fits) : s.term.Ok g :=
  (h.shows G G').elim fun _ hS => hS.1.ok

/-- Only the terminal state changes, and the cursor stays where it is. -/
theorem retermed {u u' : Console} {F : Term → Term} (h : Twins g g' s s')
    (hu : u = { s with term := F s.term }) (hu' : u' = { s' with term := F s'.term })
    (hx : (F s.term).x = s.term.x) (hy : (F s.term).y = s.term.y)
    (hok : g.Fits → g'.Fits → (F s.term).Ok g) : Twins g g' u u' := by
  rw [h.term] at hu'
  subst hu hu'
  refine ⟨h.columns, h.lines, rfl, fun G G' => ?_⟩
  obtain ⟨S, hS, hS'⟩ := h.shows G G'
  have hok' := (hok G G').congr h.columns h.lines
  have hcursor : ∀ g : Geometry, (F s.term).cursor g = s.term.cursor g := fun g => by
    unfold Term.cursor
    rw [hx, hy]
  exact ⟨S, hS.cursor (hok G G') (by rw [hcursor, hS.pos]), hS'.cursor hok' (by rw [hcursor, hS'.pos])⟩

theorem ite {u u' v v' : Console} {p : Prop} [Decidable p] (hu : Twins g g' u u') (hv : Twins g g' v v') :
    Twins g g' (if p then u else v) (if p then u' else v') := by
  split
  · exact hu
  · exact hv

theorem iterate {f f' : Console → Console}
    (hf : ∀ {s s'}, Twins g g' s s' → Twins g g' (f s) (f' s')) (n : Nat) (h : Twins g g' s s') : Twins g g' (f^[n] s) (f'^[n] s') := by
  induction n generalizing s s' with
  | zero => exact h
  | succ n ih => exact ih (hf h)

/-! ## Cursor and scrolling -/

theorem gotoxy (h : Twins g g' s s') (newX newY : Nat) :
    Twins g g' (gotoxy g newX newY s) (gotoxy g' newX newY s') :=
  h.act (f := fun g => Tty.gotoxy g newX newY) (F := fun c l => Term.goto c l newX newY)
    (E := fun _ _ _ S => S)
    (fun _ _ => gotoxy_term) fun _ _ _ G hS => gotoxy_shows G hS newX newY

theorem cr (h : Twins g g' s s') : Twins g g' (cr s) (cr s') :=
  h.act (f := fun _ => Tty.cr) (F := fun _ _ t => { t with x := 0 }) (E := fun _ _ _ S => S)
    (fun _ _ => rfl)
    fun _ _ _ G hS => cr_shows G hS

theorem back (h : Twins g g' s s') : Twins g g' (back s) (back s') :=
  h.act (f := fun _ => Tty.back) (F := fun _ _ t => { t with x := t.x - 1 }) (E := fun _ _ _ S => S)
    (fun _ _ => back_term) fun _ _ _ G hS => back_shows G hS

theorem del (h : Twins g g' s s') : Twins g g' (del s) (del s') :=
  h.act (f := fun _ => Tty.del) (F := fun _ _ t => { t with x := t.x - 1 })
    (E := fun c _ t S => if t.x = 0 then S else Function.update S (t.y * c + t.x - 1) eraseChar)
    (fun _ _ => del_term) fun _ _ _ G hS => del_shows G hS

theorem lf (h : Twins g g' s s') : Twins g g' (lf g s) (lf g' s') :=
  h.act (F := fun _ _ => Term.lf) (E := fun c _ => lined c) (fun _ _ => lf_term)
    fun _ _ _ G hS => lf_shows G hS

theorem ri (h : Twins g g' s s') : Twins g g' (ri g s) (ri g' s') :=
  h.act (F := fun _ _ t => if t.y > t.top then { t with y := t.y - 1 } else t)
    (E := fun c _ t S => if t.y > t.top then S else movedDown c (t.top * c) (t.bottom * c) S)
    (fun _ _ => ri_term) fun _ _ _ G hS => ri_shows G hS

theorem scrup (h : Twins g g' s s') : Twins g g' (scrup g s) (scrup g' s') :=
  h.act (F := fun _ _ t => t) (E := fun c _ t => movedUp c (t.top * c) (t.bottom * c))
    (fun _ _ => scrup_term)
    fun _ _ _ G hS => scrup_shows G hS

theorem scrdown (h : Twins g g' s s') : Twins g g' (scrdown g s) (scrdown g' s') :=
  h.act (F := fun _ _ t => t) (E := fun c _ t => movedDown c (t.top * c) (t.bottom * c)) (fun _ _ => rfl)
    fun _ _ _ G hS => scrdown_shows G hS

theorem tab (h : Twins g g' s s') : Twins g g' (tab g s) (tab g' s') :=
  h.act (F := fun c _ => Term.tab c) (E := fun c _ => tabbed c) (fun _ _ => tab_term)
    fun _ _ _ G hS => tab_shows G hS

theorem put (h : Twins g g' s s') (k : Int) : Twins g g' (put g k s) (put g' k s') :=
  h.act (f := fun g => Tty.put g k) (F := fun c _ => Term.put c) (E := fun c _ => written c k)
    (fun _ _ => put_term)
    fun _ _ _ G hS => put_shows G hS k

/-! ## Erasing, inserting and deleting -/

theorem csiJ (h : Twins g g' s s') (par : Nat) : Twins g g' (csiJ g par s) (csiJ g' par s') :=
  h.act (f := fun g => Tty.csiJ g par) (F := fun _ _ t => t) (E := fun c l => erasedJ c l par)
    (fun _ _ => csiJ_term) fun _ _ _ G hS => csiJ_shows G hS par

theorem csiK (h : Twins g g' s s') (par : Nat) : Twins g g' (csiK g par s) (csiK g' par s') :=
  h.act (f := fun g => Tty.csiK g par) (F := fun _ _ t => t) (E := fun c _ => erasedK c par)
    (fun _ _ => csiK_term) fun _ _ _ G hS => csiK_shows G hS par

theorem insertChar (h : Twins g g' s s') : Twins g g' (insertChar g s) (insertChar g' s') :=
  h.act (F := fun _ _ t => t) (E := fun c _ t => inserted (t.y * c + t.x) (c - t.x)) (fun _ _ => rfl)
    fun _ _ _ G hS => insertChar_shows G hS

theorem deleteChar (h : Twins g g' s s') : Twins g g' (deleteChar g s) (deleteChar g' s') :=
  h.act (F := fun _ _ t => t)
    (E := fun c _ t S => if t.x ≥ c then S else deleted (t.y * c + t.x) (c - t.x - 1) S)
    (fun _ _ => deleteChar_term) fun _ _ _ G hS => deleteChar_shows G hS

/-- The margins are back afterwards, and `f` does not move the cursor. -/
theorem belowCursor {f : Geometry → Console → Console} (h : Twins g g' s s')
    (hf : ∀ {s s'}, Twins g g' s s' → Twins g g' (f g s) (f g' s'))
    (hterm : ∀ {s}, (f g s).term = s.term) :
    Twins g g' (belowCursor g (f g) s) (belowCursor g' (f g') s') := by
  have hmargins : Twins g g' { s with term := { s.term with top := s.term.y, bottom := g.lines } }
      { s' with term := { s'.term with top := s'.term.y, bottom := g'.lines } } := by
    rw [h.lines]
    refine h.retermed (F := fun t => { t with top := t.y, bottom := g.lines })
      rfl rfl rfl rfl fun G G' => ?_
    have hok := h.ok G G'
    exact ⟨hok.x, hok.y, hok.y, Nat.le_refl _, hok.npar, hok.state⟩
  refine (hf hmargins).retermed (F := fun t => { t with top := s.term.top, bottom := s.term.bottom })
    rfl ?_ rfl rfl
    fun G G' => ?_
  · unfold Tty.belowCursor
    rw [h.term]
  · have hok := h.ok G G'
    rw [hterm]
    exact ⟨hok.x, hok.y, hok.top, hok.bottom, hok.npar, hok.state⟩

theorem insertLine (h : Twins g g' s s') : Twins g g' (insertLine g s) (insertLine g' s') :=
  h.belowCursor Twins.scrdown rfl

theorem deleteLine (h : Twins g g' s s') : Twins g g' (deleteLine g s) (deleteLine g' s') :=
  h.belowCursor Twins.scrup scrup_term

theorem times {f f' : Console → Console} (hf : ∀ {s s'}, Twins g g' s s' → Twins g g' (f s) (f' s'))
    (most nr : Nat) (h : Twins g g' s s') : Twins g g' (times most nr f s) (times most nr f' s') :=
  iterate hf _ h

theorem csiAt (h : Twins g g' s s') (nr : Nat) : Twins g g' (csiAt g nr s) (csiAt g' nr s') := by
  unfold Tty.csiAt
  rw [h.columns]
  exact times Twins.insertChar _ _ h

theorem csiL (h : Twins g g' s s') (nr : Nat) : Twins g g' (csiL g nr s) (csiL g' nr s') := by
  unfold Tty.csiL
  rw [h.lines]
  exact times Twins.insertLine _ _ h

theorem csiP (h : Twins g g' s s') (nr : Nat) : Twins g g' (csiP g nr s) (csiP g' nr s') := by
  unfold Tty.csiP
  rw [h.columns]
  exact times Twins.deleteChar _ _ h

theorem csiM (h : Twins g g' s s') (nr : Nat) : Twins g g' (csiM g nr s) (csiM g' nr s') := by
  unfold Tty.csiM
  rw [h.lines]
  exact times Twins.deleteLine _ _ h

/-! ## Parser -/

theorem setState (h : Twins g g' s s') {n : Nat} (hn : n < 4) :
    Twins g g' (setState n s) (setState n s') := by
  refine h.retermed (F := fun t => { t with state := n }) rfl rfl rfl rfl fun G G' => ?_
  have hok := h.ok G G'
  exact ⟨hok.x, hok.y, hok.top, hok.bottom, hok.npar, hn⟩

theorem setPar (h : Twins g g' s s') (i v : Nat) : Twins g g' (setPar i v s) (setPar i v s') := by
  refine h.retermed (F := fun t => { t with par := Function.update t.par i v })
    rfl rfl rfl rfl fun G G' => ?_
  have hok := h.ok G G'
  exact ⟨hok.x, hok.y, hok.top, hok.bottom, hok.npar, hok.state⟩

theorem saveCur (h : Twins g g' s s') : Twins g g' (saveCur s) (saveCur s') := by
  refine h.retermed (F := fun t => { t with savedX := t.x, savedY := t.y }) rfl rfl rfl rfl fun G G' => ?_
  have hok := h.ok G G'
  exact ⟨hok.x, hok.y, hok.top, hok.bottom, hok.npar, hok.state⟩

theorem restoreCur (h : Twins g g' s s') : Twins g g' (restoreCur g s) (restoreCur g' s') := by
  unfold Tty.restoreCur
  rw [h.term]
  exact h.gotoxy _ _

theorem csim (h : Twins g g' s s') : Twins g g' (csim s) (csim s') := by
  refine h.retermed (F := fun t => { t with
    attr := (List.range (t.npar + 1)).foldl (fun attr i => attrOf (t.par i) attr) t.attr })
      rfl rfl rfl rfl
    fun G G' => ?_
  have hok := h.ok G G'
  exact ⟨hok.x, hok.y, hok.top, hok.bottom, hok.npar, hok.state⟩

theorem one (h : Twins g g' s s') : Twins g g' (one s) (one s') := by
  unfold Tty.one
  rw [h.term]
  split
  · exact h.setPar 0 1
  · exact h

theorem less (h : Twins g g' s s') (i : Nat) : Twins g g' (less i s) (less i s') := by
  unfold Tty.less
  rw [h.term]
  split
  · exact h
  · exact h.setPar i _

theorem goto (h : Twins g g' s s') (newX newY : Term → Nat) :
    Twins g g' (goto g newX newY s) (goto g' newX newY s') := by
  unfold Tty.goto
  rw [h.term]
  exact h.gotoxy _ _

theorem margins (h : Twins g g' s s') : Twins g g' (margins g s) (margins g' s') := by
  unfold Tty.margins
  dsimp only
  rw [h.lines]
  have hless := h.less 0
  have hset : Twins g g'
      (if (Tty.less 0 s).term.par 1 = 0 then Tty.setPar 1 g.lines (Tty.less 0 s) else Tty.less 0 s)
      (if (Tty.less 0 s').term.par 1 = 0 then Tty.setPar 1 g.lines (Tty.less 0 s')
        else Tty.less 0 s') := by
    rw [hless.term]
    split
    · exact hless.setPar 1 _
    · exact hless
  revert hset
  generalize (if (Tty.less 0 s).term.par 1 = 0 then _ else _) = u
  generalize (if (Tty.less 0 s').term.par 1 = 0 then _ else _) = u'
  intro hset
  rw [hset.term]
  split
  · next hin =>
    refine hset.retermed (F := fun t => { t with top := t.par 0, bottom := t.par 1 })
      rfl (by rw [hset.term]) rfl rfl
      fun G G' => ?_
    have hok := hset.ok G G'
    exact ⟨hok.x, hok.y, hin.1, hin.2, hok.npar, hok.state⟩
  · exact hset

theorem plain (h : Twins g g' s s') (eraseKey : Nat) (c : Int) :
    Twins g g' (plain g eraseKey c s) (plain g' eraseKey c s') := by
  unfold Tty.plain
  refine ite (h.put c) ?_
  refine ite (h.setState (by decide)) ?_
  refine ite h.lf ?_
  refine ite h.cr ?_
  refine ite h.del ?_
  refine ite h.back ?_
  refine ite h.tab ?_
  exact h

theorem escape (h : Twins g g' s s') (c : Int) : Twins g g' (escape g c s) (escape g' c s') := by
  have hstate := h.setState (show 0 < 4 by decide)
  unfold Tty.escape
  dsimp only
  rw [hstate.term]
  refine ite (hstate.setState (by decide)) ?_
  refine ite (hstate.gotoxy _ _) ?_
  refine ite hstate.ri ?_
  refine ite hstate.lf ?_
  refine ite hstate ?_
  refine ite hstate.saveCur ?_
  refine ite hstate.restoreCur ?_
  exact hstate

theorem final (h : Twins g g' s s') (c : Int) : Twins g g' (final g c s) (final g' c s') := by
  have hstate := h.setState (show 0 < 4 by decide)
  unfold Tty.final
  dsimp only
  rw [hstate.term]
  refine ite ((hstate.less 0).goto _ _) ?_
  refine ite (hstate.one.goto _ _) ?_
  refine ite (hstate.one.goto _ _) ?_
  refine ite (hstate.one.goto _ _) ?_
  refine ite (hstate.one.goto _ _) ?_
  refine ite (hstate.one.goto _ _) ?_
  refine ite (hstate.one.goto _ _) ?_
  refine ite ((hstate.less 0).goto _ _) ?_
  refine ite (((hstate.less 0).less 1).goto _ _) ?_
  refine ite (hstate.csiJ _) ?_
  refine ite (hstate.csiK _) ?_
  refine ite (hstate.csiL _) ?_
  refine ite (hstate.csiM _) ?_
  refine ite (hstate.csiP _) ?_
  refine ite (hstate.csiAt _) ?_
  refine ite hstate.csim ?_
  refine ite hstate.margins ?_
  refine ite hstate.saveCur ?_
  refine ite hstate.restoreCur ?_
  exact hstate

theorem params (h : Twins g g' s s') (c : Int) : Twins g g' (params g c s) (params g' c s') := by
  unfold Tty.params
  rw [h.term]
  split
  · next hnext =>
    refine h.retermed (F := fun t => { t with npar := t.npar + 1 }) rfl (by rw [h.term])
      rfl rfl fun G G' => ?_
    have hok := h.ok G G'
    have hnpar : s.term.npar + 1 < nPar := by omega
    exact ⟨hok.x, hok.y, hok.top, hok.bottom, hnpar, hok.state⟩
  · exact ite (h.setPar _ _) (h.final c)

theorem clear (h : Twins g g' s s') (c : Int) : Twins g g' (clear g c s) (clear g' c s') := by
  have hclear : Twins g g'
      { s with term := { s.term with
        par := fun i => if i < nPar then 0 else s.term.par i
        npar := 0
        state := 3
        ques := c = code '?' } }
      { s' with term := { s'.term with
        par := fun i => if i < nPar then 0 else s'.term.par i
        npar := 0
        state := 3
        ques := c = code '?' } } := by
    refine h.retermed (F := fun t => { t with
      par := fun i => if i < nPar then 0 else t.par i
      npar := 0
      state := 3
      ques := c = code '?' }) rfl rfl rfl rfl fun G G' => ?_
    have hok := h.ok G G'
    exact ⟨hok.x, hok.y, hok.top, hok.bottom, show 0 < nPar by decide, show 3 < 4 by decide⟩
  unfold Tty.clear
  dsimp only
  split
  · exact hclear
  · exact hclear.params c

/-! ## Characters -/

/-- One character. -/
theorem conChar (h : Twins g g' s s') (eraseKey : Nat) (c : Int) :
    Twins g g' (conChar g eraseKey c s) (conChar g' eraseKey c s') := by
  unfold Tty.conChar
  rw [h.term]
  refine ite (h.plain eraseKey c) ?_
  refine ite (h.escape c) ?_
  refine ite (h.clear c) ?_
  refine ite (h.params c) ?_
  refine ite (h.final c) ?_
  exact h

theorem conWrite (h : Twins g g' s s') (input : List (Nat × Int)) :
    Twins g g' (conWrite g input s) (conWrite g' input s') := by
  induction input generalizing s s' with
  | nil => exact h
  | cons k input ih => exact ih (h.conChar k.1 k.2)

end Twins

/-! ## The invariant -/

/-- The screen fits into video memory and has an even number of columns. -/
structure Geometry.InMemory (g : Geometry) : Prop where
  even : g.columns % 2 = 0
  fits : g.memStart + g.lines * g.sizeRow ≤ g.memEnd
  high : g.memEnd ≤ 2 ^ 20

structure InOrder (g : Geometry) (s : Console) : Prop where
  x : s.term.x ≤ g.reach
  y : s.term.y < g.lines
  pos : s.pos = s.origin + s.term.y * g.sizeRow + 2 * s.term.x
  scrEnd : s.scrEnd = s.origin + g.lines * g.sizeRow
  low : g.memStart ≤ s.origin
  high : s.scrEnd ≤ g.memEnd
  top : s.term.top < s.term.bottom
  bottom : s.term.bottom ≤ g.lines
  npar : s.term.npar < nPar
  state : s.term.state < 4
  range : s.mem.low = g.memStart ∧ s.mem.high = g.memEnd
  inside : 4 ≤ g.columns → s.mem.strayed = false

/-- Cell `i` of the visible screen. -/
def Console.visible (s : Console) (i : Nat) : Nat := s.mem.word (s.origin + 2 * i)

theorem InOrder.shows (h : InOrder g s) : Shows g s s.term s.visible := by
  refine ⟨rfl, ⟨h.x, h.y, h.top, h.bottom, h.npar, h.state⟩, ?_, ?_, h.low, h.high, h.range, h.inside,
    fun _ _ => rfl⟩
  · rw [h.pos, sizeRow_mul]
    unfold Term.cursor
    omega
  · rw [h.scrEnd, sizeRow_mul]
    rfl

theorem Shows.inOrder {S : Nat → Nat} (h : Shows g s t S) : InOrder g s := by
  obtain rfl := h.term
  refine ⟨h.ok.x, h.ok.y, ?_, ?_, h.low, h.high, h.ok.top, h.ok.bottom, h.ok.npar, h.ok.state,
    h.range, h.inside⟩
  · rw [h.pos, sizeRow_mul]
    unfold Term.cursor
    omega
  · rw [h.scrEnd, sizeRow_mul]
    rfl

theorem Geometry.InMemory.toFits (h : g.InMemory) (hwide : 2 ≤ g.columns)
    (hlines : 0 < g.lines) : g.Fits :=
  ⟨h.even, hwide, hlines, h.fits, h.high⟩

theorem InOrder.twins {g' : Geometry} {s' : Console} (h : InOrder g s) (h' : InOrder g' s')
    (hcolumns : g'.columns = g.columns) (hlines : g'.lines = g.lines) (hterm : s'.term = s.term)
    (hcell : ∀ i < g.size, s'.visible i = s.visible i) : Twins g g' s s' := by
  refine ⟨hcolumns, hlines, hterm, fun G G' => ⟨s.visible, h.shows, ?_⟩⟩
  have hshows := h'.shows
  have hsize : g'.size = g.size := by
    unfold Geometry.size
    rw [hcolumns, hlines]
  exact ⟨hterm, hterm ▸ hshows.ok, by rw [← hterm]; exact hshows.pos, hshows.scrEnd, hshows.low,
    hshows.high,
    hshows.range, hshows.inside, fun i hi => hcell i (hsize ▸ hi)⟩

theorem conWrite_inOrder (hg : g.InMemory) (hwide : 2 ≤ g.columns) (h : InOrder g s)
    (input : List (Nat × Int)) :
    InOrder g (conWrite g input s) := by
  have G := hg.toFits hwide (Nat.zero_lt_of_lt h.y)
  obtain ⟨S, hS, -⟩ := ((h.twins h rfl rfl rfl fun _ _ => rfl).conWrite input).shows G G
  exact hS.inOrder

/-! ## From `con_init` on -/

theorem describe_range {desc : List Char} {p : Nat} {m : Words Nat} :
    (describe desc p m).low = m.low ∧ (describe desc p m).high = m.high := by
  induction desc generalizing p m with
  | nil => exact ⟨rfl, rfl⟩
  | cons c desc ih => exact ih

theorem describe_inside {desc : List Char} {p : Nat} {m : Words Nat} (hlow : m.low ≤ p)
    (hhigh : p + 2 * desc.length ≤ m.high) (hmax : m.high < 2 ^ 32) :
    (describe desc p m).strayed = m.strayed := by
  induction desc generalizing p m with
  | nil => rfl
  | cons c desc ih =>
    rw [List.length_cons] at hhigh
    have hnext : add32 p 2 = p + 2 := Lib.add32_eq (by omega)
    unfold describe
    rw [hnext, ih (m := m.store p _) (by show m.low ≤ _; omega) (by show _ ≤ m.high; omega) hmax,
      Words.store_inside hlow (by omega)]

theorem Bios.found_cases (b : Bios) : b.geometry.columns = b.columns ∧ b.geometry.lines = 25 ∧
    0xb0000 ≤ b.geometry.memStart ∧ b.geometry.memEnd ≤ 2 ^ 20 ∧ b.found.2.length = 4 := by
  have hegam : 0xb8000 ≤ 2 ^ 20 := by decide
  have hmda : 0xb2000 ≤ 2 ^ 20 := by decide
  have hegac : 0xbc000 ≤ 2 ^ 20 := by decide
  have hcga : 0xba000 ≤ 2 ^ 20 := by decide
  have hstart : 0xb0000 ≤ 0xb8000 := by decide
  unfold Bios.geometry Bios.found
  split
  · split
    · exact ⟨rfl, rfl, Nat.le_refl _, hegam, rfl⟩
    · exact ⟨rfl, rfl, Nat.le_refl _, hmda, rfl⟩
  · split
    · exact ⟨rfl, rfl, hstart, hegac, rfl⟩
    · exact ⟨rfl, rfl, hstart, hcga, rfl⟩

theorem conInit_inOrder (b : Bios) (word : Nat → Nat) (heven : b.columns % 2 = 0)
    (hfits : b.geometry.memStart + 25 * (b.columns * 2) ≤ b.geometry.memEnd) (hx : b.x ≤ b.columns)
    (hy : b.y < 25) : b.geometry.InMemory ∧ InOrder b.geometry (conInit b word) := by
  obtain ⟨hcolumns, hlines, hstart, hmax, hdesc⟩ := b.found_cases
  have hrow : b.geometry.sizeRow = b.columns * 2 := by
    unfold Geometry.sizeRow
    rw [hcolumns]
  rw [← hrow, ← hlines] at hfits
  have hreach : b.x ≤ b.geometry.reach := by
    unfold Geometry.reach
    split <;> omega
  refine ⟨⟨by rw [hcolumns]; exact heven, hfits, hmax⟩, ?_⟩
  unfold conInit gotoxy
  rw [if_neg (by omega)]
  rw [hlines] at hfits
  have hcells : b.y * b.geometry.sizeRow ≤ 24 * b.geometry.sizeRow := Nat.mul_le_mul_right _ (by omega)
  refine ⟨hreach, by rw [hlines]; exact hy, ?_, rfl, Nat.le_refl _, ?_,
    by show 0 < b.geometry.lines; omega, Nat.le_refl _,
    show 0 < nPar by decide, show 0 < 4 by decide, describe_range, fun hwide => ?_⟩
  · dsimp only
    rw [Lib.add32_eq (a := b.geometry.memStart) (by omega), Lib.add32_eq (by omega)]
  · dsimp only
    rw [hlines]
    exact hfits
  · refine describe_inside ?_ ?_ ?_
    · dsimp only
      rw [Lib.sub32_eq (by omega) (by omega)]
      omega
    · dsimp only
      rw [hdesc, Lib.sub32_eq (by omega) (by omega)]
      omega
    · dsimp only
      omega

/-- The console stays in order, whatever is written. -/
theorem written_inOrder (b : Bios) (word : Nat → Nat) (heven : b.columns % 2 = 0) (hwide : 2 ≤ b.columns)
    (hfits : b.geometry.memStart + 25 * (b.columns * 2) ≤ b.geometry.memEnd) (hx : b.x ≤ b.columns)
    (hy : b.y < 25) (input : List (Nat × Int)) :
    InOrder b.geometry (conWrite b.geometry input (conInit b word)) := by
  obtain ⟨hg, hinit⟩ := conInit_inOrder b word heven hfits hx hy
  exact conWrite_inOrder hg (by rw [b.found_cases.1]; exact hwide) hinit input

/-- A text, a tab and an unfinished escape sequence on a colour EGA. -/
theorem written_inOrder_ega : InOrder (Bios.geometry ⟨79, 24, 3, 80, 0⟩)
    (conWrite (Bios.geometry ⟨79, 24, 3, 80, 0⟩) [(127, 65), (127, 66), (127, 9), (127, 27), (127, 91)]
      (conInit ⟨79, 24, 3, 80, 0⟩ fun _ => 0)) :=
  written_inOrder ⟨79, 24, 3, 80, 0⟩ _ (by decide) (by decide) (by decide) (by decide) (by decide) _

/-- With two columns, a tab goes to column 6: one line down is not enough. -/
theorem tab_two_columns :
    let b : Bios := ⟨0, 0, 3, 2, 0⟩
    b.columns % 2 = 0 ∧ b.geometry.memStart + 25 * (b.columns * 2) ≤ b.geometry.memEnd ∧
      ¬ (conWrite b.geometry [(127, 9)] (conInit b fun _ => 0)).term.x ≤ b.geometry.columns := by
  decide

/-! ## One screen for all video types -/

/-- What is shown depends on the screen before and on the characters only. -/
theorem conWrite_same_screen {g' : Geometry} {s' : Console} (hg : g.InMemory) (hg' : g'.InMemory)
    (hcolumns : g'.columns = g.columns) (hlines : g'.lines = g.lines) (h : InOrder g s)
      (h' : InOrder g' s')
    (hterm : s'.term = s.term) (hcell : ∀ i < g.size, s'.visible i = s.visible i)
      (input : List (Nat × Int)) :
    (conWrite g' input s').term = (conWrite g input s).term ∧
      ∀ i < g.size, (conWrite g' input s').visible i = (conWrite g input s).visible i := by
  have htwins := (h.twins h' hcolumns hlines hterm hcell).conWrite input
  refine ⟨htwins.term, fun i hi => ?_⟩
  have hl : 0 < g.lines := Nat.zero_lt_of_lt h.y
  have hwide : 2 ≤ g.columns := by
    have heven := hg.even
    have hpos : g.columns ≠ 0 := fun h0 => by
      unfold Geometry.size at hi
      rw [h0, Nat.mul_zero] at hi
      exact Nat.not_lt_zero _ hi
    omega
  obtain ⟨S, hS, hS'⟩ := htwins.shows (hg.toFits hwide hl)
    (hg'.toFits (by rw [hcolumns]; exact hwide) (by rw [hlines]; exact hl))
  have hsize : g'.size = g.size := by
    unfold Geometry.size
    rw [hcolumns, hlines]
  exact (hS'.cell i (hsize ▸ hi)).trans (hS.cell i hi).symm

/-- An empty screen at the start of video memory. -/
def cleared (g : Geometry) : Console :=
  { term := .initial g.lines
    origin := g.memStart
    scrEnd := g.memStart + g.lines * g.sizeRow
    pos := g.memStart
    mem := ⟨fun _ => eraseChar, g.memStart, g.memEnd, false⟩ }

theorem cleared_inOrder (hg : g.InMemory) (hl : 0 < g.lines) : InOrder g (cleared g) :=
  ⟨Nat.zero_le _, hl, by unfold cleared Term.initial; dsimp only; omega, rfl, Nat.le_refl _, hg.fits,
    hl, Nat.le_refl _,
    show 0 < nPar by decide, show 0 < 4 by decide, ⟨rfl, rfl⟩, fun _ => rfl⟩

/-- A colour EGA and a CGA, after many lines. -/
theorem conWrite_same_screen_cga :
    (conWrite ⟨.cga, 80, 25, 0xb8000, 0xba000⟩ (List.replicate 200 (127, 10))
      (cleared ⟨.cga, 80, 25, 0xb8000, 0xba000⟩)).term =
      (conWrite ⟨.egac, 80, 25, 0xb8000, 0xbc000⟩ (List.replicate 200 (127, 10))
        (cleared ⟨.egac, 80, 25, 0xb8000, 0xbc000⟩)).term := by
  have hg : Geometry.InMemory ⟨.egac, 80, 25, 0xb8000, 0xbc000⟩ := ⟨by decide, by decide, by decide⟩
  have hg' : Geometry.InMemory ⟨.cga, 80, 25, 0xb8000, 0xba000⟩ := ⟨by decide, by decide, by decide⟩
  exact (conWrite_same_screen hg hg' rfl rfl (cleared_inOrder hg (by decide))
    (cleared_inOrder hg' (by decide)) rfl
    (fun _ _ => rfl) _).1

end Linux011.Tty
