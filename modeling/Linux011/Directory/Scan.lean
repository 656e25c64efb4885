import Linux011.Directory.Add

/-!
# Scans of a directory with holes

`is_empty_dir` goes on from a hole with the buffer it has released, and releases it a second time, at the
next entry or at the end. With `find_entry` and `add_entry`, each of the three loops has its own kind of
block it does not get past, and has no fault exactly when it comes to its end before the first of them.
-/

namespace Linux011.Directory

open Linux011.Lib

variable {D : Dir} {name : List Byte} {f : Nat → DirEntry} {n i j k : Nat} {c : Cursor}

/-! ## `is_empty_dir` -/

/-- `is_empty_dir` returns at the entry `m`: the entry is used, or its block cannot be read. -/
def EmptyHit (D : Dir) (m : Nat) : Prop :=
  m < D.entries ∧ ((∃ e, D.slot? m = some e ∧ e.inodenr ≠ 0) ∨
    AtBlock (fun k => 1 ≤ k ∧ k < maxBlocks ∧ D.block k = .unreadable) m)

/-- `is_empty_dir` does not get past the block `k`. -/
def EmptyTrap (D : Dir) (k : Nat) : Prop :=
  1 ≤ k ∧ entriesPerBlock * k < D.entries ∧ (maxBlocks ≤ k ∨ D.block k = .hole)

/-- What the loop of `is_empty_dir` makes of the rest of the directory. -/
abbrev EmptyEnds (D : Dir) : Nat → Except Fault (Bool × Cursor) → Prop :=
  Scanned (EmptyHit D) (AtBlock (EmptyTrap D)) (fun _ r => r.1 = false) fun r => r.1 = true

theorem emptyTurn_end : emptyTurn D (entriesPerBlock * k) (.on n entriesPerBlock) =
    if maxBlocks ≤ k then .error .panic
    else
      match D.block k with
      | .data _ => .ok (.ready (.on k 0))
      | .hole => .ok (.skip (.off n entriesPerBlock))
      | .unreadable => .ok (.stop (.off n entriesPerBlock)) := by
  have hd : entriesPerBlock * k / entriesPerBlock = k := Nat.mul_div_cancel_left k (by decide)
  simp only [emptyTurn, on_atEnd, on_brelse, off_bread, hd, bind, Except.bind, Nat.le_refl,
    decide_true, if_true]
  by_cases hk : maxBlocks ≤ k
  · simp [hk, throw, throwThe, MonadExceptOf.throw]
  · cases D.block k <;> simp [hk, pure, Except.pure]

/-- The loop of `is_empty_dir` goes on with a buffer that is released. -/
theorem emptyLoop_off : ∃ e, emptyLoop D D.entries n i (.off k entriesPerBlock) = .error e := by
  cases n with
  | zero => exact ⟨.endless, rfl⟩
  | succ n =>
    refine ⟨.twice, ?_⟩
    by_cases hi : i < D.entries
    · simp [emptyLoop, hi, emptyTurn, off_atEnd, bind, Except.bind]
    · simp [emptyLoop, hi, bind, Except.bind]

/-- The loop of `is_empty_dir` at an entry it can read. -/
theorem emptyLoop_ready (hlt : i < D.entries) (hi : i = entriesPerBlock * k + j)
    (hj : j < entriesPerBlock)
    (hf : D.block k = .data f) (hk : k < maxBlocks) (hturn : emptyTurn D i c = .ok (.ready (.on k j)))
    (ih : EmptyEnds D (i + 1) (emptyLoop D D.entries n (i + 1) (.on k (j + 1)))) :
    EmptyEnds D i (emptyLoop D D.entries (n + 1) i c) := by
  have he : D.slot? i = some (f j) := slot?_on hf hk hi hj
  have hrun : emptyLoop D D.entries (n + 1) i c =
      if (f j).inodenr ≠ 0 then .ok (false, .off k j)
      else emptyLoop D D.entries n (i + 1) (.on k (j + 1)) := by
    simp only [emptyLoop, if_pos hlt, hturn, Except.bind, bind, entry_on hf, pure, Except.pure,
      on_next, on_brelse]
  rw [hrun]
  by_cases hused : (f j).inodenr ≠ 0
  · have hhit : EmptyHit D i := ⟨hlt, .inl ⟨f j, he, hused⟩⟩
    rw [if_pos hused]
    exact .found (First.here (.inl hhit)) hhit rfl
  · rw [if_neg hused]
    subst hi
    refine ih.step ?_ fun hstop => ?_
    · rintro ⟨_, ⟨e, he', hne⟩ | hstop⟩
      · rw [he] at he'
        cases he'
        exact hused hne
      · obtain ⟨_, _, _, hbad⟩ := atBlock_add hj hstop
        rw [hf] at hbad
        cases hbad
    · obtain ⟨_, _, _, hbig | hhole⟩ := atBlock_add hj hstop
      · omega
      · rw [hf] at hhole
        cases hhole

/-- The loop of `is_empty_dir` at a block it has read. -/
theorem emptyLoop_ends :
    ∀ n i k j f, i = entriesPerBlock * k + j → j ≤ entriesPerBlock → D.block k = .data f → k < maxBlocks →
      0 < n → D.entries < n + i → EmptyEnds D i (emptyLoop D D.entries n i (.on k j)) := by
  intro n
  induction n with
  | zero =>
    intro i k j f hi hj hf hk hn
    exact absurd hn (Nat.lt_irrefl 0)
  | succ n ih =>
    intro i k j f hi hj hf hk hn hfuel
    rcases Nat.lt_or_ge i D.entries with hlt | hge
    · rcases Nat.lt_or_ge j entriesPerBlock with hj' | hj'
      · have hturn : emptyTurn D i (.on k j) = .ok (.ready (.on k j)) := by
          simp [emptyTurn, on_atEnd, Nat.not_le.2 hj', bind, Except.bind, pure, Except.pure]
        exact emptyLoop_ready hlt hi hj' hf hk hturn
          (ih (i + 1) k (j + 1) f (by omega) hj' hf hk (by omega) (by omega))
      · obtain rfl : j = entriesPerBlock := Nat.le_antisymm hj hj'
        obtain rfl : i = entriesPerBlock * (k + 1) := by rw [hi, Nat.mul_succ]
        have hturn := emptyTurn_end (D := D) (k := k + 1) (n := k)
        by_cases hbig : maxBlocks ≤ k + 1
        · have ht : EmptyTrap D (k + 1) := ⟨by omega, hlt, .inl hbig⟩
          rw [if_pos hbig] at hturn
          have hrun : emptyLoop D D.entries (n + 1) (entriesPerBlock * (k + 1)) (.on k entriesPerBlock) =
              .error .panic := by
            simp only [emptyLoop, if_pos hlt, hturn, bind, Except.bind]
          rw [hrun]
          exact .trapped (First.here (.inr (atBlock_mul.2 ht))) (atBlock_mul.2 ht)
        · rw [if_neg hbig] at hturn
          cases hb : D.block (k + 1) with
          | data g =>
            rw [hb] at hturn
            exact emptyLoop_ready hlt (Nat.add_zero _).symm (by decide) hb (by omega) hturn
              (ih _ (k + 1) 1 g rfl (by decide) hb (by omega) (by omega) (by omega))
          | hole =>
            rw [hb] at hturn
            have ht : EmptyTrap D (k + 1) := ⟨by omega, hlt, .inr hb⟩
            have hrun : emptyLoop D D.entries (n + 1) (entriesPerBlock * (k + 1))
              (.on k entriesPerBlock) =
                emptyLoop D D.entries n (entriesPerBlock * (k + 1) + entriesPerBlock)
                  (.off k entriesPerBlock) := by
              simp only [emptyLoop, if_pos hlt, hturn, bind, Except.bind]
            obtain ⟨e, he⟩ := emptyLoop_off (D := D) (n := n) (i := entriesPerBlock * (k + 1)
              + entriesPerBlock) (k := k)
            rw [hrun, he]
            exact .trapped (First.here (.inr (atBlock_mul.2 ht))) (atBlock_mul.2 ht)
          | unreadable =>
            rw [hb] at hturn
            have hhit : EmptyHit D (entriesPerBlock * (k + 1)) :=
              ⟨hlt, .inr (atBlock_mul.2 ⟨by omega, by omega, hb⟩)⟩
            have hrun : emptyLoop D D.entries (n + 1) (entriesPerBlock * (k + 1))
              (.on k entriesPerBlock) =
                .ok (false, .off k entriesPerBlock) := by
              simp only [emptyLoop, if_pos hlt, hturn, bind, Except.bind, pure, Except.pure]
            rw [hrun]
            exact .found (First.here (.inl hhit)) hhit rfl
    · have hrun : emptyLoop D D.entries (n + 1) i (.on k j) = .ok (true, .off k j) := by
        simp [emptyLoop, Nat.not_lt.2 hge, bind, Except.bind, pure, Except.pure]
      rw [hrun]
      refine .missed (fun m him h => ?_) rfl
      rcases h with ⟨h, _⟩ | ⟨k, rfl, _, h, _⟩
      · omega
      · omega

/-- `is_empty_dir` comes to its end: it does not get to its loop, or before each hole it finds a used
entry, or a block that cannot be read. -/
def EmptySafe (D : Dir) : Prop :=
  (∀ f, D.block 0 = .data f → D.begins f = false) ∨
    ∀ k, EmptyTrap D k → ∃ l, 2 ≤ l ∧ l < entriesPerBlock * k ∧ EmptyHit D l

theorem emptyHit_not_trap {m : Nat} (h : EmptyHit D m) : ¬ AtBlock (EmptyTrap D) m := by
  rintro ⟨k, rfl, _, _, ht⟩
  obtain ⟨_, ⟨e, he, _⟩ | hbad⟩ := h
  · have hpage : D.page? k = none := by
      rcases ht with hbig | hhole
      · simp [Dir.page?, hbig]
      · simp [Dir.page?, hhole]
    rw [Dir.slot?, Nat.mul_div_cancel_left k (by decide), hpage] at he
    cases he
  · obtain ⟨_, hk, hb⟩ := atBlock_mul.1 hbad
    rcases ht with hbig | hhole
    · omega
    · rw [hb] at hhole
      cases hhole

theorem isEmptyDir_iff : (∃ r, isEmptyDir D = .ok r) ↔ D.entries < 2 ∨ EmptySafe D := by
  by_cases hlen : D.entries < 2
  · simp [isEmptyDir, hlen]
  · simp only [isEmptyDir, hlen, if_false, false_or]
    cases hb : D.block 0 with
    | hole => simp [EmptySafe, hb]
    | unreadable => simp [EmptySafe, hb]
    | data f =>
      simp only [start_bread, on_next]
      cases hbeg : D.begins f with
      | false =>
        simp [EmptySafe, hb, hbeg]
      | true =>
        have hends := emptyLoop_ends (D := D) (D.entries + 1) 2 0 2 f rfl (by decide) hb (by decide)
          (Nat.succ_pos _) (by omega)
        have hok := hends.ok_iff fun m => emptyHit_not_trap
        rw [if_pos rfl, hok]
        constructor
        · intro h
          refine .inr fun k hk => h _ ?_ (atBlock_mul.2 hk)
          have := hk.1
          simp only [entriesPerBlock]
          omega
        · rintro (h | h) _ _ ⟨k, rfl, hk⟩
          · rw [h f hb] at hbeg
            cases hbeg
          · exact h k hk

/-! ## All three -/

/-- The three scans of a directory whose first block can be read, and so can be the first block of the
directory that `..` leads to. -/
theorem scans_survive (site : Site) (room : Nat → Bool) (D : Dir) (name : List Byte)
    (hD : ∃ f, D.block 0 = .data f) (hS : ∃ f, (site.searched D name).block 0 = .data f) :
    (FindsExactly site D name ↔ FindSafe site D name) ∧
      ((∃ r, addEntry room D name = .ok r) ↔ AddSafe D name) ∧
      ((∃ r, isEmptyDir D = .ok r) ↔ D.entries < 2 ∨ EmptySafe D) := by
  obtain ⟨f, hf⟩ := hD
  obtain ⟨g, hg⟩ := hS
  exact ⟨findsExactly_iff site hg, addEntry_iff room hf, isEmptyDir_iff⟩

/-- A directory with the entries `.` and `..`, and the name `b` in all the others if it is full. -/
def small (full : Bool) (rest : Block) : Dir where
  num := 5
  size := 129 * dirEntrySize
  block k :=
    if k = 1 then rest
    else .data fun j =>
      if k = 0 ∧ j = 0 then ⟨5, (dot.getD · 0)⟩
      else if k = 0 ∧ j = 1 then ⟨1, (dotdot.getD · 0)⟩
      else if full then ⟨7, ([98].getD · 0)⟩ else ⟨0, fun _ => 0⟩

theorem scans_survive_full : FindsExactly ⟨false, none⟩ (small true .hole) [98] ∧
    (∃ r, addEntry (fun _ => true) (small true .hole) [97] = .ok r) ∧
    ∃ r, isEmptyDir (small true .hole) = .ok r := by
  obtain ⟨hfind, _, hempty⟩ :=
    scans_survive ⟨false, none⟩ (fun _ => true) (small true .hole) [98] ⟨_, rfl⟩ ⟨_, rfl⟩
  obtain ⟨_, hadd, _⟩ :=
    scans_survive ⟨false, none⟩ (fun _ => true) (small true .hole) [97] ⟨_, rfl⟩ ⟨_, rfl⟩
  have hhole : AddHit (small true .hole) 64 := .inr ⟨1, rfl, by decide, by decide, rfl⟩
  refine ⟨hfind.2 (.inr ⟨fun k hk => ?_, Iff.rfl⟩), hadd.2 (.inr fun k hk => ?_),
    hempty.2 (.inr (.inr fun k hk => ?_))⟩
  · refine ⟨2, ?_, by decide, ⟨7, ([98].getD · 0)⟩, rfl, by decide⟩
    have := hk.1
    simp only [entriesPerBlock]
    omega
  · refine ⟨64, ?_, hhole⟩
    obtain ⟨hk, hbig | hbad⟩ := hk
    · simp only [maxBlocks, entriesPerBlock] at hbig ⊢
      omega
    · have : k ≠ 1 := by
        rintro rfl
        cases hbad
      simp only [entriesPerBlock]
      omega
  · refine ⟨2, Nat.le_refl 2, ?_, by decide, .inl ⟨⟨7, ([98].getD · 0)⟩, rfl, by decide⟩⟩
    have := hk.1
    simp only [entriesPerBlock]
    omega

def fault {α : Type} : Except Fault α → Option Fault
  | .ok _ => none
  | .error e => some e

theorem not_ok_of_fault {α : Type} {r : Except Fault α} {e : Fault} (h : fault r = some e) : ¬ ∃ a,
    r = .ok a := by
  rintro ⟨a, rfl⟩
  cases h

/-- Each of the three goes wrong at its second block. -/
theorem small_faults : ¬ FindsExactly ⟨false, none⟩ (small false .hole) [97] ∧
    (¬ ∃ r, addEntry (fun _ => true) (small true .unreadable) [97] = .ok r) ∧
    ¬ ∃ r, isEmptyDir (small false .hole) = .ok r := by
  refine ⟨?_, not_ok_of_fault (e := .null) (by decide +kernel), not_ok_of_fault (e := .twice)
    (by decide +kernel)⟩
  rintro ⟨r, c, hok, _⟩
  have hfault : fault (findEntry ⟨false, none⟩ (small false .hole) [97]) = some .null := by decide +kernel
  exact not_ok_of_fault hfault ⟨(r, c), hok⟩

end Linux011.Directory
