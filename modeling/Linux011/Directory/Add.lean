import Linux011.Directory.Find

/-!
# Adding a name to a directory with holes

`add_entry` takes the first entry that is free, or past the size, or in a hole. From a block it cannot
read it goes on without a buffer, so it has to find a place before the first such block.
-/

namespace Linux011.Directory

open Linux011.Lib

variable {D : Dir} {name : List Byte} {f : Nat → DirEntry} {n i j k : Nat} {c : Cursor}

/-- `add_entry` returns at the entry `m`: it is free, or past the size, or in a hole. -/
def AddHit (D : Dir) (m : Nat) : Prop :=
  (∃ e, D.slot? m = some e ∧ (D.size ≤ m * dirEntrySize ∨ e.inodenr = 0)) ∨
    AtBlock (fun k => 1 ≤ k ∧ k < maxBlocks ∧ D.block k = .hole) m

/-- `add_entry` does not get past the block `k`. -/
def AddTrap (D : Dir) (k : Nat) : Prop := 1 ≤ k ∧ (maxBlocks ≤ k ∨ D.block k = .unreadable)

/-- The entry `l` with a name and without an inode, and the size it takes. -/
def Dir.put (D : Dir) (name : List Byte) (l : Nat) : Dir :=
  { D.store (l / entriesPerBlock, l % entriesPerBlock) ⟨0, (name.getD · 0)⟩ with
    size := if D.size ≤ l * dirEntrySize then (l + 1) * dirEntrySize else D.size }

/-- What `add_entry` returns at the entry `l`. -/
inductive Adds (room : Nat → Bool) (D : Dir) (name : List Byte)
  (l : Nat) : Option Ref × Dir × Cursor → Prop
  | written (h : (D.page? (l / entriesPerBlock)).isSome) : Adds room D name l
    (some (l / entriesPerBlock, l % entriesPerBlock), D.put name l,
      .on (l / entriesPerBlock) (l % entriesPerBlock))
  | filled (h : D.block (l / entriesPerBlock) = .hole) (hr : room (l / entriesPerBlock) = true) :
    Adds room D name l
    (some (l / entriesPerBlock, l % entriesPerBlock), (D.fill (l / entriesPerBlock)).put name l,
      .on (l / entriesPerBlock) (l % entriesPerBlock))
  | full {c : Cursor} (h : D.block (l / entriesPerBlock) = .hole)
    (hr : room (l / entriesPerBlock) = false)
    (hc : c.held = fun _ => 0) : Adds room D name l (none, D, c)

theorem Adds.filled_at {room : Nat → Bool} {l : Nat} (h : D.block k = .hole) (hr : room k = true)
    (hl : l / entriesPerBlock = k) :
    Adds room D name l
      (some (k, l % entriesPerBlock), (D.fill k).put name l, .on k (l % entriesPerBlock)) := by
  subst hl
  exact .filled h hr

/-- What the loop of `add_entry` makes of the rest of the directory. -/
abbrev AddEnds (room : Nat → Bool) (D : Dir) (name : List Byte) :
    Nat → Except Fault (Option Ref × Dir × Cursor) → Prop :=
  Scanned (AddHit D) (AtBlock (AddTrap D)) (Adds room D name) fun _ => False

theorem addTurn_end (room : Nat → Bool) : addTurn room D (entriesPerBlock * k) (.on n entriesPerBlock) =
    if maxBlocks ≤ k then .error .panic
    else
      match D.block k with
      | .data _ => .ok (.ready (.on k 0), D)
      | .unreadable => .ok (.skip (.lost n entriesPerBlock), D)
      | .hole =>
        if room k then .ok (.ready (.on k 0), D.fill k) else .ok (.stop (.lost n entriesPerBlock), D)
          := by
  have hd : entriesPerBlock * k / entriesPerBlock = k := Nat.mul_div_cancel_left k (by decide)
  simp only [addTurn, on_atEnd, on_brelse, off_bread, hd, bind, Except.bind, Nat.le_refl, decide_true,
    if_true]
  by_cases hk : maxBlocks ≤ k
  · simp [hk, throw, throwThe, MonadExceptOf.throw]
  · cases D.block k with
    | hole => cases room k <;> simp [hk, pure, Except.pure, Cursor.lost]
    | unreadable => simp [hk, pure, Except.pure, Cursor.lost]
    | data f => simp [hk, pure, Except.pure]

theorem store_data (h : D.block k = .data f) (e : DirEntry) :
    D.store (k, j) e = { D with block := Function.update D.block k (.data (Function.update f j e)) } := by
  simp [Dir.store, h]

/-- A directory that grows has a free entry where it grows. -/
theorem grow_data (h : D.block k = .data f) (i : Nat) :
    ∃ g, (D.grow i (k, j) (f j)).block k = .data g ∧
      ((g j).inodenr = 0 ↔ D.size ≤ i * dirEntrySize ∨ (f j).inodenr = 0) ∧
      ∀ e, (D.grow i (k, j) (f j)).store (k, j) e =
        { D.store (k, j) e with
          size := if D.size ≤ i * dirEntrySize then (i + 1) * dirEntrySize else D.size } := by
  by_cases hsize : D.size ≤ i * dirEntrySize
  · refine ⟨Function.update f j { f j with inodenr := 0 }, ?_, ?_, fun e => ?_⟩
    · simp [Dir.grow, hsize, store_data h]
    · simp [hsize]
    · simp [Dir.grow, hsize, Dir.store, h]
  · refine ⟨f, ?_, ?_, fun e => ?_⟩
    · simp [Dir.grow, hsize, h]
    · simp [hsize]
    · simp [Dir.grow, hsize, Dir.store, h]

/-- The loop of `add_entry` at an entry it can read. -/
theorem addLoop_at {room : Nat → Bool} {D₀ : Dir} (hi : i = entriesPerBlock * k + j)
    (hj : j < entriesPerBlock)
    (hf : D.block k = .data f) (hturn : addTurn room D₀ i c = .ok (.ready (.on k j), D)) :
    addLoop room name (n + 1) D₀ i c =
      if D.size ≤ i * dirEntrySize ∨ (f j).inodenr = 0 then
        .ok (some (i / entriesPerBlock, i % entriesPerBlock), D.put name i,
          .on (i / entriesPerBlock) (i % entriesPerBlock))
      else addLoop room name n D (i + 1) (.on k (j + 1)) := by
  have hd : i / entriesPerBlock = k := by
    simp only [entriesPerBlock] at hi hj ⊢
    omega
  have hm : i % entriesPerBlock = j := by
    simp only [entriesPerBlock] at hi hj ⊢
    omega
  obtain ⟨g, hg, hfree, hstore⟩ := grow_data (j := j) hf i
  have hrun : addLoop room name (n + 1) D₀ i c =
      if (g j).inodenr = 0 then
        .ok (some (k, j), (D.grow i (k, j) (f j)).store (k, j) { g j with name := (name.getD · 0) },
          .on k j)
      else addLoop room name n (D.grow i (k, j) (f j)) (i + 1) (.on k (j + 1)) := by
    have hde : (Cursor.on k j).de = (k, j) := rfl
    simp only [addLoop, hturn, bind, Except.bind, entry_on hf, hde, entry_on hg, pure, Except.pure,
      on_next]
  rw [hrun, hd, hm]
  by_cases h : D.size ≤ i * dirEntrySize ∨ (f j).inodenr = 0
  · have hz := hfree.2 h
    have he : ({ g j with name := (name.getD · 0) } : DirEntry) = ⟨0, (name.getD · 0)⟩ := by rw [← hz]
    rw [if_pos hz, if_pos h, he, hstore]
    simp only [Dir.put, hd, hm]
  · have hsize : ¬ D.size ≤ i * dirEntrySize := fun hs => h (.inl hs)
    rw [if_neg (mt hfree.1 h), if_neg h, Dir.grow, if_neg hsize]

/-- A directory that is not at its end has another entry. -/
theorem lt_of_size_gt (h : ¬ D.size ≤ i * dirEntrySize) : i ≤ D.entries := by
  have : i * dirEntrySize < D.size := Nat.lt_of_not_le h
  exact (Nat.le_div_iff_mul_le (by decide)).2 (Nat.le_of_lt this)

/-- The loop of `add_entry` at an entry of the directory. -/
theorem addLoop_ready {room : Nat → Bool} (hi : i = entriesPerBlock * k + j) (hj : j < entriesPerBlock)
    (hf : D.block k = .data f) (hk : k < maxBlocks) (hturn : addTurn room D i c = .ok
      (.ready (.on k j), D))
    (ih : i ≤ D.entries → AddEnds room D name (i + 1) (addLoop room name n D (i + 1) (.on k (j + 1)))) :
    AddEnds room D name i (addLoop room name (n + 1) D i c) := by
  have he : D.slot? i = some (f j) := slot?_on hf hk hi hj
  have hd : i / entriesPerBlock = k := by
    simp only [entriesPerBlock] at hi hj ⊢
    omega
  rw [addLoop_at hi hj hf hturn]
  by_cases h : D.size ≤ i * dirEntrySize ∨ (f j).inodenr = 0
  · have hhit : AddHit D i := .inl ⟨f j, he, h⟩
    rw [if_pos h]
    refine .found (First.here (.inl hhit)) hhit (.written ?_)
    rw [hd, page?_data hf hk]
    rfl
  · rw [if_neg h]
    refine (ih (lt_of_size_gt fun hs => h (.inl hs))).step ?_ ?_
    · rintro (⟨e, he', hhit⟩ | hstop)
      · rw [he] at he'
        cases he'
        exact h hhit
      · subst hi
        obtain ⟨_, _, _, hhole⟩ := atBlock_add hj hstop
        rw [hf] at hhole
        cases hhole
    · subst hi
      intro hstop
      obtain ⟨_, _, hbig | hbad⟩ := atBlock_add hj hstop
      · omega
      · rw [hf] at hbad
        cases hbad

/-- The loop of `add_entry` goes on without a buffer. -/
theorem addLoop_lost (room : Nat → Bool) : ∃ e, addLoop room name n D i (.lost k j) = .error e := by
  cases n with
  | zero => exact ⟨.endless, rfl⟩
  | succ n => exact ⟨.null, rfl⟩

theorem fill_data (D : Dir) (k : Nat) : (D.fill k).block k = .data fun _ => ⟨0, fun _ => 0⟩ :=
  Function.update_self ..

/-- The loop of `add_entry` at a block it has read. -/
theorem addLoop_ends (room : Nat → Bool) (D : Dir) (name : List Byte) :
    ∀ n i k j f, i = entriesPerBlock * k + j → j ≤ entriesPerBlock → D.block k = .data f → k < maxBlocks →
      0 < n → D.entries + 1 < n + i → AddEnds room D name i (addLoop room name n D i (.on k j)) := by
  intro n
  induction n with
  | zero =>
    intro i k j f hi hj hf hk hn
    exact absurd hn (Nat.lt_irrefl 0)
  | succ n ih =>
    intro i k j f hi hj hf hk hn hfuel
    rcases Nat.lt_or_ge j entriesPerBlock with hj' | hj'
    · have hturn : addTurn room D i (.on k j) = .ok (.ready (.on k j), D) := by
        simp [addTurn, on_atEnd, Nat.not_le.2 hj', bind, Except.bind, pure, Except.pure]
      exact addLoop_ready hi hj' hf hk hturn fun hle =>
        ih (i + 1) k (j + 1) f (by omega) hj' hf hk (by omega) (by omega)
    · obtain rfl : j = entriesPerBlock := Nat.le_antisymm hj hj'
      obtain rfl : i = entriesPerBlock * (k + 1) := by rw [hi, Nat.mul_succ]
      have hturn := addTurn_end (D := D) (k := k + 1) (n := k) room
      by_cases hbig : maxBlocks ≤ k + 1
      · have ht : AddTrap D (k + 1) := ⟨by omega, .inl hbig⟩
        rw [if_pos hbig] at hturn
        have hrun : addLoop room name (n + 1) D (entriesPerBlock * (k + 1)) (.on k entriesPerBlock) =
            .error .panic := by
          simp only [addLoop, hturn, bind, Except.bind]
        rw [hrun]
        exact .trapped (First.here (.inr (atBlock_mul.2 ht))) (atBlock_mul.2 ht)
      · rw [if_neg hbig] at hturn
        have hdiv : entriesPerBlock * (k + 1) / entriesPerBlock = k + 1 := Nat.mul_div_cancel_left _
          (by decide)
        cases hb : D.block (k + 1) with
        | data g =>
          rw [hb] at hturn
          exact addLoop_ready (Nat.add_zero _).symm (by decide) hb (by omega) hturn fun hle =>
            ih _ (k + 1) 1 g rfl (by decide) hb (by omega) (by omega) (by omega)
        | unreadable =>
          rw [hb] at hturn
          have ht : AddTrap D (k + 1) := ⟨by omega, .inr hb⟩
          have hrun : addLoop room name (n + 1) D (entriesPerBlock * (k + 1)) (.on k entriesPerBlock) =
              addLoop room name n D (entriesPerBlock * (k + 1) + entriesPerBlock)
                (.lost k entriesPerBlock) := by
            simp only [addLoop, hturn, bind, Except.bind]
          obtain ⟨e, he⟩ : ∃ e, addLoop room name n D (entriesPerBlock * (k + 1) + entriesPerBlock)
              (.lost k entriesPerBlock) = .error e := addLoop_lost room
          rw [hrun, he]
          exact .trapped (First.here (.inr (atBlock_mul.2 ht))) (atBlock_mul.2 ht)
        | hole =>
          rw [hb] at hturn
          have hhit : AddHit D (entriesPerBlock * (k + 1)) := .inr
            (atBlock_mul.2 ⟨by omega, by omega, hb⟩)
          cases hroom : room (k + 1) with
          | true =>
            simp only [hroom, if_true] at hturn
            rw [addLoop_at (Nat.add_zero _).symm (by decide) (fill_data D (k + 1)) hturn,
              if_pos (.inr rfl)]
            refine .found (First.here (.inl hhit)) hhit ?_
            rw [hdiv]
            exact .filled_at hb hroom hdiv
          | false =>
            simp only [hroom] at hturn
            have hrun : addLoop room name (n + 1) D (entriesPerBlock * (k + 1)) (.on k entriesPerBlock) =
                .ok (none, D, .lost k entriesPerBlock) := by
              simp only [addLoop, hturn, bind, Except.bind]
              rfl
            rw [hrun]
            exact .found (First.here (.inl hhit)) hhit (.full (by rw [hdiv, hb])
              (by rw [hdiv, hroom]) rfl)

/-- `add_entry` comes to its end: before each block that cannot be read, and before it runs out of blocks,
it finds a place for the name. -/
def AddSafe (D : Dir) (name : List Byte) : Prop :=
  name = [] ∨ ∀ k, AddTrap D k → ∃ l < entriesPerBlock * k, AddHit D l

theorem addHit_not_trap {m : Nat} (h : AddHit D m) : ¬ AtBlock (AddTrap D) m := by
  rintro ⟨k, rfl, _, ht⟩
  obtain ⟨e, he, _⟩ | hhole := h
  · have hpage : D.page? k = none := by
      rcases ht with hbig | hbad
      · simp [Dir.page?, hbig]
      · simp [Dir.page?, hbad]
    rw [Dir.slot?, Nat.mul_div_cancel_left k (by decide), hpage] at he
    cases he
  · obtain ⟨_, hk, hb⟩ := atBlock_mul.1 hhole
    rcases ht with hbig | hbad
    · omega
    · rw [hb] at hbad
      cases hbad

theorem addEntry_ends (room : Nat → Bool) (hname : name ≠ []) (hf : D.block 0 = .data f) :
    AddEnds room D (name.take nameLen) 0 (addEntry room D name) := by
  simp only [addEntry, if_neg (take_nameLen_ne_nil hname), hf, start_bread]
  exact addLoop_ends room D _ _ 0 0 0 f rfl (Nat.zero_le _) hf (by decide) (Nat.succ_pos _)
    (Nat.lt_succ_self _)

theorem addEntry_iff (room : Nat → Bool) (hf : D.block 0 = .data f) :
    (∃ r, addEntry room D name = .ok r) ↔ AddSafe D name := by
  by_cases hname : name = []
  · subst hname
    exact ⟨fun _ => .inl rfl, fun _ => ⟨_, rfl⟩⟩
  have hok := (addEntry_ends room hname hf).ok_iff fun m => addHit_not_trap
  rw [hok]
  simp only [AddSafe, hname, false_or]
  constructor
  · intro h k hk
    obtain ⟨l, _, hl⟩ := h _ (Nat.zero_le _) (atBlock_mul.2 hk)
    exact ⟨l, hl⟩
  · rintro h _ _ ⟨k, rfl, hk⟩
    obtain ⟨l, hl⟩ := h k hk
    exact ⟨l, Nat.zero_le l, hl⟩

end Linux011.Directory
