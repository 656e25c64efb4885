import Linux011.Directory.Entries
import Linux011.Lib.Scan

/-!
# Looking for a name in a directory with holes

`find_entry` goes on from a block it cannot read without a buffer, and looks at `bh->b_data` of the next
entry; it is saved where that block is the last one. So it finds a name exactly if the name occurs in a
block it can read before the first such block.
-/

namespace Linux011.Directory

open Linux011.Lib

variable {D : Dir} {name : List Byte} {f : Nat → DirEntry} {n i j k : Nat}

/-! ## Pointers -/

/-- The entry `j` of the block `k`, whose buffer is the only one that is held. -/
def Cursor.on (k j : Nat) : Cursor := ⟨some k, (k, j), Function.update (fun _ => 0) k 1⟩

/-- The same pointers, when the buffer is released. -/
def Cursor.off (k j : Nat) : Cursor := ⟨some k, (k, j), fun _ => 0⟩

@[simp] theorem start_bread : Cursor.start.bread k = .on k 0 := rfl

@[simp] theorem off_bread (l : Nat) : (Cursor.off k j).bread l = .on l 0 := rfl

@[simp] theorem on_next : (Cursor.on k j).next = .on k (j + 1) := rfl

theorem on_atEnd : (Cursor.on k j).atEnd = .ok (decide (entriesPerBlock ≤ j)) := by
  simp [Cursor.on, Cursor.atEnd]

theorem off_atEnd : (Cursor.off k j).atEnd = .ok (decide (entriesPerBlock ≤ j)) := by
  simp [Cursor.off, Cursor.atEnd]

@[simp] theorem on_brelse : (Cursor.on k j).brelse = .ok (.off k j) := by
  have h : Function.update (Function.update (fun _ : Nat => 0) k 1) k 0 = fun _ => 0 := by
    rw [Function.update_idem]
    exact Function.update_eq_self k _
  simp [Cursor.on, Cursor.brelse, Cursor.off, h]

@[simp] theorem off_brelse : (Cursor.off k j).brelse = .error .twice := by
  simp [Cursor.off, Cursor.brelse]

theorem entry_on (h : D.block k = .data f) : D.entry (.on k j) = .ok (f j) := by
  simp [Dir.entry, Cursor.on, h]

/-- The entries of the block `k`, if it is mapped and can be read. -/
def Dir.page? (D : Dir) (k : Nat) : Option (Nat → DirEntry) :=
  if maxBlocks ≤ k then none
  else
    match D.block k with
    | .data f => some f
    | _ => none

theorem page?_data (h : D.block k = .data f) (hk : k < maxBlocks) : D.page? k = some f := by
  simp [Dir.page?, h, Nat.not_le.2 hk]

theorem page?_eq_none (h : D.page? k = none) (hk : k < maxBlocks) : ∀ f, D.block k ≠ .data f := by
  intro f hf
  rw [page?_data hf hk] at h
  cases h

theorem page?_some (h : D.page? k = some f) : k < maxBlocks ∧ D.block k = .data f := by
  unfold Dir.page? at h
  split at h
  · cases h
  · split at h
    · cases h
      exact ⟨by omega, by assumption⟩
    · cases h

/-- The entry with the number `l`, if its block is mapped and can be read. -/
def Dir.slot? (D : Dir) (l : Nat) : Option DirEntry :=
  (D.page? (l / entriesPerBlock)).map (· (l % entriesPerBlock))

theorem slot?_on (h : D.block k = .data f) (hk : k < maxBlocks) (hi : i = entriesPerBlock * k + j)
    (hj : j < entriesPerBlock) : D.slot? i = some (f j) := by
  have hd : i / entriesPerBlock = k := by
    rw [hi, Nat.mul_add_div (by decide), Nat.div_eq_of_lt hj, Nat.add_zero]
  have hm : i % entriesPerBlock = j := by
    rw [hi, Nat.mul_add_mod, Nat.mod_eq_of_lt hj]
  simp [Dir.slot?, hd, hm, page?_data h hk]

/-! ## `find_entry` -/

/-- The name is the one of the entry `l`. -/
def Dir.Occurs (D : Dir) (name : List Byte) (l : Nat) : Prop :=
  name ≠ [] ∧ ∃ e, D.slot? l = some e ∧ matchName name e = true

/-- `find_entry` does not get past the block `k`. -/
def FindTrap (D : Dir) (entries k : Nat) : Prop :=
  1 ≤ k ∧ entriesPerBlock * k < entries ∧
    (maxBlocks ≤ k ∨ D.page? k = none ∧ entriesPerBlock * (k + 1) < entries)

/-- The entry `m` is the first one of a block of which `P` holds. -/
def AtBlock (P : Nat → Prop) (m : Nat) : Prop := ∃ k, m = entriesPerBlock * k ∧ P k

theorem atBlock_mul {P : Nat → Prop} : AtBlock P (entriesPerBlock * k) ↔ P k := by
  constructor
  · rintro ⟨k', hk, h⟩
    obtain rfl : k = k' := Nat.eq_of_mul_eq_mul_left (by decide) hk
    exact h
  · exact fun h => ⟨k, rfl, h⟩

/-- No block begins in the middle of a block. -/
theorem atBlock_add {P : Nat → Prop} (hj : j < entriesPerBlock)
    (h : AtBlock P (entriesPerBlock * k + j)) :
    j = 0 ∧ P k := by
  obtain ⟨k', hk, h⟩ := h
  simp only [entriesPerBlock] at hj hk
  obtain rfl : k' = k := by omega
  exact ⟨by omega, h⟩

/-- The entry `l` is what `find_entry` returns. -/
def Points (l : Nat) (r : Option Ref × Cursor) : Prop :=
  r = (some (l / entriesPerBlock, l % entriesPerBlock), .on (l / entriesPerBlock) (l % entriesPerBlock))

/-- What the loop of `find_entry` makes of the rest of the directory. -/
abbrev FindEnds (D : Dir) (entries : Nat) (name : List Byte) :
    Nat → Except Fault (Option Ref × Cursor) → Prop :=
  Scanned (fun l => l < entries ∧ D.Occurs name l) (AtBlock (FindTrap D entries)) Points
    fun r => r.1 = none ∧ r.2.held = fun _ => 0

variable {c c' : Cursor}

/-- The loop of `find_entry` behind the last entry. -/
theorem findLoop_over {entries : Nat} (hi : entries ≤ i) (hn : 0 < n) (hc : c.brelse = .ok c')
    (hheld : c'.held = fun _ => 0) :
    FindEnds D entries name i (findLoop D entries name n i c) := by
  obtain ⟨n, rfl⟩ := Nat.exists_eq_succ_of_ne_zero (Nat.pos_iff_ne_zero.1 hn)
  have hrun : findLoop D entries name (n + 1) i c = .ok (none, c') := by
    simp only [findLoop, if_neg (Nat.not_lt.2 hi), hc]
    rfl
  rw [hrun]
  refine .missed (fun m him h => ?_) ⟨rfl, hheld⟩
  rcases h with ⟨h, _⟩ | ⟨k, rfl, _, h, _⟩
  · omega
  · omega

theorem findLoop_succ {entries : Nat} (hi : i < entries) (hturn : findTurn D i c = .ok (.ready (.on k j)))
    (hf : D.block k = .data f) :
    findLoop D entries name (n + 1) i c =
      if matchName name (f j) then .ok (some (k, j), .on k j)
      else findLoop D entries name n (i + 1) (.on k (j + 1)) := by
  simp only [findLoop, if_pos hi, hturn, Except.bind, bind, entry_on hf, pure, Except.pure, on_next]
  rfl

/-- The loop of `find_entry` at an entry it can read. -/
theorem findLoop_ready {entries : Nat} (hname : name ≠ []) (hlt : i < entries)
    (hi : i = entriesPerBlock * k + j) (hj : j < entriesPerBlock) (hf : D.block k = .data f)
    (hk : k < maxBlocks) (hturn : findTurn D i c = .ok (.ready (.on k j)))
    (ih : FindEnds D entries name (i + 1) (findLoop D entries name n (i + 1) (.on k (j + 1)))) :
    FindEnds D entries name i (findLoop D entries name (n + 1) i c) := by
  have he : D.slot? i = some (f j) := slot?_on hf hk hi hj
  rw [findLoop_succ hlt hturn hf]
  by_cases hm : matchName name (f j) = true
  · rw [if_pos hm]
    have ho : D.Occurs name i := ⟨hname, f j, he, hm⟩
    have hd : i / entriesPerBlock = k := by
      simp only [entriesPerBlock] at hi hj ⊢
      omega
    have hm : i % entriesPerBlock = j := by
      simp only [entriesPerBlock] at hi hj ⊢
      omega
    exact .found (First.here (.inl ⟨hlt, ho⟩)) ⟨hlt, ho⟩ (by rw [Points, hd, hm])
  · rw [if_neg hm]
    refine ih.step ?_ ?_
    · rintro ⟨_, _, e, he', hme⟩
      rw [he] at he'
      cases he'
      exact hm hme
    · subst hi
      intro hstop
      obtain ⟨_, _, _, hbig | ⟨hbad, _⟩⟩ := atBlock_add hj hstop
      · omega
      · exact page?_eq_none hbad hk f hf

/-- The pointers of `find_entry` when it has no buffer. -/
def Cursor.lost (k j : Nat) : Cursor := { Cursor.off k j with bh := none }

theorem findTurn_end : findTurn D (entriesPerBlock * k) (.on n entriesPerBlock) =
    if maxBlocks ≤ k then .error .panic
    else
      match D.block k with
      | .data _ => .ok (.ready (.on k 0))
      | _ => .ok (.skip (.lost n entriesPerBlock)) := by
  have hd : entriesPerBlock * k / entriesPerBlock = k := Nat.mul_div_cancel_left k (by decide)
  simp only [findTurn, on_atEnd, on_brelse, off_bread, hd, bind, Except.bind, Nat.le_refl,
    decide_true, if_true]
  by_cases hk : maxBlocks ≤ k
  · simp [hk, throw, throwThe, MonadExceptOf.throw]
  · cases D.block k <;> simp [hk, pure, Except.pure, Cursor.lost]

/-- The loop of `find_entry` goes on without a buffer. -/
theorem findLoop_lost {entries : Nat} (hi : i < entries) (hn : 0 < n) :
    findLoop D entries name n i (.lost k j) = .error .null := by
  obtain ⟨n, rfl⟩ := Nat.exists_eq_succ_of_ne_zero (Nat.pos_iff_ne_zero.1 hn)
  simp only [findLoop, if_pos hi]
  rfl

/-- The loop of `find_entry` at a block it has not read. -/
theorem findLoop_bad {entries : Nat} (hlt : entriesPerBlock * k < entries) (hk : 1 ≤ k)
    (hturn : findTurn D (entriesPerBlock * k) c = .ok (.skip (.lost i j))) (hbad : D.page? k = none)
    (hsmall : k < maxBlocks) (hn : entries < n + 1 + entriesPerBlock * k) :
    FindEnds D entries name (entriesPerBlock * k) (findLoop D entries name (n + 1)
      (entriesPerBlock * k) c) := by
  have hrun : findLoop D entries name (n + 1) (entriesPerBlock * k) c =
      findLoop D entries name n (entriesPerBlock * k + entriesPerBlock) (.lost i j) := by
    simp only [findLoop, if_pos hlt, hturn, bind, Except.bind]
  rw [hrun]
  rcases Nat.lt_or_ge (entriesPerBlock * k + entriesPerBlock) entries with hmore | hlast
  · have ht : FindTrap D entries k := ⟨hk, hlt, .inr ⟨hbad, by rw [Nat.mul_succ]; exact hmore⟩⟩
    rw [findLoop_lost hmore (by omega)]
    exact .trapped (First.here (.inr (atBlock_mul.2 ht))) (atBlock_mul.2 ht)
  · refine (findLoop_over hlast (by omega) rfl rfl).pass (Nat.le_add_right _ _) fun m hm hmlt hstop => ?_
    obtain ⟨j', rfl⟩ := Nat.exists_eq_add_of_le hm
    have hj : j' < entriesPerBlock := by omega
    rcases hstop with ⟨_, _, e, he, _⟩ | hstop
    · have hd : (entriesPerBlock * k + j') / entriesPerBlock = k := by
        rw [Nat.mul_add_div (by decide), Nat.div_eq_of_lt (by omega), Nat.add_zero]
      rw [Dir.slot?, hd, hbad] at he
      cases he
    · obtain ⟨_, _, _, hbig | ⟨_, hmore⟩⟩ := atBlock_add hj hstop
      · omega
      · rw [Nat.mul_succ] at hmore
        omega

/-- The loop of `find_entry` at a block it has read. -/
theorem findLoop_ends (entries : Nat) (hname : name ≠ []) :
    ∀ n i k j f, i = entriesPerBlock * k + j → j ≤ entriesPerBlock → D.block k = .data f → k < maxBlocks →
      0 < n → entries < n + i → FindEnds D entries name i (findLoop D entries name n i (.on k j)) := by
  intro n
  induction n with
  | zero =>
    intro i k j f hi hj hf hk hn
    exact absurd hn (Nat.lt_irrefl 0)
  | succ n ih =>
    intro i k j f hi hj hf hk hn hfuel
    rcases Nat.lt_or_ge i entries with hlt | hge
    · rcases Nat.lt_or_ge j entriesPerBlock with hj' | hj'
      · have hturn : findTurn D i (.on k j) = .ok (.ready (.on k j)) := by
          simp [findTurn, on_atEnd, Nat.not_le.2 hj', bind, Except.bind, pure, Except.pure]
        exact findLoop_ready hname hlt hi hj' hf hk hturn
          (ih (i + 1) k (j + 1) f (by omega) hj' hf hk (by omega) (by omega))
      · obtain rfl : j = entriesPerBlock := Nat.le_antisymm hj hj'
        obtain rfl : i = entriesPerBlock * (k + 1) := by rw [hi, Nat.mul_succ]
        have hturn := findTurn_end (D := D) (k := k + 1) (n := k)
        by_cases hbig : maxBlocks ≤ k + 1
        · have ht : FindTrap D entries (k + 1) := ⟨by omega, hlt, .inl hbig⟩
          rw [if_pos hbig] at hturn
          have hrun : findLoop D entries name (n + 1) (entriesPerBlock * (k + 1))
            (.on k entriesPerBlock) =
              .error .panic := by
            simp only [findLoop, if_pos hlt, hturn, bind, Except.bind]
          rw [hrun]
          exact .trapped (First.here (.inr (atBlock_mul.2 ht))) (atBlock_mul.2 ht)
        · rw [if_neg hbig] at hturn
          cases hb : D.block (k + 1) with
          | data g =>
            rw [hb] at hturn
            exact findLoop_ready hname hlt (Nat.add_zero _).symm (by decide) hb (by omega) hturn
              (ih _ (k + 1) 1 g rfl (by decide) hb (by omega) (by omega) (by omega))
          | hole =>
            rw [hb] at hturn
            exact findLoop_bad hlt (by omega) hturn (by simp [Dir.page?, hb]) (by omega) hfuel
          | unreadable =>
            rw [hb] at hturn
            exact findLoop_bad hlt (by omega) hturn (by simp [Dir.page?, hb]) (by omega) hfuel
    · exact findLoop_over hge hn on_brelse rfl

theorem take_nameLen_ne_nil (h : name ≠ []) : name.take nameLen ≠ [] := by
  cases name with
  | nil => exact absurd rfl h
  | cons b l => simp [nameLen]

theorem wanted_ne_nil (site : Site) (h : name ≠ []) : site.wanted name ≠ [] := by
  unfold Site.wanted
  split
  · simp [dot]
  · exact take_nameLen_ne_nil h

/-- `find_entry` finds the entry of a name exactly if there is one in a block that can be read, and holds
its buffer and no other. -/
def FindsExactly (site : Site) (D : Dir) (name : List Byte) : Prop :=
  ∃ r c, findEntry site D name = .ok (r, c) ∧
    (r.isSome ↔ ∃ l < (site.searched D name).entries, (site.searched D name).Occurs (site.wanted name)
      l) ∧
    (r = none → c.held = fun _ => 0) ∧
    ∀ p, r = some p → c = .on p.1 p.2 ∧
      ∃ l, p = (l / entriesPerBlock, l % entriesPerBlock) ∧ (site.searched D name).Occurs
        (site.wanted name) l

/-- Before the first trap the name occurs, and where another directory is read, its own number of entries
does not matter. -/
def FindSafe (site : Site) (D : Dir) (name : List Byte) : Prop :=
  name = [] ∨
    (∀ k, FindTrap (site.searched D name) D.entries k →
      ∃ l < entriesPerBlock * k, (site.searched D name).Occurs (site.wanted name) l) ∧
    ((∃ l < D.entries, (site.searched D name).Occurs (site.wanted name) l) ↔
      ∃ l < (site.searched D name).entries, (site.searched D name).Occurs (site.wanted name) l)

theorem findEntry_nil (site : Site) (D : Dir) : findEntry site D [] = .ok (none, .start) := rfl

theorem findEntry_ends (site : Site) (hname : name ≠ []) (hf : (site.searched D name).block 0 = .data f) :
    FindEnds (site.searched D name) D.entries (site.wanted name) 0 (findEntry site D name) := by
  simp only [findEntry, if_neg (take_nameLen_ne_nil hname), hf, start_bread]
  exact findLoop_ends D.entries (wanted_ne_nil site hname) _ 0 0 0 f rfl (Nat.zero_le _) hf (by decide)
    (Nat.succ_pos _) (Nat.lt_succ_self _)

/-- A name does not occur where a trap is. -/
theorem findTrap_not_occurs {entries : Nat} (h : FindTrap D entries k) :
    ¬ D.Occurs name (entriesPerBlock * k) := by
  rintro ⟨_, e, he, _⟩
  have hpage : D.page? k = none := by
    obtain ⟨_, _, hbig | ⟨hbad, _⟩⟩ := h
    · simp [Dir.page?, hbig]
    · exact hbad
  rw [Dir.slot?, Nat.mul_div_cancel_left k (by decide), hpage] at he
  cases he

theorem findsExactly_nil (site : Site) (D : Dir) : FindsExactly site D [] := by
  have hnone : ¬ ∃ l < (site.searched D []).entries, (site.searched D []).Occurs (site.wanted []) l := by
    rintro ⟨l, _, h, _⟩
    exact h rfl
  refine ⟨none, .start, findEntry_nil site D, ?_, fun _ => rfl, fun p hp => ?_⟩
  · simpa using hnone
  · cases hp

theorem findsExactly_iff (site : Site) (hf : (site.searched D name).block 0 = .data f) :
    FindsExactly site D name ↔ FindSafe site D name := by
  by_cases hname : name = []
  · subst hname
    exact ⟨fun _ => .inl rfl, fun _ => findsExactly_nil site D⟩
  have hends := findEntry_ends site hname hf
  have hok := hends.ok_iff fun m hhit htrap => by
    obtain ⟨k, rfl, ht⟩ := htrap
    exact findTrap_not_occurs ht hhit.2
  have hsafe : (∃ r, findEntry site D name = .ok r) ↔ ∀ k, FindTrap (site.searched D name) D.entries k →
      ∃ l < entriesPerBlock * k, (site.searched D name).Occurs (site.wanted name) l := by
    rw [hok]
    constructor
    · intro h k hk
      obtain ⟨l, _, hl, _, ho⟩ := h _ (Nat.zero_le _) (atBlock_mul.2 hk)
      exact ⟨l, hl, ho⟩
    · rintro h _ _ ⟨k, rfl, hk⟩
      obtain ⟨l, hl, ho⟩ := h k hk
      exact ⟨l, Nat.zero_le l, hl, hl.trans hk.2.1, ho⟩
  simp only [FindSafe, hname, false_or, ← hsafe]
  generalize hr : findEntry site D name = r at hends
  cases hends with
  | found h hl ha =>
    cases ha
    have ho : (site.searched D name).Occurs (site.wanted name) _ := hl.2
    constructor
    · rintro ⟨r, c, hok, hiff, _⟩
      rw [hr] at hok
      cases hok
      exact ⟨⟨_, rfl⟩, fun _ => hiff.1 rfl, fun _ => ⟨_, hl⟩⟩
    · rintro ⟨_, hiff⟩
      refine ⟨_, _, hr, ⟨fun _ => hiff.1 ⟨_, hl⟩, fun _ => rfl⟩, fun hno => ?_, fun p hp => ?_⟩
      · cases hno
      · cases hp
        exact ⟨rfl, _, rfl, ho⟩
  | missed h ha =>
    rename_i a
    obtain ⟨r, c⟩ := a
    obtain ⟨rfl, hc⟩ : r = none ∧ c.held = fun _ => 0 := ha
    have hno : ¬ ∃ l < D.entries, (site.searched D name).Occurs (site.wanted name) l := by
      rintro ⟨l, hl, ho⟩
      exact h l (Nat.zero_le l) (.inl ⟨hl, ho⟩)
    constructor
    · rintro ⟨r, c, hok, hiff, _⟩
      rw [hr] at hok
      cases hok
      refine ⟨⟨_, rfl⟩, fun hl => absurd hl hno, fun hl => ?_⟩
      have := hiff.2 hl
      cases this
    · rintro ⟨_, hiff⟩
      refine ⟨_, _, hr, ⟨fun hsome => ?_, fun hl => absurd (hiff.2 hl) hno⟩, fun _ => hc, fun p hp => ?_⟩
      · cases hsome
      · cases hp
  | trapped h ht =>
    constructor
    · rintro ⟨r, c, hok, _⟩
      rw [hr] at hok
      cases hok
    · rintro ⟨⟨_, hok⟩, _⟩
      cases hok

end Linux011.Directory
