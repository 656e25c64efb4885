import Linux011.Fs.Lookup

/-!
# What path resolution leaves as it was

Whatever the directories contain, `namei` and what it calls give back every reference they take but
the one they return, and every buffer. The functions compose by exchanging references: each gives
one back and takes another.

An inode that has links stays as it is; so does one without links to which another reference
remains.
-/

namespace Linux011.Fs

open Inode (Dev)

/-- 1 if the pointer is to `j`. -/
def one (d : Option Id) (j : Id) : Nat := if d = some j then 1 else 0

@[simp] theorem one_none (j : Id) : one none j = 0 := rfl

/-- A reference to `d` has been given back and one to `r` taken. -/
structure Trade (d r : Option Id) (fs fs' : State) : Prop where
  count : ∀ j, fs'.count j + one d j = fs.count j + one r j
  bcount : fs'.bcount = fs.bcount
  superBlock : fs'.superBlock = fs.superBlock
  dirBlock : fs'.dirBlock = fs.dirBlock
  inode : ∀ j, (fs.inode j).nlinks ≠ 0 ∨ one d j < fs.count j → fs'.inode j = fs.inode j

variable {fs fs' fs'' g : State} {t : Task} {d m r : Option Id} {i : Id} {dev : Dev}

theorem one_self (i : Id) : one (some i) i = 1 := if_pos rfl

theorem one_of_ne {i j : Id} (h : j ≠ i) : one (some i) j = 0 := if_neg fun he => h (Option.some.inj he).symm

theorem Trade.refl (d : Option Id) (fs : State) : Trade d d fs fs where
  count _ := rfl
  bcount := rfl
  superBlock := rfl
  dirBlock := rfl
  inode _ _ := rfl

theorem Trade.trans (T : Trade d m fs fs') (T' : Trade m r fs' fs'') : Trade d r fs fs'' where
  count j := by
    have h := T.count j
    have h' := T'.count j
    omega
  bcount := T'.bcount.trans T.bcount
  superBlock := T'.superBlock.trans T.superBlock
  dirBlock := T'.dirBlock.trans T.dirBlock
  inode j hj := by
    have hsame := T.inode j hj
    rw [T'.inode j ?_, hsame]
    rw [hsame]
    refine hj.imp_right fun hlt => ?_
    have h := T.count j
    omega

/-! ## One reference -/

theorem Trade.hold (fs : State) (i : Id) : Trade none (some i) fs (fs.hold i) where
  count j := by
    by_cases hj : j = i
    · subst hj
      rw [one_self, one_none]
      exact Function.update_self ..
    · rw [one_of_ne hj, one_none]
      exact Function.update_of_ne hj ..
  bcount := rfl
  superBlock := rfl
  dirBlock := rfl
  inode _ _ := rfl

theorem Trade.drop (h : 0 < fs.count i) : Trade (some i) none fs (fs.drop i) where
  count j := by
    by_cases hj : j = i
    · subst hj
      have hc : (fs.drop j).count j = fs.count j - 1 := Function.update_self ..
      rw [one_self, one_none, hc]
      omega
    · rw [one_of_ne hj, one_none]
      exact Function.update_of_ne hj ..
  bcount := rfl
  superBlock := rfl
  dirBlock := rfl
  inode _ _ := rfl

/-- `iput` gives one reference back. -/
theorem Trade.iput (h : 0 < fs.count i) : Trade (some i) none fs (fs.iput i) := by
  unfold State.iput
  split
  · exact .drop h
  · next hlast =>
    split
    · next hlinks =>
      obtain ⟨-, hone⟩ := not_or.mp hlast
      refine ⟨fun j => ?_, rfl, rfl, rfl, fun j hj => ?_⟩
      · by_cases hj : j = i
        · subst hj
          have hc : (fs.destroy j).count j = 0 := Function.update_self ..
          rw [one_self, one_none, hc]
          omega
        · rw [one_of_ne hj, one_none]
          exact Function.update_of_ne hj ..
      · refine Function.update_of_ne ?_ ..
        rintro rfl
        rw [one_self] at hj
        exact hj.elim (fun hn => hn hlinks) fun hlt => hone hlt
    · exact .drop h

theorem Trade.pos (T : Trade d (some i) fs fs') (h : ∀ j, one d j ≤ fs.count j) :
    0 < fs'.count i := by
  have hc := T.count i
  have hd := h i
  rw [one_self] at hc
  omega

/-- The reference to `i` comes on top of those there are. -/
theorem Trade.pos_of_none (T : Trade none (some i) fs fs') : 0 < fs'.count i :=
  T.pos fun _ => Nat.zero_le _

theorem Trade.pos_of_some {i j : Id} (T : Trade (some j) (some i) fs fs') (h : 0 < fs.count j) :
    0 < fs'.count i :=
  T.pos fun k => by
    by_cases hk : k = j
    · rw [hk, one_self]
      exact h
    · rw [one_of_ne hk]
      exact Nat.zero_le _

/-- The scan of `iget`, over however many mounts. -/
theorem igetLoop_trade {n : Nat} (h : igetLoop n fs i = some (r', fs')) :
    Trade none (some r') fs fs' := by
  induction n generalizing fs i with
  | zero => cases h
  | succ n ih =>
    unfold igetLoop at h
    split at h
    · cases h
    · have hhold := Trade.hold fs i
      dsimp only at h
      split at h
      · cases hk : mountedOn (fs.hold i) i with
        | none =>
          rw [hk] at h
          cases h
          exact hhold
        | some k =>
          rw [hk] at h
          exact (hhold.trans (.iput hhold.pos_of_none)).trans (ih h)
      · cases h
        exact hhold

/-- What `iget` returns is what the scan finds, and there was an entry to start with. -/
theorem iget_some {n : Nat} (h : iget n fs i = some (r', fs')) :
    fs.room = true ∧ igetLoop n fs i = some (r', fs') := by
  unfold iget at h
  split at h
  · next hroom => exact ⟨hroom, h⟩
  · cases h

theorem iget_trade {n : Nat} (h : iget n fs i = some (r', fs')) : Trade none (some r') fs fs' :=
  igetLoop_trade (iget_some h).2

/-! ## `find_entry` -/

/-- The loop of `find_entry` keeps the buffer of the entry it finds, and no other. -/
theorem scan_holding {dir : MInode} {entries len : Nat} {name : List Byte} {n j : Nat}
    {found : Option (Block × DirEntry)} (bh : Option Block)
    (h : scan dir dev entries len name n j bh (holding g dev bh) = (found, fs')) :
    fs' = holding g dev (found.map Prod.fst) := by
  induction n generalizing j bh with
  | zero =>
    rw [scan, holding_release] at h
    cases h
    rfl
  | succ n ih =>
    -- the entry at hand, with the buffer of its block
    have hstep : ∀ block de,
        (if matchName len name de then (some (block, de), g.bread dev block)
        else scan dir dev entries len name n (j + 1) (some block) (g.bread dev block)) = (found, fs') →
        fs' = holding g dev (found.map Prod.fst) := by
      intro block de h
      split at h
      · cases h
        rfl
      · exact ih (some block) h
    unfold scan at h
    simp only [holding_release] at h
    split at h
    · cases h
      rfl
    · split at h
      · split at h
        · exact ih none h
        · exact hstep _ _ h
      · cases bh with
        | none =>
          cases h
          rfl
        | some block => exact hstep _ _ h

theorem dotdot_trade {name : List Byte} {len len' : Nat} {dir m : Id}
    (h : dotdot t fs dir name len = (m, len', fs')) (hpos : 0 < fs.count dir) :
    Trade (some dir) (some m) fs fs' := by
  unfold dotdot at h
  split at h
  · split at h
    · cases h
      exact .refl _ _
    · split at h
      · cases h
        exact (Trade.iput hpos).trans (.hold _ _)
      · cases h
        exact .refl _ _
  · cases h
    exact .refl _ _

theorem findIn_holding {name : List Byte} {entries len : Nat} {dir : Id}
    {found : Option (Block × DirEntry)} (h : findIn fs dir entries len name = (found, fs')) :
    fs' = holding fs dir.dev (found.map Prod.fst) := by
  unfold findIn at h
  dsimp only at h
  split at h
  · cases h
    rfl
  · exact scan_holding (some _) h

/-- `find_entry` exchanges the directory, and keeps the buffer of the entry it finds. -/
theorem findEntry_trade {name : List Byte} {namelen : Nat} {dir m : Id}
    {found : Option (Block × DirEntry)} (h : findEntry t fs dir name namelen = (m, found, fs'))
    (hpos : 0 < fs.count dir) : ∃ g, fs' = holding g m.dev (found.map Prod.fst) ∧
      Trade (some dir) (some m) fs g := by
  unfold findEntry at h
  dsimp only at h
  generalize (if namelen > 14 then 14 else namelen) = len at h
  split at h
  · cases h
    exact ⟨fs, rfl, .refl _ _⟩
  · cases hdot : dotdot t fs dir name len with
    | mk m' p =>
      obtain ⟨len', fs1⟩ := p
      rw [hdot] at h
      dsimp only at h
      obtain ⟨rfl, hin⟩ := Prod.mk.inj h
      exact ⟨fs1, findIn_holding hin, dotdot_trade hdot hpos⟩

theorem follow_trade {dir i : Id} {block : Block} {de : DirEntry}
    (h : follow (holding g dir.dev (some block)) dir block de = some (i, fs')) (hpos : 0 < g.count dir) :
    Trade (some dir) (some i) g fs' := by
  unfold follow at h
  have hback : (holding g dir.dev (some block)).brelse dir.dev block = g := brelse_bread g dir.dev block
  rw [hback] at h
  exact (Trade.iput hpos).trans (iget_trade h)

/-! ## Paths -/

theorem getDirLoop_trade {n : Nat} {inode : Id} {pathname : List Byte}
    (h : getDirLoop t n fs inode pathname = some (r, fs')) (hpos : 0 < fs.count inode) :
    Trade (some inode) r fs fs' := by
  induction n generalizing fs inode pathname with
  | zero => cases h
  | succ n ih =>
    unfold getDirLoop at h
    split at h
    · cases h
      exact .iput hpos
    · dsimp only at h
      split at h
      · cases h
        exact .refl _ _
      · cases hfind : findEntry t fs inode pathname (nameLen pathname) with
        | mk dir p =>
          obtain ⟨found, fs1⟩ := p
          rw [hfind] at h
          obtain ⟨g, hg, T⟩ := findEntry_trade hfind hpos
          have hdir := T.pos_of_some hpos
          subst hg
          cases found with
          | none =>
            cases h
            exact T.trans (.iput hdir)
          | some e =>
            dsimp only at h
            split at h
            · cases h
            · next hf =>
              have T' := follow_trade hf hdir
              exact (T.trans T').trans (ih h (T'.pos_of_some hdir))

theorem getDirInode_trade {pathname : List Byte} (h : getDirInode t fs pathname = some (r, fs')) :
    Trade none r fs fs' := by
  unfold getDirInode at h
  split at h
  · cases h
  · cases pathname with
    | nil =>
      cases h
      exact .refl _ _
    | cons c p =>
      dsimp only at h
      split at h
      · exact (Trade.hold _ _).trans (getDirLoop_trade h (Trade.hold _ _).pos_of_none)
      · exact (Trade.hold _ _).trans (getDirLoop_trade h (Trade.hold _ _).pos_of_none)

theorem dirNamei_trade {pathname : List Byte} {res : Option (Id × List Byte)}
    (h : dirNamei t fs pathname = some (res, fs')) : Trade none (res.map Prod.fst) fs fs' := by
  unfold dirNamei at h
  obtain ⟨⟨node, fs1⟩, hdir, heq⟩ := Option.map_eq_some_iff.mp h
  cases heq
  have T := getDirInode_trade hdir
  rwa [Option.map_map, show (Prod.fst ∘ fun dir => (dir, baseName pathname pathname)) = id from rfl,
    Option.map_id]

/-- `namei` takes a reference to the inode it returns, and nothing else. -/
theorem namei_trade {pathname : List Byte} (h : namei t fs pathname = some (r, fs')) :
    Trade none r fs fs' := by
  unfold namei at h
  split at h
  · cases h
  · next hdir =>
    cases h
    exact dirNamei_trade hdir
  · next dir basename fs1 hdir =>
    have T : Trade none (some dir) fs fs1 := dirNamei_trade hdir
    dsimp only at h
    split at h
    · cases h
      exact T
    · cases hfind : findEntry t fs1 dir basename basename.length with
      | mk m p =>
        obtain ⟨found, fs2⟩ := p
        rw [hfind] at h
        obtain ⟨g, hg, T'⟩ := findEntry_trade hfind T.pos_of_none
        have hm := T'.pos_of_some T.pos_of_none
        subst hg
        cases found with
        | none =>
          cases h
          exact (T.trans T').trans (.iput hm)
        | some e =>
          obtain ⟨⟨i, fs3⟩, hf, heq⟩ := Option.map_eq_some_iff.mp h
          cases heq
          exact (T.trans T').trans (follow_trade hf hm)

/-! ## Inodes that are destroyed -/

/-- Every inode is what it was, unless it has been cleared. -/
def Spared (fs fs' : State) : Prop := ∀ j, fs'.inode j = fs.inode j ∨ fs'.inode j = .zero

theorem Spared.of_eq (h : fs'.inode = fs.inode) : Spared fs fs' := fun j => .inl (congrFun h j)

theorem Spared.refl (fs : State) : Spared fs fs := .of_eq rfl

theorem Spared.trans (S : Spared fs fs') (S' : Spared fs' fs'') : Spared fs fs'' := by
  intro j
  cases S' j with
  | inl h => rw [h]; exact S j
  | inr h => exact .inr h

theorem Spared.iput (fs : State) (i : Id) : Spared fs (fs.iput i) := by
  unfold State.iput
  split
  · exact .of_eq rfl
  · split
    · intro j
      by_cases hj : j = i
      · subst hj
        exact .inr (Function.update_self ..)
      · exact .inl (Function.update_of_ne hj ..)
    · exact .of_eq rfl

theorem igetLoop_spared {n : Nat} (h : igetLoop n fs i = some (r', fs')) : Spared fs fs' := by
  induction n generalizing fs i with
  | zero => cases h
  | succ n ih =>
    unfold igetLoop at h
    split at h
    · cases h
    · have hhold : Spared fs (fs.hold i) := .of_eq rfl
      dsimp only at h
      split at h
      · cases hk : mountedOn (fs.hold i) i with
        | none =>
          rw [hk] at h
          cases h
          exact hhold
        | some k =>
          rw [hk] at h
          exact (hhold.trans (.iput _ i)).trans (ih h)
      · cases h
        exact hhold

theorem iget_spared {n : Nat} (h : iget n fs i = some (r', fs')) : Spared fs fs' :=
  igetLoop_spared (iget_some h).2

theorem holding_spared (fs : State) (dev : Dev) (bh : Option Block) :
    Spared fs (holding fs dev bh) := by
  cases bh with
  | none => exact .refl fs
  | some block => exact .of_eq rfl

theorem dotdot_spared {name : List Byte} {len len' : Nat} {dir m : Id}
    (h : dotdot t fs dir name len = (m, len', fs')) : Spared fs fs' := by
  unfold dotdot at h
  split at h
  · split at h
    · cases h
      exact .refl fs
    · split at h
      · cases h
        exact (Spared.iput fs dir).trans (.of_eq rfl)
      · cases h
        exact .refl fs
  · cases h
    exact .refl fs

theorem findEntry_spared {name : List Byte} {namelen : Nat} {dir m : Id}
    {found : Option (Block × DirEntry)} (h : findEntry t fs dir name namelen = (m, found, fs')) :
    Spared fs fs' := by
  unfold findEntry at h
  dsimp only at h
  generalize (if namelen > 14 then 14 else namelen) = len at h
  split at h
  · cases h
    exact .refl fs
  · cases hdot : dotdot t fs dir name len with
    | mk m' p =>
      obtain ⟨len', fs1⟩ := p
      rw [hdot] at h
      dsimp only at h
      obtain ⟨rfl, hin⟩ := Prod.mk.inj h
      rw [findIn_holding hin]
      exact (dotdot_spared hdot).trans (holding_spared fs1 m'.dev _)

theorem follow_spared {dir i : Id} {block : Block} {de : DirEntry}
    (h : follow fs dir block de = some (i, fs')) : Spared fs fs' := by
  unfold follow at h
  have hback : Spared fs (fs.brelse dir.dev block) := .of_eq rfl
  exact (hback.trans (.iput _ dir)).trans (iget_spared h)

theorem getDirLoop_spared {n : Nat} {inode : Id} {pathname : List Byte}
    (h : getDirLoop t n fs inode pathname = some (r, fs')) : Spared fs fs' := by
  induction n generalizing fs inode pathname with
  | zero => cases h
  | succ n ih =>
    unfold getDirLoop at h
    split at h
    · cases h
      exact .iput fs inode
    · dsimp only at h
      split at h
      · cases h
        exact .refl _
      · cases hfind : findEntry t fs inode pathname (nameLen pathname) with
        | mk dir p =>
          obtain ⟨found, fs1⟩ := p
          rw [hfind] at h
          have S := findEntry_spared hfind
          cases found with
          | none =>
            cases h
            exact S.trans (.iput fs1 dir)
          | some e =>
            dsimp only at h
            split at h
            · cases h
            · next hf => exact (S.trans (follow_spared hf)).trans (ih h)

theorem getDirInode_spared {pathname : List Byte} (h : getDirInode t fs pathname = some (r, fs')) :
    Spared fs fs' := by
  unfold getDirInode at h
  have hhold : ∀ i, Spared fs (fs.hold i) := fun i => .of_eq rfl
  split at h
  · cases h
  · cases pathname with
    | nil =>
      cases h
      exact .refl fs
    | cons c p =>
      dsimp only at h
      split at h
      · exact (hhold t.root).trans (getDirLoop_spared h)
      · exact (hhold t.pwd).trans (getDirLoop_spared h)

/-- `namei` changes no inode, but for those it destroys. -/
theorem namei_spared {pathname : List Byte} (h : namei t fs pathname = some (r, fs')) :
    Spared fs fs' := by
  have hdirNamei : ∀ {res fs1}, dirNamei t fs pathname = some (res, fs1) → Spared fs fs1 := by
    intro res fs1 hdir
    obtain ⟨⟨node, fs2⟩, hdir, heq⟩ := Option.map_eq_some_iff.mp hdir
    cases heq
    exact getDirInode_spared hdir
  unfold namei at h
  split at h
  · cases h
  · next hdir =>
    cases h
    exact hdirNamei hdir
  · next dir basename fs1 hdir =>
    have S := hdirNamei hdir
    dsimp only at h
    split at h
    · cases h
      exact S
    · cases hfind : findEntry t fs1 dir basename basename.length with
      | mk m p =>
        obtain ⟨found, fs2⟩ := p
        rw [hfind] at h
        have S' := findEntry_spared hfind
        cases found with
        | none =>
          cases h
          exact (S.trans S').trans (.iput fs2 m)
        | some e =>
          obtain ⟨⟨i, fs3⟩, hf, heq⟩ := Option.map_eq_some_iff.mp h
          cases heq
          exact (S.trans S').trans (follow_spared hf)

end Linux011.Fs
