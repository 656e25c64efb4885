import Linux011.Directory.Add
import Mathlib.Data.List.GetD

/-!
# Lookup after insertion

In a directory without holes `find_entry` finds the first entry with the name, and `add_entry` takes the
first free entry or the one behind the last. So the new entry is the only difference that a lookup can
see.

Both cut a name to `nameLen` bytes, and `add_entry` fills up with zeros; as a name has no zero in it, the
entry matches that name and no other. The name `..` is the exception: in a pseudo-root it is looked up as
`.`, and in the root of a mounted file system in another directory.
-/

namespace Linux011.Directory

open Linux011.Lib

variable {D : Dir} {name w : List Byte} {f : Nat → DirEntry} {i j k l m : Nat} {e : DirEntry}
  {site : Site}

/-- A name that comes from a path. -/
structure Name where
  chars : List Byte
  nonempty : chars ≠ []
  nul_free : 0 ∉ chars

/-- A directory whose size is a number of entries, all of them in blocks that can be read. -/
structure Dir.Mapped (D : Dir) : Prop where
  pos : 0 < D.entries
  size : D.size = D.entries * dirEntrySize
  page : ∀ k, entriesPerBlock * k < D.entries → (D.page? k).isSome

/-- `de->inodenr = i`. -/
def Dir.setInode (D : Dir) (p : Ref) (i : BitVec 16) : Dir :=
  match D.block p.1 with
  | .data f => D.store p { f p.2 with inodenr := i }
  | _ => D

/-- What `find_entry` returns. -/
def lookup (site : Site) (D : Dir) (name : List Byte) : Except Fault (Option Ref) :=
  (findEntry site D name).map Prod.fst

/-- The pointer to the entry `l`. -/
def ref (l : Nat) : Ref := (l / entriesPerBlock, l % entriesPerBlock)

/-! ## Lookups -/

/-- The name is the one of the entry `l`, and the entry is before the end. -/
def Dir.Has (D : Dir) (name : List Byte) (l : Nat) : Prop := l < D.entries ∧ D.Occurs name l

/-- A directory without holes is no trap. -/
theorem Dir.Mapped.no_trap (h : D.Mapped) : ¬ FindTrap D D.entries k := by
  rintro ⟨_, hlt, hbad⟩
  obtain ⟨f, hf⟩ := Option.isSome_iff_exists.1 (h.page k hlt)
  rcases hbad with hbig | ⟨hno, _⟩
  · have := (page?_some hf).1
    omega
  · rw [hf] at hno
    cases hno

theorem Dir.Mapped.first_block (h : D.Mapped) : ∃ f, D.block 0 = .data f := by
  obtain ⟨f, hf⟩ := Option.isSome_iff_exists.1 (h.page 0 h.pos)
  exact ⟨f, (page?_some hf).2⟩

/-- `find_entry` returns the first entry with the name. -/
theorem lookup_first (h : D.Mapped) (hname : name ≠ []) (hsite : site.searched D name = D) :
    (∃ l, First (D.Has (site.wanted name)) 0 l ∧ lookup site D name = .ok (some (ref l))) ∨
      ((∀ l, ¬ D.Has (site.wanted name) l) ∧ lookup site D name = .ok none) := by
  obtain ⟨f, hf⟩ := h.first_block
  have hends := findEntry_ends site hname (f := f) (by rw [hsite, hf])
  rw [hsite] at hends
  unfold lookup
  generalize findEntry site D name = r at hends
  cases hends with
  | found hfirst hl ha =>
    cases ha
    refine .inl ⟨_, hfirst.congr fun m _ _ => ?_, rfl⟩
    refine ⟨fun hor => hor.resolve_right ?_, .inl⟩
    rintro ⟨k, rfl, hk⟩
    exact h.no_trap hk
  | missed hno ha =>
    rename_i a
    obtain ⟨r, c⟩ := a
    obtain ⟨rfl, _⟩ : r = none ∧ _ := ha
    exact .inr ⟨fun l hl => hno l (Nat.zero_le l) (.inl hl), rfl⟩
  | trapped _ ht =>
    obtain ⟨k, _, hk⟩ := ht
    exact absurd hk h.no_trap

/-- A lookup depends only on where the name is. -/
theorem lookup_congr {D' : Dir} (h : D.Mapped) (h' : D'.Mapped) (hname : name ≠ [])
    (hsite : site.searched D name = D) (hsite' : site.searched D' name = D')
    (hhas : ∀ l, D.Has (site.wanted name) l ↔ D'.Has (site.wanted name) l) :
    lookup site D' name = lookup site D name := by
  rcases lookup_first h hname hsite with ⟨l, hl, hok⟩ | ⟨hno, hok⟩
  · rcases lookup_first h' hname hsite' with ⟨l', hl', hok'⟩ | ⟨hno', hok'⟩
    · obtain rfl := (hl.congr fun m _ _ => hhas m).unique hl'
      rw [hok, hok']
    · exact absurd ((hhas l).1 hl.holds) (hno' l)
  · rcases lookup_first h' hname hsite' with ⟨l', hl', hok'⟩ | ⟨hno', hok'⟩
    · exact absurd ((hhas l').2 hl'.holds) (hno l')
    · rw [hok, hok']

/-- `..` does not cross a mount point here. -/
def Site.Stays (site : Site) (D : Dir) (name : List Byte) : Prop :=
  name = dotdot → site.isRoot = true ∨ D.num ≠ rootIno ∨ site.mount = none

/-- The name is looked up as it is. -/
def Site.Plain (site : Site) (D : Dir) (name : List Byte) : Prop :=
  name = dotdot → site.isRoot = false ∧ (D.num ≠ rootIno ∨ site.mount = none)

theorem take_eq_dotdot : name.take nameLen = dotdot ↔ name = dotdot := by
  constructor
  · intro h
    have hlen : (name.take nameLen).length = 2 := by rw [h]; rfl
    have : name.length ≤ nameLen := by
      simp only [List.length_take, nameLen] at hlen ⊢
      omega
    rwa [List.take_of_length_le this] at h
  · rintro rfl
    rfl

theorem Site.Stays.searched (h : site.Stays D name) : site.searched D name = D := by
  unfold Site.searched
  split
  · rename_i hc
    obtain ⟨hdd, hroot, hnum⟩ := hc
    rcases h (take_eq_dotdot.1 hdd) with hr | hn | hm
    · rw [hroot] at hr
      cases hr
    · exact absurd hnum hn
    · rw [hm]
      rfl
  · rfl

theorem Site.Plain.stays (h : site.Plain D name) : site.Stays D name := fun hdd => .inr (h hdd).2

theorem Site.Plain.wanted (h : site.Plain D name) : site.wanted name = name.take nameLen := by
  unfold Site.wanted
  split
  · rename_i hc
    have := (h (take_eq_dotdot.1 hc.1)).1
    simp [this] at hc
  · rfl

/-! ## The new entry -/

theorem getD_mem_of_lt (h : i < w.length) : w.getD i 0 ∈ w := by
  rw [List.getD_eq_getElem w 0 h]
  exact List.getElem_mem h

/-- A name that is filled up with zeros is matched by itself only. -/
theorem matchName_padded {i : BitVec 16} (hi : i ≠ 0) (hlen : w.length ≤ nameLen)
    (hlen' : name.length ≤ nameLen)
    (hw : 0 ∉ w) (hname : 0 ∉ name) : matchName w ⟨i, (name.getD · 0)⟩ = true ↔ w = name := by
  unfold matchName
  rw [decide_eq_true_iff]
  constructor
  · rintro ⟨_, _, hend, heq⟩
    have hle : ¬ w.length < name.length := by
      intro hlt
      have hz := hend (by omega)
      exact hname (hz ▸ getD_mem_of_lt hlt)
    have hge : ¬ name.length < w.length := by
      intro hlt
      have hz : name.getD name.length 0 = w.getD name.length 0 := heq name.length hlt
      rw [List.getD_eq_default _ _ (Nat.le_refl _)] at hz
      exact hw (hz ▸ getD_mem_of_lt hlt)
    refine List.ext_getElem (by omega) fun n hn hn' => ?_
    have : name.getD n 0 = w.getD n 0 := heq n hn
    rw [List.getD_eq_getElem _ _ hn', List.getD_eq_getElem _ _ hn] at this
    exact this.symm
  · rintro rfl
    exact ⟨hi, hlen, fun _ => List.getD_eq_default _ _ (Nat.le_refl _), fun _ _ => rfl⟩

/-- Nothing matches an entry without an inode. -/
theorem matchName_zero (w : List Byte) (g : Nat → Byte) : matchName w ⟨0, g⟩ = false := by
  simp [matchName]

theorem page?_store (h : D.page? k = some f) (e : DirEntry) :
    (D.store (k, j) e).page? m = if m = k then some (Function.update f j e) else D.page? m := by
  obtain ⟨hk, hf⟩ := page?_some h
  rw [store_data hf]
  by_cases hm : m = k
  · subst hm
    simp [Dir.page?, Nat.not_le.2 hk]
  · simp [Dir.page?, hm]

theorem slot?_store (h : (D.page? (l / entriesPerBlock)).isSome) (e : DirEntry) :
    (D.store (ref l) e).slot? m = if m = l then some e else D.slot? m := by
  obtain ⟨f, hf⟩ := Option.isSome_iff_exists.1 h
  unfold Dir.slot?
  rw [ref, page?_store hf]
  by_cases hm : m / entriesPerBlock = l / entriesPerBlock
  · rw [if_pos hm]
    by_cases hml : m = l
    · subst hml
      simp
    · have hne : m % entriesPerBlock ≠ l % entriesPerBlock := by
        simp only [entriesPerBlock] at hm ⊢
        omega
      simp [hne, hml, hm, hf]
  · have hml : m ≠ l := fun he => hm (he ▸ rfl)
    rw [if_neg hm, if_neg hml]

/-- The entry `l` is free. -/
def Dir.Free (D : Dir) (l : Nat) : Prop := ∃ e, D.slot? l = some e ∧ e.inodenr = 0

/-- `D'` is `D` with the entry `l` for a name with the inode `i`, where `l` is the first free entry or the
end. -/
structure Inserted (D : Dir) (name : List Byte) (i : BitVec 16) (l : Nat) (D' : Dir) : Prop where
  le : l ≤ D.entries
  first : ∀ m < l, ¬ D.Free m
  free : l < D.entries → D.Free l
  num : D'.num = D.num
  size : D'.size = if l < D.entries then D.size else D.size + dirEntrySize
  page : (D'.page? (l / entriesPerBlock)).isSome
  pages : ∀ k, (D.page? k).isSome → (D'.page? k).isSome
  entry : D'.slot? l = some ⟨i, (name.getD · 0)⟩
  others : ∀ m < D.entries, m ≠ l → D'.slot? m = D.slot? m

theorem page?_store_isSome (h : (D.page? (l / entriesPerBlock)).isSome) (e : DirEntry) (k : Nat) :
    ((D.store (ref l) e).page? k).isSome = (D.page? k).isSome := by
  obtain ⟨f, hf⟩ := Option.isSome_iff_exists.1 h
  rw [ref, page?_store hf]
  by_cases hk : k = l / entriesPerBlock
  · rw [if_pos hk, hk, hf]
    rfl
  · rw [if_neg hk]

/-- `put` changes one entry. -/
theorem slot?_put (h : (D.page? (l / entriesPerBlock)).isSome) :
    (D.put name l).slot? m = if m = l then some ⟨0, (name.getD · 0)⟩ else D.slot? m :=
  slot?_store h _

theorem page?_put_isSome (h : (D.page? (l / entriesPerBlock)).isSome) :
    ((D.put name l).page? k).isSome = (D.page? k).isSome :=
  page?_store_isSome h _ k

theorem page?_fill (hk : k < maxBlocks) :
    (D.fill k).page? m = if m = k then some fun _ => ⟨0, fun _ => 0⟩ else D.page? m := by
  by_cases hm : m = k
  · subst hm
    simp [Dir.page?, Dir.fill, Nat.not_le.2 hk]
  · simp [Dir.page?, Dir.fill, hm]

/-- An entry that is in no block is not filled. -/
theorem slot?_fill (hk : k < maxBlocks) (hm : m / entriesPerBlock ≠ k)
    : (D.fill k).slot? m = D.slot? m := by
  simp [Dir.slot?, page?_fill hk, hm]

theorem num_store (D : Dir) (p : Ref) (e : DirEntry) : (D.store p e).num = D.num := by
  unfold Dir.store
  split <;> rfl

theorem size_store (D : Dir) (p : Ref) (e : DirEntry) : (D.store p e).size = D.size := by
  unfold Dir.store
  split <;> rfl

/-- The entry behind the last is where `add_entry` comes to its end. -/
theorem Dir.Mapped.stop (h : D.Mapped) : AddHit D D.entries ∨ AtBlock (AddTrap D) D.entries := by
  have hsize : D.size ≤ D.entries * dirEntrySize := Nat.le_of_eq h.size
  cases hp : D.page? (D.entries / entriesPerBlock) with
  | some f => exact .inl (.inl ⟨f (D.entries % entriesPerBlock), by simp [Dir.slot?, hp], .inl hsize⟩)
  | none =>
    have hge : D.entries ≤ entriesPerBlock * (D.entries / entriesPerBlock) := by
      refine Nat.le_of_not_lt fun hlt => ?_
      have := h.page _ hlt
      rw [hp] at this
      cases this
    have heq : D.entries = entriesPerBlock * (D.entries / entriesPerBlock) :=
      Nat.le_antisymm hge (Nat.mul_div_le _ _)
    have hpos : 1 ≤ D.entries / entriesPerBlock := by
      have := h.pos
      simp only [entriesPerBlock] at heq ⊢
      omega
    by_cases hbig : maxBlocks ≤ D.entries / entriesPerBlock
    · exact .inr ⟨_, heq, hpos, .inl hbig⟩
    · cases hb : D.block (D.entries / entriesPerBlock) with
      | data f =>
        rw [page?_data hb (by omega)] at hp
        cases hp
      | hole => exact .inl (.inr ⟨_, heq, hpos, by omega, hb⟩)
      | unreadable => exact .inr ⟨_, heq, hpos, .inr hb⟩

/-- What stops `add_entry` before the end is a free entry. -/
theorem Dir.Mapped.hit_free (h : D.Mapped) (hl : l < D.entries) : AddHit D l ↔ D.Free l := by
  constructor
  · rintro (⟨e, he, hsize | hfree⟩ | ⟨k, rfl, _, _, hhole⟩)
    · rw [h.size, Nat.mul_le_mul_right_iff (by decide)] at hsize
      omega
    · exact ⟨e, he, hfree⟩
    · obtain ⟨f, hf⟩ := Option.isSome_iff_exists.1 (h.page k hl)
      rw [(page?_some hf).2] at hhole
      cases hhole
  · rintro ⟨e, he, hfree⟩
    exact .inl ⟨e, he, .inr hfree⟩

/-- Where `add_entry` comes to its end. -/
theorem Dir.Mapped.add_first (h : D.Mapped) (hfirst : First (fun m => AddHit D m ∨ AtBlock (AddTrap D)
    m) 0 l)
    (hl : AddHit D l) : l ≤ D.entries ∧ (∀ m < l, ¬ D.Free m) ∧ (l < D.entries → D.Free l) := by
  refine ⟨Nat.le_of_not_lt fun hlt => hfirst.before _ (Nat.zero_le _) hlt h.stop, fun m hm hfree => ?_,
    fun hlt => (h.hit_free hlt).1 hl⟩
  obtain ⟨e, he, hz⟩ := hfree
  exact hfirst.before m (Nat.zero_le m) hm (.inl (.inl ⟨e, he, .inr hz⟩))

theorem Dir.Mapped.size_le (h : D.Mapped) : D.size ≤ l * dirEntrySize ↔ ¬ l < D.entries := by
  rw [h.size, Nat.mul_le_mul_right_iff (by decide), Nat.not_lt]

/-- What `add_entry` returns, where it succeeds. -/
theorem addEntry_inserted (h : D.Mapped) (hname : name ≠ []) {room : Nat → Bool} {p : Ref} {D' : Dir}
    {c : Cursor}
    (hadd : addEntry room D name = .ok (some p, D', c)) :
    ∃ l, p = ref l ∧ Inserted D (name.take nameLen) 0 l D' := by
  obtain ⟨f, hf⟩ := h.first_block
  have hends := addEntry_ends room hname hf
  rw [hadd] at hends
  cases hends with
  | missed _ ha => exact absurd ha id
  | found hfirst hl ha =>
    rename_i l
    obtain ⟨hle, hbefore, hfree⟩ := h.add_first hfirst hl
    have hgrow : (l + 1) * dirEntrySize = l * dirEntrySize + dirEntrySize := Nat.succ_mul l dirEntrySize
    have hsize : (if D.size ≤ l * dirEntrySize then (l + 1) * dirEntrySize else D.size) =
        if l < D.entries then D.size else D.size + dirEntrySize := by
      by_cases hlt : l < D.entries
      · rw [if_pos hlt, if_neg fun hs => h.size_le.1 hs hlt]
      · have : l = D.entries := by omega
        rw [if_neg hlt, if_pos (h.size_le.2 hlt), hgrow, this, ← h.size]
    cases ha with
    | written hpage =>
      refine ⟨l, rfl, hle, hbefore, hfree, num_store .., hsize, ?_, fun k hk => ?_, ?_, fun m _ hne => ?_⟩
      · rwa [page?_put_isSome hpage]
      · rwa [page?_put_isSome hpage]
      · rw [slot?_put hpage, if_pos rfl]
      · rw [slot?_put hpage, if_neg hne]
    | filled hhole hroom =>
      have hsmall : l / entriesPerBlock < maxBlocks := by
        rcases hl with ⟨e, he, _⟩ | ⟨k, rfl, _, hk, _⟩
        · rw [Dir.slot?] at he
          obtain ⟨g, hg, _⟩ := Option.map_eq_some_iff.1 he
          exact (page?_some hg).1
        · rwa [Nat.mul_div_cancel_left k (by decide)]
      have hno : D.page? (l / entriesPerBlock) = none := by simp [Dir.page?, hhole]
      have hpage : ((D.fill (l / entriesPerBlock)).page? (l / entriesPerBlock)).isSome := by
        rw [page?_fill hsmall, if_pos rfl]
        rfl
      refine ⟨l, rfl, hle, hbefore, hfree, num_store .., hsize, ?_, fun k hk => ?_, ?_,
        fun m hm hne => ?_⟩
      · rwa [page?_put_isSome hpage]
      · rw [page?_put_isSome hpage, page?_fill hsmall]
        split
        · rfl
        · exact hk
      · rw [slot?_put hpage, if_pos rfl]
      · rw [slot?_put hpage, if_neg hne]
        refine slot?_fill hsmall fun heq => ?_
        have := h.page (m / entriesPerBlock) (Nat.lt_of_le_of_lt (Nat.mul_div_le _ _) hm)
        rw [heq, hno] at this
        cases this

/-- Another inode in the new entry. -/
theorem Inserted.setInode {i i' : BitVec 16} {D' : Dir} (h : Inserted D name i l D') :
    Inserted D name i' l (D'.setInode (ref l) i') := by
  obtain ⟨f, hf⟩ := Option.isSome_iff_exists.1 h.page
  have hentry : f (l % entriesPerBlock) = ⟨i, (name.getD · 0)⟩ := by
    have := h.entry
    simp only [Dir.slot?, hf, Option.map_some, Option.some_inj] at this
    exact this
  have hset : D'.setInode (ref l) i' = D'.store (ref l) ⟨i', (name.getD · 0)⟩ := by
    simp only [Dir.setInode, ref, (page?_some hf).2, hentry]
  rw [hset]
  refine ⟨h.le, h.first, h.free, by rw [num_store, h.num], by rw [size_store, h.size], ?_,
    fun k hk => ?_, ?_,
    fun m hm hne => ?_⟩
  · rw [page?_store_isSome h.page]
    exact h.page
  · rw [page?_store_isSome h.page]
    exact h.pages k hk
  · rw [slot?_store h.page, if_pos rfl]
  · rw [slot?_store h.page, if_neg hne]
    exact h.others m hm hne

namespace Inserted

variable {D' : Dir} {i : BitVec 16}

theorem entries (h : Inserted D name i l D') : D'.entries = if l < D.entries then D.entries
    else D.entries + 1 := by
  have hs := h.size
  by_cases hl : l < D.entries
  · rw [if_pos hl] at hs ⊢
    rw [Dir.entries, hs, Dir.entries]
  · rw [if_neg hl] at hs ⊢
    rw [Dir.entries, hs]
    exact Nat.add_div_right D.size (Nat.succ_pos 15)

theorem mapped (h : Inserted D name i l D') (hD : D.Mapped) : D'.Mapped := by
  refine ⟨?_, ?_, fun k hk => ?_⟩
  · rw [h.entries]
    have := hD.pos
    split <;> omega
  · rw [h.entries, h.size]
    split
    · exact hD.size
    · rw [Nat.succ_mul, ← hD.size]
  · rcases Nat.lt_or_ge (entriesPerBlock * k) D.entries with hlt | hge
    · exact h.pages k (hD.page k hlt)
    · rw [h.entries] at hk
      have hle := h.le
      have heq : l = entriesPerBlock * k := by
        split at hk <;> omega
      have := h.page
      rwa [heq, Nat.mul_div_cancel_left k (by decide)] at this

/-- The new entry is the only difference. -/
theorem has (h : Inserted D name i l D') :
    D'.Has w m ↔ (m = l ∧ w ≠ [] ∧ matchName w ⟨i, (name.getD · 0)⟩ = true) ∨ D.Has w m := by
  have hle := h.le
  have hentries := h.entries
  by_cases hm : m = l
  · subst hm
    have hlt : m < D'.entries := by
      rw [hentries]
      split <;> omega
    have hno : ¬ D.Has w m := by
      rintro ⟨hlt, _, e, he, hmatch⟩
      obtain ⟨⟨n, g⟩, he', hz⟩ := h.free hlt
      rw [he] at he'
      cases he'
      obtain rfl : n = 0 := hz
      rw [matchName_zero] at hmatch
      cases hmatch
    constructor
    · rintro ⟨_, hw, e, he, hmatch⟩
      rw [h.entry] at he
      cases he
      exact .inl ⟨rfl, hw, hmatch⟩
    · rintro (⟨_, hw, hmatch⟩ | hhas)
      · exact ⟨hlt, hw, _, h.entry, hmatch⟩
      · exact absurd hhas hno
  · have hlt : m < D'.entries ↔ m < D.entries := by
      rw [hentries]
      split <;> omega
    constructor
    · rintro ⟨hm', hw, e, he, hmatch⟩
      rw [h.others m (hlt.1 hm') hm] at he
      exact .inr ⟨hlt.1 hm', hw, e, he, hmatch⟩
    · rintro (⟨heq, _⟩ | ⟨hm', hw, e, he, hmatch⟩)
      · exact absurd heq hm
      · exact ⟨hlt.2 hm', hw, e, by rw [h.others m hm' hm]; exact he, hmatch⟩

theorem stays (h : Inserted D name i l D') (hs : site.Stays D w) : site.Stays D' w := by
  intro hdd
  rw [h.num]
  exact hs hdd

/-- A name that does not match the new entry is looked up as before. -/
theorem lookup_same (h : Inserted D name i l D') (hD : D.Mapped) (hw : w ≠ []) (hs : site.Stays D w)
    (hno : matchName (site.wanted w) ⟨i, (name.getD · 0)⟩ = false)
      : lookup site D' w = lookup site D w := by
  refine lookup_congr hD (h.mapped hD) hw hs.searched (h.stays hs).searched fun m => ?_
  rw [h.has]
  refine ⟨.inr, fun hor => hor.resolve_left ?_⟩
  rintro ⟨_, _, hmatch⟩
  rw [hno] at hmatch
  cases hmatch

/-- A name that matches the new entry and no entry before it is found there. -/
theorem lookup_new (h : Inserted D name i l D') (hD : D.Mapped) (hw : w ≠ []) (hs : site.Stays D w)
    (hmatch : matchName (site.wanted w) ⟨i, (name.getD · 0)⟩ = true)
    (hno : ∀ m < l, ¬ D.Occurs (site.wanted w) m) : lookup site D' w = .ok (some (ref l)) := by
  have hnew : D'.Has (site.wanted w) l := h.has.2 (.inl ⟨rfl, wanted_ne_nil site hw, hmatch⟩)
  have hfirst : First (D'.Has (site.wanted w)) 0 l := by
    refine ⟨Nat.zero_le l, hnew, fun m _ hm hhas => ?_⟩
    rcases h.has.1 hhas with ⟨rfl, _⟩ | ⟨_, ho⟩
    · exact Nat.lt_irrefl m hm
    · exact hno m hm ho
  rcases lookup_first (h.mapped hD) hw (h.stays hs).searched with ⟨l', hl', hok⟩ | ⟨hnone, _⟩
  · rw [hok, hl'.unique hfirst]
  · exact absurd hnew (hnone l)

end Inserted

/-- Where `..` crosses a mount point, a lookup depends only on the number of entries. -/
theorem lookup_crossing {D' : Dir} (hnum : D'.num = D.num) (hentries : D'.entries = D.entries)
    (hs : ¬ site.Stays D w) : lookup site D' w = lookup site D w := by
  simp only [Site.Stays, Classical.not_imp, not_or, Classical.not_not] at hs
  obtain ⟨rfl, hroot, hroot', hmount⟩ := hs
  obtain ⟨C, hC⟩ := Option.ne_none_iff_exists'.1 hmount
  have hsearched : ∀ E : Dir, E.num = D.num → site.searched E dotdot = C := by
    intro E hE
    have hc : dotdot.take nameLen = dotdot ∧ site.isRoot = false ∧ E.num = rootIno :=
      ⟨rfl, by simpa using hroot, by rw [hE, hroot']⟩
    rw [Site.searched, if_pos hc, hC]
    rfl
  simp only [lookup, findEntry, hsearched D' hnum, hsearched D rfl, hentries]

/-! ## Insertion and lookup -/

theorem Name.zero_not_mem (name : Name) : 0 ∉ name.chars.take nameLen :=
  fun h => name.nul_free (List.mem_of_mem_take h)

/-- The lookups after a name is added, after its inode is stored, and after that is cleared again. -/
theorem insertion_agrees (site : Site) (room : Nat → Bool) {D : Dir} (hD : D.Mapped) (name : Name)
    {i : BitVec 16} (hi : i ≠ 0) {p : Ref} {D' : Dir} {c : Cursor}
    (hadd : addEntry room D name.chars = .ok (some p, D', c)) :
    ∃ l, p = ref l ∧
      (∀ name' : Name, name'.chars.take nameLen = name.chars.take nameLen → site.Plain D name'.chars →
        (∀ m < l, ¬ D.Occurs (name.chars.take nameLen) m) →
        lookup site (D'.setInode p i) name'.chars = .ok (some p)) ∧
      (∀ name' : Name, name'.chars.take nameLen ≠ name.chars.take nameLen → name'.chars ≠ dotdot →
        lookup site (D'.setInode p i) name'.chars = lookup site D name'.chars) ∧
      (∀ name' : Name, site.Stays D name'.chars ∨ D'.size = D.size →
        lookup site ((D'.setInode p i).setInode p 0) name'.chars = lookup site D name'.chars) ∧
      (D'.size = D.size + dirEntrySize ↔ ¬ ∃ m < D.entries, D.Free m) ∧
      (D'.size = D.size ↔ ∃ m < D.entries, D.Free m) ∧
      ∀ m < D.entries, D.Free m → (∀ n < m, ¬ D.Free n) → l = m := by
  obtain ⟨l, rfl, hin⟩ := addEntry_inserted hD name.nonempty hadd
  have hset : Inserted D (name.chars.take nameLen) i l (D'.setInode (ref l) i) := hin.setInode
  have hclear : Inserted D (name.chars.take nameLen) 0 l ((D'.setInode (ref l) i).setInode (ref l) 0) :=
    hset.setInode
  have hlen : ∀ chars : List Byte, (chars.take nameLen).length ≤ nameLen := List.length_take_le nameLen
  have hfree : (∃ m < D.entries, D.Free m) ↔ l < D.entries := by
    refine ⟨fun ⟨m, hm, hf⟩ => ?_, fun hl => ⟨l, hl, hin.free hl⟩⟩
    exact Nat.lt_of_le_of_lt (Nat.le_of_not_lt fun hlt => hin.first m hlt hf) hm
  have hgrow : dirEntrySize ≠ 0 := by decide
  refine ⟨l, rfl, fun name' heq hplain hno => ?_, fun name' hne hdd => ?_, fun name' hs => ?_, ?_, ?_,
    fun m hm hf hfirst => ?_⟩
  · refine hset.lookup_new hD name'.nonempty hplain.stays ?_ ?_
    · rw [hplain.wanted, heq]
      exact (matchName_padded hi (hlen _) (hlen _) name.zero_not_mem name.zero_not_mem).2 rfl
    · rw [hplain.wanted, heq]
      exact hno
  · have hplain : site.Plain D name'.chars := fun h => absurd h hdd
    refine hset.lookup_same hD name'.nonempty hplain.stays ?_
    rw [hplain.wanted, Bool.eq_false_iff]
    exact fun hm =>
      hne ((matchName_padded hi (hlen _) (hlen _) name'.zero_not_mem name.zero_not_mem).1 hm)
  · by_cases hstays : site.Stays D name'.chars
    · exact hclear.lookup_same hD name'.nonempty hstays (matchName_zero _ _)
    · have hsize : D'.size = D.size := hs.resolve_left hstays
      have hlt : l < D.entries := by
        by_contra hnot
        have := hin.size
        rw [if_neg hnot] at this
        omega
      refine lookup_crossing hclear.num ?_ hstays
      rw [hclear.entries, if_pos hlt]
  · rw [hfree, hin.size]
    split <;> omega
  · rw [hfree, hin.size]
    split <;> omega
  · rcases Nat.lt_trichotomy l m with hlt | heq | hlt
    · exact absurd (hin.free (hlt.trans hm)) (hfirst l hlt)
    · exact heq
    · exact absurd hf (hin.first m hlt)

/-- A directory with the entries `.`, `..`, and a free one. -/
def three : Dir where
  num := 5
  size := 3 * dirEntrySize
  block _ := .data fun j =>
    if j = 0 then ⟨5, (dot.getD · 0)⟩ else if j = 1 then ⟨1, (dotdot.getD · 0)⟩ else ⟨0, fun _ => 0⟩

theorem three_mapped : three.Mapped := by
  refine ⟨by decide, by decide, fun k hk => ?_⟩
  have hlt : entriesPerBlock * k < 3 := hk
  have : ¬ maxBlocks ≤ k := by
    simp only [entriesPerBlock, maxBlocks] at hlt ⊢
    omega
  simp [Dir.page?, three, this]

def nameA : Name := ⟨[97], by decide, by decide⟩

theorem insertion_agrees_three : ∃ p D' c, addEntry (fun _ => false) three nameA.chars = .ok
    (some p, D', c) ∧
    ∃ l, p = ref l ∧
      ∀ name' : Name, name'.chars.take nameLen ≠ nameA.chars.take nameLen → name'.chars ≠ dotdot →
        lookup ⟨true, none⟩ (D'.setInode p 9) name'.chars = lookup ⟨true, none⟩ three name'.chars := by
  have hadd : ∃ c, addEntry (fun _ => false) three nameA.chars = .ok
    (some (ref 2), three.put [97] 2, c) := ⟨_, rfl⟩
  obtain ⟨c, hadd⟩ := hadd
  obtain ⟨l, hl, _, hother, _⟩ :=
    insertion_agrees ⟨true, none⟩ (fun _ => false) three_mapped nameA (i := 9) (by decide) hadd
  exact ⟨ref 2, _, c, hadd, l, hl, hother⟩

/-- A directory with the entry `.` alone, which is the root of a file system. -/
def one : Dir where
  num := rootIno
  size := dirEntrySize
  block _ := .data fun _ => ⟨1, (dot.getD · 0)⟩

def nameDotdot : Name := ⟨dotdot, by decide, by decide⟩

/-- In a pseudo-root the new entry `..` is not found. In the root of a mounted file system the name `..`,
which was not found before, is found when `a` is added and cleared again. -/
theorem one_differs : one.Mapped ∧
    (∃ p D' c, addEntry (fun _ => false) one nameDotdot.chars = .ok (some p, D', c) ∧
      (∀ m < one.entries, ¬ one.Occurs nameDotdot.chars m) ∧
      (lookup ⟨true, none⟩ (D'.setInode p 9) nameDotdot.chars).toOption ≠ some (some p)) ∧
    ∃ p D' c, addEntry (fun _ => false) one nameA.chars = .ok (some p, D', c) ∧
      (lookup ⟨false, some three⟩ ((D'.setInode p 9).setInode p 0) nameDotdot.chars).toOption ≠
        (lookup ⟨false, some three⟩ one nameDotdot.chars).toOption := by
  have hmapped : one.Mapped := by
    refine ⟨by decide, by decide, fun k hk => ?_⟩
    have hlt : entriesPerBlock * k < 1 := hk
    have : ¬ maxBlocks ≤ k := by
      simp only [entriesPerBlock, maxBlocks] at hlt ⊢
      omega
    simp [Dir.page?, one, this]
  refine ⟨hmapped, ⟨_, _, _, rfl, fun m hm => ?_, ?_⟩, ⟨_, _, _, rfl, ?_⟩⟩
  · have hlt : m < 1 := hm
    obtain rfl : m = 0 := by omega
    rintro ⟨_, e, he, hmatch⟩
    cases he
    revert hmatch
    decide
  · decide +kernel
  · decide +kernel

end Linux011.Directory
