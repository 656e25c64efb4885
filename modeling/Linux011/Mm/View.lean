import Linux011.Mm.Operations

/-!
# What a page-table entry shows

A task sees memory through its page-table entries. The VIEW of an entry is what matters about it to
the task and to the paging code: whether a page is there, whether it is one of the kernel's own
pages below `LOW_MEM`, and otherwise the dirty bit and the bytes of the page. The R/W bit and the
frame number are not part of it: they change under a task that does nothing.

The specification lemmas of the paging code are restated here for views. Most operations change the
view of one entry, and none changes the view of an entry that it does not name.
-/

namespace Linux011.Mm

/-- What an entry shows. -/
inductive View where
  | absent
  | low
  | page (dirty : Bool) (content : Nat → Word)

/-- The view of entry `i` of the table at directory entry `d`. -/
def cellView (m : Mem) (d i : Nat) : View :=
  if present (m.pte d i) then
    if frame (m.pte d i) < lowMem then .low
    else .page (dirty (m.pte d i)) (m.ram (frame (m.pte d i)))
  else .absent

/-- The bytes of a view, without the dirty bit. -/
def View.content : View → Option (Nat → Word)
  | .absent => none
  | .low => none
  | .page _ c => some c

variable {lo hi : Nat} {m m' : Mem} {held : Nat → Bool}

theorem cellView_absent {d i : Nat} : cellView m d i = .absent ↔ present (m.pte d i) = false := by
  unfold cellView
  cases present (m.pte d i) with
  | false => simp
  | true =>
    simp only [if_true]
    split <;> simp

theorem cellView_present {d i : Nat} (hp : present (m.pte d i) = true) :
    cellView m d i ≠ .absent := by
  intro h
  rw [cellView_absent.mp h] at hp
  cases hp

theorem cellView_page {d i : Nat} (hp : present (m.pte d i) = true)
    (hl : lowMem ≤ frame (m.pte d i)) :
    cellView m d i = .page (dirty (m.pte d i)) (m.ram (frame (m.pte d i))) := by
  rw [cellView, if_pos hp, if_neg (Nat.not_lt.mpr hl)]

theorem cellView_eq_page {d i : Nat} {b : Bool} {c : Nat → Word} (h : cellView m d i = .page b c) :
    present (m.pte d i) = true ∧ lowMem ≤ frame (m.pte d i) ∧ dirty (m.pte d i) = b ∧
      m.ram (frame (m.pte d i)) = c := by
  unfold cellView at h
  split at h
  · split at h
    · cases h
    · next hp hl =>
      cases h
      exact ⟨hp, Nat.not_lt.mp hl, rfl, rfl⟩
  · cases h

/-- An entry that at most lost its R/W bit, over memory whose data stayed, shows what it showed. -/
theorem cellView_soft {d i : Nat} (hs : Soft (m.pte d i) (m'.pte d i))
    (hr : ∀ g, Data m held g → m'.ram g = m.ram g) : cellView m' d i = cellView m d i := by
  unfold cellView
  rw [hs.present, hs.frame, hs.dirty]
  split
  · next hp =>
    split
    · rfl
    · next hl => rw [hr _ (Or.inr ⟨Nat.not_lt.mp hl, d, i, hp, rfl⟩)]
  · rfl

/-- The same for an entry that did not change at all. -/
theorem cellView_same {d i : Nat} (hs : m'.pte d i = m.pte d i)
    (hr : ∀ g, Data m held g → m'.ram g = m.ram g) : cellView m' d i = cellView m d i :=
  cellView_soft (Or.inl hs) hr

theorem cellView_userEntry {d i page : Nat} (hlt : page < 2 ^ 20) (hl : lowMem ≤ page)
    (h : m.pte d i = userEntry page) : cellView m d i = .page false (m.ram page) := by
  rw [cellView_page (by rw [h, present_userEntry]) (by rw [h, frame_userEntry hlt]; exact hl), h,
    dirty_userEntry, frame_userEntry hlt]

namespace Sound

theorem frame_range (S : Sound lo hi m held) {f : Nat} (h1 : lo ≤ f) (h2 : f < hi) :
    f < 2 ^ 20 ∧ lowMem ≤ f := by
  have hl := S.acct.low
  have hh := S.acct.high
  simp only [lowMem, pagingPages] at hl hh ⊢
  omega

end Sound

theorem getFreePage_view (S : Sound lo hi m held) {f : Nat} (h : getFreePage m = some (f, m'))
    (d i : Nat) : cellView m' d i = cellView m d i := by
  have F := getFreePage_spec S h
  exact cellView_same (by rw [F.pte]) fun g hg => F.keeps g ((F.new S).2 hg)

theorem freePage_view (S : Sound lo hi m held) {f : Nat} (hf : held f = true) :
    ∃ m', freePage f m = .ok () m' ∧ Sound lo hi m' (Function.update held f false) ∧
      m'.dirv = m.dirv ∧ m'.ram = m.ram ∧ ∀ d i, cellView m' d i = cellView m d i := by
  obtain ⟨m', hm, S', vd, vp, vr⟩ := freePage_held S hf
  have hkeep : ∀ g, Data m held g → m'.ram g = m.ram g := fun g _ => by rw [vr]
  exact ⟨m', hm, S', vd, vr, fun d i => cellView_same (by rw [vp]) hkeep⟩

/-- Filling a held page shows nowhere. -/
theorem fill_view (S : Sound lo hi m held) {f : Nat} (hf : held f = true) (p : Nat → Word) :
    Sound lo hi (m.fill f p) held ∧ (m.fill f p).dirv = m.dirv ∧ (m.fill f p).ram f = p ∧
      (∀ g, g ≠ f → (m.fill f p).ram g = m.ram g) ∧
      ∀ d i, cellView (m.fill f p) d i = cellView m d i := by
  have hnt := S.notTable (Or.inl hf)
  have hr := S.acct.heldRange hf
  obtain ⟨vd, vp⟩ := view_fill (p := p) hnt
  refine ⟨S.fill hnt (S.frame_range hr.1 hr.2).2, vd, fill_ram_self, fun g hg => fill_ram_other hg,
    fun d i => ?_⟩
  unfold cellView
  rw [vp]
  split
  · next hp =>
    have hne : frame (m.pte d i) ≠ f := fun h => by
      have := S.acct.pageHeld hp
      rw [h, hf] at this
      cases this
    rw [fill_ram_other hne]
  · rfl

theorem putPage_view (S : Sound lo hi m held) {page address : Nat} (hd : dirIndex address ∈ dirs)
    (ha : cellView m (dirIndex address) (tableIndex address) = .absent) (hp : held page = true) :
    (∃ m', putPage page address m = (true, m') ∧
      Sound lo hi m' (Function.update held page false) ∧
      cellView m' (dirIndex address) (tableIndex address) = .page false (m.ram page) ∧
      (∀ d i, ¬ (d = dirIndex address ∧ i = tableIndex address) →
        cellView m' d i = cellView m d i) ∧
      (∀ d, d ≠ dirIndex address → m'.dirv d = m.dirv d) ∧
      m'.pte = setPte m.pte (dirIndex address) (tableIndex address) (userEntry page)) ∨
    putPage page address m = (false, m) := by
  have hr := S.acct.heldRange hp
  have hf := S.frame_range hr.1 hr.2
  rcases putPage_spec S hd (cellView_absent.mp ha) hp with ⟨m', hm, S', vp, vd, vr⟩ | h
  · refine Or.inl ⟨m', hm, S', ?_, fun d i hne => ?_, fun d hd => vd d (Or.inl hd), vp⟩
    · rw [cellView_userEntry hf.1 hf.2 (by rw [vp, setPte_self]), vr page (Or.inl hp)]
    · exact cellView_same (by rw [vp, setPte_other hne]) vr
  · exact Or.inr h

theorem getEmptyPage_view (S : Sound lo hi m held) {address : Nat} (hd : dirIndex address ∈ dirs)
    (ha : cellView m (dirIndex address) (tableIndex address) = .absent) :
    (∃ m', getEmptyPage address m = .ok () m' ∧ Sound lo hi m' held ∧
      cellView m' (dirIndex address) (tableIndex address) = .page false (fun _ => 0) ∧
      (∀ d i, ¬ (d = dirIndex address ∧ i = tableIndex address) →
        cellView m' d i = cellView m d i) ∧
      (∀ d, d ≠ dirIndex address → m'.dirv d = m.dirv d) ∧
      ∃ page, m'.pte = setPte m.pte (dirIndex address) (tableIndex address) (userEntry page)) ∨
    (∃ m', getEmptyPage address m = .oom m' ∧ Sound lo hi m' held ∧ m'.dirv = m.dirv ∧
      ∀ d i, cellView m' d i = cellView m d i) := by
  rcases getEmptyPage_spec S hd (cellView_absent.mp ha) with
    ⟨m', page, hm, S', hlo, hhi, -, vp, vd, vz, vr⟩ | ⟨m', hm, S', vd, vp, vr⟩
  · have hf := S.frame_range hlo hhi
    refine Or.inl ⟨m', hm, S', ?_, fun d i hne => ?_, fun d hd => vd d (Or.inl hd), page, vp⟩
    · rw [cellView_userEntry hf.1 hf.2 (by rw [vp, setPte_self]), vz]
    · exact cellView_same (by rw [vp, setPte_other hne]) vr
  · exact Or.inr ⟨m', hm, S', vd, fun d i => cellView_same (by rw [vp]) vr⟩

/-- `un_wp_page` makes the entry writable and keeps the bytes it shows. The dirty bit stays when the
page does; the copy of a page is clean, whatever the page was. -/
theorem unWpPage_view (S : Sound lo hi m held) {d i : Nat} (hp : present (m.pte d i) = true) :
    (∃ m', unWpPage (frame (m.dirv d)) i m = .ok () m' ∧ Sound lo hi m' held ∧
      m'.dirv = m.dirv ∧ writable (m'.pte d i) = true ∧
      (∀ d2 i2, ¬ (d2 = d ∧ i2 = i) → cellView m' d2 i2 = cellView m d2 i2) ∧
      (∀ g, held g = true → m'.ram g = m.ram g) ∧
      ((lowMem ≤ frame (m.pte d i) ∧ m.cnt (frame (m.pte d i)) = 1 ∧
          cellView m' d i = cellView m d i) ∨
        (¬ (lowMem ≤ frame (m.pte d i) ∧ m.cnt (frame (m.pte d i)) = 1) ∧
          cellView m' d i = .page false (m.ram (frame (m.pte d i)))))) ∨
    unWpPage (frame (m.dirv d)) i m = .oom m := by
  rcases unWpPage_spec S hp with ⟨m', hm, S', vd, hl, hc, vp, vr⟩ |
    ⟨m', page, hm, S', vd, hc, hlo, hhi, hnew, vp, vpage, vr⟩ | hoom
  · have vr' : ∀ g, Data m held g → m'.ram g = m.ram g := fun g hg => vr g (S.notTable hg)
    refine Or.inl ⟨m', hm, S', vd, ?_, fun d2 i2 hne => ?_, fun g hg => vr' g (Or.inl hg),
      Or.inl ⟨hl, hc, ?_⟩⟩
    · rw [vp, setPte_self]
      exact writable_or_two _
    · exact cellView_same (by rw [vp, setPte_other hne]) vr'
    · have he : m'.pte d i = m.pte d i ||| 2 := by rw [vp, setPte_self]
      rw [cellView_page hp hl, cellView_page (by rw [he, present_or_two, hp])
        (by rw [he, frame_or_two]; exact hl), he, dirty_or_two, frame_or_two,
        vr' _ (Or.inr ⟨hl, d, i, hp, rfl⟩)]
  · have hne : ∀ g, Data m held g → g ≠ page := fun g hg h => hnew (h ▸ hg)
    have vr' : ∀ g, Data m held g → m'.ram g = m.ram g := fun g hg =>
      vr g (S.notTable hg) (hne g hg)
    have hf := S.frame_range hlo hhi
    refine Or.inl ⟨m', hm, S', vd, ?_, fun d2 i2 hne => ?_, fun g hg => vr' g (Or.inl hg),
      Or.inr ⟨hc, ?_⟩⟩
    · rw [vp, setPte_self]
      exact writable_userEntry page
    · exact cellView_same (by rw [vp, setPte_other hne]) vr'
    · rw [cellView_userEntry hf.1 hf.2 (by rw [vp, setPte_self]), vpage]
  · exact Or.inr hoom

theorem freePageTables_view (S : Sound lo hi m held) {nr size : Nat} (h1 : 1 ≤ nr) (h2 : nr < 64)
    (hs : size ≤ 0x4000000) :
    ∃ m', freePageTables (slotBase nr) size m = .ok () m' ∧ Sound lo hi m' held ∧
      (∀ k, k < blocks size → present (m'.dirv (16 * nr + k)) = false) ∧
      (∀ d, d / 16 ≠ nr → m'.dirv d = m.dirv d ∧ ∀ i, cellView m' d i = cellView m d i) ∧
      (∀ k, k < 16 → blocks size ≤ k → m'.dirv (16 * nr + k) = m.dirv (16 * nr + k)) ∧
      ∀ g, Data m held g → m'.ram g = m.ram g := by
  obtain ⟨m', hm, S', vgone, vrest, vram⟩ := freePageTables_spec S h1 h2 hs
  have hb := blocks_le hs
  have vr : ∀ g, Data m held g → m'.ram g = m.ram g := fun g hg => (vram g (S.notTable hg)).1
  refine ⟨m', hm, S', fun k hk => (vgone k hk).1, fun d hd => ?_, fun k hk hbk => ?_, vr⟩
  · have := vrest d (by omega)
    exact ⟨this.1, fun i => cellView_same (this.2 i) vr⟩
  · exact (vrest _ (by omega)).1

/-- The view of a task at block `k` of its region. Task 0 has the first 640 KB of the kernel. -/
def slotView (m : Mem) (nr k i : Nat) : View :=
  if nr = 0 then (if k = 0 ∧ i < 0xA0 then .low else .absent) else cellView m (16 * nr + k) i

/-- The child of task 0 shows pages below `LOW_MEM` only. -/
theorem copied_kernel {d i : Nat} (h : m.pte d i = copied (source m 0 i)) :
    cellView m d i = if i < 0xA0 then .low else .absent := by
  rw [source, if_pos rfl] at h
  by_cases hi : i < 0xA0
  · rw [if_pos hi, copied, present_userEntry, if_pos rfl] at h
    rw [if_pos hi, cellView, h, present_clear, present_userEntry, if_pos rfl, frame_clear,
      frame_userEntry (by omega), if_pos (by rw [lowMem]; omega)]
  · rw [if_neg hi] at h
    rw [if_neg hi, cellView_absent, h]
    rfl

/-- A copy of an entry shows what the entry showed. -/
theorem copied_slot {d i d' : Nat} (h : m'.pte d' i = copied (m.pte d i))
    (hr : ∀ g, Data m held g → m'.ram g = m.ram g) : cellView m' d' i = cellView m d i := by
  unfold cellView
  rw [h, present_copied]
  split
  · next hp =>
    have he : copied (m.pte d i) = m.pte d i &&& ~~~2 := if_pos hp
    rw [he, frame_clear, dirty_clear]
    split
    · rfl
    · next hl => rw [hr _ (Or.inr ⟨Nat.not_lt.mp hl, d, i, hp, rfl⟩)]
  · rfl

/-- After a successful `copy_page_tables` the child shows what the parent shows; whatever happens,
no other slot shows anything new. -/
theorem copyPageTables_view (S : Sound lo hi m held) {parent child size : Nat}
    (hp : parent < 64) (h1 : 1 ≤ child) (h2 : child < 64) (hne : child ≠ parent)
    (hs : size ≤ 0x4000000) (hk : parent = 0 → blocks size ≤ 1)
    (hempty : ∀ k < 16, present (m.dirv (16 * child + k)) = false) :
    ∃ done m', copyPageTables (slotBase parent) (slotBase child) size m = .ok done m' ∧
      Sound lo hi m' held ∧
      (∀ d, d / 16 ≠ child → m'.dirv d = m.dirv d ∧ ∀ i, cellView m' d i = cellView m d i) ∧
      (done = true → ∀ k < blocks size, ∀ i,
        cellView m' (16 * child + k) i = slotView m parent k i) ∧
      (∀ k < 16, blocks size ≤ k → present (m'.dirv (16 * child + k)) = false) ∧
      ∀ g, Data m held g → m'.ram g = m.ram g := by
  rcases copyPageTables_spec S hp h1 h2 hne hs hk hempty with
    ⟨m', hm, S', ⟨vd, vs, vr⟩, vrow, vabs⟩ | ⟨m', hm, S', ⟨vd, vs, vr⟩, vabs, -⟩
  · refine ⟨true, m', hm, S', fun d hd => ⟨vd d hd, fun i => cellView_soft (vs d i hd) vr⟩,
      fun _ k hkb i => ?_, vabs, vr⟩
    unfold slotView
    by_cases h0 : parent = 0
    · have hk0 : k = 0 := by
        have := hk h0
        omega
      have hrow := vrow k hkb i
      rw [h0, hk0] at hrow
      rw [if_pos h0, hk0, copied_kernel (by rw [hrow]; rfl)]
      simp only [true_and]
    · have hrow := vrow k hkb i
      rw [source, if_neg (by omega)] at hrow
      rw [if_neg h0]
      exact copied_slot hrow vr
  · exact ⟨false, m', hm, S', fun d hd => ⟨vd d hd, fun i => cellView_soft (vs d i hd) vr⟩,
      fun h => absurd h Bool.false_ne_true, vabs, vr⟩

/-- What `try_to_share` maps is clean, and the current task then shows what the other one does. -/
theorem tryToShare_view (S : Sound lo hi m held) {address p cur : Nat}
    (hoff : dirIndex address < 16) (hp1 : 1 ≤ p) (hp2 : p < 64) (hc1 : 1 ≤ cur) (hc2 : cur < 64)
    (ha : cellView m (dirIndex address + 16 * cur) (tableIndex address) = .absent) :
    (∃ m' c, tryToShare address (slotBase p) (slotBase cur) m = .ok true m' ∧
      Sound lo hi m' held ∧
      cellView m (dirIndex address + 16 * p) (tableIndex address) = .page false c ∧
      cellView m' (dirIndex address + 16 * cur) (tableIndex address) = .page false c ∧
      (∀ d i, ¬ (d = dirIndex address + 16 * cur ∧ i = tableIndex address) →
        cellView m' d i = cellView m d i) ∧
      (∀ d, d ≠ dirIndex address + 16 * cur → m'.dirv d = m.dirv d) ∧
      ∀ g, Data m held g → m'.ram g = m.ram g) ∨
    tryToShare address (slotBase p) (slotBase cur) m = .ok false m ∨
    tryToShare address (slotBase p) (slotBase cur) m = .oom m := by
  rcases tryToShare_spec S hoff hp1 hp2 hc1 hc2 with
    ⟨m', hm, S', hpr, hdirty, hl, habs, vp, vd, vr⟩ | hm | ⟨hpr, -⟩ | hm
  · generalize dirIndex address + 16 * p = d at *
    generalize dirIndex address + 16 * cur = d' at *
    generalize tableIndex address = i at *
    have hcur : m'.pte d' i = m.pte d i &&& ~~~2 := by rw [vp, setPte_self]
    refine Or.inl ⟨m', m.ram (frame (m.pte d i)), hm, S', ?_, ?_, fun d2 i2 hne => ?_,
      fun x hx => vd x (Or.inl hx), vr⟩
    · rw [cellView_page hpr hl, hdirty]
    · rw [cellView_page (by rw [hcur, present_clear, hpr]) (by rw [hcur, frame_clear]; exact hl),
        hcur, dirty_clear, frame_clear, hdirty, vr _ (Or.inr ⟨hl, d, i, hpr, rfl⟩)]
    · refine cellView_soft ?_ vr
      rw [vp, setPte_other hne]
      by_cases h : d2 = d ∧ i2 = i
      · rw [h.1, h.2, setPte_self]
        exact Or.inr rfl
      · rw [setPte_other h]
        exact Soft.refl _
  · exact Or.inr (Or.inl hm)
  · rw [cellView_absent.mp ha] at hpr
    cases hpr
  · exact Or.inr (Or.inr hm)

/-! ## Stores through an entry -/

/-- A store of the processor through entry `i` of the table at directory entry `d`: the accessed and
the dirty bit of the entry are set, and word `k` of the page is written. -/
def Mem.store (m : Mem) (d i k : Nat) (w : Word) : Mem :=
  (m.poke (frame (m.ram 0 d)) i (m.ram (frame (m.ram 0 d)) i ||| 0x60)).poke
    (frame (m.ram (frame (m.ram 0 d)) i)) k w

/-- A store through any present entry above `LOW_MEM` keeps the invariant. The entry shows the new
word and is dirty; entries of other pages show what they showed. -/
theorem store_view (S : Sound lo hi m held) {d i k : Nat} {w : Word}
    (hp : present (m.pte d i) = true) (hl : lowMem ≤ frame (m.pte d i)) :
    Sound lo hi (m.store d i k w) held ∧ (m.store d i k w).dirv = m.dirv ∧
      (m.store d i k w).pte = setPte m.pte d i (m.pte d i ||| 0x60) ∧
      cellView (m.store d i k w) d i
        = .page true (Function.update (m.ram (frame (m.pte d i))) k w) ∧
      (∀ d2 i2, ¬ Points (m.pte d2 i2) (frame (m.pte d i)) →
        cellView (m.store d i k w) d2 i2 = cellView m d2 i2) ∧
      ∀ d2 i2, ¬ (d2 = d ∧ i2 = i) → Points (m.pte d2 i2) (frame (m.pte d i)) →
        cellView (m.store d i k w) d2 i2 = .page (dirty (m.pte d2 i2))
          (Function.update (m.ram (frame (m.pte d i))) k w) := by
  obtain ⟨hd, hlt⟩ := pte_dir hp
  have hdir := dirv_eq (m := m) (dirv_mem hd)
  have he : m.ram (frame (m.dirv d)) i = m.pte d i := (pte_eq hd hlt).symm
  -- first the flags of the entry, then the page
  obtain ⟨S1, vd1, vp1, vr1⟩ := S.poke (n := m.poke (frame (m.dirv d)) i (m.pte d i ||| 0x60))
    hd hlt rfl rfl (S.acct.flags (e := m.pte d i ||| 0x60) hp
      ⟨(present_or_used _).trans hp, frame_or_used _⟩
      fun h => Or.inl ((writable_or_used _).symm.trans h))
  have hst : m.store d i k w
      = (m.poke (frame (m.dirv d)) i (m.pte d i ||| 0x60)).poke (frame (m.pte d i)) k w := by
    rw [Mem.store, ← hdir, he]
  rw [hst]
  generalize m.poke (frame (m.dirv d)) i (m.pte d i ||| 0x60) = n at S1 vd1 vp1 vr1
  have hnt : NotTable n (frame (m.pte d i)) := by
    refine S1.notTable (Or.inr ⟨hl, d, i, ?_⟩)
    rw [vp1, setPte_self]
    exact ⟨(present_or_used _).trans hp, frame_or_used _⟩
  have hram : n.ram (frame (m.pte d i)) = m.ram (frame (m.pte d i)) :=
    vr1 _ (S.acct.tableApart hd hp)
  have hfill : n.poke (frame (m.pte d i)) k w
      = n.fill (frame (m.pte d i)) (Function.update (m.ram (frame (m.pte d i))) k w) := by
    rw [← hram]
    rfl
  rw [hfill]
  obtain ⟨vd2, vp2⟩ := view_fill
    (p := Function.update (m.ram (frame (m.pte d i))) k w) hnt
  have hpte : ∀ d2 i2, ¬ (d2 = d ∧ i2 = i) →
      (n.fill (frame (m.pte d i)) (Function.update (m.ram (frame (m.pte d i))) k w)).pte d2 i2
        = m.pte d2 i2 := fun d2 i2 hne => by rw [vp2, vp1, setPte_other hne]
  refine ⟨S1.fill hnt hl, vd2.trans vd1, vp2.trans vp1, ?_, fun d2 i2 hpt => ?_,
    fun d2 i2 hne hpt => ?_⟩
  · have hself : (n.fill (frame (m.pte d i))
        (Function.update (m.ram (frame (m.pte d i))) k w)).pte d i = m.pte d i ||| 0x60 := by
      rw [vp2, vp1, setPte_self]
    rw [cellView_page (by rw [hself, present_or_used, hp]) (by rw [hself, frame_or_used]; exact hl),
      hself, frame_or_used, dirty_or_used, fill_ram_self]
  · have hne : ¬ (d2 = d ∧ i2 = i) := by
      rintro ⟨rfl, rfl⟩
      exact hpt ⟨hp, rfl⟩
    unfold cellView
    rw [hpte d2 i2 hne]
    split
    · next hp2 =>
      split
      · rfl
      · next hl2 =>
        have hg : Data m held (frame (m.pte d2 i2)) := Or.inr ⟨Nat.not_lt.mp hl2, d2, i2, hp2, rfl⟩
        rw [fill_ram_other fun h => hpt ⟨hp2, h⟩,
          vr1 _ fun h => (S.notTable hg).2 d ⟨hd, h.symm⟩]
    · rfl
  · rw [cellView_page (by rw [hpte d2 i2 hne]; exact hpt.1)
      (by rw [hpte d2 i2 hne, hpt.2]; exact hl), hpte d2 i2 hne, hpt.2, fill_ram_self]

/-- Another entry shows what it showed, or it showed the same page and shows the new word too. -/
theorem store_shared (S : Sound lo hi m held) {d i k : Nat} {w : Word}
    (hp : present (m.pte d i) = true) (hl : lowMem ≤ frame (m.pte d i)) {e j : Nat}
    (hne : ¬ (e = d ∧ j = i)) :
    cellView (m.store d i k w) e j = cellView m e j ∨
      ∃ b, cellView m e j = .page b (m.ram (frame (m.pte d i))) ∧
        cellView (m.store d i k w) e j
          = .page b (Function.update (m.ram (frame (m.pte d i))) k w) := by
  obtain ⟨-, -, -, -, hsame, hshared⟩ := store_view S (k := k) (w := w) hp hl
  by_cases hpt : Points (m.pte e j) (frame (m.pte d i))
  · refine Or.inr ⟨dirty (m.pte e j), ?_, hshared e j hne hpt⟩
    rw [cellView_page hpt.1 (by rw [hpt.2]; exact hl), hpt.2]
  · exact Or.inl (hsame e j hpt)

/-- A store through a writable entry is seen through that entry alone. -/
theorem store_writable (S : Sound lo hi m held) {d i k : Nat} {w : Word}
    (hp : present (m.pte d i) = true) (hw : writable (m.pte d i) = true) :
    lowMem ≤ frame (m.pte d i) ∧ ∀ d2 i2, ¬ (d2 = d ∧ i2 = i) →
      cellView (m.store d i k w) d2 i2 = cellView m d2 i2 := by
  have hl : lowMem ≤ frame (m.pte d i) := by
    rcases S.acct.page hp with h | h
    · rw [h.2] at hw
      cases hw
    · exact S.acct.low.trans h.1
  refine ⟨hl, fun d2 i2 hne => (store_view S hp hl).2.2.2.2.1 d2 i2 fun hpt => hne ?_⟩
  have := S.acct.alone hp hpt.1 hpt.2.symm hw
  exact ⟨this.1.symm, this.2.symm⟩

end Linux011.Mm
