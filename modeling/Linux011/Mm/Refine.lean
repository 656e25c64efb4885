import Linux011.Mm.Account

/-!
# The paging code makes account moves

The memory of `mm/memory.c` seen as a page account: the directory entries of the task slots, the
page-table entries behind them, and the counts by frame. `Sound` is the invariant of the memory
manager: the account holds of that view, and the kernel's own first page table is as
`setup_paging` left it.

Every function then has one specification lemma: it keeps `Sound`, it says what the page map
becomes, and it says which pages keep their contents. Later modules use these lemmas and never
unfold the code. The loops are handled by one rule, `forLoop_rule`.
-/

namespace Linux011.Mm

/-! ## The view -/

/-- The directory entries of the task slots. -/
def Mem.dirv (m : Mem) (d : Nat) : Word := if 16 ≤ d ∧ d < 1024 then m.ram 0 d else 0

/-- The page-table entries of the task slots; an absent table has absent entries. -/
def Mem.pte (m : Mem) (d i : Nat) : Word :=
  if present (m.dirv d) = true ∧ i < 1024 then m.ram (frame (m.dirv d)) i else 0

/-- The usage count of a frame. -/
def Mem.cnt (m : Mem) (f : Nat) : Nat := if f < lowMem then 0 else m.memMap (mapNr f)

/-- The directory entries below the task slots, as `setup_paging` writes them. -/
def kernelDir (d : Nat) : Word := if d < 4 then userEntry (d + 1) else 0

/-- The four page tables of the kernel: 16 MB mapped onto itself. -/
def kernelTable (t i : Nat) : Word := userEntry ((t - 1) * 1024 + i)

/-- The invariant of the memory manager for the frames from `lo` up to `hi`. -/
structure Sound (lo hi : Nat) (m : Mem) (held : Nat → Bool) : Prop where
  acct : Acct lo hi m.dirv m.pte m.cnt held
  high : m.highMemory = hi
  root : ∀ d < 16, m.ram 0 d = kernelDir d
  kernel : ∀ t, 1 ≤ t → t ≤ 4 → m.ram t = kernelTable t

/-- Frame `f` is neither the page directory nor a page table of a slot. -/
def NotTable (m : Mem) (f : Nat) : Prop := f ≠ 0 ∧ ∀ d, ¬ Points (m.dirv d) f

/-- Frame `f` carries data: it is mapped in some slot, or the kernel holds it. -/
def Data (m : Mem) (held : Nat → Bool) (f : Nat) : Prop :=
  held f = true ∨ (lowMem ≤ f ∧ ∃ d i, Points (m.pte d i) f)

variable {lo hi : Nat} {m : Mem} {held : Nat → Bool}

theorem dirv_eq {d : Nat} (h : d ∈ dirs) : m.dirv d = m.ram 0 d := if_pos (mem_dirs.mp h)

theorem dirv_mem {d : Nat} (h : present (m.dirv d) = true) : d ∈ dirs := by
  unfold Mem.dirv at h
  split at h
  · exact mem_dirs.mpr ‹_›
  · cases h

theorem present_ram {d : Nat} (h : d ∈ dirs) : present (m.ram 0 d) = present (m.dirv d) := by
  rw [dirv_eq h]

theorem pte_eq {d i : Nat} (h : present (m.dirv d) = true) (hi : i < 1024) :
    m.pte d i = m.ram (frame (m.dirv d)) i := if_pos ⟨h, hi⟩

theorem pte_absent {d i : Nat} (h : present (m.dirv d) = false) : m.pte d i = 0 :=
  if_neg fun hp => by rw [h] at hp; cases hp.1

theorem pte_dir {d i : Nat} (h : present (m.pte d i) = true) :
    present (m.dirv d) = true ∧ i < 1024 := by
  unfold Mem.pte at h
  split at h
  · assumption
  · cases h

theorem pte_ram {d i : Nat} (h : present (m.pte d i) = true) :
    m.pte d i = m.ram (frame (m.dirv d)) i := pte_eq (pte_dir h).1 (pte_dir h).2

namespace Sound

theorem table_ne (S : Sound lo hi m held) {d : Nat} (h : present (m.dirv d) = true) :
    lowMem ≤ frame (m.dirv d) := S.acct.low.trans (S.acct.table h).1

/-- Data are never tables. -/
theorem notTable (S : Sound lo hi m held) {f : Nat} (h : Data m held f) : NotTable m f := by
  rcases h with h | ⟨hl, d, i, hp⟩
  · have hr := S.acct.heldRange h
    have hlow := S.acct.low
    refine ⟨fun h0 => ?_, fun d hp => ?_⟩
    · rw [lowMem] at hlow
      omega
    · have := S.acct.tableHeld hp.1
      rw [hp.2, h] at this
      cases this
  · refine ⟨fun h0 => ?_, fun d' hp' => ?_⟩
    · rw [h0, lowMem] at hl
      omega
    · exact S.acct.tableApart hp'.1 hp.1 (hp.2.trans hp'.2.symm)

end Sound

/-! ## What the stores do to the view -/

section Stores

theorem dirv_poke {t i : Nat} {w : Word} (ht : t ≠ 0) : (m.poke t i w).dirv = m.dirv := by
  funext d
  simp only [Mem.dirv, Mem.poke, Function.update_of_ne ht.symm]

theorem poke_ram_other {t i f : Nat} {w : Word} (h : f ≠ t) : (m.poke t i w).ram f = m.ram f := by
  simp only [Mem.poke, Function.update_of_ne h]

theorem poke_ram_self {t i j : Nat} {w : Word} :
    (m.poke t i w).ram t j = if j = i then w else m.ram t j := by
  simp only [Mem.poke, Function.update_self]
  by_cases h : j = i
  · rw [h, Function.update_self, if_pos rfl]
  · rw [Function.update_of_ne h, if_neg h]

theorem cnt_poke {t i : Nat} {w : Word} : (m.poke t i w).cnt = m.cnt := rfl

theorem cnt_fill {g : Nat} {p : Nat → Word} : (m.fill g p).cnt = m.cnt := rfl

theorem setCount_ram {f n : Nat} : (m.setCount f n).ram = m.ram := rfl

theorem fill_ram_other {g f : Nat} {p : Nat → Word} (h : f ≠ g) : (m.fill g p).ram f = m.ram f := by
  simp only [Mem.fill, Function.update_of_ne h]

theorem fill_ram_self {g : Nat} {p : Nat → Word} : (m.fill g p).ram g = p := by
  simp only [Mem.fill, Function.update_self]

theorem cnt_setCount {f n : Nat} (h : lowMem ≤ f) :
    (m.setCount (mapNr f) n).cnt = Function.update m.cnt f n := by
  funext g
  by_cases hg : g = f
  · subst hg
    simp only [Mem.cnt, Mem.setCount, Function.update_self, if_neg (Nat.not_lt.mpr h)]
  · rw [Function.update_of_ne hg]
    by_cases hl : g < lowMem
    · simp only [Mem.cnt, if_pos hl]
    · have hne : mapNr g ≠ mapNr f := by
        unfold mapNr
        omega
      simp only [Mem.cnt, Mem.setCount, if_neg hl, Function.update_of_ne hne]

/-- A store into a page table changes one entry of the page map. -/
theorem pte_poke (S : Sound lo hi m held) {d i : Nat} {w : Word}
    (hd : present (m.dirv d) = true) (hi : i < 1024) :
    (m.poke (frame (m.dirv d)) i w).pte = setPte m.pte d i w := by
  have hne : frame (m.dirv d) ≠ 0 := by
    have := S.table_ne hd
    rw [lowMem] at this
    omega
  funext d' i'
  by_cases hp : present (m.dirv d') = true ∧ i' < 1024
  · have hp' : present ((m.poke (frame (m.dirv d)) i w).dirv d') = true := by
      rw [dirv_poke hne]
      exact hp.1
    rw [pte_eq hp' hp.2, dirv_poke hne]
    by_cases hdd : d' = d
    · subst hdd
      rw [poke_ram_self, setPte, pte_eq hp.1 hp.2]
      simp only [true_and]
    · rw [setPte_other fun h => hdd h.1, pte_eq hp.1 hp.2, poke_ram_other]
      exact fun h => hdd (S.acct.tableOnce hp.1 hd h)
  · rw [setPte_other, Mem.pte, Mem.pte, dirv_poke hne, if_neg hp, if_neg hp]
    rintro ⟨rfl, rfl⟩
    exact hp ⟨hd, hi⟩

/-- A store into a page that is no table changes no entry. -/
theorem view_fill {g : Nat} {p : Nat → Word} (hg : NotTable m g) :
    (m.fill g p).dirv = m.dirv ∧ (m.fill g p).pte = m.pte := by
  have hdir : (m.fill g p).dirv = m.dirv := by
    funext d
    simp only [Mem.dirv, fill_ram_other hg.1.symm]
  refine ⟨hdir, ?_⟩
  funext d i
  unfold Mem.pte
  rw [hdir]
  by_cases hp : present (m.dirv d) = true ∧ i < 1024
  · rw [if_pos hp, if_pos hp, fill_ram_other]
    exact fun h => hg.2 d ⟨hp.1, h⟩
  · rw [if_neg hp, if_neg hp]

/-- Storing a directory entry. -/
theorem dirv_poke_dir {d : Nat} {w : Word} (hd : d ∈ dirs) :
    (m.poke 0 d w).dirv = Function.update m.dirv d w := by
  funext d'
  unfold Mem.dirv
  by_cases h : d' = d
  · subst h
    rw [if_pos (mem_dirs.mp hd), poke_ram_self, if_pos rfl, Function.update_self]
  · rw [Function.update_of_ne h, poke_ram_self, if_neg h]

/-- A new table of absent entries changes no entry. -/
theorem pte_attach (S : Sound lo hi m held) {d : Nat} {w : Word} (hd : d ∈ dirs) (ha : present (m.dirv d) = false)
    (hw : frame w ≠ 0) (hz : m.ram (frame w) = fun _ => 0) : (m.poke 0 d w).pte = m.pte := by
  funext d' i
  unfold Mem.pte
  rw [dirv_poke_dir hd]
  by_cases h : d' = d
  · subst h
    rw [Function.update_self, if_neg (c := present (m.dirv d') = true ∧ i < 1024)]
    · split
      · rw [poke_ram_other hw, hz]
      · rfl
    · rw [ha]
      exact fun h => by cases h.1
  · rw [Function.update_of_ne h]
    split
    · next hp =>
      have := S.table_ne hp.1
      rw [lowMem] at this
      rw [poke_ram_other (by omega)]
    · rfl

end Stores

/-! ## Loops -/

/-- The loop rule. `P k` holds after `k` turns; a turn goes on, or leaves the function with `Q`. -/
theorem forLoop_rule {b : Nat → Mem → Res Bool} {P : Nat → Mem → Prop} {Q : Mem → Prop}
    {n : Nat} (a : Nat) (hbody : ∀ k < n, ∀ m, P k m →
      (∃ m', b (a + k) m = .ok true m' ∧ P (k + 1) m') ∨
      (∃ m', b (a + k) m = .ok false m' ∧ Q m')) {m : Mem} (h : P 0 m) :
    (∃ m', forLoop b (List.range' a n) m = .ok true m' ∧ P n m') ∨
    (∃ m', forLoop b (List.range' a n) m = .ok false m' ∧ Q m') := by
  induction n generalizing a m P with
  | zero => exact Or.inl ⟨m, rfl, h⟩
  | succ n ih =>
    rw [List.range'_succ]
    rcases hbody 0 (Nat.succ_pos n) m h with ⟨m', hb, hP⟩ | ⟨m', hb, hQ⟩
    · have next := ih (P := fun k => P (k + 1)) (a + 1) (fun k hk m hm => by
        have := hbody (k + 1) (Nat.succ_lt_succ hk) m hm
        rwa [← Nat.add_assoc, Nat.add_right_comm] at this) hP
      rw [Nat.add_zero] at hb
      have first : forLoop b (a :: List.range' (a + 1) n) m
          = forLoop b (List.range' (a + 1) n) m' := by
        simp only [forLoop, hb, Res.bind, if_true]
      rw [first]
      exact next
    · refine Or.inr ⟨m', ?_, hQ⟩
      rw [Nat.add_zero] at hb
      simp only [forLoop, hb, Res.bind, Bool.false_eq_true, if_false]

/-- The loop rule for a body that always goes on. -/
theorem forLoop_total {b : Nat → Mem → Res Bool} {P : Nat → Mem → Prop} {n : Nat} (a : Nat)
    (hbody : ∀ k < n, ∀ m, P k m → ∃ m', b (a + k) m = .ok true m' ∧ P (k + 1) m') {m : Mem}
    (h : P 0 m) : ∃ m', forLoop b (List.range' a n) m = .ok true m' ∧ P n m' := by
  rcases forLoop_rule (Q := fun _ => False) a (fun k hk m hm => Or.inl (hbody k hk m hm)) h with
    h | ⟨_, _, h⟩
  · exact h
  · exact h.elim

/-! ## `get_free_page` and `free_page` -/

theorem scanFree_some {memMap : Nat → Nat} {n i : Nat} (h : scanFree memMap n = some i) :
    i < n ∧ memMap i = 0 := by
  induction n with
  | zero => cases h
  | succ n ih =>
    rw [scanFree] at h
    split at h
    · cases h
      exact ⟨Nat.lt_succ_self _, ‹_›⟩
    · exact ⟨Nat.lt_succ_of_lt (ih h).1, (ih h).2⟩

theorem scanFree_none {memMap : Nat → Nat} {n : Nat} (h : scanFree memMap n = none) :
    ∀ j < n, memMap j ≠ 0 := by
  induction n with
  | zero => exact fun j hj => absurd hj (Nat.not_lt_zero j)
  | succ n ih =>
    rw [scanFree] at h
    split at h
    · cases h
    · next h0 =>
      intro j hj
      by_cases hjn : j = n
      · rw [hjn]
        exact h0
      · exact ih h j (by omega)

/-- What `get_free_page` hands out: a frame nobody references, cleared, and now held. -/
structure Fresh (lo hi : Nat) (m : Mem) (held : Nat → Bool) (f : Nat) (m' : Mem) : Prop where
  range : lo ≤ f ∧ f < hi
  zero : m.cnt f = 0
  sound : Sound lo hi m' (Function.update held f true)
  dirv : m'.dirv = m.dirv
  pte : m'.pte = m.pte
  cnt : m'.cnt = Function.update m.cnt f 1
  clear : m'.ram f = fun _ => 0
  keeps : ∀ g, g ≠ f → m'.ram g = m.ram g

theorem getFreePage_spec (S : Sound lo hi m held) {f : Nat} {m' : Mem}
    (h : getFreePage m = some (f, m')) : Fresh lo hi m held f m' := by
  have A := S.acct
  unfold getFreePage at h
  obtain ⟨i, hscan, hf⟩ := Option.map_eq_some_iff.mp h
  cases hf
  obtain ⟨hlt, hz⟩ := scanFree_some hscan
  have hmap : mapNr (i + lowMem) = i := Nat.add_sub_cancel ..
  have hlow : lowMem ≤ i + lowMem := Nat.le_add_left ..
  have hcnt : m.cnt (i + lowMem) = 0 := by
    rw [Mem.cnt, if_neg (Nat.not_lt.mpr hlow), hmap, hz]
  -- a busy frame is counted 100 times, so a zero count lies in the paged range
  have hr : lo ≤ i + lowMem ∧ i + lowMem < hi := by
    by_contra hno
    have := A.busy hlow (by omega) hno
    rw [hcnt] at this
    cases this
  obtain ⟨hd, hp, -⟩ := A.unreferenced hr.1 hr.2 hcnt
  have hne : i + lowMem ≠ 0 := by
    rw [lowMem]
    omega
  have hnt : NotTable (m.setCount i 1) (i + lowMem) := ⟨hne, fun d hpt => A.not_dir hd hpt⟩
  obtain ⟨vd, vp⟩ := view_fill (p := fun _ => 0) hnt
  have hc : ((m.setCount i 1).fill (i + lowMem) fun _ => 0).cnt
      = Function.update m.cnt (i + lowMem) 1 := by
    have := cnt_setCount (m := m) (n := 1) hlow
    rw [hmap] at this
    rw [cnt_fill, this]
  have hkeep : ∀ g, g ≠ i + lowMem →
      ((m.setCount i 1).fill (i + lowMem) fun _ => 0).ram g = m.ram g := fun g hg =>
    fill_ram_other hg
  refine ⟨hr, hcnt, ⟨?_, S.high, ?_, ?_⟩, vd, vp, hc, fill_ram_self, hkeep⟩
  · rw [vd, vp, hc]
    exact A.alloc hr.1 hr.2 hcnt
  · rw [hkeep 0 hne.symm]
    exact S.root
  · intro t ht1 ht4
    rw [hkeep t (by rw [lowMem]; omega)]
    exact S.kernel t ht1 ht4

/-- A fresh frame carried no data. -/
theorem Fresh.new {f : Nat} {m' : Mem} (S : Sound lo hi m held) (F : Fresh lo hi m held f m') :
    NotTable m f ∧ ∀ {g}, Data m held g → g ≠ f := by
  obtain ⟨hd, hp, hh⟩ := S.acct.unreferenced F.range.1 F.range.2 F.zero
  have hlow := S.acct.low
  refine ⟨⟨?_, fun d hpt => S.acct.not_dir hd hpt⟩, ?_⟩
  · rintro rfl
    have := F.range
    rw [lowMem] at hlow
    omega
  · rintro g (hg | ⟨-, d, i, hg⟩) rfl
    · rw [hh] at hg
      cases hg
    · exact S.acct.not_points hp hg

/-- Giving a fresh page away leaves the held pages as they were before it was taken. -/
theorem Fresh.back {f : Nat} {m' : Mem} (S : Sound lo hi m held) (F : Fresh lo hi m held f m') :
    Function.update (Function.update held f true) f false = held := by
  funext g
  by_cases hg : g = f
  · rw [hg, Function.update_self]
    exact (S.acct.unreferenced F.range.1 F.range.2 F.zero).2.2.symm
  · rw [Function.update_of_ne hg, Function.update_of_ne hg]

/-- What carried data still does after a page is taken. -/
theorem Fresh.grow {f : Nat} {m' : Mem} (F : Fresh lo hi m held f m') {g : Nat}
    (h : Data m held g) : Data m' (Function.update held f true) g := by
  rcases h with hg | ⟨hl, d, i, hg⟩
  · refine Or.inl ?_
    by_cases h : g = f
    · rw [h, Function.update_self]
    · rw [Function.update_of_ne h]
      exact hg
  · exact Or.inr ⟨hl, d, i, by rw [F.pte]; exact hg⟩

/-- The frame number of a fresh page survives being written into an entry. -/
theorem Fresh.frame {f : Nat} {m' : Mem} (S : Sound lo hi m held) (F : Fresh lo hi m held f m') :
    frame (userEntry f) = f := by
  have hhigh := S.acct.high
  have hr := F.range
  simp only [lowMem, pagingPages] at hhigh
  exact frame_userEntry (by omega)

/-- A store into a page that is no table keeps the invariant. -/
theorem Sound.fill (S : Sound lo hi m held) {g : Nat} {p : Nat → Word} (hg : NotTable m g)
    (hl : lowMem ≤ g) : Sound lo hi (m.fill g p) held := by
  obtain ⟨vd, vp⟩ := view_fill (p := p) hg
  rw [lowMem] at hl
  refine ⟨?_, S.high, ?_, ?_⟩
  · rw [vd, vp, cnt_fill]
    exact S.acct
  · rw [fill_ram_other (by omega)]
    exact S.root
  · intro t ht1 ht4
    rw [fill_ram_other (by omega)]
    exact S.kernel t ht1 ht4

theorem freePage_low {f : Nat} (h : f < lowMem) : freePage f m = .ok () m := if_pos h

theorem freePage_ok {f : Nat} (hl : lowMem ≤ f) (hh : f < m.highMemory) (hc : m.cnt f ≠ 0) :
    freePage f m = .ok () (m.setCount (mapNr f) (m.cnt f - 1)) := by
  have hcnt : m.cnt f = m.memMap (mapNr f) := if_neg (Nat.not_lt.mpr hl)
  rw [hcnt] at hc ⊢
  rw [freePage, if_neg (Nat.not_lt.mpr hl), if_neg (Nat.not_le.mpr hh), if_pos hc]

/-- `free_page` of a held page gives it back. -/
theorem freePage_held (S : Sound lo hi m held) {f : Nat} (hf : held f = true) :
    ∃ m', freePage f m = .ok () m' ∧ Sound lo hi m' (Function.update held f false) ∧
      m'.dirv = m.dirv ∧ m'.pte = m.pte ∧ m'.ram = m.ram := by
  have A := S.acct
  have hr := A.heldRange hf
  have hl : lowMem ≤ f := A.low.trans hr.1
  have hone := A.held_count hf
  refine ⟨_, freePage_ok hl (S.high ▸ hr.2) (by omega), ⟨?_, S.high, S.root, S.kernel⟩, rfl, rfl,
    rfl⟩
  rw [cnt_setCount hl, hone]
  exact A.drop hf

/-! ## `free_page_tables` -/

/-- A store into a slot's page table keeps the invariant when the account of the new map holds. -/
theorem Sound.poke (S : Sound lo hi m held) {held' : Nat → Bool} {cnt' : Nat → Nat} {d i : Nat}
    {w : Word} (hd : present (m.dirv d) = true) (hlt : i < 1024) {n : Mem}
    (hn : n = { (m.poke (frame (m.dirv d)) i w) with memMap := n.memMap }) (hc : n.cnt = cnt')
    (A : Acct lo hi m.dirv (setPte m.pte d i w) cnt' held') :
    Sound lo hi n held' ∧ n.dirv = m.dirv ∧ n.pte = setPte m.pte d i w ∧
      ∀ g, g ≠ frame (m.dirv d) → n.ram g = m.ram g := by
  have hl := S.table_ne hd
  rw [lowMem] at hl
  have hram : n.ram = (m.poke (frame (m.dirv d)) i w).ram := by rw [hn]
  have hdir : n.dirv = m.dirv := by
    have : n.dirv = (m.poke (frame (m.dirv d)) i w).dirv := by
      funext d'
      simp only [Mem.dirv, hram]
    rw [this, dirv_poke (by omega)]
  have hpte : n.pte = setPte m.pte d i w := by
    rw [← pte_poke S hd hlt]
    funext d' i'
    rw [Mem.pte, Mem.pte, hdir, dirv_poke (by omega), hram]
  have hkeep : ∀ g, g ≠ frame (m.dirv d) → n.ram g = m.ram g := by
    intro g hg
    rw [hram, poke_ram_other hg]
  refine ⟨⟨?_, ?_, ?_, ?_⟩, hdir, hpte, hkeep⟩
  · rw [hdir, hpte, hc]
    exact A
  · rw [hn]
    exact S.high
  · rw [hkeep 0 (by omega)]
    exact S.root
  · intro t ht1 ht4
    rw [hkeep t (by omega)]
    exact S.kernel t ht1 ht4

/-- The count `free_page` leaves behind, at and away from the page. -/
theorem cnt_less {f : Nat} (hl : lowMem ≤ f) :
    ∀ g, lowMem ≤ g → (m.setCount (mapNr f) (m.cnt f - 1)).cnt g =
      if g = f then m.cnt g - 1 else m.cnt g := by
  intro g _
  rw [cnt_setCount hl]
  by_cases h : g = f
  · rw [h, Function.update_self, if_pos rfl]
  · rw [Function.update_of_ne h, if_neg h]

theorem freeEntry_spec (S : Sound lo hi m held) {d i : Nat} (hd : present (m.dirv d) = true)
    (hlt : i < 1024) :
    ∃ m', freeEntry (frame (m.dirv d)) i m = .ok true m' ∧ Sound lo hi m' held ∧
      m'.dirv = m.dirv ∧ m'.pte = setPte m.pte d i 0 ∧
      ∀ g, g ≠ frame (m.dirv d) → m'.ram g = m.ram g := by
  have A := S.acct
  have he : m.ram (frame (m.dirv d)) i = m.pte d i := (pte_eq hd hlt).symm
  rw [freeEntry, he]
  cases hp : present (m.pte d i) with
  | false =>
    refine ⟨_, rfl, S.poke hd hlt rfl rfl (A.clear hd hlt hp)⟩
  | true =>
    simp only [if_true]
    by_cases hl : frame (m.pte d i) < lowMem
    · rw [freePage_low hl]
      refine ⟨_, rfl, S.poke hd hlt rfl rfl (A.unmap hd hp fun g hg => ?_)⟩
      rw [if_neg (by omega), cnt_poke]
    · have hr : frame (m.pte d i) < m.highMemory := by
        rcases A.page hp with h | h
        · omega
        · exact S.high ▸ h.2
      have hpos : m.cnt (frame (m.pte d i)) ≠ 0 := by
        rw [A.page_count hp (by omega)]
        exact fun h => A.not_points h ⟨hp, rfl⟩
      have hl' : lowMem ≤ frame (m.pte d i) := by omega
      rw [freePage_ok hl' hr hpos]
      refine ⟨_, rfl, S.poke hd hlt rfl rfl (A.unmap hd hp ?_)⟩
      rw [cnt_poke]
      exact cnt_less hl'

theorem freeDir_spec (S : Sound lo hi m held) {d : Nat} (hd : d ∈ dirs) :
    ∃ m', freeDir d m = .ok true m' ∧ Sound lo hi m' held ∧ present (m'.dirv d) = false ∧
      (m'.dirv d = 0 ∨ m'.dirv d = m.dirv d) ∧ (∀ d', d' ≠ d → m'.dirv d' = m.dirv d') ∧ (∀ d' i, d' ≠ d → m'.pte d' i = m.pte d' i) ∧
      ∀ g, NotTable m g → m'.ram g = m.ram g := by
  rw [freeDir, present_ram hd, ← dirv_eq hd]
  cases hp : present (m.dirv d) with
  | false =>
    exact ⟨m, rfl, S, hp, Or.inr rfl, fun _ _ => rfl, fun _ _ _ => rfl, fun _ _ => rfl⟩
  | true =>
    simp only [if_true]
    -- after `k` turns the first `k` entries of the table are gone
    let P : Nat → Mem → Prop := fun k n => Sound lo hi n held ∧ n.dirv = m.dirv ∧
      (∀ i, i < k → n.pte d i = 0) ∧ (∀ d' i, d' ≠ d → n.pte d' i = m.pte d' i) ∧
      ∀ g, g ≠ frame (m.dirv d) → n.ram g = m.ram g
    obtain ⟨n, hn, Sn, vd, vrow, vpte, vram⟩ := forLoop_total (n := 1024) (P := P) 0 (by
      rintro k hk n ⟨Sn, vd, vrow, vpte, vram⟩
      obtain ⟨n', hb, Sn', vd', vp', vram'⟩ := freeEntry_spec (i := k) Sn (vd ▸ hp) hk
      rw [vd] at hb vram'
      rw [Nat.zero_add]
      refine ⟨n', hb, Sn', vd'.trans vd, fun i hik => ?_, fun d' i hd' => ?_, fun g hg => ?_⟩
      · rw [vp', setPte]
        by_cases h : i = k
        · rw [if_pos ⟨rfl, h⟩]
        · rw [if_neg fun h' => h h'.2]
          exact vrow i (by omega)
      · rw [vp', setPte_other fun h => hd' h.1]
        exact vpte d' i hd'
      · rw [vram' g hg]
        exact vram g hg) (m := m) ⟨S, rfl, fun i h => absurd h (Nat.not_lt_zero i),
          fun _ _ _ => rfl, fun _ _ => rfl⟩
    rw [List.range_eq_range', hn]
    have A := Sn.acct
    have hpn : present (n.dirv d) = true := vd ▸ hp
    have hl := Sn.table_ne hpn
    have hone := A.table_count hpn
    have hrow : ∀ i, present (n.pte d i) = false := by
      intro i
      cases h : present (n.pte d i) with
      | false => rfl
      | true => rw [vrow i (A.cell h).2] at h; cases h
    simp only [Res.bind]
    rw [← dirv_eq hd, freePage_ok hl (Sn.high ▸ (A.table hpn).2) (by omega)]
    dsimp only
    generalize hm : (n.setCount (mapNr (frame (n.dirv d))) (n.cnt (frame (n.dirv d)) - 1)) = q
    have hqram : q.ram = n.ram := by rw [← hm]; rfl
    have hqd : q.dirv = n.dirv := by rw [← hm]; rfl
    have hqp : q.pte = n.pte := by rw [← hm]; rfl
    have hdir : (q.poke 0 d 0).dirv = Function.update n.dirv d 0 := by
      rw [dirv_poke_dir hd, hqd]
    have hfar : ∀ d', present (n.dirv d') = true → frame (n.dirv d') ≠ 0 := by
      intro d' h
      have := Sn.table_ne h
      rw [lowMem] at this
      omega
    have hrest : ∀ d' i, d' ≠ d → (q.poke 0 d 0).pte d' i = n.pte d' i := by
      intro d' i hd'
      rw [Mem.pte, Mem.pte, hdir, Function.update_of_ne hd']
      by_cases hc : present (n.dirv d') = true ∧ i < 1024
      · rw [if_pos hc, if_pos hc, poke_ram_other (hfar d' hc.1), hqram]
      · rw [if_neg hc, if_neg hc]
    have hzero : (q.poke 0 d 0).dirv d = 0 := by rw [hdir, Function.update_self]
    have hgone : present ((q.poke 0 d 0).dirv d) = false := by
      rw [hzero]
      rfl
    refine ⟨_, rfl, ⟨?_, ?_, ?_, ?_⟩, hgone, Or.inl hzero, ?_, ?_, ?_⟩
    · rw [hdir]
      refine A.detach hpn hrow (fun i => pte_absent hgone) hrest ?_
      intro g hg
      rw [cnt_poke, ← hm]
      exact cnt_less hl g hg
    · rw [← hm]
      exact Sn.high
    · intro x hx
      have := mem_dirs.mp hd
      rw [poke_ram_self, if_neg (by omega), hqram]
      exact Sn.root x hx
    · intro t ht1 ht4
      rw [poke_ram_other (by omega), hqram]
      exact Sn.kernel t ht1 ht4
    · intro d' hd'
      rw [hdir, Function.update_of_ne hd', vd]
    · intro d' i hd'
      rw [hrest d' i hd', vpte d' i hd']
    · intro g hg
      rw [poke_ram_other hg.1, hqram]
      exact vram g fun h => hg.2 d ⟨hp, h.symm⟩

/-- The linear base address of a task slot. -/
def slotBase (nr : Nat) : Nat := 0x4000000 * nr

theorem dirIndex_slotBase {nr : Nat} (h : nr < 64) : dirIndex (slotBase nr) = 16 * nr := by
  simp only [dirIndex, slotBase, Nat.shiftRight_eq_div_pow]
  omega

theorem blocks_le {size : Nat} (h : size ≤ 0x4000000) : blocks size ≤ 16 := by
  simp only [blocks, Nat.shiftRight_eq_div_pow]
  omega

/-- `free_page_tables` of (a prefix of) a slot's region always returns, and empties that prefix: a
directory entry it has found present is zero afterwards. -/
theorem freePageTables_spec (S : Sound lo hi m held) {nr size : Nat} (h1 : 1 ≤ nr) (h2 : nr < 64)
    (hs : size ≤ 0x4000000) :
    ∃ m', freePageTables (slotBase nr) size m = .ok () m' ∧ Sound lo hi m' held ∧
      (∀ k, k < blocks size → present (m'.dirv (16 * nr + k)) = false ∧
        (m'.dirv (16 * nr + k) = 0 ∨ m'.dirv (16 * nr + k) = m.dirv (16 * nr + k))) ∧
      (∀ d, ¬ (16 * nr ≤ d ∧ d < 16 * nr + blocks size) →
        m'.dirv d = m.dirv d ∧ ∀ i, m'.pte d i = m.pte d i) ∧
      ∀ g, NotTable m g → m'.ram g = m.ram g ∧ NotTable m' g := by
  have hb := blocks_le hs
  rw [freePageTables, if_neg (by simp only [slotBase]; omega),
    if_neg (by simp only [slotBase]; omega), dirIndex_slotBase h2]
  let P : Nat → Mem → Prop := fun k n => Sound lo hi n held ∧
    (∀ j, j < k → present (n.dirv (16 * nr + j)) = false ∧
      (n.dirv (16 * nr + j) = 0 ∨ n.dirv (16 * nr + j) = m.dirv (16 * nr + j))) ∧
    (∀ d, ¬ (16 * nr ≤ d ∧ d < 16 * nr + k) → n.dirv d = m.dirv d ∧ ∀ i, n.pte d i = m.pte d i) ∧
    ∀ g, NotTable m g → n.ram g = m.ram g ∧ NotTable n g
  obtain ⟨n, hn, Sn⟩ := forLoop_total (n := blocks size) (P := P) (16 * nr) (by
    rintro k hk n ⟨Sn, vgone, vrest, vram⟩
    obtain ⟨n', hb', Sn', vgone', vzero', vdir', vpte', vram'⟩ :=
      freeDir_spec (d := 16 * nr + k) Sn (mem_dirs.mpr (by omega))
    refine ⟨n', hb', Sn', fun j hj => ?_, fun d hd => ?_, fun g hg => ?_⟩
    · by_cases h : j = k
      · rw [h, ← (vrest (16 * nr + k) (by omega)).1]
        exact ⟨vgone', vzero'⟩
      · rw [vdir' _ (by omega)]
        exact vgone j (by omega)
    · have hne : d ≠ 16 * nr + k := by omega
      have := vrest d (by omega)
      exact ⟨(vdir' d hne).trans this.1, fun i => (vpte' d i hne).trans (this.2 i)⟩
    · obtain ⟨hr, ht⟩ := vram g hg
      refine ⟨(vram' g ht).trans hr, ht.1, fun d hp => ?_⟩
      by_cases h : d = 16 * nr + k
      · rw [h] at hp
        exact not_points_absent vgone' hp
      · rw [vdir' d h] at hp
        exact ht.2 d hp) (m := m)
    ⟨S, fun j h => absurd h (Nat.not_lt_zero j), fun _ _ => ⟨rfl, fun _ => rfl⟩,
      fun _ hg => ⟨rfl, hg⟩⟩
  rw [hn]
  exact ⟨n, rfl, Sn⟩

end Linux011.Mm
