import Linux011.Lib.Count
import Linux011.Mm.Entry
import Mathlib.Data.Finset.Prod
import Mathlib.Order.Interval.Finset.Nat

/-!
# The page account

The abstract side of the memory manager: a directory, a page map, a count for every frame and the
set of pages the kernel holds itself, as plain functions. `Acct` says when these agree. The count
of a frame is the number of its references, and four facts about who may reference what carry that
through every operation:

- a page table is referenced by its one directory entry and by nothing else;
- a held page is referenced by nothing at all;
- all entries that share a page stand at the same offset of their 64 MB regions, so a page has at
  most 63 references and an eight-bit count cannot wrap;
- a writable entry is the only entry of its page.

The operations below are the moves the paging code is made of: take a free page, give one back,
map, unmap, attach and detach a table, share, and change the flags of an entry. Each keeps `Acct`.
The code itself is not mentioned here; the next module shows that it makes only these moves.
-/

namespace Linux011.Mm

open Finset

/-- The entry is present and names frame `f`. -/
def Points (e : Word) (f : Nat) : Prop := present e = true ∧ frame e = f

instance (e : Word) (f : Nat) : Decidable (Points e f) := inferInstanceAs (Decidable (_ ∧ _))

theorem not_points_absent {e : Word} {f : Nat} (h : present e = false) : ¬ Points e f := by
  rintro ⟨hp, -⟩
  rw [hp] at h
  cases h

theorem not_points_zero (f : Nat) : ¬ Points 0 f := not_points_absent rfl

/-- The directory entries of the task slots 1..63. -/
@[irreducible] def dirs : Finset Nat := Ico 16 1024

/-- The page-table entries of the task slots 1..63. -/
@[irreducible] def cells : Finset (Nat × Nat) := dirs ×ˢ range 1024

/-- The number of present directory entries whose table is frame `f`. -/
def dirRefs (dir : Nat → Word) (f : Nat) : Nat := (dirs.filter fun d => Points (dir d) f).card

/-- The number of present page-table entries that point at frame `f`. -/
def pteRefs (pte : Nat → Nat → Word) (f : Nat) : Nat :=
  (cells.filter fun c => Points (pte c.1 c.2) f).card

/-- Change one entry of a page map. -/
def setPte (pte : Nat → Nat → Word) (d i : Nat) (e : Word) : Nat → Nat → Word :=
  fun d' i' => if d' = d ∧ i' = i then e else pte d' i'

@[simp] theorem setPte_self (pte : Nat → Nat → Word) (d i : Nat) (e : Word) :
    setPte pte d i e d i = e := by
  simp [setPte]

theorem setPte_other {pte : Nat → Nat → Word} {d i d' i' : Nat} {e : Word}
    (h : ¬ (d' = d ∧ i' = i)) : setPte pte d i e d' i' = pte d' i' := if_neg h

theorem setPte_setPte (pte : Nat → Nat → Word) (d i : Nat) (e e' : Word) :
    setPte (setPte pte d i e) d i e' = setPte pte d i e' := by
  funext d' i'
  by_cases h : d' = d ∧ i' = i <;> simp [setPte, h]

/-- The page account of the frames from `lo` up to `hi`: directory, page map, counts and held
pages agree. -/
structure Acct (lo hi : Nat) (dir : Nat → Word) (pte : Nat → Nat → Word) (cnt : Nat → Nat)
    (held : Nat → Bool) : Prop where
  low : lowMem ≤ lo
  high : hi ≤ lowMem + pagingPages
  slot : ∀ {d}, present (dir d) = true → d ∈ dirs
  cell : ∀ {d i}, present (pte d i) = true → d ∈ dirs ∧ i < 1024
  absent : ∀ {d i}, present (dir d) = false → pte d i = 0
  count : ∀ {f}, lo ≤ f → f < hi → cnt f = dirRefs dir f + pteRefs pte f + (held f).toNat
  busy : ∀ {f}, lowMem ≤ f → f < lowMem + pagingPages → ¬ (lo ≤ f ∧ f < hi) → cnt f = used
  table : ∀ {d}, present (dir d) = true → lo ≤ frame (dir d) ∧ frame (dir d) < hi
  tableOnce : ∀ {d d'}, present (dir d) = true → present (dir d') = true →
    frame (dir d) = frame (dir d') → d = d'
  tableApart : ∀ {d d' i}, present (dir d) = true → present (pte d' i) = true →
    frame (pte d' i) ≠ frame (dir d)
  tableHeld : ∀ {d}, present (dir d) = true → held (frame (dir d)) = false
  page : ∀ {d i}, present (pte d i) = true →
    (frame (pte d i) < lowMem ∧ writable (pte d i) = false) ∨
      (lo ≤ frame (pte d i) ∧ frame (pte d i) < hi)
  pageHeld : ∀ {d i}, present (pte d i) = true → held (frame (pte d i)) = false
  offset : ∀ {d i d' i'}, present (pte d i) = true → present (pte d' i') = true →
    frame (pte d i) = frame (pte d' i') → lowMem ≤ frame (pte d i) → d % 16 = d' % 16 ∧ i = i'
  alone : ∀ {d i d' i'}, present (pte d i) = true → present (pte d' i') = true →
    frame (pte d i) = frame (pte d' i') → writable (pte d i) = true → d = d' ∧ i = i'
  heldRange : ∀ {f}, held f = true → lo ≤ f ∧ f < hi

variable {lo hi : Nat} {dir : Nat → Word} {pte : Nat → Nat → Word} {cnt : Nat → Nat}
  {held : Nat → Bool}

/-! ## Counting references -/

theorem mem_dirs {d : Nat} : d ∈ dirs ↔ 16 ≤ d ∧ d < 1024 := by
  unfold dirs
  exact mem_Ico

theorem mem_cells {d i : Nat} : (d, i) ∈ cells ↔ d ∈ dirs ∧ i < 1024 := by
  unfold cells
  simp only [mem_product, mem_range]

theorem dirRefs_zero {f : Nat} : dirRefs dir f = 0 ↔ ∀ d ∈ dirs, ¬ Points (dir d) f :=
  Lib.card_filter_zero

theorem pteRefs_zero {f : Nat} :
    pteRefs pte f = 0 ↔ ∀ d i, d ∈ dirs → i < 1024 → ¬ Points (pte d i) f := by
  rw [pteRefs, Lib.card_filter_zero]
  constructor
  · intro h d i hd hi
    exact h (d, i) (mem_cells.mpr ⟨hd, hi⟩)
  · rintro h ⟨d, i⟩ hc
    exact h d i (mem_cells.mp hc).1 (mem_cells.mp hc).2

/-- The counting law for one page-table entry. -/
theorem pteRefs_setPte {d i : Nat} (hd : d ∈ dirs) (hi : i < 1024) (e : Word) (f : Nat) :
    pteRefs (setPte pte d i e) f + (if Points (pte d i) f then 1 else 0)
      = pteRefs pte f + (if Points e f then 1 else 0) := by
  have key := Lib.card_filter_change (p := fun c : Nat × Nat => Points (pte c.1 c.2) f)
    (q := fun c : Nat × Nat => Points (setPte pte d i e c.1 c.2) f)
    (mem_cells.mpr ⟨hd, hi⟩) ?_
  · rw [setPte_self] at key
    exact key
  · rintro ⟨d', i'⟩ _ hne
    have hne' : ¬ (d' = d ∧ i' = i) := fun h => hne (by rw [h.1, h.2])
    simp only [setPte_other hne']

/-- The counting law for one directory entry. -/
theorem dirRefs_update {d : Nat} (hd : d ∈ dirs) (e : Word) (f : Nat) :
    dirRefs (Function.update dir d e) f + (if Points (dir d) f then 1 else 0)
      = dirRefs dir f + (if Points e f then 1 else 0) := by
  have key := Lib.card_filter_change (p := fun x => Points (dir x) f)
    (q := fun x => Points (Function.update dir d e x) f) hd ?_
  · rw [Function.update_self] at key
    exact key
  · intro x _ hne
    rw [Function.update_of_ne hne]

namespace Acct

/-- A frame whose count is zero is referenced by nobody. -/
theorem unreferenced (A : Acct lo hi dir pte cnt held) {f : Nat} (h1 : lo ≤ f) (h2 : f < hi)
    (h0 : cnt f = 0) : dirRefs dir f = 0 ∧ pteRefs pte f = 0 ∧ held f = false := by
  have := A.count h1 h2
  refine ⟨by omega, by omega, ?_⟩
  cases hh : held f with
  | false => rfl
  | true => rw [hh] at this; simp at this; omega

/-- No present entry names a frame without page references. -/
theorem not_points (A : Acct lo hi dir pte cnt held) {f d i : Nat} (h : pteRefs pte f = 0) :
    ¬ Points (pte d i) f :=
  fun hp => pteRefs_zero.mp h d i (A.cell hp.1).1 (A.cell hp.1).2 hp

/-- No present directory entry names a frame without directory references. -/
theorem not_dir (A : Acct lo hi dir pte cnt held) {f d : Nat} (h : dirRefs dir f = 0) :
    ¬ Points (dir d) f :=
  fun hp => dirRefs_zero.mp h d (A.slot hp.1) hp

/-- A held page has no references. -/
theorem held_free (A : Acct lo hi dir pte cnt held) {f : Nat} (h : held f = true) :
    dirRefs dir f = 0 ∧ pteRefs pte f = 0 := by
  constructor
  · refine dirRefs_zero.mpr fun d _ hp => ?_
    have := A.tableHeld hp.1
    rw [hp.2, h] at this
    cases this
  · refine pteRefs_zero.mpr fun d i _ _ hp => ?_
    have := A.pageHeld hp.1
    rw [hp.2, h] at this
    cases this

/-- A held page is counted once. -/
theorem held_count (A : Acct lo hi dir pte cnt held) {f : Nat} (h : held f = true) : cnt f = 1 := by
  have hf := A.held_free h
  rw [A.count (A.heldRange h).1 (A.heldRange h).2, hf.1, hf.2, h]
  rfl

/-- A mapped page is counted by its page-table entries alone. -/
theorem page_count (A : Acct lo hi dir pte cnt held) {d i : Nat} (hp : present (pte d i) = true)
    (hl : lowMem ≤ frame (pte d i)) : cnt (frame (pte d i)) = pteRefs pte (frame (pte d i)) := by
  have hr : lo ≤ frame (pte d i) ∧ frame (pte d i) < hi := by
    rcases A.page hp with h | h
    · omega
    · exact h
  have hd : dirRefs dir (frame (pte d i)) = 0 :=
    dirRefs_zero.mpr fun d' _ hx => A.tableApart hx.1 hp hx.2.symm
  rw [A.count hr.1 hr.2, hd, A.pageHeld hp]
  simp

/-- A page table is counted once. -/
theorem table_count (A : Acct lo hi dir pte cnt held) {d : Nat} (hp : present (dir d) = true) :
    cnt (frame (dir d)) = 1 := by
  have hone : dirRefs dir (frame (dir d)) = 1 :=
    Lib.card_filter_one (A.slot hp) ⟨hp, rfl⟩ fun d' _ hx => (A.tableOnce hp hx.1 hx.2.symm).symm
  have hz : pteRefs pte (frame (dir d)) = 0 :=
    pteRefs_zero.mpr fun d' i _ _ hx => A.tableApart hp hx.1 hx.2
  rw [A.count (A.table hp).1 (A.table hp).2, hone, hz, A.tableHeld hp]
  rfl

/-- At most one entry in each of the 63 slots names a page above `LOW_MEM`. -/
theorem pteRefs_le (A : Acct lo hi dir pte cnt held) {f : Nat} (hf : lowMem ≤ f) :
    pteRefs pte f ≤ 63 := by
  have key := Lib.card_filter_le_of_label (s := cells)
    (p := fun c : Nat × Nat => Points (pte c.1 c.2) f) (fun c => c.1 / 16) (Ico 1 64) ?_ ?_
  · rw [Nat.card_Ico] at key
    exact key
  · rintro ⟨d, i⟩ hc _
    have := mem_dirs.mp (mem_cells.mp hc).1
    simp only [mem_Ico]
    omega
  · rintro ⟨d, i⟩ _ hp ⟨d', i'⟩ _ hp' hlab
    have := A.offset hp.1 hp'.1 (by rw [hp.2, hp'.2]) (by rw [hp.2]; exact hf)
    simp only at hlab this
    rw [Prod.mk.injEq]
    exact ⟨by omega, this.2⟩

/-- A mapped page that is counted once has one entry. -/
theorem sole (A : Acct lo hi dir pte cnt held) {d i d' i' : Nat} (hp : present (pte d i) = true)
    (hp' : present (pte d' i') = true) (hf : frame (pte d i) = frame (pte d' i'))
    (hl : lowMem ≤ frame (pte d i)) (hc : cnt (frame (pte d i)) = 1) : d = d' ∧ i = i' := by
  have hone : (cells.filter fun c => Points (pte c.1 c.2) (frame (pte d i))).card = 1 := by
    have := A.page_count hp hl
    rw [hc] at this
    exact this.symm
  obtain ⟨a, ha⟩ := card_eq_one.mp hone
  have mem : ∀ x y, present (pte x y) = true → frame (pte x y) = frame (pte d i) → (x, y) = a := by
    intro x y hxy hfr
    have : (x, y) ∈ cells.filter fun c => Points (pte c.1 c.2) (frame (pte d i)) :=
      mem_filter.mpr ⟨mem_cells.mpr (A.cell hxy), hxy, hfr⟩
    rw [ha] at this
    exact mem_singleton.mp this
  have heq := (mem d i hp rfl).trans (mem d' i' hp' hf.symm).symm
  exact ⟨congrArg Prod.fst heq, congrArg Prod.snd heq⟩

/-! ## The moves -/

/-- TAKE a free page: the kernel holds it. -/
theorem alloc (A : Acct lo hi dir pte cnt held) {f : Nat} (h1 : lo ≤ f) (h2 : f < hi)
    (h0 : cnt f = 0) :
    Acct lo hi dir pte (Function.update cnt f 1) (Function.update held f true) := by
  obtain ⟨hd, hp, hh⟩ := A.unreferenced h1 h2 h0
  refine { A with count := ?_, busy := ?_, tableHeld := ?_, pageHeld := ?_, heldRange := ?_ }
  · intro g hg1 hg2
    by_cases hgf : g = f
    · subst hgf
      rw [Function.update_self, Function.update_self, hd, hp]
      rfl
    · rw [Function.update_of_ne hgf, Function.update_of_ne hgf]
      exact A.count hg1 hg2
  · intro g hg1 hg2 hg3
    have hgf : g ≠ f := fun h => hg3 (h ▸ ⟨h1, h2⟩)
    rw [Function.update_of_ne hgf]
    exact A.busy hg1 hg2 hg3
  · intro d hpd
    have hne : frame (dir d) ≠ f := fun h => A.not_dir hd ⟨hpd, h⟩
    rw [Function.update_of_ne hne]
    exact A.tableHeld hpd
  · intro d i hpi
    have hne : frame (pte d i) ≠ f := fun h => A.not_points hp ⟨hpi, h⟩
    rw [Function.update_of_ne hne]
    exact A.pageHeld hpi
  · intro g hg
    by_cases hgf : g = f
    · subst hgf
      exact ⟨h1, h2⟩
    · rw [Function.update_of_ne hgf] at hg
      exact A.heldRange hg

/-- GIVE BACK a held page. -/
theorem drop (A : Acct lo hi dir pte cnt held) {f : Nat} (hf : held f = true) :
    Acct lo hi dir pte (Function.update cnt f 0) (Function.update held f false) := by
  have hfree := A.held_free hf
  have hrange := A.heldRange hf
  have off : ∀ {g}, held g = false → Function.update held f false g = false := by
    intro g hg
    by_cases hgf : g = f
    · rw [hgf, Function.update_self]
    · rw [Function.update_of_ne hgf, hg]
  refine { A with count := ?_, busy := ?_, tableHeld := ?_, pageHeld := ?_, heldRange := ?_ }
  · intro g hg1 hg2
    by_cases hgf : g = f
    · subst hgf
      rw [Function.update_self, Function.update_self, hfree.1, hfree.2]
      rfl
    · rw [Function.update_of_ne hgf, Function.update_of_ne hgf]
      exact A.count hg1 hg2
  · intro g hg1 hg2 hg3
    have hgf : g ≠ f := fun h => hg3 (h ▸ hrange)
    rw [Function.update_of_ne hgf]
    exact A.busy hg1 hg2 hg3
  · exact fun hpd => off (A.tableHeld hpd)
  · exact fun hpi => off (A.pageHeld hpi)
  · intro g hg
    by_cases hgf : g = f
    · rw [hgf, Function.update_self] at hg
      cases hg
    · rw [Function.update_of_ne hgf] at hg
      exact A.heldRange hg

/-- WRITE one entry of a present table. Every move on the page map is this one: the counts follow
the change, and the new entry, if it is present, may stand beside the entries that are already
there. -/
theorem write (A : Acct lo hi dir pte cnt held) {d i : Nat} {e : Word} {cnt' : Nat → Nat}
    {held' : Nat → Bool} (hd : present (dir d) = true) (hlt : i < 1024)
    (hcount : ∀ g, lo ≤ g → g < hi →
      cnt' g + (if Points (pte d i) g then 1 else 0) + (held g).toNat
        = cnt g + (if Points e g then 1 else 0) + (held' g).toNat)
    (hbusy : ∀ g, lowMem ≤ g → ¬ (lo ≤ g ∧ g < hi) → cnt' g = cnt g)
    (hheld : ∀ g, held' g = true → held g = true)
    (hfree : present e = true → held' (frame e) = false)
    (hapart : present e = true → ∀ d', present (dir d') = true → frame e ≠ frame (dir d'))
    (hpage : present e = true →
      (frame e < lowMem ∧ writable e = false) ∨ (lo ≤ frame e ∧ frame e < hi))
    (hoffset : present e = true → lowMem ≤ frame e → ∀ d' i', ¬ (d' = d ∧ i' = i) →
      Points (pte d' i') (frame e) → d' % 16 = d % 16 ∧ i' = i)
    (halone : present e = true → ∀ d' i', ¬ (d' = d ∧ i' = i) → Points (pte d' i') (frame e) →
      writable e = false ∧ writable (pte d' i') = false) :
    Acct lo hi dir (setPte pte d i e) cnt' held' := by
  have off : ∀ {g}, held g = false → held' g = false := by
    intro g hg
    cases h' : held' g with
    | false => rfl
    | true => rw [hheld g h'] at hg; cases hg
  -- each fact is split at the new entry; elsewhere it is the old fact
  refine { A with cell := ?_, absent := ?_, count := ?_, busy := ?_, tableApart := ?_,
                  tableHeld := ?_, page := ?_, pageHeld := ?_, offset := ?_, alone := ?_,
                  heldRange := ?_ }
  · intro d' i' hp
    by_cases hc : d' = d ∧ i' = i
    · rw [hc.1, hc.2]
      exact ⟨A.slot hd, hlt⟩
    · rw [setPte_other hc] at hp
      exact A.cell hp
  · intro d' i' hab
    have hne : ¬ (d' = d ∧ i' = i) := by
      rintro ⟨rfl, rfl⟩
      rw [hd] at hab
      cases hab
    rw [setPte_other hne]
    exact A.absent hab
  · intro g hg1 hg2
    have law := @pteRefs_setPte pte _ _ (A.slot hd) hlt e g
    have old := A.count hg1 hg2
    have new := hcount g hg1 hg2
    omega
  · intro g hg1 hg2 hg3
    rw [hbusy g hg1 hg3]
    exact A.busy hg1 hg2 hg3
  · intro d' d'' i' hd' hp
    by_cases hc : d'' = d ∧ i' = i
    · rw [hc.1, hc.2, setPte_self] at hp ⊢
      exact hapart hp d' hd'
    · rw [setPte_other hc] at hp ⊢
      exact A.tableApart hd' hp
  · exact fun hd' => off (A.tableHeld hd')
  · intro d' i' hp
    by_cases hc : d' = d ∧ i' = i
    · rw [hc.1, hc.2, setPte_self] at hp ⊢
      exact hpage hp
    · rw [setPte_other hc] at hp ⊢
      exact A.page hp
  · intro d' i' hp
    by_cases hc : d' = d ∧ i' = i
    · rw [hc.1, hc.2, setPte_self] at hp ⊢
      exact hfree hp
    · rw [setPte_other hc] at hp ⊢
      exact off (A.pageHeld hp)
  · intro d1 i1 d2 i2 hp1 hp2 hfr hl
    by_cases h1 : d1 = d ∧ i1 = i <;> by_cases h2 : d2 = d ∧ i2 = i
    · rw [h1.1, h1.2, h2.1, h2.2]
      exact ⟨rfl, rfl⟩
    · obtain ⟨rfl, rfl⟩ := h1
      rw [setPte_self] at hp1 hfr hl
      rw [setPte_other h2] at hp2 hfr
      have := hoffset hp1 hl d2 i2 h2 ⟨hp2, hfr.symm⟩
      exact ⟨this.1.symm, this.2.symm⟩
    · obtain ⟨rfl, rfl⟩ := h2
      rw [setPte_self] at hp2 hfr
      rw [setPte_other h1] at hp1 hfr hl
      exact hoffset hp2 (hfr ▸ hl) d1 i1 h1 ⟨hp1, hfr⟩
    · rw [setPte_other h1] at hp1 hfr hl
      rw [setPte_other h2] at hp2 hfr
      exact A.offset hp1 hp2 hfr hl
  · intro d1 i1 d2 i2 hp1 hp2 hfr hw
    by_cases h1 : d1 = d ∧ i1 = i <;> by_cases h2 : d2 = d ∧ i2 = i
    · rw [h1.1, h1.2, h2.1, h2.2]
      exact ⟨rfl, rfl⟩
    · obtain ⟨rfl, rfl⟩ := h1
      rw [setPte_self] at hp1 hfr hw
      rw [setPte_other h2] at hp2 hfr
      rw [(halone hp1 d2 i2 h2 ⟨hp2, hfr.symm⟩).1] at hw
      cases hw
    · obtain ⟨rfl, rfl⟩ := h2
      rw [setPte_self] at hp2 hfr
      rw [setPte_other h1] at hp1 hfr hw
      rw [(halone hp2 d1 i1 h1 ⟨hp1, hfr⟩).2] at hw
      cases hw
    · rw [setPte_other h1] at hp1 hfr hw
      rw [setPte_other h2] at hp2 hfr
      exact A.alone hp1 hp2 hfr hw
  · exact fun hg => A.heldRange (hheld _ hg)

/-- MAP a held page at an absent entry. -/
theorem map (A : Acct lo hi dir pte cnt held) {f d i : Nat} {e : Word} (hf : held f = true)
    (hd : present (dir d) = true) (hlt : i < 1024) (ha : present (pte d i) = false)
    (he : Points e f) :
    Acct lo hi dir (setPte pte d i e) cnt (Function.update held f false) := by
  have hfree := A.held_free hf
  obtain ⟨hpe, rfl⟩ := he
  refine A.write hd hlt ?_ (fun _ _ _ => rfl) ?_ (fun _ => Function.update_self ..) ?_
    (fun _ => Or.inr (A.heldRange hf)) ?_ ?_
  · intro g _ _
    rw [if_neg (not_points_absent ha)]
    by_cases hgf : g = frame e
    · subst hgf
      rw [if_pos ⟨hpe, rfl⟩, Function.update_self, hf]
      rfl
    · rw [if_neg fun h => hgf h.2.symm, Function.update_of_ne hgf]
  · intro g hg
    by_cases hgf : g = frame e
    · rw [hgf]
      exact hf
    · rwa [Function.update_of_ne hgf] at hg
  · exact fun _ d' hd' h => A.not_dir hfree.1 ⟨hd', h.symm⟩
  · exact fun _ _ d' i' _ hp => absurd hp (A.not_points hfree.2)
  · exact fun _ d' i' _ hp => absurd hp (A.not_points hfree.2)

/-- CLEAR an entry that is absent already. -/
theorem clear (A : Acct lo hi dir pte cnt held) {d i : Nat} (hd : present (dir d) = true)
    (hlt : i < 1024) (ha : present (pte d i) = false) :
    Acct lo hi dir (setPte pte d i 0) cnt held := by
  refine A.write hd hlt ?_ (fun _ _ _ => rfl) (fun _ h => h) ?_ ?_ ?_ ?_ ?_
  · intro g _ _
    rw [if_neg (not_points_absent ha), if_neg (not_points_zero g)]
  all_goals exact fun h => by cases h

/-- UNMAP a present entry: a page above `LOW_MEM` is counted once less. -/
theorem unmap (A : Acct lo hi dir pte cnt held) {d i : Nat} {cnt' : Nat → Nat}
    (hd : present (dir d) = true) (hp : present (pte d i) = true)
    (hc : ∀ g, lowMem ≤ g → cnt' g = if g = frame (pte d i) then cnt g - 1 else cnt g) :
    Acct lo hi dir (setPte pte d i 0) cnt' held := by
  have hlow := A.low
  refine A.write hd (A.cell hp).2 ?_ ?_ (fun _ h => h) ?_ ?_ ?_ ?_ ?_
  · intro g hg1 hg2
    rw [if_neg (not_points_zero g), hc g (by omega)]
    by_cases hgf : g = frame (pte d i)
    · subst hgf
      have hpos : 0 < pteRefs pte (frame (pte d i)) := by
        rw [Nat.pos_iff_ne_zero]
        exact fun h => A.not_points h ⟨hp, rfl⟩
      have := A.page_count hp (by omega)
      rw [if_pos rfl, if_pos ⟨hp, rfl⟩]
      omega
    · rw [if_neg hgf, if_neg fun h => hgf h.2.symm]
  · intro g hg1 hg2
    rw [hc g hg1, if_neg]
    rintro rfl
    rcases A.page hp with h | h
    · omega
    · exact hg2 h
  all_goals exact fun h => by cases h

/-- FLAGS: change an entry within its page; the R/W bit may be set only on a page counted once. -/
theorem flags (A : Acct lo hi dir pte cnt held) {d i : Nat} {e : Word}
    (hp : present (pte d i) = true) (he : Points e (frame (pte d i)))
    (hw : writable e = true → writable (pte d i) = true ∨
      (lowMem ≤ frame (pte d i) ∧ cnt (frame (pte d i)) = 1)) :
    Acct lo hi dir (setPte pte d i e) cnt held := by
  have hd : present (dir d) = true := by
    cases h : present (dir d) with
    | true => rfl
    | false => rw [A.absent h] at hp; cases hp
  obtain ⟨hpe, hfe⟩ := he
  refine A.write hd (A.cell hp).2 ?_ (fun _ _ _ => rfl) (fun _ h => h) ?_ ?_ ?_ ?_ ?_
  · intro g _ _
    by_cases hgf : g = frame (pte d i)
    · rw [if_pos ⟨hp, hgf.symm⟩, if_pos ⟨hpe, hfe.trans hgf.symm⟩]
    · rw [if_neg fun h => hgf h.2.symm, if_neg fun h => hgf (h.2.symm.trans hfe)]
  · exact fun _ => hfe ▸ A.pageHeld hp
  · exact fun _ d2 h2 h => A.tableApart h2 hp (hfe ▸ h)
  · intro _
    rcases A.page hp with h | h
    · refine Or.inl ⟨hfe ▸ h.1, ?_⟩
      cases hwe : writable e with
      | false => rfl
      | true =>
        rcases hw hwe with h' | h'
        · rw [h.2] at h'
          cases h'
        · omega
    · exact Or.inr (hfe ▸ h)
  · intro _ hl d2 i2 _ hp2
    exact A.offset hp2.1 hp (hp2.2.trans hfe) (by rw [hp2.2]; exact hl)
  · intro _ d2 i2 h2 hp2
    have hfr : frame (pte d2 i2) = frame (pte d i) := hp2.2.trans hfe
    refine ⟨?_, ?_⟩
    · cases hwe : writable e with
      | false => rfl
      | true =>
        rcases hw hwe with h' | h'
        · have := A.alone hp hp2.1 hfr.symm h'
          exact absurd ⟨this.1.symm, this.2.symm⟩ h2
        · have := A.sole hp hp2.1 hfr.symm h'.1 h'.2
          exact absurd ⟨this.1.symm, this.2.symm⟩ h2
    · cases hw2 : writable (pte d2 i2) with
      | false => rfl
      | true => exact absurd (A.alone hp2.1 hp hfr hw2) h2

/-- SHARE the page of one entry at an absent entry at the same offset of another region, both
without the R/W bit: the page is counted once more, and the count does not wrap. -/
theorem share (A : Acct lo hi dir pte cnt held) {d i d' : Nat} {e : Word} {cnt' : Nat → Nat}
    (hp : present (pte d i) = true) (hd : present (dir d) = true) (hd' : present (dir d') = true)
    (ha : present (pte d' i) = false) (hoff : d' % 16 = d % 16) (he : Points e (frame (pte d i)))
    (hw : writable e = false) (hl : lowMem ≤ frame (pte d i))
    (hc : ∀ g, lowMem ≤ g → cnt' g = if g = frame (pte d i) then (cnt g + 1) % 256 else cnt g) :
    Acct lo hi dir (setPte (setPte pte d i e) d' i e) cnt' held := by
  have hlow := A.low
  have hlt := (A.cell hp).2
  have hne : ¬ (d' = d ∧ i = i) := by
    rintro ⟨rfl, -⟩
    rw [hp] at ha
    cases ha
  have hr : lo ≤ frame (pte d i) ∧ frame (pte d i) < hi := by
    rcases A.page hp with h | h
    · omega
    · exact h
  obtain ⟨hpe, hfe⟩ := he
  -- first the old entry loses the bit, then the new one is written beside it
  have B : Acct lo hi dir (setPte pte d i e) cnt held :=
    A.flags hp ⟨hpe, hfe⟩ fun h => absurd (hw.symm.trans h) nofun
  have hpB : present (setPte pte d i e d i) = true := by rw [setPte_self]; exact hpe
  have hfB : frame (setPte pte d i e d i) = frame (pte d i) := by rw [setPte_self]; exact hfe
  have haB : present (setPte pte d i e d' i) = false := by rw [setPte_other hne]; exact ha
  refine B.write hd' hlt ?_ ?_ (fun _ h => h) ?_ ?_ ?_ ?_ ?_
  · intro g hg1 hg2
    rw [if_neg (not_points_absent haB), hc g (by omega)]
    by_cases hgf : g = frame (pte d i)
    · subst hgf
      have h63 := A.pteRefs_le hl
      have := A.page_count hp hl
      rw [if_pos rfl, if_pos ⟨hpe, hfe⟩]
      omega
    · rw [if_neg (c := Points e g) fun h => hgf (h.2.symm.trans hfe), if_neg hgf]
  · intro g hg1 hg2
    rw [hc g hg1, if_neg]
    rintro rfl
    exact hg2 hr
  · exact fun _ => hfe ▸ A.pageHeld hp
  · exact fun _ d2 h2 h => A.tableApart h2 hp (hfe ▸ h)
  · exact fun _ => Or.inr (hfe ▸ hr)
  · intro _ h2 d2 i2 _ hp2
    have := B.offset hp2.1 hpB (by rw [hp2.2, hfB, hfe]) (by rw [hp2.2]; exact h2)
    exact ⟨this.1.trans hoff.symm, this.2⟩
  · intro _ d2 i2 _ hp2
    refine ⟨hw, ?_⟩
    cases hw2 : writable (setPte pte d i e d2 i2) with
    | false => rfl
    | true =>
      have := B.alone hp2.1 hpB (by rw [hp2.2, hfB, hfe]) hw2
      rw [this.1, this.2, setPte_self, hw] at hw2
      cases hw2

/-- SHARE a page below `LOW_MEM`: such pages are never counted, and never writable. -/
theorem shareLow (A : Acct lo hi dir pte cnt held) {i d' : Nat} {e : Word}
    (hd' : present (dir d') = true) (hlt : i < 1024) (ha : present (pte d' i) = false)
    (hw : writable e = false) (hl : frame e < lowMem) :
    Acct lo hi dir (setPte pte d' i e) cnt held := by
  have hlow := A.low
  refine A.write hd' hlt ?_ (fun _ _ _ => rfl) (fun _ h => h) ?_ ?_ (fun _ => Or.inl ⟨hl, hw⟩) ?_ ?_
  · intro g hg1 _
    have hne : frame e ≠ g := by omega
    rw [if_neg (not_points_absent ha), if_neg fun h => hne h.2]
  · intro _
    cases hh : held (frame e) with
    | false => rfl
    | true => have := A.heldRange hh; omega
  · intro _ d2 h2 h
    have := A.table h2
    omega
  · exact fun _ h => by omega
  · intro _ d2 i2 h2 hp2
    refine ⟨hw, ?_⟩
    rcases A.page hp2.1 with h | h
    · exact h.2
    · have := hp2.2
      omega

/-- ATTACH a held page as the table of an absent directory entry. -/
theorem attach (A : Acct lo hi dir pte cnt held) {f d : Nat} {e : Word} (hf : held f = true)
    (hd : d ∈ dirs) (ha : present (dir d) = false) (he : Points e f) :
    Acct lo hi (Function.update dir d e) pte cnt (Function.update held f false) := by
  have hfree := A.held_free hf
  obtain ⟨hpe, rfl⟩ := he
  have off : ∀ {g}, held g = false → Function.update held (frame e) false g = false := by
    intro g hg
    by_cases hgf : g = frame e
    · rw [hgf, Function.update_self]
    · rw [Function.update_of_ne hgf, hg]
  refine { A with slot := ?_, absent := ?_, count := ?_, table := ?_, tableOnce := ?_,
                  tableApart := ?_, tableHeld := ?_, pageHeld := ?_, heldRange := ?_ }
  · intro d' hp
    by_cases hc : d' = d
    · rw [hc]
      exact hd
    · rw [Function.update_of_ne hc] at hp
      exact A.slot hp
  · intro d' i' hp
    by_cases hc : d' = d
    · rw [hc]
      exact A.absent ha
    · rw [Function.update_of_ne hc] at hp
      exact A.absent hp
  · intro g hg1 hg2
    have law := @dirRefs_update dir _ hd e g
    have old := A.count hg1 hg2
    rw [if_neg (not_points_absent ha)] at law
    by_cases hgf : g = frame e
    · subst hgf
      rw [if_pos ⟨hpe, rfl⟩] at law
      rw [hf] at old
      rw [Function.update_self]
      simp only [Bool.toNat_true, Bool.toNat_false] at old ⊢
      omega
    · rw [if_neg fun h => hgf h.2.symm] at law
      rw [Function.update_of_ne hgf]
      omega
  · intro d' hp
    by_cases hc : d' = d
    · rw [hc, Function.update_self]
      exact A.heldRange hf
    · rw [Function.update_of_ne hc] at hp ⊢
      exact A.table hp
  · intro d1 d2 hp1 hp2 hfr
    by_cases h1 : d1 = d <;> by_cases h2 : d2 = d
    · rw [h1, h2]
    · rw [h1, Function.update_self, Function.update_of_ne h2] at hfr
      rw [Function.update_of_ne h2] at hp2
      exact absurd ⟨hp2, hfr.symm⟩ (A.not_dir hfree.1)
    · rw [h2, Function.update_self, Function.update_of_ne h1] at hfr
      rw [Function.update_of_ne h1] at hp1
      exact absurd ⟨hp1, hfr⟩ (A.not_dir hfree.1)
    · rw [Function.update_of_ne h1] at hp1 hfr
      rw [Function.update_of_ne h2] at hp2 hfr
      exact A.tableOnce hp1 hp2 hfr
  · intro d1 d2 i2 hp1 hp2
    by_cases h1 : d1 = d
    · rw [h1, Function.update_self]
      exact fun h => A.not_points hfree.2 ⟨hp2, h⟩
    · rw [Function.update_of_ne h1] at hp1 ⊢
      exact A.tableApart hp1 hp2
  · intro d' hp
    by_cases hc : d' = d
    · rw [hc, Function.update_self, Function.update_self]
    · rw [Function.update_of_ne hc] at hp
      rw [Function.update_of_ne hc]
      exact off (A.tableHeld hp)
  · exact fun hp => off (A.pageHeld hp)
  · intro g hg
    by_cases hgf : g = frame e
    · rw [hgf]
      exact A.heldRange hf
    · rw [Function.update_of_ne hgf] at hg
      exact A.heldRange hg

/-- DETACH a table without present entries: its frame is counted once less, and the whole row of
the page map is gone. -/
theorem detach (A : Acct lo hi dir pte cnt held) {d : Nat} {cnt' : Nat → Nat}
    {pte' : Nat → Nat → Word} (hp : present (dir d) = true)
    (hrow : ∀ i, present (pte d i) = false) (hrow' : ∀ i, pte' d i = 0)
    (hrest : ∀ d' i, d' ≠ d → pte' d' i = pte d' i)
    (hc : ∀ g, lowMem ≤ g → cnt' g = if g = frame (dir d) then cnt g - 1 else cnt g) :
    Acct lo hi (Function.update dir d 0) pte' cnt' held := by
  have hlow := A.low
  have hd := A.slot hp
  have sub : ∀ {d' i}, present (pte' d' i) = true → d' ≠ d ∧ pte' d' i = pte d' i := by
    intro d' i h
    by_cases hc : d' = d
    · rw [hc, hrow'] at h
      cases h
    · exact ⟨hc, hrest d' i hc⟩
  have old : ∀ {d'}, present (Function.update dir d 0 d') = true →
      d' ≠ d ∧ Function.update dir d 0 d' = dir d' := by
    intro d' h
    by_cases hc : d' = d
    · rw [hc, Function.update_self] at h
      cases h
    · exact ⟨hc, Function.update_of_ne hc ..⟩
  have refs : ∀ g, pteRefs pte' g = pteRefs pte g := by
    intro g
    refine Lib.card_filter_agree fun c _ => ?_
    by_cases hc : c.1 = d
    · rw [hc, hrow']
      exact iff_of_false (not_points_zero g) (not_points_absent (hrow c.2))
    · rw [hrest _ _ hc]
  refine { low := A.low, high := A.high, slot := ?_, cell := ?_, absent := ?_, count := ?_,
           busy := ?_, table := ?_, tableOnce := ?_, tableApart := ?_, tableHeld := ?_, page := ?_,
           pageHeld := ?_, offset := ?_, alone := ?_, heldRange := A.heldRange }
  · intro d' h
    obtain ⟨-, h'⟩ := old h
    exact A.slot (h' ▸ h)
  · intro d' i h
    obtain ⟨-, h'⟩ := sub h
    exact A.cell (h' ▸ h)
  · intro d' i h
    by_cases hc : d' = d
    · rw [hc]
      exact hrow' i
    · rw [Function.update_of_ne hc] at h
      rw [hrest _ _ hc]
      exact A.absent h
  · intro g hg1 hg2
    have law := @dirRefs_update dir _ hd 0 g
    have count := A.count hg1 hg2
    rw [if_neg (not_points_zero g)] at law
    rw [refs, hc g (by omega)]
    by_cases hgf : g = frame (dir d)
    · rw [if_pos ⟨hp, hgf.symm⟩] at law
      rw [if_pos hgf]
      omega
    · rw [if_neg fun h => hgf h.2.symm] at law
      rw [if_neg hgf]
      omega
  · intro g hg1 hg2 hg3
    rw [hc g hg1, if_neg]
    · exact A.busy hg1 hg2 hg3
    · rintro rfl
      exact hg3 (A.table hp)
  · intro d' h
    obtain ⟨-, h'⟩ := old h
    rw [h'] at h ⊢
    exact A.table h
  · intro d1 d2 h1 h2 hfr
    obtain ⟨-, h1'⟩ := old h1
    obtain ⟨-, h2'⟩ := old h2
    rw [h1'] at h1 hfr
    rw [h2'] at h2 hfr
    exact A.tableOnce h1 h2 hfr
  · intro d1 d2 i2 h1 h2
    obtain ⟨-, h1'⟩ := old h1
    obtain ⟨-, h2'⟩ := sub h2
    rw [h1'] at h1 ⊢
    rw [h2'] at h2 ⊢
    exact A.tableApart h1 h2
  · intro d' h
    obtain ⟨-, h'⟩ := old h
    rw [h'] at h ⊢
    exact A.tableHeld h
  · intro d' i h
    obtain ⟨-, h'⟩ := sub h
    rw [h'] at h ⊢
    exact A.page h
  · intro d' i h
    obtain ⟨-, h'⟩ := sub h
    rw [h'] at h ⊢
    exact A.pageHeld h
  · intro d1 i1 d2 i2 h1 h2 hfr hl
    obtain ⟨-, h1'⟩ := sub h1
    obtain ⟨-, h2'⟩ := sub h2
    rw [h1'] at h1 hfr hl
    rw [h2'] at h2 hfr
    exact A.offset h1 h2 hfr hl
  · intro d1 i1 d2 i2 h1 h2 hfr hw
    obtain ⟨-, h1'⟩ := sub h1
    obtain ⟨-, h2'⟩ := sub h2
    rw [h1'] at h1 hfr hw
    rw [h2'] at h2 hfr
    exact A.alone h1 h2 hfr hw

end Acct

end Linux011.Mm
