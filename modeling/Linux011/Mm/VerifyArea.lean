import Linux011.Mm.UserCopy

/-!
# What `verify_area` reaches (`kernel/fork.c`)

The loop of `verify_area` as the source has it: `size` is an `int` from which 4096 is taken, `start` a
32-bit linear address. Every turn makes one page writable, and takes at most one free page for it; so
with a free page for each write-protected page that the loop runs over, it comes to its end, and every
page of the area belongs to one entry only.

Before the loop the offset in the first page is added to `size`. From 2^31 on the sum is negative, and
the loop does nothing at all.
-/

namespace Linux011.Mm

open Finset

variable {lo hi : Nat} {m m' : Mem} {held : Nat → Bool} {d i n nr address : Nat} {e : Word}

/-! ## The code -/

/-- `while (size>0)`. -/
def verifyWhile (size : Int) (start : Nat) (m : Mem) : Res Unit :=
  if 0 < size then
    (writeVerify start m).bind fun _ m => verifyWhile (size - 4096) ((start + 4096) % 2 ^ 32) m
  else .ok () m
termination_by size.toNat
decreasing_by omega

/-- `verify_area` of a task whose data segment begins at `base`. -/
def verifyPages (base address size : Nat) (m : Mem) : Res Unit :=
  verifyWhile (int32 (size + address % 4096)) ((address / 4096 * 4096 + base) % 2 ^ 32) m

/-! ## Free pages -/

/-- What `get_free_page` can hand out. -/
def freePages (m : Mem) : Finset Nat := (range pagingPages).filter fun j => m.memMap j = 0

theorem freePages_empty (h : getFreePage m = none) : freePages m = ∅ := by
  have hscan : scanFree m.memMap pagingPages = none := Option.map_eq_none_iff.mp h
  ext j
  simp only [freePages, mem_filter, mem_range, notMem_empty, iff_false, not_and]
  exact fun hj => scanFree_none hscan j hj

/-- An entry that is present before and after: only the page it names now may be no longer free. -/
theorem freePages_setPte (S : Sound lo hi m held) (S' : Sound lo hi m' held) (hdir : m'.dirv = m.dirv)
    (hpte : m'.pte = setPte m.pte d i e) :
    freePages m ⊆ insert (mapNr (frame e)) (freePages m') := by
  intro j hj
  obtain ⟨hlt, hzero⟩ := mem_filter.mp hj
  rw [mem_range] at hlt
  by_cases hje : j = mapNr (frame e)
  · exact mem_insert.mpr (Or.inl hje)
  have hlow : ¬ j + lowMem < lowMem := by omega
  have hmap : mapNr (j + lowMem) = j := Nat.add_sub_cancel ..
  have hcnt : m.cnt (j + lowMem) = 0 := by rw [Mem.cnt, if_neg hlow, hmap, hzero]
  have hr : lo ≤ j + lowMem ∧ j + lowMem < hi := by
    by_contra hno
    have := S.acct.busy (by omega) (by omega) hno
    rw [hcnt] at this
    cases this
  obtain ⟨hd, hp, hh⟩ := S.acct.unreferenced hr.1 hr.2 hcnt
  have hp' : pteRefs m'.pte (j + lowMem) = 0 := by
    rw [hpte, pteRefs_zero]
    intro d' i' hd' hi' hpt
    by_cases hc : d' = d ∧ i' = i
    · rw [hc.1, hc.2, setPte_self] at hpt
      exact hje (by rw [hpt.2, hmap])
    · rw [setPte_other hc] at hpt
      exact pteRefs_zero.mp hp d' i' hd' hi' hpt
  have hcnt' : m'.cnt (j + lowMem) = 0 := by
    rw [S'.acct.count hr.1 hr.2, hdir, hd, hp', hh]
    rfl
  rw [Mem.cnt, if_neg hlow, hmap] at hcnt'
  exact mem_insert.mpr (Or.inr (mem_filter.mpr ⟨mem_range.mpr hlt, hcnt'⟩))

/-! ## One page -/

/-- The entry is there and write-protected. -/
def ReadOnly (m : Mem) (d i : Nat) : Prop := present (m.pte d i) = true ∧ writable (m.pte d i) = false

instance : Decidable (ReadOnly m d i) := inferInstanceAs (Decidable (_ ∧ _))

/-- `write_verify` of a write-protected page: the entry is opened, for one free page at most. -/
theorem writeVerify_protected (S : Sound lo hi m held) {a : Nat}
    (hro : ReadOnly m (dirIndex a) (tableIndex a)) (hfree : (freePages m).Nonempty) :
    ∃ m' e, writeVerify a m = .ok () m' ∧ Sound lo hi m' held ∧
      m'.pte = setPte m.pte (dirIndex a) (tableIndex a) e ∧ present e = true ∧ writable e = true ∧
      (freePages m).card ≤ (freePages m').card + 1 := by
  obtain ⟨hp, hw⟩ := hro
  obtain ⟨hd, hlt⟩ := pte_dir hp
  have hmem := dirv_mem hd
  have hun : writeVerify a m = unWpPage (frame (m.dirv (dirIndex a))) (tableIndex a) m := by
    unfold writeVerify
    rw [present_ram hmem, ← dirv_eq hmem, if_pos hd]
    dsimp only
    rw [← pte_eq hd hlt, if_pos ((mask_readOnly _).mpr ⟨hp, hw⟩)]
  have hcard {m' : Mem} {e : Word} (S' : Sound lo hi m' held) (hdir : m'.dirv = m.dirv)
      (hpte : m'.pte = setPte m.pte (dirIndex a) (tableIndex a) e) :
      (freePages m).card ≤ (freePages m').card + 1 :=
    (card_le_card (freePages_setPte S S' hdir hpte)).trans (card_insert_le _ _)
  rw [hun]
  rcases unWpPage_spec S hp with ⟨m', hm, S', hdir, _, _, hpte, _⟩ |
    ⟨m', page, hm, S', hdir, _, _, _, _, hpte, _, _⟩ | hm
  · exact ⟨m', _, hm, S', hpte, (present_or_two _).trans hp, writable_or_two _, hcard S' hdir hpte⟩
  · exact ⟨m', _, hm, S', hpte, present_userEntry _, writable_userEntry _, hcard S' hdir hpte⟩
  · exfalso
    have hnone : getFreePage m = none := by
      unfold unWpPage at hm
      dsimp only at hm
      split at hm
      · cases hm
      · split at hm
        · assumption
        · cases hm
    rw [freePages_empty hnone] at hfree
    exact not_nonempty_empty hfree

/-- `write_verify` of any other address does nothing. -/
theorem writeVerify_other (S : Sound lo hi m held) {a : Nat}
    (hro : ¬ ReadOnly m (dirIndex a) (tableIndex a)) : writeVerify a m = .ok () m := by
  have hlt : tableIndex a < 1024 := Nat.mod_lt _ (by omega)
  have hdlt : dirIndex a < 1024 := Nat.mod_lt _ (by omega)
  unfold writeVerify
  by_cases hd : dirIndex a ∈ dirs
  · rw [present_ram hd, ← dirv_eq hd]
    split
    · next hpd =>
      dsimp only
      rw [← pte_eq hpd hlt, if_neg]
      intro hmask
      exact hro ((mask_readOnly _).mp hmask)
    · rfl
  · -- below the task slots the entries are the kernel's
    have h16 : dirIndex a < 16 := by
      rw [mem_dirs] at hd
      omega
    rw [S.root _ h16]
    split
    · next hpd =>
      have h4 : dirIndex a < 4 := by
        by_contra hno
        rw [kernelDir, if_neg hno] at hpd
        cases hpd
      dsimp only
      rw [kernelDir, if_pos h4, frame_userEntry (by omega), S.kernel _ (by omega) (by omega),
        if_neg (kernelTable_writable _ _)]
    · rfl

/-! ## The loop -/

/-- The turns of the loop that find a write-protected page. -/
def protectedTurns (m : Mem) (start n : Nat) : Finset Nat :=
  (range n).filter fun k => ReadOnly m (dirIndex (start + 4096 * k)) (tableIndex (start + 4096 * k))

/-- Two turns less than 4GB apart have different entries. -/
theorem turn_apart (start : Nat) {k : Nat} (hk : 0 < k) (hlt : k < 2 ^ 20) :
    ¬ (dirIndex (start + 4096 * k) = dirIndex start ∧ tableIndex (start + 4096 * k)
      = tableIndex start) := by
  unfold dirIndex tableIndex
  simp only [Nat.shiftRight_eq_div_pow]
  omega

theorem protectedTurns_succ {start : Nat} : protectedTurns m start (n + 1) =
    if ReadOnly m (dirIndex start) (tableIndex start) then
      insert 0 ((protectedTurns m (start + 4096) n).image (· + 1))
    else (protectedTurns m (start + 4096) n).image (· + 1) := by
  have hturn (k : Nat) : start + 4096 * (k + 1) = start + 4096 + 4096 * k := by omega
  have hrest : ((range n).image (· + 1)).filter (fun k =>
      ReadOnly m (dirIndex (start + 4096 * k)) (tableIndex (start + 4096 * k))) =
      (protectedTurns m (start + 4096) n).image (· + 1) := by
    unfold protectedTurns
    rw [filter_image]
    simp only [hturn]
  have hrange : range (n + 1) = insert 0 ((range n).image (· + 1)) := by
    ext k
    simp only [mem_range, mem_insert, mem_image]
    constructor
    · intro hk
      cases k with
      | zero => exact Or.inl rfl
      | succ k => exact Or.inr ⟨k, by omega, rfl⟩
    · rintro (rfl | ⟨k, hk, rfl⟩) <;> omega
  rw [protectedTurns, hrange, filter_insert, hrest]
  simp only [Nat.mul_zero, Nat.add_zero]

theorem card_protectedTurns_succ {start : Nat} : (protectedTurns m start (n + 1)).card =
    (protectedTurns m (start + 4096) n).card +
      if ReadOnly m (dirIndex start) (tableIndex start) then 1 else 0 := by
  have himage : ((protectedTurns m (start + 4096) n).image (· + 1)).card =
      (protectedTurns m (start + 4096) n).card := card_image_of_injective _ (add_left_injective 1)
  rw [protectedTurns_succ]
  split
  · have h0 : 0 ∉ (protectedTurns m (start + 4096) n).image (· + 1) := by simp
    rw [card_insert_of_notMem h0, himage]
  · rw [himage]
    rfl

/-- What a turn does elsewhere does not change how many later turns have something to do. -/
theorem protectedTurns_setPte {start : Nat} (hn : n < 2 ^ 20)
    (hpte : m'.pte = setPte m.pte (dirIndex start) (tableIndex start) e) :
    protectedTurns m' (start + 4096) n = protectedTurns m (start + 4096) n := by
  ext k
  simp only [protectedTurns, mem_filter, mem_range]
  refine and_congr_right fun hk => ?_
  have hturn : start + 4096 + 4096 * k = start + 4096 * (k + 1) := by omega
  have hapart := turn_apart start (Nat.succ_pos k) (by omega : k + 1 < 2 ^ 20)
  rw [hturn, ReadOnly, ReadOnly, hpte, setPte_other hapart]

theorem index_mod (a k : Nat) : dirIndex (a % 2 ^ 32 + 4096 * k) = dirIndex (a + 4096 * k) ∧
    tableIndex (a % 2 ^ 32 + 4096 * k) = tableIndex (a + 4096 * k) := by
  unfold dirIndex tableIndex
  simp only [Nat.shiftRight_eq_div_pow]
  omega

theorem protectedTurns_mod {a : Nat} : protectedTurns m (a % 2 ^ 32) n = protectedTurns m a n := by
  unfold protectedTurns
  simp only [index_mod]

/-- With enough free pages the loop ends, and what was there in the pages of its turns is writable. -/
theorem verifyWhile_spec (S : Sound lo hi m held) {size : Int} (start : Nat)
    (hturns : ((size + 4095) / 4096).toNat = n) (hn : n ≤ 2 ^ 20)
    (hfree : (protectedTurns m start n).card ≤ (freePages m).card) :
    ∃ m', verifyWhile size start m = .ok () m' ∧ Sound lo hi m' held ∧ Opened m.pte m'.pte ∧
      ∀ k < n, present (m.pte (dirIndex (start + 4096 * k)) (tableIndex (start + 4096 * k))) = true →
        writable (m'.pte (dirIndex (start + 4096 * k)) (tableIndex (start + 4096 * k))) = true := by
  induction n generalizing size start m with
  | zero =>
    refine ⟨m, ?_, S, .refl _, fun k hk => absurd hk (Nat.not_lt_zero k)⟩
    rw [verifyWhile, if_neg (by omega)]
  | succ n ih =>
    have hpos : 0 < size := by omega
    have hrest : ((size - 4096 + 4095) / 4096).toNat = n := by omega
    rw [card_protectedTurns_succ] at hfree
    -- the first turn
    obtain ⟨m₁, h₁, S₁, O₁, hfree₁, hfirst⟩ : ∃ m₁, writeVerify start m = .ok () m₁ ∧
        Sound lo hi m₁ held ∧ Opened m.pte m₁.pte ∧
        (protectedTurns m₁ (start + 4096) n).card ≤ (freePages m₁).card ∧
        (present (m.pte (dirIndex start) (tableIndex start)) = true →
          writable (m₁.pte (dirIndex start) (tableIndex start)) = true) := by
      by_cases hro : ReadOnly m (dirIndex start) (tableIndex start)
      · rw [if_pos hro] at hfree
        obtain ⟨m₁, e, h₁, S₁, hpte, hpe, hwe, hcard⟩ :=
          writeVerify_protected S hro (card_pos.mp (by omega))
        refine ⟨m₁, h₁, S₁, ?_, ?_, fun _ => ?_⟩
        · rw [hpte]
          exact .set hro.1 hpe hwe
        · rw [protectedTurns_setPte (by omega) hpte]
          omega
        · rw [hpte, setPte_self]
          exact hwe
      · rw [if_neg hro] at hfree
        refine ⟨m, writeVerify_other S hro, S, .refl _, hfree, fun hp => ?_⟩
        by_contra hw
        exact hro ⟨hp, Bool.not_eq_true _ ▸ hw⟩
    obtain ⟨m₂, h₂, S₂, O₂, hlater⟩ := ih S₁ ((start + 4096) % 2 ^ 32) hrest (by omega)
      (by rw [protectedTurns_mod]; exact hfree₁)
    refine ⟨m₂, ?_, S₂, O₁.trans O₂, fun k hk hp => ?_⟩
    · rw [verifyWhile, if_pos hpos, h₁]
      exact h₂
    · cases k with
      | zero => exact O₂.opens _ _ (hfirst hp)
      | succ k =>
        have hlater := hlater k (by omega)
        rw [(index_mod _ k).1, (index_mod _ k).2, show start + 4096 + 4096 * k = start + 4096 *
          (k + 1) by omega,
          O₁.there] at hlater
        exact hlater hp

theorem writeVerify_mod {a b : Nat} (h : a % 2 ^ 32 = b % 2 ^ 32)
    : writeVerify a m = writeVerify b m := by
  have hdir : dirIndex a = dirIndex b := by
    unfold dirIndex
    simp only [Nat.shiftRight_eq_div_pow]
    omega
  have htable : tableIndex a = tableIndex b := by
    unfold tableIndex
    simp only [Nat.shiftRight_eq_div_pow]
    omega
  rw [writeVerify, writeVerify, hdir, htable]

/-- The loop of `verifyArea` takes the same turns. -/
theorem verifyLoop_eq {s : Sys} {t : Task} (ht : s.task nr = some t) (hz : t.phase ≠ .zombie) {size : Int}
    {start a : Nat} (hturns : ((size + 4095) / 4096).toNat = n) (ha : start % 2 ^ 32 = a % 2 ^ 32)
    (h : verifyWhile size a s.mem = .ok () m') : verifyLoop nr n start s = some { s with mem := m' } := by
  induction n generalizing size start a s with
  | zero =>
    rw [verifyWhile, if_neg (by omega)] at h
    cases h
    rfl
  | succ n ih =>
    rw [verifyWhile, if_pos (by omega), ← writeVerify_mod ha] at h
    unfold verifyLoop
    rw [live_of ht hz]
    cases hm : writeVerify start s.mem with
    | ok _ u =>
      rw [hm] at h
      exact ih (s := { s with mem := u }) ht (by omega) (by omega) h
    | panic msg u =>
      rw [hm] at h
      cases h
    | oom u =>
      rw [hm] at h
      cases h

/-- `verify_area` of the task machine, with the memory alone. -/
theorem verifyArea_eq {s : Sys} {t : Task} {size : Nat} (ht : s.task nr = some t) (hz : t.phase ≠ .zombie)
    (h : verifyPages (slotBase nr) address size s.mem = .ok () m') :
    verifyArea nr address size s = some { s with mem := m' } :=
  verifyLoop_eq ht hz rfl (by rw [Nat.mod_mod, Nat.add_comm]) h

/-! ## The area -/

/-- Every page of the area that is there is writable, and above `LOW_MEM` it is counted once. -/
def Covered (m : Mem) (nr address size : Nat) : Prop :=
  ∀ off, address ≤ off → off < address + size → off < 0x4000000 →
    presentAt m (slotBase nr + off) = true →
      writable (entryAt m (slotBase nr + off)) = true ∧
        (lowMem ≤ frame (entryAt m (slotBase nr + off)) →
          m.memMap (mapNr (frame (entryAt m (slotBase nr + off)))) = 1)

/-- Every page of the area that is there is writable. -/
def Writable (m : Mem) (nr address size : Nat) : Prop :=
  ∀ off, address ≤ off → off < address + size → off < 0x4000000 →
    presentAt m (slotBase nr + off) = true → writable (entryAt m (slotBase nr + off)) = true

theorem covered_iff (S : Sound lo hi m held) {size : Nat} (h1 : 1 ≤ nr) (h64 : nr < 64) :
    Covered m nr address size ↔ Writable m nr address size := by
  constructor
  · exact fun h off hle hlt hoff hp => (h off hle hlt hoff hp).1
  · intro h off hle hlt hoff hp
    have hd := (slot_dirs h1 h64 hoff).1
    have hw := h off hle hlt hoff hp
    refine ⟨hw, fun _ => ?_⟩
    rw [entryAt_eq hd hp] at hw ⊢
    rw [presentAt_eq hd] at hp
    exact S.writable_count hp hw

/-- How many write-protected pages the loop runs over. -/
def pagesWanted (m : Mem) (base address size : Nat) : Nat :=
  (protectedTurns m (address / 4096 * 4096 + base) (verifyTurns address size)).card

/-- From 2^31 on the sum of the size and the offset is negative, and nothing is done. -/
theorem verifyPages_overflow {base size : Nat} (hsize : size < 2 ^ 31)
    (hov : 2 ^ 31 ≤ size + address % 4096) : verifyPages base address size m = .ok () m := by
  have hneg : int32 (size + address % 4096) < 0 := by
    unfold int32
    rw [Nat.mod_eq_of_lt (by omega), if_neg (by omega)]
    omega
  rw [verifyPages, verifyWhile, if_neg (by omega)]

/-- After `verify_area` the area is covered exactly if the sum with the offset is an `int`, or there was
nothing to do. -/
theorem verify_area_covers_iff (lo hi : Nat) (m : Mem) (held : Nat → Bool) (S : Sound lo hi m held)
    (nr address size : Nat) (h1 : 1 ≤ nr) (h64 : nr < 64)
    (hsize : size < 2 ^ 31) (hfree : pagesWanted m (slotBase nr) address size ≤ (freePages m).card) :
    ∃ m', verifyPages (slotBase nr) address size m = .ok () m' ∧
      (Covered m' nr address size ↔ size + address % 4096 < 2 ^ 31 ∨ Writable m nr address size) := by
  have hmod : address % 4096 < 4096 := Nat.mod_lt _ (by omega)
  by_cases hov : size + address % 4096 < 2 ^ 31
  · have hint : int32 (size + address % 4096) = (size + address % 4096 : Nat) := by
      unfold int32
      rw [Nat.mod_eq_of_lt (by omega), if_pos hov]
    obtain ⟨m', hm, S', O, hopen⟩ := verifyWhile_spec (n := verifyTurns address size) S
      ((address / 4096 * 4096 + slotBase nr) % 2 ^ 32) rfl
      (by unfold verifyTurns; rw [hint]; omega) (by rw [protectedTurns_mod]; exact hfree)
    refine ⟨m', hm, iff_of_true ?_ (Or.inl hov)⟩
    rw [covered_iff S' h1 h64]
    intro off hle hlt hoff hp
    have hd := (slot_dirs h1 h64 hoff).1
    rw [entryAt_eq hd hp]
    rw [presentAt_eq hd, O.there] at hp
    have hk : off / 4096 - address / 4096 < verifyTurns address size := by
      unfold verifyTurns
      rw [hint]
      omega
    have hcell := hopen _ hk
    rw [(index_mod _ _).1, (index_mod _ _).2] at hcell
    have hsame : dirIndex (address / 4096 * 4096 + slotBase nr + 4096 * (off / 4096 - address / 4096)) =
          dirIndex (slotBase nr + off) ∧
        tableIndex (address / 4096 * 4096 + slotBase nr + 4096 * (off / 4096 - address / 4096)) =
          tableIndex (slotBase nr + off) := by
      unfold dirIndex tableIndex slotBase
      simp only [Nat.shiftRight_eq_div_pow]
      omega
    rw [hsame.1, hsame.2] at hcell
    exact hcell hp
  · refine ⟨m, verifyPages_overflow (by omega) (by omega), ?_⟩
    rw [covered_iff S h1 h64]
    simp only [hov, false_or]

theorem firstChild_sound : Sound 4086 4096 firstChild.mem firstChild.held := by
  have I : Inv (fun _ => emptyProgram) 4086 4096 tenPages :=
    boot_inv _ (by decide) (by decide) (by decide)
  exact (step_inv I (fun _ _ h => by cases h) (step_firstChild _)).sound

/-- In the first child the pages below `LOW_MEM` are write-protected; `verify_area` of the first byte
gives it a page of its own. -/
theorem verify_area_covers_iff_firstChild : ∃ m', verifyPages (slotBase 1) 0 1 firstChild.mem = .ok ()
    m' ∧
    Covered m' 1 0 1 := by
  have S := firstChild_sound
  have hfree : pagesWanted firstChild.mem (slotBase 1) 0 1 ≤ (freePages firstChild.mem).card := by
    have hone : pagesWanted firstChild.mem (slotBase 1) 0 1 ≤ 1 := card_filter_le _ _
    have hmem : 3837 ∈ freePages firstChild.mem :=
      mem_filter.mpr ⟨mem_range.mpr (by decide), by decide +kernel⟩
    exact hone.trans (card_pos.mpr ⟨_, hmem⟩)
  obtain ⟨m', hm, hiff⟩ := verify_area_covers_iff 4086 4096 firstChild.mem firstChild.held S 1 0 1
    (by decide) (by decide) (by decide) hfree
  exact ⟨m', hm, hiff.mpr (Or.inl (by decide))⟩

/-- The last of these pages, and a size that the offset takes past 2^31: the page stays as it is. -/
theorem verify_area_uncovered : Sound 4086 4096 firstChild.mem firstChild.held ∧
    3837 ∈ freePages firstChild.mem ∧
    verifyPages (slotBase 1) 0x9f001 0x7fffffff firstChild.mem = .ok () firstChild.mem ∧
    ¬ Covered firstChild.mem 1 0x9f001 0x7fffffff := by
  have S := firstChild_sound
  refine ⟨S, mem_filter.mpr ⟨mem_range.mpr (by decide), by decide +kernel⟩,
    verifyPages_overflow (by decide) (by decide), ?_⟩
  intro h
  have hw := (h 0x9f001 (Nat.le_refl _) (by decide) (by decide) (by decide +kernel)).1
  revert hw
  decide +kernel

end Linux011.Mm
