import Linux011.Boot.Setup
import Linux011.Mm.Entry

/-!
# Paging is set up (`setup_paging` of `boot/head.s`)

The page directory and four page tables lie in the first five pages of memory, where the startup code
was. The tables are filled from the last entry down to the first, and the loop ends when the entry to
store becomes negative. Afterwards the first 16MB of the linear addresses are the physical ones, any
other linear address is not mapped, and the memory behind the tables is as it was.
-/

namespace Linux011.Boot

open Mm (Word frame present writable frame_eq)

variable {m : Mem} {a b j : Nat} {w : Word}

/-! ## Double words -/

def store32 (m : Mem) (a : Nat) (w : Word) : Mem :=
  Lib.overlay m a 4 fun i => BitVec.ofNat 8 (w.toNat / 256 ^ i)

def load32 (m : Mem) (a : Nat) : Word :=
  BitVec.ofNat 32 ((m a).toNat + 256 * (m (a + 1)).toNat + 256 ^ 2 * (m (a + 2)).toNat +
    256 ^ 3 * (m (a + 3)).toNat)

/-- A double word of a table of double words. -/
theorem load32_overlay {n : Nat} {f : Nat → Word} (h : j < n) :
    load32 (Lib.overlay m a (4 * n) fun i => BitVec.ofNat 8 ((f (i / 4)).toNat / 256 ^ (i % 4)))
      (a + 4 * j) = f j := by
  have hbyte : ∀ k < 4, Lib.overlay m a (4 * n)
      (fun i => BitVec.ofNat 8 ((f (i / 4)).toNat / 256 ^ (i % 4))) (a + 4 * j + k) =
        BitVec.ofNat 8 ((f j).toNat / 256 ^ k) := by
    intro k hk
    have hdiv : (4 * j + k) / 4 = j := by omega
    have hmod : (4 * j + k) % 4 = k := by omega
    rw [Nat.add_assoc, Lib.overlay_in (by omega), hdiv, hmod]
  have hword := (f j).isLt
  unfold load32
  rw [hbyte 1 (by decide), hbyte 2 (by decide), hbyte 3 (by decide),
    show a + 4 * j = a + 4 * j + 0 from rfl, hbyte 0 (by decide)]
  refine BitVec.eq_of_toNat_eq ?_
  rw [BitVec.toNat_ofNat, BitVec.toNat_ofNat, BitVec.toNat_ofNat, BitVec.toNat_ofNat,
    BitVec.toNat_ofNat]
  omega

theorem load32_congr {m' : Mem} (h : ∀ k < 4, m' (a + k) = m (a + k)) : load32 m' a = load32 m a := by
  unfold load32
  rw [h 1 (by decide), h 2 (by decide), h 3 (by decide), show m' a = m a from h 0 (by decide)]

theorem load32_store32_ne (h : b + 4 ≤ a ∨ a + 4 ≤ b) : load32 (store32 m a w) b = load32 m b :=
  load32_congr fun _ _ => Lib.overlay_out (by omega)

theorem load32_store32 : load32 (store32 m a w) a = w := by
  have htable := load32_overlay (m := m) (a := a) (f := fun _ => w) Nat.one_pos
  refine Eq.trans (load32_congr fun k hk => ?_) htable
  have hmod : k % 4 = k := Nat.mod_eq_of_lt hk
  unfold store32
  rw [Lib.overlay_in hk, Lib.overlay_in hk, hmod]

/-! ## `setup_paging` -/

/-- `pg0` to `pg3`; `pg_dir` is at address 0. -/
abbrev pg (n : Nat) : Nat := 0x1000 * (n + 1)

/-- `rep stosl`, upwards. -/
def repStosl (eax : Word) : Nat → Nat → Mem → Mem
  | _, 0, m => m
  | edi, ecx + 1, m => repStosl eax (edi + 4) ecx (store32 m edi eax)

/-- `stosl` downwards, `subl`, `jge`, at most `fuel` times around. -/
def fillTables : Nat → Nat → Word → Mem → Option Mem
  | 0, _, _, _ => none
  | fuel + 1, edi, eax, m =>
    let m := store32 m edi eax
    if BitVec.sle 0x1000 eax then fillTables fuel (edi - 4) (eax - 0x1000) m else some m

/-- `setup_paging`, up to the page tables. -/
def setupPaging (m : Mem) : Option Mem :=
  let m := repStosl 0 0 (1024 * 5) m
  let m := store32 m 0 (BitVec.ofNat 32 (pg 0 + 7))
  let m := store32 m 4 (BitVec.ofNat 32 (pg 1 + 7))
  let m := store32 m 8 (BitVec.ofNat 32 (pg 2 + 7))
  let m := store32 m 12 (BitVec.ofNat 32 (pg 3 + 7))
  fillTables 4096 (pg 3 + 4092) 0xfff007 m

theorem repStosl_eq {n : Nat} : repStosl w a n m =
    Lib.overlay m a (4 * n) fun i => BitVec.ofNat 8 (w.toNat / 256 ^ (i % 4)) := by
  induction n generalizing a m with
  | zero => exact Lib.overlay_zero.symm
  | succ n ih =>
    have hcount : 4 * (n + 1) = 4 + 4 * n := by omega
    have hone : store32 m a w = Lib.overlay m a 4 fun i => BitVec.ofNat 8 (w.toNat / 256 ^ (i % 4)) :=
      Lib.overlay_congr fun i hi => by rw [Nat.mod_eq_of_lt hi]
    rw [repStosl, ih, hone, hcount, ← Lib.overlay_append]
    refine Lib.overlay_congr fun i _ => ?_
    rw [Nat.add_mod_left]

/-- The entry for page `j`. -/
def entry (j : Nat) : Word := BitVec.ofNat 32 (0x1000 * j + 7)

theorem entry_toNat (hj : j < 4096) : (entry j).toNat = 0x1000 * j + 7 := by
  unfold entry
  rw [BitVec.toNat_ofNat, Nat.mod_eq_of_lt (by omega)]

/-- `jge` after `subl`: the loop goes on unless this was the entry for page 0. -/
theorem entry_sle (hj : j < 4096) : BitVec.sle 0x1000 (entry j) = decide (0 < j) := by
  have hword := entry_toNat hj
  have hint : (entry j).toInt = 0x1000 * j + 7 := by
    rw [BitVec.toInt_eq_toNat_of_lt (by omega), hword]
    rfl
  unfold BitVec.sle
  rw [hint, decide_eq_decide]
  show (0x1000 : Int) ≤ _ ↔ _
  omega

theorem entry_pred (hj : j + 1 < 4096) : entry (j + 1) - 0x1000 = entry j := by
  refine BitVec.eq_of_toNat_eq ?_
  rw [BitVec.toNat_sub, entry_toNat hj, entry_toNat (by omega)]
  show (2 ^ 32 - 0x1000 + _) % 2 ^ 32 = _
  omega

/-- Byte `i` of the tables. -/
def tableByte (i : Nat) : Byte := BitVec.ofNat 8 ((entry (i / 4)).toNat / 256 ^ (i % 4))

/-- The entry goes in front of those that are there. -/
theorem store32_entry (m : Mem) (j : Nat) :
    Lib.overlay (store32 m (0x1000 + 4 * j) (entry j)) 0x1000 (4 * j) tableByte =
      Lib.overlay m 0x1000 (4 * (j + 1)) tableByte := by
  have hstore : store32 m (0x1000 + 4 * j) (entry j) =
      Lib.overlay m (0x1000 + 4 * j) 4 fun i => tableByte (4 * j + i) := by
    refine Lib.overlay_congr fun i hi => ?_
    have hdiv : (4 * j + i) / 4 = j := by omega
    have hmod : (4 * j + i) % 4 = i := by omega
    unfold tableByte
    rw [hdiv, hmod]
  rw [hstore, Lib.overlay_prepend, Nat.mul_succ]

/-- The tables, from entry `j` down. -/
theorem fillTables_eq (hj : j < 4096) : fillTables (j + 1) (0x1000 + 4 * j) (entry j) m =
    some (Lib.overlay m 0x1000 (4 * (j + 1)) tableByte) := by
  induction j generalizing m with
  | zero =>
    rw [fillTables, entry_sle hj, if_neg (by decide), ← store32_entry, Lib.overlay_zero]
  | succ j ih =>
    have hedi : 0x1000 + 4 * (j + 1) - 4 = 0x1000 + 4 * j := by omega
    rw [fillTables, entry_sle hj, if_pos (decide_eq_true (Nat.succ_pos j)), hedi, entry_pred hj,
      ih (by omega), store32_entry]

/-- What `setup_paging` leaves: the directory, the tables, and the rest of memory. -/
structure Paged (m m' : Mem) : Prop where
  directory : ∀ d < 1024, load32 m' (4 * d) = if d < 4 then entry (d + 1) else 0
  tables : ∀ j < 4096, load32 m' (0x1000 + 4 * j) = entry j
  rest : ∀ a, 0x5000 ≤ a → m' a = m a

theorem setupPaging_eq (m : Mem) : ∃ m', setupPaging m = some m' ∧ Paged m m' := by
  -- the page with the directory
  generalize hdir : store32 (store32 (store32 (store32 (repStosl 0 0 (1024 * 5) m)
    0 (entry 1)) 4 (entry 2)) 8 (entry 3)) 12 (entry 4) = m₁
  have hall : setupPaging m = some (Lib.overlay m₁ 0x1000 0x4000 tableByte) := by
    have hlast : setupPaging m = fillTables (4095 + 1) (0x1000 + 4 * 4095) (entry 4095) m₁ := by
      rw [← hdir]
      rfl
    rw [hlast, fillTables_eq (by decide)]
  have hzero : ∀ d < 1024, load32 (repStosl 0 0 (1024 * 5) m) (4 * d) = 0 := fun d hd => by
    rw [repStosl_eq, ← Nat.zero_add (4 * d)]
    exact load32_overlay (f := fun _ => 0) (by omega)
  refine ⟨_, hall, fun d hd => ?_, fun j hj => ?_, fun a ha => ?_⟩
  · have hlow : load32 (Lib.overlay m₁ 0x1000 0x4000 tableByte) (4 * d) = load32 m₁ (4 * d) :=
      load32_congr fun k hk => Lib.overlay_out (Or.inl (by omega))
    rw [hlow, ← hdir]
    by_cases hd4 : d < 4
    · rw [if_pos hd4]
      obtain rfl | rfl | rfl | rfl : d = 0 ∨ d = 1 ∨ d = 2 ∨ d = 3 := by omega
      · rw [load32_store32_ne (Or.inl (by decide)), load32_store32_ne (Or.inl (by decide)),
          load32_store32_ne (Or.inl (by decide)), load32_store32]
      · rw [load32_store32_ne (Or.inl (by decide)), load32_store32_ne (Or.inl (by decide)),
          load32_store32]
      · rw [load32_store32_ne (Or.inl (by decide)), load32_store32]
      · rw [load32_store32]
    · rw [if_neg hd4, load32_store32_ne (Or.inr (by omega)), load32_store32_ne (Or.inr (by omega)),
        load32_store32_ne (Or.inr (by omega)), load32_store32_ne (Or.inr (by omega)), hzero d hd]
  · exact load32_overlay (n := 4096) (f := entry) hj
  · have hstore : ∀ (m : Mem) (b : Nat) (w : Word), b < 16 → store32 m b w a = m a :=
      fun _ _ _ hb => Lib.overlay_out (Or.inr (by omega))
    rw [Lib.overlay_out (Or.inr (by omega)), ← hdir, hstore _ _ _ (by decide), hstore _ _ _ (by decide),
      hstore _ _ _ (by decide), hstore _ _ _ (by decide), repStosl_eq, Lib.overlay_out (Or.inr (by omega))]

/-! ## Translation -/

/-- The entry of the page directory. -/
def pde (m : Mem) (cr3 lin : Nat) : Word := load32 m (cr3 + 4 * (lin / 2 ^ 22))

/-- The entry of the table that the directory entry `e` points to. -/
def pte (m : Mem) (e : Word) (lin : Nat) : Word := load32 m (4096 * frame e + 4 * (lin / 2 ^ 12 % 1024))

/-- What the processor makes of a linear address: the physical one, and whether a user may write there. -/
def translate (m : Mem) (cr3 lin : Nat) : Option (Nat × Bool) :=
  let e := pde m cr3 lin
  let f := pte m e lin
  if present e && present f then
    some (4096 * frame f + lin % 4096, (writable e && e.getLsbD 2) && (writable f && f.getLsbD 2))
  else none

theorem entry_bit {k : Nat} (hj : j < 4096) (hk : k < 3) : (entry j).getLsbD k = true := by
  show (entry j).toNat.testBit k = true
  rw [entry_toNat hj, Nat.testBit_eq_decide_div_mod_eq, decide_eq_true_iff]
  obtain rfl | rfl | rfl : k = 0 ∨ k = 1 ∨ k = 2 := by omega
  all_goals omega

theorem entry_flags (hj : j < 4096) :
    present (entry j) = true ∧ (writable (entry j) && (entry j).getLsbD 2) = true :=
  ⟨entry_bit hj (by decide), Bool.and_eq_true _ _ |>.mpr
    ⟨entry_bit hj (by decide), entry_bit hj (by decide)⟩⟩

theorem frame_entry (hj : j < 4096) : frame (entry j) = j := by
  rw [frame_eq, entry_toNat hj]
  omega

theorem Paged.pde {m' : Mem} {lin : Nat} (P : Paged m m') (hlin : lin < 2 ^ 32) :
    pde m' 0 lin = if lin < 2 ^ 24 then entry (lin / 2 ^ 22 + 1) else 0 := by
  have hd : lin / 2 ^ 22 < 4 ↔ lin < 2 ^ 24 := by omega
  unfold Boot.pde
  rw [Nat.zero_add, P.directory _ (by omega)]
  by_cases hlow : lin < 2 ^ 24
  · rw [if_pos (hd.mpr hlow), if_pos hlow]
  · rw [if_neg fun h => hlow (hd.mp h), if_neg hlow]

theorem Paged.pte {m' : Mem} {lin : Nat} (P : Paged m m') (hlin : lin < 2 ^ 24) :
    pte m' (entry (lin / 2 ^ 22 + 1)) lin = entry (lin / 2 ^ 12) := by
  have haddr : 4096 * (lin / 2 ^ 22 + 1) + 4 * (lin / 2 ^ 12 % 1024) = 0x1000 + 4 * (lin / 2 ^ 12) := by
    omega
  unfold Boot.pte
  rw [frame_entry (by omega), haddr, P.tables _ (by omega)]

/-- THE IDENTITY. After `setup_paging` every linear address below 16MB is the physical one, and no other
is mapped; the memory behind the tables is unchanged. -/
theorem setup_paging_identity (m : Mem) : ∃ m', setupPaging m = some m' ∧
    (∀ lin < 2 ^ 32, translate m' 0 lin = if lin < 2 ^ 24 then some (lin, true) else none) ∧
    ∀ a, 0x5000 ≤ a → m' a = m a := by
  obtain ⟨m', hm', P⟩ := setupPaging_eq m
  refine ⟨m', hm', fun lin hlin => ?_, P.rest⟩
  unfold translate
  by_cases hlow : lin < 2 ^ 24
  · obtain ⟨hp, hw⟩ := entry_flags (j := lin / 2 ^ 22 + 1) (by omega)
    obtain ⟨hp', hw'⟩ := entry_flags (j := lin / 2 ^ 12) (by omega)
    have haddr : 4096 * (lin / 2 ^ 12) + lin % 4096 = lin := by omega
    rw [P.pde hlin, if_pos hlow, if_pos hlow]
    dsimp only
    rw [P.pte hlow, hp, hp', hw, hw', frame_entry (by omega), haddr]
    rfl
  · rw [P.pde hlin, if_neg hlow, if_neg hlow]
    rfl

end Linux011.Boot
