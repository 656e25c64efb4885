import Linux011.Mm.Process

/-!
# Tables of low pages

A child of task 0 starts with pages below `LOW_MEM` only, and gives them up in its first `exec`.
Pages below `LOW_MEM` are not counted, so the loops of `copy_page_tables` and `free_page_tables` over
such a table have a closed form: one page table is overwritten, and nothing else changes.
-/

namespace Linux011.Mm

variable {lo hi : Nat} {m m' : Mem} {held : Nat → Bool}

theorem forLoop_append {body : Nat → Mem → Res Bool} {is js : List Nat} :
    forLoop body (is ++ js) m
      = (forLoop body is m).bind fun go m => if go then forLoop body js m else .ok false m := by
  induction is generalizing m with
  | nil => rfl
  | cons i is ih =>
    rw [List.cons_append, forLoop, forLoop]
    cases body i m with
    | ok go n =>
      cases go with
      | true => exact ih
      | false => rfl
    | panic msg n => rfl
    | oom n => rfl

/-- One more word of a page that is being overwritten. -/
theorem fill_poke {t n : Nat} {old g : Nat → Word} :
    (m.fill t fun i => if i < n then g i else old i).poke t n (g n)
      = m.fill t fun i => if i < n + 1 then g i else old i := by
  simp only [Mem.poke, Mem.fill, Function.update_self, Function.update_idem]
  congr 2
  funext i
  by_cases h : i = n
  · rw [h, Function.update_self, if_pos (Nat.lt_succ_self n)]
  · rw [Function.update_of_ne h]
    by_cases hlt : i < n
    · rw [if_pos hlt, if_pos (by omega)]
    · rw [if_neg hlt, if_neg (by omega)]

theorem fill_same {t : Nat} : (m.fill t fun i => m.ram t i) = m := by
  simp only [Mem.fill]
  rw [show (fun i => m.ram t i) = m.ram t from rfl, Function.update_eq_self]

/-- `free_page_tables` over a table whose pages all lie below `LOW_MEM`. -/
theorem freeLoop_low {t n : Nat}
    (h : ∀ i < n, present (m.ram t i) = true → frame (m.ram t i) < lowMem) :
    forLoop (freeEntry t) (List.range n) m
      = .ok true (m.fill t fun i => if i < n then 0 else m.ram t i) := by
  induction n with
  | zero => exact congrArg (Res.ok true) fill_same.symm
  | succ n ih =>
    rw [List.range_succ, forLoop_append, ih fun i hi => h i (by omega)]
    have hcell : (m.fill t fun i => if i < n then (0 : Word) else m.ram t i).ram t n = m.ram t n := by
      rw [fill_ram_self, if_neg (Nat.lt_irrefl n)]
    have hturn : freeEntry t n (m.fill t fun i => if i < n then (0 : Word) else m.ram t i)
        = .ok true (m.fill t fun i => if i < n + 1 then (0 : Word) else m.ram t i) := by
      rw [freeEntry, hcell]
      cases hp : present (m.ram t n) with
      | false => exact congrArg (Res.ok true) (fill_poke (g := fun _ => 0))
      | true =>
        rw [if_pos rfl, freePage_low (h n (by omega) hp)]
        exact congrArg (Res.ok true) (fill_poke (g := fun _ => 0))
    simp only [Res.bind, forLoop, hturn, if_true]

/-- `copy_page_tables` over a table whose pages all lie below `LOW_MEM`. -/
theorem copyLoop_low {a b n : Nat} (hne : b ≠ a) {r : Nat → Word}
    (hrow : ∀ i < n, m.ram a i = r i) (hp : ∀ i < n, present (r i) = true)
    (hl : ∀ i < n, frame (r i) < lowMem) :
    forLoop (copyEntry a b) (List.range n) m
      = .ok true (m.fill b fun i => if i < n then r i &&& ~~~2 else m.ram b i) := by
  induction n with
  | zero => exact congrArg (Res.ok true) fill_same.symm
  | succ n ih =>
    rw [List.range_succ, forLoop_append,
      ih (fun i hi => hrow i (by omega)) (fun i hi => hp i (by omega)) fun i hi => hl i (by omega)]
    have hturn : copyEntry a b n (m.fill b fun i => if i < n then r i &&& ~~~2 else m.ram b i)
        = .ok true (m.fill b fun i => if i < n + 1 then r i &&& ~~~2 else m.ram b i) := by
      have hgt : ¬ r n &&& ~~~2 > 0x100000 := fun h => by
        have := (above_lowMem ((present_clear _).trans (hp n (by omega)))).mp h
        rw [frame_clear] at this
        have := hl n (by omega)
        omega
      rw [copyEntry, fill_ram_other hne.symm, hrow n (by omega)]
      simp only [hp n (by omega), if_true, if_neg hgt]
      exact congrArg (Res.ok true) (fill_poke (g := fun i => r i &&& ~~~2))
    simp only [Res.bind, forLoop, hturn, if_true]

/-- The first fork of a slot from task 0, as far as memory goes: a page table with the kernel's
first 640 KB. -/
theorem copyPageTables_kernel (S : Sound lo hi m held) {child t : Nat} (h1 : 1 ≤ child)
    (h2 : child < 64) (ha : present (m.dirv (16 * child)) = false)
    (hg : getFreePage m = some (t, m')) :
    copyPageTables (slotBase 0) (slotBase child) 0xA0000 m
      = .ok true ((m'.poke 0 (16 * child) (userEntry t)).fill t fun i =>
          if i < 0xA0 then userEntry i &&& ~~~2 else 0) := by
  have F := getFreePage_spec S hg
  have hr := F.range
  have hlow := S.acct.low
  rw [lowMem] at hlow
  have hd : 16 * child ∈ dirs := mem_dirs.mpr (by omega)
  have hdir : ∀ x, x ≠ 16 * child → (m'.poke 0 (16 * child) (userEntry t)).ram 0 x = m.ram 0 x := by
    intro x hx
    rw [poke_ram_self, if_neg hx, F.keeps 0 (by omega)]
  have hroot : m.ram 0 0 = userEntry 1 := S.root 0 (by omega)
  have hloop := copyLoop_low (m := m'.poke 0 (16 * child) (userEntry t)) (a := 1) (b := t)
    (n := 0xA0) (r := fun i => userEntry i) (by omega)
    (fun i _ => by
      rw [poke_ram_other (by omega), F.keeps 1 (by omega), S.kernel 1 (by omega) (by omega),
        kernelTable, Nat.sub_self, Nat.zero_mul, Nat.zero_add])
    (fun i _ => present_userEntry i)
    fun i hi => by
      rw [frame_userEntry (by omega), lowMem]
      omega
  rw [poke_ram_other (by omega), F.clear] at hloop
  have hturn : copyDir 0xA0 (0 + 0) (16 * child + 0) m
      = .ok true ((m'.poke 0 (16 * child) (userEntry t)).fill t fun i =>
          if i < 0xA0 then userEntry i &&& ~~~2 else 0) := by
    rw [copyDir, Nat.add_zero, Nat.add_zero, present_ram hd, ha, if_neg Bool.false_ne_true, hroot,
      present_userEntry, if_pos rfl, hg]
    dsimp only
    rw [frame_userEntry (by omega)]
    exact hloop
  have halign : ¬ (slotBase 0 % 0x400000 ≠ 0 ∨ slotBase child % 0x400000 ≠ 0) := by
    simp only [slotBase]
    omega
  have hblocks : blocks 0xA0000 = 1 := by decide
  rw [copyPageTables, if_neg halign, dirIndex_slotBase h2, dirIndex_slotBase (by omega), hblocks]
  simp only [show slotBase 0 = 0 from rfl, if_true, List.range_one, forLoop, Nat.mul_zero, hturn,
    Res.bind]

/-- A region of at most 4 MB without a table is left as it is. -/
theorem freePageTables_none {nr size : Nat} (h1 : 1 ≤ nr) (h2 : nr < 64) (hb : blocks size = 1)
    (ha : present (m.ram 0 (16 * nr)) = false) :
    freePageTables (slotBase nr) size m = .ok () m := by
  rw [freePageTables, if_neg (by simp only [slotBase]; omega),
    if_neg (by simp only [slotBase]; omega), dirIndex_slotBase h2, hb]
  simp only [List.range'_one, forLoop, freeDir, ha, Bool.false_eq_true, if_false, if_true, Res.bind]

/-- The region of a child of task 0 given up: its page table is free again. -/
theorem freePageTables_kernel {nr size t : Nat} (h1 : 1 ≤ nr) (h2 : nr < 64)
    (hb : blocks size = 1) (hd : m.ram 0 (16 * nr) = userEntry t) (ht : t < 2 ^ 20)
    (hl : lowMem ≤ t) (hh : t < m.highMemory) (hc : m.memMap (mapNr t) ≠ 0)
    (hrow : ∀ i < 1024, present (m.ram t i) = true → frame (m.ram t i) < lowMem) :
    freePageTables (slotBase nr) size m
      = .ok () (((m.fill t fun i => if i < 1024 then 0 else m.ram t i).setCount (mapNr t)
          (m.memMap (mapNr t) - 1)).poke 0 (16 * nr) 0) := by
  rw [lowMem] at hl
  have hcnt : (m.fill t fun i => if i < 1024 then (0 : Word) else m.ram t i).cnt t
      = m.memMap (mapNr t) := if_neg (by rw [lowMem]; omega)
  have hram : (m.fill t fun i => if i < 1024 then (0 : Word) else m.ram t i).ram 0 (16 * nr)
      = userEntry t := by
    rw [fill_ram_other (by omega)]
    exact hd
  rw [freePageTables, if_neg (by simp only [slotBase]; omega),
    if_neg (by simp only [slotBase]; omega), dirIndex_slotBase h2, hb]
  have hturn : freeDir (16 * nr) m
      = .ok true (((m.fill t fun i => if i < 1024 then 0 else m.ram t i).setCount (mapNr t)
          (m.memMap (mapNr t) - 1)).poke 0 (16 * nr) 0) := by
    rw [freeDir, hd, present_userEntry, if_pos rfl, frame_userEntry ht, freeLoop_low hrow]
    have hfree := freePage_ok (m := m.fill t fun i => if i < 1024 then 0 else m.ram t i) (f := t)
      (by rw [lowMem]; omega) hh (by rw [hcnt]; exact hc)
    rw [hcnt] at hfree
    simp only [Res.bind]
    rw [hram, frame_userEntry ht, hfree]
  simp only [List.range'_one, forLoop, hturn, if_true, Res.bind]

/-! ## The first two events of a task -/

variable {file : Nat → Program} {s : Sys}

/-- `fork` of task 0. -/
theorem step_fork_kernel (S : Sound lo hi s.mem s.held) (h0 : s.task 0 = some initTask)
    {child p t : Nat} {m1 m2 : Mem} (h1 : 1 ≤ child) (h2 : child < 64)
    (hc : s.task child = none) (ha : present (s.mem.dirv (16 * child)) = false)
    (hp : getFreePage s.mem = some (p, m1)) (ht : getFreePage m1 = some (t, m2)) :
    step file s (.fork 0 child) = some
      ⟨(m2.poke 0 (16 * child) (userEntry t)).fill t fun i =>
          if i < 0xA0 then userEntry i &&& ~~~2 else 0,
        Function.update s.held p true,
        Function.update s.task child (some { initTask with page := p })⟩ := by
  have F := getFreePage_spec S hp
  have hu : initTask.InUser := ⟨rfl, rfl, rfl⟩
  have hcopy := copyPageTables_kernel F.sound h1 h2 (by rw [F.dirv]; exact ha) ht
  simp only [step, h0, hc, if_pos (And.intro hu (And.intro h1 h2)), fork, hp]
  rw [if_neg (by decide), show initTask.dataLimit = 0xA0000 from rfl, hcopy]

/-- The rebuilding of a region that task 0 gave, for a program without arguments. -/
theorem step_execFinish_kernel {nr ino t : Nat} {k : Task} (h1 : 1 ≤ nr) (h2 : nr < 64)
    (hk : s.task nr = some k) (hph : k.phase = .closing) (hload : k.loading = none)
    (hargs : k.args = []) (hex : k.executable = some ino) (hcode : blocks k.codeLimit = 1)
    (hdata : blocks k.dataLimit = 1) (hd : s.mem.ram 0 (16 * nr) = userEntry t)
    (ht : t < 2 ^ 20) (hl : lowMem ≤ t) (hh : t < s.mem.highMemory)
    (hc : s.mem.memMap (mapNr t) ≠ 0)
    (hrow : ∀ i < 1024, present (s.mem.ram t i) = true → frame (s.mem.ram t i) < lowMem) :
    step file s (.execFinish nr []) = some (Sys.setTask
      ⟨((s.mem.fill t fun i => if i < 1024 then 0 else s.mem.ram t i).setCount (mapNr t)
          (s.mem.memMap (mapNr t) - 1)).poke 0 (16 * nr) 0, s.held, s.task⟩ nr
      { k with args := [], codeLimit := (file ino).codeLimit, dataLimit := 0x4000000,
               endData := (file ino).endData,
               phase := .zeroing (((file ino).exec.text + (file ino).exec.data) % 2 ^ 32) }) := by
  have hfree := freePageTables_kernel h1 h2 hcode hd ht hl hh hc hrow
  have hput : ∀ (is : List Nat) (r : Mem × (Nat → Bool)), putArgs (slotBase nr) [] is r = r := by
    intro is r
    induction is with
    | nil => rfl
    | cons i is ih => exact ih
  have hcond : (decide (k.phase = .closing ∧ k.loading.isNone = true ∧
      ∀ x ∈ ([] : List (Nat × Option Word)), 0x3F00000 ≤ x.1 ∧ x.1 < 0x4000000 ∧
        k.endData ≤ x.1 / 4096 * 4096)) = true := by
    refine decide_eq_true ⟨hph, Option.isNone_iff_eq_none.mpr hload, fun x hx => ?_⟩
    exact absurd hx List.not_mem_nil
  simp only [step, Sys.withTask, hk, hcond, h1, and_self, if_true, hex, Option.bind_some,
    execFinish, hfree]
  rw [freePageTables_none h1 h2 hdata (by rw [poke_ram_self, if_pos rfl]; rfl)]
  simp only [hargs, hput, createTables]

end Linux011.Mm
