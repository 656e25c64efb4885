import Linux011.Mm.Operations

/-!
# Physical page accounting

The memory manager as a machine: its state is the memory together with the pages the kernel holds,
and its operations are the eight functions of `mm/memory.c` that touch `mem_map`, called in any
order from `mem_init` on. An operation that ends in a panic or in `oom` keeps the memory it has
reached; what `do_exit` then does to the memory is `free_page_tables`, an operation of its own.

The result is that `mem_map` counts references: the entry of a paged frame is the number of present
directory entries, present page-table entries and kernel references of the frame, so a frame that
`get_free_page` hands out is referenced by nobody.
-/

namespace Linux011.Mm

/-! ## The initial memory -/

theorem clearCounts_apply (memMap : Nat → Nat) (i n j : Nat) :
    clearCounts memMap i n j = if i ≤ j ∧ j < i + n then 0 else memMap j := by
  induction n generalizing memMap i with
  | zero => rw [clearCounts, if_neg (by omega)]
  | succ n ih =>
    rw [clearCounts, ih]
    by_cases hj : j = i
    · subst hj
      rw [if_neg (by omega), Function.update_self, if_pos (by omega)]
    · rw [Function.update_of_ne hj]
      by_cases hr : i ≤ j ∧ j < i + (n + 1)
      · rw [if_pos hr, if_pos (by omega)]
      · rw [if_neg hr, if_neg (by omega)]

/-- The memory that `setup_paging` and `mem_init` leave, on top of whatever was there before. -/
def boot (startMem endMem : Nat) (m : Mem) : Mem := memInit startMem endMem (setupPaging m)

theorem boot_sound {lo hi : Nat} (m : Mem) (h1 : lowMem ≤ lo) (h2 : lo ≤ hi)
    (h3 : hi ≤ lowMem + pagingPages) : Sound lo hi (boot lo hi m) fun _ => false := by
  have hdir : ∀ d, (boot lo hi m).dirv d = 0 := by
    intro d
    unfold Mem.dirv
    split
    · have hd : ¬ d < 4 := by omega
      simp only [boot, memInit, setupPaging, if_true, if_neg hd]
    · rfl
  have hnone : ∀ d, present ((boot lo hi m).dirv d) = false := fun d => by rw [hdir]; rfl
  have hpte : ∀ d i, (boot lo hi m).pte d i = 0 := fun d i => pte_absent (hnone d)
  have habs : ∀ d i, present ((boot lo hi m).pte d i) = false := fun d i => by rw [hpte]; rfl
  have hcnt : ∀ f, lowMem ≤ f → (boot lo hi m).cnt f = if lo ≤ f ∧ f < hi then 0 else used := by
    intro f hf
    rw [Mem.cnt, if_neg (by omega)]
    show clearCounts (fun _ => used) (mapNr lo) (hi - lo) (mapNr f) = _
    rw [clearCounts_apply]
    unfold mapNr
    by_cases h : lo ≤ f ∧ f < hi
    · rw [if_pos h, if_pos (by omega)]
    · rw [if_neg h, if_neg (by omega)]
  -- nothing is present and nothing is held, so every fact but the counts is vacuous
  have no {P : Prop} {e : Word} (h : present e = false) : present e = true → P := by
    rw [h]
    exact fun h => by cases h
  refine ⟨?_, rfl, fun _ _ => rfl, fun t ht1 ht4 => ?_⟩
  · exact {
      low := h1
      high := h3
      slot := no (hnone _)
      cell := no (habs _ _)
      absent := fun _ => hpte _ _
      count := fun {f} hf1 hf2 => by
        have hd : dirRefs (boot lo hi m).dirv f = 0 :=
          dirRefs_zero.mpr fun d _ => not_points_absent (hnone d)
        have hp : pteRefs (boot lo hi m).pte f = 0 :=
          pteRefs_zero.mpr fun d i _ _ => not_points_absent (habs d i)
        rw [hcnt f (by omega), if_pos ⟨hf1, hf2⟩, hd, hp]
        rfl
      busy := fun hf1 _ hf3 => by rw [hcnt _ hf1, if_neg hf3]
      table := no (hnone _)
      tableOnce := no (hnone _)
      tableApart := no (hnone _)
      tableHeld := no (hnone _)
      page := no (habs _ _)
      pageHeld := no (habs _ _)
      offset := no (habs _ _)
      alone := no (habs _ _)
      heldRange := fun h => by cases h }
  · funext i
    have h0 : t ≠ 0 := by omega
    simp only [boot, memInit, setupPaging, if_neg h0, if_pos ht4, kernelTable]

/-! ## The machine -/

/-- The memory, and the pages the kernel holds itself. -/
structure Pages where
  mem : Mem
  held : Nat → Bool

/-- An operation of the memory manager. Regions are named by their slot. -/
inductive PageOp where
  | getFreePage
  | freePage (f : Nat)
  | putPage (page address : Nat)
  | getEmptyPage (address : Nat)
  | unWpPage (d i : Nat)
  | copyPageTables (parent child size : Nat)
  | freePageTables (nr size : Nat)
  | tryToShare (address p cur : Nat)

/-- The address lies in a task slot and its entry is not present. -/
def AbsentAt (m : Mem) (address : Nat) : Prop :=
  16 ≤ dirIndex address ∧ present (m.pte (dirIndex address) (tableIndex address)) = false

theorem AbsentAt.mem {m : Mem} {address : Nat} (h : AbsentAt m address) :
    dirIndex address ∈ dirs := mem_dirs.mpr ⟨h.1, Nat.mod_lt _ (by omega)⟩

/-- What a caller keeps to. `copy_mem` passes the region of the current task, 640 KB for task 0 and
at most 64 MB for the others; `share_page` passes an offset into the regions of two tasks. -/
def PageOp.Pre (s : Pages) : PageOp → Prop
  | .getFreePage => True
  | .freePage f => s.held f = true
  | .putPage page address => s.held page = true ∧ AbsentAt s.mem address
  | .getEmptyPage address => AbsentAt s.mem address
  | .unWpPage d i => present (s.mem.pte d i) = true
  | .copyPageTables parent child size => parent < 64 ∧ 1 ≤ child ∧ child < 64 ∧ child ≠ parent ∧
      size ≤ 0x4000000 ∧ (parent = 0 → size ≤ 0x400000) ∧
      ∀ k < 16, present (s.mem.dirv (16 * child + k)) = false
  | .freePageTables nr size => 1 ≤ nr ∧ nr < 64 ∧ size ≤ 0x4000000
  | .tryToShare address p cur => dirIndex address < 16 ∧ 1 ≤ p ∧ p < 64 ∧ 1 ≤ cur ∧ cur < 64

instance (m : Mem) (address : Nat) : Decidable (AbsentAt m address) :=
  inferInstanceAs (Decidable (_ ∧ _))

instance (s : Pages) : (op : PageOp) → Decidable (op.Pre s)
  | .getFreePage => inferInstanceAs (Decidable True)
  | .freePage _ => inferInstanceAs (Decidable (_ = true))
  | .putPage _ _ => inferInstanceAs (Decidable (_ ∧ _))
  | .getEmptyPage _ => inferInstanceAs (Decidable (AbsentAt _ _))
  | .unWpPage _ _ => inferInstanceAs (Decidable (_ = true))
  | .copyPageTables _ _ _ => inferInstanceAs (Decidable (_ ∧ _ ∧ _ ∧ _ ∧ _ ∧ _ ∧ _))
  | .freePageTables _ _ => inferInstanceAs (Decidable (_ ∧ _ ∧ _))
  | .tryToShare _ _ _ => inferInstanceAs (Decidable (_ ∧ _ ∧ _ ∧ _ ∧ _))

/-- What the operation leaves behind. -/
def PageOp.apply (s : Pages) : PageOp → Pages
  | .getFreePage =>
    match Mm.getFreePage s.mem with
    | none => s
    | some (f, m) => ⟨m, Function.update s.held f true⟩
  | .freePage f => ⟨(Mm.freePage f s.mem).mem, Function.update s.held f false⟩
  | .putPage page address =>
    match Mm.putPage page address s.mem with
    | (true, m) => ⟨m, Function.update s.held page false⟩
    | (false, m) => ⟨m, s.held⟩
  | .getEmptyPage address => ⟨(Mm.getEmptyPage address s.mem).mem, s.held⟩
  | .unWpPage d i => ⟨(Mm.unWpPage (frame (s.mem.ram 0 d)) i s.mem).mem, s.held⟩
  | .copyPageTables parent child size =>
    ⟨(Mm.copyPageTables (slotBase parent) (slotBase child) size s.mem).mem, s.held⟩
  | .freePageTables nr size => ⟨(Mm.freePageTables (slotBase nr) size s.mem).mem, s.held⟩
  | .tryToShare address p cur =>
    ⟨(Mm.tryToShare address (slotBase p) (slotBase cur) s.mem).mem, s.held⟩

/-- One call. -/
def pageStep (s : Pages) (op : PageOp) : Option Pages := if op.Pre s then some (op.apply s) else none

/-- The states that calls reach from `mem_init` of the frames from `lo` up to `hi`. -/
def PagesReach (lo hi : Nat) : Pages → Prop :=
  Lib.Reach pageStep (fun _ _ => True) fun s => ∃ m, s = ⟨boot lo hi m, fun _ => false⟩

/-- Every operation keeps the invariant of the memory manager. -/
theorem apply_sound {lo hi : Nat} {s : Pages} (S : Sound lo hi s.mem s.held) (op : PageOp)
    (hpre : op.Pre s) : Sound lo hi (op.apply s).mem (op.apply s).held := by
  cases op with
  | getFreePage =>
    cases hf : Mm.getFreePage s.mem with
    | none =>
      simp only [PageOp.apply, hf]
      exact S
    | some r =>
      obtain ⟨f, m⟩ := r
      simp only [PageOp.apply, hf]
      exact (getFreePage_spec S hf).sound
  | freePage f =>
    obtain ⟨m, hm, Sm, -⟩ := freePage_held S hpre
    simp only [PageOp.apply, hm]
    exact Sm
  | putPage page address =>
    rcases putPage_spec S hpre.2.mem hpre.2.2 hpre.1 with ⟨m, hm, Sm, -⟩ | hm
    · simp only [PageOp.apply, hm]
      exact Sm
    · simp only [PageOp.apply, hm]
      exact S
  | getEmptyPage address =>
    rcases getEmptyPage_spec S (AbsentAt.mem hpre) hpre.2 with ⟨m, page, hm, Sm, -⟩ | ⟨m, hm, Sm, -⟩
    · simp only [PageOp.apply, hm]
      exact Sm
    · simp only [PageOp.apply, hm]
      exact Sm
  | unWpPage d i =>
    have hdir := dirv_eq (m := s.mem) (dirv_mem (pte_dir hpre).1)
    rcases unWpPage_spec S hpre with ⟨m, hm, Sm, -⟩ | ⟨m, page, hm, Sm, -⟩ | hm
    · simp only [PageOp.apply, ← hdir, hm]
      exact Sm
    · simp only [PageOp.apply, ← hdir, hm]
      exact Sm
    · simp only [PageOp.apply, ← hdir, hm]
      exact S
  | copyPageTables parent child size =>
    obtain ⟨hp, h1, h2, hne, hs, hk, hempty⟩ := hpre
    have hk' : parent = 0 → blocks size ≤ 1 := by
      intro h0
      have := hk h0
      simp only [blocks, Nat.shiftRight_eq_div_pow]
      omega
    rcases copyPageTables_spec S hp h1 h2 hne hs hk' hempty with ⟨m, hm, Sm, -⟩ | ⟨m, hm, Sm, -⟩
    · simp only [PageOp.apply, hm]
      exact Sm
    · simp only [PageOp.apply, hm]
      exact Sm
  | freePageTables nr size =>
    obtain ⟨m, hm, Sm, -⟩ := freePageTables_spec S hpre.1 hpre.2.1 hpre.2.2
    simp only [PageOp.apply, hm]
    exact Sm
  | tryToShare address p cur =>
    obtain ⟨ho, hp1, hp2, hc1, hc2⟩ := hpre
    rcases tryToShare_spec S ho hp1 hp2 hc1 hc2 with ⟨m, hm, Sm, -⟩ | hm | ⟨-, msg, hm⟩ | hm
    · simp only [PageOp.apply, hm]
      exact Sm
    all_goals
      simp only [PageOp.apply, hm]
      exact S

/-- The invariant holds in every state that calls reach. -/
theorem PagesReach.sound {lo hi : Nat} (h1 : lowMem ≤ lo) (h2 : lo ≤ hi)
    (h3 : hi ≤ lowMem + pagingPages) {s : Pages} (h : PagesReach lo hi s) :
    Sound lo hi s.mem s.held := by
  refine Lib.Reach.invariant (I := fun s => Sound lo hi s.mem s.held) ?_ ?_ h
  · rintro _ ⟨m, rfl⟩
    exact boot_sound m h1 h2 h3
  · intro s op s' S _ hstep
    unfold pageStep at hstep
    split at hstep
    · next hpre =>
      cases hstep
      exact apply_sound S op hpre
    · cases hstep

/-! ## The result -/

/-- PAGE ACCOUNTING. In every state that calls of the memory manager reach from `mem_init`, the
count of a paged frame is the number of its references, and the frame that `get_free_page` would
hand out has none. -/
theorem mem_map_counts_references {lo hi : Nat} (h1 : lowMem ≤ lo) (h2 : lo ≤ hi)
    (h3 : hi ≤ lowMem + pagingPages) {s : Pages} (h : PagesReach lo hi s) :
    (∀ f, lo ≤ f → f < hi → s.mem.memMap (mapNr f)
      = dirRefs s.mem.dirv f + pteRefs s.mem.pte f + if s.held f = true then 1 else 0) ∧
    ∀ f m', getFreePage s.mem = some (f, m') → lo ≤ f ∧ f < hi ∧
      dirRefs s.mem.dirv f = 0 ∧ pteRefs s.mem.pte f = 0 ∧ s.held f = false := by
  have S := h.sound h1 h2 h3
  refine ⟨fun f hf1 hf2 => ?_, fun f m' hget => ?_⟩
  · have hcnt : s.mem.cnt f = s.mem.memMap (mapNr f) := if_neg (by omega)
    rw [← hcnt, S.acct.count hf1 hf2]
    cases s.held f with
    | false => rfl
    | true => rfl
  · have F := getFreePage_spec S hget
    exact ⟨F.range.1, F.range.2, S.acct.unreferenced F.range.1 F.range.2 F.zero⟩

/-- Memory of which only the last four pages are paged. -/
def fourPages : Pages := ⟨boot 4092 4096 ⟨fun _ _ => 0, fun _ => 0, 0⟩, fun _ => false⟩

/-- A page taken and mapped, a second one mapped beside it, and a third one taken and given back. -/
def fourPagesRun : List PageOp :=
  [.getFreePage, .putPage 4095 0x4000000, .getEmptyPage 0x4001000, .unWpPage 16 1, .getFreePage,
    .freePage 4092]

/-- The counts are right after a run that uses every page. -/
theorem mem_map_counts_references_fourPages : ∃ s,
    Lib.run pageStep fourPages fourPagesRun = some s ∧
    s.mem.memMap (mapNr 4095) = dirRefs s.mem.dirv 4095 + pteRefs s.mem.pte 4095
      + if s.held 4095 = true then 1 else 0 := by
  have hrun : (Lib.run pageStep fourPages fourPagesRun).isSome := rfl
  obtain ⟨s, hs⟩ := Option.isSome_iff_exists.mp hrun
  have hreach : PagesReach 4092 4096 s :=
    Lib.Reach.ofRun (fun _ _ => trivial) (.start ⟨_, rfl⟩) hs
  exact ⟨s, hs, (mem_map_counts_references (by decide) (by decide) (by decide) hreach).1 4095
    (by decide) (by decide)⟩

end Linux011.Mm
