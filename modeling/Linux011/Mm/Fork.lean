import Linux011.Mm.LowTables
import Linux011.Mm.Slots

/-!
# A fork that fails (`kernel/fork.c`)

`copy_process` takes a page for the `task_struct` and lets `copy_mem` build the page tables of the
child. Either may run out of pages. A table that is missing in the middle of `copy_page_tables` is
the hard case: some rows have been copied by then, each present entry has added one to the count of
a frame above `LOW_MEM`, and `copy_mem` has `free_page_tables` walk what is there. That function
has its own idea of how many tables a size needs and of which frames are counted.

What makes the undoing exact is that a count is the number of references (`Acct.count`): both walks
keep that law, the second one leaves no entry in the region of the child, and every entry outside of
it still names its frame. So no walk has to be compared with the other, and the counts agree because
the references do.

`fork` of `Process.lean` is the part of the function that the machine of tasks needs; here it is
with the task table, the files and the inodes it counts. The stores into the new `task_struct` are
one store of a whole page, whatever the words are; descriptors, registers and the state of the
coprocessor are left out.
-/

namespace Linux011.Mm

open Finset

variable {lo hi : Nat} {m m' : Mem} {held : Nat → Bool}

/-! ## The code -/

/-- `NR_OPEN`. -/
def nrOpen : Nat := 20

/-- `EAGAIN`. -/
def eagain : Int := 11

/-- `ENOMEM`. -/
def enomem : Int := 12

/-- What `copy_process` and `copy_mem` read of the current task: its files and inodes, by their
place in `file_table` and `inode_table`, and the two segments of its `ldt`. -/
structure TaskStruct where
  filp : Nat → Option Nat
  pwd : Option Nat
  root : Option Nat
  executable : Option Nat
  codeBase : Nat
  codeLimit : Nat
  dataBase : Nat
  dataLimit : Nat

/-- The memory, the pointers of the task table as frames, and the counts of files and inodes. -/
structure ForkState where
  mem : Mem
  task : Nat → Option Nat
  fCount : Nat → Nat
  iCount : Nat → Nat

/-- `copy_mem`. -/
def copyMem (nr : Nat) (current : TaskStruct) (m : Mem) : Res Int :=
  if current.dataBase ≠ current.codeBase then .panic "We don't support separate I&D" m
  else if current.dataLimit < current.codeLimit then .panic "Bad data_limit" m
  else
    (copyPageTables current.dataBase (slotBase nr) current.dataLimit m).bind fun done m =>
      if done then .ok 0 m
      else (freePageTables (slotBase nr) current.dataLimit m).bind fun _ m => .ok (-enomem) m

/-- `p->count++` of an `unsigned short`, behind a test for NULL. -/
def countUp (count : Nat → Nat) : Option Nat → Nat → Nat
  | none => count
  | some f => Function.update count f ((count f + 1) % 65536)

/-- `copy_process`; `taskStruct` are the words of the new `task_struct`. No value is a panic. -/
def copyProcess (nr lastPid : Nat) (taskStruct : Nat → Word) (current : TaskStruct)
    (s : ForkState) : Option (Int × ForkState) :=
  match getFreePage s.mem with
  | none => some (-eagain, s)
  | some (p, m) =>
    let task := Function.update s.task nr (some p)
    match copyMem nr current (m.fill p taskStruct) with
    | .ok ret m =>
      if ret ≠ 0 then
        match freePage p m with
        | .ok _ m => some (-eagain, { s with mem := m, task := Function.update task nr none })
        | _ => none
      else some (lastPid, ⟨m, task,
        (List.range nrOpen).foldl (fun count i => countUp count (current.filp i)) s.fCount,
        countUp (countUp (countUp s.iCount current.pwd) current.root) current.executable⟩)
    | _ => none

/-- The `fork` of the task machine is this function, with a `task_struct` of zeros. -/
theorem fork_copyProcess {s : Sys} (S : Sound lo hi s.mem s.held) {parent child lastPid : Nat}
    {t : Task} {current : TaskStruct} {k : ForkState} (hmem : k.mem = s.mem)
    (hbase : current.dataBase = slotBase parent) (hsame : current.codeBase = slotBase parent)
    (hdata : current.dataLimit = t.dataLimit) (hcode : current.codeLimit = t.codeLimit) :
    (fork s parent child t).map Sys.mem
      = (copyProcess child lastPid (fun _ => 0) current k).map fun r => r.2.mem := by
  unfold fork copyProcess copyMem
  rw [hmem, hbase, hsame, hdata, hcode]
  cases hg : getFreePage s.mem with
  | none => exact congrArg some hmem.symm
  | some r =>
    obtain ⟨p, m⟩ := r
    have hclear : (m.fill p fun _ => 0) = m := by
      rw [← (getFreePage_spec S hg).clear]
      exact fill_same
    simp only [hclear, ne_eq, not_true_eq_false, if_false]
    split
    · rfl
    · cases copyPageTables (slotBase parent) (slotBase child) t.dataLimit m with
      | panic msg m => rfl
      | oom m => rfl
      | ok done m =>
        cases done with
        | true => rfl
        | false =>
          simp only [Res.bind, Bool.false_eq_true, if_false]
          cases freePageTables (slotBase child) t.dataLimit m with
          | panic msg m => rfl
          | oom m => rfl
          | ok _ m =>
            have hnomem : ¬ -enomem = 0 := by decide
            simp only [if_pos hnomem]
            cases freePage p m <;> rfl

/-! ## The same references -/

/-- An entry that at most lost its R/W bit points where it did. -/
theorem Soft.points {e e' : Word} (h : Soft e e') (f : Nat) : Points e' f ↔ Points e f := by
  unfold Points
  rw [h.present, h.frame]

/-- Two accounts with the same references have the same counts. -/
theorem Acct.count_same {dir dir' : Nat → Word} {pte pte' : Nat → Nat → Word} {cnt cnt' : Nat → Nat}
    (A : Acct lo hi dir pte cnt held) (A' : Acct lo hi dir' pte' cnt' held) {f : Nat}
    (hd : ∀ d, Points (dir' d) f ↔ Points (dir d) f)
    (hp : ∀ d i, Points (pte' d i) f ↔ Points (pte d i) f) (h1 : lowMem ≤ f)
    (h2 : f < lowMem + pagingPages) : cnt' f = cnt f := by
  by_cases hf : lo ≤ f ∧ f < hi
  · have hdirs : dirRefs dir' f = dirRefs dir f := by
      unfold dirRefs
      congr 1
      exact filter_congr fun d _ => hd d
    have hrefs : pteRefs pte' f = pteRefs pte f := by
      unfold pteRefs
      congr 1
      exact filter_congr fun c _ => hp c.1 c.2
    rw [A.count hf.1 hf.2, A'.count hf.1 hf.2, hdirs, hrefs]
  · rw [A.busy h1 h2 hf, A'.busy h1 h2 hf]

/-- The memory `m'` has the references of `m`: the directory is the same, entries at most lost
their R/W bits, and neither pages with data nor the kernel's own pages changed. -/
structure Restored (m : Mem) (held : Nat → Bool) (m' : Mem) : Prop where
  dirv : m'.dirv = m.dirv
  soft : ∀ d i, Soft (m.pte d i) (m'.pte d i)
  data : ∀ g, Data m held g → m'.ram g = m.ram g
  low : ∀ g, 0 < g → g < lowMem → m'.ram g = m.ram g

namespace Restored

theorem refl (m : Mem) (held : Nat → Bool) : Restored m held m :=
  ⟨rfl, fun _ _ => Soft.refl _, fun _ _ => rfl, fun _ _ _ => rfl⟩

/-- `mem_map` as a whole is as before. -/
theorem counts (R : Restored m held m') (S : Sound lo hi m held) (S' : Sound lo hi m' held)
    {i : Nat} (h : i < pagingPages) : m'.memMap i = m.memMap i := by
  have key := S.acct.count_same S'.acct (f := lowMem + i) (fun d => by rw [R.dirv])
    (fun d i => (R.soft d i).points _) (by omega) (by omega)
  have hi' : mapNr (lowMem + i) = i := by rw [mapNr, Nat.add_sub_cancel_left]
  rw [Mem.cnt, Mem.cnt, if_neg (by omega), if_neg (by omega), hi'] at key
  exact key

/-- The words of the page directory are as before. -/
theorem directory (R : Restored m held m') (S : Sound lo hi m held) (S' : Sound lo hi m' held)
    {d : Nat} (h : d < 1024) : m'.ram 0 d = m.ram 0 d := by
  by_cases hd : d < 16
  · rw [S.root d hd, S'.root d hd]
  · have hmem : d ∈ dirs := mem_dirs.mpr (by omega)
    rw [← dirv_eq hmem, ← dirv_eq hmem, R.dirv]

/-- A mapped page has the words it had; the directory itself, which task 0 sees, included. -/
theorem page (R : Restored m held m') (S : Sound lo hi m held) (S' : Sound lo hi m' held)
    {f : Nat} (hf : f < lowMem ∨ Data m held f) {j : Nat} (hj : j < 1024) :
    m'.ram f j = m.ram f j := by
  rcases hf with hlow | hdata
  · by_cases h0 : f = 0
    · rw [h0]
      exact R.directory S S' hj
    · rw [R.low f (by omega) hlow]
  · rw [R.data f hdata]

end Restored

/-! ## What a task sees of its region -/

/-- The size of the region of a slot: task 0 lives in the first 640 KB of the kernel. -/
def regionSize (q : Nat) : Nat := if q = 0 then 0xA0000 else 0x4000000

/-- The page tables of slot `q` map the same frames with the same contents; only R/W bits may be
gone. -/
def SameSpace (m m' : Mem) (q : Nat) : Prop :=
  ∀ off < regionSize q, presentAt m' (slotBase q + off) = presentAt m (slotBase q + off) ∧
    (presentAt m (slotBase q + off) = true →
      Soft (entryAt m (slotBase q + off)) (entryAt m' (slotBase q + off)) ∧
      ∀ j < 1024, m'.ram (frame (entryAt m (slotBase q + off))) j
        = m.ram (frame (entryAt m (slotBase q + off))) j)

/-- The entry of an address of task 0 is the kernel's, and names a frame below `LOW_MEM`. -/
theorem entryAt_kernel (S : Sound lo hi m held) {off : Nat} (h : off < 0xA0000) :
    presentAt m (slotBase 0 + off) = true ∧
      entryAt m (slotBase 0 + off) = userEntry (off / 4096) := by
  have hd : dirIndex (slotBase 0 + off) = 0 := by
    rw [dirIndex_slot (by omega) (by omega)]
    omega
  have he : entryAt m (slotBase 0 + off) = userEntry (off / 4096) := by
    rw [entryAt, hd, tableIndex_slot, S.root 0 (by omega), kernelDir, if_pos (by omega),
      frame_userEntry (by omega), S.kernel 1 (by omega) (by omega), kernelTable]
    congr 1
    omega
  refine ⟨?_, he⟩
  rw [presentAt, he, hd, S.root 0 (by omega), kernelDir, if_pos (by omega), present_userEntry,
    present_userEntry]
  rfl

/-- Every region is as before. -/
theorem Restored.space (R : Restored m held m') (S : Sound lo hi m held)
    (S' : Sound lo hi m' held) {q : Nat} (hq : q < 64) : SameSpace m m' q := by
  intro off hoff
  by_cases h0 : q = 0
  · subst h0
    rw [regionSize, if_pos rfl] at hoff
    obtain ⟨hp, he⟩ := entryAt_kernel S hoff
    obtain ⟨hp', he'⟩ := entryAt_kernel S' hoff
    have hframe : frame (userEntry (off / 4096)) < lowMem := by
      rw [frame_userEntry (by omega), lowMem]
      omega
    rw [hp, hp', he, he']
    exact ⟨rfl, fun _ => ⟨Soft.refl _, fun j hj => R.page S S' (Or.inl hframe) hj⟩⟩
  · rw [regionSize, if_neg h0] at hoff
    have hd := (slot_dirs (by omega) hq hoff).1
    have hs := R.soft (dirIndex (slotBase q + off)) (tableIndex (slotBase q + off))
    have hpp : presentAt m' (slotBase q + off) = presentAt m (slotBase q + off) := by
      rw [presentAt_eq hd, presentAt_eq hd, hs.present]
    refine ⟨hpp, fun hp => ?_⟩
    rw [entryAt_eq hd hp, entryAt_eq hd (hpp.trans hp)]
    refine ⟨hs, fun j hj => R.page S S' ?_ hj⟩
    rw [presentAt_eq hd] at hp
    rcases Nat.lt_or_ge (frame (m.pte (dirIndex (slotBase q + off))
      (tableIndex (slotBase q + off)))) lowMem with hl | hl
    · exact Or.inl hl
    · exact Or.inr (Or.inr ⟨hl, _, _, hp, rfl⟩)

/-! ## The cleanup -/

/-- `free_page_tables` undoes what a `copy_page_tables` without a page for one of the tables has
done in the empty region of slot `child`. -/
theorem copyPageTables_undone (S : Sound lo hi m held) {parent child size : Nat}
    (hp : parent < 64) (h1 : 1 ≤ child) (h2 : child < 64) (hne : child ≠ parent)
    (hs : size ≤ 0x4000000) (hk : parent = 0 → blocks size ≤ 1)
    (hempty : ∀ k < 16, m.dirv (16 * child + k) = 0) :
    (∃ m', copyPageTables (slotBase parent) (slotBase child) size m = .ok true m') ∨
    ∃ m' m'', copyPageTables (slotBase parent) (slotBase child) size m = .ok false m' ∧
      freePageTables (slotBase child) size m' = .ok () m'' ∧ Sound lo hi m'' held ∧
      Restored m held m'' := by
  have habsent : ∀ k < 16, present (m.dirv (16 * child + k)) = false := by
    intro k hk16
    rw [hempty k hk16]
    rfl
  rcases copyPageTables_spec S hp h1 h2 hne hs hk habsent with
    ⟨m1, hm1, -⟩ | ⟨m1, hm1, S1, ⟨vdir, vsoft, vram⟩, vend, vword, vlow⟩
  · exact Or.inl ⟨m1, hm1⟩
  obtain ⟨m2, hm2, S2, wgone, wrest, wram⟩ := freePageTables_spec S1 h1 h2 hs
  have hb := blocks_le hs
  -- a directory entry of the child is zero again, or has been zero all the time
  have hchild : ∀ k < 16, m2.dirv (16 * child + k) = 0 := by
    intro k hk16
    have hkeep : present (m1.dirv (16 * child + k)) = false → m1.dirv (16 * child + k) = 0 := by
      intro h
      rcases vword k hk16 with hv | hv
      · rw [hv] at h
        cases h
      · rw [hv, hempty k hk16]
    by_cases hkb : k < blocks size
    · obtain ⟨hgone, hz | hz⟩ := wgone k hkb
      · exact hz
      · rw [hz] at hgone
        rw [hz, hkeep hgone]
    · rw [(wrest _ (by omega)).1]
      exact hkeep (vend k hk16 (by omega))
  have hdirv : m2.dirv = m.dirv := by
    funext d
    by_cases hd : d / 16 = child
    · have hsplit : d = 16 * child + d % 16 := by omega
      rw [hsplit, hchild _ (by omega), hempty _ (by omega)]
    · rw [(wrest d (by omega)).1, vdir d hd]
  refine Or.inr ⟨m1, m2, hm1, hm2, S2, hdirv, fun d i => ?_, fun g hg => ?_, fun g h0 hg => ?_⟩
  · by_cases hd : d / 16 = child
    · have hz : present (m.dirv d) = false := by
        have hsplit : d = 16 * child + d % 16 := by omega
        rw [hsplit]
        exact habsent _ (by omega)
      have hz2 : present (m2.dirv d) = false := by rw [hdirv, hz]
      rw [pte_absent hz, pte_absent hz2]
      exact Soft.refl _
    · rw [(wrest d (by omega)).2 i]
      exact vsoft d i hd
  · have hdata : Data m1 held g := hg.soft fun d i hpd => vsoft d i fun h => by
      have hpr := (pte_dir hpd).1
      have hsplit : d = 16 * child + d % 16 := by omega
      rw [hsplit, habsent _ (by omega)] at hpr
      cases hpr
    rw [(wram g (S1.notTable hdata)).1, vram g hg]
  · have hnt : NotTable m1 g := by
      refine ⟨by omega, fun d hpt => ?_⟩
      have hrange := (S1.acct.table hpt.1).1
      have hlow := S1.acct.low
      rw [hpt.2] at hrange
      omega
    rw [(wram g hnt).1, vlow g h0 hg]

/-- The same around the page of the `task_struct`: taken before, filled, and given back. -/
theorem Fresh.restored {p : Nat} {m1 m2 m3 : Mem} {page : Nat → Word} (S : Sound lo hi m held)
    (F : Fresh lo hi m held p m1) (R : Restored (m1.fill p page) (Function.update held p true) m2)
    (hd : m3.dirv = m2.dirv) (hp : m3.pte = m2.pte) (hr : m3.ram = m2.ram) :
    Restored m held m3 := by
  have hnt : NotTable m1 p := F.sound.notTable (Or.inl (Function.update_self ..))
  obtain ⟨vd, vp⟩ := view_fill (p := page) hnt
  refine ⟨?_, fun d i => ?_, fun g hg => ?_, fun g h0 hg => ?_⟩
  · rw [hd, R.dirv, vd, F.dirv]
  · have := R.soft d i
    rw [vp, F.pte] at this
    rw [hp]
    exact this
  · have hne : g ≠ p := (F.new S).2 hg
    have hdata : Data (m1.fill p page) (Function.update held p true) g :=
      (F.grow hg).soft fun d i _ => by
        rw [vp]
        exact Soft.refl _
    rw [hr, R.data g hdata, fill_ram_other hne, F.keeps g hne]
  · have hrange := F.range.1
    have hlow := S.acct.low
    rw [hr, R.low g h0 hg, fill_ram_other (by omega), F.keeps g (by omega)]

/-! ## The result -/

/-- The segments of a task in slot `nr`: its region is that of the slot, of 64 MB at most, and task 0
has the one 640 KB piece of the kernel. -/
structure AddressSpace (nr : Nat) (t : TaskStruct) : Prop where
  slot : nr < 64
  base : t.dataBase = slotBase nr
  limit : t.dataLimit ≤ 0x4000000
  first : nr = 0 → t.dataLimit ≤ 0xA0000

/-- What is left of a fork into slot `nr` that failed: nothing. -/
structure NoTrace (s s' : ForkState) (nr : Nat) : Prop where
  task : s'.task nr = none ∧ s'.task = s.task
  memMap : ∀ i < pagingPages, s'.mem.memMap i = s.mem.memMap i
  directory : ∀ k < 16, s'.mem.ram 0 (16 * nr + k) = 0
  space : ∀ q < 64, q ≠ nr → SameSpace s.mem s'.mem q
  files : s'.fCount = s.fCount
  inodes : s'.iCount = s.iCount

/-- Memory with the same references leaves no trace when nothing else has changed. -/
theorem Restored.noTrace {s : ForkState} {nr : Nat} (R : Restored s.mem held m')
    (S : Sound lo hi s.mem held) (S' : Sound lo hi m' held) (h2 : nr < 64)
    (hfree : s.task nr = none) (hempty : ∀ k < 16, s.mem.ram 0 (16 * nr + k) = 0)
    {task : Nat → Option Nat} (ht : task = s.task) :
    NoTrace s { s with mem := m', task := task } nr where
  task := ⟨by rw [ht, hfree], ht⟩
  memMap _ hi := R.counts S S' hi
  directory k hk := by
    show m'.ram 0 (16 * nr + k) = 0
    rw [R.directory S S' (by omega), hempty k hk]
  space _ hq _ := R.space S S' hq
  files := rfl
  inodes := rfl

/-- A FAILING FORK LEAVES NO TRACE. Whatever pages are free when the task of slot `parent` forks into
the free slot `nr`, `copy_process` returns, unless its segments make `copy_mem` panic; and when it
returns `-EAGAIN`, the slot is free again, `mem_map` is exactly as before, the region of the child
has no directory entry, every other task sees the same frames with the same contents, and no file
and no inode is counted differently. -/
theorem fork_leaves_no_trace (s : ForkState) (S : Sound lo hi s.mem held) (parent nr : Nat)
    (t : TaskStruct) (A : AddressSpace parent t) (h1 : 1 ≤ nr) (h2 : nr < 64) (hne : nr ≠ parent)
    (hfree : s.task nr = none) (hempty : ∀ k < 16, s.mem.ram 0 (16 * nr + k) = 0) (lastPid : Nat)
    (taskStruct : Nat → Word) :
    (∀ s', copyProcess nr lastPid taskStruct t s = some (-eagain, s') → NoTrace s s' nr) ∧
    (t.dataBase = t.codeBase → t.codeLimit ≤ t.dataLimit →
      ∃ r s', copyProcess nr lastPid taskStruct t s = some (r, s')) := by
  unfold copyProcess
  cases hg : getFreePage s.mem with
  | none =>
    refine ⟨fun s' h => ?_, fun _ _ => ⟨_, _, rfl⟩⟩
    cases h
    exact (Restored.refl s.mem held).noTrace S S h2 hfree hempty rfl
  | some r =>
    obtain ⟨p, m1⟩ := r
    have F := getFreePage_spec S hg
    have hheld : Function.update held p true p = true := Function.update_self ..
    obtain ⟨S1, vd, -, -, -⟩ := fill_view F.sound hheld taskStruct
    have hfirst : parent = 0 → blocks t.dataLimit ≤ 1 := by
      intro h0
      have := A.first h0
      simp only [blocks, Nat.shiftRight_eq_div_pow]
      omega
    have hzero : ∀ k < 16, (m1.fill p taskStruct).dirv (16 * nr + k) = 0 := by
      intro k hk
      rw [vd, F.dirv, dirv_eq (mem_dirs.mpr (by omega)), hempty k hk]
    dsimp only
    unfold copyMem
    by_cases hbase : t.dataBase ≠ t.codeBase
    · rw [if_pos hbase]
      exact ⟨fun s' h => (by cases h), fun h => absurd h hbase⟩
    rw [if_neg hbase]
    by_cases hlimit : t.dataLimit < t.codeLimit
    · rw [if_pos hlimit]
      exact ⟨fun s' h => (by cases h), fun _ h => absurd h (Nat.not_le.mpr hlimit)⟩
    rw [if_neg hlimit, A.base]
    rcases copyPageTables_undone S1 A.slot h1 h2 hne A.limit hfirst hzero with
      ⟨m2, hm2⟩ | ⟨m2, m3, hm2, hm3, S3, R⟩
    · rw [hm2]
      refine ⟨fun s' h => ?_, fun _ _ => ⟨_, _, rfl⟩⟩
      -- a process number is not negative
      have hpid : (lastPid : Int) = -eagain := (Prod.mk.inj (Option.some.inj h)).1
      have : eagain = 11 := rfl
      omega
    · obtain ⟨m4, hm4, S4, hd4, hp4, hr4⟩ := freePage_held S3 hheld
      rw [hm2]
      rw [F.back S] at S4
      have hnomem : -enomem ≠ 0 := by decide
      simp only [Res.bind, hm3, Bool.false_eq_true, if_false, if_pos hnomem, hm4]
      refine ⟨fun s' h => ?_, fun _ _ => ⟨_, _, rfl⟩⟩
      cases h
      refine (F.restored S R hd4 hp4 hr4).noTrace S S4 h2 hfree hempty ?_
      rw [Function.update_idem, ← hfree, Function.update_eq_self]

/-- `INIT_TASK`, which has no file open and no directory of its own. -/
def initStruct : TaskStruct := ⟨fun _ => none, none, none, none, 0, 0xA0000, 0, 0xA0000⟩

/-- A system with one page left: it goes to the `task_struct`, and no page table can be had. -/
def onePageLeft : ForkState where
  mem := boot 4095 4096 ⟨fun _ _ => 0, fun _ => 0, 0⟩
  task nr := if nr = 0 then some 0 else none
  fCount _ := 0
  iCount _ := 0

/-- The fork of task 0 fails there and gives the page back. -/
theorem fork_leaves_no_trace_onePageLeft : ∃ s',
    copyProcess 1 1 (fun i => BitVec.ofNat 32 i) initStruct onePageLeft = some (-eagain, s') ∧
      NoTrace onePageLeft s' 1 := by
  have S : Sound 4095 4096 onePageLeft.mem fun _ => false :=
    boot_sound _ (by decide) (by decide) (by decide)
  have A : AddressSpace 0 initStruct := ⟨by decide, rfl, by decide, fun _ => by decide⟩
  have key := fork_leaves_no_trace onePageLeft S 0 1 initStruct A (by decide) (by decide)
    (by decide) rfl (by decide) 1 fun i => BitVec.ofNat 32 i
  have hrun : (copyProcess 1 1 (fun i => BitVec.ofNat 32 i) initStruct onePageLeft).map Prod.fst
      = some (-eagain) := by decide +kernel
  obtain ⟨⟨r, s'⟩, hs, hr⟩ := Option.map_eq_some_iff.mp hrun
  cases hr
  exact ⟨s', hs, key.1 s' hs⟩

end Linux011.Mm
