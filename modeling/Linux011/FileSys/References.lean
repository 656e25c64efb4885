import Linux011.FileSys.Logic

/-!
# References to buffers

`Counts base x after` says what a program takes and gives back: in a run of `x` that begins with the
counts `base`, each count ends as in `after`, or higher if references are lost on the way. A function is
`Balanced` if it leaves every count as it was, whatever the counts are, so that it may be called while
others are held; almost all are. `find_entry` and `add_entry` keep the buffer of the entry they return.

There are three places where the code is wrong: `free_block` takes a reference to a buffer in use and
returns with it; `is_empty_dir` returns with one when the directory has no "." and ".."; and at a hole
in the directory it gives one back twice. Each raises an alarm. A reference that is lost is never made
good, so the counts are right in the end exactly if none is lost; after a hole nothing is said.
-/

namespace Linux011.FileSys

open Lib.Prog (stop alarm when forEach)

/-- The alarms about references to buffers. -/
def Alarm.ofBuffers : Alarm → Bool
  | .inUse | .malformed | .hole => true
  | .unmarked | .taken => false

/-- A reference is given back twice. -/
def Alarm.isHole : Alarm → Bool
  | .hole => true
  | .inUse | .malformed | .unmarked | .taken => false

variable {C α β ι : Type}

/-- A run from counts `base` or higher ends with the counts `after` or higher, and releases no free
buffer. The counts are `after` exactly if they were `base`, and no alarm is raised. -/
structure Counts (base : Bh → Nat) (x : Call C α) (after : α → Bh → Nat) : Prop where
  ends : ∀ s, base ≤ s.bcount → x.Quiet Alarm.isHole s → x.exec s ≠ .error (.inl .freeBuffer) ∧
    ∀ a s', x.exec s = .ok (a, s') → after a ≤ s'.bcount ∧
      (s'.bcount = after a ↔ s.bcount = base ∧ x.Quiet Alarm.ofBuffers s)

/-- No count changes, but for lost references. -/
def Balanced (x : Call C α) : Prop := ∀ base, Counts base x fun _ => base

/-! ## Rules -/

section

variable {m n : Bh → Nat} {bh : Bh}

theorem incCount_self : incCount n bh bh = n bh + 1 := Function.update_self ..

theorem incCount_of_ne {b : Bh} (h : b ≠ bh) : incCount n bh b = n b := Function.update_of_ne h ..

theorem incCount_le_incCount : incCount m bh ≤ incCount n bh ↔ m ≤ n := by
  constructor
  · intro h b
    have hb := h b
    by_cases he : b = bh
    · rw [he, incCount_self, incCount_self] at hb
      rw [he]
      exact Nat.le_of_succ_le_succ hb
    · rwa [incCount_of_ne he, incCount_of_ne he] at hb
  · intro h b
    by_cases he : b = bh
    · rw [he, incCount_self, incCount_self]
      exact Nat.succ_le_succ (h bh)
    · rw [incCount_of_ne he, incCount_of_ne he]
      exact h b

theorem incCount_inj : incCount m bh = incCount n bh ↔ m = n := by
  rw [le_antisymm_iff, le_antisymm_iff, incCount_le_incCount, incCount_le_incCount]

theorem lt_incCount (n : Bh → Nat) (bh : Bh) : n < incCount n bh := by
  refine lt_of_le_of_ne (fun b => ?_) fun h => ?_
  · by_cases he : b = bh
    · rw [he, incCount_self]
      exact Nat.le_succ _
    · rw [incCount_of_ne he]
  · have hb := congrFun h bh
    rw [incCount_self] at hb
    exact absurd hb (Nat.ne_of_lt (Nat.lt_succ_self _))

theorem incCount_decCount (h : 0 < n bh) : incCount (decCount n bh) bh = n := by
  unfold incCount decCount
  rw [Function.update_idem, Function.update_self, Nat.sub_add_cancel h, Function.update_eq_self]

end

namespace Counts

variable {base : Bh → Nat} {after : α → Bh → Nat} {mid : β → Bh → Nat} {x y : Call C α}

/-- A step that raises no alarm, and does the same to all counts. -/
theorem step {x : Call C α} (f : State C → α × State C) (hx : ∀ s, x.exec s = .ok (f s))
    (hq : ∀ s, x.Quiet Alarm.ofBuffers s)
    (h : ∀ s, base ≤ s.bcount → after (f s).1 ≤ (f s).2.bcount ∧
      ((f s).2.bcount = after (f s).1 ↔ s.bcount = base)) : Counts base x after := by
  refine ⟨fun s hs _ => ⟨fun he => ?_, fun a s' ha => ?_⟩⟩
  · rw [hx s] at he
    cases he
  · obtain ⟨hle, hiff⟩ := h s hs
    have hf : f s = (a, s') := Except.ok.inj ((hx s).symm.trans ha)
    rw [hf] at hle hiff
    exact ⟨hle, hiff.trans (and_iff_left (hq s)).symm⟩

theorem pure {a : α} (h : base = after a) : Counts base (Pure.pure a : Call C α) after :=
  step (fun s => (a, s)) (fun _ => rfl) (Lib.Prog.quiet_pure a _) fun s hs =>
    ⟨h ▸ hs, by rw [h]⟩

theorem bind {x : Call C β} {f : β → Call C α} (hx : Counts base x mid)
    (hf : ∀ b, Counts (mid b) (f b) after) : Counts base (x >>= f) after := by
  refine ⟨fun s hs hq => ?_⟩
  obtain ⟨hqx, hqf⟩ := Lib.Prog.quiet_bind.mp hq
  obtain ⟨hbad, hok⟩ := hx.ends s hs hqx
  rw [Lib.Prog.exec_bind]
  cases he : x.exec s with
  | error e =>
    rw [he] at hbad
    refine ⟨fun h => hbad (congrArg Except.error (Except.error.inj h)), fun a s' h => ?_⟩
    cases h
  | ok p =>
    obtain ⟨b, s1⟩ := p
    obtain ⟨hle, hiff⟩ := hok b s1 he
    obtain ⟨hbad', hok'⟩ := (hf b).ends s1 hle (hqf b s1 he)
    refine ⟨hbad', fun a s' ha => ?_⟩
    obtain ⟨hle', hiff'⟩ := hok' a s' ha
    refine ⟨hle', hiff'.trans ?_⟩
    rw [hiff, and_assoc, Lib.Prog.quiet_bind]
    refine and_congr_right fun _ => and_congr_right fun _ => ⟨fun h a s'' h' => ?_, fun h => h b s1 he⟩
    rw [he] at h'
    cases h'
    exact h

theorem ite {c : Prop} [Decidable c] (hx : Counts base x after) (hy : Counts base y after) :
    Counts base (if c then x else y) after := by
  split
  · exact hx
  · exact hy

theorem when {c : Prop} [Decidable c] {x : Call C Unit} (hx : Counts base x fun _ => base) :
    Counts base (Lib.Prog.when c x) fun _ => base :=
  ite hx (pure rfl)

theorem read {f : State C → α} : Counts base (Lib.Prog.read f) fun _ => base :=
  step (fun s => (f s, s)) (fun _ => rfl) (fun _ => nofun) fun _ hs => ⟨hs, Iff.rfl⟩

theorem modify {f : State C → State C} (h : ∀ s, (f s).bcount = s.bcount) :
    Counts base (Lib.Prog.modify f) fun _ => base :=
  step (fun s => ((), f s)) (fun _ => rfl) (fun _ => nofun) fun s hs =>
    ⟨(h s).symm ▸ hs, by rw [h]⟩

theorem stop {e : Stop} (h : e ≠ .freeBuffer) : Counts base (Lib.Prog.stop e : Call C α) after :=
  ⟨fun _ _ _ => ⟨fun he => h (Sum.inl.inj (Except.error.inj he)), nofun⟩⟩

/-- Nothing is said of what comes after a hole. -/
theorem hole {f : Unit → Call C α} : Counts base (alarm .hole >>= f) after :=
  ⟨fun _ _ hq => absurd rfl ((Lib.Prog.quiet_bind.mp hq).1 .hole)⟩

/-- References are lost: the counts after the alarm are higher than they should be. -/
theorem leak {d : Alarm} {f : Unit → Call C α} {lost : α → Bh → Nat} (hd : d.ofBuffers = true)
    (hf : Counts base (f ()) lost) (hlt : ∀ a, after a < lost a) :
    Counts base (alarm d >>= f) after := by
  refine ⟨fun s hs hq => ?_⟩
  have hexec : (alarm d : Call C Unit).exec s = .ok ((), s) := rfl
  obtain ⟨hbad, hok⟩ := hf.ends s hs ((Lib.Prog.quiet_bind.mp hq).2 () s hexec)
  refine ⟨hbad, fun a s' ha => ?_⟩
  have hle := (hok a s' ha).1
  refine ⟨le_trans (le_of_lt (hlt a)) hle, fun h => ?_, fun h => ?_⟩
  · exact absurd (h ▸ hle) (not_le_of_gt (hlt a))
  · have hheard : (alarm d : Call C Unit).run Alarm.ofBuffers s = .error (.inr d) := by
      show (if d.ofBuffers = true then _ else _) = _
      rw [if_pos hd]
    exact absurd hheard ((Lib.Prog.quiet_bind.mp h.2).1 d)

/-- An alarm that is not about buffers. -/
theorem unheard {d : Alarm} (hd : d.ofBuffers = false) :
    Counts base (alarm d : Call C Unit) fun _ => base := by
  refine step (fun s => ((), s)) (fun _ => rfl) (fun s e he => ?_) fun _ hs => ⟨hs, Iff.rfl⟩
  change (if d.ofBuffers = true then _ else _) = _ at he
  rw [hd, if_neg Bool.false_ne_true] at he
  cases he

theorem forEach {g : ι → Call C Unit} {is : List ι} (h : ∀ i, Counts base (g i) fun _ => base) :
    Counts base (Lib.Prog.forEach g is) fun _ => base := by
  induction is with
  | nil => exact pure rfl
  | cons i is ih => exact bind (h i) fun _ => ih

theorem hold {bh : Bh} : Counts (C := C) base (hold bh) fun _ => incCount base bh :=
  step (fun s => ((), { s with bcount := incCount s.bcount bh })) (fun _ => rfl) (fun _ => nofun)
    fun _ hs => ⟨incCount_le_incCount.mpr hs, incCount_inj⟩

/-- What was taken is given back. -/
theorem brelse {bh : Bh} : Counts (C := C) (incCount base bh) (brelse bh) fun _ => base := by
  refine ⟨fun s hs _ => ?_⟩
  have hpos : 0 < s.bcount bh := by
    have h := hs bh
    rw [incCount_self] at h
    exact Nat.lt_of_lt_of_le (Nat.succ_pos _) h
  have hrun : ∀ watch, (FileSys.brelse bh : Call C Unit).run watch s =
      .ok ((), { s with bcount := decCount s.bcount bh }) := by
    intro watch
    show (if s.bcount bh = 0 then _ else _ : Call C Unit).run watch s = _
    rw [if_neg (Nat.ne_of_gt hpos)]
    rfl
  refine ⟨fun he => ?_, fun a s' ha => ?_⟩
  · rw [Lib.Prog.exec, hrun] at he
    cases he
  · rw [Lib.Prog.exec, hrun] at ha
    cases ha
    rw [← incCount_decCount hpos] at hs
    refine ⟨incCount_le_incCount.mp hs, ?_⟩
    have hquiet : (FileSys.brelse bh : Call C Unit).Quiet Alarm.ofBuffers s := by
      intro d hd
      rw [hrun] at hd
      cases hd
    rw [and_iff_left hquiet, ← @incCount_inj _ _ bh, incCount_decCount hpos]

end Counts

/-! ## State -/

section

variable {base : Bh → Nat} (i : Nat) (bh : Bh) (dev : Dev) (block : Block)

theorem editInode_balanced (f : MInode → MInode) : Balanced (editInode i f : Call C Unit) :=
  fun _ => .modify fun _ => rfl

theorem currentTime_balanced : Balanced (currentTime : Call C (BitVec 32)) := fun _ =>
  .bind .read fun _ => .bind (.modify fun _ => rfl) fun _ => .pure rfl

theorem superOf_balanced : Balanced (superOf dev : Call C SuperBlock) := fun _ =>
  .bind .read fun sb =>
    match sb with
    | none => .stop nofun
    | some _ => .pure rfl

variable [Contents C]

theorem setBytes_balanced (data : Nat → Byte) : Balanced (setBytes bh data : Call C Unit) :=
  fun _ => .modify fun _ => rfl

theorem writeInode_balanced : Balanced (writeInode i : Call C Unit) := by
  intro base
  refine .bind .read fun h => .ite (.pure rfl) ?_
  refine .bind (superOf_balanced h.dev base) fun sb => .bind .hold fun _ => ?_
  exact .bind (.modify fun _ => rfl) fun _ => .brelse

theorem syncInodes_balanced : Balanced (syncInodes : Call C Unit) := fun base =>
  .forEach fun i => .bind .read fun _ => .when (writeInode_balanced i base)

theorem getblk_counts : Counts (C := C) base (getblk dev block) (incCount base) := by
  refine .bind .read fun _ => .bind (.modify fun _ => rfl) fun _ => ?_
  exact .bind (.when (syncInodes_balanced base)) fun _ => .bind .hold fun _ => .pure rfl

theorem bread_counts : Counts (C := C) base (bread dev block) (incCount base) :=
  getblk_counts dev block

theorem breada_counts : Counts (C := C) base (breada dev block) (incCount base) := by
  refine .bind (getblk_counts dev block) fun bh => .bind (.forEach fun k => ?_) fun _ => .pure rfl
  exact .bind (getblk_counts dev (block + k)) fun _ => .brelse

end

/-! ## `bitmap.c`, `truncate.c` and `inode.c` -/

section

variable [Contents C] {base : Bh → Nat} (i : Nat) (dev : Dev) (block : Zone)

theorem freeBlock_balanced : Balanced (freeBlock dev block : Call C Unit) := by
  intro base
  refine .bind (superOf_balanced dev base) fun sb => .ite (.stop nofun) ?_
  refine .bind .read fun n => .ite (.leak (d := .inUse) rfl .hold fun _ => lt_incCount base _) ?_
  dsimp only
  split
  · exact .stop nofun
  · refine .bind .read fun data => .ite ?_ (.stop nofun)
    exact setBytes_balanced _ _ base

theorem newBlock_balanced : Balanced (newBlock dev : Call C Zone) := by
  intro base
  refine .bind (superOf_balanced dev base) fun sb => .bind .read fun zero => ?_
  split
  · exact .pure rfl
  · refine .bind .read fun data => .bind (setBytes_balanced _ _ base) fun _ => ?_
    refine .ite (.pure rfl) (.bind (getblk_counts _ _) fun bh => .bind .read fun count => ?_)
    refine .ite (.stop nofun) (.bind (setBytes_balanced _ _ _) fun _ => ?_)
    exact .bind .brelse fun _ => .pure rfl

theorem freeInode_balanced : Balanced (freeInode i : Call C Unit) := by
  intro base
  refine .bind .read fun h => .ite (editInode_balanced i _ base) ?_
  refine .ite (.stop nofun) (.bind (superOf_balanced _ base) fun sb => .ite (.stop nofun) ?_)
  split
  · exact .stop nofun
  · refine .bind .read fun data => .bind (setBytes_balanced _ _ base) fun _ => ?_
    exact editInode_balanced i _ base

theorem freeTable_balanced {each : Zone → Call C Unit} (heach : ∀ b, Balanced (each b)) :
    Balanced (freeTable each dev block) := by
  have hloop : ∀ bh, Balanced (freeEntries each bh) := fun bh base =>
    .forEach fun k => .bind .read fun data => .when (heach _ base)
  intro base
  refine .when (.bind (bread_counts dev _) fun bh => .bind (hloop bh _) fun _ => ?_)
  exact .bind .brelse fun _ => freeBlock_balanced dev block base

theorem freeInd_balanced : Balanced (freeInd dev block : Call C Unit) :=
  freeTable_balanced dev block (freeBlock_balanced dev)

theorem freeDind_balanced : Balanced (freeDind dev block : Call C Unit) :=
  freeTable_balanced dev block (freeInd_balanced dev)

theorem truncate_balanced : Balanced (truncate i : Call C Unit) := by
  intro base
  refine .bind .read fun h => .when (.bind (.forEach fun k => ?_) fun _ => ?_)
  · refine .bind .read fun h => .when ?_
    exact .bind (freeBlock_balanced _ _ base) fun _ => editInode_balanced i _ base
  · refine .bind .read fun h => .bind (freeInd_balanced _ _ base) fun _ => ?_
    refine .bind (freeDind_balanced _ _ base) fun _ => .bind (currentTime_balanced base) fun t => ?_
    exact editInode_balanced i _ base

theorem fillZone_balanced (k : Nat) (create : Bool) : Balanced (fillZone i k create : Call C Zone) := by
  intro base
  refine .bind .read fun h => .ite ?_ (.pure rfl)
  refine .bind (newBlock_balanced _ base) fun b => ?_
  exact .bind (.when (editInode_balanced i _ base)) fun _ => .pure rfl

theorem fillEntry_balanced (k : Nat) (create : Bool) :
    Balanced (fillEntry dev block k create : Call C Zone) := by
  intro base
  refine .bind (bread_counts dev _) fun bh => .bind .read fun data => .ite ?_ ?_
  · refine .bind (newBlock_balanced dev _) fun b => .bind (.when ?_) fun _ => ?_
    · exact .bind .read fun data => setBytes_balanced bh _ _
    · exact .bind .brelse fun _ => .pure rfl
  · exact .bind .brelse fun _ => .pure rfl

theorem bmap_balanced (n : Nat) (create : Bool) : Balanced (bmap i n create : Call C Zone) := by
  intro base
  refine .bind .read fun h => .ite (.stop nofun) (.ite ?_ (.ite ?_ ?_))
  · exact fillZone_balanced i n create base
  · refine .bind (fillZone_balanced i 7 create base) fun ind => .ite (.pure rfl) ?_
    exact fillEntry_balanced _ ind _ create base
  · refine .bind (fillZone_balanced i 8 create base) fun dind => .ite (.pure rfl) ?_
    refine .bind (fillEntry_balanced _ dind _ create base) fun ind => .ite (.pure rfl) ?_
    exact fillEntry_balanced _ ind _ create base

theorem iputRepeat_balanced (n : Nat) : Balanced (iputRepeat i n : Call C Unit) := by
  intro base
  induction n with
  | zero => exact .stop nofun
  | succ n ih =>
    have hdrop : Counts (C := C) base (editInode i MInode.dropCount) fun _ => base :=
      editInode_balanced i _ base
    refine .bind .read fun h => .ite hdrop (.ite ?_ (.ite ?_ hdrop))
    · exact .bind (truncate_balanced i base) fun _ => freeInode_balanced i base
    · exact .bind (writeInode_balanced i base) fun _ => ih

theorem iput_balanced : Balanced (iput i : Call C Unit) := by
  intro base
  have hedit : ∀ f, Counts (C := C) base (editInode i f) fun _ => base := fun f =>
    editInode_balanced i f base
  refine .bind .read fun h => .ite (.stop nofun) (.ite ?_ (.ite (hedit _) ?_))
  · exact .ite (hedit _) (hedit _)
  · exact .bind (.when (syncInodes_balanced base)) fun _ => iputRepeat_balanced i 2 base

theorem getEmptyInode_balanced : Balanced (getEmptyInode : Call C Nat) := by
  intro base
  refine .bind .read fun found => .bind (.modify fun _ => rfl) fun _ => ?_
  split
  · exact .stop nofun
  · next i _ =>
    refine .bind (writeInode_balanced i base) fun _ => .bind .read fun h => ?_
    exact .ite (.stop nofun) (.bind (editInode_balanced i _ base) fun _ => .pure rfl)

theorem readInode_balanced : Balanced (readInode i : Call C Unit) := by
  intro base
  refine .bind .read fun h => .bind (superOf_balanced h.dev base) fun sb => ?_
  exact .bind .hold fun _ => .bind (.modify fun _ => rfl) fun _ => .brelse

theorem igetLoop_balanced (n : Nat) (nr : Num) : Balanced (igetLoop i n dev nr : Call C Nat) := by
  intro base
  induction n generalizing dev nr with
  | zero => exact .stop nofun
  | succ n ih =>
    refine .bind .read fun found => ?_
    split
    · refine .bind (editInode_balanced i _ base) fun _ => .bind (readInode_balanced i base) fun _ => ?_
      exact .pure rfl
    · next j =>
      refine .bind (editInode_balanced j _ base) fun _ => .bind .read fun h => ?_
      refine .ite (.bind .read fun mounted => ?_) (.bind (iput_balanced i base) fun _ => .pure rfl)
      split
      · exact .bind (iput_balanced i base) fun _ => .pure rfl
      · exact .bind (iput_balanced j base) fun _ => .bind .read fun dev => ih dev 1

theorem iget_balanced (nr : Num) : Balanced (iget dev nr : Call C Nat) := fun base =>
  .ite (.stop nofun) (.bind (getEmptyInode_balanced base) fun empty => igetLoop_balanced empty dev 9
    nr base)

theorem newInode_balanced : Balanced (newInode dev : Call C (Option Nat)) := by
  intro base
  refine .bind (getEmptyInode_balanced base) fun i => .bind (superOf_balanced dev base) fun sb => ?_
  refine .bind .read fun zero => ?_
  split
  · exact .bind (iput_balanced i base) fun _ => .pure rfl
  · refine .ite (.bind (iput_balanced i base) fun _ => .pure rfl) ?_
    refine .bind .read fun data => .bind (setBytes_balanced _ _ base) fun _ => ?_
    refine .bind .read fun found => .bind (.when (.unheard rfl)) fun _ => ?_
    refine .bind .read fun me => .bind (currentTime_balanced base) fun t => ?_
    exact .bind (editInode_balanced i _ base) fun _ => .pure rfl

end

/-! ## `namei.c` -/

variable [Contents C]

section

variable {base : Bh → Nat} (dir : Nat) (name : List Byte) (len : Nat) (marked : Bool)

omit [Contents C] in
theorem touch_balanced : Balanced (touch dir marked : Call C Unit) := fun base =>
  .bind (currentTime_balanced base) fun _ => .bind .read fun _ =>
    .bind (.when (.unheard rfl)) fun _ => editInode_balanced dir _ base

theorem tryEntry_balanced (i : Nat) (bh : Bh) :
    Balanced (tryEntry dir name marked i bh : Call C Bool) := by
  intro base
  refine .bind .read fun h => .bind (.when ?_) fun _ => ?_
  · exact .bind (.bind .read fun _ => setBytes_balanced bh _ base) fun _ => editInode_balanced dir _ base
  · refine .bind .read fun data => .ite ?_ (.pure rfl)
    refine .bind (touch_balanced dir marked base) fun _ => .bind (setBytes_balanced bh _ base) fun _ => ?_
    exact .pure rfl

theorem addLoop_counts (n i : Nat) (bh : Bh) :
    Counts (C := C) (incCount base bh) (addLoop dir name marked n i bh) fun found =>
      withBuffer base (found.map Prod.fst) := by
  induction n generalizing i bh with
  | zero => exact .stop nofun
  | succ n ih =>
    refine .ite (.bind .brelse fun _ => .bind (bmap_balanced dir _ true base) fun block => ?_) ?_
    · refine .ite (.pure rfl) (.bind .read fun h => ?_)
      refine .bind (bread_counts _ _) fun bh => .bind (tryEntry_balanced dir name marked i bh _)
        fun b => ?_
      exact .ite (.pure rfl) (ih (i + 1) bh)
    · refine .bind (tryEntry_balanced dir name marked i bh _) fun b => ?_
      exact .ite (.pure rfl) (ih (i + 1) bh)

/-- `add_entry` keeps the buffer of the new entry. -/
theorem addEntry_counts : Counts (C := C) base (addEntry dir name marked) fun found =>
    withBuffer base (found.map Prod.fst) := by
  refine .bind .read fun h => .ite (.pure rfl) (.ite (.pure rfl) ?_)
  exact .bind (bread_counts _ _) fun bh => addLoop_counts dir _ marked _ 0 bh

theorem emptyLoop_counts (i n nr : Nat) (bh : Bh) :
    Counts (C := C) (incCount base bh) (emptyLoop i len n nr bh) fun _ => base := by
  induction n generalizing nr bh with
  | zero => exact .stop nofun
  | succ n ih =>
    refine .ite (.bind .brelse fun _ => .pure rfl) (.ite ?_ ?_)
    · refine .bind .brelse fun _ => .bind (bmap_balanced i _ false base) fun block => ?_
      refine .ite .hole (.bind .read fun h => ?_)
      refine .bind (bread_counts _ _) fun bh => .bind .read fun data => ?_
      exact .ite (.bind .brelse fun _ => .pure rfl) (ih (nr + 1) bh)
    · refine .bind .read fun data => ?_
      exact .ite (.bind .brelse fun _ => .pure rfl) (ih (nr + 1) bh)

theorem isEmptyDir_balanced (i : Nat) : Balanced (isEmptyDir i : Call C Bool) := by
  intro base
  refine .bind .read fun h => .ite (.pure rfl) ?_
  refine .bind (bread_counts _ _) fun bh => .bind .read fun data => ?_
  have hlost : Counts (C := C) (incCount base bh) (pure false) fun _ => incCount base bh := .pure rfl
  refine .ite (.leak (d := .malformed) rfl hlost fun _ => ?_) (emptyLoop_counts _ i _ 2 bh)
  exact lt_incCount base bh

end

/-- The references that a program takes and gives back are a logic. -/
def counts : Logic C where
  Holds := Counts
  pure := .pure
  bind := .bind
  stop := .stop
  read := .read
  editTask _ _ := .modify fun _ => rfl
  currentTime := currentTime_balanced
  superOf := superOf_balanced
  setBytes bh data := setBytes_balanced bh data
  getblk dev block _ := getblk_counts dev block
  breada dev block _ := breada_counts dev block
  brelse := .brelse
  mark i f := editInode_balanced i (MInode.mark f)
  addCount i n := editInode_balanced i (MInode.addCount n)
  setDirt i := editInode_balanced i _
  touch i := touch_balanced i false
  bmap := bmap_balanced
  truncate := truncate_balanced
  iput := iput_balanced
  iget := iget_balanced
  addEntry dir name _ := addEntry_counts dir name false
  isEmptyDir := isEmptyDir_balanced

/-! ## The calls -/

section

variable {base : Bh → Nat} (dir i : Nat) (flag : BitVec 32) (mode : BitVec 16) (path : List Byte)

theorem discard_balanced (f : BitVec 8 → BitVec 8) : Balanced (discard i f : Call C Unit) := fun base =>
  .bind (editInode_balanced i _ base) fun _ => iput_balanced i base

theorem createFile_balanced : Balanced (createFile dir path flag mode : Call C (Int × Option Nat)) := by
  intro base
  refine .ite (put_return counts dir base) (.bind (permission_balanced counts dir _ base) fun may => ?_)
  refine .ite (put_return counts dir base) (.bind .read fun h => ?_)
  refine .bind (newInode_balanced _ base) fun found => ?_
  match found with
  | none => exact put_return counts dir base
  | some i =>
    refine .bind .read fun me => .bind (editInode_balanced i _ base) fun _ => ?_
    refine .bind (addEntry_counts dir path false) fun place => ?_
    match place with
    | none => exact .bind (discard_balanced i _ base) fun _ => put_return counts dir base
    | some (bh, e) =>
      refine .bind .read fun h => .bind (writeEntryInode_balanced counts bh e _ _) fun _ => ?_
      exact .bind .brelse fun _ => put_return counts dir base

theorem sysMknod_balanced (dev : BitVec 16) : Balanced (sysMknod path mode dev : Call C Int) := by
  intro base
  refine .bind (makeIn_balanced counts path base) fun res => ?_
  match res with
  | (e, none) => exact .pure rfl
  | (_, some (dir, basename)) =>
    refine .bind .read fun h => .bind (newInode_balanced _ base) fun found => ?_
    match found with
    | none => exact put_return counts dir base
    | some i =>
      refine .bind (currentTime_balanced base) fun t => .bind (editInode_balanced i _ base) fun _ => ?_
      refine .bind (addEntry_counts dir basename false) fun place => ?_
      match place with
      | none =>
        exact .bind (iput_balanced dir base) fun _ => .bind (discard_balanced i _ base) fun _ => .pure rfl
      | some (bh, e) =>
        refine .bind .read fun h => .bind (writeEntryInode_balanced counts bh e _ _)
          fun _ => ?_
        refine .bind (iput_balanced dir _) fun _ => .bind (iput_balanced i _) fun _ => ?_
        exact .bind .brelse fun _ => .pure rfl

theorem sysMkdir_balanced : Balanced (sysMkdir path mode : Call C Int) := by
  intro base
  refine .bind (makeIn_balanced counts path base) fun res => ?_
  match res with
  | (e, none) => exact .pure rfl
  | (_, some (dir, basename)) =>
    refine .bind .read fun h => .bind (newInode_balanced _ base) fun found => ?_
    match found with
    | none => exact put_return counts dir base
    | some i =>
      refine .bind (currentTime_balanced base) fun t => .bind (editInode_balanced i _ base) fun _ => ?_
      refine .bind .read fun self => .bind (newBlock_balanced _ base) fun b => ?_
      refine .ite ?_ (.bind (editInode_balanced i _ base) fun _ => ?_)
      · exact .bind (iput_balanced dir base) fun _ => .bind (discard_balanced i _ base) fun _ => .pure rfl
      refine .bind (bread_counts _ _) fun dirBlock => .bind .read fun data => ?_
      refine .bind .read fun parent => .bind (setBytes_balanced dirBlock _ _)
        fun _ => ?_
      refine .bind (editInode_balanced i _ _) fun _ => .bind .brelse fun _ => ?_
      refine .bind .read fun t => .bind (editInode_balanced i _ base) fun _ => ?_
      refine .bind (addEntry_counts dir basename true) fun place => ?_
      match place with
      | none =>
        refine .bind (iput_balanced dir base) fun _ => .bind (freeBlock_balanced _ b base) fun _ => ?_
        exact .bind (discard_balanced i _ base) fun _ => .pure rfl
      | some (bh, e) =>
        refine .bind (writeEntryInode_balanced counts bh e _ _) fun _ => .bind (editInode_balanced dir _ _)
          fun _ => ?_
        refine .bind (iput_balanced dir _) fun _ => .bind (iput_balanced i _) fun _ => ?_
        exact .bind .brelse fun _ => .pure rfl

theorem calls_balanced (c : SysCall) : Balanced (c.run : Call C Unit) :=
  SysCall.balanced counts (fun dir basename flag mode => createFile_balanced dir flag mode basename)
    (fun pathname mode => sysMkdir_balanced mode pathname)
    (fun filename mode dev => sysMknod_balanced mode filename dev) c

/-- What is expected of a call: when it returns every count is what it was, and it releases no free
buffer. -/
def SysCall.Returned (c : SysCall) (s : State C) : Prop :=
  (∀ s', c.run.exec s = .ok ((), s') → s'.bcount = s.bcount) ∧
    c.run.exec s ≠ .error (.inl .freeBuffer)

/-- A call that raises no alarm about buffers gives back exactly the references it takes. One that
raises an alarm, but meets no hole, does so only if it does not return. -/
theorem references_returned (c : SysCall) (s : State C) :
    (c.run.Quiet Alarm.ofBuffers s → c.Returned s) ∧
      (c.run.Quiet Alarm.isHole s →
        (c.Returned s ↔ c.run.Quiet Alarm.ofBuffers s ∨ ∀ s', c.run.exec s ≠ .ok ((), s'))) := by
  have hexact : c.run.Quiet Alarm.isHole s →
      (c.Returned s ↔ c.run.Quiet Alarm.ofBuffers s ∨ ∀ s', c.run.exec s ≠ .ok ((), s')) := by
    intro hq
    obtain ⟨hbad, hok⟩ := (calls_balanced c s.bcount).ends s le_rfl hq
    constructor
    · rintro ⟨hsame, -⟩
      by_cases hret : ∃ s', c.run.exec s = .ok ((), s')
      · obtain ⟨s', hs'⟩ := hret
        exact .inl ((hok () s' hs').2.mp (hsame s' hs')).2
      · exact .inr fun s' hs' => hret ⟨s', hs'⟩
    · rintro (hquiet | hret)
      · exact ⟨fun s' hs' => (hok () s' hs').2.mpr ⟨rfl, hquiet⟩, hbad⟩
      · exact ⟨fun s' hs' => absurd hs' (hret s'), hbad⟩
  refine ⟨fun hquiet => ?_, hexact⟩
  refine (hexact (Lib.Prog.Quiet.mono hquiet fun d hd => ?_)).mpr (.inl hquiet)
  cases d with
  | hole => rfl
  | inUse | malformed | unmarked | taken => cases hd

end

/-! ## A directory without "." and ".." -/

/-- Only the super blocks have references to buffers, those of their bitmaps. -/
def OnlyMaps (s : State C) : Prop :=
  ∀ bh, s.bcount bh ≠ 0 → ∃ k n, (s.super k).dev = bh.1 ∧
    ((s.super k).imap n = some bh.2 ∨ (s.super k).zmap n = some bh.2)

/-- The inode of a directory with two entries, in block `b`. -/
def directory (b : Zone) : DInode := ⟨0o040755, 0, 32, 0, 0, 2, fun k => if k = 0 then b else 0⟩

/-- The blocks of a disk: the bitmaps in 2 and 3, the inode table in 4, the root directory in 5. The
entry "d" of the root directory is inode 2, a directory whose block 6 is clear. -/
def noDotsByte (block : Block) (n : Nat) : Byte :=
  if block = 2 ∨ block = 3 then if n = 0 then 7 else 0
  else if block = 4 then
    if n < 32 then (directory 5).byte n else if n < 64 then (directory 6).byte (n - 32) else 0
  else if block = 5 then if n = 0 then 2 else if n = 2 then 100 else 0
  else 0

/-- The super user has this disk mounted as root, and nothing else is in use. -/
def noDots : State Bytes where
  contents := ⟨fun dev block n => if dev = 0x301 then noDotsByte block n else 0⟩
  bcount bh := if bh = (0x301, 2) ∨ bh = (0x301, 3) then 1 else 0
  inode i := if i = 0 then ⟨directory 5, 0x301, 1, 3, false, false, false⟩ else .zero
  lastInode := 0
  super k := if k = 0 then
      ⟨0x301, 32, 20, 1, 1, 5, fun n => if n = 0 then some 2 else none,
        fun n => if n = 0 then some 3 else none, none⟩
    else ⟨0, 0, 0, 0, 0, 0, fun _ => none, fun _ => none, none⟩
  task := ⟨0, 0, 0, some 0, some 0, none, true, -1⟩
  time := 0
  crowded _ := false
  clock _ := 1

theorem noDots_onlyMaps : OnlyMaps noDots := by
  intro bh h
  refine ⟨0, 0, ?_⟩
  have hbh : bh = (0x301, 2) ∨ bh = (0x301, 3) := by
    by_contra hne
    exact h (if_neg hne)
  rcases hbh with rfl | rfl
  · exact ⟨rfl, .inl rfl⟩
  · exact ⟨rfl, .inr rfl⟩

theorem references_returned_stat : (SysCall.stat [47, 100]).Returned noDots :=
  (references_returned (.stat [47, 100]) noDots).1 (by decide +kernel)

/-- `rmdir("/d")` returns `-ENOTEMPTY`, and has a reference to block 6 for ever. -/
theorem references_kept : ∃ s : State Bytes, OnlyMaps s ∧ ¬ (SysCall.rmdir [47, 100]).Returned s := by
  refine ⟨noDots, noDots_onlyMaps, fun ⟨hsame, _⟩ => ?_⟩
  have hrun : ((SysCall.rmdir [47, 100]).run.exec noDots).toOption.map
      (fun r => r.2.bcount (0x301, 6)) = some 1 := by decide +kernel
  obtain ⟨⟨_, s'⟩, hs', hcount⟩ := Option.map_eq_some_iff.mp hrun
  have hexec : (SysCall.rmdir [47, 100]).run.exec noDots = .ok ((), s') := by
    cases he : (SysCall.rmdir [47, 100]).run.exec noDots with
    | ok r =>
      rw [he] at hs'
      rw [Option.some.inj hs']
    | error e =>
      rw [he] at hs'
      cases hs'
  have hzero : s'.bcount (0x301, 6) = 0 := congrFun (hsame s' hexec) (0x301, 6)
  rw [hzero] at hcount
  cases hcount

end Linux011.FileSys
