import Linux011.FileSys.Logic
import Linux011.FileSys.Marks
import Linux011.Lib.Machine

/-!
# Write-back is complete

After every call an inode that is not as its slot on the disk is dirty, so that whoever takes it out of
the table writes it back. It is so in all runs in which `file_write`, and `add_entry` for `open`, `link`
and `mknod`, never set the time of a clean inode, and in which `new_inode` gets a number that no inode
in the table has, which is up to the bitmap of the inodes. Elsewhere the time of a file that is written
without growing is lost as soon as the inode leaves the table.
-/

namespace Linux011.FileSys

open Lib (Triple Keeps Reach run)
open Lib.Prog (stop alarm when forEach)

variable {α : Type} {watch : Alarm → Bool}

/-! ## Times that are set -/

/-- A clean inode gets the time it has, if the alarm is heard and is not raised. -/
theorem touch_good (i : Nat) : Triple Alarm.ofMarks Good (touch i false : Call Tables Unit)
    fun _ => Good := by
  refine .bind (currentTime_apart.still.sound.triple) fun t => .bind Triple.read fun h => ?_
  refine .bind (Q := fun _ s => ((s.inode i).dirt = false → (s.inode i).disk.mtime = t) ∧ Good s)
    (.when (fun _ => .alarm rfl) fun hquiet s hs => ⟨fun hdirt => ?_, hs.2⟩)
      fun _ => .modify fun s hs => ?_
  · obtain ⟨rfl, -⟩ := hs
    by_contra hne
    exact hquiet ⟨rfl, hdirt, hne⟩
  · refine GoodBut.edit hs.2 rfl rfl rfl (fun _ _ hx => hx) fun _ hdev hdirt => ?_
    have hsame : { (s.inode i).disk with mtime := t } = (s.inode i).disk := by rw [← hs.1 hdirt]
    show s.slot _ _ = some { (s.inode i).disk with mtime := t }
    rw [hsame]
    exact hs.2.clean i nofun hdev hdirt

theorem touch_except (i : Nat) :
    Triple watch Good (touch i true : Call Tables Unit) fun _ => GoodBut (some i) := by
  refine .bind (currentTime_apart.still.sound.triple) fun t => ?_
  refine .bind ((getInode_still i).sound.triple) fun h => ?_
  refine .bind (Sound.triple (.when fun hc => nomatch hc.1)) fun _ => ?_
  exact .modify fun s hs => (hs.except i).edit rfl rfl rfl (fun _ _ hx => hx) fun hi => absurd rfl hi

section

variable {P Q : State Tables → Prop} {dir : Nat} {name : List Byte} {marked : Bool}

/-- `P` until the time of the directory is set, `Q` then. -/
theorem tryEntry_triple (hP : Steady P) (hQ : Framed Q)
    (htouch : Triple watch P (touch dir marked : Call Tables Unit) fun _ => Q) (i : Nat) (bh : Bh) :
    Triple watch P (tryEntry dir name marked i bh : Call Tables Bool) fun r => if r then Q else P := by
  have hgrow : Marks watch (do
      writeEntryInode bh (i % 64) 0
      editInode dir (MInode.mark fun d => { d with size := BitVec.ofNat 32 (16 * (i + 1)) }) :
        Call Tables Unit) :=
    .bind (writeEntryInode_still bh _ _).marks fun _ => editInode_marks dir fun _ => rfl
  refine .bind ((getInode_still dir).marks.keeps hP) fun h => ?_
  refine .bind (Keeps.keeps (.when fun _ => hgrow) hP) fun _ => ?_
  refine .bind ((getBytes_still bh).marks.keeps hP) fun data => .ite (fun _ => ?_) fun _ => ?_
  · exact .bind htouch fun _ => .bind ((setBytes_apart bh _).keeps hQ) fun _ => .pure fun s hs => hs
  · exact .pure fun s hs => hs

theorem addLoop_triple (hP : Steady P) (hQ : Framed Q)
    (htouch : Triple watch P (touch dir marked : Call Tables Unit) fun _ => Q) (n i : Nat) (bh : Bh) :
    Triple watch P (addLoop dir name marked n i bh : Call Tables (Option (Bh × Nat))) fun r =>
      r.elim P fun _ => Q := by
  induction n generalizing i bh with
  | zero => exact .stop
  | succ n ih =>
    have hround : ∀ bh, Triple watch P (do
        if ← tryEntry dir name marked i bh then return some (bh, i % 64)
        else addLoop dir name marked n (i + 1) bh : Call Tables (Option (Bh × Nat))) fun r =>
          r.elim P fun _ => Q := by
      refine fun bh => .bind (tryEntry_triple hP hQ htouch i bh) fun found => ?_
      cases found with
      | true => exact .pure fun s hs => hs
      | false => exact ih (i + 1) bh
    refine .ite (fun _ => ?_) fun _ => hround bh
    refine .bind ((brelse_still bh).marks.keeps hP) fun _ => ?_
    refine .bind ((createDiskBlock_marks dir _).keeps hP) fun block => ?_
    refine .ite (fun _ => .pure fun _ hs => hs) fun _ => ?_
    refine .bind ((getInode_still dir).marks.keeps hP) fun h => ?_
    exact .bind ((getblk_still h.dev _).marks.keeps hP) fun bh => hround bh

theorem addEntry_triple (hP : Steady P) (hQ : Framed Q)
    (htouch : Triple watch P (touch dir marked : Call Tables Unit) fun _ => Q) :
    Triple watch P (addEntry dir name marked : Call Tables (Option (Bh × Nat))) fun r =>
      r.elim P fun _ => Q := by
  refine .bind ((getInode_still dir).marks.keeps hP) fun h => .ite (fun _ => .pure fun s hs => hs)
    fun _ => ?_
  refine .ite (fun _ => .pure fun s hs => hs) fun _ => ?_
  exact .bind ((getblk_still h.dev _).marks.keeps hP) fun bh => addLoop_triple hP hQ htouch _ 0 bh

end

/-- `add_entry` for a caller that does not mark the directory; a new inode stays new if it fails. -/
theorem addEntry_fresh (dir : Nat) (name : List Byte) (p : BitVec 8 → Prop) (i : Nat) :
    Triple Alarm.ofMarks (fun s => Good s ∧ Fresh p i s)
      (addEntry dir name false : Call Tables (Option (Bh × Nat))) fun r =>
        r.elim (fun s => Good s ∧ Fresh p i s) fun _ => Good :=
  addEntry_triple ((GoodBut.steady none).and (Fresh.steady p i)) (GoodBut.stable none).toFramed
    ((touch_good dir).pre fun _ hs => hs.1)

theorem addEntry_sound (dir : Nat) (name : List Byte) :
    Sound Alarm.ofMarks (addEntry dir name false : Call Tables (Option (Bh × Nat))) := by
  refine .of_triple (.post (addEntry_triple (GoodBut.steady none) (GoodBut.stable none).toFramed
    (touch_good dir)) fun found s hs => ?_)
  cases found with
  | none => exact hs
  | some found => exact hs

theorem truncate_sound (i : Nat) : Sound watch (truncate i : Call Tables Unit) :=
  .of_triple (truncate_triple (GoodBut.editable i) (fun _ hs => hs.except i) (fun _ hs => hs)
    fun _ _ hs => hs.markExcept _)

/-! ## Calls on names -/

/-- The programs after which no inode is an exception are a logic; buffers do not matter. -/
def marks : Logic Tables where
  Holds _ x _ := Sound Alarm.ofMarks x
  pure _ := .pure
  bind := .bind
  stop _ := .stop
  read := .read
  editTask f _ := (editTask_still f).sound
  currentTime _ := currentTime_apart.still.sound
  superOf dev _ := (superOf_still dev).sound
  setBytes bh data _ := (setBytes_still bh data).sound
  getblk dev block _ := (getblk_still dev block).sound
  breada dev block _ := (breada_still dev block).sound
  brelse {_ bh} := (brelse_still bh).sound
  mark i f _ := editInode_mark_sound i f
  addCount i n _ := addCount_sound i n
  setDirt i _ := setDirt_sound i
  touch i _ := .of_triple (touch_good i)
  bmap i n create _ :=
    match create with
    | false => (getDiskBlock_still i n).sound
    | true => (createDiskBlock_marks i n).sound
  truncate i _ := truncate_sound i
  iput i _ := iput_sound i
  iget dev nr _ := iget_sound dev nr
  addEntry dir name _ := addEntry_sound dir name
  isEmptyDir i _ := (isEmptyDir_still i).sound

theorem Logic.Balanced.sound {x : Call Tables α} (hx : marks.Balanced x) : Sound Alarm.ofMarks x := hx 0

theorem put_sound {answer : α} (i : Nat) :
    Sound watch (do iput i; return answer : Call Tables α) :=
  .bind (iput_sound i) fun _ => .pure

/-- A call that makes an inode. -/
theorem newInode_sound {k : Option Nat → Call Tables α} {dev : Dev} (hnone : Sound Alarm.ofMarks (k none))
    (hsome : ∀ i, Steady (fun s => Good s ∧ Fresh (· = 1) i s) →
      Triple Alarm.ofMarks (fun s => Good s ∧ Fresh (· = 1) i s) (k (some i)) fun _ => Good) :
    Sound Alarm.ofMarks (newInode dev >>= k) := by
  refine .of_triple (.bind (newInode_triple dev) fun new => ?_)
  cases new with
  | none => exact hnone.triple.pre fun s hs => hs.1
  | some i =>
    exact (hsome i ((GoodBut.steady none).and (Fresh.steady _ i))).pre fun s hs => ⟨hs.1, hs.2 i rfl⟩

theorem createFile_sound (dir : Nat) (basename : List Byte) (flag : BitVec 32) (mode : BitVec 16) :
    Sound Alarm.ofMarks (createFile dir basename flag mode : Call Tables (Int × Option Nat)) := by
  refine .ite (fun _ => put_sound dir) fun _ => ?_
  refine .bind (permission_still dir _).sound fun may => ?_
  refine .ite (fun _ => put_sound dir) fun _ => ?_
  refine .bind (getInode_still dir).sound fun h => newInode_sound (put_sound dir) fun i hP => ?_
  refine .bind (getTask_still.marks.keeps hP) fun me => ?_
  refine .bind ((editInode_marks i fun _ => by rfl).keeps hP) fun _ => ?_
  refine .bind (addEntry_fresh dir basename _ i) fun entry => ?_
  cases entry with
  | none =>
    refine .bind (discard_triple (fun n hn => by rw [hn]; rfl) i) fun _ => ?_
    exact (put_sound dir).triple
  | some entry =>
    refine Sound.triple (.bind (getInode_still i).sound fun h => ?_)
    refine .bind (writeEntryInode_still entry.1 _ _).sound fun _ => .bind
      (brelse_still entry.1).sound fun _ => ?_
    exact put_sound dir

theorem sysMknod_sound (filename : List Byte) (mode dev : BitVec 16) :
    Sound Alarm.ofMarks (sysMknod filename mode dev : Call Tables Int) := by
  refine .bind (makeIn_balanced marks filename).sound fun (e, at') => ?_
  cases at' with
  | none => exact .pure
  | some at' =>
    obtain ⟨dir, basename⟩ := at'
    refine .bind (getInode_still dir).sound fun h => newInode_sound (put_sound dir) fun i hP => ?_
    refine .bind (currentTime_apart.still.marks.keeps hP) fun t => ?_
    refine .bind ((editInode_marks i fun d => ?_).keeps hP) fun _ => ?_
    · dsimp only
      split <;> rfl
    refine .bind (addEntry_fresh dir basename _ i) fun entry => ?_
    cases entry with
    | none =>
      refine .bind (iput_fresh dir i) fun _ => .bind (discard_triple (fun _ _ => rfl) i) fun _ => ?_
      exact .pure fun _ hs => hs
    | some entry =>
      refine Sound.triple (.bind (getInode_still i).sound fun h => ?_)
      refine .bind (writeEntryInode_still entry.1 _ _).sound fun _ => .bind (iput_sound dir) fun _ => ?_
      exact .bind (iput_sound i) fun _ => .bind (brelse_still entry.1).sound fun _ => .pure

/-- `mkdir` sets the time of the directory and marks it later, and so it is with the links of the new
inode. -/
theorem sysMkdir_sound (pathname : List Byte) (mode : BitVec 16) :
    Sound Alarm.ofMarks (sysMkdir pathname mode : Call Tables Int) := by
  refine .bind (makeIn_balanced marks pathname).sound fun (e, at') => ?_
  cases at' with
  | none => exact .pure
  | some at' =>
    obtain ⟨dir, basename⟩ := at'
    refine .bind (getInode_still dir).sound fun h => newInode_sound (put_sound dir) fun i hP => ?_
    have hlinked : Steady fun s => Good s ∧ Fresh (fun _ => True) i s :=
      (GoodBut.steady none).and (Fresh.steady _ i)
    have hbut : Stable fun s => GoodBut (some i) s ∧ Fresh (fun _ => True) i s :=
      (GoodBut.stable _).and (Fresh.steady _ i).toStable
    refine .bind (currentTime_apart.still.marks.keeps hP) fun t => ?_
    refine .bind ((editInode_marks i fun _ => by rfl).keeps hP) fun _ => ?_
    refine .bind ((getInode_still i).marks.keeps hP) fun self => ?_
    refine .bind ((newBlock_still self.dev).marks.keeps hP) fun b => .ite (fun _ => ?_) fun _ => ?_
    · refine .bind (iput_fresh dir i) fun _ => ?_
      exact .bind (discard_triple (fun n hn => by rw [hn]; rfl) i) fun _ => .pure fun _ hs => hs
    refine .bind ((editInode_marks i fun _ => by rfl).keeps hP) fun _ => ?_
    refine .bind ((getblk_still self.dev _).marks.keeps hP) fun dirBlock => ?_
    refine .bind ((getBytes_still dirBlock).marks.keeps hP) fun data => ?_
    refine .bind ((getInode_still dir).marks.keeps hP) fun parent => ?_
    refine .bind ((setBytes_still dirBlock _).marks.keeps hP) fun _ => ?_
    refine .bind (.modify (Q := fun _ s => GoodBut (some i) s ∧ Fresh (fun _ => True) i s)
      fun s hs => ?_)
      fun _ => ?_
    · refine ⟨(hs.1.except i).edit rfl rfl rfl (fun _ _ hx => hx) fun hi => absurd rfl hi, ?_⟩
      unfold Fresh
      rw [setInode_self]
      exact hs.2.imp_right fun h => ⟨h.1, trivial⟩
    refine .bind ((brelse_still dirBlock).keeps hbut) fun _ => .bind (getTask_still.keeps hbut)
      fun t => ?_
    refine .bind (.modify (Q := fun _ s => Good s ∧ Fresh (fun _ => True) i s) fun s hs => ?_)
      fun _ => ?_
    · exact ⟨hs.1.markExcept _, (Fresh.steady _ i).mark (fun _ => rfl) hs.2⟩
    refine .bind (addEntry_triple hlinked (GoodBut.stable (some dir)).toFramed
      ((touch_except dir).pre fun s hs => hs.1)) fun entry => ?_
    cases entry with
    | none =>
      refine .bind (iput_fresh dir i) fun _ => .bind ((freeBlock_still self.dev b).marks.keeps
        hlinked) fun _ => ?_
      exact .bind (discard_triple (fun _ _ => rfl) i) fun _ => .pure fun _ hs => hs
    | some entry =>
      refine .bind ((writeEntryInode_still entry.1 _ _).keeps (GoodBut.stable (some dir))) fun _ => ?_
      refine .bind (.modify (Q := fun _ => Good) fun s hs => hs.markExcept _) fun _ => ?_
      refine Sound.triple (.bind (iput_sound dir) fun _ => .bind (iput_sound i) fun _ => ?_)
      exact .bind (brelse_still entry.1).sound fun _ => .pure

/-! ## Runs -/

/-- What a sequence of calls is made of. -/
inductive Event
  | call (c : SysCall)
  | chmod (filename : List Byte) (mode : BitVec 16)
  | chown (filename : List Byte) (uid : BitVec 16) (gid : BitVec 8)
  | utime (filename : List Byte) (modtime : Option (BitVec 32))
  | createDiskBlock (i blockSeq : Nat)
  | truncate (i : Nat)
  | iput (i : Nat)
  | iget (dev : Dev) (nr : Num)
  | syncInodes
  | getEmptyInode

def Event.run : Event → Call Tables Unit
  | .call c => c.run
  | .chmod filename mode => forget (sysChmod filename mode)
  | .chown filename uid gid => forget (sysChown filename uid gid)
  | .utime filename modtime => forget (sysUtime filename modtime)
  | .createDiskBlock i blockSeq => forget (FileSys.createDiskBlock i blockSeq)
  | .truncate i => FileSys.truncate i
  | .iput i => FileSys.iput i
  | .iget dev nr => forget (FileSys.iget dev nr)
  | .syncInodes => FileSys.syncInodes
  | .getEmptyInode => forget FileSys.getEmptyInode

/-- An event that returns. -/
def step (s : State Tables) (e : Event) : Option (State Tables) :=
  match e.run.exec s with
  | .ok (_, s') => some s'
  | .error _ => none

/-- The event raises none of the alarms. -/
def Marked (s : State Tables) (e : Event) : Prop := e.run.Quiet Alarm.ofMarks s

/-- The inode table after `mount_root`: the root inode, as it is on the disk. -/
def Booted (s : State Tables) : Prop :=
  ∃ r < 32, s.slot (s.inode r).dev (s.inode r).num = some (s.inode r).disk ∧
    (s.inode r).pipe = false ∧ ∀ i, i ≠ r → s.inode i = .zero

theorem Booted.good {s : State Tables} (h : Booted s) : Good s := by
  obtain ⟨r, hr, hslot, hpipe, hzero⟩ := h
  have hdev : ∀ i, (s.inode i).dev ≠ 0 → i = r := by
    intro i hi
    by_contra hir
    rw [hzero i hir] at hi
    exact hi rfl
  refine ⟨fun i _ hi _ => ?_, fun i j hi hj _ => ?_, fun i hi => ?_, fun i => ?_⟩
  · rw [hdev i hi]
    exact hslot
  · rw [hdev i hi, hdev j (hj ▸ hi)]
  · rw [hdev i hi]
    exact hr
  · by_cases hir : i = r
    · rw [hir]
      exact hpipe
    · rw [hzero i hir]
      rfl

theorem Event.sound (e : Event) : Sound Alarm.ofMarks e.run := by
  cases e with
  | call c => exact (c.balanced marks (fun _ _ _ _ _ => createFile_sound _ _ _ _)
      (fun _ _ _ => sysMkdir_sound _ _) fun _ _ _ _ => sysMknod_sound _ _ _).sound
  | chmod filename mode => exact .bind (changeInode_balanced marks _ _ _).sound fun _ => .pure
  | chown filename uid gid => exact .bind (changeInode_balanced marks _ _ _).sound fun _ => .pure
  | utime filename modtime => exact .bind (changeInode_balanced marks _ _ _).sound fun _ => .pure
  | createDiskBlock i blockSeq => exact .bind (createDiskBlock_marks i blockSeq).sound fun _ => .pure
  | truncate i => exact truncate_sound i
  | iput i => exact iput_sound i
  | iget dev nr => exact .bind (iget_sound dev nr) fun _ => .pure
  | syncInodes => exact syncInodes_still.sound
  | getEmptyInode => exact .bind getEmptyInode_sound fun _ => .pure

/-- One event. -/
theorem step_good {s s' : State Tables} {e : Event} (hs : Good s) (hquiet : Marked s e)
    (h : step s e = some s') : Good s' := by
  unfold step at h
  rw [← Lib.Prog.Quiet.run_eq hquiet] at h
  cases hrun : e.run.run Alarm.ofMarks s with
  | ok r =>
    rw [hrun] at h
    cases h
    exact e.sound.triple.ends hs hrun
  | error err =>
    rw [hrun] at h
    cases h

theorem reach_good {s : State Tables} (h : Reach step Marked Booted s) : Good s :=
  h.invariant (fun _ => Booted.good) fun _ _ _ hs hquiet hstep => step_good hs hquiet hstep

/-! ## An inode that leaves the table -/

/-- `iput`, entries of the table that are taken, and `iget`: what is read then. -/
def putAndGet (i n : Nat) : Call Tables DInode := do
  let h ← getInode i
  iput i
  forEach (fun _ => forget getEmptyInode) (List.range n)
  let j ← iget h.dev h.num
  let h ← getInode j
  return h.disk

section

variable {dev : Dev} {num : Num} {d : DInode}

/-- What happens to an inode leaves the others as they persist. -/
theorem Persists.editable (i : Nat) : Editable i fun s =>
    Persists dev num d s ∧ ¬ ((s.inode i).dev = dev ∧ (s.inode i).num = num) where
  toStable := Persists.stable.and
    (Stable.ofInode (p := fun h => ¬ (h.dev = dev ∧ h.num = num)) (fun _ _ h => h) i)
  edit {s h} hd hn _ hs := by
    have hother : ¬ (h.dev = dev ∧ h.num = num) := by
      rw [hd, hn]
      exact hs.2
    refine ⟨hs.1.setInode (fun hdev hnum => absurd ⟨hdev, hnum⟩ hother) fun hdev hnum _ =>
      absurd ⟨hdev, hnum⟩ hs.2, ?_⟩
    rw [setInode_self]
    exact hother

theorem iput_persists (hdev : dev ≠ 0) (hlinks : d.nlinks ≠ 0) (i : Nat) :
    Triple watch (fun s => Good s ∧ Persists dev num d s) (iput i : Call Tables Unit) fun _ s =>
      Good s ∧ Persists dev num d s := by
  refine iput_triple ((GoodBut.stable none).and Persists.stable)
    ((GoodBut.editable i).and (Persists.editable i)) (fun _ hs => hs.1.noPipe i)
    (fun s hs _ _ => ⟨hs.1.drop i, ?_⟩) (fun s hs _ hl => ⟨hs.1.except i, hs.2, fun hsame => ?_⟩)
    fun s hs => ⟨hs.1.clear rfl rfl, ?_⟩
  · exact hs.2.setInode (fun hd hn => hs.2.held i hd hn) fun hd hn hdirt => .inr ⟨hd, hn, hdirt⟩
  · rw [(hs.2.held i hsame.1 hsame.2).1] at hl
    exact hlinks hl
  · exact hs.2.1.setInode (fun h0 _ => absurd h0.symm hdev) fun hd hn _ => absurd ⟨hd, hn⟩ hs.2.2

/-- An inode that is evicted is clean, so that its slot has it. -/
theorem getEmptyInode_persists (hdev : dev ≠ 0) :
    Triple watch (fun s => Good s ∧ Persists dev num d s) (getEmptyInode : Call Tables Nat) fun i s =>
      i < 32 ∧ (Good s ∧ Persists dev num d s) ∧ Empty i s := by
  refine getEmptyInode_triple ((GoodBut.stable none).and Persists.stable) fun s i hi hs hdirt => ?_
  refine ⟨hi, ⟨(hs.1.except i).clear rfl rfl, ?_⟩, setInode_self⟩
  exact hs.2.setInode (fun h0 _ => absurd h0.symm hdev) fun _ _ h =>
    absurd (h.symm.trans hdirt) nofun

/-- `iput` of the entry that `iget` has no use for. -/
theorem iput_empty {e i : Nat} (hie : i ≠ e) :
    Triple watch (fun s => (s.inode i).disk = d ∧ (s.inode e).dev = 0 ∧ (s.inode e).pipe = false)
      (iput e : Call Tables Unit) fun _ s => (s.inode i).disk = d := by
  refine iput_triple (Q := fun _ => False) ?_ ⟨⟨⟨fun _ _ _ h => h⟩, fun _ _ h => h⟩, fun _ _ _ h => h⟩
    (fun s hs => hs.2.2) (fun s hs _ _ => ?_) (fun s hs hne _ => hne hs.2.1) fun _ h => h.elim
  · exact (Stable.ofInode (p := fun h => h.disk = d) (fun _ _ h => h) i).and
      (Stable.ofInode (p := fun h => h.dev = 0 ∧ h.pipe = false) (fun _ _ h => h) e)
  · rw [setInode_of_ne hie]
    exact hs.1

theorem iget_persists (hdev : dev ≠ 0) :
    Triple watch (fun s => Good s ∧ Persists dev num d s) (iget dev num : Call Tables Nat) fun j s =>
      (s.inode j).disk = d := by
  refine .ite (fun h0 => absurd h0 hdev) fun _ => .bind (getEmptyInode_persists hdev) fun e => ?_
  refine .fact fun he => .bind Triple.read fun found => ?_
  cases found with
  | none =>
    have hP : Framed fun s : State Tables =>
        s.slot dev num = some d ∧ (s.inode e).dev = dev ∧ (s.inode e).num = num := by
      refine ⟨fun {s s'} hi hc hs h => ?_⟩
      have hslot : s'.slot = s.slot := by
        unfold State.slot State.superAt
        rw [hc, hs]
      rw [hi, hslot]
      exact h
    refine .bind (.modify (Q := fun _ s =>
      s.slot dev num = some d ∧ (s.inode e).dev = dev ∧ (s.inode e).num = num) fun s hs => ⟨?_, ?_⟩)
        fun _ => ?_
    · exact hs.2.1.2.slot_of_absent (findInode_none hs.2.1.1 hdev hs.1)
    · rw [setInode_self]
      exact ⟨rfl, rfl⟩
    · refine .bind (readInode_triple (R := fun s => (s.inode e).disk = d) hP
        (Stable.ofInode (p := fun h => h.disk = d) (fun _ _ h => h) e).toFramed fun s d' hs hslot => ?_)
        fun _ => .pure fun s hs => hs
      rw [hs.2.1, hs.2.2, hs.1] at hslot
      rw [setInode_self]
      exact (Option.some.inj hslot).symm
  | some i =>
    by_cases hie : i = e
    · subst hie
      refine ⟨fun {s _ _} hs _ => ?_⟩
      have h0 := (findInode_some hs.1).1
      rw [hs.2.2] at h0
      exact absurd h0.symm hdev
    · refine .bind (.modify (Q := fun _ s => (s.inode i).mount = false ∧
        (s.inode i).disk = d ∧ (s.inode e).dev = 0 ∧ (s.inode e).pipe = false) fun s hs => ?_) fun _ => ?_
      · obtain ⟨hfound, ⟨hgood, hper⟩, hempty⟩ := hs
        obtain ⟨hd, hn⟩ := findInode_some hfound
        obtain ⟨hdisk, hmount⟩ := hper.held i hd hn
        rw [setInode_self, setInode_of_ne (Ne.symm hie), hempty]
        exact ⟨hmount, hdisk, rfl, rfl⟩
      · refine .bind Triple.read fun h => .ite (fun hmount => ?_) fun _ => ?_
        · refine ⟨fun {s _ _} hs _ => ?_⟩
          rw [← hs.1, hs.2.1] at hmount
          cases hmount
        · exact .bind ((iput_empty hie).pre fun s hs => hs.2.2) fun _ => .pure fun s hs => hs

/-- Who puts an inode gets the same fields when it is read again. -/
theorem putAndGet_triple {s : State Tables} {i : Nat} (hs : Good s) (hdev : (s.inode i).dev ≠ 0)
    (hlinks : (s.inode i).disk.nlinks ≠ 0) (hmount : (s.inode i).mount = false) (n : Nat) :
    Triple watch (· = s) (putAndGet i n) fun d _ => d = (s.inode i).disk := by
  refine .bind Triple.read fun h => ?_
  have hrest : Triple watch (fun s' => h = s.inode i ∧ Good s' ∧
      Persists (s.inode i).dev (s.inode i).num (s.inode i).disk s') (do
        iput i
        forEach (fun _ => forget getEmptyInode) (List.range n)
        let j ← iget h.dev h.num
        let h ← getInode j
        return h.disk) fun d _ => d = (s.inode i).disk := by
    refine .fact fun hh => ?_
    subst hh
    refine .bind (iput_persists hdev hlinks i) fun _ => ?_
    have hloop : ∀ is : List Nat, Triple watch
        (fun s' => Good s' ∧ Persists (s.inode i).dev (s.inode i).num (s.inode i).disk s')
        (forEach (fun _ => forget getEmptyInode) is : Call Tables Unit)
        fun _ s' => Good s' ∧ Persists (s.inode i).dev (s.inode i).num (s.inode i).disk s' := by
      intro is
      induction is with
      | nil => exact .pure fun s hs => hs
      | cons k is ih =>
        exact .bind (.bind (getEmptyInode_persists hdev) fun _ => .pure fun s hs => hs.2.1) fun _ => ih
    refine .bind (hloop _) fun _ => .bind (iget_persists hdev) fun j => ?_
    refine .bind Triple.read fun h => .pure fun s hs => ?_
    rw [← hs.1]
    exact hs.2
  refine hrest.pre ?_
  rintro s' ⟨hh, rfl⟩
  exact ⟨hh.symm, hs, .ofInode hs hdev hmount⟩

end

/-! ## Write-back is complete -/

/-- An inode that differs from its slot is dirty. -/
def Complete (s : State Tables) : Prop :=
  ∀ i, (s.inode i).dev ≠ 0 → s.slot (s.inode i).dev (s.inode i).num ≠ some (s.inode i).disk →
    (s.inode i).dirt = true

/-- An inode that is put, may be evicted, and is read again is what it was; it has a name, and nothing
is mounted on it. -/
def PutBack (s : State Tables) : Prop :=
  ∀ i n d s', (s.inode i).dev ≠ 0 → (s.inode i).disk.nlinks ≠ 0 → (s.inode i).mount = false →
    (putAndGet i n).exec s = .ok (d, s') → d = (s.inode i).disk

/-- In every run without an alarm. -/
theorem write_back_complete {s : State Tables} (h : Reach step Marked Booted s) :
    Complete s ∧ PutBack s := by
  have hs := reach_good h
  refine ⟨fun i hdev hne => ?_, fun i n d s' hdev hlinks hmount hrun => ?_⟩
  · by_contra hdirt
    exact hne (hs.clean i nofun hdev (Bool.not_eq_true _ ▸ hdirt))
  · exact (putAndGet_triple hs hdev hlinks hmount n).ends rfl hrun

/-- A disk with one file, "f", which is inode 2: the root directory has block 5, the file block 6, and
the inode table is block 4. It is mounted, and somebody is the super user. -/
def oneFile : State Tables where
  contents :=
    { byte := fun _ block n =>
        if block = 2 ∨ block = 3 then if n = 0 then 7 else 0
        else if block = 5 then if n = 0 then 2 else if n = 2 then 102 else 0
        else 0
      inode := fun _ _ n =>
        if n = 0 then ⟨0o040755, 0, 16, 0, 0, 2, fun k => if k = 0 then 5 else 0⟩
        else ⟨0o100644, 0, 10, 0, 0, 1, fun k => if k = 0 then 6 else 0⟩ }
  bcount bh := if bh = (0x301, 2) ∨ bh = (0x301, 3) then 1 else 0
  inode i := if i = 0 then
      ⟨⟨0o040755, 0, 16, 0, 0, 2, fun k => if k = 0 then 5 else 0⟩, 0x301, 1, 3, false, false, false⟩
    else .zero
  lastInode := 0
  super k := if k = 0 then
      ⟨0x301, 32, 20, 1, 1, 5, fun n => if n = 0 then some 2 else none,
        fun n => if n = 0 then some 3 else none, none⟩
    else ⟨0, 0, 0, 0, 0, 0, fun _ => none, fun _ => none, none⟩
  task := ⟨0, 0, 0, some 0, some 0, none, true, -1⟩
  time := 0
  crowded _ := false
  clock _ := 1

theorem oneFile_booted : Booted oneFile := by
  refine ⟨0, by decide, rfl, rfl, fun i hi => ?_⟩
  exact if_neg hi

theorem write_back_complete_chmod :
    ∃ s, step oneFile (.chmod [47, 102] 0o600) = some s ∧ Complete s ∧ PutBack s := by
  have hsome : (step oneFile (.chmod [47, 102] 0o600)).isSome = true := by decide +kernel
  have hquiet : (Event.chmod [47, 102] 0o600).run.Quiet Alarm.ofMarks oneFile := by decide +kernel
  obtain ⟨s, hs⟩ := Option.isSome_iff_exists.mp hsome
  exact ⟨s, hs, write_back_complete (.next (.chmod [47, 102] 0o600) (.start oneFile_booted) hquiet hs)⟩

/-- The file is opened, and its first byte written: it has the time of that, and is clean. -/
theorem time_forgotten : ∃ s, Reach step (fun _ _ => True) Booted s ∧ ¬ Complete s := by
  have hrun : (run step oneFile [.call (.open [47, 102] 1 0 true),
      .call (.write ⟨1, 1, 0⟩ 1 (fun _ => 65) 0)]).map (fun s =>
        ((s.inode 1).dev, (s.inode 1).dirt, (s.inode 1).disk.mtime,
          (s.slot (s.inode 1).dev (s.inode 1).num).map DInode.mtime)) =
      some (0x301, false, 1, some 0) := by decide +kernel
  obtain ⟨s, hs, hval⟩ := Option.map_eq_some_iff.mp hrun
  simp only [Prod.mk.injEq] at hval
  obtain ⟨hdev, hdirt, hmtime, hslot⟩ := hval
  refine ⟨s, .ofRun (fun _ _ => trivial) (.start oneFile_booted) hs, fun hall => ?_⟩
  have hmarked := hall 1 (by rw [hdev]; decide) fun hsame => by
    rw [hsame, Option.map_some, hmtime] at hslot
    exact absurd hslot (by decide)
  rw [hdirt] at hmarked
  cases hmarked

end Linux011.FileSys
