import Linux011.FileSys.Slots

/-!
# Inodes are written back (`i_dirt`)

Whatever the calls do between two assignments to an inode keeps the predicates that are `Stable`; the
lemmas say it function by function, and the assignments themselves are treated one by one. `file_write`
and `add_entry` assign `i_mtime` and do not set `i_dirt`, which is an alarm if the inode is not dirty
for another reason.
-/

namespace Linux011.FileSys

open Lib (Triple Keeps)
open Lib.Prog (stop alarm when forEach)
open Minix (firstZero pointer setPointer)

/-- The alarms about inodes that are not written back. -/
def Alarm.ofMarks : Alarm → Bool
  | .unmarked | .taken => true
  | .inUse | .malformed | .hole => false

variable {α β : Type} {watch : Alarm → Bool} {K : (State Tables → Prop) → Prop}

/-! ## Steps that keep the inodes -/

/-- A program that touches no inode. -/
abbrev Apart (watch : Alarm → Bool) (x : Call Tables α) : Prop := Keeps watch Framed x

/-- A program that keeps the stable predicates. -/
abbrev Still (watch : Alarm → Bool) (x : Call Tables α) : Prop := Keeps watch Stable x

theorem Apart.still {x : Call Tables α} (hx : Apart watch x) : Still watch x :=
  hx.mono fun _ hP => hP.toFramed

theorem modify_apart {f : State Tables → State Tables}
    (h : ∀ s, (f s).inode = s.inode ∧ (f s).contents.inode = s.contents.inode ∧ (f s).super = s.super) :
    Apart watch (Lib.Prog.modify f : Call Tables Unit) :=
  .modify fun _ hP s hs => hP.frame (h s).1 (h s).2.1 (h s).2.2 hs

theorem modify_still {f : State Tables → State Tables}
    (h : ∀ s, (f s).inode = s.inode ∧ (f s).contents.inode = s.contents.inode ∧ (f s).super = s.super) :
    Still watch (Lib.Prog.modify f : Call Tables Unit) :=
  (modify_apart h).still

theorem getInode_still (i : Nat) : Still watch (getInode i : Call Tables MInode) := .read

theorem getTask_still : Still watch (getTask : Call Tables Task) := .read

theorem getBytes_still (bh : Bh) : Still watch (getBytes bh : Call Tables (Nat → Byte)) := .read

theorem setBytes_apart (bh : Bh) (data : Nat → Byte) : Apart watch
    (setBytes bh data : Call Tables Unit) :=
  modify_apart fun _ => ⟨rfl, rfl, rfl⟩

theorem setBytes_still (bh : Bh) (data : Nat → Byte) : Still watch
    (setBytes bh data : Call Tables Unit) :=
  (setBytes_apart bh data).still

theorem editTask_still (f : Task → Task) : Still watch (editTask f : Call Tables Unit) :=
  modify_still fun _ => ⟨rfl, rfl, rfl⟩

theorem currentTime_apart : Apart watch (currentTime : Call Tables (BitVec 32)) :=
  .bind .read fun _ => .bind (modify_apart fun _ => ⟨rfl, rfl, rfl⟩) fun _ => .pure

theorem brelse_apart (bh : Bh) : Apart watch (brelse bh : Call Tables Unit) :=
  .bind .read fun _ => .ite (fun _ => .stop) fun _ => modify_apart fun _ => ⟨rfl, rfl, rfl⟩

theorem brelse_still (bh : Bh) : Still watch (brelse bh : Call Tables Unit) := (brelse_apart bh).still

theorem hold_still (bh : Bh) : Still watch (hold bh : Call Tables Unit) :=
  modify_still fun _ => ⟨rfl, rfl, rfl⟩

theorem superOf_still (dev : Dev) : Still watch (superOf dev : Call Tables SuperBlock) := by
  refine .bind .read fun sb => ?_
  cases sb with
  | none => exact .stop
  | some sb => exact .pure

/-- The super block is the one that the slot is found with. -/
theorem superOf_triple {P : State Tables → Prop} (dev : Dev) :
    Triple watch P (superOf dev : Call Tables SuperBlock) fun sb s => s.superAt dev = some sb ∧ P s := by
  refine .bind .read fun sb => ?_
  cases sb with
  | none => exact .stop
  | some sb => exact .pure fun s hs => hs

theorem writeInode_still (i : Nat) : Still watch (writeInode i : Call Tables Unit) := by
  refine ⟨fun {P} hP => .bind Triple.read fun h => .ite (fun _ => .pure fun s hs => hs.2) fun hne => ?_⟩
  have hdev : h.dev ≠ 0 := fun h0 => hne (.inr h0)
  refine .bind (superOf_triple h.dev) fun sb => ?_
  have hstable : ∀ s, s.superAt h.dev = some sb ∧ s.inode i = h ∧ P s →
      P (s.storeInode i (h.dev, sb.inodeBlock h.num)) := by
    rintro s ⟨hsb, rfl, hs⟩
    exact hP.store hdev hsb hs
  -- until the inode is stored, nothing that it depends on changes
  refine .bind (.modify (Q := fun _ s => s.superAt h.dev = some sb ∧ s.inode i = h ∧ P s) fun s hs => ?_)
    fun _ => .bind (.modify (Q := fun _ => P) hstable) fun _ => (brelse_still _).keeps hP
  exact ⟨hs.1, hs.2.1, hP.frame (s := s) rfl rfl rfl hs.2.2⟩

theorem syncInodes_still : Still watch (syncInodes : Call Tables Unit) :=
  .forEach (fun i => .bind (getInode_still i) fun _ => .when fun _ => writeInode_still i) _

theorem getblk_still (dev : Dev) (block : Block) : Still watch (getblk dev block : Call Tables Bh) :=
  .bind .read fun _ => .bind (modify_still fun _ => ⟨rfl, rfl, rfl⟩) fun _ =>
    .bind (.when fun _ => syncInodes_still) fun _ => .bind (hold_still _) fun _ => .pure

theorem breada_still (dev : Dev) (block : Block) : Still watch (breada dev block : Call Tables Bh) :=
  .bind (getblk_still dev block) fun _ =>
    .bind (.forEach (fun _ => .bind (getblk_still dev _) fun _ => brelse_still _) _) fun _ => .pure

theorem freeBlock_still (dev : Dev) (block : Zone) :
    Still watch (freeBlock dev block : Call Tables Unit) := by
  refine .bind (superOf_still dev) fun sb => .ite (fun _ => .stop) fun _ => .bind .read fun n => ?_
  refine .ite (fun _ => .bind .alarm fun _ => hold_still _) fun _ => ?_
  dsimp only
  cases sb.zmap ((block.toNat + 1 - sb.firstdatazone.toNat) / 8192) with
  | none => exact .stop
  | some map =>
    exact .bind (getBytes_still _) fun data => .ite (fun _ => setBytes_still _ _) fun _ => .stop

theorem newBlock_still (dev : Dev) : Still watch (newBlock dev : Call Tables Zone) := by
  refine .bind (superOf_still dev) fun sb => .bind .read fun zero => ?_
  cases zero with
  | none => exact .pure
  | some zero =>
    refine .bind (getBytes_still _) fun data => .bind (setBytes_still _ _) fun _ => ?_
    refine .ite (fun _ => .pure) fun _ => .bind (getblk_still dev _) fun bh => .bind .read fun count => ?_
    exact .ite (fun _ => .stop) fun _ =>
      .bind (setBytes_still bh _) fun _ => .bind (brelse_still bh) fun _ => .pure

theorem freeTable_still {each : Zone → Call Tables Unit} (heach : ∀ b, Still watch (each b)) (dev : Dev)
    (block : Zone) : Still watch (freeTable each dev block) :=
  .when fun _ => .bind (getblk_still dev _) fun bh =>
    .bind (.forEach (fun _ => .bind (getBytes_still bh) fun _ => .when fun _ => heach _) _) fun _ =>
      .bind (brelse_still bh) fun _ => freeBlock_still dev block

theorem freeInd_still (dev : Dev) (block : Zone) : Still watch (freeInd dev block : Call Tables Unit) :=
  freeTable_still (freeBlock_still dev) dev block

theorem freeDind_still (dev : Dev) (block : Zone) : Still watch (freeDind dev block : Call Tables Unit) :=
  freeTable_still (freeInd_still dev) dev block

theorem permission_still (i : Nat) (mask : BitVec 32) :
    Still watch (permission i mask : Call Tables Bool) :=
  .bind (getInode_still i) fun _ => .bind getTask_still fun _ => .ite (fun _ => .pure) fun _ => .pure

theorem writeEntryInode_still (bh : Bh) (e : Nat) (nr : Num) :
    Still watch (writeEntryInode bh e nr : Call Tables Unit) :=
  .bind (getBytes_still bh) fun _ => setBytes_still bh _

/-! ## The block map -/

/-- A program that keeps the steady predicates: it changes inodes, but marks them. -/
abbrev Marks (watch : Alarm → Bool) (x : Call Tables α) : Prop := Keeps watch Steady x

theorem Still.marks {x : Call Tables α} (hx : Still watch x) : Marks watch x :=
  hx.mono fun _ hP => hP.toStable

theorem editInode_marks (i : Nat) {f : DInode → DInode} (hf : ∀ d, (f d).nlinks = d.nlinks) :
    Marks watch (editInode i (MInode.mark f) : Call Tables Unit) :=
  .modify fun _ hP _ hs => hP.mark hf hs

theorem fillEntry_still (dev : Dev) (block : Zone) (k : Nat) (create : Bool) :
    Still watch (fillEntry dev block k create : Call Tables Zone) := by
  refine .bind (getblk_still dev _) fun bh => .bind (getBytes_still bh) fun data => .ite (fun _ => ?_)
    fun _ =>
    .bind (brelse_still bh) fun _ => .pure
  refine .bind (newBlock_still dev) fun b => .bind (.when fun _ => ?_) fun _ =>
    .bind (brelse_still bh) fun _ => .pure
  exact .bind (getBytes_still bh) fun _ => setBytes_still bh _

theorem fillZone_marks (i k : Nat) (create : Bool) :
    Marks watch (fillZone i k create : Call Tables Zone) := by
  refine .bind (getInode_still i).marks fun h => .ite (fun _ => ?_) fun _ => .pure
  refine .bind (newBlock_still h.dev).marks fun b => .bind (.when fun _ => ?_) fun _ => .pure
  exact editInode_marks i fun _ => rfl

theorem fillZone_still (i k : Nat) : Still watch (fillZone i k false : Call Tables Zone) :=
  .bind (getInode_still i) fun _ => .ite (fun h => nomatch h.1) fun _ => .pure

/-- What the block map does with the inode, it does in `fillZone`. -/
theorem bmap_keeps (hK : ∀ P, K P → Stable P) (i blockSeq : Nat) (create : Bool)
    (hfill : ∀ k, Keeps watch K (fillZone i k create : Call Tables Zone)) :
    Keeps watch K (bmap i blockSeq create : Call Tables Zone) := by
  have hentry : ∀ dev b k, Keeps watch K (fillEntry dev b k create : Call Tables Zone) :=
    fun dev b k => (fillEntry_still dev b k create).mono hK
  refine .bind ((getInode_still i).mono hK) fun h => .ite (fun _ => .stop) fun _ =>
    .ite (fun _ => hfill _) fun _ => .ite (fun _ => ?_) fun _ => ?_
  · exact .bind (hfill 7) fun _ => .ite (fun _ => .pure) fun _ => hentry _ _ _
  · exact .bind (hfill 8) fun _ => .ite (fun _ => .pure) fun _ =>
      .bind (hentry _ _ _) fun _ => .ite (fun _ => .pure) fun _ => hentry _ _ _

theorem getDiskBlock_still (i blockSeq : Nat) :
    Still watch (getDiskBlock i blockSeq : Call Tables Zone) :=
  bmap_keeps (fun _ hP => hP) i blockSeq false (fillZone_still i)

theorem createDiskBlock_marks (i blockSeq : Nat) :
    Marks watch (createDiskBlock i blockSeq : Call Tables Zone) :=
  bmap_keeps (fun _ hP => hP.toStable) i blockSeq true fun k => fillZone_marks i k true

theorem emptyLoop_still (inode len n nr : Nat) (bh : Bh) :
    Still watch (emptyLoop inode len n nr bh : Call Tables Bool) := by
  induction n generalizing nr bh with
  | zero => exact .stop
  | succ n ih =>
    refine .ite (fun _ => .bind (brelse_still bh) fun _ => .pure) fun _ => .ite (fun _ => ?_) fun _ => ?_
    · refine .bind (brelse_still bh) fun _ => .bind (getDiskBlock_still inode _) fun block =>
        .ite (fun _ => .bind .alarm fun _ => ih _ _) fun _ => ?_
      exact .bind (getInode_still inode) fun h => .bind (getblk_still h.dev _) fun bh =>
        .bind (getBytes_still bh) fun data =>
          .ite (fun _ => .bind (brelse_still bh) fun _ => .pure) fun _ => ih _ _
    · exact .bind (getBytes_still bh) fun data =>
        .ite (fun _ => .bind (brelse_still bh) fun _ => .pure) fun _ => ih _ _

theorem isEmptyDir_still (inode : Nat) : Still watch (isEmptyDir inode : Call Tables Bool) :=
  .bind (getInode_still inode) fun h => .ite (fun _ => .pure) fun _ =>
    .bind (getblk_still h.dev _) fun bh => .bind (getBytes_still bh) fun _ =>
      .ite (fun _ => .bind .alarm fun _ => .pure) fun _ => emptyLoop_still _ _ _ _ _

/-! ## An inode is destroyed -/

section

variable {i : Nat} {P Q R : State Tables → Prop}

/-- A program that changes inode `i` only. -/
abbrev Edits (watch : Alarm → Bool) (i : Nat) (x : Call Tables α) : Prop := Keeps watch (Editable i) x

theorem Still.edits {x : Call Tables α} (hx : Still watch x) : Edits watch i x :=
  hx.mono fun _ hP => hP.toStable

theorem editDisk_edits (f : DInode → DInode) :
    Edits watch i (editInode i (MInode.editDisk f) : Call Tables Unit) :=
  .modify fun _ hP _ hs => hP.edit rfl rfl rfl hs

/-- `truncate`, with a predicate that holds meanwhile; the inode is marked at the end. -/
theorem truncate_triple (hQ : Editable i Q) (hPQ : ∀ s, P s → Q s) (hPR : ∀ s, P s → R s)
    (hmark : ∀ s f, Q s → R (s.setInode i ((s.inode i).mark f))) :
    Triple watch P (truncate i : Call Tables Unit) fun _ => R := by
  have hzones : Edits watch i (forEach (fun k => do
      let h ← getInode i
      when (h.disk.zone k ≠ 0) do
        freeBlock h.dev (h.disk.zone k)
        editInode i (MInode.editDisk (DInode.setZone k 0))) (List.range 7) : Call Tables Unit) :=
    .forEach (fun k => .bind (getInode_still i).edits fun h => .when fun _ =>
      .bind (freeBlock_still _ _).edits fun _ => editDisk_edits _) _
  refine .bind Triple.read fun h => .when (fun _ => ?_) fun _ s hs => hPR s hs.2
  refine (Triple.bind (hzones.keeps hQ) fun _ => ?_).pre fun s hs => hPQ s hs.2
  refine .bind ((getInode_still i).edits.keeps hQ) fun h => ?_
  refine .bind ((freeInd_still h.dev _).edits.keeps hQ) fun _ => ?_
  refine .bind ((freeDind_still h.dev _).edits.keeps hQ) fun _ => ?_
  exact .bind (currentTime_apart.still.edits.keeps hQ) fun t => .modify fun s hs => hmark s _ hs

theorem truncate_edits : Edits watch i (truncate i : Call Tables Unit) :=
  ⟨fun hP => truncate_triple hP (fun _ hs => hs) (fun _ hs => hs) fun _ _ hs => hP.edit rfl rfl rfl hs⟩

theorem freeInode_triple (hQ : Stable Q) (hfree : ∀ s, Q s → R (s.setInode i .zero)) :
    Triple watch Q (freeInode i : Call Tables Unit) fun _ => R := by
  refine .bind ((getInode_still i).keeps hQ) fun h => .ite (fun _ => .modify hfree) fun _ => ?_
  refine .ite (fun _ => .stop) fun _ => .bind ((superOf_still h.dev).keeps hQ) fun sb => ?_
  refine .ite (fun _ => .stop) fun _ => ?_
  cases sb.imap (h.num.toNat / 8192) with
  | none => exact .stop
  | some map =>
    refine .bind ((getBytes_still _).keeps hQ) fun data => ?_
    exact .bind ((setBytes_still _ _).keeps hQ) fun _ => .modify hfree

/-- `iput`: a reference is dropped, or an inode without links is destroyed. -/
theorem iput_triple (hP : Stable P) (hQ : Editable i Q) (hpipe : ∀ s, P s → (s.inode i).pipe = false)
    (hdrop : ∀ s, P s → (s.inode i).count ≠ 0 →
      ((s.inode i).dev = 0 ∨ 1 < (s.inode i).count ∨ (s.inode i).disk.nlinks ≠ 0) →
      R (s.setInode i (s.inode i).dropCount))
    (hdoom : ∀ s, P s → (s.inode i).dev ≠ 0 → (s.inode i).disk.nlinks = 0 → Q s)
    (hfree : ∀ s, Q s → R (s.setInode i .zero)) :
    Triple watch P (iput i : Call Tables Unit) fun _ => R := by
  have hlive : Stable fun s : State Tables => (s.inode i).count ≠ 0 ∧ (s.inode i).dev ≠ 0 :=
    .ofInode (p := fun h => h.count ≠ 0 ∧ h.dev ≠ 0) (fun _ _ h => h) i
  have hrepeat : ∀ n, Triple watch (fun s => P s ∧ (s.inode i).count ≠ 0 ∧ (s.inode i).dev ≠ 0)
      (iputRepeat i n) fun _ => R := by
    intro n
    induction n with
    | zero => exact .stop
    | succ n ih =>
      refine .bind Triple.read fun h => .ite (fun hc => ?_) fun _ => .ite (fun hl => ?_) fun hl => ?_
      · refine .modify fun s hs => hdrop s hs.2.1 hs.2.2.1 (.inr (.inl ?_))
        rwa [hs.1]
      · refine (Triple.bind (truncate_edits.keeps hQ) fun _ => freeInode_triple hQ.toStable hfree).pre ?_
        exact fun s hs => hdoom s hs.2.1 hs.2.2.2 (hs.1 ▸ hl)
      · refine .ite (fun _ => ?_) fun _ => .modify fun s hs => hdrop s hs.2.1 hs.2.2.1 (.inr (.inr ?_))
        · exact (Triple.bind ((writeInode_still i).keeps (hP.and hlive)) fun _ => ih).pre fun s hs => hs.2
        · rwa [hs.1]
  refine .bind Triple.read fun h => .ite (fun _ => .stop) fun hc => .ite (fun hp => ?_) fun _ => ?_
  · refine ⟨fun {s a s'} hs _ => ?_⟩
    have hp' := hpipe s hs.2
    rw [hs.1] at hp'
    exact absurd (hp.symm.trans hp') nofun
  · refine .ite (fun h0 => .modify fun s hs => hdrop s hs.2 (hs.1 ▸ hc) (.inl (hs.1 ▸ h0))) fun h0 => ?_
    refine (Triple.bind ((Keeps.when fun _ => syncInodes_still).keeps (hP.and hlive)) fun _ =>
      hrepeat 2).pre fun s hs => ⟨hs.2, hs.1 ▸ hc, hs.1 ▸ h0⟩

end

/-! ## References to inodes -/

/-- A program after which no inode is an exception, if none was before. -/
abbrev Sound (watch : Alarm → Bool) (x : Call Tables α) : Prop := Keeps watch (· = Good) x

theorem Sound.of_triple {x : Call Tables α} (hx : Triple watch Good x fun _ => Good) : Sound watch x := by
  refine ⟨fun {P} hP => ?_⟩
  subst hP
  exact hx

theorem Sound.triple {x : Call Tables α} (hx : Sound watch x) : Triple watch Good x fun _ => Good :=
  hx.keeps rfl

theorem Still.sound {x : Call Tables α} (hx : Still watch x) : Sound watch x :=
  .of_triple (hx.keeps (GoodBut.stable none))

theorem Marks.sound {x : Call Tables α} (hx : Marks watch x) : Sound watch x :=
  .of_triple (hx.keeps (GoodBut.steady none))

theorem editInode_mark_sound (i : Nat) (f : DInode → DInode) :
    Sound watch (editInode i (MInode.mark f) : Call Tables Unit) :=
  .of_triple (.modify fun _ hs => hs.mark f)

theorem addCount_sound (i n : Nat) : Sound watch (editInode i (MInode.addCount n) : Call Tables Unit) :=
  .of_triple (.modify fun _ hs => hs.keep rfl rfl rfl rfl id)

/-- `i_dirt` alone is set. -/
theorem setDirt_sound (i : Nat) :
    Sound watch (editInode i (fun h => { h with dirt := true }) : Call Tables Unit) :=
  .of_triple (.modify fun _ hs => hs.mark id)

theorem GoodBut.drop {x : Option Nat} {s : State Tables} (hs : GoodBut x s) (i : Nat) :
    GoodBut x (s.setInode i (s.inode i).dropCount) :=
  hs.keep rfl rfl rfl rfl id

theorem iput_sound (i : Nat) : Sound watch (iput i : Call Tables Unit) :=
  .of_triple (iput_triple (GoodBut.stable none) (GoodBut.editable i) (fun _ hs => hs.noPipe i)
    (fun _ hs _ _ => hs.drop i) (fun _ hs _ _ => hs.except i) fun _ hs => hs.clear rfl rfl)

theorem Fresh.editable {p : BitVec 8 → Prop} {i j : Nat} (h : j ≠ i) : Editable i (Fresh p j) where
  toStable := (Fresh.steady p j).toStable
  edit _ _ _ hs := by
    unfold Fresh
    rwa [setInode_of_ne h]

/-- A new inode stays one when an inode is put, this one or another. -/
theorem iput_fresh {p : BitVec 8 → Prop} (i j : Nat) :
    Triple watch (fun s => Good s ∧ Fresh p j s) (iput i : Call Tables Unit) fun _ s =>
      Good s ∧ Fresh p j s := by
  have hP : Stable fun s => Good s ∧ Fresh p j s := (GoodBut.stable none).and (Fresh.steady p j).toStable
  by_cases hj : j = i
  · subst hj
    refine iput_triple hP (GoodBut.editable j) (fun _ hs => hs.1.noPipe j) (fun s hs _ _ => ?_)
      (fun _ hs _ _ => hs.1.except j) fun s hs => ⟨hs.clear rfl rfl, .inl ?_⟩
    · refine ⟨hs.1.drop j, .inl ?_⟩
      rw [setInode_self]
      show (s.inode j).count - 1 = 0
      obtain h | h := hs.2 <;> omega
    · rw [setInode_self]
      rfl
  · refine iput_triple hP ((GoodBut.editable i).and (Fresh.editable hj)) (fun _ hs => hs.1.noPipe i)
      (fun s hs _ _ => ⟨hs.1.drop i, ?_⟩) (fun _ hs _ _ => ⟨hs.1.except i, hs.2⟩)
      fun s hs => ⟨hs.1.clear rfl rfl, ?_⟩
    all_goals
      unfold Fresh
      rw [setInode_of_ne hj]
      exact hs.2

/-- A new inode loses its links, and is destroyed. -/
theorem discard_triple {p : BitVec 8 → Prop} {f : BitVec 8 → BitVec 8} (hf : ∀ n, p n → f n = 0)
    (i : Nat) :
    Triple watch (fun s => Good s ∧ Fresh p i s) (discard i f : Call Tables Unit) fun _ => Good := by
  have hP : Stable fun s => GoodBut (some i) s ∧ Fresh (· = 0) i s :=
    (GoodBut.stable _).and (Fresh.steady _ i).toStable
  refine .bind (.modify (Q := fun _ s => GoodBut (some i) s ∧ Fresh (· = 0) i s) fun s hs => ⟨?_, ?_⟩)
    fun _ => ?_
  · exact (hs.1.except i).edit rfl rfl rfl (fun _ _ hx => hx) fun hi => absurd rfl hi
  · unfold Fresh
    rw [setInode_self]
    exact hs.2.imp_right fun h => ⟨h.1, hf _ h.2⟩
  · refine iput_triple hP (GoodBut.editable i) (fun _ hs => hs.1.noPipe i) (fun s hs hc hdrop => ?_)
      (fun _ hs _ _ => hs.1) fun _ hs => hs.clear rfl rfl
    obtain h0 | h1 := hs.2
    · exact absurd h0 hc
    · obtain hdev | hmany | hlinks := hdrop
      · exact hs.1.clear hdev (hs.1.noPipe i)
      · omega
      · exact absurd h1.2 hlinks

/-! ## Inodes that come into the table -/

theorem scanInodes_lt {inode : Nat → MInode} {n last i : Nat} {found : Option Nat}
    (h : (scanInodes inode n last found).1 = some i) (hfound : ∀ j, found = some j → j < 32)
      : i < 32 := by
  induction n generalizing last found with
  | zero => exact hfound i h
  | succ n ih =>
    have hnext : (if last + 1 ≥ 32 then 0 else last + 1) < 32 := by
      split <;> omega
    unfold scanInodes at h
    dsimp only at h
    generalize (if last + 1 ≥ 32 then 0 else last + 1) = next at h hnext
    split at h
    · split at h
      · cases h
        exact hnext
      · exact ih h fun j hj => Option.some.inj hj ▸ hnext
    · exact ih h hfound

/-- `get_empty_inode`; the inode that it takes is clean. -/
theorem getEmptyInode_triple {P : State Tables → Prop} {R : Nat → State Tables → Prop} (hP : Stable P)
    (htake : ∀ s i, i < 32 → P s → (s.inode i).dirt = false →
      R i (s.setInode i { MInode.zero with count := 1 })) :
    Triple watch P (getEmptyInode : Call Tables Nat) R := by
  refine .bind Triple.read fun found => ?_
  refine .bind (.modify (Q := fun _ s => (∀ i, found.1 = some i → i < 32) ∧ P s) fun s hs => ?_)
    fun _ => ?_
  · obtain ⟨rfl, hs⟩ := hs
    exact ⟨fun i hi => scanInodes_lt hi nofun, hP.frame (s := s) rfl rfl rfl hs⟩
  · refine .fact fun hlt => ?_
    cases hfound : found.1 with
    | none => exact .stop
    | some i =>
      refine .bind ((writeInode_still i).keeps hP) fun _ => .bind Triple.read fun h => ?_
      refine .ite (fun _ => .stop) fun hdirt => ?_
      refine .bind (.modify (Q := fun _ => R i) fun s hs => ?_) fun _ => .pure fun s hs => hs
      exact htake s i (hlt i hfound) hs.2 (by rw [hs.1]; exact Bool.not_eq_true _ ▸ hdirt)

/-- The entry of the table that `get_empty_inode` has cleared. -/
def Empty (i : Nat) (s : State Tables) : Prop := s.inode i = { MInode.zero with count := 1 }

theorem getEmptyInode_good :
    Triple watch Good (getEmptyInode : Call Tables Nat) fun i s => i < 32 ∧ Good s ∧ Empty i s :=
  getEmptyInode_triple (GoodBut.stable none) fun _ i hi hs _ =>
    ⟨hi, (hs.except i).clear rfl rfl, setInode_self⟩

theorem getEmptyInode_sound : Sound watch (getEmptyInode : Call Tables Nat) :=
  .of_triple (getEmptyInode_good.post fun _ _ h => h.2.1)

/-- An inode that is not in the table. -/
theorem findInode_none {s : State Tables} (hs : Good s) {dev : Dev} {nr : Num} (hdev : dev ≠ 0)
    (h : findInode s.inode dev nr = none) (i : Nat) :
    ¬ ((s.inode i).dev = dev ∧ (s.inode i).num = nr) := by
  rintro ⟨rfl, rfl⟩
  have hi := List.find?_eq_none.mp h i (List.mem_range.mpr (hs.inTable i hdev))
  exact hi (by rw [beq_self_eq_true, beq_self_eq_true]; rfl)

theorem findInode_some {s : State Tables} {dev : Dev} {nr : Num} {i : Nat}
    (h : findInode s.inode dev nr = some i) : (s.inode i).dev = dev ∧ (s.inode i).num = nr := by
  have hi := List.find?_some h
  rw [Bool.and_eq_true] at hi
  exact ⟨eq_of_beq hi.1, eq_of_beq hi.2⟩

/-- `read_inode`: the inode gets what is in its slot. -/
theorem readInode_triple {i : Nat} {P R : State Tables → Prop} (hP : Framed P) (hR : Framed R)
    (hread : ∀ s d, P s → s.slot (s.inode i).dev (s.inode i).num = some d →
      R (s.setInode i { s.inode i with disk := d })) :
    Triple watch P (readInode i : Call Tables Unit) fun _ => R := by
  refine .bind Triple.read fun h => .bind (superOf_triple h.dev) fun sb => ?_
  refine .bind (.modify (Q := fun _ s => s.superAt h.dev = some sb ∧ s.inode i = h ∧ P s) fun s hs => ?_)
    fun _ => .bind (.modify (Q := fun _ => R) fun s hs => ?_) fun _ => (brelse_apart _).keeps hR
  · exact ⟨hs.1, hs.2.1, hP.frame (s := s) rfl rfl rfl hs.2.2⟩
  · obtain ⟨hsb, rfl, hs⟩ := hs
    refine hread s _ hs ?_
    unfold State.slot
    rw [hsb]
    rfl

/-- An entry of the table comes to hold an inode that was not in the table. -/
theorem GoodBut.identify {s : State Tables} (hs : Good s) {i : Nat} (hi : i < 32) {h : MInode}
    (hnone : findInode s.inode h.dev h.num = none) (hpipe : h.pipe = (s.inode i).pipe) :
    GoodBut (some i) (s.setInode i h) :=
  hs.setInode (h := h) (fun hdev => ⟨hi, fun j _ => findInode_none hs hdev hnone j⟩)
    (hpipe.trans (hs.noPipe i)) (fun _ _ hx => nomatch hx) fun hne => absurd rfl hne

theorem igetLoop_sound {e : Nat} (he : e < 32) (n : Nat) (dev : Dev) (nr : Num) :
    Sound watch (igetLoop e n dev nr : Call Tables Nat) := by
  induction n generalizing dev nr with
  | zero => exact .stop
  | succ n ih =>
    refine Sound.of_triple (.bind Triple.read fun found => ?_)
    cases found with
    | none =>
      refine .bind (.modify (Q := fun _ => GoodBut (some e)) fun s hs => .identify hs.2 he hs.1 rfl)
        fun _ => ?_
      refine .bind (readInode_triple (R := Good) (GoodBut.stable _).toFramed
        (GoodBut.stable none).toFramed
        fun s d hs hslot => ?_) fun _ => .pure fun s hs => hs
      exact hs.edit rfl rfl rfl (fun _ hj hx => absurd (Option.some.inj hx) hj) fun _ _ _ => hslot
    | some i =>
      refine (Sound.triple ?_).pre fun s hs => hs.2
      refine .bind (addCount_sound i 1) fun _ => .bind (getInode_still i).sound fun h => ?_
      refine .ite (fun _ => .bind .read fun mounted => ?_) fun _ => .bind (iput_sound e) fun _ => .pure
      cases mounted with
      | none => exact .bind (iput_sound e) fun _ => .pure
      | some k => exact .bind (iput_sound i) fun _ => .bind .read fun dev => ih dev 1

theorem iget_sound (dev : Dev) (nr : Num) : Sound watch (iget dev nr : Call Tables Nat) := by
  refine .ite (fun _ => .stop) fun _ => Sound.of_triple (.bind getEmptyInode_good fun e => ?_)
  exact .fact fun he => (igetLoop_sound he 9 dev nr).triple.pre fun s hs => hs.1

/-- `new_inode`, of an inode that is not in the table. -/
theorem newInode_triple (dev : Dev) :
    Triple Alarm.ofMarks Good (newInode dev : Call Tables (Option Nat)) fun r s =>
      Good s ∧ ∀ i, r = some i → Fresh (· = 1) i s := by
  have hput : ∀ i, Triple Alarm.ofMarks Good (do
      iput i
      return none : Call Tables (Option Nat)) fun r s => Good s ∧ ∀ j, r = some j → Fresh (· = 1) j s :=
    fun i => .bind (iput_sound i).triple fun _ => .pure fun s hs => ⟨hs, nofun⟩
  refine .bind getEmptyInode_good fun i => .fact fun hi => ?_
  refine (Triple.bind ((superOf_still dev).sound.triple) fun sb => ?_).pre fun s hs => hs.1
  refine .bind Triple.read fun zero => ?_
  cases zero with
  | none => exact (hput i).pre fun s hs => hs.2
  | some zero =>
    obtain ⟨k, map, j⟩ := zero
    refine .ite (fun _ => (hput i).pre fun s hs => hs.2) fun _ => ?_
    refine .bind Triple.read fun data => .bind ((setBytes_still _ _).sound.triple.pre fun s hs
      => hs.2.2) fun _ => ?_
    refine .bind Triple.read fun found => ?_
    let absent := fun s : State Tables => findInode s.inode dev (BitVec.ofNat 16 (j + k * 8192))
      = none ∧ Good s
    have hpre : Framed absent :=
      ⟨fun hi hc hs h => ⟨by rw [hi]; exact h.1, (GoodBut.stable none).frame hi hc hs h.2⟩⟩
    refine .bind (Q := fun _ => absent) (.when (fun _ => .alarm rfl) fun hfound s hs => ⟨?_, hs.2⟩)
      fun _ => ?_
    · rw [hs.1]
      exact Option.not_isSome_iff_eq_none.mp hfound
    · refine .bind (Keeps.read.keeps hpre) fun me => .bind (currentTime_apart.keeps hpre) fun t => ?_
      refine .bind (.modify (Q := fun _ s => Good s ∧ Fresh (· = 1) i s) fun s hs => ⟨?_, .inr ?_⟩)
        fun _ =>
        .pure fun s hs => ⟨hs.1, fun _ h => Option.some.inj h ▸ hs.2⟩
      · refine GoodBut.settle (i := i) (GoodBut.identify hs.2 hi ?_ ?_) fun _ hdirt => ?_
        · exact hs.1
        · rfl
        · rw [setInode_self] at hdirt
          cases hdirt
      · rw [setInode_self]
        exact ⟨rfl, rfl⟩

end Linux011.FileSys
