import Mathlib.Logic.Relation
import Linux011.Lib.Machine
import Linux011.Minix.Zones

/-!
# Two tasks in one block map

Two tasks create the same block of the same file. A task gives the processor up only in `getblk`,
which `new_block` calls after it has set a bit of the zone map, and in `bread`. Between the test of
a pointer and its update the other task may pass the same test: then each has a block of its own,
the second one overwrites the pointer, and the first block can be found no more.

When no task tests a pointer for which the other one is getting a block, both find the same block,
and no block is lost.
-/

namespace Linux011.Minix

open Fs (Id Byte Block)
open Inode (Dev)
open Lib (Path Forest)

/-! ## The machine -/

/-- Where a task is in `_bmap`; the keys that are left to follow, the next one first. -/
inductive Pc
  /-- before the test of zone `k` -/
  | zone (k : Nat) (ks : List Nat)
  /-- in `new_block` for zone `k`, with block `v` -/
  | zoneBlock (k : Nat) (ks : List Nat) (v : Block)
  /-- reading index block `a` -/
  | entry (a : Block) (k : Nat) (ks : List Nat)
  /-- in `new_block` for pointer `k` of the index block, with block `v` -/
  | entryBlock (a : Block) (k : Nat) (ks : List Nat) (v : Block)
  /-- returned -/
  | done (b : Block)
  deriving DecidableEq

/-- With a pointer in hand the task follows it, or returns it. -/
def Pc.go (a : Block) : List Nat → Pc
  | [] => .done a
  | k :: ks => if a = 0 then .done 0 else .entry a k ks

/-- The zone and the keys of a block of the file. -/
def Pc.start (blockSeq : Nat) : Pc :=
  if blockSeq < 7 then .zone blockSeq []
  else
    let blockSeq := blockSeq - 7
    if blockSeq < 512 then .zone 7 [blockSeq]
    else
      let blockSeq := blockSeq - 512
      .zone 8 [blockSeq >>> 9, blockSeq &&& 511]

structure Race where
  disk : Disk
  pc : Bool → Pc

def Race.goto (s : Race) (x : Bool) (d : Disk) (pc : Pc) : Race := ⟨d, Function.update s.pc x pc⟩

/-- Task `x` runs until it may give the processor up again. -/
def Race.step (i : Id) (s : Race) (x : Bool) : Option Race :=
  let d := s.disk
  match s.pc x with
  | .zone k ks =>
    if (d.inode i).zone k = 0 then
      (takeBit d i.dev).map fun (b, d) =>
        match b with
        | none => s.goto x (d.setZone i k 0) (.go 0 ks)
        | some v => s.goto x d (.zoneBlock k ks v)
    else some (s.goto x d (.go ((d.inode i).zone k) ks))
  | .zoneBlock k ks v =>
    (useBlock d i.dev v).map fun d => s.goto x (d.setZone i k v) (.go v ks)
  | .entry a k ks =>
    let d := d.bread i.dev a
    let p := pointer (d.block i.dev a) k
    if p = 0 then
      (takeBit d i.dev).map fun (b, d) =>
        match b with
        | none => s.goto x (d.brelse i.dev a) (.done 0)
        | some v => s.goto x d (.entryBlock a k ks v)
    else some (s.goto x (d.brelse i.dev a) (.go p ks))
  | .entryBlock a k ks v =>
    (useBlock d i.dev v).map fun d =>
      s.goto x ((if v ≠ 0 then d.setEntry i.dev a k v else d).brelse i.dev a) (.go v ks)
  | .done _ => none

/-- The pointer that a task is about to test: its index block, 0 for the inode, and its key. -/
def Pc.tests : Pc → Option (Block × Nat)
  | .zone k _ => some (0, k)
  | .entry a k _ => some (a, k)
  | _ => none

/-- The pointer that a task has found empty and is getting a block for. -/
def Pc.fills : Pc → Option (Block × Nat)
  | .zoneBlock k _ _ => some (0, k)
  | .entryBlock a k _ _ => some (a, k)
  | _ => none

/-- The block that a task has taken and nothing leads to yet. -/
def Pc.holds : Pc → Option Block
  | .zoneBlock _ _ v => some v
  | .entryBlock _ _ _ v => some v
  | _ => none

/-- The task does not test a pointer that the other one is getting a block for. -/
def Race.Alone (s : Race) (x : Bool) : Prop :=
  ∀ ptr, (s.pc x).tests = some ptr → (s.pc (!x)).fills ≠ some ptr

/-- Both tasks are about to create the block, in a sound disk. -/
structure Race.Begin (d0 : Disk) (i : Id) (sb : SuperBlock) (blockSeq : Nat) (s : Race) : Prop where
  settled : d0.Settled
  super : d0.super i.dev = some sb
  file : (d0.inode i).isFile = true
  seq : blockSeq < 7 + 512 + 512 * 512
  disk : s.disk = d0
  pc : ∀ x, s.pc x = .start blockSeq

/-- What both tasks should agree on when they have returned a block: it is the one the file has
there, and the blocks that have been taken meanwhile are blocks of the file. -/
def Race.Agreed (d0 : Disk) (i : Id) (sb : SuperBlock) (blockSeq : Nat) (s : Race) : Prop :=
  ∀ b c, s.pc false = .done b → s.pc true = .done c → b ≠ 0 → c ≠ 0 →
    b = c ∧ getDiskBlock s.disk i blockSeq = some (b, s.disk) ∧
      ∀ v, s.disk.Used i.dev sb v → ¬ d0.Used i.dev sb v →
        ∃ p, IsZone p ∧ (s.disk.forest i.dev).ref i.num p = v

variable {d0 d d' : Disk} {i : Id} {sb : SuperBlock} {blockSeq : Nat} {s s' : Race} {x y : Bool}
  {a b v : Block} {k : Nat} {ks : List Nat} {p q : Path Nat}

/-! ## One task alone -/

/-- Task `x` has run from `s` to `t`. -/
def Race.Solo (i : Id) (x : Bool) : Race → Race → Prop :=
  Relation.ReflTransGen fun s t => s.step i x = some t

theorem Pc.go_cons (a : Block) (k : Nat) (ks : List Nat) :
    Pc.go a (k :: ks) = if a = 0 then .done 0 else .entry a k ks := rfl

theorem Pc.go_zero (ks : List Nat) : Pc.go 0 ks = .done 0 := by
  cases ks with
  | nil => rfl
  | cons k ks => rfl

@[simp] theorem Race.goto_pc (s : Race) (x : Bool) (d : Disk) (pc : Pc) :
    (s.goto x d pc).pc x = pc := Function.update_self ..

@[simp] theorem Race.goto_disk (s : Race) (x : Bool) (d : Disk) (pc : Pc) :
    (s.goto x d pc).disk = d := rfl

theorem Race.goto_goto (s : Race) (x : Bool) (d d' : Disk) (pc pc' : Pc) :
    (s.goto x d pc).goto x d' pc' = s.goto x d' pc' := by
  simp only [Race.goto, Function.update_idem]

/-- The steps from a zone on are `fillZone`. -/
theorem Race.solo_zone (hpc : s.pc x = .zone k ks) (h : fillZone s.disk i k true = some (b, d')) :
    Race.Solo i x s (s.goto x d' (.go b ks)) := by
  unfold fillZone at h
  split at h
  · next hz =>
    obtain ⟨⟨c, d1⟩, hnew, heq⟩ := Option.map_eq_some_iff.mp h
    obtain ⟨rfl, rfl⟩ := Prod.mk.inj heq
    rw [newBlock_eq] at hnew
    obtain ⟨⟨r, d2⟩, htake, hnew⟩ := Option.bind_eq_some_iff.mp hnew
    cases r with
    | none =>
      obtain ⟨rfl, rfl⟩ := Prod.mk.inj (Option.some.inj hnew)
      refine .single ?_
      unfold Race.step
      rw [hpc]
      dsimp only
      rw [if_pos hz.2, htake]
      rfl
    | some v =>
      obtain ⟨d3, huse, heq⟩ := Option.map_eq_some_iff.mp hnew
      obtain ⟨rfl, rfl⟩ := Prod.mk.inj heq
      have h1 : s.step i x = some (s.goto x d2 (.zoneBlock k ks v)) := by
        unfold Race.step
        rw [hpc]
        dsimp only
        rw [if_pos hz.2, htake]
        rfl
      have h2 : (s.goto x d2 (.zoneBlock k ks v)).step i x =
          some (s.goto x (d3.setZone i k v) (.go v ks)) := by
        unfold Race.step
        rw [Race.goto_pc]
        dsimp only
        rw [Race.goto_disk, huse, Option.map_some, Race.goto_goto]
      exact .tail (.single h1) h2
  · next hz =>
    obtain ⟨rfl, rfl⟩ := Prod.mk.inj (Option.some.inj h)
    refine .single ?_
    unfold Race.step
    rw [hpc]
    dsimp only
    rw [if_neg fun h => hz ⟨rfl, h⟩]

/-- The steps from an index block on are `fillEntry`. -/
theorem Race.solo_entry (hpc : s.pc x = .entry a k ks)
    (h : fillEntry s.disk i.dev a k true = some (b, d')) :
    Race.Solo i x s (s.goto x d' (.go b ks)) := by
  unfold fillEntry at h
  dsimp only at h
  split at h
  · next hz =>
    obtain ⟨⟨c, d1⟩, hnew, heq⟩ := Option.map_eq_some_iff.mp h
    obtain ⟨rfl, rfl⟩ := Prod.mk.inj heq
    rw [newBlock_eq] at hnew
    obtain ⟨⟨r, d2⟩, htake, hnew⟩ := Option.bind_eq_some_iff.mp hnew
    cases r with
    | none =>
      obtain ⟨rfl, rfl⟩ := Prod.mk.inj (Option.some.inj hnew)
      refine .single ?_
      unfold Race.step
      rw [hpc]
      dsimp only
      rw [if_pos hz.2, htake, Pc.go_zero]
      rfl
    | some v =>
      obtain ⟨d3, huse, heq⟩ := Option.map_eq_some_iff.mp hnew
      obtain ⟨rfl, rfl⟩ := Prod.mk.inj heq
      have h1 : s.step i x = some (s.goto x d2 (.entryBlock a k ks v)) := by
        unfold Race.step
        rw [hpc]
        dsimp only
        rw [if_pos hz.2, htake]
        rfl
      have h2 : (s.goto x d2 (.entryBlock a k ks v)).step i x =
          some (s.goto x ((if v ≠ 0 then d3.setEntry i.dev a k v else d3).brelse i.dev a)
            (.go v ks)) := by
        unfold Race.step
        rw [Race.goto_pc]
        dsimp only
        rw [Race.goto_disk, huse, Option.map_some, Race.goto_goto]
      exact .tail (.single h1) h2
  · next hz =>
    obtain ⟨rfl, rfl⟩ := Prod.mk.inj (Option.some.inj h)
    refine .single ?_
    unfold Race.step
    rw [hpc]
    dsimp only
    rw [if_neg fun h => hz ⟨rfl, h⟩]

/-- Following the pointer that has been found. -/
theorem Race.solo_go (d : Disk) (h : (if a = 0 then some (0, d) else fillEntry d i.dev a k true) =
    some (b, d')) : Race.Solo i x (s.goto x d (.go a (k :: ks))) (s.goto x d' (.go b ks)) := by
  rw [Pc.go_cons]
  split at h
  · next h0 =>
    obtain ⟨rfl, rfl⟩ := Prod.mk.inj (Option.some.inj h)
    rw [if_pos h0, Pc.go_zero]
    exact .refl
  · next h0 =>
    rw [if_neg h0]
    have := Race.solo_entry (i := i) (x := x) (s := s.goto x d (.entry a k ks)) (Race.goto_pc ..) h
    rwa [Race.goto_goto] at this

/-- A task that nobody comes between does what `create_diskBlock` does. -/
theorem Race.solo_create (hpc : s.pc x = .start blockSeq)
    (h : createDiskBlock s.disk i blockSeq = some (b, d')) :
    Race.Solo i x s (s.goto x d' (.done b)) := by
  unfold createDiskBlock bmap at h
  unfold Pc.start at hpc
  split at h
  · cases h
  · split at h
    · next h7 =>
      rw [if_pos h7] at hpc
      exact Race.solo_zone hpc h
    · next h7 =>
      rw [if_neg h7] at hpc
      dsimp only at h hpc
      split at h
      · next h512 =>
        rw [if_pos h512] at hpc
        obtain ⟨⟨ind, d1⟩, h1, h2⟩ := Option.bind_eq_some_iff.mp h
        exact (Race.solo_zone hpc h1).trans (Race.solo_go d1 h2)
      · next h512 =>
        rw [if_neg h512] at hpc
        obtain ⟨⟨dind, d1⟩, h1, h2⟩ := Option.bind_eq_some_iff.mp h
        refine (Race.solo_zone hpc h1).trans ?_
        dsimp only at h2
        split at h2
        · next h0 =>
          obtain ⟨rfl, rfl⟩ := Prod.mk.inj (Option.some.inj h2)
          rw [h0, Pc.go_zero]
        · next h0 =>
          obtain ⟨⟨ind, d2⟩, h2, h3⟩ := Option.bind_eq_some_iff.mp h2
          exact (Race.solo_go d1 ((if_neg h0).trans h2)).trans (Race.solo_go d2 h3)

/-! ## Where a task is -/

/-- The path that goes on with these keys. -/
def along (p : Path Nat) : List Nat → Path Nat
  | [] => p
  | k :: ks => along (.step p k) ks

theorem isZone_of_along (h : IsZone (along p ks)) : IsZone p := by
  induction ks generalizing p with
  | nil => exact h
  | cons k ks ih => exact isZone_shape p k (ih h)

/-- The task is on its way to the pointer of the block; what it has read is what is there, and the
pointer it fills is empty. -/
def Place (F : Forest Inode.Num Nat Block) (n : Inode.Num) (goal : Path Nat) : Pc → Prop
  | .zone k ks => along (.root k) ks = goal
  | .zoneBlock k ks _ => along (.root k) ks = goal ∧ F.ref n (.root k) = 0
  | .entry a k ks => a ≠ 0 ∧ ∃ p, along (.step p k) ks = goal ∧ F.ref n p = a
  | .entryBlock a k ks _ =>
    a ≠ 0 ∧ ∃ p, along (.step p k) ks = goal ∧ F.ref n p = a ∧ F.ref n (.step p k) = 0
  | .done b => b ≠ 0 → F.ref n goal = b

variable {F F' : Forest Inode.Num Nat Block} {n : Inode.Num} {goal : Path Nat} {pc : Pc}

@[simp] theorem Pc.fills_go (a : Block) (ks : List Nat) : (Pc.go a ks).fills = none := by
  cases ks with
  | nil => rfl
  | cons k ks =>
    rw [Pc.go_cons]
    split <;> rfl

@[simp] theorem Pc.holds_go (a : Block) (ks : List Nat) : (Pc.go a ks).holds = none := by
  cases ks with
  | nil => rfl
  | cons k ks =>
    rw [Pc.go_cons]
    split <;> rfl

theorem Pc.fills_of_holds (h : pc.holds = some v) : ∃ ptr, pc.fills = some ptr := by
  cases pc with
  | zoneBlock k ks v => exact ⟨_, rfl⟩
  | entryBlock a k ks v => exact ⟨_, rfl⟩
  | _ => cases h

theorem Place.go (hp : along p ks = goal) (h : F.ref n p = a) : Place F n goal (.go a ks) := by
  cases ks with
  | nil => exact fun _ => hp ▸ h
  | cons k ks =>
    rw [Pc.go_cons]
    split
    · exact fun h0 => absurd rfl h0
    · next h0 => exact ⟨h0, p, hp, h⟩

theorem Place.start (blockSeq : Nat) : Place F n (slot blockSeq) (.start blockSeq) := by
  unfold Pc.start slot
  split
  · exact rfl
  · dsimp only
    split
    · exact rfl
    · rw [Nat.sub_sub, shiftRight_nine, and_511]
      exact rfl

/-- The pointer that the task fills is at `p`. -/
def FillsAt (F : Forest Inode.Num Nat Block) (n : Inode.Num) (p : Path Nat) : Pc → Prop
  | .zoneBlock k _ _ => p = .root k
  | .entryBlock a k _ _ => ∃ q, p = .step q k ∧ F.ref n q = a
  | _ => False

/-- Tasks that fill the pointer at one path fill one pointer. -/
theorem FillsAt.fills_eq {pc' : Pc} (h : FillsAt F n p pc) (h' : FillsAt F n p pc') :
    pc.fills = pc'.fills := by
  cases pc with
  | zoneBlock k ks v =>
    cases pc' with
    | zoneBlock k' ks' v' =>
      obtain rfl : p = .root k := h
      cases h'
      rfl
    | entryBlock a' k' ks' v' =>
      obtain ⟨q, h', -⟩ := h'
      exact absurd (h'.symm.trans h) (by simp)
    | _ => exact h'.elim
  | entryBlock a k ks v =>
    obtain ⟨q, rfl, ha⟩ := h
    cases pc' with
    | zoneBlock k' ks' v' => cases h'
    | entryBlock a' k' ks' v' =>
      obtain ⟨q', hq, ha'⟩ := h'
      cases hq
      exact congrArg (fun a => some (a, k)) (ha.symm.trans ha')
    | _ => exact h'.elim
  | _ => exact h.elim

/-- The place of a task stays what it is when another pointer of the file is set. -/
theorem Place.attach (P : Place F n goal pc) (hgoal : IsZone goal) (h0 : F.ref n p = 0)
    (hother : ¬ FillsAt F n p pc)
    (h : ∀ q, IsZone q → F'.ref n q = if q = p then v else F.ref n q) : Place F' n goal pc := by
  have hkeep : ∀ q, IsZone q → F.ref n q ≠ 0 → F'.ref n q = F.ref n q := fun q hq hq0 =>
    (h q hq).trans (if_neg fun hqp : q = p => hq0 (hqp ▸ h0))
  cases pc with
  | zone k ks => exact P
  | zoneBlock k ks w =>
    obtain ⟨hk, hzero⟩ := P
    have hz : IsZone (.root k) := isZone_of_along (hk ▸ hgoal)
    exact ⟨hk, (h _ hz).trans ((if_neg fun hkp => hother hkp.symm).trans hzero)⟩
  | entry a k ks =>
    obtain ⟨ha0, q, hk, ha⟩ := P
    have hz : IsZone q := isZone_shape q k (isZone_of_along (hk ▸ hgoal))
    exact ⟨ha0, q, hk, (hkeep q hz (ha ▸ ha0)).trans ha⟩
  | entryBlock a k ks w =>
    obtain ⟨ha0, q, hk, ha, hzero⟩ := P
    have hz : IsZone (.step q k) := isZone_of_along (hk ▸ hgoal)
    refine ⟨ha0, q, hk, (hkeep q (isZone_shape q k hz) (ha ▸ ha0)).trans ha, ?_⟩
    exact (h _ hz).trans ((if_neg fun hkp => hother ⟨q, hkp.symm, ha⟩).trans hzero)
  | done b => exact fun hb => (hkeep goal hgoal (P hb ▸ hb)).trans (P hb)

/-! ## What holds while no pointer is filled twice -/

structure Race.Inv (d0 : Disk) (i : Id) (sb : SuperBlock) (goal : Path Nat) (s : Race) : Prop where
  super : s.disk.super i.dev = some sb
  file : (s.disk.inode i).isFile = true
  layout : 1 ≤ sb.firstdatazone ∧ sb.nzones ≤ 2 ^ 16
  reserved : ∀ j < mapBits, j = 0 ∨ sb.nzones ≤ j + sb.firstdatazone - 1 →
    s.disk.zmap i.dev j = true
  separate : (s.disk.forest i.dev).Separate IsZone fun b =>
    ∃ n p, IsZone p ∧ (s.disk.forest i.dev).ref n p = b
  used : ∀ n p, IsZone p → (s.disk.forest i.dev).ref n p ≠ 0 →
    s.disk.Used i.dev sb ((s.disk.forest i.dev).ref n p)
  new : ∀ b, s.disk.Used i.dev sb b → ¬ d0.Used i.dev sb b →
    (∃ p, IsZone p ∧ (s.disk.forest i.dev).ref i.num p = b) ∨ ∃ x, (s.pc x).holds = some b
  held : ∀ x v, (s.pc x).holds = some v → v ≠ 0 ∧ s.disk.Used i.dev sb v ∧
    ∀ n p, IsZone p → (s.disk.forest i.dev).ref n p ≠ v
  distinct : ∀ x v, (s.pc x).holds = some v → (s.pc (!x)).holds ≠ some v
  apart : ∀ x ptr, (s.pc x).fills = some ptr → (s.pc (!x)).fills ≠ some ptr
  place : ∀ x, Place (s.disk.forest i.dev) i.num goal (s.pc x)

theorem Race.goto_other (s : Race) (d : Disk) (pc : Pc) (h : y ≠ x) :
    (s.goto x d pc).pc y = s.pc y := Function.update_of_ne h ..

theorem not_eq_of_ne {x y : Bool} (h : y ≠ x) : y = !x := by
  cases x <;> cases y <;> first | rfl | exact absurd rfl h

/-- A task goes on without having changed anything. -/
theorem Race.Inv.move (I : s.Inv d0 i sb goal) (hx : (s.pc x).holds = none) (hh : pc.holds = none)
    (hf : pc.fills = none) (P : Place (s.disk.forest i.dev) i.num goal pc) :
    (s.goto x s.disk pc).Inv d0 i sb goal := by
  have hholds : ∀ y, ((s.goto x s.disk pc).pc y).holds = (s.pc y).holds := by
    intro y
    by_cases hy : y = x
    · subst hy
      rw [Race.goto_pc, hh, hx]
    · rw [Race.goto_other _ _ _ hy]
  refine ⟨I.super, I.file, I.layout, I.reserved, I.separate, I.used, fun b hb hb0 => ?_, fun y v hv => ?_,
    fun y v hv => ?_, fun y ptr hy hy' => ?_, fun y => ?_⟩
  · simp only [hholds]
    exact I.new b hb hb0
  · exact I.held y v (hholds y ▸ hv)
  · rw [hholds] at hv ⊢
    exact I.distinct y v hv
  · by_cases hyx : y = x
    · subst hyx
      rw [Race.goto_pc, hf] at hy
      cases hy
    · by_cases hyx' : (!y) = x
      · subst hyx'
        rw [Race.goto_pc, hf] at hy'
        cases hy'
      · rw [Race.goto_other _ _ _ hyx] at hy
        rw [Race.goto_other _ _ _ hyx'] at hy'
        exact I.apart y ptr hy hy'
  · by_cases hyx : y = x
    · subst hyx
      rw [Race.goto_pc]
      exact P
    · rw [Race.goto_other _ _ _ hyx]
      exact I.place y

/-- A task has found its pointer empty, and takes a block. -/
theorem Race.Inv.take (I : s.Inv d0 i sb goal)
    (hv : s.disk.Fresh i.dev sb v) (hx : (s.pc x).holds = none)
    (hd : d = { s.disk.setZmap i.dev (v.toNat - (sb.firstdatazone - 1)) true with
      bcount := d.bcount })
    (hh : pc.holds = some v) (hf : ∀ ptr, pc.fills = some ptr → (s.pc (!x)).fills ≠ some ptr)
    (P : Place (s.disk.forest i.dev) i.num goal pc) : (s.goto x d pc).Inv d0 i sb goal := by
  have hforest : d.forest i.dev = s.disk.forest i.dev := by rw [hd]; rfl
  have hused : d.Used i.dev sb = fun a => a = v ∨ s.disk.Used i.dev sb a := by
    rw [← s.disk.used_setZmap I.layout.1 hv, hd]
    rfl
  have hv0 : v ≠ 0 := by
    rintro rfl
    have := hv.first
    have := I.layout.1
    rw [show (0 : Block).toNat = 0 from rfl] at *
    omega
  have hnot : ¬ s.disk.Used i.dev sb v := hv.not_used
  refine ⟨?_, ?_, I.layout, fun j hj hres => ?_, ?_, fun n p hp h0 => ?_, fun b hb hb0 => ?_, fun y w hw => ?_,
    fun y w hw hw' => ?_, fun y ptr hy hy' => ?_, fun y => ?_⟩
  · rw [Race.goto_disk, hd]
    exact I.super
  · rw [Race.goto_disk, hd]
    exact I.file
  · rw [Race.goto_disk, hd]
    show (if _ then true else s.disk.zmap i.dev j) = true
    split
    · rfl
    · exact I.reserved j hj hres
  · rw [Race.goto_disk, hforest]
    exact I.separate
  · rw [Race.goto_disk, hforest] at h0 ⊢
    rw [hused]
    exact Or.inr (I.used n p hp h0)
  · rw [Race.goto_disk, hused] at hb
    rw [Race.goto_disk, hforest]
    rcases hb with rfl | hb
    · exact Or.inr ⟨x, by rw [Race.goto_pc, hh]⟩
    · refine (I.new b hb hb0).imp_right ?_
      rintro ⟨y, hy⟩
      have hyx : y ≠ x := by
        rintro rfl
        rw [hx] at hy
        cases hy
      exact ⟨y, by rw [Race.goto_other _ _ _ hyx]; exact hy⟩
  · rw [Race.goto_disk, hforest, hused]
    by_cases hyx : y = x
    · subst hyx
      rw [Race.goto_pc, hh] at hw
      cases hw
      refine ⟨hv0, Or.inl rfl, fun n p hp h => hnot ?_⟩
      have := I.used n p hp (h ▸ hv0)
      rwa [h] at this
    · rw [Race.goto_other _ _ _ hyx] at hw
      obtain ⟨h1, h2, h3⟩ := I.held y w hw
      exact ⟨h1, Or.inr h2, h3⟩
  · -- the block is not the one that the other task holds
    have hother : ∀ y w, (s.pc y).holds = some w → w ≠ v := by
      rintro y w hy rfl
      exact hnot (I.held y w hy).2.1
    by_cases hyx : y = x
    · subst hyx
      rw [Race.goto_pc, hh] at hw
      cases hw
      rw [Race.goto_other _ _ _ (by simp)] at hw'
      exact hother _ _ hw' rfl
    · obtain rfl : y = !x := not_eq_of_ne hyx
      rw [Race.goto_other _ _ _ hyx] at hw
      rw [Bool.not_not, Race.goto_pc, hh] at hw'
      cases hw'
      exact hother _ _ hw rfl
  · by_cases hyx : y = x
    · subst hyx
      rw [Race.goto_pc] at hy
      rw [Race.goto_other _ _ _ (by simp)] at hy'
      exact hf ptr hy hy'
    · obtain rfl : y = !x := not_eq_of_ne hyx
      rw [Race.goto_other _ _ _ hyx] at hy
      rw [Bool.not_not, Race.goto_pc] at hy'
      exact hf ptr hy' hy
  · rw [Race.goto_disk, hforest]
    by_cases hyx : y = x
    · subst hyx
      rw [Race.goto_pc]
      exact P
    · rw [Race.goto_other _ _ _ hyx]
      exact I.place y

/-- A task sets the pointer it fills to the block it has taken. -/
theorem Race.Inv.store (I : s.Inv d0 i sb goal) (hgoal : IsZone goal) (hx : (s.pc x).holds = some v)
    (hp : IsZone p) (hfills : FillsAt (s.disk.forest i.dev) i.num p (s.pc x))
    (hzero : (s.disk.forest i.dev).ref i.num p = 0)
    (href : ∀ j q, IsZone q → (d.forest i.dev).ref j q =
      if j = i.num ∧ q = p then v else (s.disk.forest i.dev).ref j q)
    (hsuper : d.super = s.disk.super) (hfile : (d.inode i).isFile = (s.disk.inode i).isFile)
    (hzmap : d.zmap = s.disk.zmap) (hh : pc.holds = none) (hf : pc.fills = none)
    (P : Place (d.forest i.dev) i.num goal pc) : (s.goto x d pc).Inv d0 i sb goal := by
  obtain ⟨hv0, hvused, hvfree⟩ := I.held x v hx
  have hused : d.Used i.dev sb = s.disk.Used i.dev sb := by
    unfold Disk.Used
    rw [hzmap]
  refine ⟨hsuper ▸ I.super, hfile.trans I.file, I.layout, fun j hj hres => ?_, ?_, fun n q hq h0 => ?_,
    fun b hb hb0 => ?_, fun y w hw => ?_, fun y w hw hw' => ?_, fun y ptr hy hy' => ?_, fun y => ?_⟩
  · rw [Race.goto_disk, hzmap]
    exact I.reserved j hj hres
  · have S := I.separate.attach hp hzero hv0 (fun ⟨n, q, hq, h⟩ => hvfree n q hq h) href
    exact ⟨S.inj, fun _ => Iff.rfl⟩
  · rw [Race.goto_disk] at h0 ⊢
    rw [hused]
    rw [href n q hq] at h0 ⊢
    split
    · exact hvused
    · next hnq =>
      rw [if_neg hnq] at h0
      exact I.used n q hq h0
  · rw [Race.goto_disk, hused] at hb
    rcases I.new b hb hb0 with ⟨q, hq, h⟩ | ⟨y, hy⟩
    · by_cases hqp : q = p
      · have hb00 : b = 0 := by rw [← h, hqp, hzero]
        subst hb00
        have := hb.1
        have := I.layout.1
        rw [show (0 : Block).toNat = 0 from rfl] at *
        omega
      · exact Or.inl ⟨q, hq, by rw [Race.goto_disk, href _ q hq, if_neg fun h => hqp h.2, h]⟩
    · by_cases hyx : y = x
      · subst hyx
        rw [hx] at hy
        cases hy
        exact Or.inl ⟨p, hp, by rw [Race.goto_disk, href _ p hp, if_pos ⟨rfl, rfl⟩]⟩
      · exact Or.inr ⟨y, by rw [Race.goto_other _ _ _ hyx]; exact hy⟩
  · by_cases hyx : y = x
    · subst hyx
      rw [Race.goto_pc, hh] at hw
      cases hw
    · obtain rfl : y = !x := not_eq_of_ne hyx
      rw [Race.goto_other _ _ _ hyx] at hw
      obtain ⟨h1, h2, h3⟩ := I.held _ w hw
      refine ⟨h1, hused ▸ h2, fun n q hq => ?_⟩
      rw [Race.goto_disk, href n q hq]
      split
      · rintro rfl
        exact I.distinct x _ hx hw
      · exact h3 n q hq
  · by_cases hyx : y = x
    · subst hyx
      rw [Race.goto_pc, hh] at hw
      cases hw
    · obtain rfl : y = !x := not_eq_of_ne hyx
      rw [Bool.not_not, Race.goto_pc, hh] at hw'
      cases hw'
  · by_cases hyx : y = x
    · subst hyx
      rw [Race.goto_pc, hf] at hy
      cases hy
    · obtain rfl : y = !x := not_eq_of_ne hyx
      rw [Bool.not_not, Race.goto_pc, hf] at hy'
      cases hy'
  · by_cases hyx : y = x
    · subst hyx
      rw [Race.goto_pc]
      exact P
    · obtain rfl : y = !x := not_eq_of_ne hyx
      rw [Race.goto_other _ _ _ hyx]
      refine (I.place (!x)).attach (v := v) hgoal hzero (fun h => ?_) fun q hq => ?_
      · obtain ⟨ptr, hptr⟩ := Pc.fills_of_holds hx
        exact I.apart x ptr hptr (hfills.fills_eq h ▸ hptr)
      · rw [Race.goto_disk, href i.num q hq]
        exact if_congr (and_iff_right rfl) rfl rfl

/-- One step, when it tests no pointer that is being filled. -/
theorem Race.Inv.next (I : s.Inv d0 i sb goal) (hgoal : IsZone goal) (hx : s.Alone x)
    (h : s.step i x = some s') : s'.Inv d0 i sb goal := by
  have P := I.place x
  unfold Race.step at h
  dsimp only at h
  cases hpc : s.pc x with
  | zone k ks =>
    rw [hpc] at h P
    dsimp only at h
    have hholds : (s.pc x).holds = none := by rw [hpc]; rfl
    have hroot : (s.disk.forest i.dev).ref i.num (.root k) = (s.disk.inode i).zone k := if_pos I.file
    split at h
    · next hz =>
      rcases takeBit_spec I.super I.layout I.reserved with ht | ⟨v, hv, ht⟩
      · rw [ht] at h
        cases h
        dsimp only
        rw [Disk.setZone_eq_self hz]
        exact I.move hholds (Pc.holds_go 0 ks) (Pc.fills_go 0 ks) (Place.go P (hroot.trans hz))
      · rw [ht] at h
        cases h
        refine I.take hv hholds rfl rfl (fun ptr hptr => ?_) ⟨P, hroot.trans hz⟩
        exact hx ptr (by rw [hpc]; exact hptr)
    · cases h
      exact I.move hholds (Pc.holds_go _ ks) (Pc.fills_go _ ks) (Place.go P hroot)
  | zoneBlock k ks v =>
    rw [hpc] at h P
    dsimp only at h
    obtain ⟨d1, hd1, rfl⟩ := Option.map_eq_some_iff.mp h
    obtain ⟨hk, hzero⟩ := P
    have hholds : (s.pc x).holds = some v := by rw [hpc]; rfl
    obtain ⟨hv0, -, hfree⟩ := I.held x v hholds
    have hd1 : d1 = s.disk.setBlock i.dev v fun _ => 0 :=
      (Option.some.inj (Option.ite_none_left_eq_some.mp hd1).2).symm
    subst hd1
    have hz : (s.disk.inode i).zone k = 0 := (if_pos I.file).symm.trans hzero
    have href := fun j q hq => Disk.ref_setZone (q := q) hv0 hfree I.file hz j hq
    refine I.store hgoal hholds (isZone_of_along (hk ▸ hgoal)) ?_ hzero href rfl ?_ rfl
      (Pc.holds_go v ks) (Pc.fills_go v ks) (Place.go hk ?_)
    · rw [hpc]
      rfl
    · rw [Disk.setZone, Disk.setInode_inode]
      rfl
    · rw [href _ _ (isZone_of_along (hk ▸ hgoal)), if_pos ⟨rfl, rfl⟩]
  | entry a k ks =>
    rw [hpc] at h P
    dsimp only at h
    have hholds : (s.pc x).holds = none := by rw [hpc]; rfl
    obtain ⟨ha0, p, hk, ha⟩ := P
    have hptr : (s.disk.forest i.dev).ref i.num (.step p k) = pointer (s.disk.block i.dev a) k := by
      rw [Forest.ref_step_of_ne (ha ▸ ha0), ha]
      rfl
    split at h
    · next hz =>
      rcases takeBit_spec (d := s.disk.bread i.dev a) I.super I.layout I.reserved with ht | ⟨v, hv, ht⟩
      · rw [ht] at h
        cases h
        dsimp only
        rw [Disk.brelse_bread]
        exact I.move hholds rfl rfl fun h0 => absurd rfl h0
      · rw [ht] at h
        cases h
        refine I.take ⟨hv.first, hv.last, hv.clear⟩ hholds rfl rfl (fun ptr hptr => ?_)
          ⟨ha0, p, hk, ha, hptr.trans hz⟩
        exact hx ptr (by rw [hpc]; exact hptr)
    · cases h
      rw [Disk.brelse_bread]
      exact I.move hholds (Pc.holds_go _ ks) (Pc.fills_go _ ks) (Place.go hk hptr)
  | entryBlock a k ks v =>
    rw [hpc] at h P
    dsimp only at h
    obtain ⟨d1, hd1, rfl⟩ := Option.map_eq_some_iff.mp h
    obtain ⟨ha0, p, hk, ha, hzero⟩ := P
    have hholds : (s.pc x).holds = some v := by rw [hpc]; rfl
    obtain ⟨hv0, -, hfree⟩ := I.held x v hholds
    have hd1 : d1 = s.disk.setBlock i.dev v fun _ => 0 :=
      (Option.some.inj (Option.ite_none_left_eq_some.mp hd1).2).symm
    subst hd1
    rw [if_pos hv0]
    have hp : IsZone (.step p k) := isZone_of_along (hk ▸ hgoal)
    have hz : pointer (s.disk.block i.dev a) k = 0 := by
      rw [← hzero, Forest.ref_step_of_ne (ha ▸ ha0), ha]
      rfl
    have href := fun j q hq => Disk.ref_setEntry (q := q) I.separate
      (by rintro ⟨n, q, hq, h⟩; exact hfree n q hq h) hv0 ha ha0 hp hz j hq
    refine I.store hgoal hholds hp ?_ hzero href rfl rfl rfl (Pc.holds_go v ks) (Pc.fills_go v ks)
      (Place.go hk ?_)
    · rw [hpc]
      exact ⟨p, rfl, ha⟩
    · exact (href _ _ hp).trans (if_pos ⟨rfl, rfl⟩)
  | done b =>
    rw [hpc] at h
    cases h

theorem Race.Begin.inv (B : Race.Begin d0 i sb blockSeq s) : s.Inv d0 i sb (slot blockSeq) := by
  have S := B.settled.sound
  have Z := S.zones B.super
  have hstart : (Pc.start blockSeq).holds = none ∧ (Pc.start blockSeq).fills = none := by
    unfold Pc.start
    dsimp only
    split
    · exact ⟨rfl, rfl⟩
    · split <;> exact ⟨rfl, rfl⟩
  have hholds : ∀ x, (s.pc x).holds = none := fun x => by
    rw [B.pc x]
    exact hstart.1
  rcases B with ⟨-, hsuper, hfile, -, hdisk, hpc⟩
  subst hdisk
  refine ⟨hsuper, hfile, S.layout hsuper, S.reserved hsuper, ⟨Z.inj, fun _ => Iff.rfl⟩,
    fun n p hp h0 => (Z.used_iff h0).mpr ⟨n, p, hp, rfl⟩, fun b hb hb0 => absurd hb hb0,
    fun x v hv => ?_, fun x v hv => ?_, fun x ptr hptr => ?_, fun x => ?_⟩
  · rw [hholds] at hv
    cases hv
  · rw [hholds] at hv
    cases hv
  · rw [hpc, hstart.2] at hptr
    cases hptr
  · rw [hpc]
    exact Place.start blockSeq

/-- In every run in which no task tests a pointer that the other one is getting a block for, the two
tasks agree. -/
theorem create_diskBlock_agreed
    (h : Lib.Reach (Race.step i) Race.Alone (Race.Begin d0 i sb blockSeq) s) :
    s.Agreed d0 i sb blockSeq := by
  have hbegin : d0.Sound ∧ blockSeq < 7 + 512 + 512 * 512 := by
    induction h with
    | start hB => exact ⟨hB.settled.sound, hB.seq⟩
    | next x _ _ _ ih => exact ih
  have hgoal := (slot_isData hbegin.2).isZone
  have I : s.Inv d0 i sb (slot blockSeq) :=
    h.invariant (fun _ hB => hB.inv) fun s x s' I hx hstep => I.next hgoal hx hstep
  intro b c hb hc hb0 hc0
  have hB : (s.disk.forest i.dev).ref i.num (slot blockSeq) = b := by
    have P := I.place false
    rw [hb] at P
    exact P hb0
  have hC : (s.disk.forest i.dev).ref i.num (slot blockSeq) = c := by
    have P := I.place true
    rw [hc] at P
    exact P hc0
  refine ⟨hB.symm.trans hC, ?_, fun v hv hv0 => ?_⟩
  · rw [getDiskBlock_eq I.file hbegin.2, hB]
  · refine (I.new v hv hv0).resolve_right ?_
    rintro ⟨x, hx⟩
    cases x with
    | false =>
      rw [hb] at hx
      cases hx
    | true =>
      rw [hc] at hx
      cases hx

/-! ## One task between the steps of the other, and both at once -/

/-- Both tasks are about to create the first block of the empty file. -/
def smallRace (blockSeq : Nat) : Race := ⟨smallDisk, fun _ => .start blockSeq⟩

theorem smallRace_begin {n : Nat} (h : n < 7 + 512 + 512 * 512) :
    (smallRace n).Begin smallDisk ⟨1, 2⟩ ⟨5, 8, 3⟩ n :=
  ⟨smallDisk_settled, rfl, rfl, h, rfl, fun _ => rfl⟩

/-- The first task creates the index block, the second one finds it there and creates the block of data, and
the first one finds that. -/
def smallRaceRun : Option Race :=
  Lib.run (fun s x => (Race.step ⟨1, 2⟩ s x).filter fun _ =>
    (s.pc x).tests.all fun ptr => (s.pc (!x)).fills ≠ some ptr)
    (smallRace 7) [false, false, true, true, true, false]

theorem create_diskBlock_agreed_between :
    smallRaceRun.map (fun s => (s.pc false, s.pc true)) = some (.done 6, .done 6) ∧
      ∀ s ∈ smallRaceRun, s.Agreed smallDisk ⟨1, 2⟩ ⟨5, 8, 3⟩ 7 := by
  refine ⟨by decide +kernel, fun s hs => ?_⟩
  refine create_diskBlock_agreed (Lib.Reach.ofChecked (fun s x _ _ hcheck ptr hptr => ?_)
    (Lib.Reach.start (smallRace_begin (by decide))) hs)
  rw [hptr] at hcheck
  exact of_decide_eq_true hcheck

/-- Both have passed the test of the zone before either sets it. -/
theorem create_diskBlock_lost : ¬ ∀ d0 i sb blockSeq s,
    Lib.Reach (Race.step i) (fun _ _ => True) (Race.Begin d0 i sb blockSeq) s →
      s.Agreed d0 i sb blockSeq := by
  intro hclaim
  have hrun : (Lib.run (Race.step ⟨1, 2⟩) (smallRace 0) [false, true, false, true]).map
      (fun s => (s.pc false, s.pc true)) = some (.done 5, .done 6) := by decide +kernel
  obtain ⟨s, hs, hpc⟩ := Option.map_eq_some_iff.mp hrun
  obtain ⟨hf, ht⟩ := Prod.mk.inj hpc
  have hreach : Lib.Reach (Race.step ⟨1, 2⟩) (fun _ _ => True)
      (Race.Begin smallDisk ⟨1, 2⟩ ⟨5, 8, 3⟩ 0) s :=
    (Lib.Reach.start (smallRace_begin (by decide))).ofRun (fun _ _ => trivial) hs
  have := (hclaim _ _ _ _ s hreach 5 6 hf ht (by decide) (by decide)).1
  exact absurd this (by decide)

end Linux011.Minix
