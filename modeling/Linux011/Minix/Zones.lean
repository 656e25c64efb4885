import Linux011.Lib.Machine
import Linux011.Minix.FileDev

/-!
# The zone map counts every block once

Files grow, are written, truncated and destroyed, one call after another, and any call may find the
disk full. All the time the zone map has the bit of a block of the data area set if and only if a
pointer of some file or directory leads to it, and then only one does.
-/

namespace Linux011.Minix

open Fs (Id Byte Block)
open Inode (Dev)
open Lib (Path Forest)

/-- `free_inode`, when nobody refers to the inode; `none` is a panic. -/
def freeInode (d : Disk) (i : Id) : Option Disk :=
  if i.dev = 0 then some (d.setInode i .zero)
  else if (d.inode i).nlinks ≠ 0 then none
  else
    match d.super i.dev with
    | none => none
    | some sb =>
      if i.num.toNat < 1 ∨ sb.ninodes < i.num.toNat then none
      else some ((d.setImap i.dev i.num.toNat false).setInode i .zero)

/-- What `iput` of the last reference does to the disk. -/
def iputLast (d : Disk) (i : Id) : Option Disk :=
  if (d.inode i).nlinks = 0 then (truncate d i).bind fun d => freeInode d i else some d

inductive Event
  | create (i : Id) (blockSeq : Nat)
  | write (i : Id) (append : Bool) (fpos : Nat) (buf : List Byte)
  | truncate (i : Id)
  | iput (i : Id)

/-- The inode that a call is about. -/
def Event.of : Event → Id
  | .create i _ => i
  | .write i .. => i
  | .truncate i => i
  | .iput i => i

def Event.act : Event → Disk → Option Disk
  | .create i n, d => if (d.inode i).isFile then (createDiskBlock d i n).map Prod.snd else none
  | .write i append fpos buf, d =>
    if (d.inode i).isFile then (fileWrite d i append fpos buf).map fun r => r.2.2 else none
  | .truncate i, d => Minix.truncate d i
  | .iput i, d => iputLast d i

/-- One call, on an inode of a file system that is mounted. -/
def step (d : Disk) (e : Event) : Option Disk :=
  if (d.super e.of.dev).isSome then e.act d else none

variable {d d' : Disk} {dev : Dev} {sb : SuperBlock} {i : Id} {n : Inode.Num} {p : Path Nat}

/-- What a sound disk depends on. -/
theorem Disk.Sound.of_refs (S : d.Sound) (hsuper : d'.super = d.super) (hzmap : d'.zmap = d.zmap)
    (href : ∀ dev n p, IsZone p → (d'.forest dev).ref n p = (d.forest dev).ref n p) : d'.Sound where
  layout h := S.layout (hsuper ▸ h)
  reserved h := by
    rw [hzmap]
    exact S.reserved (hsuper ▸ h)
  zones {dev sb} h := by
    have hused : d'.Used dev sb = d.Used dev sb := by
      unfold Disk.Used
      rw [hzmap]
    rw [hused]
    exact (S.zones (hsuper ▸ h)).congr fun n p hp => href dev n p hp

/-- An inode whose zones are empty, or are no blocks, has no block. -/
theorem Disk.ref_eq_zero (h : (d.inode i).isFile = true → ∀ k < 9, (d.inode i).zone k = 0) :
    ∀ p, IsZone p → (d.forest i.dev).ref i.num p = 0 := by
  intro p
  induction p with
  | root k =>
    intro hk
    show (if (d.inode i).isFile then (d.inode i).zone k else 0) = 0
    split
    · next hf => exact h hf k hk
    · rfl
  | step p k ih => exact fun hp => Forest.ref_step_of_zero (ih (isZone_shape p k hp))

/-- An inode without blocks is freed. -/
theorem Disk.Sound.setInode (S : d.Sound) {h : MInode}
    (hold : (d.inode i).isFile = true → ∀ k < 9, (d.inode i).zone k = 0)
    (hnew : h.isFile = true → ∀ k < 9, h.zone k = 0) : (d.setInode i h).Sound := by
  refine S.of_refs rfl rfl fun dev n p hp => ?_
  by_cases hi : (⟨dev, n⟩ : Id) = i
  · subst hi
    have hzero := Disk.ref_eq_zero (d := d.setInode ⟨dev, n⟩ h) (i := ⟨dev, n⟩)
      (by rw [Disk.setInode_inode]; exact hnew) p hp
    exact hzero.trans (Disk.ref_eq_zero (d := d) (i := ⟨dev, n⟩) hold p hp).symm
  · clear hp
    induction p with
    | root k =>
      have hother : (d.setInode i h).inode ⟨dev, n⟩ = d.inode ⟨dev, n⟩ := Function.update_of_ne hi ..
      show (if ((d.setInode i h).inode ⟨dev, n⟩).isFile then
        ((d.setInode i h).inode ⟨dev, n⟩).zone k else 0) = _
      rw [hother]
      rfl
    | step p k ih =>
      rw [Forest.ref, Forest.ref, ih]
      rfl

/-- Sound, and no buffer is in use. -/
structure Disk.Settled (d : Disk) : Prop where
  sound : d.Sound
  quiet : d.Quiet

theorem freeInode_settled (S : d.Settled)
    (hi : (d.inode i).isFile = true → ∀ k < 9, (d.inode i).zone k = 0)
    (h : freeInode d i = some d') : d'.Settled := by
  have hzero : ∀ {d : Disk}, d.Sound → ((d.inode i).isFile = true → ∀ k < 9, (d.inode i).zone k = 0) →
      (d.setInode i .zero).Sound := fun S hi => S.setInode hi (fun _ _ _ => rfl)
  unfold freeInode at h
  split at h
  · cases h
    exact ⟨hzero S.sound hi, S.quiet⟩
  · split at h
    · cases h
    · split at h
      · cases h
      · split at h
        · cases h
        · cases h
          have S' : (d.setImap i.dev i.num.toNat false).Sound :=
            ⟨S.sound.layout, S.sound.reserved, S.sound.zones⟩
          exact ⟨hzero S' hi, S.quiet⟩

theorem truncate_settled (S : d.Settled) (hsb : d.super i.dev = some sb)
    (h : truncate d i = some d') : d'.Settled ∧
      ((d'.inode i).isFile = true → ∀ k < 9, (d'.inode i).zone k = 0) := by
  by_cases hi : (d.inode i).isFile = true
  · obtain ⟨d1, h1, S1, E⟩ := truncate_spec S.sound S.quiet hsb hi
    obtain rfl : d1 = d' := Option.some.inj (h1.symm.trans h)
    refine ⟨⟨S1, fun e b => ?_⟩, fun _ k hk => ?_⟩
    · rw [E.bcount]
      exact S.quiet e b
    · rw [E.inode, Function.update_self]
      exact if_pos hk
  · unfold truncate at h
    rw [if_neg hi] at h
    cases h
    exact ⟨S, fun hf => absurd hf hi⟩

/-- One call keeps the disk sound, and no buffer stays in use. -/
theorem step_settled (S : d.Settled) {e : Event} (h : step d e = some d') : d'.Settled := by
  unfold step at h
  split at h
  · next hsome =>
    obtain ⟨sb, hsb⟩ := Option.isSome_iff_exists.mp hsome
    cases e with
    | create i n =>
      obtain ⟨hi, h⟩ := Option.ite_none_right_eq_some.mp h
      obtain ⟨⟨b, d1⟩, hd1, rfl⟩ := Option.map_eq_some_iff.mp h
      have hn : n < 7 + 512 + 512 * 512 := by
        by_contra hlarge
        unfold createDiskBlock bmap at hd1
        rw [if_pos (by omega)] at hd1
        cases hd1
      obtain ⟨b', d2, hd2, F⟩ := createDiskBlock_spec S.sound S.quiet hsb hi hn
      obtain ⟨rfl, rfl⟩ := Prod.mk.inj (Option.some.inj (hd1.symm.trans hd2))
      exact ⟨F.sound, F.grows.quiet S.quiet⟩
    | write i append fpos buf =>
      obtain ⟨hi, h⟩ := Option.ite_none_right_eq_some.mp h
      obtain ⟨⟨r, fpos', d1⟩, hd1, rfl⟩ := Option.map_eq_some_iff.mp h
      obtain ⟨done, -, S', W, -⟩ := fileWrite_spec S.sound S.quiet hsb hi hd1
      exact ⟨S', W.quiet S.quiet⟩
    | truncate i => exact (truncate_settled S hsb h).1
    | iput i =>
      have h : iputLast d i = some d' := h
      unfold iputLast at h
      split at h
      · obtain ⟨d1, hd1, h⟩ := Option.bind_eq_some_iff.mp h
        obtain ⟨S1, hzero⟩ := truncate_settled S hsb hd1
        exact freeInode_settled S1 hzero h
      · cases h
        exact S
  · cases h

/-- In every reachable state a bit of the data area is set if and only if a pointer leads to its
block, and no two pointers lead to one block. -/
theorem zone_map_exact (h : Lib.Reach step (fun _ _ => True) Disk.Settled d)
    (hsb : d.super dev = some sb) :
    (∀ b : Block, sb.firstdatazone ≤ b.toNat → b.toNat < sb.nzones →
      (d.zmap dev (bitOf sb b) = true ↔ ∃ n p, IsZone p ∧ (d.forest dev).ref n p = b)) ∧
    ∀ n p, IsZone p → (d.forest dev).ref n p ≠ 0 →
      (sb.firstdatazone ≤ ((d.forest dev).ref n p).toNat ∧
        ((d.forest dev).ref n p).toNat < sb.nzones) ∧
      ∀ m q, IsZone q → (d.forest dev).ref m q = (d.forest dev).ref n p → m = n ∧ q = p := by
  have S : d.Settled := h.invariant (fun _ => id) fun d e d' S _ hstep => step_settled S hstep
  have Z := S.sound.zones hsb
  constructor
  · intro b hfirst hlast
    have h0 : b ≠ 0 := by
      rintro rfl
      have := (S.sound.layout hsb).1
      rw [show (0 : Block).toNat = 0 from rfl] at hfirst
      omega
    rw [← Z.used_iff h0]
    exact ⟨fun hbit => ⟨hfirst, hlast, hbit⟩, fun hu => hu.2.2⟩
  · intro n p hp h0
    have hused := (Z.used_iff h0).mpr ⟨n, p, hp, rfl⟩
    refine ⟨⟨hused.1, hused.2.1⟩, fun m q hq heq => ?_⟩
    obtain ⟨hm, hq⟩ := Z.inj hp hq h0 heq.symm
    exact ⟨hm.symm, hq.symm⟩

/-- Three free blocks, and an empty file. -/
def smallDiskOf (dev : Dev) : Disk where
  inode i := if i = ⟨dev, 2⟩ then { MInode.zero with mode := 0o100644, nlinks := 1 } else .zero
  super e := if e = dev then some ⟨5, 8, 3⟩ else none
  zmap _ j := !(1 ≤ j && j < 4)
  imap _ _ := true
  block _ _ _ := 0
  bcount _ _ := 0

theorem smallDiskOf_settled (dev : Dev) : (smallDiskOf dev).Settled := by
  have hsuper : ∀ {e sb}, (smallDiskOf dev).super e = some sb → sb = ⟨5, 8, 3⟩ := by
    intro e sb h
    exact (Option.some.inj (Option.ite_none_right_eq_some.mp h).2).symm
  have hzero : ∀ e n p, IsZone p → ((smallDiskOf dev).forest e).ref n p = 0 := by
    intro e n p hp
    refine Disk.ref_eq_zero (i := ⟨e, n⟩) (fun _ k _ => ?_) p hp
    show (if _ then ({ MInode.zero with mode := 0o100644, nlinks := 1 } : MInode)
      else MInode.zero).zone k = 0
    split <;> rfl
  refine ⟨⟨fun h => ?_, fun h j _ hres => ?_, fun {e sb} h => ⟨fun {m _ p _} hp _ h0 => ?_, ?_⟩⟩,
    fun _ _ => rfl⟩
  · rw [hsuper h]
    exact ⟨by decide, by decide⟩
  · rw [hsuper h] at hres
    dsimp only at hres
    show (!(decide (1 ≤ j) && decide (j < 4))) = true
    rcases hres with rfl | hj
    · rfl
    · rw [decide_eq_false (show ¬ j < 4 by omega), Bool.and_false]
      rfl
  · exact absurd (hzero e m p hp) h0
  · intro b h0
    obtain rfl := hsuper h
    constructor
    · rintro ⟨h1, h2, hbit⟩
      dsimp only at h1 h2 hbit
      have hj : (smallDiskOf dev).zmap e (b.toNat - (5 - 1)) = false := by
        show (!(decide (1 ≤ b.toNat - (5 - 1)) && decide (b.toNat - (5 - 1) < 4))) = false
        rw [decide_eq_true (show 1 ≤ b.toNat - (5 - 1) by omega),
          decide_eq_true (show b.toNat - (5 - 1) < 4 by omega)]
        rfl
      rw [hj] at hbit
      cases hbit
    · rintro ⟨n, p, hp, rfl⟩
      exact absurd (hzero e n p hp) h0

/-- The same on device 1. -/
def smallDisk : Disk where
  inode i := if i = ⟨1, 2⟩ then { MInode.zero with mode := 0o100644, nlinks := 1 } else .zero
  super dev := if dev = 1 then some ⟨5, 8, 3⟩ else none
  zmap _ j := !(1 ≤ j && j < 4)
  imap _ _ := true
  block _ _ _ := 0
  bcount _ _ := 0

theorem smallDisk_settled : smallDisk.Settled := smallDiskOf_settled 1

/-- The file gets a block of data, then an index block and the first block behind it. -/
def smallRun : Option Disk :=
  Lib.run step smallDisk [.write ⟨1, 2⟩ false 0 [65], .create ⟨1, 2⟩ 7]

theorem zone_map_exact_small : smallRun.isSome = true ∧ ∀ d ∈ smallRun,
    (∀ b : Block, 5 ≤ b.toNat → b.toNat < 8 →
      (d.zmap 1 (bitOf ⟨5, 8, 3⟩ b) = true ↔ ∃ n p, IsZone p ∧ (d.forest 1).ref n p = b)) ∧
    ∀ n p, IsZone p → (d.forest 1).ref n p ≠ 0 →
      (5 ≤ ((d.forest 1).ref n p).toNat ∧ ((d.forest 1).ref n p).toNat < 8) ∧
      ∀ m q, IsZone q → (d.forest 1).ref m q = (d.forest 1).ref n p → m = n ∧ q = p := by
  refine ⟨by decide +kernel, fun d hd => ?_⟩
  have hreach : Lib.Reach step (fun _ _ => True) Disk.Settled d :=
    (Lib.Reach.start smallDisk_settled).ofRun (fun _ _ => trivial) hd
  have hsuper : smallRun.map (fun d => d.super 1) = some (some ⟨5, 8, 3⟩) := by decide +kernel
  have hsb : d.super 1 = some ⟨5, 8, 3⟩ := by
    rw [hd] at hsuper
    exact Option.some.inj hsuper
  exact zone_map_exact hreach hsb

end Linux011.Minix
