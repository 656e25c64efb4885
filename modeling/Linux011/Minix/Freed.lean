import Linux011.Minix.BlockMap
import Linux011.Minix.Truncate

/-!
# Which bits `truncate` clears (`fs/truncate.c`, `fs/bitmap.c`)

`truncate` seen from one inode, whatever the rest of the disk holds: the bits of the blocks in its
tree are cleared, and no others. An index block is held while its pointers are read, so it is freed
after them, and `free_block` finds no buffer in use.

That the tree has no block twice is not enough: `free_block` panics at a block that is not in the data
area, and at one whose bit is clear. `Freeable` has what it takes.
-/

namespace Linux011.Minix

open Fs (Id Byte Block)
open Inode (Dev)
open Lib (Path Forest)

variable {d d' : Disk} {sb : SuperBlock} {i : Id} {p : Path Nat}

/-- `truncate`, with `i_dirt` of the inodes. -/
def truncateDirt (d : Disk) (dirt : Id → Bool) (i : Id) : Option (Disk × (Id → Bool)) :=
  (truncate d i).map fun d' =>
    (d', if (d.inode i).isFile then Function.update dirt i true else dirt)

/-- The blocks of an inode can be freed: none is referenced twice or held, and all are in the data area
with their bits set. -/
structure Disk.Freeable (d : Disk) (i : Id) (sb : SuperBlock) : Prop where
  first : 1 ≤ sb.firstdatazone
  once : d.Once i
  area : ∀ {p}, IsZone p → d.ref i p ≠ 0 →
    sb.firstdatazone ≤ (d.ref i p).toNat ∧ (d.ref i p).toNat < sb.nzones
  marked : ∀ {p}, IsZone p → d.ref i p ≠ 0 → d.zmap i.dev (bitOf sb (d.ref i p)) = true
  free : ∀ {p}, IsZone p → d.ref i p ≠ 0 → d.bcount i.dev (d.ref i p) = 0

theorem Disk.Freeable.area_left (M : d.Freeable i sb) (hsb : d.super i.dev = some sb)
    (hi : (d.inode i).isFile = true) :
    Area (d.forest i.dev) i.num sb ∧ Left (d.forest i.dev) i.num i.dev sb IsZone d := by
  have href := d.forest_ref hi
  refine ⟨⟨M.first, fun {p q} hp hq h0 h => ?_, fun {p} hp h0 => ?_⟩, hsb, rfl, fun p hp h0 => ?_,
    fun p hp h0 => ?_⟩
  · rw [href] at h0 h
    rw [href] at h
    exact M.once hp hq h0 h
  · rw [href] at h0 ⊢
    exact M.area hp h0
  · rw [href] at h0 ⊢
    exact M.marked hp h0
  · rw [href] at h0 ⊢
    exact M.free hp h0

/-- An inode without blocks can be truncated. -/
theorem Disk.Freeable.of_empty (hfirst : 1 ≤ sb.firstdatazone) (h : ∀ k < 9, (d.inode i).zone k = 0) :
    d.Freeable i sb := by
  have hzero : ∀ {p}, IsZone p → d.ref i p = 0 := by
    intro p
    induction p with
    | root k => exact fun hk => h k hk
    | step p k ih => exact fun hp => Disk.ref_step_of_zero (ih (isZone_shape p k hp))
  exact ⟨hfirst, fun hp _ h0 => absurd (hzero hp) h0, fun hp h0 => absurd (hzero hp) h0,
    fun hp h0 => absurd (hzero hp) h0, fun hp h0 => absurd (hzero hp) h0⟩

/-- TRUNCATE FREES EXACTLY THE FILE. Of an inode whose blocks can be freed, the bits of all blocks in
its tree are cleared, and no other bit is changed. The inode is left without a size and without zones,
and dirty; to truncate it again changes no bit. -/
theorem truncate_exact (hsb : d.super i.dev = some sb) (hi : (d.inode i).isFile = true)
    (M : d.Freeable i sb) (dirt : Id → Bool) :
    ∃ d' dirt', truncateDirt d dirt i = some (d', dirt') ∧
      (∀ p, IsZone p → d.ref i p ≠ 0 → d'.zmap i.dev (bitOf sb (d.ref i p)) = false) ∧
      (∀ e j, (e = i.dev → ∀ p, IsZone p → d.ref i p ≠ 0 → j ≠ bitOf sb (d.ref i p)) →
        d'.zmap e j = d.zmap e j) ∧
      d'.imap = d.imap ∧ (d'.inode i).size = 0 ∧ (∀ k < 9, (d'.inode i).zone k = 0) ∧
      dirt' i = true ∧ (∀ j, j ≠ i → d'.inode j = d.inode j ∧ dirt' j = dirt j) ∧
      ∃ d'' dirt'', truncateDirt d' dirt' i = some (d'', dirt'') ∧ d''.zmap = d'.zmap ∧
        d''.imap = d'.imap := by
  obtain ⟨A, L⟩ := M.area_left hsb hi
  obtain ⟨d', h, H, hinode⟩ := truncate_frees A L hi
  have hself : d'.inode i = (d.inode i).emptied := by rw [hinode, Function.update_self]
  have hzone : ∀ k < 9, (d'.inode i).zone k = 0 := fun k hk => by
    rw [hself]
    exact if_pos hk
  have hi' : (d'.inode i).isFile = true := by
    rw [hself]
    exact hi
  have hsb' : d'.super i.dev = some sb := H.super ▸ hsb
  -- the second time there is nothing to free
  have M' : d'.Freeable i sb := .of_empty M.first hzone
  obtain ⟨A', L'⟩ := M'.area_left hsb' hi'
  obtain ⟨d'', h', H', -⟩ := truncate_frees A' L' hi'
  have hnone : ∀ p, IsZone p → (d'.forest i.dev).ref i.num p = 0 := by
    intro p
    rw [d'.forest_ref hi']
    induction p with
    | root k => exact fun hk => hzone k hk
    | step p k ih => exact fun hp => Disk.ref_step_of_zero (ih (isZone_shape p k hp))
  have hsame : d''.zmap = d'.zmap := by
    funext e j
    by_cases he : e = i.dev
    · rw [he]
      exact H'.keep j fun p hp h0 => absurd (hnone p hp) h0
    · rw [H'.other e he]
  refine ⟨d', _, congrArg (Option.map _) h, fun p hp h0 => ?_, fun e j hj => ?_, H.imap, ?_, hzone, ?_,
    fun j hj => ⟨?_, ?_⟩, d'', _, congrArg (Option.map _) h', hsame, H'.imap⟩
  · rw [← d.forest_ref hi] at h0 ⊢
    exact H.clear p hp h0
  · by_cases he : e = i.dev
    · subst he
      refine H.keep j fun p hp h0 => ?_
      rw [d.forest_ref hi] at h0 ⊢
      exact hj rfl p hp h0
    · rw [H.other e he]
  · rw [hself]
    rfl
  · rw [if_pos hi, Function.update_self]
  · rw [hinode, Function.update_of_ne hj]
  · rw [if_pos hi, Function.update_of_ne hj]

/-- `indexedDisk` with regular files. -/
def indexedFile (bit : Nat) : Disk :=
  { indexedDisk bit with
    inode := fun _ => { MInode.zero with mode := 0o100644, zone := fun k => if k = 7 then 5 else 0 } }

theorem indexedFile_ref (bit : Nat) (i : Id) (p : Path Nat) :
    (indexedFile bit).ref i p = (indexedDisk bit).ref i p := rfl

theorem indexedFile_cases {bit : Nat} (h0 : (indexedFile bit).ref i p ≠ 0) :
    (indexedFile bit).ref i p = 5 ∨ (indexedFile bit).ref i p = 6 := by
  rw [indexedFile_ref, indexedDisk_ref] at h0 ⊢
  match p with
  | .root k =>
    dsimp only at h0 ⊢
    grind
  | .step (.root k) l =>
    dsimp only at h0 ⊢
    grind
  | .step (.step p k) l => exact absurd rfl h0

theorem indexedFile_freeable : (indexedFile 3).Freeable ⟨1, 1⟩ ⟨5, 10, 8⟩ := by
  refine ⟨by decide, indexedDisk_once 3 ⟨1, 1⟩, fun {p} _ h0 => ?_, fun {p} _ h0 => ?_, fun _ _ => rfl⟩
  · rcases indexedFile_cases h0 with h | h
    · rw [h]
      decide
    · rw [h]
      decide
  · rcases indexedFile_cases h0 with h | h
    · rw [h]
      decide
    · rw [h]
      decide

/-- A file with an index block and one block behind it, blocks 5 and 6: bits 1 and 2 are cleared, and
bit 4 stays set. -/
theorem truncate_exact_indexed : ∃ d' dirt', truncateDirt (indexedFile 3) (fun _ => false) ⟨1, 1⟩ =
    some (d', dirt') ∧ d'.zmap 1 1 = false ∧ d'.zmap 1 2 = false ∧ d'.zmap 1 4 = true ∧
      dirt' ⟨1, 1⟩ = true := by
  have hsb : (indexedFile 3).super (Id.dev ⟨1, 1⟩) = some ⟨5, 10, 8⟩ := rfl
  obtain ⟨d', dirt', h, hclear, hkeep, -, -, -, hdirt, -⟩ :=
    truncate_exact hsb (by decide) indexedFile_freeable fun _ => false
  have h5 : (indexedFile 3).ref ⟨1, 1⟩ (.root 7) = 5 := rfl
  have h6 : (indexedFile 3).ref ⟨1, 1⟩ (.step (.root 7) 0) = 6 := by
    rw [indexedFile_ref, indexedDisk_ref]
    rfl
  refine ⟨d', dirt', h, ?_, ?_, ?_, hdirt⟩
  · have hbit := hclear (.root 7) (by decide : 7 < 9) (by rw [h5]; decide)
    rw [h5] at hbit
    exact hbit
  · have hbit := hclear (.step (.root 7) 0) ⟨Or.inl rfl, by decide⟩ (by rw [h6]; decide)
    rw [h6] at hbit
    exact hbit
  · rw [hkeep 1 4 fun _ p _ h0 => ?_]
    · rfl
    · rcases indexedFile_cases h0 with h | h
      · rw [h]
        decide
      · rw [h]
        decide

/-- The bit of the index block is clear: `free_block` panics. -/
theorem truncate_unmarked : ∃ d i sb, d.super (Id.dev i) = some sb ∧ (d.inode i).isReg = true ∧
    d.Once i ∧ (∀ p, IsZone p → d.ref i p ≠ 0 →
      sb.firstdatazone ≤ (d.ref i p).toNat ∧ (d.ref i p).toNat < sb.nzones) ∧
    (∀ dev b, d.bcount dev b = 0) ∧ truncate d i = none := by
  refine ⟨indexedFile 1, ⟨1, 1⟩, ⟨5, 10, 8⟩, rfl, by decide, indexedDisk_once 1 ⟨1, 1⟩, fun p _ h0 => ?_,
    fun _ _ => rfl, ?_⟩
  · rcases indexedFile_cases h0 with h | h
    · rw [h]
      decide
    · rw [h]
      decide
  · rw [← Option.isNone_iff_eq_none]
    decide +kernel

end Linux011.Minix
