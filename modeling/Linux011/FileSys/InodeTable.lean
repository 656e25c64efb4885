import Linux011.FileSys.Settle

/-!
# The inode table on the disk (`inode.c`)

An inode on the disk is 32 bytes of a block, among those of other inodes. `read_inode` and `write_inode`
compute block and place from the number; the blocks begin behind the bitmaps. Here the disk is nothing but
bytes: what is written is read again, whatever inodes are written in between (`writeInode_later`), and
outside its 32 bytes nothing changes (`byte_storeInode`).

The first 32 bytes of a `struct m_inode` are a `struct d_inode`; the rest is not on the disk, and neither
are zones from 9 on, which the model has and the source has not (`DInode.Same`).
-/

namespace Linux011.FileSys

open Lib (Returns Triple)
open Lib.Prog (forEach)

/-! ## The 32 bytes -/

/-- The same on the disk. -/
structure DInode.Same (d e : DInode) : Prop where
  mode : d.mode = e.mode
  uid : d.uid = e.uid
  size : d.size = e.size
  mtime : d.mtime = e.mtime
  gid : d.gid = e.gid
  nlinks : d.nlinks = e.nlinks
  zone : ∀ k < 9, d.zone k = e.zone k

section

variable {data : Nat → Byte} {n : Nat} {d : DInode}

theorem getLsbD_byteOf {w : Nat} (x : BitVec w) (r : Nat) :
    (byteOf x (r / 8)).getLsbD (r % 8) = x.getLsbD r := by
  rw [byteOf, BitVec.getLsbD_setWidth, BitVec.getLsbD_ushiftRight,
    decide_eq_true (Nat.mod_lt r (by decide)), Bool.true_and, Nat.div_add_mod]

/-- A number is made of its bytes. -/
theorem word16_eq {x : BitVec 16} (h : ∀ k < 2, data (n + k) = byteOf x k) : word16 data n = x := by
  apply BitVec.eq_of_getLsbD_eq
  intro r hr
  rw [getLsbD_word16 _ _ _ hr, h _ (by omega), getLsbD_byteOf]

theorem word32_eq {x : BitVec 32} (h : ∀ k < 4, data (n + k) = byteOf x k) : word32 data n = x := by
  apply BitVec.eq_of_getLsbD_eq
  intro r hr
  rw [getLsbD_word32 _ _ _ hr, h _ (by omega), getLsbD_byteOf]

/-- What is read from the bytes of an inode is the inode. -/
theorem readDInode_same (h : ∀ k < 32, data (n + k) = d.byte k) : (readDInode data n).Same d where
  mode := word16_eq fun k hk => by
    rw [h k (by omega), DInode.byte, if_pos hk]
  uid := word16_eq fun k hk => by
    rw [Nat.add_assoc, h _ (by omega), DInode.byte, if_neg (by omega), if_pos (by omega),
      Nat.add_sub_cancel_left]
  size := word32_eq fun k hk => by
    rw [Nat.add_assoc, h _ (by omega), DInode.byte, if_neg (by omega), if_neg (by omega), if_pos (by omega),
      Nat.add_sub_cancel_left]
  mtime := word32_eq fun k hk => by
    rw [Nat.add_assoc, h _ (by omega), DInode.byte, if_neg (by omega), if_neg (by omega), if_neg (by omega),
      if_pos (by omega), Nat.add_sub_cancel_left]
  gid := h 12 (by decide)
  nlinks := h 13 (by decide)
  zone k hk := word16_eq fun j hj => by
    have hdiv : (14 + 2 * k + j - 14) / 2 = k := by omega
    have hmod : (14 + 2 * k + j - 14) % 2 = j := by omega
    rw [show n + 14 + 2 * k + j = n + (14 + 2 * k + j) by omega, h _ (by omega), DInode.byte,
      if_neg (by omega), if_neg (by omega), if_neg (by omega), if_neg (by omega), if_neg (by omega),
      if_neg (by omega), hdiv, hmod]

end

/-! ## Blocks and places -/

section

variable {sb : SuperBlock} {num : Num}

/-- The first block of the inode table, behind boot block, super block and bitmaps. -/
def SuperBlock.tableStart (sb : SuperBlock) : Nat := 2 + sb.imapBlocks.toNat + sb.zmapBlocks.toNat

/-- The first block behind the inode table. -/
def SuperBlock.tableEnd (sb : SuperBlock) : Nat := sb.tableStart + (sb.ninodes.toNat + 31) / 32

theorem numPred_toNat (h : 1 ≤ num.toNat) : (num.zeroExtend 32 - 1 : Block).toNat = num.toNat - 1 := by
  rw [BitVec.toNat_sub, BitVec.toNat_setWidth]
  show (2 ^ 32 - 1 + num.toNat % 2 ^ 32) % 2 ^ 32 = _
  omega

/-- Nothing wraps: a number of an inode has its block in the table. -/
theorem SuperBlock.inodeBlock_toNat (h : 1 ≤ num.toNat) :
    (sb.inodeBlock num).toNat = sb.tableStart + (num.toNat - 1) / 32 := by
  have hdiv : ((num.zeroExtend 32 - 1 : Block) / 32).toNat = (num.toNat - 1) / 32 := by
    rw [BitVec.toNat_udiv, numPred_toNat h]
    rfl
  have himap : (sb.imapBlocks.zeroExtend 32 : Block).toNat = sb.imapBlocks.toNat :=
    BitVec.toNat_setWidth_of_le (by decide)
  have hzmap : (sb.zmapBlocks.zeroExtend 32 : Block).toNat = sb.zmapBlocks.toNat :=
    BitVec.toNat_setWidth_of_le (by decide)
  rw [inodeBlock, BitVec.toNat_add, BitVec.toNat_add, BitVec.toNat_add, hdiv, himap, hzmap]
  show (((2 + sb.imapBlocks.toNat) % 2 ^ 32 + sb.zmapBlocks.toNat) % 2 ^ 32 + (num.toNat - 1) / 32) % 2 ^ 32
    = 2 + sb.imapBlocks.toNat + sb.zmapBlocks.toNat + (num.toNat - 1) / 32
  omega

theorem SuperBlock.inodeBlock_mem (h : 1 ≤ num.toNat) (hle : num.toNat ≤ sb.ninodes.toNat) :
    sb.tableStart ≤ (sb.inodeBlock num).toNat ∧ (sb.inodeBlock num).toNat < sb.tableEnd := by
  rw [inodeBlock_toNat h, tableEnd]
  omega

end

/-! ## One inode is written, another is read -/

section

variable {s t : State Bytes} {sb : SuperBlock} {i j : Nat} {dev : Dev} {num : Num} {d : DInode}

/-- Byte `k` of an inode on the disk, as seen through the buffer cache. -/
def State.imageByte (s : State Bytes) (sb : SuperBlock) (dev : Dev) (num : Num) (k : Nat) : Byte :=
  s.contents.byte dev (sb.inodeBlock num) (32 * inodePlace num + k)

/-- What `read_inode` makes of the bytes. -/
def State.onDisk (s : State Bytes) (sb : SuperBlock) (dev : Dev) (num : Num) : DInode :=
  readDInode (s.contents.byte dev (sb.inodeBlock num)) (32 * inodePlace num)

/-- The disk has the inode. -/
def State.Has (s : State Bytes) (sb : SuperBlock) (dev : Dev) (num : Num) (d : DInode) : Prop :=
  ∀ k < 32, s.imageByte sb dev num k = d.byte k

/-- Only the 32 bytes change. -/
theorem byte_storeInode (s : State Bytes) (i : Nat) (bh : Bh) (dev : Dev) (b : Block) (n : Nat) :
    (s.storeInode i bh).contents.byte dev b n =
      if (dev = bh.1 ∧ b = bh.2) ∧ 32 * inodePlace (s.inode i).num ≤ n ∧
          n < 32 * inodePlace (s.inode i).num + 32 then
        (s.inode i).disk.byte (n - 32 * inodePlace (s.inode i).num)
      else s.contents.byte dev b n := by
  have hstore : (s.storeInode i bh).contents.byte dev b n =
      if dev = bh.1 ∧ b = bh.2 then
        if 32 * inodePlace (s.inode i).num ≤ n ∧ n < 32 * inodePlace (s.inode i).num + 32 then
          (s.inode i).disk.byte (n - 32 * inodePlace (s.inode i).num)
        else s.contents.byte bh.1 bh.2 n
      else s.contents.byte dev b n := rfl
  rw [hstore]
  by_cases hbh : dev = bh.1 ∧ b = bh.2
  · rw [if_pos hbh, hbh.1, hbh.2]
    simp only [true_and]
  · rw [if_neg hbh, if_neg fun h => hbh h.1]

theorem has_storeInode :
    (s.storeInode i (dev, sb.inodeBlock (s.inode i).num)).Has sb dev (s.inode i).num (s.inode i).disk := by
  intro k hk
  rw [State.imageByte, byte_storeInode, if_pos ⟨⟨rfl, rfl⟩, by omega, by omega⟩, Nat.add_sub_cancel_left]

/-- The slot of another inode is elsewhere. -/
theorem imageByte_storeInode (hj : ¬ ((s.inode j).dev = dev ∧ (s.inode j).num = num))
    (hsb : s.superAt dev = some sb) {sb' : SuperBlock} (hsb' : s.superAt (s.inode j).dev = some sb')
    {k : Nat} (hk : k < 32) :
    (s.storeInode j ((s.inode j).dev, sb'.inodeBlock (s.inode j).num)).imageByte sb dev num k =
      s.imageByte sb dev num k := by
  rw [State.imageByte, byte_storeInode, if_neg]
  · rfl
  · rintro ⟨⟨hdev, hblock⟩, hlow, hhigh⟩
    rw [hdev, hsb', Option.some.injEq] at hsb
    subst hsb
    have hplace : inodePlace num = inodePlace (s.inode j).num := by omega
    exact hj ⟨hdev.symm, (SuperBlock.inodeBlock_inj hblock hplace).symm⟩

/-- Without a super block there is no way on. -/
theorem superOf_none {Q : SuperBlock → State Bytes → Prop} (hsb : s.superAt dev = none) :
    ¬ Returns (superOf dev : Call Bytes SuperBlock) s Q := by
  have hfound : (if dev = 0 then none
      else ((List.range 8).find? fun k => (s.super k).dev == dev).map s.super) = none := hsb
  unfold superOf checkInSuperb
  rw [Returns.bind_iff, Returns.read_iff, hfound]
  exact Returns.stop_iff.mp

/-- What `write_inode` has done when it returns. -/
theorem writeInode_cases (h : (writeInode i : Call Bytes Unit).exec s = .ok ((), t)) :
    t = s ∨ (s.inode i).dirt = true ∧ ∃ sb, s.superAt (s.inode i).dev = some sb ∧
      t = s.storeInode i ((s.inode i).dev, sb.inodeBlock (s.inode i).num) := by
  have hret : Returns (writeInode i : Call Bytes Unit) s fun _ u => u = t := ⟨(), t, h, rfl⟩
  have hbody := Returns.read_iff.mp (Returns.bind_iff.mp hret)
  by_cases hc : (s.inode i).dirt = false ∨ (s.inode i).dev = 0
  · rw [if_pos hc] at hbody
    exact .inl (Returns.pure_iff.mp hbody).symm
  · rw [if_neg hc] at hbody
    rw [not_or, Bool.not_eq_false] at hc
    cases hsb : s.superAt (s.inode i).dev with
    | some sb =>
      have hstored := writeInode_dirty (Q := fun _ u =>
        u = s.storeInode i ((s.inode i).dev, sb.inodeBlock (s.inode i).num)) hc.1 hsb rfl
      obtain ⟨-, u, -, hu, hu'⟩ := hret.and hstored
      exact .inr ⟨hc.1, sb, rfl, hu.symm.trans hu'⟩
    | none => exact absurd (Returns.bind_iff.mp hbody) (superOf_none hsb)

/-- The disk has the inode, and of the entries `ws` none that is dirty is this inode. -/
structure State.Keeping (s : State Bytes) (sb : SuperBlock) (dev : Dev) (num : Num) (d : DInode)
    (ws : List Nat) : Prop where
  superAt : s.superAt dev = some sb
  has : s.Has sb dev num d
  apart : ∀ j ∈ ws, (s.inode j).dirt = true → ¬ ((s.inode j).dev = dev ∧ (s.inode j).num = num)

theorem State.Keeping.storeInode {ws : List Nat} (h : s.Keeping sb dev num d ws) (hj : j ∈ ws)
    (hdirt : (s.inode j).dirt = true) {sb' : SuperBlock} (hsb' : s.superAt (s.inode j).dev = some sb') :
    (s.storeInode j ((s.inode j).dev, sb'.inodeBlock (s.inode j).num)).Keeping sb dev num d ws where
  superAt := h.superAt
  has k hk := (imageByte_storeInode (h.apart j hj hdirt) h.superAt hsb' hk).trans (h.has k hk)
  apart l hl hdirt' := by
    obtain ⟨b, hb, hle⟩ := storeInode_inode s j ((s.inode j).dev, sb'.inodeBlock (s.inode j).num) l
    rw [hb] at hdirt' ⊢
    exact h.apart l hl (hle hdirt')

/-- Other inodes that are written leave it on the disk. -/
theorem State.Keeping.forEach {ws : List Nat} (h : s.Keeping sb dev num d ws)
    (hrun : (Lib.Prog.forEach writeInode ws : Call Bytes Unit).exec s = .ok ((), t)) :
    t.Keeping sb dev num d ws := by
  have hstep : ∀ j ∈ ws, Triple (fun _ => false) (fun s : State Bytes => s.Keeping sb dev num d ws)
      (writeInode j) fun _ s => s.Keeping sb dev num d ws := by
    refine fun j hj => ⟨fun {s _ t} hs hr => ?_⟩
    obtain rfl | ⟨hdirt, sb', hsb', rfl⟩ := writeInode_cases hr
    · exact hs
    · exact hs.storeInode hj hdirt hsb'
  exact (Triple.forEach hstep).ends h hrun

/-- `read_inode`. -/
theorem readInode_returns {Q : Unit → State Bytes → Prop} (hsb : s.superAt (s.inode i).dev = some sb)
    (h : Q () (s.setInode i
      { s.inode i with disk := s.onDisk sb (s.inode i).dev (s.inode i).num })) :
    Returns (readInode i : Call Bytes Unit) s Q := by
  refine Returns.bind_iff.mpr (Returns.read_iff.mpr (Returns.bind_iff.mpr ((superOf_iff hsb).mpr ?_)))
  refine Returns.bind_iff.mpr (hold_returns (Returns.bind_iff.mpr (Returns.modify_iff.mpr ?_)))
  exact brelse_returns rfl h

/-- What the disk has is what any entry of the table gets for it. -/
theorem readInode_has (hsb : s.superAt dev = some sb) (hd : s.Has sb dev num d) {h : MInode}
    (hdev : h.dev = dev) (hnum : h.num = num) :
    Returns (readInode j : Call Bytes Unit) (s.setInode j h) fun _ u => (u.inode j).disk.Same d := by
  have hj : (s.setInode j h).inode j = h := setInode_self
  have hdisk : (s.setInode j h).onDisk sb h.dev h.num = s.onDisk sb dev num := by
    rw [hdev, hnum]
    rfl
  have hsb' : (s.setInode j h).superAt ((s.setInode j h).inode j).dev = some sb := by
    rw [hj, hdev]
    exact hsb
  refine readInode_returns hsb' ?_
  rw [setInode_self, hj, hdisk]
  exact readDInode_same hd

/-- An inode that is written is read again, whatever other inodes are written in between. -/
theorem writeInode_later {ws : List Nat} (hsb : s.superAt dev = some sb) (hd : s.Has sb dev num d)
    (hws : ∀ j ∈ ws, (s.inode j).dirt = true → ¬ ((s.inode j).dev = dev ∧ (s.inode j).num = num))
    (hrun : (forEach writeInode ws : Call Bytes Unit).exec s = .ok ((), t)) {h : MInode}
    (hdev : h.dev = dev) (hnum : h.num = num) :
    Returns (readInode j : Call Bytes Unit) (t.setInode j h) fun _ u => (u.inode j).disk.Same d := by
  have hkeep : t.Keeping sb dev num d ws := State.Keeping.forEach ⟨hsb, hd, hws⟩ hrun
  exact readInode_has hkeep.superAt hkeep.has hdev hnum

end

/-! ## The table as a whole -/

/-- The blocks of a device that are not in its inode table: the boot block, the super block, those of the
bitmaps, and the zones for data, if the device has them behind the table. -/
def SuperBlock.Elsewhere (sb : SuperBlock) (b : Block) : Prop :=
  b = 0 ∨ b = 1 ∨ (2 ≤ b.toNat ∧ b.toNat < 2 + sb.imapBlocks.toNat + sb.zmapBlocks.toNat) ∨
    (sb.tableEnd ≤ sb.firstdatazone.toNat ∧ sb.firstdatazone.toNat ≤ b.toNat)

theorem SuperBlock.Elsewhere.ne_inodeBlock {sb : SuperBlock} {b : Block} {num : Num}
    (hb : sb.Elsewhere b) (h : 1 ≤ num.toNat) (hle : num.toNat ≤ sb.ninodes.toNat) :
    b ≠ sb.inodeBlock num := by
  rintro rfl
  obtain ⟨hlow, hhigh⟩ := SuperBlock.inodeBlock_mem h hle
  have hstart : 2 ≤ sb.tableStart := by
    unfold SuperBlock.tableStart
    omega
  obtain h0 | h1 | hmap | hzone := hb
  · rw [h0] at hlow
    exact absurd (Nat.le_trans hstart hlow) (by decide)
  · rw [h1] at hlow
    exact absurd (Nat.le_trans hstart hlow) (by decide)
  · exact absurd hmap.2 (Nat.not_lt.mpr hlow)
  · omega

/-- What `write_inode` of entry `i`, which is `h`, has done to the disk. -/
structure WroteInode (s s' : State Bytes) (sb : SuperBlock) (i : Nat) (h : MInode) : Prop where
  has : h.dirt = true ∨ s.Has sb h.dev h.num h.disk → s'.Has sb h.dev h.num h.disk
  /-- Other inodes may be written, and then any entry of the table is used for this one. -/
  later : h.dirt = true ∨ s.Has sb h.dev h.num h.disk →
    ∀ ws, (∀ j ∈ ws, j ≠ i → ¬ ((s.inode j).dev = h.dev ∧ (s.inode j).num = h.num)) →
    ∀ t, (forEach writeInode ws : Call Bytes Unit).exec s' = .ok ((), t) →
    ∀ j e, e.dev = h.dev → e.num = h.num →
      Returns (readInode j : Call Bytes Unit) (t.setInode j e) fun _ u => (u.inode j).disk.Same h.disk
  others : ∀ n, n ≠ h.num → ∀ k < 32, s'.imageByte sb h.dev n k = s.imageByte sb h.dev n k
  inTable : ∀ dev b n, s'.contents.byte dev b n ≠ s.contents.byte dev b n →
    dev = h.dev ∧ sb.tableStart ≤ b.toNat ∧ b.toNat < sb.tableEnd
  elsewhere : ∀ b, sb.Elsewhere b → ∀ n, s'.contents.byte h.dev b n = s.contents.byte h.dev b n

section

variable {s : State Bytes} {sb : SuperBlock} {i : Nat}

/-- An inode that is not dirty is not written. -/
theorem wroteInode_clean (hsb : s.superAt (s.inode i).dev = some sb) (hclean : (s.inode i).dirt = false) :
    WroteInode s s sb i (s.inode i) := by
  have hhas : (s.inode i).dirt = true ∨ s.Has sb (s.inode i).dev (s.inode i).num (s.inode i).disk →
      s.Has sb (s.inode i).dev (s.inode i).num (s.inode i).disk :=
    fun h => h.resolve_left (by rw [hclean]; nofun)
  refine ⟨hhas, fun hd ws hws t hrun j e hdev hnum => ?_, fun _ _ _ _ => rfl,
    fun _ _ _ h => absurd rfl h, fun _ _ _ => rfl⟩
  refine writeInode_later hsb (hhas hd) (fun l hl hdirt => hws l hl ?_) hrun hdev hnum
  rintro rfl
  rw [hclean] at hdirt
  cases hdirt

theorem wroteInode_storeInode (hsb : s.superAt (s.inode i).dev = some sb) (hlow : 1 ≤ (s.inode i).num.toNat)
    (hhigh : (s.inode i).num.toNat ≤ sb.ninodes.toNat) :
    WroteInode s (s.storeInode i ((s.inode i).dev, sb.inodeBlock (s.inode i).num)) sb i (s.inode i) where
  has _ := has_storeInode
  later _ ws hws t hrun j e hdev hnum := by
    refine writeInode_later (s := s.storeInode i _) hsb has_storeInode (fun l hl hdirt => ?_) hrun hdev hnum
    by_cases hli : l = i
    · rw [hli, storeInode_self] at hdirt
      cases hdirt
    · rw [storeInode_of_ne _ hli]
      exact hws l hl hli
  others n hn k hk := imageByte_storeInode (fun h => hn h.2.symm) hsb hsb hk
  inTable dev b n hne := by
    rw [byte_storeInode] at hne
    split at hne
    · next hin =>
      obtain ⟨⟨rfl, rfl⟩, -⟩ := hin
      exact ⟨rfl, SuperBlock.inodeBlock_mem hlow hhigh⟩
    · exact absurd rfl hne
  elsewhere b hb n := by
    rw [byte_storeInode, if_neg fun h => hb.ne_inodeBlock hlow hhigh h.1.2]

/-- `write_inode` puts an inode into the inode table, where `read_inode` finds it later; the other inodes
are as they were, and so is everything outside the table. -/
theorem inode_slots (s : State Bytes) (sb : SuperBlock) (i : Nat)
    (hsb : s.superAt (s.inode i).dev = some sb) (hlow : 1 ≤ (s.inode i).num.toNat)
    (hhigh : (s.inode i).num.toNat ≤ sb.ninodes.toNat) :
    Returns (writeInode i : Call Bytes Unit) s fun _ s' => WroteInode s s' sb i (s.inode i) := by
  cases hdirt : (s.inode i).dirt with
  | true => exact writeInode_dirty hdirt hsb (wroteInode_storeInode hsb hlow hhigh)
  | false =>
    refine Returns.bind_iff.mpr (Returns.read_iff.mpr (Returns.ite (fun _ => ?_) fun hn => ?_))
    · exact Returns.pure_iff.mpr (wroteInode_clean hsb hdirt)
    · exact absurd (.inl hdirt) hn

end

/-- A device of 64 inodes with one block for each bitmap, and something in every byte of its blocks. Entry 0
is its inode 33, a file of two blocks, and entry 1 the next inode of the same block; both are dirty. -/
def twoBlocks : State Bytes where
  contents := ⟨fun _ b n => b.setWidth 8 + BitVec.ofNat 8 n⟩
  bcount _ := 0
  inode i :=
    if i = 0 then
      ⟨⟨0o100644, 7, 1500, 1000000, 3, 1, fun k => if k < 2 then BitVec.ofNat 16 (100 + k) else 0⟩,
        0x301, 33, 1, true, false, false⟩
    else if i = 1 then
      ⟨⟨0o040755, 8, 32, 2000000, 4, 2, fun k => if k = 0 then 200 else 0⟩, 0x301, 34, 1, true, false, false⟩
    else .zero
  lastInode := 0
  super _ := ⟨0x301, 64, 1000, 1, 1, 6, fun _ => none, fun _ => none, none⟩
  task := ⟨0, 0, 0, none, none, none, false, 0⟩
  time := 0
  crowded _ := false
  clock _ := 0

theorem inode_slots_twoBlocks : (twoBlocks.inode 0).disk.size = 1500 ∧
    twoBlocks.imageByte (twoBlocks.super 0) 0x301 34 5 ≠ 0 ∧
    Returns (writeInode 0 : Call Bytes Unit) twoBlocks fun _ s' =>
      WroteInode twoBlocks s' (twoBlocks.super 0) 0 (twoBlocks.inode 0) :=
  ⟨rfl, by decide, inode_slots twoBlocks (twoBlocks.super 0) 0 rfl (by decide) (by decide)⟩

end Linux011.FileSys
