import Linux011.Minix.ReadWrite

/-!
# Positions in a file (`fs/read_write.c`, `fs/file_dev.c`)

A position is a signed 32-bit number that `lseek` may set to anything but a negative one, up to
2^31 - 1. A file has at most `maxSize` bytes, which is 269 MB, and nothing but `_bmap` says so, with a
panic. `sys_read` stops at the end of the file; `file_write` does not stop before `maxSize`.

`_bmap` has a panic for each side. Here a negative position is a number from 2^31 on, which `bmap`
refuses as it refuses one that is too large.
-/

namespace Linux011.Minix

open Fs (Id Byte Block)
open Inode (Dev)

/-- `struct file`, with `O_APPEND` of its flags. -/
structure OpenFile where
  inode : Id
  append : Bool
  pos : BitVec 32

/-- `IS_SEEKABLE`. -/
def isSeekable (major : Nat) : Bool := 1 ≤ major && major ≤ 3

/-- `sys_lseek` of a file that is not a pipe: the result, and the position. -/
def sysLseek (f : OpenFile) (size : Nat) (offset origin : BitVec 32) : Int × BitVec 32 :=
  if !isSeekable (f.inode.dev.toNat / 256) then (-9, f.pos)
  else if origin = 0 then
    if offset.toInt < 0 then (-22, f.pos) else (offset.toInt, offset)
  else if origin = 1 then
    if (f.pos + offset).toInt < 0 then (-22, f.pos) else ((f.pos + offset).toInt, f.pos + offset)
  else if origin = 2 then
    let tmp := BitVec.ofNat 32 size + offset
    if tmp.toInt < 0 then (-22, f.pos) else (tmp.toInt, tmp)
  else (-22, f.pos)

/-- `sys_write` of a regular file: the result, and the position. -/
def sysWrite (d : Disk) (f : OpenFile) (user : Nat → Byte) (count : BitVec 32) :
    Option (Int × BitVec 32 × Disk) :=
  if count.toInt < 0 then some (-22, f.pos, d)
  else if count = 0 then some (0, f.pos, d)
  else
    (fileWrite d f.inode f.append f.pos.toNat ((List.range count.toNat).map user)).map
      fun (r, pos, d) => (r, BitVec.ofNat 32 pos, d)

/-- The open files `φ`, and the disk. -/
structure Files (φ : Type*) where
  disk : Disk
  file : φ → OpenFile

inductive FileCall (φ : Type*)
  | lseek (f : φ) (offset origin : BitVec 32)
  | read (f : φ) (count : BitVec 32)
  | write (f : φ) (user : Nat → Byte) (count : BitVec 32)

variable {φ : Type*} [DecidableEq φ]

def Files.seek (w : Files φ) (f : φ) (pos : BitVec 32) : φ → OpenFile :=
  Function.update w.file f { w.file f with pos := pos }

/-- A call, and its result; `none` is a panic. -/
def Files.call (w : Files φ) : FileCall φ → Option (Int × Files φ)
  | .lseek f offset origin =>
    let r := sysLseek (w.file f) (w.disk.inode (w.file f).inode).size offset origin
    some (r.1, { w with file := w.seek f r.2 })
  | .read f count =>
    (sysRead w.disk (w.file f).inode (w.file f).pos count).map fun (r, _, pos, d) =>
      (r, ⟨d, w.seek f pos⟩)
  | .write f user count =>
    (sysWrite w.disk (w.file f) user count).map fun (r, pos, d) => (r, ⟨d, w.seek f pos⟩)

def Files.step (w : Files φ) (e : FileCall φ) : Option (Files φ) := (w.call e).map (·.2)

/-- Where a write begins. -/
def OpenFile.start (o : OpenFile) (d : Disk) : Nat :=
  if o.append then (d.inode o.inode).size else o.pos.toNat

/-- A write does not go beyond the largest size. -/
def Within (w : Files φ) : FileCall φ → Prop
  | .write f _ count => 0 < count.toInt → (w.file f).start w.disk + count.toNat ≤ maxSize
  | _ => True

/-- Regular files of a file system that is well formed, none of them too large, at positions that are
not negative. -/
structure Files.Good (w : Files φ) : Prop where
  settled : w.disk.Settled
  mounted : ∀ f, (w.disk.super (w.file f).inode.dev).isSome = true
  regular : ∀ f, (w.disk.inode (w.file f).inode).isReg = true
  size : ∀ f, (w.disk.inode (w.file f).inode).size ≤ maxSize
  pos : ∀ f, (w.file f).pos.toNat < 2 ^ 31

variable {d d' : Disk} {sb : SuperBlock} {i : Id}

theorem maxSize_lt : maxSize < 2 ^ 31 := by decide

theorem toNat_of_toInt {b : BitVec 32} (h : 0 ≤ b.toInt) : b.toNat < 2 ^ 31 := by
  by_contra hlarge
  have hneg := BitVec.toInt_neg_iff.mpr (show 2 ^ 32 ≤ 2 * b.toNat by omega)
  omega

/-! ## The three calls -/

/-- A position that is set is not negative. -/
theorem sysLseek_pos {o : OpenFile} (h : o.pos.toNat < 2 ^ 31) (size : Nat) (offset origin : BitVec 32) :
    (sysLseek o size offset origin).2.toNat < 2 ^ 31 := by
  unfold sysLseek
  split
  · exact h
  split
  · split
    · exact h
    · next hn => exact toNat_of_toInt (Int.not_lt.mp hn)
  split
  · split
    · exact h
    · next hn => exact toNat_of_toInt (Int.not_lt.mp hn)
  split
  · dsimp only
    split
    · exact h
    · next hn => exact toNat_of_toInt (Int.not_lt.mp hn)
  · exact h

/-- A write that goes beyond `maxSize` panics there, if the disk is not full before. -/
theorem fileWriteLoop_beyond (S : d.Sound) (Q : d.Quiet) (hsb : d.super i.dev = some sb)
    (hi : (d.inode i).isFile = true) {m pos : Nat} {buf : List Byte} (hm : buf.length ≤ m)
    (hbuf : buf ≠ []) (hmax : maxSize < pos + buf.length) :
    fileWriteLoop i m d pos buf = none ∨ ∃ rest pos' d',
      fileWriteLoop i m d pos buf = some (rest, pos', d') ∧ rest ≠ [] ∧
        ∀ v, ¬ d'.Fresh i.dev sb v := by
  induction m generalizing d pos buf with
  | zero => exact absurd (List.length_eq_zero_iff.mp (Nat.le_zero.mp hm)) hbuf
  | succ m ih =>
    by_cases hpos : pos / 1024 < 7 + 512 + 512 * 512
    · obtain ⟨b, d1, h1, F⟩ := createDiskBlock_spec S Q hsb hi hpos
      by_cases h0 : b = 0
      · refine Or.inr ⟨buf, pos, d1, ?_, hbuf, createDiskBlock_zero S Q hsb hi hpos (h0 ▸ h1)⟩
        rw [fileWriteLoop, if_neg hbuf, h1, Option.bind_some]
        exact if_pos h0
      · obtain ⟨d2, hround, hlen, hc, S2, W⟩ := fileWriteLoop_round hsb hpos hbuf h1 F h0 rfl m
        rw [hround]
        have hblock : pos + min (1024 - pos % 1024) buf.length ≤ maxSize := by
          unfold maxSize
          omega
        generalize min (1024 - pos % 1024) buf.length = c at hlen hc W hblock
        have hcount : (buf.drop c).length = buf.length - c := List.length_drop
        have hle : c ≤ buf.length := by
          rw [← hlen, List.length_take]
          exact Nat.min_le_right _ _
        have hrest : buf.drop c ≠ [] := by
          intro hnil
          rw [hnil, List.length_nil] at hcount
          omega
        exact ih S2 (W.quiet Q) (by rw [W.super]; exact hsb) ((W.isFile i).trans hi) (by omega) hrest
          (by omega)
    · left
      rw [fileWriteLoop, if_neg hbuf, createDiskBlock, bmap, if_pos (Nat.le_of_not_lt hpos)]
      rfl

/-- What is kept of the disk, for all open files. -/
structure Disk.Kept (d d' : Disk) : Prop where
  settled : d'.Settled
  super : d'.super = d.super
  regular : ∀ i, (d'.inode i).isReg = (d.inode i).isReg
  size : ∀ i, (d'.inode i).size ≤ max (d.inode i).size maxSize

theorem Disk.Settled.kept (S : d.Settled) : d.Kept d where
  settled := S
  super := rfl
  regular _ := rfl
  size _ := Nat.le_max_left ..

theorem Disk.Wrote.kept {pos : Nat} {bytes : List Byte} (W : d.Wrote i pos bytes d') (S : d'.Sound)
    (Q : d.Quiet) (hmax : pos + bytes.length ≤ maxSize) : d.Kept d' where
  settled := ⟨S, W.quiet Q⟩
  super := W.super
  regular j := by
    rw [W.inode j]
    rfl
  size j := by
    by_cases hj : j = i
    · rw [hj, W.size]
      split
      · exact Nat.le_max_left ..
      · exact max_le_max (Nat.le_refl _) hmax
    · rw [W.other j hj]
      exact Nat.le_max_left ..

theorem isFile_of_isReg (h : (d.inode i).isReg = true) : (d.inode i).isFile = true := by
  unfold MInode.isFile
  rw [h, Bool.true_or]

variable {o : OpenFile} {user : Nat → Byte} {count : BitVec 32}

theorem sysWrite_within (S : d.Settled) (hsb : d.super o.inode.dev = some sb)
    (hreg : (d.inode o.inode).isReg = true) (hpos : o.pos.toNat < 2 ^ 31)
    (hmax : 0 < count.toInt → o.start d + count.toNat ≤ maxSize) :
    ∃ r pos d', sysWrite d o user count = some (r, pos, d') ∧ pos.toNat < 2 ^ 31 ∧ d.Kept d' := by
  unfold sysWrite
  by_cases hneg : count.toInt < 0
  · exact ⟨_, _, _, if_pos hneg, hpos, S.kept⟩
  rw [if_neg hneg]
  by_cases h0 : count = 0
  · exact ⟨_, _, _, if_pos h0, hpos, S.kept⟩
  rw [if_neg h0]
  have hcount : count.toInt = count.toNat :=
    BitVec.toInt_eq_toNat_of_lt (by have hlt := toNat_of_toInt (Int.not_lt.mp hneg); omega)
  have hpositive : 0 < count.toNat := Nat.pos_of_ne_zero fun h => h0 (BitVec.eq_of_toNat_eq h)
  have hend := hmax (by omega)
  have hlen : ((List.range count.toNat).map user).length = count.toNat := by
    rw [List.length_map, List.length_range]
  obtain ⟨n, d', hn, hwrite, W, -⟩ := @fileWrite_returns d sb o.inode
    ((List.range count.toNat).map user) S.sound S.quiet hsb (isFile_of_isReg hreg) o.append o.pos.toNat
    (by rw [hlen]; exact hend)
  obtain ⟨-, -, S', -⟩ := fileWrite_spec S.sound S.quiet hsb (isFile_of_isReg hreg) hwrite
  rw [hwrite]
  rw [hlen] at hn
  have hstart : o.start d + n ≤ maxSize := by omega
  refine ⟨_, _, d', rfl, ?_, W.kept S' S.quiet ?_⟩
  · have hlt := maxSize_lt
    rw [BitVec.toNat_ofNat]
    split
    · omega
    · next happend =>
      have hs : o.start d = o.pos.toNat := if_neg happend
      omega
  · rw [List.length_take]
    exact Nat.le_trans (Nat.add_le_add_left (Nat.min_le_left ..) _) hstart

theorem sysWrite_beyond (S : d.Settled) (hsb : d.super o.inode.dev = some sb)
    (hreg : (d.inode o.inode).isReg = true) (hpositive : 0 < count.toInt)
    (hmax : maxSize < o.start d + count.toNat) :
    sysWrite d o user count = none ∨ ∃ r pos d', sysWrite d o user count = some (r, pos, d') ∧
      r < count.toInt ∧ ∀ v, ¬ d'.Fresh o.inode.dev sb v := by
  have hlt := toNat_of_toInt (Int.le_of_lt hpositive)
  have hcount : count.toInt = count.toNat := BitVec.toInt_eq_toNat_of_lt (by omega)
  have h0 : count ≠ 0 := by
    rintro rfl
    exact absurd hpositive (by decide)
  have hlen : ((List.range count.toNat).map user).length = count.toNat := by
    rw [List.length_map, List.length_range]
  have hne : (List.range count.toNat).map user ≠ [] := by
    intro hnil
    rw [hnil, List.length_nil] at hlen
    omega
  unfold sysWrite fileWrite
  rw [if_neg (Int.not_lt.mpr (Int.le_of_lt hpositive)), if_neg h0]
  have hbeyond : maxSize < o.start d + ((List.range count.toNat).map user).length := by
    rw [hlen]
    exact hmax
  have hloop := fileWriteLoop_beyond S.sound S.quiet hsb (isFile_of_isReg hreg) (Nat.le_refl _) hne
    hbeyond
  unfold OpenFile.start at hloop
  dsimp only
  obtain hpanic | ⟨rest, pos, d', hshort, hrest, hfull⟩ := hloop
  · left
    rw [hpanic]
    rfl
  · right
    rw [hshort]
    refine ⟨_, _, _, rfl, ?_, hfull⟩
    have hpos := List.length_pos_iff.mpr hrest
    rw [hlen]
    show (if count.toNat - rest.length ≠ 0 then ((count.toNat - rest.length : Nat) : Int) else -1) < _
    split
    · omega
    · omega

/-! ## Runs -/

variable {w w' : Files φ} {f : φ}

/-- The files after a call on one of them. -/
theorem Files.Good.seek (G : w.Good) {pos : BitVec 32} (hpos : pos.toNat < 2 ^ 31) (K : w.disk.Kept d') :
    Files.Good ⟨d', w.seek f pos⟩ := by
  have hinode : ∀ g, (w.seek f pos g).inode = (w.file g).inode := by
    intro g
    unfold Files.seek
    by_cases hg : g = f
    · subst hg
      rw [Function.update_self]
    · rw [Function.update_of_ne hg]
  refine ⟨K.settled, fun g => ?_, fun g => ?_, fun g => ?_, fun g => ?_⟩
  · show (d'.super (w.seek f pos g).inode.dev).isSome = true
    rw [hinode, K.super]
    exact G.mounted g
  · show (d'.inode (w.seek f pos g).inode).isReg = true
    rw [hinode, K.regular]
    exact G.regular g
  · show (d'.inode (w.seek f pos g).inode).size ≤ maxSize
    rw [hinode]
    exact (K.size _).trans (max_le (G.size g) (Nat.le_refl _))
  · show (w.seek f pos g).pos.toNat < 2 ^ 31
    unfold Files.seek
    by_cases hg : g = f
    · subst hg
      rw [Function.update_self]
      exact hpos
    · rw [Function.update_of_ne hg]
      exact G.pos g

/-- A call within the largest size does not panic. -/
theorem Files.Good.call (G : w.Good) {e : FileCall φ} (hwithin : Within w e) :
    ∃ r w', w.call e = some (r, w') ∧ w'.Good := by
  cases e with
  | lseek f offset origin =>
    exact ⟨_, _, rfl, G.seek (sysLseek_pos (G.pos f) _ offset origin) G.settled.kept⟩
  | read f count =>
    have hreg := isFile_of_isReg (G.regular f)
    by_cases hneg : count.toInt < 0
    · have hread : sysRead w.disk (w.file f).inode (w.file f).pos count = _ := if_pos hneg
      refine ⟨_, _, congrArg (Option.map _) hread, G.seek (G.pos f) G.settled.kept⟩
    · obtain ⟨n, hn, hread⟩ := sysRead_eq hreg (G.size f) (G.pos f) (toNat_of_toInt (Int.not_lt.mp hneg))
      refine ⟨_, _, congrArg (Option.map _) hread, G.seek ?_ G.settled.kept⟩
      have hlt := maxSize_lt
      have hsize := G.size f
      have hpos := G.pos f
      rw [BitVec.toNat_ofNat]
      omega
  | write f user count =>
    obtain ⟨sb, hsb⟩ := Option.isSome_iff_exists.mp (G.mounted f)
    obtain ⟨r, pos, d', hwrite, hpos, K⟩ : ∃ r pos d', sysWrite w.disk (w.file f) user count =
        some (r, pos, d') ∧ pos.toNat < 2 ^ 31 ∧ w.disk.Kept d' :=
      sysWrite_within G.settled hsb (G.regular f) (G.pos f) hwithin
    exact ⟨_, _, congrArg (Option.map _) hwrite, G.seek hpos K⟩

/-- FILE POSITIONS AND THE BLOCK MAP. In a run whose writes all stay within the largest size of a file,
no position is negative, and no call panics. A write that begins or ends beyond it panics, if the disk
does not become full before it gets there. -/
theorem file_positions (h : Lib.Reach Files.step Within Files.Good w) :
    (∀ f, 0 ≤ (w.file f).pos.toInt ∧ (w.file f).pos.toInt ≤ 2 ^ 31 - 1) ∧
      (∀ e, Within w e → ∃ r w', w.call e = some (r, w')) ∧
      ∀ f user count, ¬ Within w (.write f user count) →
        w.call (.write f user count) = none ∨
          ∃ r w' sb, w.call (.write f user count) = some (r, w') ∧ r < count.toInt ∧
            w.disk.super (w.file f).inode.dev = some sb ∧
            ∀ v, ¬ w'.disk.Fresh (w.file f).inode.dev sb v := by
  have G : w.Good := by
    refine h.invariant (fun _ hs => hs) fun w e w' G hg hstep => ?_
    obtain ⟨r, u, hu, G'⟩ := G.call hg
    rw [Files.step, hu] at hstep
    cases hstep
    exact G'
  refine ⟨fun f => ?_, fun e he => ?_, fun f user count hno => ?_⟩
  · have hpos := G.pos f
    rw [BitVec.toInt_eq_toNat_of_lt (by omega)]
    omega
  · obtain ⟨r, u, hu, -⟩ := G.call he
    exact ⟨r, u, hu⟩
  · obtain ⟨hpositive, hbeyond⟩ := Classical.not_imp.mp hno
    obtain ⟨sb, hsb⟩ := Option.isSome_iff_exists.mp (G.mounted f)
    have hrun : sysWrite w.disk (w.file f) user count = none ∨ ∃ r pos d',
        sysWrite w.disk (w.file f) user count = some (r, pos, d') ∧ r < count.toInt ∧
          ∀ v, ¬ d'.Fresh (w.file f).inode.dev sb v :=
      sysWrite_beyond G.settled hsb (G.regular f) hpositive (Nat.lt_of_not_le hbeyond)
    obtain hpanic | ⟨r, pos, d', hwrite, hshort, hfull⟩ := hrun
    · exact Or.inl (congrArg (Option.map _) hpanic)
    · exact Or.inr ⟨_, _, sb, congrArg (Option.map _) hwrite, hshort, hsb, hfull⟩

/-- The empty file of a small disk, opened. -/
def openedFile : Files Unit := ⟨smallDiskOf 0x301, fun _ => ⟨⟨0x301, 2⟩, false, 0⟩⟩

theorem openedFile_good : openedFile.Good :=
  ⟨smallDiskOf_settled 0x301, fun () => by decide, fun () => by decide, fun () => by decide,
    fun () => by decide⟩

/-- After one byte at 3, its position is 4, and it can be read. -/
theorem file_positions_opened : ∃ w : Files Unit, (w.file ()).pos = 4 ∧ 0 ≤ (w.file ()).pos.toInt ∧
    ∃ r w', w.call (.read () 10) = some (r, w') := by
  obtain ⟨w₁, h₁, h₁'⟩ : ∃ w₁, openedFile.step (.lseek () 3 0) = some w₁ ∧
      ((w₁.file ()).start w₁.disk = 3) := ⟨_, rfl, by decide +kernel⟩
  have hwithin : Within w₁ (.write () (fun _ => 65) 1) := fun _ => by
    rw [h₁']
    decide
  have R₁ : Lib.Reach Files.step Within Files.Good w₁ :=
    .next (.lseek () 3 0) (.start openedFile_good) trivial h₁
  have hsome : (w₁.step (.write () (fun _ => 65) 1)).map (fun w => (w.file ()).pos) = some 4 := by
    cases h₁
    decide +kernel
  obtain ⟨w, h₂, hpos⟩ := Option.map_eq_some_iff.mp hsome
  obtain ⟨hrange, hcall, -⟩ := file_positions (R₁.next _ hwithin h₂)
  exact ⟨w, hpos, (hrange ()).1, hcall _ trivial⟩

/-- `lseek` to the last position, and a byte is written. -/
theorem write_beyond_panics : openedFile.Good ∧ ∃ w, openedFile.call (.lseek () 0x7FFFFFFF 0) =
    some (0x7FFFFFFF, w) ∧ w.call (.write () (fun _ => 65) 1) = none :=
  ⟨openedFile_good, _, rfl, by rfl⟩

end Linux011.Minix
