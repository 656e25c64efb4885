import Linux011.Minix.Zones

/-!
# What a file contains (`fs/read_write.c`, `fs/file_dev.c`)

A file is its size and a byte at each offset, `byteAt`. `sys_read` delivers the bytes from the position
on, as many as there are before the end. `file_write` changes the bytes that it has written, and no
others; it returns, and it falls short only when there is no free block left.

`count + f_pos` is compared with the size as an unsigned number, and what is left of the file is read as
a signed one: for positions and sizes below 2 GB that is the same as in the integers.
-/

namespace Linux011.Minix

open Fs (Id Byte Block)
open Inode (Dev)
open Lib (Path Forest)

/-- The largest size of a file: `_bmap` has this many blocks. -/
def maxSize : Nat := 1024 * (7 + 512 + 512 * 512)

/-- `sys_read` of a file or a directory, with the position of the open file: the result, the bytes that
have been delivered, and the new position. -/
def sysRead (d : Disk) (i : Id) (fpos count : BitVec 32) :
    Option (Int × List Byte × BitVec 32 × Disk) :=
  if count.toInt < 0 then some (-22, [], fpos, d)
  else if count = 0 then some (0, [], fpos, d)
  else
    let size : BitVec 32 := BitVec.ofNat 32 (d.inode i).size
    let count := if size < count + fpos then size - fpos else count
    if count.toInt ≤ 0 then some (0, [], fpos, d)
    else
      (fileRead d i fpos.toNat count.toNat).map fun (bytes, pos, d) =>
        (if bytes ≠ [] then (bytes.length : Int) else -99, bytes, BitVec.ofNat 32 pos, d)

variable {d d' : Disk} {sb : SuperBlock} {i : Id} {pos : Nat} {buf : List Byte}

/-! ## Reading -/

/-- What is read of `count` bytes, in the integers. -/
theorem clip_count {fpos count size : BitVec 32} (hpos : fpos.toNat < 2 ^ 31)
    (hcount : count.toNat < 2 ^ 31) (hsize : size.toNat < 2 ^ 31) :
    (if size < count + fpos then size - fpos else count).toInt =
      min (count.toNat : Int) (size.toNat - fpos.toNat) := by
  have hsum : (count + fpos).toNat = count.toNat + fpos.toNat := by
    rw [BitVec.toNat_add]
    omega
  by_cases h : size < count + fpos
  · have hlt : size.toNat < count.toNat + fpos.toNat := hsum ▸ h
    rw [if_pos h, BitVec.toInt_sub, BitVec.toInt_eq_toNat_of_lt (by omega),
      BitVec.toInt_eq_toNat_of_lt (by omega), Int.bmod_eq_of_le (by omega) (by omega)]
    omega
  · have hle : ¬ size.toNat < count.toNat + fpos.toNat := by
      rw [← hsum]
      exact h
    rw [if_neg h, BitVec.toInt_eq_toNat_of_lt (by omega)]
    omega

/-- `sys_read` delivers what is left of the file, or as much of it as was asked for. -/
theorem sysRead_eq (hi : (d.inode i).isFile = true) (hmax : (d.inode i).size ≤ maxSize)
    {fpos count : BitVec 32} (hpos : fpos.toNat < 2 ^ 31) (hcount : count.toNat < 2 ^ 31) :
    ∃ n, n = min count.toNat ((d.inode i).size - fpos.toNat) ∧
      sysRead d i fpos count = some ((n : Int), (List.range n).map fun k => d.byteAt i (fpos.toNat + k),
        BitVec.ofNat 32 (fpos.toNat + n), d) := by
  have hmaxSize : maxSize < 2 ^ 31 := by decide
  have hsize : (BitVec.ofNat 32 (d.inode i).size).toNat = (d.inode i).size := by
    rw [BitVec.toNat_ofNat]
    omega
  have hself : BitVec.ofNat 32 fpos.toNat = fpos := (BitVec.ofNat_toNat 32 fpos).trans (BitVec.setWidth_eq fpos)
  refine ⟨_, rfl, ?_⟩
  unfold sysRead
  rw [if_neg (by rw [BitVec.toInt_eq_toNat_of_lt (by omega)]; omega)]
  have hlarge : (BitVec.ofNat 32 (d.inode i).size).toNat < 2 ^ 31 := by omega
  have hclip := clip_count hpos hcount hlarge
  rw [hsize] at hclip
  generalize hn : min count.toNat ((d.inode i).size - fpos.toNat) = n
  by_cases h0 : count = 0
  · obtain rfl : n = 0 := by
      rw [← hn, h0]
      exact Nat.zero_min _
    rw [if_pos h0, Nat.add_zero, hself]
    rfl
  · rw [if_neg h0]
    dsimp only
    generalize (if BitVec.ofNat 32 (d.inode i).size < count + fpos then
      BitVec.ofNat 32 (d.inode i).size - fpos else count) = clipped at hclip
    by_cases hnone : clipped.toInt ≤ 0
    · obtain rfl : n = 0 := by
        have : 0 < count.toNat := Nat.pos_of_ne_zero fun h => h0 (BitVec.eq_of_toNat_eq h)
        omega
      rw [if_pos hnone, Nat.add_zero, hself]
      rfl
    · have hnat : clipped.toNat = n := by
        have hlt : 2 * clipped.toNat < 2 ^ 32 := by
          by_contra hlarge
          exact hnone (Int.le_of_lt (BitVec.toInt_neg_iff.mpr (Nat.le_of_not_lt hlarge)))
        rw [BitVec.toInt_eq_toNat_of_lt hlt] at hclip
        omega
      have hpositive : 0 < n := by
        rw [← hnat]
        omega
      rw [if_neg hnone, hnat]
      unfold fileRead
      rw [fileReadLoop_spec hi (Nat.le_refl n) (by unfold maxSize at hmax; omega)]
      dsimp only [Option.map_some]
      have hne : (List.range n).map (fun k => d.byteAt i (fpos.toNat + k)) ≠ [] := by
        intro hnil
        have := congrArg List.length hnil
        rw [List.length_map, List.length_range, List.length_nil] at this
        omega
      rw [if_pos hne, List.length_map, List.length_range]

/-! ## Writing -/

/-- The loop of `file_write` returns as long as the file does not grow beyond `maxSize`, and leaves
something unwritten only when there is no free block. -/
theorem fileWriteLoop_returns (S : d.Sound) (Q : d.Quiet) (hsb : d.super i.dev = some sb)
    (hi : (d.inode i).isFile = true) {m : Nat} (hm : buf.length ≤ m)
    (hmax : pos + buf.length ≤ maxSize) :
    ∃ rest pos' d', fileWriteLoop i m d pos buf = some (rest, pos', d') ∧
      (rest ≠ [] → ∀ v, ¬ d'.Fresh i.dev sb v) := by
  induction m generalizing d pos buf with
  | zero => exact ⟨buf, pos, d, rfl, fun h => absurd (List.length_eq_zero_iff.mp (Nat.le_zero.mp hm)) h⟩
  | succ m ih =>
    by_cases hbuf : buf = []
    · exact ⟨[], pos, d, by rw [fileWriteLoop, if_pos hbuf], fun h => absurd rfl h⟩
    · have hlength := List.length_pos_iff.mpr hbuf
      have hpos : pos / 1024 < 7 + 512 + 512 * 512 := by
        unfold maxSize at hmax
        omega
      obtain ⟨b, d1, h1, F⟩ := createDiskBlock_spec S Q hsb hi hpos
      by_cases h0 : b = 0
      · refine ⟨buf, pos, d1, ?_, fun _ => createDiskBlock_zero S Q hsb hi hpos (h0 ▸ h1)⟩
        rw [fileWriteLoop, if_neg hbuf, h1, Option.bind_some]
        exact if_pos h0
      · obtain ⟨d2, hround, hlen, hc, S2, W⟩ := fileWriteLoop_round hsb hpos hbuf h1 F h0 rfl m
        rw [hround]
        generalize min (1024 - pos % 1024) buf.length = c at hlen hc W
        have hsb2 : d2.super i.dev = some sb := by
          rw [W.super]
          exact hsb
        have hcount : (buf.drop c).length = buf.length - c := List.length_drop
        have hle : c ≤ buf.length := by
          rw [← hlen, List.length_take]
          exact Nat.min_le_right _ _
        have hrest : (buf.drop c).length ≤ m := by omega
        have hend : pos + c + (buf.drop c).length ≤ maxSize := by omega
        exact ih S2 (W.quiet Q) hsb2 ((W.isFile i).trans hi) hrest hend

/-- `file_write` returns how much it has written, a beginning of the buffer. -/
theorem fileWrite_returns (S : d.Sound) (Q : d.Quiet) (hsb : d.super i.dev = some sb)
    (hi : (d.inode i).isFile = true) {append : Bool} {fpos : Nat}
    (hmax : (if append then (d.inode i).size else fpos) + buf.length ≤ maxSize) :
    ∃ n d', n ≤ buf.length ∧
      fileWrite d i append fpos buf =
        some (if n = 0 then -1 else (n : Int), if append then fpos else fpos + n, d') ∧
      d.Wrote i (if append then (d.inode i).size else fpos) (buf.take n) d' ∧
      (n < buf.length → ∀ v, ¬ d'.Fresh i.dev sb v) := by
  obtain ⟨rest, pos', d', hloop, hfull⟩ := fileWriteLoop_returns S Q hsb hi (Nat.le_refl _) hmax
  obtain ⟨done, hbuf, hpos', -, W⟩ := fileWriteLoop_spec S Q hsb hi (Nat.le_refl _) hloop
  have hlength : buf.length = done.length + rest.length := by rw [hbuf, List.length_append]
  refine ⟨done.length, d', by omega, ?_, ?_, fun h => hfull ?_⟩
  · unfold fileWrite
    dsimp only
    rw [hloop, Option.map_some, hpos']
    dsimp only
    have hwritten : buf.length - rest.length = done.length := by omega
    rw [hwritten]
    cases append with
    | true => simp
    | false => simp
  · rw [hbuf, List.take_left']
    · exact W
    · rfl
  · rintro rfl
    rw [List.length_nil] at hlength
    omega

/-! ## The contents of a file -/

/-- What the functions on files do to sizes and bytes. -/
theorem file_contents (S : d.Sound) (Q : d.Quiet) (hsb : d.super i.dev = some sb)
    (hi : (d.inode i).isReg = true) (hsize : (d.inode i).size ≤ maxSize) :
    (∀ fpos count : BitVec 32, fpos.toNat < 2 ^ 31 → count.toNat < 2 ^ 31 →
      ∃ n, n = min count.toNat ((d.inode i).size - fpos.toNat) ∧
        sysRead d i fpos count = some ((n : Int),
          (List.range n).map fun k => d.byteAt i (fpos.toNat + k), BitVec.ofNat 32 (fpos.toNat + n), d)) ∧
    ∀ (append : Bool) (fpos : Nat) (buf : List Byte) (pos : Nat),
      pos = (if append then (d.inode i).size else fpos) → pos + buf.length ≤ maxSize →
      ∃ n d', n ≤ buf.length ∧
        fileWrite d i append fpos buf =
          some (if n = 0 then -1 else (n : Int), if append then fpos else fpos + n, d') ∧
        (∀ p, d'.byteAt i p =
          if pos ≤ p ∧ p < pos + n then buf.getD (p - pos) 0 else d.byteAt i p) ∧
        (d'.inode i).size = (if n = 0 then (d.inode i).size else max (d.inode i).size (pos + n)) ∧
        (n < buf.length → ∀ v, ¬ d'.Fresh i.dev sb v) ∧
        ∀ j, j ≠ i → d'.inode j = d.inode j ∧ ∀ p, d'.byteAt j p = d.byteAt j p := by
  have hfile : (d.inode i).isFile = true := by
    unfold MInode.isFile
    rw [hi, Bool.true_or]
  refine ⟨fun fpos count hpos hcount => sysRead_eq hfile hsize hpos hcount, ?_⟩
  rintro append fpos buf pos rfl hmax
  obtain ⟨n, d', hn, hwrite, W, hfull⟩ := fileWrite_returns S Q hsb hfile hmax
  have hlen : (buf.take n).length = n := by
    rw [List.length_take]
    exact Nat.min_eq_left hn
  refine ⟨n, d', hn, hwrite, fun p => ?_, ?_, hfull, fun j hj => ⟨W.other j hj, fun p => ?_⟩⟩
  · rw [W.byte i p, hlen]
    by_cases hin : (if append then (d.inode i).size else fpos) ≤ p ∧
        p < (if append then (d.inode i).size else fpos) + n
    · rw [if_pos ⟨rfl, hin⟩, if_pos hin]
      have hlt : p - (if append then (d.inode i).size else fpos) < n := by omega
      rw [List.getD_eq_getElem?_getD, List.getD_eq_getElem?_getD, List.getElem?_take_of_lt hlt]
    · rw [if_neg fun h => hin h.2, if_neg hin]
  · have hnil : buf.take n = [] ↔ n = 0 := by
      rw [← List.length_eq_zero_iff, hlen]
    rw [W.size, hlen]
    exact if_congr hnil rfl rfl
  · rw [W.byte j p, if_neg fun h => hj h.1]

/-- One byte is written behind the end of an empty file. -/
theorem file_contents_smallDisk : ∃ d' : Disk,
    fileWrite smallDisk ⟨1, 2⟩ false 3 [65] = some (1, 4, d') ∧ d'.byteAt ⟨1, 2⟩ 3 = 65 ∧
      d'.byteAt ⟨1, 2⟩ 0 = 0 ∧ (d'.inode ⟨1, 2⟩).size = 4 := by
  have hsb : smallDisk.super (Id.dev ⟨1, 2⟩) = some ⟨5, 8, 3⟩ := by decide
  obtain ⟨n, d', -, hwrite, hbyte, hsize, -⟩ := (file_contents smallDisk_settled.1 smallDisk_settled.2 hsb
    (by decide) (by decide)).2 false 3 [65] 3 rfl (by decide)
  have hrun : (fileWrite smallDisk ⟨1, 2⟩ false 3 [65]).map (fun r => r.1) = some 1 := by decide +kernel
  rw [hwrite, Option.map_some] at hrun
  obtain rfl : n = 1 := by
    by_cases h0 : n = 0
    · rw [if_pos h0] at hrun
      cases hrun
    · rw [if_neg h0] at hrun
      exact Int.ofNat.inj (Option.some.inj hrun)
  have hhole : smallDisk.byteAt ⟨1, 2⟩ 0 = 0 := by decide +kernel
  refine ⟨d', hwrite, by rw [hbyte 3]; rfl, by rw [hbyte 0]; exact hhole, ?_⟩
  rw [hsize]
  rfl

end Linux011.Minix
