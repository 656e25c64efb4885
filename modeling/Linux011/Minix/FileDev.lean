import Mathlib.Data.List.GetD
import Linux011.Minix.Truncate

/-!
# Reading and writing a file (`fs/file_dev.c`)

A file is a size and a byte at each offset; where there is no block the byte is 0. `file_read`
returns these bytes. `file_write` changes those it has written, and the size when it has written past
the end; a full disk ends it early, and what it has written then stays. No other file changes.
-/

namespace Linux011.Minix

open Fs (Id Byte Block)
open Inode (Dev)
open Lib (Path Forest)

/-! ## The loops -/

/-- The bytes of a buffer after `bytes` have been copied to offset `c`. -/
def store (data : Nat → Byte) (c : Nat) (bytes : List Byte) (n : Nat) : Byte :=
  if c ≤ n ∧ n < c + bytes.length then bytes.getD (n - c) 0 else data n

/-- The loop of `file_read`; the bytes read, and the position. `n` bounds the rounds. -/
def fileReadLoop (i : Id) : Nat → Disk → Nat → Nat → Option (List Byte × Nat × Disk)
  | 0, d, pos, _ => some ([], pos, d)
  | n + 1, d, pos, left =>
    if left = 0 then some ([], pos, d)
    else
      (getDiskBlock d i (pos / 1024)).bind fun (nr, d) =>
        let chars := min (1024 - pos % 1024) left
        let (data, d) : (Nat → Byte) × Disk :=
          if nr ≠ 0 then (d.block i.dev nr, (d.bread i.dev nr).brelse i.dev nr)
          else (fun _ => 0, d)
        let buf := (List.range chars).map fun k => data (pos % 1024 + k)
        (fileReadLoop i n d (pos + chars) (left - chars)).map fun (bytes, pos, d) =>
          (buf ++ bytes, pos, d)

/-- The loop of `file_write`; what has not been written, and the position. `n` bounds the rounds. -/
def fileWriteLoop (i : Id) : Nat → Disk → Nat → List Byte → Option (List Byte × Nat × Disk)
  | 0, d, pos, buf => some (buf, pos, d)
  | n + 1, d, pos, buf =>
    if buf = [] then some ([], pos, d)
    else
      (createDiskBlock d i (pos / 1024)).bind fun (block, d) =>
        if block = 0 then some (buf, pos, d)
        else
          let d := d.bread i.dev block
          let c := min (1024 - pos % 1024) buf.length
          let d := if (d.inode i).size < pos + c then
              d.setInode i { d.inode i with size := pos + c }
            else d
          let d := d.setBlock i.dev block (store (d.block i.dev block) (pos % 1024) (buf.take c))
          fileWriteLoop i n (d.brelse i.dev block) (pos + c) (buf.drop c)

/-- `file_write` on an inode, with the position and the `O_APPEND` flag of the open file: the result,
the new position. -/
def fileWrite (d : Disk) (i : Id) (append : Bool) (fpos : Nat) (buf : List Byte) :
    Option (Int × Nat × Disk) :=
  let pos := if append then (d.inode i).size else fpos
  (fileWriteLoop i buf.length d pos buf).map fun (rest, pos, d) =>
    let written := buf.length - rest.length
    (if written ≠ 0 then (written : Int) else -1, if append then fpos else pos, d)

/-- `file_read` on an inode: the bytes, and the new position. -/
def fileRead (d : Disk) (i : Id) (fpos count : Nat) : Option (List Byte × Nat × Disk) :=
  fileReadLoop i count d fpos count

/-! ## The contents of a file -/

/-- The block of a file that offset `p` is in, 0 for none. -/
def Disk.blockAt (d : Disk) (i : Id) (p : Nat) : Block :=
  if p / 1024 < 7 + 512 + 512 * 512 then (d.forest i.dev).ref i.num (slot (p / 1024)) else 0

def Disk.byteAt (d : Disk) (i : Id) (p : Nat) : Byte :=
  if d.blockAt i p = 0 then 0 else d.block i.dev (d.blockAt i p) (p % 1024)

variable {d d' d'' : Disk} {dev : Dev} {sb : SuperBlock} {i j : Id} {b : Block} {n pos : Nat}
  {q : Path Nat} {data : Nat → Byte} {bytes rest buf : List Byte}

theorem Disk.byteAt_congr {p : Nat} (href : d'.blockAt i p = d.blockAt i p)
    (hdata : d.blockAt i p ≠ 0 → d'.block i.dev (d.blockAt i p) = d.block i.dev (d.blockAt i p)) :
    d'.byteAt i p = d.byteAt i p := by
  unfold Disk.byteAt
  rw [href]
  split
  · rfl
  · next h0 => rw [hdata h0]

/-- Filling in blocks does not change what a file contains. -/
theorem Disk.Grows.byteAt (G : d.Grows i d') (j : Id) (p : Nat) : d'.byteAt j p = d.byteAt j p := by
  by_cases hp : p / 1024 < 7 + 512 + 512 * 512
  · have hdata := slot_isData hp
    have hold : d.blockAt j p = (d.forest j.dev).ref j.num (slot (p / 1024)) := if_pos hp
    have hnew : d'.blockAt j p = (d'.forest j.dev).ref j.num (slot (p / 1024)) := if_pos hp
    by_cases h0 : (d.forest j.dev).ref j.num (slot (p / 1024)) = 0
    · unfold Disk.byteAt
      rw [hold, hnew, if_pos h0]
      split
      · rfl
      · next h1 => rw [G.blank hdata h0 h1]
    · refine Disk.byteAt_congr ?_ fun _ => ?_
      · rw [hold, hnew, G.ref hdata.isZone h0]
      · rw [hold, G.data hdata h0]
  · refine Disk.byteAt_congr ?_ fun h0 => absurd (if_neg hp) h0
    rw [Disk.blockAt, Disk.blockAt, if_neg hp, if_neg hp]

/-- From `d` to `d'` the bytes have been written to file `i` at `pos`. -/
structure Disk.Wrote (i : Id) (pos : Nat) (bytes : List Byte) (d d' : Disk) : Prop where
  super : d'.super = d.super
  imap : d'.imap = d.imap
  bcount : d'.bcount = d.bcount
  inode : ∀ j, d'.inode j =
    { d.inode j with zone := (d'.inode j).zone, size := (d'.inode j).size }
  other : ∀ j, j ≠ i → d'.inode j = d.inode j
  ref : ∀ {dev n q}, IsZone q → (d.forest dev).ref n q ≠ 0 →
    (d'.forest dev).ref n q = (d.forest dev).ref n q
  frame : ∀ {dev n q}, IsZone q → ⟨dev, n⟩ ≠ i → (d'.forest dev).ref n q = (d.forest dev).ref n q
  size : (d'.inode i).size =
    if bytes = [] then (d.inode i).size else max (d.inode i).size (pos + bytes.length)
  byte : ∀ j p, d'.byteAt j p =
    if j = i ∧ pos ≤ p ∧ p < pos + bytes.length then bytes.getD (p - pos) 0 else d.byteAt j p

theorem Disk.Wrote.isFile (W : d.Wrote i pos bytes d') (j : Id) :
    (d'.inode j).isFile = (d.inode j).isFile := by
  rw [W.inode j]
  rfl

theorem Disk.Wrote.quiet (W : d.Wrote i pos bytes d') (Q : d.Quiet) : d'.Quiet := fun dev b => by
  rw [W.bcount]
  exact Q dev b

/-- New blocks alone write nothing. -/
theorem Disk.Grows.wrote (G : d.Grows i d') (pos : Nat) : d.Wrote i pos [] d' where
  super := G.super
  imap := G.imap
  bcount := G.bcount
  inode j := by rw [G.inode j]
  other := G.other
  ref := G.ref
  frame := G.frame
  size := by rw [G.inode i]; rfl
  byte j p := by
    rw [G.byteAt j p, if_neg]
    rintro ⟨-, h1, h2⟩
    rw [List.length_nil] at h2
    omega

theorem Disk.Wrote.trans (W : d.Wrote i pos bytes d')
    (W' : d'.Wrote i (pos + bytes.length) rest d'') : d.Wrote i pos (bytes ++ rest) d'' where
  super := W'.super.trans W.super
  imap := W'.imap.trans W.imap
  bcount := W'.bcount.trans W.bcount
  inode j := by rw [W'.inode j, W.inode j]
  other j hj := (W'.other j hj).trans (W.other j hj)
  ref hq h0 := by
    have h1 := W.ref hq h0
    rw [W'.ref hq (h1 ▸ h0), h1]
  frame hq hne := (W'.frame hq hne).trans (W.frame hq hne)
  size := by
    rw [W'.size, W.size]
    cases bytes with
    | nil => rfl
    | cons x xs =>
      cases rest with
      | nil => rw [List.append_nil]; rfl
      | cons y ys =>
        simp only [List.cons_append, reduceCtorEq, if_false, List.length_cons, List.length_append]
        omega
  byte j p := by
    rw [W'.byte j p, W.byte j p, List.length_append]
    by_cases hj : j = i
    · by_cases h1 : pos ≤ p
      · by_cases h2 : p < pos + bytes.length
        · rw [if_neg (by omega), if_pos ⟨hj, h1, h2⟩, if_pos ⟨hj, h1, by omega⟩,
            List.getD_append _ _ _ _ (by omega)]
        · by_cases h3 : p < pos + bytes.length + rest.length
          · rw [if_pos ⟨hj, by omega, h3⟩, if_pos ⟨hj, h1, by omega⟩,
              List.getD_append_right _ _ _ _ (by omega)]
            congr 1
            omega
          · rw [if_neg (by omega), if_neg (by omega), if_neg (by omega)]
      · rw [if_neg (by omega), if_neg (by omega), if_neg (by omega)]
    · rw [if_neg fun h => hj h.1, if_neg fun h => hj h.1, if_neg fun h => hj h.1]

/-! ## One round of `file_write` -/

/-- The contents of a block of the file are no pointers. -/
theorem Disk.Sound.forest_setBlock (S : d.Sound) (hsb : d.super i.dev = some sb) (hq : IsData q)
    (hb : (d.forest i.dev).ref i.num q = b) (h0 : b ≠ 0) {dev : Dev} {n : Inode.Num} {p : Path Nat}
    (hp : IsZone p) :
    ((d.setBlock i.dev b data).forest dev).ref n p = (d.forest dev).ref n p := by
  subst hb
  refine Forest.ref_congr (F := d.forest dev) isZone_shape ?_ (fun m r k hr hr0 => ?_) p hp
  · rfl
  show pointer (if dev = i.dev ∧ _ then data else d.block dev _) k = _
  by_cases hd : dev = i.dev
  · subst hd
    rw [if_neg fun h => S.ref_ne hsb hq hr h0 h.2.symm]
    rfl
  · rw [if_neg fun h => hd h.1]
    rfl

theorem Disk.Sound.setBlock (S : d.Sound) (hsb : d.super i.dev = some sb) (hq : IsData q)
    (hb : (d.forest i.dev).ref i.num q = b) (h0 : b ≠ 0) : (d.setBlock i.dev b data).Sound :=
  ⟨S.layout, S.reserved, fun h => (S.zones h).congr fun _ _ hp =>
    S.forest_setBlock hsb hq hb h0 hp⟩

/-- The size of an inode has nothing to do with the blocks. -/
theorem Disk.forest_setSize (d : Disk) (i : Id) (n : Nat) (dev : Dev) :
    (d.setInode i { d.inode i with size := n }).forest dev = d.forest dev := by
  unfold Disk.forest
  have hinode : ∀ m, ((d.setInode i { d.inode i with size := n }).inode ⟨dev, m⟩).isFile =
        (d.inode ⟨dev, m⟩).isFile ∧
      ((d.setInode i { d.inode i with size := n }).inode ⟨dev, m⟩).zone = (d.inode ⟨dev, m⟩).zone := by
    intro m
    by_cases h : (⟨dev, m⟩ : Id) = i
    · subst h
      rw [Disk.setInode_inode]
      exact ⟨rfl, rfl⟩
    · have hne : (d.setInode i { d.inode i with size := n }).inode ⟨dev, m⟩ = d.inode ⟨dev, m⟩ :=
        Function.update_of_ne h ..
      rw [hne]
      exact ⟨rfl, rfl⟩
  congr 1
  funext m k
  rw [(hinode m).1, (hinode m).2]

/-- The inode gets the size that it has after a write up to `n`. -/
def Disk.extend (d : Disk) (i : Id) (n : Nat) : Disk :=
  if (d.inode i).size < n then d.setInode i { d.inode i with size := n } else d

theorem Disk.extend_forest (d : Disk) (i : Id) (n : Nat) (dev : Dev) :
    (d.extend i n).forest dev = d.forest dev := by
  unfold Disk.extend
  split
  · exact d.forest_setSize i n dev
  · rfl

/-- Only the size of the inode changes. -/
theorem Disk.extend_eq (d : Disk) (i : Id) (n : Nat) :
    d.extend i n = { d with inode := (d.extend i n).inode } ∧
      (d.extend i n).inode i = { d.inode i with size := max (d.inode i).size n } ∧
      ∀ j, j ≠ i → (d.extend i n).inode j = d.inode j := by
  unfold Disk.extend
  split
  · next h =>
    refine ⟨rfl, ?_, fun j hj => Function.update_of_ne hj ..⟩
    rw [Disk.setInode_inode, Nat.max_eq_right (Nat.le_of_lt h)]
  · next h =>
    refine ⟨rfl, ?_, fun _ _ => rfl⟩
    rw [Nat.max_eq_left (by omega)]

theorem Disk.Sound.extend (S : d.Sound) (i : Id) (n : Nat) : (d.extend i n).Sound := by
  have hd := (d.extend_eq i n).1
  refine ⟨fun {e tb} h => ?_, fun {e tb} h => ?_, fun {e tb} h => ?_⟩ <;> rw [hd] at h
  · exact S.layout h
  · rw [hd]
    exact S.reserved h
  · rw [Disk.extend_forest, hd]
    exact S.zones h

/-- The bytes are copied into the block of the file that `pos` is in. -/
theorem Disk.Sound.store_spec (S : d.Sound) (hsb : d.super i.dev = some sb)
    (hpos : pos / 1024 < 7 + 512 + 512 * 512)
    (hb : (d.forest i.dev).ref i.num (slot (pos / 1024)) = b) (h0 : b ≠ 0) (hne : bytes ≠ [])
    (hlen : pos % 1024 + bytes.length ≤ 1024) :
    ((d.extend i (pos + bytes.length)).setBlock i.dev b
        (store (d.block i.dev b) (pos % 1024) bytes)).Sound ∧
      d.Wrote i pos bytes ((d.extend i (pos + bytes.length)).setBlock i.dev b
        (store (d.block i.dev b) (pos % 1024) bytes)) := by
  obtain ⟨hd, hself, hother⟩ := d.extend_eq i (pos + bytes.length)
  have S' := S.extend i (pos + bytes.length)
  have hsb' : (d.extend i (pos + bytes.length)).super i.dev = some sb := by
    rw [hd]
    exact hsb
  have hq := slot_isData hpos
  have hb' : ((d.extend i (pos + bytes.length)).forest i.dev).ref i.num (slot (pos / 1024)) = b := by
    rw [Disk.extend_forest]
    exact hb
  refine ⟨S'.setBlock hsb' hq hb' h0, ?_⟩
  generalize hd' : (d.extend i (pos + bytes.length)).setBlock i.dev b
    (store (d.block i.dev b) (pos % 1024) bytes) = d'
  have href : ∀ {dev n p}, IsZone p → (d'.forest dev).ref n p = (d.forest dev).ref n p := by
    intro dev n p hp
    rw [← hd', S'.forest_setBlock hsb' hq hb' h0 hp, Disk.extend_forest]
  have hblock : ∀ e c, d'.block e c =
      if e = i.dev ∧ c = b then store (d.block i.dev b) (pos % 1024) bytes else d.block e c := by
    intro e c
    rw [← hd']
    show (if e = i.dev ∧ c = b then _ else (d.extend i (pos + bytes.length)).block e c) = _
    rw [hd]
  have hinode : d'.inode = (d.extend i (pos + bytes.length)).inode := by
    rw [← hd']
    rfl
  have hat : ∀ j p, d'.blockAt j p = d.blockAt j p := by
    intro j p
    unfold Disk.blockAt
    split
    · next hp => exact href (slot_isData hp).isZone
    · rfl
  -- the block is at no other place
  have hplace : ∀ j p, d.blockAt j p ≠ 0 →
      (j.dev = i.dev ∧ d.blockAt j p = b ↔ j = i ∧ p / 1024 = pos / 1024) := by
    intro j p hj0
    unfold Disk.blockAt at hj0 ⊢
    split at hj0
    · next hp =>
      rw [if_pos hp]
      constructor
      · rintro ⟨hdev, h⟩
        rw [hdev] at h hj0
        obtain ⟨hnum, hslot⟩ := (S.zones hsb).inj (slot_isData hp).isZone hq.isZone hj0 (h.trans hb.symm)
        refine ⟨?_, slot_inj hslot⟩
        obtain ⟨jd, jn⟩ := j
        obtain rfl : jd = i.dev := hdev
        obtain rfl : jn = i.num := hnum
        rfl
      · rintro ⟨rfl, h⟩
        exact ⟨rfl, by rw [h, hb]⟩
    · exact absurd rfl hj0
  have hrest : d'.super = d.super ∧ d'.imap = d.imap ∧ d'.bcount = d.bcount := by
    rw [← hd', hd]
    exact ⟨rfl, rfl, rfl⟩
  refine ⟨hrest.1, hrest.2.1, hrest.2.2, fun j => ?_, fun j hj => ?_, fun hp _ => href hp,
    fun hp _ => href hp, ?_, fun j p => ?_⟩
  · rw [hinode]
    by_cases hj : j = i
    · rw [hj, hself]
    · rw [hother j hj]
  · rw [hinode, hother j hj]
  · rw [hinode, hself, if_neg hne]
  · unfold Disk.byteAt
    rw [hat, hblock]
    by_cases hj0 : d.blockAt j p = 0
    · rw [if_pos hj0, if_pos hj0]
      split
      · next h =>
        -- the place of the write has a block
        obtain ⟨rfl, h1, h2⟩ := h
        have hp : p / 1024 = pos / 1024 := by omega
        rw [Disk.blockAt, hp, if_pos hpos, hb] at hj0
        exact absurd hj0 h0
      · rfl
    · rw [if_neg hj0, if_neg hj0]
      by_cases hjp : j = i ∧ p / 1024 = pos / 1024
      · rw [if_pos ((hplace j p hj0).mpr hjp)]
        obtain ⟨rfl, hp⟩ := hjp
        have hbp : d.blockAt j p = b := by
          rw [Disk.blockAt, hp, if_pos hpos, hb]
        unfold store
        rw [hbp]
        by_cases hin : pos ≤ p ∧ p < pos + bytes.length
        · have hsub : p % 1024 - pos % 1024 = p - pos := by omega
          rw [if_pos (by omega), if_pos ⟨rfl, hin⟩, hsub]
        · rw [if_neg (by omega), if_neg fun h => hin h.2]
      · rw [if_neg fun h => hjp ((hplace j p hj0).mp h), if_neg]
        rintro ⟨hj, h1, h2⟩
        exact hjp ⟨hj, by omega⟩

/-! ## `file_write` and `file_read` -/

/-- A round of `file_write` for which there is a block. -/
theorem fileWriteLoop_round {d1 : Disk} (hsb : d.super i.dev = some sb)
    (hpos : pos / 1024 < 7 + 512 + 512 * 512) (hbuf : buf ≠ [])
    (h1 : createDiskBlock d i (pos / 1024) = some (b, d1)) (F : Fills d i (slot (pos / 1024)) b d1)
    (h0 : b ≠ 0) {c : Nat} (hc : min (1024 - pos % 1024) buf.length = c) (m : Nat) :
    ∃ d2, fileWriteLoop i (m + 1) d pos buf = fileWriteLoop i m d2 (pos + c) (buf.drop c) ∧
      (buf.take c).length = c ∧ 0 < c ∧ d2.Sound ∧ d.Wrote i pos (buf.take c) d2 := by
  have hlen : (buf.take c).length = c := by
    rw [List.length_take]
    omega
  have hpos0 : 0 < buf.length := List.length_pos_iff.mpr hbuf
  have hne : buf.take c ≠ [] := fun hnil => by
    rw [hnil, List.length_nil] at hlen
    omega
  have hsb1 : d1.super i.dev = some sb := F.grows.super ▸ hsb
  have hfit : pos % 1024 + (buf.take c).length ≤ 1024 := by omega
  obtain ⟨S2, W2⟩ := F.sound.store_spec hsb1 hpos F.ref h0 hne hfit
  rw [hlen] at S2 W2
  refine ⟨_, ?_, hlen, by omega, S2, (F.grows.wrote pos).trans W2⟩
  rw [fileWriteLoop, if_neg hbuf, h1, Option.bind_some]
  dsimp only
  rw [if_neg h0, hc]
  -- the buffer that the round uses is given back
  congr 1
  symm
  unfold Disk.extend
  split
  · next hs =>
    have hs' : ((d1.bread i.dev b).inode i).size < pos + c := hs
    rw [if_pos hs']
    exact (Disk.brelse_bread _ i.dev b).symm
  · next hs =>
    have hs' : ¬ ((d1.bread i.dev b).inode i).size < pos + c := hs
    rw [if_neg hs']
    exact (Disk.brelse_bread _ i.dev b).symm

/-- What the loop of `file_write` has written is a beginning of the buffer; it ends early only when
there is no block. -/
theorem fileWriteLoop_spec (S : d.Sound) (Q : d.Quiet) (hsb : d.super i.dev = some sb)
    (hi : (d.inode i).isFile = true) {m : Nat} (hm : buf.length ≤ m) {pos' : Nat}
    (h : fileWriteLoop i m d pos buf = some (rest, pos', d')) :
    ∃ done, buf = done ++ rest ∧ pos' = pos + done.length ∧ d'.Sound ∧ d.Wrote i pos done d' := by
  induction m generalizing d pos buf with
  | zero =>
    cases h
    exact ⟨[], rfl, rfl, S, (Disk.Grows.refl i _).wrote _⟩
  | succ m ih =>
    by_cases hbuf : buf = []
    · rw [fileWriteLoop, if_pos hbuf] at h
      cases h
      exact ⟨[], hbuf, rfl, S, (Disk.Grows.refl i _).wrote _⟩
    · have hpos : pos / 1024 < 7 + 512 + 512 * 512 := by
        by_contra hlarge
        unfold fileWriteLoop createDiskBlock bmap at h
        rw [if_neg hbuf, if_pos (by omega)] at h
        cases h
      obtain ⟨b, d1, h1, F⟩ := createDiskBlock_spec S Q hsb hi hpos
      by_cases h0 : b = 0
      · rw [fileWriteLoop, if_neg hbuf, h1, Option.bind_some] at h
        dsimp only at h
        rw [if_pos h0] at h
        cases h
        exact ⟨[], rfl, rfl, F.sound, F.grows.wrote _⟩
      · obtain ⟨d2, hround, hlen, hc, S2, W⟩ := fileWriteLoop_round hsb hpos hbuf h1 F h0 rfl m
        rw [hround] at h
        generalize min (1024 - pos % 1024) buf.length = c at hlen hc W h
        have hdrop : (buf.drop c).length ≤ m := by
          rw [List.length_drop]
          omega
        obtain ⟨done, hdone, hpos', S', W'⟩ := ih S2 (W.quiet Q) (W.super ▸ hsb)
          ((W.isFile i).trans hi) hdrop h
        refine ⟨buf.take c ++ done, ?_, ?_, S', ?_⟩
        · rw [List.append_assoc, ← hdone, List.take_append_drop]
        · rw [hpos', List.length_append, hlen, Nat.add_assoc]
        · exact W.trans (by rw [hlen]; exact W')

/-- `file_write` writes a beginning of the buffer, at the end of the file or at the position. -/
theorem fileWrite_spec (S : d.Sound) (Q : d.Quiet) (hsb : d.super i.dev = some sb)
    (hi : (d.inode i).isFile = true) {append : Bool} {fpos : Nat} {r : Int} {fpos' : Nat}
    (h : fileWrite d i append fpos buf = some (r, fpos', d')) :
    ∃ done, done <+: buf ∧ d'.Sound ∧
      d.Wrote i (if append then (d.inode i).size else fpos) done d' ∧
      r = if done = [] then -1 else (done.length : Int) := by
  obtain ⟨⟨rest, pos', d1⟩, hloop, heq⟩ := Option.map_eq_some_iff.mp h
  obtain ⟨done, rfl, -, S', W⟩ := fileWriteLoop_spec S Q hsb hi (Nat.le_refl _) hloop
  have hwritten : (done ++ rest).length - rest.length = done.length := by
    rw [List.length_append, Nat.add_sub_cancel]
  simp only [hwritten, Prod.mk.injEq] at heq
  obtain ⟨hr, -, rfl⟩ := heq
  refine ⟨done, List.prefix_append done rest, S', W, ?_⟩
  rw [← hr]
  cases done with
  | nil => rfl
  | cons x xs => rfl

/-- `file_read` returns the bytes of the file, and changes nothing. -/
theorem fileReadLoop_spec (hi : (d.inode i).isFile = true) {m left : Nat} (hm : left ≤ m)
    (hmax : pos + left ≤ 1024 * (7 + 512 + 512 * 512)) :
    fileReadLoop i m d pos left =
      some ((List.range left).map fun k => d.byteAt i (pos + k), pos + left, d) := by
  induction m generalizing pos left with
  | zero =>
    obtain rfl : left = 0 := Nat.le_zero.mp hm
    rfl
  | succ m ih =>
    rw [fileReadLoop]
    split
    · next h0 =>
      subst h0
      rfl
    · next h0 =>
      have hpos : pos / 1024 < 7 + 512 + 512 * 512 := by omega
      rw [getDiskBlock_eq hi hpos, Option.bind_some]
      have hat : ∀ k < 1024 - pos % 1024, d.blockAt i (pos + k) =
          (d.forest i.dev).ref i.num (slot (pos / 1024)) := by
        intro k hk
        have hdiv : (pos + k) / 1024 = pos / 1024 := by omega
        rw [Disk.blockAt, hdiv, if_pos hpos]
      generalize hc : min (1024 - pos % 1024) left = c
      -- the part of the block that is copied
      have hbytes : ∀ k < c, d.byteAt i (pos + k) =
          if (d.forest i.dev).ref i.num (slot (pos / 1024)) = 0 then 0
          else d.block i.dev ((d.forest i.dev).ref i.num (slot (pos / 1024))) (pos % 1024 + k) := by
        intro k hk
        have hmod : (pos + k) % 1024 = pos % 1024 + k := by omega
        rw [Disk.byteAt, hat k (by omega), hmod]
      have hsum : pos + c + (left - c) = pos + left := by omega
      have hrest : fileReadLoop i m d (pos + c) (left - c) =
          some ((List.range (left - c)).map fun k => d.byteAt i (pos + c + k), pos + left, d) := by
        rw [← hsum]
        exact ih (by omega) (by omega)
      have hlist : (List.range left).map (fun k => d.byteAt i (pos + k)) =
          (List.range c).map (fun k => d.byteAt i (pos + k)) ++
            (List.range (left - c)).map fun k => d.byteAt i (pos + c + k) := by
        have hleft : left = c + (left - c) := by omega
        conv_lhs => rw [hleft, List.range_add, List.map_append, List.map_map]
        simp only [Function.comp_def, Nat.add_assoc]
      have hcopy : ∀ data : Nat → Byte, (∀ k < c, d.byteAt i (pos + k) = data (pos % 1024 + k)) →
          (List.range c).map (fun k => d.byteAt i (pos + k)) =
            (List.range c).map fun k => data (pos % 1024 + k) := fun data h =>
        List.map_congr_left fun k hk => h k (List.mem_range.mp hk)
      rw [hlist]
      by_cases href : (d.forest i.dev).ref i.num (slot (pos / 1024)) = 0
      · simp only [if_neg (not_not.mpr href), hrest, Option.map_some]
        rw [hcopy (fun _ => 0) fun k hk => (hbytes k hk).trans (if_pos href)]
      · simp only [if_pos href, Disk.brelse_bread, hrest, Option.map_some]
        rw [hcopy (d.block i.dev ((d.forest i.dev).ref i.num (slot (pos / 1024)))) fun k hk =>
          (hbytes k hk).trans (if_neg href)]

end Linux011.Minix
