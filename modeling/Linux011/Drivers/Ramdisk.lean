import Linux011.Drivers.Hd
import Linux011.Lib.Bytes
import Linux011.Lib.Machine

/-!
# The RAM disk (`kernel/blk_drv/ramdisk.c`)

The RAM disk is a piece of the memory. `do_rd_request` does not wait for anything: it copies between the
piece and the buffer of the request, and ends the request. `rd_init` clears the piece, and `rd_load` fills
it with a file system from the diskette, which begins at block 256 there, and makes it the root device.

Addresses and sectors have 32 bits and wrap. `bread` is a parameter: it says in which buffer the block is,
and what the memory is like then.

The piece is a store of blocks (`Shows`): a block is what was last written to it, and before that what
`rd_load` or `rd_init` has left there.
-/

namespace Linux011.Drivers.Rd

open Lib (overlay moveUp)

abbrev Byte := BitVec 8

/-- `struct blk_request`. -/
structure Request where
  minor : Nat
  cmd : Rw
  sector : Nat
  nrSectors : Nat
  /-- The address of the data. -/
  buffer : Nat

/-- The request that `make_request` fills in. -/
def Request.make (minor : Nat) (cmd : Rw) (block buffer : Nat) : Request := ⟨minor, cmd, 2 * block, 2, buffer⟩

structure Disk where
  mem : Nat → Byte
  rdStart : Nat
  rdLength : Nat
  /-- `ROOT_DEV`. -/
  rootDev : Nat
  /-- The requests that are over, the last one first, with `uptodate`. -/
  ended : List Bool

/-- `memcpy`. -/
@[irreducible] def memcpy (dest src n : Nat) (mem : Nat → Byte) : Nat → Byte := moveUp 1 src dest n mem

/-- `end_request`. -/
def Disk.endRequest (uptodate : Bool) (s : Disk) : Disk := { s with ended := uptodate :: s.ended }

/-- `addr` in `do_rd_request`. -/
def Disk.addr (s : Disk) (sector : Nat) : Nat := (s.rdStart + sector * 512 % 0x100000000) % 0x100000000

/-- `do_rd_request`, with the queue. -/
def doRdRequest : List Request → Disk → Disk
  | [], s => s
  | r :: q, s =>
    let addr := s.addr r.sector
    let len := r.nrSectors * 512
    if r.minor ≠ 1 ∨ s.rdStart + s.rdLength < (addr + len) % 0x100000000 then
      doRdRequest q (s.endRequest false)
    else
      let mem :=
        match r.cmd with
        | .write => memcpy addr r.buffer len s.mem
        | .read => memcpy r.buffer addr len s.mem
      doRdRequest q ({ s with mem := mem }.endRequest true)

/-- The loop of `rd_init`. -/
def clear (cp : Nat) : Nat → (Nat → Byte) → Nat → Byte
  | 0, mem => mem
  | n + 1, mem => clear (cp + 1) n (Function.update mem cp 0)

/-- `rd_init`. -/
def rdInit (memStart length : Nat) (s : Disk) : Disk :=
  { s with rdStart := memStart, rdLength := length, mem := clear memStart length s.mem }

/-- `bread` of the root device: the address of the buffer, or `NULL`, and the memory. -/
abbrev Bread := Nat → (Nat → Byte) → Option Nat × (Nat → Byte)

/-- The loop of `rd_load`. -/
def loadBlocks (bread : Bread) : Nat → Nat → Nat → Disk → Disk
  | 0, _, _, s => { s with rootDev := 0x0101 }
  | nblocks + 1, block, cp, s =>
    -- `breada` is `bread` for its first block; what it asks for beside that is part of the memory
    match bread block s.mem with
    | (none, mem) => { s with mem := mem }
    | (some data, mem) =>
      loadBlocks bread nblocks (block + 1) (cp + 1024) { s with mem := memcpy cp data 1024 mem }

/-- An `unsigned short` of the super block. -/
def short (block : Nat → Byte) (i : Nat) : BitVec 16 := block (i + 1) ++ block i

/-- `s_nzones << s_log_zone_size`, as the processor shifts. -/
def nblocksOf (block : Nat → Byte) : BitVec 32 :=
  (short block 2).zeroExtend 32 <<< ((short block 10).toNat % 32)

/-- `rd_load`. -/
def rdLoad (bread : Bread) (s : Disk) : Disk :=
  if s.rdLength = 0 then s
  else if s.rootDev / 256 ≠ 2 then s
  else
    match bread 257 s.mem with
    | (none, mem) => { s with mem := mem }
    | (some data, mem) =>
      let super := fun i => mem (data + i)
      let s := { s with mem := mem }
      if short super 16 ≠ 0x137F then s
      else
        let nblocks := nblocksOf super
        if (BitVec.ofNat 32 (s.rdLength / 1024)).slt nblocks then s
        else loadBlocks bread nblocks.toNat 256 s.rdStart s

/-! ## Copies -/

variable {mem : Nat → Byte} {s s' : Disk} {lo n a : Nat}

theorem memcpy_eq {dest src : Nat} (h : dest ≤ src ∨ src + n ≤ dest) :
    memcpy dest src n mem = overlay mem dest n fun i => mem (src + i) := by
  have hmove : moveUp 1 src dest n mem = overlay mem dest (1 * n) fun i => mem (src + i) :=
    Lib.moveUp_eq (by rwa [Nat.one_mul])
  rw [Nat.one_mul] at hmove
  unfold memcpy
  exact hmove

theorem clear_eq (cp n : Nat) (mem : Nat → Byte) : clear cp n mem = overlay mem cp n fun _ => 0 := by
  induction n generalizing cp mem with
  | zero => exact Lib.overlay_zero.symm
  | succ n ih =>
    rw [clear, ih]
    funext a
    unfold overlay
    by_cases ha : a = cp
    · rw [if_neg (by omega), if_pos (by omega), ha, Function.update_self]
    · rw [Function.update_of_ne ha]
      by_cases hin : cp + 1 ≤ a ∧ a < cp + 1 + n
      · rw [if_pos hin, if_pos (by omega)]
      · rw [if_neg hin, if_neg (by omega)]

/-! ## Loading -/

/-- What `bread` is relied on for: it does not touch the RAM disk, and what it finds is in a buffer that is
not there. -/
structure Reads (bread : Bread) (lo n : Nat) (image : Nat → Nat → Byte) : Prop where
  keeps : ∀ block mem a, lo ≤ a → a < lo + n → (bread block mem).2 a = mem a
  apart : ∀ block mem b, (bread block mem).1 = some b → b + 1024 ≤ lo ∨ lo + n ≤ b
  data : ∀ block mem b, (bread block mem).1 = some b → ∀ j < 1024, (bread block mem).2 (b + j) = image block j

/-- What the loop of `rd_load` does, from an address of the RAM disk on. -/
structure Loads (image : Nat → Nat → Byte) (nblocks block cp : Nat) (s s' : Disk) : Prop where
  rdStart : s'.rdStart = s.rdStart
  rdLength : s'.rdLength = s.rdLength
  ended : s'.ended = s.ended
  keeps : ∀ a, s.rdStart ≤ a → a < s.rdStart + s.rdLength → a < cp ∨ cp + 1024 * nblocks ≤ a →
    s'.mem a = s.mem a
  root : s'.rootDev = s.rootDev ∨ s'.rootDev = 0x0101 ∧
    ∀ i < nblocks, ∀ j < 1024, s'.mem (cp + 1024 * i + j) = image (block + i) j

theorem loadBlocks_loads {bread : Bread} {image : Nat → Nat → Byte} :
    ∀ (nblocks block cp : Nat) (s : Disk), Reads bread s.rdStart s.rdLength image → s.rdStart ≤ cp →
      cp + 1024 * nblocks ≤ s.rdStart + s.rdLength →
      Loads image nblocks block cp s (loadBlocks bread nblocks block cp s)
  | 0, _, _, s, _, _, _ =>
    ⟨rfl, rfl, rfl, fun _ _ _ _ => rfl, Or.inr ⟨rfl, fun i hi => absurd hi (Nat.not_lt_zero i)⟩⟩
  | nblocks + 1, block, cp, s, R, hlow, hhigh => by
    have hkeeps := R.keeps block s.mem
    have hdata := R.data block s.mem
    have hapart := R.apart block s.mem
    unfold loadBlocks
    generalize bread block s.mem = found at hkeeps hdata hapart
    obtain ⟨b, mem⟩ := found
    dsimp only at hkeeps hdata hapart
    cases b with
    | none => exact ⟨rfl, rfl, rfl, fun a h₁ h₂ _ => hkeeps a h₁ h₂, Or.inl rfl⟩
    | some b =>
      have hb := hapart b rfl
      dsimp only
      rw [@memcpy_eq mem 1024 cp b (by omega)]
      have L := loadBlocks_loads nblocks (block + 1) (cp + 1024)
        { s with mem := overlay mem cp 1024 fun i => mem (b + i) } R (by dsimp only; omega)
        (by dsimp only; omega)
      generalize loadBlocks bread nblocks (block + 1) (cp + 1024) _ = t at L ⊢
      refine ⟨L.rdStart, L.rdLength, L.ended, fun a h₁ h₂ hout => ?_, ?_⟩
      · have hnext : a < cp + 1024 ∨ cp + 1024 + 1024 * nblocks ≤ a := hout.imp (by omega) (by omega)
        have hfirst : a < cp ∨ cp + 1024 ≤ a := hout.imp_right (by omega)
        rw [L.keeps a h₁ h₂ hnext]
        dsimp only
        rw [Lib.overlay_out hfirst]
        exact hkeeps a h₁ h₂
      · rcases L.root with hroot | ⟨hroot, hblocks⟩
        · exact Or.inl hroot
        · refine Or.inr ⟨hroot, fun i hi j hj => ?_⟩
          cases i with
          | zero =>
            have hfirst := L.keeps (cp + j) (by dsimp only; omega) (by dsimp only; omega) (by omega)
            rw [Nat.mul_zero, Nat.add_zero cp, Nat.add_zero block, hfirst]
            dsimp only
            rw [Lib.overlay_in hj]
            exact hdata b rfl j hj
          | succ i =>
            have hnext := hblocks i (by omega) j hj
            rw [show cp + 1024 * (i + 1) + j = cp + 1024 + 1024 * i + j by omega,
              show block + (i + 1) = block + 1 + i by omega]
            exact hnext

theorem nblocksOf_congr {f g : Nat → Byte} (h : ∀ j < 1024, f j = g j) : nblocksOf f = nblocksOf g := by
  unfold nblocksOf short
  rw [h 2 (by decide), h 3 (by decide), h 10 (by decide), h 11 (by decide)]

/-- When the root device is the RAM disk, the whole file system is there. -/
theorem rdLoad_loads {bread : Bread} {image : Nat → Nat → Byte}
    (R : Reads bread s.rdStart s.rdLength image) (hlen : s.rdLength < 0x80000000)
    (hsize : (nblocksOf (image 257)).msb = false) (hroot : s.rootDev ≠ 0x0101)
    (h : (rdLoad bread s).rootDev = 0x0101) :
    1024 * (nblocksOf (image 257)).toNat ≤ s.rdLength ∧
      Loads image (nblocksOf (image 257)).toNat 256 s.rdStart s (rdLoad bread s) := by
  have hkeeps := R.keeps 257 s.mem
  have hdata := R.data 257 s.mem
  unfold rdLoad at h ⊢
  split at h
  · exact absurd h hroot
  · next hlength =>
    rw [if_neg hlength]
    split at h
    · exact absurd h hroot
    · next hmajor =>
      rw [if_neg hmajor]
      generalize bread 257 s.mem = found at hkeeps hdata h ⊢
      obtain ⟨b, mem⟩ := found
      dsimp only at hkeeps hdata h ⊢
      cases b with
      | none => exact absurd h hroot
      | some b =>
        dsimp only at h ⊢
        rw [nblocksOf_congr (hdata b rfl)] at h ⊢
        split at h
        · exact absurd h hroot
        · next hmagic =>
          rw [if_neg hmagic]
          split at h
          · exact absurd h hroot
          · next hfits =>
            rw [if_neg hfits]
            have hle : 1024 * (nblocksOf (image 257)).toNat ≤ s.rdLength := by
              rw [BitVec.slt_iff_toInt_lt, BitVec.toInt_eq_toNat_of_msb hsize, BitVec.toInt_eq_toNat_of_lt (by
                rw [BitVec.toNat_ofNat]; omega), BitVec.toNat_ofNat] at hfits
              omega
            have L := loadBlocks_loads (nblocksOf (image 257)).toNat 256 s.rdStart { s with mem := mem } R
              (Nat.le_refl _) (by dsimp only; omega)
            refine ⟨hle, L.rdStart, L.rdLength, L.ended, fun a h₁ h₂ hout => ?_, L.root⟩
            rw [L.keeps a h₁ h₂ hout]
            exact hkeeps a h₁ h₂

/-! ## The store -/

/-- The block `b` is a block of the RAM disk. -/
def Disk.Has (s : Disk) (b : Nat) : Prop := 1024 * (b + 1) ≤ s.rdLength

/-- The RAM disk holds these blocks. -/
def Disk.Shows (s : Disk) (store : Nat → Nat → Byte) : Prop :=
  ∀ b, s.Has b → ∀ j < 1024, s.mem (s.rdStart + 1024 * b + j) = store b j

/-- What `rd_load` leaves. -/
def loaded (image : Nat → Nat → Byte) (b j : Nat) : Byte :=
  if b < (nblocksOf (image 257)).toNat then image (256 + b) j else 0

theorem loaded_shows {bread : Bread} {image : Nat → Nat → Byte} {memStart length : Nat}
    (R : Reads bread memStart length image) (hlen : length < 0x80000000)
    (hsize : (nblocksOf (image 257)).msb = false) (hroot : s.rootDev ≠ 0x0101)
    (h : (rdLoad bread (rdInit memStart length s)).rootDev = 0x0101) :
    (rdLoad bread (rdInit memStart length s)).Shows (loaded image) := by
  obtain ⟨hle, L⟩ := rdLoad_loads (s := rdInit memStart length s) R hlen hsize hroot h
  have hcontents := L.root.resolve_left fun he => hroot (he.symm.trans h)
  intro b hb j hj
  have hb' : 1024 * (b + 1) ≤ length := by
    have hlength : (rdLoad bread (rdInit memStart length s)).rdLength = length := L.rdLength
    rwa [Disk.Has, hlength] at hb
  rw [L.rdStart]
  unfold loaded
  split
  · next hin => exact hcontents.2 b hin j hj
  · next hout =>
    rw [L.keeps _ (by dsimp only [rdInit]; omega) (by dsimp only [rdInit]; omega)
      (Or.inr (by dsimp only [rdInit]; omega))]
    show clear memStart length s.mem (memStart + 1024 * b + j) = 0
    rw [clear_eq, Lib.overlay_at (by omega) (by omega)]

/-! ## Requests -/

instance (s : Disk) (b : Nat) : Decidable (s.Has b) := inferInstanceAs (Decidable (_ ≤ _))

/-- The RAM disk lies in the memory. -/
def Disk.Placed (s : Disk) : Prop := s.rdStart + s.rdLength ≤ 0x1000000

/-- A buffer that is not in the RAM disk. -/
def Disk.Beside (s : Disk) (buffer : Nat) : Prop := buffer + 1024 ≤ s.rdStart ∨ s.rdStart + s.rdLength ≤ buffer

/-- What is copied for a block of the RAM disk. -/
def Disk.copy (s : Disk) (cmd : Rw) (block buffer : Nat) : Nat → Byte :=
  match cmd with
  | .write => overlay s.mem (s.rdStart + 1024 * block) 1024 fun j => s.mem (buffer + j)
  | .read => overlay s.mem buffer 1024 fun j => s.mem (s.rdStart + 1024 * block + j)

theorem copy_write (s : Disk) (block buffer : Nat) : s.copy .write block buffer =
    overlay s.mem (s.rdStart + 1024 * block) 1024 fun j => s.mem (buffer + j) := rfl

theorem copy_read (s : Disk) (block buffer : Nat) : s.copy .read block buffer =
    overlay s.mem buffer 1024 fun j => s.mem (s.rdStart + 1024 * block + j) := rfl

/-- One request: the block is copied if there is one, and nothing is done if there is none. -/
theorem doRdRequest_make {minor block buffer : Nat} {cmd : Rw} (hplaced : s.Placed) (hblock : block < 0x200000)
    (hbuffer : s.Beside buffer) :
    doRdRequest [.make minor cmd block buffer] s =
      if minor = 1 ∧ s.Has block then { s with mem := s.copy cmd block buffer, ended := true :: s.ended }
      else { s with ended := false :: s.ended } := by
  unfold Disk.Placed at hplaced
  have haddr : s.addr (2 * block) = s.rdStart + 1024 * block := by
    unfold Disk.addr
    omega
  have hend : (s.rdStart + 1024 * block + 1024) % 0x100000000 = s.rdStart + 1024 * (block + 1) := by omega
  rw [doRdRequest]
  dsimp only [Request.make]
  simp only [haddr, hend]
  by_cases hminor : minor = 1
  · by_cases hhas : s.Has block
    · have hin : ¬ (minor ≠ 1 ∨ s.rdStart + s.rdLength < s.rdStart + 1024 * (block + 1)) := by
        unfold Disk.Has at hhas
        omega
      rw [if_neg hin, if_pos ⟨hminor, hhas⟩]
      unfold Disk.Has at hhas
      unfold Disk.Beside at hbuffer
      cases cmd with
      | write =>
        have hcopy := @memcpy_eq s.mem 1024 (s.rdStart + 1024 * block) buffer (by omega)
        exact congrArg (fun mem => ({ s with mem := mem, ended := true :: s.ended } : Disk)) hcopy
      | read =>
        have hcopy := @memcpy_eq s.mem 1024 buffer (s.rdStart + 1024 * block) (by omega)
        exact congrArg (fun mem => ({ s with mem := mem, ended := true :: s.ended } : Disk)) hcopy
    · have hout : minor ≠ 1 ∨ s.rdStart + s.rdLength < s.rdStart + 1024 * (block + 1) := by
        unfold Disk.Has at hhas
        omega
      rw [if_pos hout, if_neg fun h => hhas h.2]
      rfl
  · rw [if_pos (Or.inl hminor), if_neg fun h => hminor h.1]
    rfl

/-- The RAM disk, with the blocks last written to it. -/
structure Stored where
  disk : Disk
  store : Nat → Nat → Byte

inductive Event
  | request (minor : Nat) (cmd : Rw) (block buffer : Nat)
  /-- What everything else makes of the memory. -/
  | other (mem : Nat → Byte)

/-- What a request leaves in the store. -/
def Stored.put (s : Stored) (minor : Nat) (cmd : Rw) (block buffer : Nat) : Nat → Nat → Byte :=
  match cmd with
  | .write =>
    if minor = 1 ∧ s.disk.Has block then Function.update s.store block fun j => s.disk.mem (buffer + j)
    else s.store
  | .read => s.store

def step (s : Stored) : Event → Option Stored
  | .request minor cmd block buffer =>
    some ⟨doRdRequest [.make minor cmd block buffer] s.disk, s.put minor cmd block buffer⟩
  | .other mem => some { s with disk := { s.disk with mem := mem } }

/-- The block is one that the file system can ask for, the buffer is not in the RAM disk, and nothing else
touches the RAM disk. -/
def Clean (s : Stored) : Event → Prop
  | .request _ _ block buffer => block < 0x200000 ∧ s.disk.Beside buffer
  | .other mem => ∀ a, s.disk.rdStart ≤ a → a < s.disk.rdStart + s.disk.rdLength → mem a = s.disk.mem a

structure Good (lo n : Nat) (s : Stored) : Prop where
  rdStart : s.disk.rdStart = lo
  rdLength : s.disk.rdLength = n
  shows : s.disk.Shows s.store

variable {t t' : Stored}

theorem step_good {e : Event} (hplaced : lo + n ≤ 0x1000000) (G : Good lo n t) (hclean : Clean t e)
    (h : step t e = some t') : Good lo n t' := by
  have hdisk : t.disk.Placed := by
    unfold Disk.Placed
    rw [G.rdStart, G.rdLength]
    exact hplaced
  cases e with
  | request minor cmd block buffer =>
    cases h
    rw [doRdRequest_make hdisk hclean.1 hclean.2]
    have hbeside := hclean.2
    by_cases hin : minor = 1 ∧ t.disk.Has block
    · rw [if_pos hin]
      have hhas := hin.2
      unfold Disk.Beside at hbeside
      unfold Disk.Has at hhas
      refine ⟨G.rdStart, G.rdLength, fun b hb j hj => ?_⟩
      have hb' : 1024 * (b + 1) ≤ t.disk.rdLength := hb
      have hold := G.shows b hb' j hj
      cases cmd with
      | write =>
        dsimp only [Stored.put]
        rw [copy_write, if_pos hin]
        by_cases hbb : b = block
        · subst hbb
          rw [Lib.overlay_in hj, Function.update_self]
        · rw [Lib.overlay_out (by omega), Function.update_of_ne hbb]
          exact hold
      | read =>
        dsimp only [Stored.put]
        rw [copy_read, Lib.overlay_out (by omega)]
        exact hold
    · rw [if_neg hin]
      have hput : t.put minor cmd block buffer = t.store := by
        cases cmd with
        | write => exact if_neg hin
        | read => rfl
      rw [hput]
      exact ⟨G.rdStart, G.rdLength, G.shows⟩
  | other mem =>
    cases h
    refine ⟨G.rdStart, G.rdLength, fun b hb j hj => ?_⟩
    have hb' : 1024 * (b + 1) ≤ t.disk.rdLength := hb
    have hsame := hclean (t.disk.rdStart + 1024 * b + j) (by omega) (by omega)
    exact hsame.trans (G.shows b hb' j hj)

/-- What a request for the RAM disk does, with the block it asks for. -/
structure Serves (t : Stored) (cmd : Rw) (block buffer : Nat) (d : Disk) : Prop where
  /-- A block there is. -/
  ended : t.disk.Has block → d.ended = true :: t.disk.ended
  read : t.disk.Has block → cmd = .read → ∀ j < 1024, d.mem (buffer + j) = t.store block j
  only : t.disk.Has block → cmd = .read → ∀ a, a < buffer ∨ buffer + 1024 ≤ a → d.mem a = t.disk.mem a
  write : t.disk.Has block → cmd = .write → ∀ a, a < t.disk.rdStart ∨ t.disk.rdStart + t.disk.rdLength ≤ a →
    d.mem a = t.disk.mem a
  /-- A block there is not. -/
  refused : ¬ t.disk.Has block → d = { t.disk with ended := false :: t.disk.ended }

/-- THE RAM DISK IS THE IMAGE. After `rd_load` has made it the root device, and any requests since, a block
that is read is what was last written to it, or the block of the diskette, or zero behind the file system;
nothing but the buffer is changed. To write changes nothing outside of the RAM disk, and a block that there
is not is refused. -/
theorem ramdisk_serves {bread : Bread} {image : Nat → Nat → Byte}
    (R : Reads bread lo n image) (hplaced : lo + n ≤ 0x1000000) (hsize : (nblocksOf (image 257)).msb = false)
    (hroot : s.rootDev ≠ 0x0101) (hload : (rdLoad bread (rdInit lo n s)).rootDev = 0x0101)
    (h : Lib.Reach step Clean (fun t => t = ⟨rdLoad bread (rdInit lo n s), loaded image⟩) t)
    (cmd : Rw) (block buffer : Nat) (hclean : Clean t (.request 1 cmd block buffer)) :
    Serves t cmd block buffer (doRdRequest [.make 1 cmd block buffer] t.disk) := by
  have G : Good lo n t := by
    refine h.invariant (I := Good lo n) ?_ fun _ _ _ => step_good hplaced
    rintro _ rfl
    obtain ⟨-, L⟩ := rdLoad_loads (s := rdInit lo n s) R (by dsimp only [rdInit]; omega) hsize hroot hload
    exact ⟨L.rdStart, L.rdLength, loaded_shows R (by omega) hsize hroot hload⟩
  have hdisk : t.disk.Placed := by
    unfold Disk.Placed
    rw [G.rdStart, G.rdLength]
    exact hplaced
  rw [doRdRequest_make hdisk hclean.1 hclean.2]
  by_cases hhas : t.disk.Has block
  · rw [if_pos ⟨rfl, hhas⟩]
    refine ⟨fun _ => rfl, fun _ hcmd j hj => ?_, fun _ hcmd a ha => ?_, fun _ hcmd a ha => ?_,
      fun hnot => absurd hhas hnot⟩
    · subst hcmd
      dsimp only
      rw [copy_read, Lib.overlay_in hj]
      exact G.shows block hhas j hj
    · subst hcmd
      dsimp only
      rw [copy_read, Lib.overlay_out ha]
    · subst hcmd
      unfold Disk.Has at hhas
      dsimp only
      rw [copy_write, Lib.overlay_out (by omega)]
  · rw [if_neg fun hin => hhas hin.2]
    exact ⟨fun hin => absurd hin hhas, fun hin => absurd hin hhas, fun hin => absurd hin hhas,
      fun hin => absurd hin hhas, fun _ => rfl⟩

/-- A diskette with a file system of three blocks; its first block is all ones. -/
def tiny (block j : Nat) : Byte :=
  if block = 257 then if j = 2 then 3 else if j = 16 then 0x7F else if j = 17 then 0x13 else 0
  else if block = 256 then 1 else 0

/-- Each block is read into the same buffer. -/
def oneBuffer : Bread := fun block mem => (some 0x1000, overlay mem 0x1000 1024 (tiny block))

theorem oneBuffer_reads : Reads oneBuffer 0x100000 4096 tiny where
  keeps _ _ _ h _ := Lib.overlay_out (Or.inr (by omega))
  apart _ _ b h := by
    cases h
    exact Or.inl (by decide)
  data block mem b h j hj := by
    cases h
    exact Lib.overlay_in hj

def blank : Disk := ⟨fun _ => 0, 0, 0, 0x021C, []⟩

def tinyLoaded : Stored := ⟨rdLoad oneBuffer (rdInit 0x100000 4096 blank), loaded tiny⟩

/-- The second block has been written. -/
def tinyWritten : Stored :=
  ⟨doRdRequest [.make 1 .write 1 0x2000] tinyLoaded.disk, tinyLoaded.put 1 .write 1 0x2000⟩

theorem ramdisk_serves_tiny : tinyWritten.store 0 5 = 1 ∧ tinyWritten.disk.Has 0 ∧
    Serves tinyWritten .read 0 0x3000 (doRdRequest [.make 1 .read 0 0x3000] tinyWritten.disk) := by
  have hload : (rdLoad oneBuffer (rdInit 0x100000 4096 blank)).rootDev = 0x0101 ∧
      tinyLoaded.disk.rdStart = 0x100000 ∧ tinyWritten.disk.rdStart = 0x100000 ∧
      tinyWritten.disk.rdLength = 4096 ∧ tinyWritten.store 0 5 = 1 := by decide +kernel
  obtain ⟨hroot, hstart, hstart', hlength, hstore⟩ := hload
  have hreach : Lib.Reach step Clean
      (fun t => t = ⟨rdLoad oneBuffer (rdInit 0x100000 4096 blank), loaded tiny⟩) tinyWritten := by
    have hclean : Clean tinyLoaded (.request 1 .write 1 0x2000) := ⟨by decide, Or.inl (by omega)⟩
    exact .next (.request 1 .write 1 0x2000) (.start rfl) hclean rfl
  refine ⟨hstore, ?_, ramdisk_serves oneBuffer_reads (by decide) (by decide) (by decide) hroot hreach .read
    0 0x3000 ⟨by decide, Or.inl ?_⟩⟩
  · unfold Disk.Has
    omega
  · omega

end Linux011.Drivers.Rd
