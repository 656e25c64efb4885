import Linux011.FileSys.Settle

/-!
# The bitmaps (`bitmap.c`)

A bitmap is up to eight blocks of 8192 bits; `find_first_zero` goes through a block word by word, in
assembler. Bit `n` of the zone map is that of block `n + s_firstdatazone - 1`, bit `n` of the inode
map that of inode `n`, and bit 0 of both is set for ever.

`new_inode` sets the bit that it has found after it has seen that it is the bit of an inode.
`new_block` looks at the number only after the bit has been set, and `free_block` does not give back
the buffer that it has found in use. Everything else is as it should be.
-/

namespace Linux011.FileSys

open Lib (Returns)
open Lib.Prog (stop alarm when forEach)
open Minix (firstZero firstZero_some firstZero_none firstZero_below)

/-! ## The search in a block -/

/-- `bsfl`: the lowest bit that is set; nothing if there is none. -/
def bsfl (x : BitVec 32) : Option Nat := (List.range 32).find? x.getLsbD

/-- The loop of `find_first_zero`, which goes on at most `n` words from the double word `esi` on. -/
def scanWords (data : Nat → Byte) : Nat → Nat → Nat → Nat
  | 0, _, ecx => ecx
  | n + 1, esi, ecx =>
    let eax := word32 data (4 * esi)
    match bsfl (~~~ eax) with
    | some edx => ecx + edx
    | none => if ecx + 32 < 8192 then scanWords data n (esi + 1) (ecx + 32) else ecx + 32

/-- `find_first_zero`. -/
def findFirstZero (data : Nat → Byte) : Nat := scanWords data 256 0 0

variable {data : Nat → Byte} {i j k m n r : Nat} {b : Bool}

/-- The bits of a double word in a bitmap. -/
theorem getLsbD_bitmapWord (data : Nat → Byte) (k r : Nat) (hr : r < 32) :
    (word32 data (4 * k)).getLsbD r = bitOf data (32 * k + r) := by
  have hdiv : (32 * k + r) / 8 = 4 * k + r / 8 := by omega
  have hmod : (32 * k + r) % 8 = r % 8 := by omega
  rw [getLsbD_word32 _ _ _ hr, bitOf, hdiv, hmod]

/-- `bsfl` of the complement finds the first zero of a word. -/
theorem bsfl_some (h : bsfl (~~~ word32 data (4 * k)) = some r) :
    r < 32 ∧ bitOf data (32 * k + r) = false ∧ ∀ m < r, bitOf data (32 * k + m) = true := by
  obtain ⟨hset, hr, hbelow⟩ := List.find?_range_eq_some.mp h
  have hr : r < 32 := List.mem_range.mp hr
  have hbit : ∀ m < 32, (~~~ word32 data (4 * k)).getLsbD m = !bitOf data (32 * k + m) := by
    intro m hm
    rw [BitVec.getLsbD_not, getLsbD_bitmapWord _ _ _ hm]
    simp [hm]
  refine ⟨hr, ?_, fun m hm => ?_⟩
  · rw [hbit r hr] at hset
    simpa using hset
  · have hclear := hbelow m hm
    rw [hbit m (by omega)] at hclear
    simpa using hclear

theorem bsfl_none (h : bsfl (~~~ word32 data (4 * k)) = none) :
    ∀ m < 32, bitOf data (32 * k + m) = true := by
  intro m hm
  have hclear := List.find?_eq_none.mp h m (List.mem_range.mpr hm)
  rw [BitVec.getLsbD_not, getLsbD_bitmapWord _ _ _ hm] at hclear
  simpa [hm] using hclear

/-- No bit before `r` is clear, and bit `r` is, if the block has it. -/
def FirstZero (data : Nat → Byte) (r : Nat) : Prop :=
  r ≤ 8192 ∧ (∀ m < r, bitOf data m = true) ∧ (r < 8192 → bitOf data r = false)

theorem FirstZero.eq (h : FirstZero data m) (h' : FirstZero data n) : m = n := by
  rcases Nat.lt_trichotomy m n with hlt | heq | hlt
  · have hset := h'.2.1 m hlt
    rw [h.2.2 (Nat.lt_of_lt_of_le hlt h'.1)] at hset
    cases hset
  · exact heq
  · have hset := h.2.1 n hlt
    rw [h'.2.2 (Nat.lt_of_lt_of_le hlt h.1)] at hset
    cases hset

theorem scanWords_first (n k : Nat) (hn : n + k = 256) (hset : ∀ m < 32 * k, bitOf data m = true) :
    FirstZero data (scanWords data n k (32 * k)) := by
  induction n generalizing k with
  | zero =>
    obtain rfl : k = 256 := by omega
    exact ⟨Nat.le_refl _, hset, fun h => absurd h (Nat.lt_irrefl _)⟩
  | succ n ih =>
    unfold scanWords
    dsimp only
    cases h : bsfl (~~~ word32 data (4 * k)) with
    | some r =>
      obtain ⟨hr, hclear, hbelow⟩ := bsfl_some h
      refine ⟨by dsimp only; omega, fun m hm => ?_, fun _ => hclear⟩
      by_cases hk : m < 32 * k
      · exact hset m hk
      · have hm' := hbelow (m - 32 * k) (by dsimp only at hm; omega)
        rwa [Nat.add_sub_cancel' (Nat.le_of_not_lt hk)] at hm'
    | none =>
      have hall : ∀ m < 32 * (k + 1), bitOf data m = true := by
        intro m hm
        by_cases hk : m < 32 * k
        · exact hset m hk
        · have hm' := bsfl_none h (m - 32 * k) (by omega)
          rwa [Nat.add_sub_cancel' (Nat.le_of_not_lt hk)] at hm'
      by_cases hend : 32 * k + 32 < 8192
      · dsimp only
        rw [if_pos hend]
        exact ih (k + 1) (by omega) hall
      · dsimp only
        rw [if_neg hend]
        have h8192 : 32 * k + 32 = 8192 := by omega
        rw [h8192]
        refine ⟨Nat.le_refl _, fun m hm => hall m (by omega), fun h => absurd h (Nat.lt_irrefl _)⟩

theorem firstZero_first (data : Nat → Byte) :
    FirstZero data ((firstZero (bitOf data) 8192 0).getD 8192) := by
  cases h : firstZero (bitOf data) 8192 0 with
  | none =>
    exact ⟨Nat.le_refl _, fun m hm => firstZero_none h m (Nat.zero_le _) (by rwa [Nat.zero_add]),
      fun h => absurd h (Nat.lt_irrefl _)⟩
  | some j =>
    obtain ⟨-, hlt, hclear⟩ := firstZero_some h
    exact ⟨by dsimp only [Option.getD_some]; omega,
      fun m hm => firstZero_below h m (Nat.zero_le _) hm, fun _ => hclear⟩

/-- What the assembler finds in a block. -/
theorem findFirstZero_eq (data : Nat → Byte) :
    findFirstZero data = (firstZero (bitOf data) 8192 0).getD 8192 :=
  FirstZero.eq (scanWords_first 256 0 rfl fun m hm => by omega) (firstZero_first data)

/-- The search over the blocks of a map is that of `new_block` and `new_inode`. -/
theorem findZero_eq {C : Type} [Contents C] (c : C) (dev : Dev) (map : Nat → Option Block) :
    findZero c dev map = (List.range 8).findSome? fun i => (map i).bind fun bh =>
      if findFirstZero (Contents.byte c dev bh) < 8192 then
        some (i, bh, findFirstZero (Contents.byte c dev bh))
      else none := by
  unfold findZero
  congr 1
  funext i
  congr 1
  funext bh
  rw [findFirstZero_eq]
  cases h : firstZero (bitOf (Contents.byte c dev bh)) 8192 0 with
  | none => rfl
  | some j =>
    obtain ⟨-, hlt, -⟩ := firstZero_some h
    rw [Option.getD_some, if_pos (by omega)]
    rfl

/-! ## The bits of a map -/

/-- Bit `n` of a map; a block that is not there has no bit that is clear. -/
def State.mapBit (s : State Tables) (dev : Dev) (map : Nat → Option Block) (n : Nat) : Bool :=
  match map (n / 8192) with
  | none => true
  | some bh => bitOf (s.contents.byte dev bh) (n % 8192)

variable {s s' : State Tables} {dev : Dev} {map : Nat → Option Block} {sb : SuperBlock} {bh : Block}

theorem mapBit_some (h : map i = some bh) (hj : j < 8192) :
    s.mapBit dev map (j + i * 8192) = bitOf (s.contents.byte dev bh) j := by
  unfold State.mapBit
  have hdiv : (j + i * 8192) / 8192 = i := by omega
  have hmod : (j + i * 8192) % 8192 = j := by omega
  rw [hdiv, h, hmod]

/-- No bit of the map is clear. -/
theorem findZero_none (h : findZero s.contents dev map = none) (hn : n < 8 * 8192) :
    s.mapBit dev map n = true := by
  unfold State.mapBit
  cases hmap : map (n / 8192) with
  | none => rfl
  | some bh =>
    have hi := List.findSome?_eq_none_iff.mp h (n / 8192) (List.mem_range.mpr (by omega))
    rw [hmap, Option.bind_some, Option.map_eq_none_iff] at hi
    exact firstZero_none hi _ (Nat.zero_le _) (by omega)

/-- The bit is clear, and no bit before it is. -/
theorem findZero_some (h : findZero s.contents dev map = some (i, bh, j)) :
    i < 8 ∧ map i = some bh ∧ j < 8192 ∧ s.mapBit dev map (j + i * 8192) = false ∧
      ∀ m < j + i * 8192, s.mapBit dev map m = true := by
  obtain ⟨before, i', after, hrange, hfound, hbefore⟩ := List.findSome?_eq_some_iff.mp h
  obtain ⟨bh', hmap, hj⟩ := Option.bind_eq_some_iff.mp hfound
  obtain ⟨j', hj, heq⟩ := Option.map_eq_some_iff.mp hj
  cases heq
  have hi : i < 8 := List.mem_range.mp (by rw [hrange]; simp)
  obtain ⟨-, hlt, hclear⟩ := firstZero_some hj
  refine ⟨hi, hmap, by omega, by rw [mapBit_some hmap (by omega)]; exact hclear, fun m hm => ?_⟩
  by_cases hdiv : m / 8192 = i
  · have hm' : m = m % 8192 + i * 8192 := by omega
    rw [hm', mapBit_some hmap (by omega)]
    exact firstZero_below hj _ (Nat.zero_le _) (by omega)
  · unfold State.mapBit
    cases hmap' : map (m / 8192) with
    | none => rfl
    | some bh' =>
      have hmem : m / 8192 ∈ before := by
        have hin : m / 8192 ∈ List.range 8 := List.mem_range.mpr (by omega)
        have hpair : (before ++ i :: after).Pairwise (· < ·) := hrange ▸ List.pairwise_lt_range
        rw [hrange, List.mem_append, List.mem_cons] at hin
        rcases hin with hin | hin | hin
        · exact hin
        · exact absurd hin hdiv
        · have := (List.pairwise_cons.mp (List.pairwise_append.mp hpair).2.1).1 _ hin
          omega
      have hnone := hbefore _ hmem
      rw [hmap', Option.bind_some, Option.map_eq_none_iff] at hnone
      exact firstZero_none hnone _ (Nat.zero_le _) (by omega)

theorem bitOf_setBit (data : Nat → Byte) (n m : Nat) (b : Bool) :
    bitOf (setBit data n b) m = if m = n then b else bitOf data m := by
  unfold bitOf setBit
  by_cases hdiv : m / 8 = n / 8
  · rw [if_pos hdiv]
    by_cases hmn : m = n
    · subst hmn
      rw [if_pos rfl]
      cases b <;> simp [Nat.mod_lt]
    · have hmod : m % 8 ≠ n % 8 := by omega
      have hm : m % 8 < 8 := Nat.mod_lt _ (by decide)
      rw [if_neg hmn]
      have hne : (1#8 <<< (n % 8)).getLsbD (m % 8) = false := by
        rw [BitVec.getLsbD_shiftLeft]
        by_cases hlt : m % 8 < n % 8
        · simp [hlt]
        · have hpos : m % 8 - n % 8 ≠ 0 := by omega
          simp [hpos]
      cases b
      · rw [if_neg Bool.false_ne_true, BitVec.getLsbD_and, BitVec.getLsbD_not, hne, hdiv]
        simp [hm]
      · rw [if_pos rfl, BitVec.getLsbD_or, hne, hdiv, Bool.or_false]
  · rw [if_neg hdiv, if_neg fun h : m = n => hdiv (h ▸ rfl)]

/-! ## The maps of a device -/

/-- A super block as `read_super` leaves it, of a disk whose data zones are behind the maps. -/
structure SuperBlock.Laid (sb : SuperBlock) : Prop where
  imapBlocks : 1 ≤ sb.imapBlocks.toNat ∧ sb.imapBlocks.toNat ≤ 8
  zmapBlocks : 1 ≤ sb.zmapBlocks.toNat ∧ sb.zmapBlocks.toNat ≤ 8
  imap : ∀ i, sb.imap i = if i < sb.imapBlocks.toNat then some (BitVec.ofNat 32 (2 + i)) else none
  zmap : ∀ i, sb.zmap i =
    if i < sb.zmapBlocks.toNat then some (BitVec.ofNat 32 (2 + sb.imapBlocks.toNat + i)) else none
  first : 2 + sb.imapBlocks.toNat + sb.zmapBlocks.toNat ≤ sb.firstdatazone.toNat

theorem SuperBlock.Laid.imap_toNat (L : sb.Laid) (h : sb.imap i = some bh) :
    i < 8 ∧ bh.toNat = 2 + i ∧ bh.toNat < 2 + sb.imapBlocks.toNat := by
  have hmax := L.imapBlocks.2
  rw [L.imap] at h
  split at h
  · next hi =>
    cases h
    rw [BitVec.toNat_ofNat, Nat.mod_eq_of_lt (by omega)]
    omega
  · cases h

theorem SuperBlock.Laid.zmap_toNat (L : sb.Laid) (h : sb.zmap i = some bh) :
    i < 8 ∧ bh.toNat = 2 + sb.imapBlocks.toNat + i ∧ bh.toNat < sb.firstdatazone.toNat := by
  have hmax := L.zmapBlocks.2
  have hmax' := L.imapBlocks.2
  have hfirst := L.first
  rw [L.zmap] at h
  split at h
  · next hi =>
    cases h
    rw [BitVec.toNat_ofNat, Nat.mod_eq_of_lt (by omega)]
    omega
  · cases h

/-- The block is one of the maps. -/
def SuperBlock.IsMap (sb : SuperBlock) (bh : Block) : Prop :=
  ∃ i, sb.imap i = some bh ∨ sb.zmap i = some bh

theorem SuperBlock.Laid.isMap_lt (L : sb.Laid) (h : sb.IsMap bh) :
    bh.toNat < sb.firstdatazone.toNat := by
  have hfirst := L.first
  obtain ⟨i, h | h⟩ := h
  · have := L.imap_toNat h
    omega
  · exact (L.zmap_toNat h).2.2

/-- The bits of the zone map, and those of the inode map. -/
def State.zoneBit (s : State Tables) (dev : Dev) (sb : SuperBlock) : Nat → Bool := s.mapBit dev sb.zmap

def State.inodeBit (s : State Tables) (dev : Dev) (sb : SuperBlock) : Nat → Bool := s.mapBit dev sb.imap

/-- Maps of a device, with bit 0 set, and inodes that can be written back. -/
structure Mapped (s : State Tables) (dev : Dev) (sb : SuperBlock) : Prop where
  super : s.superAt dev = some sb
  laid : sb.Laid
  zoneZero : s.zoneBit dev sb 0 = true
  inodeZero : s.inodeBit dev sb 0 = true
  writable : s.Writable

/-- A bit of the block has become `b`. -/
def State.turn (s : State Tables) (dev : Dev) (bh : Block) (j : Nat) (b : Bool) : State Tables :=
  { s with contents := Contents.setBytes s.contents dev bh (setBit (s.contents.byte dev bh) j b) }

theorem byte_turn (s : State Tables) (dev e : Dev) (bh c : Block) (j : Nat) (b : Bool) :
    (s.turn dev bh j b).contents.byte e c =
      if e = dev ∧ c = bh then setBit (s.contents.byte dev bh) j b else s.contents.byte e c := by
  funext n
  show (if e = dev ∧ c = bh then setBit (s.contents.byte dev bh) j b n
    else s.contents.byte e c n) = _
  split <;> rfl

/-- A map depends on its blocks only. -/
theorem mapBit_congr (h : ∀ i bh, map i = some bh → s'.contents.byte dev bh = s.contents.byte dev bh) :
    s'.mapBit dev map = s.mapBit dev map := by
  funext n
  unfold State.mapBit
  cases hmap : map (n / 8192) with
  | none => rfl
  | some bh =>
    dsimp only
    rw [h _ bh hmap]

/-- The bit that has been turned is one of the map. -/
theorem mapBit_turn (hmap : map i = some bh) (hj : j < 8192)
    (hinj : ∀ k, map k = some bh → k = i) (n : Nat) :
    (s.turn dev bh j b).mapBit dev map n =
      if n = j + i * 8192 then b else s.mapBit dev map n := by
  unfold State.mapBit
  by_cases hi : n / 8192 = i
  · rw [hi, hmap]
    dsimp only
    rw [byte_turn, if_pos ⟨rfl, rfl⟩, bitOf_setBit]
    exact if_congr (by omega) rfl rfl
  · rw [if_neg (by omega)]
    cases h : map (n / 8192) with
    | none => rfl
    | some c =>
      dsimp only
      rw [byte_turn, if_neg]
      rintro ⟨-, rfl⟩
      exact hi (hinj _ h)

/-- Bit `n` of the zone map has become `b`, and all other bits are as before. -/
structure ZoneTurned (s s' : State Tables) (dev : Dev) (sb : SuperBlock) (n : Nat) (b : Bool) : Prop where
  zone : ∀ m, s'.zoneBit dev sb m = if m = n then b else s.zoneBit dev sb m
  inode : s'.inodeBit dev sb = s.inodeBit dev sb

/-- Bit `n` of the inode map has become `b`, and all other bits are as before. -/
structure InodeTurned (s s' : State Tables) (dev : Dev) (sb : SuperBlock) (n : Nat)
  (b : Bool) : Prop where
  zone : s'.zoneBit dev sb = s.zoneBit dev sb
  inode : ∀ m, s'.inodeBit dev sb m = if m = n then b else s.inodeBit dev sb m

/-- No bit of the maps has changed. -/
structure BitsKept (s s' : State Tables) (dev : Dev) (sb : SuperBlock) : Prop where
  zone : s'.zoneBit dev sb = s.zoneBit dev sb
  inode : s'.inodeBit dev sb = s.inodeBit dev sb

theorem zone_turn (L : sb.Laid) (hmap : sb.zmap i = some bh) (hj : j < 8192) (b : Bool) :
    ZoneTurned s (s.turn dev bh j b) dev sb (j + i * 8192) b where
  zone m := mapBit_turn hmap hj (fun k hk => by
    have h := L.zmap_toNat hk
    have h' := L.zmap_toNat hmap
    omega) m
  inode := mapBit_congr fun k c hk => by
    rw [byte_turn, if_neg]
    rintro ⟨-, rfl⟩
    have h := L.imap_toNat hk
    have h' := L.zmap_toNat hmap
    omega

theorem inode_turn (L : sb.Laid) (hmap : sb.imap i = some bh) (hj : j < 8192) (b : Bool) :
    InodeTurned s (s.turn dev bh j b) dev sb (j + i * 8192) b where
  inode m := mapBit_turn hmap hj (fun k hk => by
    have h := L.imap_toNat hk
    have h' := L.imap_toNat hmap
    omega) m
  zone := mapBit_congr fun k c hk => by
    rw [byte_turn, if_neg]
    rintro ⟨-, rfl⟩
    have h := L.zmap_toNat hk
    have h' := L.imap_toNat hmap
    omega

/-- Whoever leaves the blocks of the maps alone keeps the bits. -/
theorem bitsKept_of_byte (h : ∀ bh, sb.IsMap bh → s'.contents.byte dev bh = s.contents.byte dev bh) :
    BitsKept s s' dev sb where
  zone := mapBit_congr fun i _ hi => h _ ⟨i, .inr hi⟩
  inode := mapBit_congr fun i _ hi => h _ ⟨i, .inl hi⟩

theorem ZoneTurned.trans (h : ZoneTurned s s' dev sb n b) {s'' : State Tables}
    (h' : BitsKept s' s'' dev sb) : ZoneTurned s s'' dev sb n b where
  zone m := by rw [h'.zone, h.zone]
  inode := h'.inode.trans h.inode

/-! ## `new_block` -/

/-- The block has been taken: its bit was clear, is set, and the block is zero. -/
structure BlockTaken (s s' : State Tables) (dev : Dev) (sb : SuperBlock) (b : Zone) (n : Nat) : Prop where
  number : n + sb.firstdatazone.toNat = b.toNat + 1
  first : sb.firstdatazone.toNat ≤ b.toNat
  last : b.toNat < sb.nzones.toNat
  clear : s.zoneBit dev sb n = false
  turned : ZoneTurned s s' dev sb n true
  blank : s'.contents.byte dev (b.zeroExtend 32) = fun _ => 0
  unused : s.bcount (dev, b.zeroExtend 32) = 0
  bcount : s'.bcount = s.bcount
  super : s'.super = s.super

/-- The bits of all zones are set. -/
def NoZone (s : State Tables) (dev : Dev) (sb : SuperBlock) : Prop :=
  ∀ b, sb.firstdatazone.toNat ≤ b → b < sb.nzones.toNat →
    s.zoneBit dev sb (b + 1 - sb.firstdatazone.toNat) = true

/-- What is expected of `new_block`. -/
def NewBlockLaw (s : State Tables) (dev : Dev) (sb : SuperBlock) : Prop :=
  Returns (newBlock dev : Call Tables Zone) s fun b s' =>
    (∃ n, BlockTaken s s' dev sb b n) ∨ b = 0 ∧ BitsKept s s' dev sb ∧ NoZone s dev sb

/-- `n` is the first bit of the zone map that is clear. -/
def FirstClear (s : State Tables) (dev : Dev) (sb : SuperBlock) (n : Nat) : Prop :=
  s.zoneBit dev sb n = false ∧ ∀ m < n, s.zoneBit dev sb m = true

theorem FirstClear.unique (h : FirstClear s dev sb m) (h' : FirstClear s dev sb n) : m = n := by
  rcases Nat.lt_trichotomy m n with hlt | heq | hlt
  · exact absurd (h'.2 m hlt) (by rw [h.1]; exact Bool.false_ne_true)
  · exact heq
  · exact absurd (h.2 n hlt) (by rw [h'.1]; exact Bool.false_ne_true)

/-- The map has a clear bit only if `new_block` finds one. -/
theorem mapBit_of_findZero_none (hmap : ∀ i bh, map i = some bh → i < 8)
    (h : findZero s.contents dev map = none) (n : Nat) : s.mapBit dev map n = true := by
  by_cases hn : n < 8 * 8192
  · exact findZero_none h hn
  · unfold State.mapBit
    cases hn' : map (n / 8192) with
    | none => rfl
    | some bh =>
      have := hmap _ _ hn'
      omega

theorem Mapped.findZero_none (M : Mapped s dev sb) (h : findZero s.contents dev sb.zmap = none)
    (n : Nat) : s.zoneBit dev sb n = true :=
  mapBit_of_findZero_none (fun _ _ h => (M.laid.zmap_toNat h).1) h n

theorem Mapped.findZero_some (M : Mapped s dev sb)
    (h : findZero s.contents dev sb.zmap = some (i, bh, j)) :
    FirstClear s dev sb (j + i * 8192) ∧ 0 < j + i * 8192 ∧ sb.zmap i = some bh ∧ j < 8192 := by
  obtain ⟨-, hmap, hj, hclear, hbelow⟩ := FileSys.findZero_some h
  refine ⟨⟨hclear, hbelow⟩, Nat.pos_of_ne_zero fun h0 => ?_, hmap, hj⟩
  have hzero := M.zoneZero
  unfold State.zoneBit at hzero
  rw [← h0, hclear] at hzero
  cases hzero

/-- Where no bit is clear, nothing is taken. -/
theorem newBlock_none (M : Mapped s dev sb) (h : findZero s.contents dev sb.zmap = none)
    {Q : Zone → State Tables → Prop} : Returns (newBlock dev : Call Tables Zone) s Q ↔ Q 0 s := by
  have hread : findZero s.contents dev sb.zmap = none := h
  unfold newBlock
  rw [Returns.bind_iff, superOf_iff M.super, Returns.bind_iff, Returns.read_iff, hread]
  exact Returns.pure_iff

/-- Where one is, it is set at once. -/
theorem newBlock_some (M : Mapped s dev sb) (h : findZero s.contents dev sb.zmap = some (i, bh, j))
    {Q : Zone → State Tables → Prop} : Returns (newBlock dev : Call Tables Zone) s Q ↔
      Returns (if sb.nzones.toNat ≤ j + i * 8192 + sb.firstdatazone.toNat - 1 then return 0
        else do
          let bh ← getblk dev (BitVec.ofNat 32 (j + i * 8192 + sb.firstdatazone.toNat - 1))
          let count ← Lib.Prog.read fun s => s.bcount bh
          if count ≠ 1 then stop .panic
          else do
            setBytes bh fun _ => 0
            brelse bh
            return BitVec.ofNat 16 (j + i * 8192 + sb.firstdatazone.toNat - 1) : Call Tables Zone)
        (s.turn dev bh j true) Q := by
  unfold newBlock
  rw [Returns.bind_iff, superOf_iff M.super, Returns.bind_iff, Returns.read_iff, h]
  dsimp only
  rw [Returns.bind_iff]
  unfold getBytes
  rw [Returns.read_iff, Returns.bind_iff]
  unfold setBytes
  rw [Returns.modify_iff]
  rfl

/-- `getblk` of the block that is taken, and what follows. -/
theorem takeBlock_returns (hw : s.Writable) (hcount : s.bcount (dev, bh) = 0) (b : Zone) :
    Returns (do
      let bh ← getblk dev bh
      let count ← Lib.Prog.read fun s => s.bcount bh
      if count ≠ 1 then stop .panic
      else do
        setBytes bh fun _ => 0
        brelse bh
        return b : Call Tables Zone) s fun a s' => a = b ∧
          ∃ s₁, Settled s s₁ ∧ s' = { s₁ with contents := Contents.setBytes s₁.contents dev bh fun _
            => 0 } := by
  refine Returns.bind (getblk_returns hw dev bh) ?_
  rintro _ _ ⟨rfl, s₁, h₁, rfl⟩
  refine Returns.bind_iff.mpr (Returns.read_iff.mpr ?_)
  have hone : incCount s₁.bcount (dev, bh) (dev, bh) = 1 := by
    rw [incCount, Function.update_self, h₁.bcount, hcount]
  dsimp only
  rw [if_neg (not_not.mpr hone)]
  refine Returns.bind_iff.mpr (Returns.modify_iff.mpr (Returns.bind_iff.mpr ?_))
  refine brelse_returns rfl (Returns.pure_iff.mpr ⟨rfl, s₁, h₁, ?_⟩)
  rfl

/-- A buffer in use: the panic of `new_block`. -/
theorem takeBlock_panics (hw : s.Writable) (hcount : s.bcount (dev, bh) ≠ 0) (b : Zone)
    {Q : Zone → State Tables → Prop} :
    ¬ Returns (do
      let bh ← getblk dev bh
      let count ← Lib.Prog.read fun s => s.bcount bh
      if count ≠ 1 then stop .panic
      else do
        setBytes bh fun _ => 0
        brelse bh
        return b : Call Tables Zone) s Q := by
  intro h
  rw [Returns.bind_iff] at h
  obtain ⟨_, _, -, ⟨rfl, s₁, h₁, rfl⟩, hrest⟩ := (getblk_returns hw dev bh).and h
  rw [Returns.bind_iff, Returns.read_iff] at hrest
  have hmany : incCount s₁.bcount (dev, bh) (dev, bh) ≠ 1 := by
    rw [incCount, Function.update_self, h₁.bcount]
    omega
  dsimp only at hrest
  rw [if_pos hmany] at hrest
  exact Returns.stop_iff.mp hrest

theorem turn_writable (hw : s.Writable) : (s.turn dev bh j b).Writable :=
  writable_stable.frame (s := s) rfl rfl rfl hw

/-- What a search that has found something says about the first clear bit. -/
theorem Mapped.findZero_first (M : Mapped s dev sb) (hn : FirstClear s dev sb n) :
    ∃ i bh j, findZero s.contents dev sb.zmap = some (i, bh, j) ∧ n = j + i * 8192 ∧ 0 < n ∧
      ZoneTurned s (s.turn dev bh j true) dev sb n true := by
  cases hfind : findZero s.contents dev sb.zmap with
  | none =>
    have hclear := hn.1
    rw [M.findZero_none hfind n] at hclear
    cases hclear
  | some zero =>
    obtain ⟨i, bh, j⟩ := zero
    obtain ⟨hfirst, hpos, hmap, hj⟩ := M.findZero_some hfind
    obtain rfl := hn.unique hfirst
    exact ⟨i, bh, j, rfl, rfl, hpos, zone_turn M.laid hmap hj true⟩

theorem exists_firstClear (h : ∃ n, s.zoneBit dev sb n = false) : ∃ n, FirstClear s dev sb n := by
  refine ⟨Nat.find h, Nat.find_spec h, fun m hm => ?_⟩
  exact Bool.eq_true_of_not_eq_false (Nat.find_min h hm)

/-- No bit is clear. -/
theorem newBlock_full (M : Mapped s dev sb) (hall : ∀ n, s.zoneBit dev sb n = true) :
    Returns (newBlock dev : Call Tables Zone) s fun b s' => b = 0 ∧ s' = s := by
  cases hfind : findZero s.contents dev sb.zmap with
  | none => exact (newBlock_none M hfind).mpr ⟨rfl, rfl⟩
  | some zero =>
    have hclear := (M.findZero_some hfind).1.1
    rw [hall] at hclear
    cases hclear

/-- The first clear bit stands for nothing: it has been set all the same. -/
theorem newBlock_end (M : Mapped s dev sb) (hn : FirstClear s dev sb n)
    (hend : sb.nzones.toNat < n + sb.firstdatazone.toNat) :
    Returns (newBlock dev : Call Tables Zone) s fun b s' => b = 0 ∧ ZoneTurned s s' dev sb n true := by
  obtain ⟨i, bh, j, hfind, rfl, -, hturned⟩ := M.findZero_first hn
  rw [newBlock_some M hfind, if_pos (by omega), Returns.pure_iff]
  exact ⟨rfl, hturned⟩

/-- The first clear bit is that of a zone. -/
theorem newBlock_taken (M : Mapped s dev sb) (hn : FirstClear s dev sb n)
    (hlast : n + sb.firstdatazone.toNat ≤ sb.nzones.toNat)
    (hcount : s.bcount (dev, BitVec.ofNat 32 (n + sb.firstdatazone.toNat - 1)) = 0) :
    Returns (newBlock dev : Call Tables Zone) s fun b s' => BlockTaken s s' dev sb b n := by
  obtain ⟨i, bh, j, hfind, rfl, hpos, hturned⟩ := M.findZero_first hn
  have hlayout := M.laid.first
  have hnzones := sb.nzones.isLt
  rw [newBlock_some M hfind, if_neg (by omega)]
  refine (takeBlock_returns (turn_writable M.writable) hcount _).mono ?_
  rintro _ _ ⟨rfl, s₁, h₁, rfl⟩
  have hnat : (BitVec.ofNat 16 (j + i * 8192 + sb.firstdatazone.toNat - 1) : Zone).toNat =
      j + i * 8192 + sb.firstdatazone.toNat - 1 := by
    rw [BitVec.toNat_ofNat, Nat.mod_eq_of_lt (by omega)]
  have hblock : (BitVec.ofNat 16 (j + i * 8192 + sb.firstdatazone.toNat - 1) : Zone).zeroExtend 32 =
      BitVec.ofNat 32 (j + i * 8192 + sb.firstdatazone.toNat - 1) := by
    refine BitVec.eq_of_toNat_eq ?_
    rw [BitVec.toNat_setWidth, hnat, BitVec.toNat_ofNat]
  refine ⟨by omega, by omega, by omega, hn.1, hturned.trans (bitsKept_of_byte fun c hc => ?_), ?_,
    hblock ▸ hcount, h₁.bcount, h₁.super⟩
  · -- a data zone is no block of a map
    have hlt := M.laid.isMap_lt hc
    have hne : c ≠ BitVec.ofNat 32 (j + i * 8192 + sb.firstdatazone.toNat - 1) := by
      rintro rfl
      rw [BitVec.toNat_ofNat, Nat.mod_eq_of_lt (by omega)] at hlt
      omega
    funext k
    rw [← h₁.byte]
    exact if_neg fun h => hne h.2
  · rw [hblock]
    funext k
    exact if_pos ⟨rfl, rfl⟩

/-- The first clear bit is that of a zone whose buffer is in use. -/
theorem newBlock_panics (M : Mapped s dev sb) (hn : FirstClear s dev sb n)
    (hlast : n + sb.firstdatazone.toNat ≤ sb.nzones.toNat)
    (hcount : s.bcount (dev, BitVec.ofNat 32 (n + sb.firstdatazone.toNat - 1)) ≠ 0)
    {Q : Zone → State Tables → Prop} : ¬ Returns (newBlock dev : Call Tables Zone) s Q := by
  obtain ⟨i, bh, j, hfind, rfl, -, -⟩ := M.findZero_first hn
  have hlayout := M.laid.first
  rw [newBlock_some M hfind, if_neg (by omega)]
  exact takeBlock_panics (turn_writable M.writable) hcount _

/-- `new_block` does what is expected of it if the first clear bit, if there is one, stands for a zone
whose buffer is free. -/
theorem newBlock_law_iff (M : Mapped s dev sb) :
    NewBlockLaw s dev sb ↔ ∀ n, FirstClear s dev sb n →
      n + sb.firstdatazone.toNat ≤ sb.nzones.toNat ∧
        s.bcount (dev, BitVec.ofNat 32 (n + sb.firstdatazone.toNat - 1)) = 0 := by
  have hlayout := M.laid.first
  constructor
  · intro h n hn
    by_cases hlast : n + sb.firstdatazone.toNat ≤ sb.nzones.toNat
    · by_cases hcount : s.bcount (dev, BitVec.ofNat 32 (n + sb.firstdatazone.toNat - 1)) = 0
      · exact ⟨hlast, hcount⟩
      · exact absurd h (newBlock_panics M hn hlast hcount)
    · obtain ⟨b, s', -, ⟨rfl, hturned⟩, hlaw⟩ := (newBlock_end M hn (by omega)).and h
      rcases hlaw with ⟨k, B⟩ | ⟨-, K, -⟩
      · have hzero : (0 : Zone).toNat = 0 := rfl
        have := B.first
        omega
      · have hbit := congrFun K.zone n
        rw [hturned.zone, if_pos rfl, hn.1] at hbit
        cases hbit
  · intro h
    by_cases hclear : ∃ n, s.zoneBit dev sb n = false
    · obtain ⟨n, hn⟩ := exists_firstClear hclear
      obtain ⟨hlast, hcount⟩ := h n hn
      exact (newBlock_taken M hn hlast hcount).mono fun _ _ B => .inl ⟨n, B⟩
    · have hall : ∀ n, s.zoneBit dev sb n = true := fun n =>
        Bool.eq_true_of_not_eq_false fun h => hclear ⟨n, h⟩
      refine (newBlock_full M hall).mono ?_
      rintro _ _ ⟨rfl, rfl⟩
      exact .inr ⟨rfl, ⟨rfl, rfl⟩, fun _ _ _ => hall _⟩

/-- What `new_block` returns has been taken. -/
theorem newBlock_ne_zero (M : Mapped s dev sb) :
    ∀ b s', (newBlock dev : Call Tables Zone).exec s = .ok (b, s') → b ≠ 0 →
      ∃ n, BlockTaken s s' dev sb b n := by
  intro b s' hexec h0
  have h : Returns (newBlock dev : Call Tables Zone) s fun a t => a = b ∧ t = s' :=
    ⟨b, s', hexec, rfl, rfl⟩
  by_cases hlaw : NewBlockLaw s dev sb
  · obtain ⟨_, _, -, hlaw, rfl, rfl⟩ := Returns.and hlaw h
    exact hlaw.resolve_right fun hzero => h0 hzero.1
  · rw [newBlock_law_iff M] at hlaw
    push Not at hlaw
    obtain ⟨n, hn, hbad⟩ := hlaw
    by_cases hlast : n + sb.firstdatazone.toNat ≤ sb.nzones.toNat
    · exact absurd h (newBlock_panics M hn hlast (hbad hlast))
    · obtain ⟨_, _, -, ⟨hzero, -⟩, rfl, -⟩ := (newBlock_end M hn (by omega)).and h
      exact absurd hzero h0

/-! ## `free_block` -/

/-- The bit of block `b` is there, and set. -/
structure Allocated (s : State Tables) (dev : Dev) (sb : SuperBlock) (b : Zone) : Prop where
  first : sb.firstdatazone.toNat ≤ b.toNat
  last : b.toNat < sb.nzones.toNat
  map : (sb.zmap ((b.toNat + 1 - sb.firstdatazone.toNat) / 8192)).isSome = true
  bit : s.zoneBit dev sb (b.toNat + 1 - sb.firstdatazone.toNat) = true

/-- What is expected of `free_block`: the bit of the block is cleared, or the buffer is in use and
nothing has changed. -/
def FreeBlockLaw (s : State Tables) (dev : Dev) (sb : SuperBlock) (b : Zone) : Prop :=
  Returns (freeBlock dev b : Call Tables Unit) s fun _ s' => s'.bcount = s.bcount ∧
    (ZoneTurned s s' dev sb (b.toNat + 1 - sb.firstdatazone.toNat) false ∨
      s.bcount (dev, b.zeroExtend 32) ≠ 0 ∧ BitsKept s s' dev sb)

/-- Of an allocated block whose buffer is not in use, the bit is cleared. -/
theorem freeBlock_returns (hsuper : s.superAt dev = some sb) (L : sb.Laid) {b : Zone}
    (A : Allocated s dev sb b) (hcount : s.bcount (dev, b.zeroExtend 32) = 0) :
    Returns (freeBlock dev b : Call Tables Unit) s fun _ s' => s'.bcount = s.bcount ∧
      ZoneTurned s s' dev sb (b.toNat + 1 - sb.firstdatazone.toNat) false := by
  obtain ⟨bh, hmap⟩ := Option.isSome_iff_exists.mp A.map
  have hbit := A.bit
  unfold State.zoneBit State.mapBit at hbit
  rw [hmap] at hbit
  have hzone : ¬ (b.toNat < sb.firstdatazone.toNat ∨ sb.nzones.toNat ≤ b.toNat) := by
    have := A.first
    have := A.last
    omega
  unfold freeBlock
  rw [Returns.bind_iff, superOf_iff hsuper, if_neg hzone]
  dsimp only
  rw [Returns.bind_iff, Returns.read_iff, if_neg (not_not.mpr hcount), hmap]
  dsimp only
  unfold getBytes
  rw [Returns.bind_iff, Returns.read_iff]
  have hset : bitOf (Contents.byte s.contents dev bh)
      ((b.toNat + 1 - sb.firstdatazone.toNat) % 8192) = true := hbit
  rw [if_pos hset]
  unfold setBytes
  rw [Returns.modify_iff]
  have hturned : ZoneTurned s (s.turn dev bh ((b.toNat + 1 - sb.firstdatazone.toNat) % 8192) false)
      dev sb _ false := zone_turn L hmap (Nat.mod_lt _ (by decide)) false
  rw [Nat.mod_add_div'] at hturned
  exact ⟨rfl, hturned⟩

/-- `free_block` does what is expected of it if the buffer of the block is not in use: otherwise one
more reference to the buffer stays. -/
theorem freeBlock_law_iff (M : Mapped s dev sb) {b : Zone} (A : Allocated s dev sb b) :
    FreeBlockLaw s dev sb b ↔ s.bcount (dev, b.zeroExtend 32) = 0 := by
  by_cases hcount : s.bcount (dev, b.zeroExtend 32) = 0
  · refine iff_of_true ?_ hcount
    exact (freeBlock_returns M.super M.laid A hcount).mono fun _ _ h => ⟨h.1, .inl h.2⟩
  · refine iff_of_false ?_ hcount
    have hzone : ¬ (b.toNat < sb.firstdatazone.toNat ∨ sb.nzones.toNat ≤ b.toNat) := by
      have := A.first
      have := A.last
      omega
    unfold FreeBlockLaw freeBlock
    rw [Returns.bind_iff, superOf_iff M.super, if_neg hzone]
    dsimp only
    rw [Returns.bind_iff, Returns.read_iff, if_pos hcount, Returns.bind_iff, Returns.alarm_iff]
    unfold hold
    rw [Returns.modify_iff]
    rintro ⟨hkept, -⟩
    have hsame := congrFun hkept (dev, b.zeroExtend 32)
    dsimp only at hsame
    rw [incCount, Function.update_self] at hsame
    omega

/-- A block that was taken, in a state where it is. -/
theorem BlockTaken.allocated {b : Zone} (B : BlockTaken s s' dev sb b n) :
    Allocated s' dev sb b := by
  have hn : b.toNat + 1 - sb.firstdatazone.toNat = n := by
    have := B.number
    omega
  refine ⟨B.first, B.last, ?_, ?_⟩
  · have hclear := B.clear
    unfold State.zoneBit State.mapBit at hclear
    rw [hn]
    cases hmap : sb.zmap (n / 8192) with
    | none =>
      rw [hmap] at hclear
      cases hclear
    | some bh => rfl
  · rw [hn, B.turned.zone, if_pos rfl]

/-- `free_block` undoes `new_block`. -/
theorem freeBlock_newBlock (M : Mapped s dev sb) (b : Zone) (s' : State Tables)
    (hexec : (newBlock dev : Call Tables Zone).exec s = .ok (b, s')) (h0 : b ≠ 0) :
    Returns (freeBlock dev b : Call Tables Unit) s' fun _ s'' => BitsKept s s'' dev sb := by
  obtain ⟨n, B⟩ := newBlock_ne_zero M b s' hexec h0
  have hn : b.toNat + 1 - sb.firstdatazone.toNat = n := by
    have := B.number
    omega
  have hcount : s'.bcount (dev, b.zeroExtend 32) = 0 := by rw [B.bcount, B.unused]
  have hsuper : s'.superAt dev = some sb := (superAt_congr B.super dev).trans M.super
  refine (freeBlock_returns hsuper M.laid B.allocated hcount).mono ?_
  rintro _ s'' ⟨-, hturned⟩
  rw [hn] at hturned
  refine ⟨funext fun m => ?_, hturned.inode.trans B.turned.inode⟩
  rw [hturned.zone, B.turned.zone]
  split
  · next hm => rw [hm, B.clear]
  · rfl

/-! ## `new_inode` -/

/-- The inode has been taken: its bit was clear and is set, and the entry of the table is its own. -/
structure InodeTaken (s s' : State Tables) (dev : Dev) (sb : SuperBlock) (i n : Nat) : Prop where
  first : 1 ≤ n
  last : n ≤ sb.ninodes.toNat
  clear : s.inodeBit dev sb n = false
  turned : InodeTurned s s' dev sb n true
  entry : (s'.inode i).dev = dev ∧ (s'.inode i).num.toNat = n ∧ (s'.inode i).count = 1 ∧
    (s'.inode i).disk.nlinks = 1
  bcount : s'.bcount = s.bcount

/-- What is expected of `new_inode`. -/
def NewInodeLaw (s : State Tables) (dev : Dev) (sb : SuperBlock) : Prop :=
  Returns (newInode dev : Call Tables (Option Nat)) s fun r s' =>
    (∃ i n, r = some i ∧ InodeTaken s s' dev sb i n) ∨
    r = none ∧ BitsKept s s' dev sb ∧ s'.bcount = s.bcount ∧
      ∀ n, 1 ≤ n → n ≤ sb.ninodes.toNat → s.inodeBit dev sb n = true

/-- `iput` of an inode that has no device. -/
theorem iput_empty_returns (h : s.inode i = { MInode.zero with count := 1 })
    {Q : Unit → State Tables → Prop} (hQ : Q () (s.setInode i MInode.zero)) :
    Returns (iput i : Call Tables Unit) s Q := by
  unfold iput getInode editInode
  rw [Returns.bind_iff, Returns.read_iff, h]
  dsimp only
  rw [if_neg Nat.one_ne_zero, if_neg (by decide), if_pos (by rfl), Returns.modify_iff, h]
  exact hQ

/-- `new_inode` always does what is expected of it. -/
theorem newInode_law (M : Mapped s dev sb) (hroom : s.Room) : NewInodeLaw s dev sb := by
  unfold NewInodeLaw newInode
  refine Returns.bind (getEmptyInode_returns M.writable hroom) ?_
  rintro i s' ⟨-, -, s₁, h₁, -, rfl⟩
  have hsuper : (s₁.setInode i { MInode.zero with count := 1 }).superAt dev = some sb :=
    (h₁.superAt dev).trans M.super
  have hkept : BitsKept s (s₁.setInode i { MInode.zero with count := 1 }) dev sb :=
    bitsKept_of_byte fun _ _ => congrFun (congrFun h₁.byte dev) _
  rw [Returns.bind_iff, superOf_iff hsuper, Returns.bind_iff, Returns.read_iff]
  cases hfind : findZero (s₁.setInode i { MInode.zero with count := 1 }).contents dev sb.imap with
  | none =>
    dsimp only
    rw [Returns.bind_iff]
    refine iput_empty_returns setInode_self (Returns.pure_iff.mpr (.inr ⟨rfl, ?_, h₁.bcount, ?_⟩))
    · exact ⟨hkept.zone, hkept.inode⟩
    · intro n _ _
      rw [← hkept.inode]
      exact mapBit_of_findZero_none (fun _ _ h => (M.laid.imap_toNat h).1) hfind n
  | some zero =>
    obtain ⟨k, map, j⟩ := zero
    obtain ⟨-, hmap, hj, hclear, hbelow⟩ := findZero_some hfind
    have hpos : 0 < j + k * 8192 := by
      refine Nat.pos_of_ne_zero fun h0 => ?_
      have hzero := M.inodeZero
      rw [← hkept.inode, State.inodeBit, ← h0, hclear] at hzero
      cases hzero
    have hninodes := sb.ninodes.isLt
    dsimp only
    refine Returns.ite (fun hend => ?_) fun hend => ?_
    · rw [Returns.bind_iff]
      refine iput_empty_returns setInode_self (Returns.pure_iff.mpr (.inr ⟨rfl, ?_, h₁.bcount, ?_⟩))
      · exact ⟨hkept.zone, hkept.inode⟩
      · intro n _ hn
        rw [← hkept.inode]
        exact hbelow n (by omega)
    · unfold getBytes setBytes getTask currentTime editInode
      rw [Returns.bind_iff, Returns.read_iff, Returns.bind_iff, Returns.modify_iff, Returns.bind_iff,
        Returns.read_iff, Returns.bind_iff, Returns.when_alarm_iff, Returns.bind_iff, Returns.read_iff,
        Returns.bind_iff, Returns.bind_iff, Returns.read_iff, Returns.bind_iff, Returns.modify_iff,
        Returns.pure_iff, Returns.bind_iff, Returns.modify_iff, Returns.pure_iff]
      have hturned : InodeTurned (s₁.setInode i { MInode.zero with count := 1 })
          ((s₁.setInode i { MInode.zero with count := 1 }).turn dev map j true) dev sb
          (j + k * 8192) true := inode_turn M.laid hmap hj true
      refine .inl ⟨i, j + k * 8192, rfl, hpos, by omega, ?_, ?_, ?_, h₁.bcount⟩
      · rw [← hkept.inode]
        exact hclear
      · refine ⟨hturned.zone.trans hkept.zone, fun m => ?_⟩
        rw [← hkept.inode]
        exact hturned.inode m
      · rw [setInode_self]
        refine ⟨rfl, ?_, rfl, rfl⟩
        exact (BitVec.toNat_ofNat ..).trans (Nat.mod_eq_of_lt (by omega))

/-! ## The laws -/

/-- `new_block` takes a free zone, or says that there is none, if the first clear bit of the zone map
stands for a zone whose buffer is free; `free_block` undoes it. `free_block` of an allocated block
clears its bit if the buffer is free; else a reference to the buffer stays. `new_inode` takes a free
inode, or says that there is none. -/
theorem bitmap_laws (M : Mapped s dev sb) :
    (NewBlockLaw s dev sb ↔ ∀ n, FirstClear s dev sb n →
      n + sb.firstdatazone.toNat ≤ sb.nzones.toNat ∧
        s.bcount (dev, BitVec.ofNat 32 (n + sb.firstdatazone.toNat - 1)) = 0) ∧
    (∀ b s', (newBlock dev : Call Tables Zone).exec s = .ok (b, s') → b ≠ 0 →
      Returns (freeBlock dev b : Call Tables Unit) s' fun _ s'' => BitsKept s s'' dev sb) ∧
    (∀ b, Allocated s dev sb b → (FreeBlockLaw s dev sb b ↔ s.bcount (dev, b.zeroExtend 32) = 0)) ∧
    (s.Room → NewInodeLaw s dev sb) :=
  ⟨newBlock_law_iff M, freeBlock_newBlock M, fun _ => freeBlock_law_iff M, newInode_law M⟩

/-! ## A zone map with clear bits behind the last zone -/

/-- The zones 5 to 9, and 32 inodes. -/
def smallSuper : SuperBlock where
  dev := 1
  ninodes := 32
  nzones := 10
  imapBlocks := 1
  zmapBlocks := 1
  firstdatazone := 5
  imap i := if i < 1 then some (BitVec.ofNat 32 (2 + i)) else none
  zmap i := if i < 1 then some (BitVec.ofNat 32 (2 + 1 + i)) else none
  inodeMount := none

theorem smallSuper_laid : smallSuper.Laid where
  imapBlocks := by decide
  zmapBlocks := by decide
  imap _ := rfl
  zmap _ := rfl
  first := by decide

/-- A disk whose zones have the bits 1 to 5 of byte `zones` in block 3; all inodes are taken but
inode 8. `count` counts the references to block 6. -/
def smallDisk (zones : Byte) (count : Nat) : State Tables where
  contents :=
    { byte := fun _ b n =>
        if b = 3 then if n = 0 then zones else 0xff else if b = 2 then if n = 1 then 0xfe else 0xff else 0
      inode := fun _ _ _ => MInode.zero.disk }
  bcount bh := if bh = (1, 6) then count else 0
  inode _ := .zero
  lastInode := 0
  super _ := smallSuper
  task := ⟨0, 0, 0, none, none, none, false, 0⟩
  time := 0
  crowded _ := false
  clock _ := 0

theorem smallDisk_mapped (zones : Byte) (count : Nat) (hzero : bitOf (fun _ => zones) 0 = true) :
    Mapped (smallDisk zones count) 1 smallSuper where
  super := rfl
  laid := smallSuper_laid
  zoneZero := hzero
  inodeZero := by
    show bitOf (fun n => if n = 1 then (0xfe : Byte) else 0xff) 0 = true
    decide
  writable i hdirt := nomatch hdirt

/-- All zones are taken, and bit 6 is clear: `new_block` sets it. Block 6 is allocated and in use:
`free_block` keeps a reference to it. -/
theorem bitmap_laws_smallDisk_full :
    ¬ NewBlockLaw (smallDisk 0x3f 0) 1 smallSuper ∧
      Allocated (smallDisk 0x3f 1) 1 smallSuper 6 ∧
      ¬ FreeBlockLaw (smallDisk 0x3f 1) 1 smallSuper 6 := by
  have hfirst : FirstClear (smallDisk 0x3f 0) 1 smallSuper 6 := by
    unfold FirstClear
    decide
  have halloc : Allocated (smallDisk 0x3f 1) 1 smallSuper 6 :=
    ⟨by decide, by decide, by decide, by decide⟩
  refine ⟨fun h => ?_, halloc, fun h => ?_⟩
  · have hlast := ((newBlock_law_iff (smallDisk_mapped 0x3f 0 (by decide))).mp h 6 hfirst).1
    exact absurd hlast (by decide)
  · have hcount := (freeBlock_law_iff (smallDisk_mapped 0x3f 1 (by decide)) halloc).mp h
    exact absurd hcount (by decide)

/-- Block 7 is free: it is taken, and `free_block` of block 6, which nobody uses, is as expected. -/
theorem bitmap_laws_smallDisk :
    NewBlockLaw (smallDisk 0x37 0) 1 smallSuper ∧
      FreeBlockLaw (smallDisk 0x37 0) 1 smallSuper 6 ∧
      NewInodeLaw (smallDisk 0x37 0) 1 smallSuper := by
  have M := smallDisk_mapped 0x37 0 (by decide)
  have hfirst : FirstClear (smallDisk 0x37 0) 1 smallSuper 3 := by
    unfold FirstClear
    decide
  obtain ⟨hnew, -, hfree, hinode⟩ := bitmap_laws M
  refine ⟨hnew.mpr fun n hn => ?_, (hfree 6 ⟨by decide, by decide, by decide, by decide⟩).mpr rfl,
    hinode ⟨0, by decide, rfl⟩⟩
  obtain rfl := hn.unique hfirst
  exact ⟨by decide, rfl⟩

end Linux011.FileSys
