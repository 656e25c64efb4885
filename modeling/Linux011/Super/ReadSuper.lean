import Mathlib.Data.BitVec
import Mathlib.Data.List.FinRange
import Mathlib.Logic.Function.Basic

/-!
# Reading a super block (`fs/super.c`)

`read_super` takes a free slot, copies block 1 of the device into it and reads as many blocks of the two
maps as block 1 says. The slot has room for eight of each. A store into a ninth place, and the first
byte of a map that has no block, are faults; here the call ends with them.

`check_disk_change` is left out, and the fields of a slot that `read_super` sets to 0 and does not read.
-/

namespace Linux011.Super

abbrev Dev := BitVec 16

/-- `struct d_super_block`. -/
structure DSuper where
  ninodes : BitVec 16
  nzones : BitVec 16
  imapBlocks : BitVec 16
  zmapBlocks : BitVec 16
  firstdatazone : BitVec 16
  logZoneSize : BitVec 16
  maxSize : BitVec 32
  magic : BitVec 16

/-- `struct super_block`; a buffer is named by its block. -/
structure Slot where
  disk : DSuper
  imap : Nat → Option Nat
  zmap : Nat → Option Nat
  dev : Dev
  lock : Bool

/-- `super_block`, the references to the buffers of each device, and the first byte in each. -/
structure Table where
  slot : Fin 8 → Slot
  count : Dev → Nat → Nat
  byte : Dev → Nat → BitVec 8

/-- A device: block 1, and which blocks can be read. -/
structure Device where
  super : DSuper
  readable : Nat → Bool

inductive Fault
  /-- A store behind the eighth place of a map. -/
  | overrun
  /-- The first byte of no buffer. -/
  | null
  deriving DecidableEq

/-- `SUPER_MAGIC`. -/
def superMagic : BitVec 16 := 0x137F

/-- `check_in_superb`, when no slot is locked. -/
def checkInSuperb (t : Table) (dev : Dev) : Option (Fin 8) :=
  if dev = 0 then none else (List.finRange 8).find? fun k => (t.slot k).dev = dev

/-- The first slot without a device. -/
def freeSlot (t : Table) : Option (Fin 8) := (List.finRange 8).find? fun k => (t.slot k).dev = 0

def Table.set (t : Table) (k : Fin 8) (s : Slot) : Table := { t with slot := Function.update t.slot k s }

/-- `bread` of a block that can be read. -/
def Table.bread (t : Table) (dev : Dev) (b : Nat) : Table :=
  { t with count := Function.update t.count dev (Function.update (t.count dev) b (t.count dev b + 1)) }

def Table.brelse (t : Table) (dev : Dev) : Option Nat → Table
  | none => t
  | some b =>
    { t with
      count := Function.update t.count dev (Function.update (t.count dev) b (t.count dev b - 1)) }

/-- One of the two loops that read a map, from place `i` and block `block` on: what it leaves in the map,
and the block it has come to. -/
def loadMap (readable : Nat → Bool) (dev : Dev) : Nat → Nat → Nat → (Nat → Option Nat) → Table →
    Except Fault (Nat × (Nat → Option Nat) × Table)
  | 0, _, block, map, t => .ok (block, map, t)
  | n + 1, i, block, map, t =>
    if readable block then
      if i < 8 then
        loadMap readable dev n (i + 1) (block + 1) (Function.update map i (some block))
          (t.bread dev block)
      else .error .overrun
    else if i < 8 then .ok (block, Function.update map i none, t)
    else .error .overrun

/-- `brelse` of the eight places of a map. -/
def releaseMap (dev : Dev) (map : Nat → Option Nat) (t : Table) : Table :=
  (List.range 8).foldl (fun t i => t.brelse dev (map i)) t

/-- `s_map[0]->b_data[0] |= 1`. -/
def markFirst (dev : Dev) (map : Nat → Option Nat) (t : Table) : Except Fault Table :=
  match map 0 with
  | none => .error .null
  | some b =>
    .ok { t with
      byte := Function.update t.byte dev (Function.update (t.byte dev) b (t.byte dev b ||| 1)) }

/-- Slot `k` is given up. -/
def Table.free (t : Table) (k : Fin 8) : Table := t.set k { t.slot k with dev := 0, lock := false }

/-- `read_super` in a free slot, from `bread` of block 1 on. -/
def readInto (v : Device) (dev : Dev) (k : Fin 8) (t : Table) : Except Fault (Option (Fin 8) × Table) :=
  if !v.readable 1 then .ok (none, t.free k)
  else
    let t := ((t.bread dev 1).set k { t.slot k with disk := v.super }).brelse dev (some 1)
    if v.super.magic ≠ superMagic then .ok (none, t.free k)
    else do
      let (block, imap, t) ← loadMap v.readable dev v.super.imapBlocks.toNat 0 2 (fun _ => none) t
      let (block, zmap, t) ← loadMap v.readable dev v.super.zmapBlocks.toNat 0 block (fun _ => none) t
      let t := t.set k { t.slot k with imap := imap, zmap := zmap }
      if block ≠ 2 + v.super.imapBlocks.toNat + v.super.zmapBlocks.toNat then
        .ok (none, (releaseMap dev zmap (releaseMap dev imap t)).free k)
      else
        let t ← markFirst dev imap t
        let t ← markFirst dev zmap t
        .ok (some k, t.set k { t.slot k with lock := false })

/-- `read_super`. -/
def readSuper (v : Device) (dev : Dev) (t : Table) : Except Fault (Option (Fin 8) × Table) :=
  if dev = 0 then .ok (none, t)
  else
    match checkInSuperb t dev with
    | some k => .ok (some k, t)
    | none =>
      match freeSlot t with
      | none => .ok (none, t)
      | some k => readInto v dev k (t.set k { t.slot k with dev := dev, lock := true })

/-! ## The loops in closed form -/

variable {readable : Nat → Bool} {dev : Dev} {t t' : Table} {b n m : Nat} {k : Fin 8} {v : Device}

/-- How many of `n` blocks can be read from block `b` on. -/
def span (readable : Nat → Bool) : Nat → Nat → Nat
  | 0, _ => 0
  | n + 1, b => if readable b then span readable n (b + 1) + 1 else 0

theorem span_le (readable : Nat → Bool) (n b : Nat) : span readable n b ≤ n := by
  induction n generalizing b with
  | zero => exact Nat.le_refl 0
  | succ n ih =>
    rw [span]
    split
    · exact Nat.succ_le_succ (ih _)
    · exact Nat.zero_le _

/-- It ends early exactly if a block cannot be read. -/
theorem span_lt_iff (hm : m ≤ n) :
    span readable n b < m ↔ ∃ c, b ≤ c ∧ c < b + m ∧ readable c = false := by
  induction n generalizing b m with
  | zero =>
    refine iff_of_false (by omega) ?_
    rintro ⟨c, h1, h2, -⟩
    omega
  | succ n ih =>
    rw [span]
    cases m with
    | zero =>
      refine iff_of_false (Nat.not_lt_zero _) ?_
      rintro ⟨c, h1, h2, -⟩
      omega
    | succ m =>
      cases hb : readable b with
      | true =>
        rw [if_pos rfl, Nat.succ_lt_succ_iff, ih (Nat.le_of_succ_le_succ hm)]
        constructor
        · rintro ⟨c, h1, h2, hc⟩
          exact ⟨c, by omega, by omega, hc⟩
        · rintro ⟨c, h1, h2, hc⟩
          have hne : c ≠ b := by
            rintro rfl
            rw [hb] at hc
            cases hc
          exact ⟨c, by omega, by omega, hc⟩
      | false =>
        rw [if_neg Bool.false_ne_true]
        exact iff_of_true (Nat.succ_pos m) ⟨b, Nat.le_refl b, by omega, hb⟩

/-- One more reference to each of the buffers of blocks `lo` to `hi`. -/
def Table.holding (t : Table) (dev : Dev) (lo hi : Nat) : Table :=
  { t with
    count := Function.update t.count dev fun b =>
      if lo ≤ b ∧ b < hi then t.count dev b + 1 else t.count dev b }

theorem Table.holding_none (t : Table) (dev : Dev) (b : Nat) : t.holding dev b b = t := by
  have hcount : (fun c => if b ≤ c ∧ c < b then t.count dev c + 1 else t.count dev c) = t.count dev := by
    funext c
    exact if_neg (by omega)
  unfold Table.holding
  rw [hcount, Function.update_eq_self]

theorem Table.holding_bread (t : Table) (dev : Dev) {b hi : Nat} (h : b < hi) :
    (t.bread dev b).holding dev (b + 1) hi = t.holding dev b hi := by
  unfold Table.holding Table.bread
  dsimp only
  rw [Function.update_self, Function.update_idem]
  refine congrArg (fun f => { t with count := Function.update t.count dev f }) ?_
  funext c
  by_cases hc : c = b
  · subst hc
    rw [if_neg (by omega), if_pos ⟨Nat.le_refl c, h⟩, Function.update_self]
  · rw [Function.update_of_ne hc]
    exact if_congr (by omega) rfl rfl

theorem Table.brelse_holding (t : Table) (dev : Dev) {b hi : Nat} (h : b < hi) :
    (t.holding dev b hi).brelse dev (some b) = t.holding dev (b + 1) hi := by
  unfold Table.holding Table.brelse
  dsimp only
  rw [Function.update_self, Function.update_idem]
  refine congrArg (fun f => { t with count := Function.update t.count dev f }) ?_
  funext c
  by_cases hc : c = b
  · subst hc
    rw [Function.update_self, if_pos ⟨Nat.le_refl c, h⟩, if_neg (by omega), Nat.add_sub_cancel]
  · rw [Function.update_of_ne hc]
    exact if_congr (by omega) rfl rfl

theorem Table.holding_holding (t : Table) (dev : Dev) {lo mid hi : Nat} (h₁ : lo ≤ mid)
    (h₂ : mid ≤ hi) : (t.holding dev lo mid).holding dev mid hi = t.holding dev lo hi := by
  unfold Table.holding
  dsimp only
  rw [Function.update_self, Function.update_idem]
  refine congrArg (fun f => { t with count := Function.update t.count dev f }) ?_
  funext c
  by_cases hc : c < mid
  · rw [if_neg (by omega)]
    exact if_congr (by omega) rfl rfl
  · rw [if_neg (show ¬ (lo ≤ c ∧ c < mid) by omega)]
    exact if_congr (by omega) rfl rfl

/-- A map that begins at block `b` and has `n` blocks. -/
def mapFrom (b n : Nat) : Nat → Option Nat := fun j => if j < n then some (b + j) else none

/-- A loop stays within the eight places if there are no more blocks, or one of the first eight cannot
be read. -/
theorem loadMap_eq {i first : Nat} (hi : i ≤ 8) (hb : b = first + i) :
    loadMap readable dev n i b (mapFrom first i) t =
      if i + n ≤ 8 ∨ i + span readable n b < 8 then
        .ok (b + span readable n b, mapFrom first (i + span readable n b),
          t.holding dev b (b + span readable n b))
      else .error .overrun := by
  induction n generalizing i b t with
  | zero =>
    simp only [loadMap, span, Nat.add_zero, Table.holding_none]
    exact (if_pos (Or.inl hi)).symm
  | succ n ih =>
    rw [loadMap, span]
    cases hread : readable b with
    | false =>
      rw [if_neg Bool.false_ne_true, if_neg Bool.false_ne_true]
      simp only [Nat.add_zero, Table.holding_none]
      by_cases h8 : i < 8
      · have hmap : Function.update (mapFrom first i) i none = mapFrom first i := by
          have hnone : mapFrom first i i = none := if_neg (Nat.lt_irrefl i)
          rw [← hnone, Function.update_eq_self]
        rw [if_pos h8, if_pos (Or.inr h8), hmap]
      · rw [if_neg h8, if_neg (by omega)]
    | true =>
      rw [if_pos rfl, if_pos rfl]
      by_cases h8 : i < 8
      · have hmap : Function.update (mapFrom first i) i (some b) = mapFrom first (i + 1) := by
          funext j
          by_cases hj : j = i
          · subst hj
            rw [Function.update_self, mapFrom, if_pos (Nat.lt_succ_self j), hb]
          · rw [Function.update_of_ne hj]
            exact if_congr (by omega) rfl rfl
        rw [if_pos h8, hmap, ih h8 (by omega), Table.holding_bread t dev (by omega)]
        have hspan : b + 1 + span readable n (b + 1) = b + (span readable n (b + 1) + 1) := by omega
        have hplace : i + 1 + span readable n (b + 1) = i + (span readable n (b + 1) + 1) := by omega
        rw [hspan, hplace]
        exact if_congr (by omega) rfl rfl
      · rw [if_neg h8, if_neg (by omega)]

theorem releaseMap_eq {lo hi : Nat} (hm : m ≤ 8) (hhi : lo + m ≤ hi) :
    releaseMap dev (mapFrom lo m) (t.holding dev lo hi) = t.holding dev (lo + m) hi := by
  have key : ∀ n, (List.range n).foldl (fun t i => t.brelse dev (mapFrom lo m i)) (t.holding dev lo hi)
      = t.holding dev (lo + min n m) hi := by
    intro n
    induction n with
    | zero => rw [Nat.zero_min]; rfl
    | succ n ih =>
      rw [List.range_succ, List.foldl_append, ih]
      show (t.holding dev (lo + min n m) hi).brelse dev (mapFrom lo m n) = _
      by_cases hn : n < m
      · have hmap : mapFrom lo m n = some (lo + n) := if_pos hn
        rw [Nat.min_eq_left (Nat.le_of_lt hn), hmap, Table.brelse_holding t dev (by omega),
          Nat.min_eq_left (show n + 1 ≤ m from hn), Nat.add_assoc]
      · have hmap : mapFrom lo m n = none := if_neg hn
        rw [hmap, Nat.min_eq_right (by omega), Nat.min_eq_right (by omega)]
        rfl
  unfold releaseMap
  rw [key 8, Nat.min_eq_right hm]

/-! ## `read_super` -/

/-- The numbers of blocks that `read_super` reads of the two maps. -/
def Device.imapSpan (v : Device) : Nat := span v.readable v.super.imapBlocks.toNat 2

def Device.zmapSpan (v : Device) : Nat :=
  span v.readable v.super.zmapBlocks.toNat (2 + v.imapSpan)

/-- The maps fit into the slot, or a block that cannot be read ends the loop before; and if all blocks
can be read, neither map is empty. -/
structure Device.Fits (v : Device) : Prop where
  imap : v.super.imapBlocks.toNat ≤ 8 ∨ ∃ b, 2 ≤ b ∧ b < 10 ∧ v.readable b = false
  zmap : v.super.zmapBlocks.toNat ≤ 8 ∨
    ∃ b, 2 ≤ b ∧ b < v.super.imapBlocks.toNat + 10 ∧ v.readable b = false
  some : (∀ b, 2 ≤ b → b < 2 + v.super.imapBlocks.toNat + v.super.zmapBlocks.toNat →
    v.readable b = true) → 0 < v.super.imapBlocks.toNat ∧ 0 < v.super.zmapBlocks.toNat

theorem span_stop (h : span readable n b < n) : readable (b + span readable n b) = false := by
  induction n generalizing b with
  | zero => cases h
  | succ n ih =>
    rw [span] at h ⊢
    cases hb : readable b with
    | false => rwa [if_neg Bool.false_ne_true, Nat.add_zero]
    | true =>
      rw [hb, if_pos rfl] at h
      have hrest := ih (Nat.lt_of_succ_lt_succ h)
      have hplace : b + (span readable n (b + 1) + 1) = b + 1 + span readable n (b + 1) := by omega
      rw [if_pos rfl, hplace]
      exact hrest

/-- All blocks are there. -/
theorem span_eq_iff : span readable n b = n ↔ ∀ c, b ≤ c → c < b + n → readable c = true := by
  have hle := span_le readable n b
  have hlt : span readable n b < n ↔ ∃ c, b ≤ c ∧ c < b + n ∧ readable c = false :=
    span_lt_iff (Nat.le_refl n)
  constructor
  · intro he c h1 h2
    by_contra hc
    have hstop := hlt.mpr ⟨c, h1, h2, Bool.eq_false_of_not_eq_true hc⟩
    omega
  · intro hall
    by_contra hne
    obtain ⟨c, h1, h2, hc⟩ := hlt.mp (by omega)
    rw [hall c h1 h2] at hc
    cases hc

theorem Device.fits_iff (v : Device) : v.Fits ↔
    (v.super.imapBlocks.toNat ≤ 8 ∨ v.imapSpan < 8) ∧
      (v.super.zmapBlocks.toNat ≤ 8 ∨ v.zmapSpan < 8) ∧
      (v.imapSpan = v.super.imapBlocks.toNat → v.zmapSpan = v.super.zmapBlocks.toNat →
        0 < v.super.imapBlocks.toNat ∧ 0 < v.super.zmapBlocks.toNat) := by
  have hle : v.imapSpan ≤ v.super.imapBlocks.toNat := span_le ..
  have himap : 8 < v.super.imapBlocks.toNat →
      (v.imapSpan < 8 ↔ ∃ b, 2 ≤ b ∧ b < 10 ∧ v.readable b = false) := fun h =>
    span_lt_iff (Nat.le_of_lt h)
  have hzmap : 8 < v.super.zmapBlocks.toNat → (v.zmapSpan < 8 ↔
      ∃ b, 2 ≤ b ∧ b < v.super.imapBlocks.toNat + 10 ∧ v.readable b = false) := by
    intro h
    have hspan : v.zmapSpan < 8 ↔ ∃ c, 2 + v.imapSpan ≤ c ∧ c < 2 + v.imapSpan + 8 ∧
        v.readable c = false := span_lt_iff (Nat.le_of_lt h)
    rw [hspan]
    constructor
    · rintro ⟨c, h1, h2, hc⟩
      exact ⟨c, by omega, by omega, hc⟩
    · rintro ⟨c, h1, h2, hc⟩
      -- the second loop begins at the block where the first one has stopped
      rcases Nat.lt_or_eq_of_le hle with hlt | heq
      · exact ⟨2 + v.imapSpan, Nat.le_refl _, by omega, span_stop hlt⟩
      · have hall := span_eq_iff.mp heq
        refine ⟨c, ?_, by omega, hc⟩
        by_contra hbefore
        rw [hall c h1 (by omega)] at hc
        cases hc
  have hsome : (∀ b, 2 ≤ b → b < 2 + v.super.imapBlocks.toNat + v.super.zmapBlocks.toNat →
      v.readable b = true) ↔
        v.imapSpan = v.super.imapBlocks.toNat ∧ v.zmapSpan = v.super.zmapBlocks.toNat := by
    constructor
    · intro hall
      have heq : v.imapSpan = v.super.imapBlocks.toNat :=
        span_eq_iff.mpr fun c h1 h2 => hall c h1 (by omega)
      exact ⟨heq, span_eq_iff.mpr fun c h1 h2 => hall c (by omega) (by omega)⟩
    · rintro ⟨heq, heq'⟩ c h1 h2
      have hfirst := span_eq_iff.mp heq
      have hsecond : ∀ c, 2 + v.imapSpan ≤ c → c < 2 + v.imapSpan + v.super.zmapBlocks.toNat →
          v.readable c = true := span_eq_iff.mp heq'
      by_cases hc : c < 2 + v.super.imapBlocks.toNat
      · exact hfirst c h1 hc
      · exact hsecond c (by omega) (by omega)
  constructor
  · rintro ⟨hi, hz, hs⟩
    refine ⟨?_, ?_, fun h1 h2 => hs (hsome.mpr ⟨h1, h2⟩)⟩
    · by_cases h : v.super.imapBlocks.toNat ≤ 8
      · exact Or.inl h
      · exact Or.inr ((himap (by omega)).mpr (hi.resolve_left h))
    · by_cases h : v.super.zmapBlocks.toNat ≤ 8
      · exact Or.inl h
      · exact Or.inr ((hzmap (by omega)).mpr (hz.resolve_left h))
  · rintro ⟨hi, hz, hs⟩
    refine ⟨?_, ?_, fun h => hs (hsome.mp h).1 (hsome.mp h).2⟩
    · by_cases h : v.super.imapBlocks.toNat ≤ 8
      · exact Or.inl h
      · exact Or.inr ((himap (by omega)).mp (hi.resolve_left h))
    · by_cases h : v.super.zmapBlocks.toNat ≤ 8
      · exact Or.inl h
      · exact Or.inr ((hzmap (by omega)).mp (hz.resolve_left h))

/-- Block 1 is read, and given back. -/
theorem Table.read_super_block (t : Table) (dev : Dev) (k : Fin 8) (s : Slot) :
    ((t.bread dev 1).set k s).brelse dev (some 1) = t.set k s := by
  unfold Table.brelse Table.set Table.bread
  dsimp only
  rw [Function.update_self, Function.update_idem, Function.update_self, Function.update_idem,
    Nat.add_sub_cancel, Function.update_eq_self, Function.update_eq_self]

/-- The slot while the maps are read. -/
def Table.copied (t : Table) (k : Fin 8) (v : Device) : Table :=
  t.set k { t.slot k with disk := v.super }

/-- The slot with what could be read of the maps. -/
def Table.mapped (t : Table) (k : Fin 8) (v : Device) : Table :=
  t.set k
    { t.slot k with
      disk := v.super
      imap := mapFrom 2 v.imapSpan
      zmap := mapFrom (2 + v.imapSpan) v.zmapSpan }

theorem mapFrom_zero (b : Nat) : (fun _ => none) = mapFrom b 0 := by
  funext j
  exact (if_neg (Nat.not_lt_zero j)).symm

/-- `read_super` up to the two loops. -/
theorem readInto_front (hread : v.readable 1 = true) (hmagic : v.super.magic = superMagic) :
    readInto v dev k t = (do
      let (block, imap, t) ←
        loadMap v.readable dev v.super.imapBlocks.toNat 0 2 (mapFrom 2 0) (t.copied k v)
      let (block, zmap, t) ←
        loadMap v.readable dev v.super.zmapBlocks.toNat 0 block (mapFrom block 0) t
      let t := t.set k { t.slot k with imap := imap, zmap := zmap }
      if block ≠ 2 + v.super.imapBlocks.toNat + v.super.zmapBlocks.toNat then
        .ok (none, (releaseMap dev zmap (releaseMap dev imap t)).free k)
      else
        let t ← markFirst dev imap t
        let t ← markFirst dev zmap t
        .ok (some k, t.set k { t.slot k with lock := false })) := by
  unfold readInto
  rw [hread, if_neg (by decide)]
  dsimp only
  rw [if_neg fun h => h hmagic, Table.read_super_block]
  simp only [← mapFrom_zero]
  rfl

theorem loadMap_first (himap : v.super.imapBlocks.toNat ≤ 8 ∨ v.imapSpan < 8) :
    loadMap v.readable dev v.super.imapBlocks.toNat 0 2 (mapFrom 2 0) t =
      .ok (2 + v.imapSpan, mapFrom 2 v.imapSpan, t.holding dev 2 (2 + v.imapSpan)) := by
  have hpos : 0 + v.super.imapBlocks.toNat ≤ 8 ∨
      0 + span v.readable v.super.imapBlocks.toNat 2 < 8 := by
    rw [Nat.zero_add, Nat.zero_add]
    exact himap
  rw [loadMap_eq (Nat.zero_le 8) rfl, if_pos hpos, Nat.zero_add]
  rfl

/-- The two loops, when they stay within the slot. -/
theorem readInto_loops (hread : v.readable 1 = true) (hmagic : v.super.magic = superMagic)
    (himap : v.super.imapBlocks.toNat ≤ 8 ∨ v.imapSpan < 8)
    (hzmap : v.super.zmapBlocks.toNat ≤ 8 ∨ v.zmapSpan < 8) :
    readInto v dev k t =
      if v.imapSpan = v.super.imapBlocks.toNat ∧ v.zmapSpan = v.super.zmapBlocks.toNat then do
        let t ← markFirst dev (mapFrom 2 v.imapSpan)
          ((t.mapped k v).holding dev 2 (2 + v.imapSpan + v.zmapSpan))
        let t ← markFirst dev (mapFrom (2 + v.imapSpan) v.zmapSpan) t
        .ok (some k, t.set k { t.slot k with lock := false })
      else .ok (none, (t.mapped k v).free k) := by
  have hi : v.imapSpan ≤ v.super.imapBlocks.toNat := span_le ..
  have hz : v.zmapSpan ≤ v.super.zmapBlocks.toNat := span_le ..
  have hsecond : ∀ u, loadMap v.readable dev v.super.zmapBlocks.toNat 0 (2 + v.imapSpan)
      (mapFrom (2 + v.imapSpan) 0) u = .ok (2 + v.imapSpan + v.zmapSpan,
        mapFrom (2 + v.imapSpan) v.zmapSpan,
        u.holding dev (2 + v.imapSpan) (2 + v.imapSpan + v.zmapSpan)) := fun u => by
    have hpos : 0 + v.super.zmapBlocks.toNat ≤ 8 ∨
        0 + span v.readable v.super.zmapBlocks.toNat (2 + v.imapSpan) < 8 := by
      rw [Nat.zero_add, Nat.zero_add]
      exact hzmap
    rw [loadMap_eq (Nat.zero_le 8) (Nat.add_zero _).symm, if_pos hpos, Nat.zero_add]
    rfl
  rw [readInto_front hread hmagic, loadMap_first himap]
  show (do
    let (block, zmap, t) ← loadMap v.readable dev v.super.zmapBlocks.toNat 0 (2 + v.imapSpan)
      (mapFrom (2 + v.imapSpan) 0) ((t.copied k v).holding dev 2 (2 + v.imapSpan))
    _) = _
  rw [hsecond, Table.holding_holding _ dev (Nat.le_add_right ..) (Nat.le_add_right ..)]
  dsimp only [bind, Except.bind]
  generalize hhi : 2 + v.imapSpan + v.zmapSpan = hi'
  rw [show ((t.copied k v).holding dev 2 hi').set k _ = (t.mapped k v).holding dev 2 hi' from by
    simp only [Table.copied, Table.mapped, Table.set, Table.holding, Function.update_self,
      Function.update_idem]]
  have hrelease : releaseMap dev (mapFrom (2 + v.imapSpan) v.zmapSpan)
      (releaseMap dev (mapFrom 2 v.imapSpan) ((t.mapped k v).holding dev 2 hi')) = t.mapped k v := by
    rw [releaseMap_eq (by omega) (by omega), releaseMap_eq (by omega) (by omega), hhi,
      Table.holding_none]
  rw [hrelease]
  by_cases hall : v.imapSpan = v.super.imapBlocks.toNat ∧ v.zmapSpan = v.super.zmapBlocks.toNat
  · rw [if_pos hall, if_neg (by omega)]
  · rw [if_neg hall, if_pos (by omega)]

theorem markFirst_eq (dev : Dev) (b n : Nat) (t : Table) :
    markFirst dev (mapFrom b n) t = if 0 < n then
      .ok { t with
        byte := Function.update t.byte dev (Function.update (t.byte dev) b (t.byte dev b ||| 1)) }
    else .error .null := by
  unfold markFirst
  by_cases hn : 0 < n
  · have hmap : mapFrom b n 0 = some b := if_pos hn
    rw [hmap, if_pos hn]
  · have hmap : mapFrom b n 0 = none := if_neg hn
    rw [hmap, if_neg hn]

/-- Where the maps do not fit, the call does not return. -/
theorem readInto_fault (hread : v.readable 1 = true) (hmagic : v.super.magic = superMagic)
    (hno : ¬ v.Fits) : ∃ e, readInto v dev k t = .error e := by
  by_cases himap : v.super.imapBlocks.toNat ≤ 8 ∨ v.imapSpan < 8
  · by_cases hzmap : v.super.zmapBlocks.toNat ≤ 8 ∨ v.zmapSpan < 8
    · have hempty : (v.imapSpan = v.super.imapBlocks.toNat ∧ v.zmapSpan = v.super.zmapBlocks.toNat) ∧
          ¬ (0 < v.imapSpan ∧ 0 < v.zmapSpan) := by
        by_contra hne
        refine hno (v.fits_iff.mpr ⟨himap, hzmap, fun h1 h2 => ?_⟩)
        rw [← h1, ← h2]
        exact not_not.mp fun h => hne ⟨⟨h1, h2⟩, h⟩
      rw [readInto_loops hread hmagic himap hzmap, if_pos hempty.1, markFirst_eq]
      by_cases hi : 0 < v.imapSpan
      · rw [if_pos hi]
        refine ⟨.null, ?_⟩
        show (do
          let t ← markFirst dev (mapFrom (2 + v.imapSpan) v.zmapSpan) _
          _) = _
        rw [markFirst_eq, if_neg fun hz => hempty.2 ⟨hi, hz⟩]
        rfl
      · rw [if_neg hi]
        exact ⟨.null, rfl⟩
    · have hsecond : loadMap v.readable dev v.super.zmapBlocks.toNat 0 (2 + v.imapSpan)
          (mapFrom (2 + v.imapSpan) 0) ((t.copied k v).holding dev 2 (2 + v.imapSpan)) =
            .error .overrun := by
        have hneg : ¬ (0 + v.super.zmapBlocks.toNat ≤ 8 ∨
            0 + span v.readable v.super.zmapBlocks.toNat (2 + v.imapSpan) < 8) := by
          rw [Nat.zero_add, Nat.zero_add]
          exact hzmap
        rw [loadMap_eq (Nat.zero_le 8) (Nat.add_zero _).symm, if_neg hneg]
      refine ⟨.overrun, ?_⟩
      rw [readInto_front hread hmagic, loadMap_first himap]
      show (do
        let (block, zmap, t) ← loadMap v.readable dev v.super.zmapBlocks.toNat 0 (2 + v.imapSpan)
          (mapFrom (2 + v.imapSpan) 0) ((t.copied k v).holding dev 2 (2 + v.imapSpan))
        _) = _
      rw [hsecond]
      rfl
  · have hneg : ¬ (0 + v.super.imapBlocks.toNat ≤ 8 ∨
        0 + span v.readable v.super.imapBlocks.toNat 2 < 8) := by
      rw [Nat.zero_add, Nat.zero_add]
      exact himap
    refine ⟨.overrun, ?_⟩
    rw [readInto_front hread hmagic, loadMap_eq (Nat.zero_le 8) rfl, if_neg hneg]
    rfl

/-! ## What is promised -/

/-- The maps have the blocks that the super block says. -/
structure Slot.Loaded (s : Slot) : Prop where
  imap : ∀ i, (s.imap i).isSome = true ↔ i < s.disk.imapBlocks.toNat
  zmap : ∀ i, (s.zmap i).isSome = true ↔ i < s.disk.zmapBlocks.toNat

/-- Between two calls. -/
structure Table.Tidy (t : Table) : Prop where
  lock : ∀ k, (t.slot k).lock = false
  loaded : ∀ k, (t.slot k).dev ≠ 0 → (t.slot k).Loaded

/-- The result of `read_super` on a device: without a slot, all slots have the devices they had and all
references are given back; with one, it has the device and its maps. -/
structure Answer (t : Table) (dev : Dev) (r : Option (Fin 8)) (t' : Table) : Prop where
  failed : r = none → (∀ k, (t'.slot k).dev = (t.slot k).dev) ∧ t'.count = t.count
  loaded : ∀ k, r = some k → (t'.slot k).dev = dev ∧ (t'.slot k).Loaded
  tidy : t'.Tidy

theorem mapFrom_isSome (b n i : Nat) : (mapFrom b n i).isSome = true ↔ i < n := by
  unfold mapFrom
  split
  · next h => exact iff_of_true rfl h
  · next h => exact iff_of_false (by decide) h

/-- A slot that was free is free again. -/
theorem Table.Tidy.given_up (T : t.Tidy) (hfree : (t.slot k).dev = 0) (s : Slot) (dev : Dev) :
    Answer t dev none ((t.set k s).free k) := by
  have hself : ((t.set k s).free k).slot k = { s with dev := 0, lock := false } := by
    simp only [Table.free, Table.set, Function.update_self]
  have hother : ∀ j, j ≠ k → ((t.set k s).free k).slot j = t.slot j := fun j hj => by
    simp only [Table.free, Table.set, Function.update_of_ne hj]
  refine ⟨fun _ => ⟨fun j => ?_, rfl⟩, nofun, fun j => ?_, fun j hj => ?_⟩
  · by_cases hjk : j = k
    · rw [hjk, hself, hfree]
    · rw [hother j hjk]
  · by_cases hjk : j = k
    · rw [hjk, hself]
    · rw [hother j hjk]
      exact T.lock j
  · by_cases hjk : j = k
    · rw [hjk, hself] at hj
      exact absurd rfl hj
    · rw [hother j hjk] at hj ⊢
      exact T.loaded j hj

/-- A slot that has been filled. -/
theorem Table.Tidy.filled (T : t.Tidy) {s : Slot} (hdev : s.dev = dev) (hlock : s.lock = false)
    (hloaded : s.Loaded) (hself : t'.slot = Function.update t.slot k s) : Answer t dev (some k) t' := by
  have hk : t'.slot k = s := by rw [hself, Function.update_self]
  have hother : ∀ j, j ≠ k → t'.slot j = t.slot j := fun j hj => by
    rw [hself, Function.update_of_ne hj]
  refine ⟨nofun, fun j hj => ?_, fun j => ?_, fun j hj => ?_⟩
  · cases hj
    rw [hk]
    exact ⟨hdev, hloaded⟩
  · by_cases hjk : j = k
    · rw [hjk, hk, hlock]
    · rw [hother j hjk]
      exact T.lock j
  · by_cases hjk : j = k
    · rw [hjk, hk]
      exact hloaded
    · rw [hother j hjk] at hj ⊢
      exact T.loaded j hj

/-- Where they fit, it returns, with the slot given up or filled. -/
theorem readInto_fits (T : t.Tidy) (hfree : (t.slot k).dev = 0) {s : Slot} (hdev : s.dev = dev)
    (hread : v.readable 1 = true) (hmagic : v.super.magic = superMagic) (F : v.Fits) :
    ∃ r t', readInto v dev k (t.set k s) = .ok (r, t') ∧ Answer t dev r t' := by
  obtain ⟨himap, hzmap, hsome⟩ := v.fits_iff.mp F
  have hmapped : (t.set k s).mapped k v = t.set k
      { s with
        disk := v.super
        imap := mapFrom 2 v.imapSpan
        zmap := mapFrom (2 + v.imapSpan) v.zmapSpan } := by
    simp only [Table.mapped, Table.set, Function.update_self, Function.update_idem]
  rw [readInto_loops hread hmagic himap hzmap]
  by_cases hall : v.imapSpan = v.super.imapBlocks.toNat ∧ v.zmapSpan = v.super.zmapBlocks.toNat
  · obtain ⟨hi, hz⟩ := hsome hall.1 hall.2
    rw [if_pos hall, markFirst_eq, if_pos (by rw [hall.1]; exact hi)]
    dsimp only [bind, Except.bind]
    rw [markFirst_eq, if_pos (by rw [hall.2]; exact hz)]
    refine ⟨_, _, rfl, T.filled (s := { s with
      disk := v.super
      imap := mapFrom 2 v.imapSpan
      zmap := mapFrom (2 + v.imapSpan) v.zmapSpan
      lock := false }) hdev rfl ⟨fun i => ?_, fun i => ?_⟩ ?_⟩
    · rw [← hall.1]
      exact mapFrom_isSome ..
    · rw [← hall.2]
      exact mapFrom_isSome ..
    · rw [hmapped]
      simp only [Table.set, Table.holding, Function.update_self, Function.update_idem]
  · rw [if_neg hall, hmapped]
    exact ⟨_, _, rfl, T.given_up hfree _ dev⟩

/-- The call reads the maps: the device is not in the table, there is a free slot, and block 1 can be
read and is a super block. -/
def Table.ReadsMaps (t : Table) (v : Device) (dev : Dev) : Prop :=
  dev ≠ 0 ∧ checkInSuperb t dev = none ∧ freeSlot t ≠ none ∧ v.readable 1 = true ∧
    v.super.magic = superMagic

/-- READ_SUPER ON ARBITRARY CONTENTS. Whatever block 1 of the device contains, and whichever blocks can
be read, `read_super` returns, and returns what is promised, exactly if it does not read the maps or
they fit. -/
theorem readSuper_iff (T : t.Tidy) (v : Device) (dev : Dev) :
    (∃ r t', readSuper v dev t = .ok (r, t') ∧ Answer t dev r t') ↔ (t.ReadsMaps v dev → v.Fits) := by
  have same : Answer t dev none t := ⟨fun _ => ⟨fun _ => rfl, rfl⟩, nofun, T⟩
  unfold readSuper
  by_cases hdev : dev = 0
  · rw [if_pos hdev]
    exact iff_of_true ⟨_, _, rfl, same⟩ fun h => absurd hdev h.1
  rw [if_neg hdev]
  cases hcheck : checkInSuperb t dev with
  | some k =>
    have hk : (t.slot k).dev = dev := by
      unfold checkInSuperb at hcheck
      rw [if_neg hdev] at hcheck
      have hfound := List.find?_some hcheck
      exact of_decide_eq_true hfound
    refine iff_of_true ⟨_, _, rfl, nofun, fun j hj => ?_, T⟩ fun h => ?_
    · cases hj
      exact ⟨hk, T.loaded k (by rw [hk]; exact hdev)⟩
    · rw [h.2.1] at hcheck
      cases hcheck
  | none =>
    cases hfind : freeSlot t with
    | none => exact iff_of_true ⟨_, _, rfl, same⟩ fun h => absurd hfind h.2.2.1
    | some k =>
      have hfree : (t.slot k).dev = 0 := by
        unfold freeSlot at hfind
        have hfound := List.find?_some hfind
        exact of_decide_eq_true hfound
      dsimp only
      by_cases hread : v.readable 1 = true
      · by_cases hmagic : v.super.magic = superMagic
        · have hreads : t.ReadsMaps v dev :=
            ⟨hdev, hcheck, by rw [hfind]; exact nofun, hread, hmagic⟩
          constructor
          · rintro ⟨r, t', hok, -⟩ -
            by_contra hno
            obtain ⟨e, he⟩ := readInto_fault hread hmagic hno
            rw [he] at hok
            cases hok
          · exact fun F => readInto_fits T hfree rfl hread hmagic (F hreads)
        · refine iff_of_true ⟨none, _, ?_, T.given_up hfree
            { t.slot k with disk := v.super, dev := dev, lock := true } dev⟩
              fun h => absurd h.2.2.2.2 hmagic
          unfold readInto
          rw [hread, if_neg (by decide)]
          dsimp only
          rw [if_pos hmagic, Table.read_super_block]
          simp only [Table.set, Function.update_self, Function.update_idem]
      · refine iff_of_true ⟨none, _, ?_, T.given_up hfree { t.slot k with dev := dev, lock := true } dev⟩
          fun h => absurd h.2.2.2.1 hread
        unfold readInto
        rw [Bool.eq_false_of_not_eq_true hread, if_pos (by decide)]

/-- Nothing is mounted. -/
def emptyTable : Table where
  slot _ := ⟨⟨0, 0, 0, 0, 0, 0, 0, 0⟩, fun _ => none, fun _ => none, 0, false⟩
  count _ _ := 0
  byte _ _ := 0

theorem emptyTable_tidy : emptyTable.Tidy := ⟨fun _ => rfl, fun _ h => absurd rfl h⟩

/-- A device that can be read, with these numbers of blocks for the maps. -/
def readableDevice (imapBlocks zmapBlocks : BitVec 16) : Device :=
  ⟨⟨64, 128, imapBlocks, zmapBlocks, 8, 0, 0, superMagic⟩, fun _ => true⟩

/-- One block for each map. -/
theorem readSuper_one : ∃ r t', readSuper (readableDevice 1 1) 0x301 emptyTable = .ok (r, t') ∧
    Answer emptyTable 0x301 r t' :=
  (readSuper_iff emptyTable_tidy (readableDevice 1 1) 0x301).mpr fun _ =>
    ⟨Or.inl (by decide), Or.inl (by decide), fun _ => by decide⟩

/-- Nine blocks for the inode map are one too many; and without a block, its first byte is that of
`NULL`. -/
theorem readSuper_faults :
    (readSuper (readableDevice 9 1) 0x301 emptyTable).toOption.isNone = true ∧
      (readSuper (readableDevice 0 1) 0x301 emptyTable).toOption.isNone = true := by
  decide +kernel

end Linux011.Super
