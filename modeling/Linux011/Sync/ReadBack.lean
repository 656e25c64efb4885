import Mathlib.Data.List.GetD
import Linux011.Sync.Held

/-!
# What a block device reads

`block_read` brings what `bread` brings, and `block_write` stores over it: a part of a block through
`breada`, a whole block through `getblk`. A whole block never gets `b_uptodate`: where its buffer was
not up to date before, the next read brings the old block from the disk, unless the new one has been
written there in the meantime.
-/

namespace Linux011.Sync

open Buffer

variable {ramdisk : Bool} {sync : Dev → Sys → Option Sys} {s s' u : Sys} {c c' d : Cache}
  {bh fuel pos : Nat} {dev : Dev} {block : Block}

/-! ## `breada` -/

theorem uptodate_view (S : Sound c) (his : (c.head bh).Is dev block) (h0 : dev ≠ 0)
    (hup : (c.head bh).uptodate = true) :
    logical c dev block = (c.head bh).data ∧ Settled c dev block := by
  have hns : ¬ Stale c bh := fun h => Bool.noConfusion (hup.symm.trans h.2.1)
  have hholds : Holds c bh := Or.inl hup
  refine ⟨?_, fresh_views S his h0 hns⟩
  rw [logical, seen_is S his h0, either_pos hholds]

/-- A buffer as `breada` and `getblk` bring it. -/
structure Brought (ramdisk : Bool) (s s' : Sys) (dev : Dev) (block : Block) (bh : Nat) : Prop where
  steady : Steady ramdisk s s'
  got : Got s.cache s'.cache bh
  is : (s'.cache.head bh).Is dev block
  lock : (s'.cache.head bh).lock = false

/-- The first block that `breada` is asked for is being read. -/
theorem ask_spec (R : Ready ramdisk s) (his : (s.cache.head bh).Is dev block)
    (hd : hasDriver ramdisk dev = true) (hpos : (s.cache.head bh).count ≠ 0)
    (h : (if (s.cache.head bh).uptodate then some s else llRwBlock ramdisk .read bh s) = some s') :
    (Steady ramdisk s s' ∧ Refs s.cache s'.cache ∧ Loaded s'.cache bh) ∧
      Settled s'.cache dev block ∧ reread s'.cache = reread s.cache := by
  split at h
  · next hup =>
    cases h
    exact ⟨⟨.refl R, .refl _, Or.inl hup⟩, (uptodate_view R.sound his (hasDriver_ne_zero hd) hup).2, rfl⟩
  · have hd' : hasDriver ramdisk (s.cache.head bh).dev = true := by
      rw [his.1]
      exact hd
    obtain ⟨F, -⟩ := llRwBlock_read R.sound his hd h
    obtain ⟨T, hsettled⟩ := F.steady R (llRwBlock_kept h)
    exact ⟨⟨T, llRwBlock_refs h, llRwBlock_loaded hd' hpos h⟩, hsettled, F.reread⟩

/-- A block that has a buffer is found, and nothing happens to the blocks. -/
theorem getblk_found (R : Ready ramdisk s) (hf : Few 1 s.cache) (h0 : dev ≠ 0) {q : Nat}
    (hq : findBuffer s.cache dev block = some q) (h : getblk sync fuel dev block s = some (bh, s')) :
    Same s.cache s'.cache ∧ (Loaded s.cache q → Loaded s'.cache bh) := by
  have hstays := interrupt_stays s q
  have Q := interrupt_spec R.sound
  have hfind : findBuffer s.interrupt.cache dev block = some q :=
    Q.sound.find (hstays.is (findBuffer_some hq)) h0
  cases fuel with
  | zero => cases h
  | succ fuel =>
    unfold getblk at h
    obtain ⟨⟨found, u⟩, hu, h⟩ := Option.bind_eq_some_iff.mp h
    obtain ⟨M, -⟩ := getHashTable_spec Q.sound hu
    cases fuel with
    | zero => cases hu
    | succ fuel =>
      unfold getHashTable at hu
      rw [hfind] at hu
      obtain ⟨v, hv, hu⟩ := Option.bind_eq_some_iff.mp hu
      have G := hold_got ((interrupt_refs s).few hf) q
      have hkept := (waitBufferUnlock_refs (s := { s.interrupt with cache := s.interrupt.cache.hold q })
        hv).1.held q G.pos
      have hhold := (count_stays s.interrupt.cache q _ q).1.trans hkept
      rw [if_pos (hhold.is (findBuffer_some hfind))] at hu
      cases hu
      cases h
      exact ⟨Q.toSame.trans M, fun hload => hhold.loaded (hstays.loaded hload)⟩

/-- `breada` brings a buffer that is up to date, with `reread` of its block. -/
theorem breada_spec (hsync : Lasting ramdisk sync) (hgives : GivesBack sync) (R : Ready ramdisk s)
    (hf : Few 2 s.cache) (hd : hasDriver ramdisk dev = true) {rest : List Block} {found : Option Nat}
    (h : breada ramdisk sync fuel dev block rest s = some (found, s')) :
    ∃ bh, found = some bh ∧ Brought ramdisk s s' dev block bh ∧ (s'.cache.head bh).uptodate = true ∧
      ∀ off, Spared s dev block off → (s'.cache.head bh).data off = reread s.cache dev block off := by
  have h0 := hasDriver_ne_zero hd
  obtain ⟨⟨bh, u⟩, hu, h⟩ := Option.bind_eq_some_iff.mp h
  obtain ⟨v, hv, h⟩ := Option.bind_eq_some_iff.mp h
  obtain ⟨w, hw, h⟩ := Option.bind_eq_some_iff.mp h
  obtain ⟨x, hx, h⟩ := Option.bind_eq_some_iff.mp h
  have hf' : Few 1 s.cache := fun q => by have := hf q; omega
  obtain ⟨T, his, -⟩ := getblk_steady hsync R h0 hu
  have G := getblk_got hgives hf' hu
  obtain ⟨⟨Tv, Rv, hload⟩, hsettled, hreread⟩ := ask_spec T.ready his hd G.pos hv
  -- the others do not take its buffer away
  have Tw := readAheads_steady hsync Tv.ready h0 hw
  have Rw := readAheads_refs hgives (Rv.few (G.few hf)) hw
  have Tx := waitBufferUnlock_steady Tw.ready hx
  obtain ⟨Rx, hlock⟩ := waitBufferUnlock_refs hx
  have Rall := Rv.trans (Rw.trans Rx)
  have hup : (x.cache.head bh).uptodate = true :=
    (((Rw.trans Rx).held bh (by rw [Rv.count]; exact G.pos)).loaded hload).uptodate hlock
  rw [if_pos hup] at h
  cases h
  have his' := (Rall.held bh G.pos).is his
  have Tall := T.trans (Tv.trans (Tw.trans Tx))
  refine ⟨bh, rfl, ⟨Tall, G.refs Rall, his', hlock⟩, hup, fun off hs => ?_⟩
  rw [← (uptodate_view Tx.ready.sound his' h0 hup).1]
  cases hq : findBuffer s.cache dev block with
  | none =>
    have hnone : Settled s.cache dev block := by rw [Settled, reread, logical, seen_none hq, seen_none hq]
    rw [Tall.bytes _ _ _ hnone hs, hnone]
  | some q =>
    obtain ⟨M, -⟩ := getblk_found R hf' h0 hq hu
    rw [(Tw.trans Tx).bytes _ _ _ hsettled ((T.trans Tv).spared hs), ← hsettled, hreread, M.reread]

/-! ## The bytes of a device -/

/-- The block of a position. -/
def blockOf (p : Nat) : Block := BitVec.ofNat 32 (p / 1024)

/-- At the positions `P` the device has the bytes of `g`, besides those that are not in `Q`: an inode may
be stored there. -/
structure Has (ramdisk : Bool) (dev : Dev) (Q P : Nat → Prop) (g : Nat → BitVec 8) (s : Sys) : Prop where
  ready : Ready ramdisk s
  few : Few 2 s.cache
  spared : ∀ p, Q p → Spared s dev (blockOf p) (p % 1024)
  settled : ∀ p, P p → Settled s.cache dev (blockOf p)
  bytes : ∀ p, P p → Q p → logical s.cache dev (blockOf p) (p % 1024) = g p

variable {Q P : Nat → Prop} {g : Nat → BitVec 8}

theorem Has.next (D : Has ramdisk dev Q P g s) (T : Steady ramdisk s s') (hrefs : Refs s.cache s'.cache) :
    Has ramdisk dev Q P g s' where
  ready := T.ready
  few := hrefs.few D.few
  spared := fun p hp => T.spared (D.spared p hp)
  settled := fun p hp => T.settled _ _ (D.settled p hp)
  bytes := fun p hp hq =>
    (T.bytes _ _ _ (D.settled p hp) (D.spared p hq)).trans (D.bytes p hp hq)

/-- The positions of a chunk are in one block. -/
theorem position_add {pos i : Nat} (h : i < 1024 - pos % 1024) :
    blockOf (pos + i) = blockOf pos ∧ (pos + i) % 1024 = pos % 1024 + i := by
  have hdiv : (pos + i) / 1024 = pos / 1024 := by omega
  exact ⟨by rw [blockOf, blockOf, hdiv], by omega⟩

/-- What `breada` brings at a position of its block. -/
theorem Has.data (D : Has ramdisk dev Q P g s) {data : Data}
    (hdata : ∀ off, Spared s dev (blockOf pos) off → data off = reread s.cache dev (blockOf pos) off)
    {i : Nat} (hi : i < 1024 - pos % 1024) (hp : P (pos + i)) (hq : Q (pos + i)) :
    data (pos % 1024 + i) = g (pos + i) := by
  obtain ⟨hblock, hoff⟩ := position_add hi
  have hs := D.spared _ hq
  rw [← D.bytes _ hp hq, ← D.settled _ hp]
  rw [hblock, hoff] at hs ⊢
  exact hdata _ hs

/-! ## `block_read` -/

theorem blockRead_spec (hsync : Lasting ramdisk sync) (hgives : GivesBack sync)
    (hd : hasDriver ramdisk dev = true) {n pos count pos' : Nat} {buf buf' : List (BitVec 8)} {r : Int}
    (D : Has ramdisk dev Q P g s)
    (h : blockRead ramdisk sync fuel dev n pos count buf s = some (r, pos', buf', s')) :
    (Steady ramdisk s s' ∧ Refs s.cache s'.cache) ∧ r = buf'.length ∧ pos' = pos + count ∧
      ∃ got, buf' = buf ++ got ∧ got.length = count ∧ ∀ i < count, P (pos + i) → Q (pos + i) → got.getD i 0 = g (pos + i) := by
  induction n generalizing pos count buf s with
  | zero => cases h
  | succ n ih =>
    unfold blockRead at h
    split at h
    · next h0 =>
      cases h
      exact ⟨⟨.refl D.ready, .refl _⟩, rfl, by omega, [], (List.append_nil _).symm, h0.symm,
        fun i hi => by omega⟩
    · next hpos =>
      dsimp only at h
      obtain ⟨⟨found, u⟩, hu, h⟩ := Option.bind_eq_some_iff.mp h
      obtain ⟨bh, rfl, B, -, hdata⟩ := breada_spec hsync hgives D.ready D.few hd hu
      obtain ⟨v, hv, h⟩ := Option.bind_eq_some_iff.mp h
      have hf : Few 1 s.cache := fun q => by have := D.few q; omega
      have T := B.steady.trans (brelse_steady B.steady.ready hv)
      have hrefs := brelse_refs hf B.got hv
      obtain ⟨⟨T', hrefs'⟩, hr, hpos', got, hbuf, hlen, hgot⟩ := ih (D.next T hrefs) h
      have hchars : min (1024 - pos % 1024) count ≤ count := Nat.min_le_right _ _
      have hblock : min (1024 - pos % 1024) count ≤ 1024 - pos % 1024 := Nat.min_le_left _ _
      generalize min (1024 - pos % 1024) count = chars at hchars hblock hpos' hlen hgot hbuf
      have hmap : ((List.range chars).map fun i => (u.cache.head bh).data (pos % 1024 + i)).length =
          chars := by rw [List.length_map, List.length_range]
      refine ⟨⟨T.trans T', hrefs.trans hrefs'⟩, hr, by omega, _, hbuf.trans (List.append_assoc _ _ _),
        ?_, fun i hi hp hq => ?_⟩
      · rw [List.length_append, hmap, hlen]
        omega
      · by_cases hic : i < chars
        · rw [List.getD_append _ _ _ _ (by rw [hmap]; exact hic),
            List.getD_eq_getElem _ _ (by rw [hmap]; exact hic), List.getElem_map, List.getElem_range]
          exact D.data hdata (by omega) hp hq
        · have hrest := hgot (i - chars) (by omega)
          rw [show pos + chars + (i - chars) = pos + i by omega] at hrest
          rw [List.getD_append_right _ _ _ _ (by rw [hmap]; omega), hmap]
          exact hrest hp hq

/-! ## `block_write` -/

/-- The buffer for a chunk, as `block_write` gets it. -/
def bringChunk (ramdisk : Bool) (syncDev : Dev → Sys → Option Sys) (fuel : Nat) (dev : Dev) (pos : Nat)
    (chunk : List (BitVec 8)) (s : Sys) : Option (Option Nat × Sys) :=
  if chunk.length = 1024 then
    (getblk syncDev fuel dev (blockOf pos) s).map fun (bh, s) => (some bh, s)
  else breada ramdisk syncDev fuel dev (blockOf pos) [blockOf pos + 1, blockOf pos + 2] s

/-- The chunk is stored in its buffer, and the buffer is released. -/
def storeChunk (pos : Nat) (chunk : List (BitVec 8)) (bh : Nat) (s : Sys) : Option Sys :=
  brelse bh { s with cache := s.cache.store bh (overlay (pos % 1024) chunk) }

/-- A chunk that does not end the bytes ends its block. -/
theorem blockOf_next {bytes : List (BitVec 8)}
    (h : bytes.drop (bytes.take (1024 - pos % 1024)).length ≠ []) :
    blockOf pos + 1 = blockOf (pos + (bytes.take (1024 - pos % 1024)).length) := by
  have hlong : 1024 - pos % 1024 < bytes.length := by
    by_contra hle
    apply h
    rw [List.take_of_length_le (Nat.le_of_not_lt hle), List.drop_length]
  have hdiv : (pos + (1024 - pos % 1024)) / 1024 = pos / 1024 + 1 := by omega
  rw [List.length_take, Nat.min_eq_left hlong.le]
  simp only [blockOf, hdiv, BitVec.ofNat_add]
  rfl

/-- The block does not matter when nothing is left. -/
theorem blockWriteFrom_nil (n written : Nat) (block block' : Block) :
    blockWriteFrom ramdisk sync fuel dev n block pos [] written s =
      blockWriteFrom ramdisk sync fuel dev n block' pos [] written s := by
  cases n with
  | zero => rfl
  | succ n => rfl

/-- A round, when the first block is that of the position. -/
theorem blockWriteFrom_succ {n written : Nat} {bytes : List (BitVec 8)} (hb : bytes ≠ []) :
    blockWriteFrom ramdisk sync fuel dev (n + 1) (blockOf pos) pos bytes written s =
      (bringChunk ramdisk sync fuel dev pos (bytes.take (1024 - pos % 1024)) s).bind fun (found, s) =>
        match found with
        | none => some ((if written = 0 then -5 else written : Int), pos, s)
        | some bh => (storeChunk pos (bytes.take (1024 - pos % 1024)) bh s).bind
            (blockWriteFrom ramdisk sync fuel dev n
              (blockOf (pos + (bytes.take (1024 - pos % 1024)).length))
              (pos + (bytes.take (1024 - pos % 1024)).length)
              (bytes.drop (bytes.take (1024 - pos % 1024)).length)
              (written + (bytes.take (1024 - pos % 1024)).length)) := by
  have hnext : ∀ written, blockWriteFrom ramdisk sync fuel dev n (blockOf pos + 1)
      (pos + (bytes.take (1024 - pos % 1024)).length)
      (bytes.drop (bytes.take (1024 - pos % 1024)).length) written =
      blockWriteFrom ramdisk sync fuel dev n (blockOf (pos + (bytes.take (1024 - pos % 1024)).length))
        (pos + (bytes.take (1024 - pos % 1024)).length)
        (bytes.drop (bytes.take (1024 - pos % 1024)).length) written := by
    intro written
    by_cases hrest : bytes.drop (bytes.take (1024 - pos % 1024)).length = []
    · rw [hrest]
      exact funext fun v => blockWriteFrom_nil _ _ _ _
    · rw [blockOf_next hrest]
  conv_lhs => unfold blockWriteFrom
  rw [if_neg hb]
  refine congrArg (Option.bind _) (funext fun r => ?_)
  obtain ⟨found, u⟩ := r
  cases found with
  | none => rfl
  | some bh => exact congrArg (Option.bind _) (hnext _)

/-- Below 2 GB the signed shift gives the block of the position. -/
theorem sshiftRight_blockOf (h : pos < 2 ^ 31) : (BitVec.ofNat 32 pos).sshiftRight 10 = blockOf pos := by
  have hn : (BitVec.ofNat 32 pos).toNat = pos := by
    rw [BitVec.toNat_ofNat]
    omega
  rw [BitVec.sshiftRight_eq_of_msb_false (by
    rw [BitVec.msb_eq_false_iff_two_mul_lt, hn]
    omega)]
  apply BitVec.eq_of_toNat_eq
  rw [BitVec.toNat_ushiftRight, hn, Nat.shiftRight_eq_div_pow, blockOf, BitVec.toNat_ofNat]
  omega

/-- Below 2 GB `block_write` starts at the block of the position. -/
theorem blockWrite_eq {n written : Nat} {bytes : List (BitVec 8)} (h : pos + bytes.length ≤ 2 ^ 31) :
    blockWrite ramdisk sync fuel dev n pos bytes written s =
      blockWriteFrom ramdisk sync fuel dev n (blockOf pos) pos bytes written s := by
  unfold blockWrite
  by_cases hb : bytes = []
  · subst hb
    exact blockWriteFrom_nil _ _ _ _
  · have hlen := List.length_pos_iff.mpr hb
    rw [sshiftRight_blockOf (by omega)]

/-- A round of `block_write`. -/
def writeRound (ramdisk : Bool) (syncDev : Dev → Sys → Option Sys) (fuel : Nat) (dev : Dev) (pos : Nat)
    (chunk : List (BitVec 8)) (s : Sys) : Option Sys :=
  (bringChunk ramdisk syncDev fuel dev pos chunk s).bind fun (found, s) =>
    found.bind fun bh => storeChunk pos chunk bh s

/-- The block is in a buffer that is up to date, or is being read. -/
def Present (c : Cache) (dev : Dev) (block : Block) : Prop :=
  ∃ bh ∈ findBuffer c dev block, Loaded c bh

instance (c : Cache) (bh : Nat) : Decidable (Loaded c bh) := inferInstanceAs (Decidable (_ ∨ _))

instance (c : Cache) (dev : Dev) (block : Block) : Decidable (Present c dev block) :=
  inferInstanceAs (Decidable (∃ bh ∈ findBuffer c dev block, Loaded c bh))

/-- In every round of `block_write` that stores a whole block, the block is present. -/
def Backed (ramdisk : Bool) (syncDev : Dev → Sys → Option Sys) (fuel : Nat) (dev : Dev) :
    Nat → Nat → List (BitVec 8) → Sys → Prop
  | 0, _, _, _ => True
  | n + 1, pos, bytes, s => bytes ≠ [] →
    let chunk := bytes.take (1024 - pos % 1024)
    (chunk.length = 1024 → Present s.cache dev (blockOf pos)) ∧
      ∀ s' ∈ writeRound ramdisk syncDev fuel dev pos chunk s,
        Backed ramdisk syncDev fuel dev n (pos + chunk.length) (bytes.drop chunk.length) s'

instance decidableBacked (ramdisk : Bool) (syncDev : Dev → Sys → Option Sys) (fuel : Nat) (dev : Dev) :
    ∀ n pos bytes s, Decidable (Backed ramdisk syncDev fuel dev n pos bytes s)
  | 0, _, _, _ => isTrue trivial
  | n + 1, _, bytes, _ =>
    have := decidableBacked ramdisk syncDev fuel dev n
    inferInstanceAs (Decidable (bytes ≠ [] → _))

/-- A block that is present is up to date when it is found. -/
theorem getblk_present (R : Ready ramdisk s) (hf : Few 1 s.cache) (h0 : dev ≠ 0)
    (hp : Present s.cache dev block) (h : getblk sync fuel dev block s = some (bh, s')) :
    Loaded s'.cache bh := by
  obtain ⟨q, hq, hload⟩ := hp
  exact (getblk_found R hf h0 hq h).2 hload

/-- The buffer for a chunk is up to date, if a whole block is present. -/
theorem bringChunk_spec (hsync : Lasting ramdisk sync) (hgives : GivesBack sync) (R : Ready ramdisk s)
    (hf : Few 2 s.cache) (hd : hasDriver ramdisk dev = true) {chunk : List (BitVec 8)}
    (hp : chunk.length = 1024 → Present s.cache dev (blockOf pos)) {found : Option Nat}
    (h : bringChunk ramdisk sync fuel dev pos chunk s = some (found, u)) :
    ∃ bh, found = some bh ∧ Brought ramdisk s u dev (blockOf pos) bh ∧
      (u.cache.head bh).uptodate = true := by
  unfold bringChunk at h
  split at h
  · next hlen =>
    obtain ⟨⟨bh, v⟩, hv, hres⟩ := Option.map_eq_some_iff.mp h
    cases hres
    have hf' : Few 1 s.cache := fun q => by have := hf q; omega
    have h0 := hasDriver_ne_zero hd
    obtain ⟨T, his, hlock⟩ := getblk_steady hsync R h0 hv
    exact ⟨bh, rfl, ⟨T, getblk_got hgives hf' hv, his, hlock⟩,
      (getblk_present R hf' h0 (hp hlen) hv).uptodate hlock⟩
  · obtain ⟨bh, hbh, B, hup, -⟩ := breada_spec hsync hgives R hf hd h
    exact ⟨bh, hbh, B, hup⟩

/-- A position of the chunk's block: what is stored there. -/
theorem overlay_block {chunk : List (BitVec 8)} {data : Data} {p : Nat}
    (hblock : p / 1024 = pos / 1024)
    (hdata : ¬ (pos ≤ p ∧ p < pos + chunk.length) → data (p % 1024) = g p) :
    overlay (pos % 1024) chunk data (p % 1024) = overlay pos chunk g p := by
  have hiff : (pos % 1024 ≤ p % 1024 ∧ p % 1024 < pos % 1024 + chunk.length) ↔
      (pos ≤ p ∧ p < pos + chunk.length) := by omega
  have hsub : p % 1024 - pos % 1024 = p - pos := by omega
  unfold overlay
  rw [hsub]
  by_cases hp : pos ≤ p ∧ p < pos + chunk.length
  · rw [if_pos hp, if_pos (hiff.mpr hp)]
  · rw [if_neg hp, if_neg (fun h => hp (hiff.mp h)), hdata hp]

theorem overlay_outside {bytes : List (BitVec 8)} {p : Nat} (h : ¬ (pos ≤ p ∧ p < pos + bytes.length)) :
    overlay pos bytes g p = g p := if_neg h

/-- The chunk is stored. -/
theorem Has.chunk (D : Has ramdisk dev Q P g s) (hd : hasDriver ramdisk dev = true)
    (hQ : ∀ p, Q p → p / 1024 < 2 ^ 32) (hpos : pos / 1024 < 2 ^ 32) {chunk : List (BitVec 8)}
    (hchunk : pos % 1024 + chunk.length ≤ 1024) (B : Brought ramdisk s u dev (blockOf pos) bh)
    (hup : (u.cache.head bh).uptodate = true) (h : storeChunk pos chunk bh u = some s') :
    Has ramdisk dev Q (fun p => P p ∨ (pos ≤ p ∧ p < pos + chunk.length)) (overlay pos chunk g) s' ∧
      (Roomy s → Roomy s') := by
  have h0 := hasDriver_ne_zero hd
  have hf : Few 1 s.cache := fun q => by have := D.few q; omega
  have T := B.steady
  have hdev : (u.cache.head bh).dev ≠ 0 := by
    rw [B.is.1]
    exact h0
  obtain ⟨S, hlog, hre⟩ := store_spec T.ready.sound hdev B.lock (f := overlay (pos % 1024) chunk)
  obtain ⟨hre, -⟩ := hre hup
  obtain ⟨hview, -⟩ := uptodate_view T.ready.sound B.is h0 hup
  rw [B.is.1, B.is.2] at hlog hre
  have Rv : Ready ramdisk { u with cache := u.cache.store bh (overlay (pos % 1024) chunk) } :=
    T.ready.of S (T.ready.driven.store (by rw [B.is.1]; exact hd) _) ⟨rfl, rfl⟩
  have hv : Steady ramdisk { u with cache := u.cache.store bh (overlay (pos % 1024) chunk) } s' :=
    brelse_steady Rv h
  -- in the block of the chunk the positions have no other names
  have hsame : ∀ p, Q p → blockOf p = blockOf pos → p / 1024 = pos / 1024 := by
    intro p hp hb
    have hnat := congrArg BitVec.toNat hb
    rw [blockOf, blockOf, BitVec.toNat_ofNat, BitVec.toNat_ofNat, Nat.mod_eq_of_lt (hQ p hp),
      Nat.mod_eq_of_lt hpos] at hnat
    exact hnat
  have hin : ∀ p, pos ≤ p ∧ p < pos + chunk.length → blockOf p = blockOf pos := by
    intro p hp
    rw [blockOf, blockOf, show p / 1024 = pos / 1024 by omega]
  have hsettled : ∀ p, P p ∨ (pos ≤ p ∧ p < pos + chunk.length) →
      Settled (u.cache.store bh (overlay (pos % 1024) chunk)) dev (blockOf p) := by
    intro p hp
    rw [Settled, hlog, hre]
    by_cases heq : blockOf p = blockOf pos
    · rw [heq, put_self, put_self]
    · have hne : ¬ (dev = dev ∧ blockOf p = blockOf pos) := fun h => heq h.2
      rw [put_other hne, put_other hne]
      exact T.settled _ _ (D.settled p (hp.resolve_right fun h => heq (hin p h)))
  have hbytes : ∀ p, P p ∨ (pos ≤ p ∧ p < pos + chunk.length) → Q p →
      logical (u.cache.store bh (overlay (pos % 1024) chunk)) dev (blockOf p) (p % 1024) =
        overlay pos chunk g p := by
    intro p hp hq
    have hbyte : P p → logical u.cache dev (blockOf p) (p % 1024) = g p := fun hp =>
      (T.bytes _ _ _ (D.settled p hp) (D.spared p hq)).trans (D.bytes p hp hq)
    rw [hlog]
    by_cases heq : blockOf p = blockOf pos
    · rw [heq, put_self]
      refine overlay_block (hsame p hq heq) fun hout => ?_
      rw [← hview, ← heq]
      exact hbyte (hp.resolve_right hout)
    · have hout : ¬ (pos ≤ p ∧ p < pos + chunk.length) := fun h => heq (hin p h)
      rw [put_other fun h => heq h.2, overlay_outside hout]
      exact hbyte (hp.resolve_right hout)
  have hspared : ∀ p, Q p → Spared { u with cache := u.cache.store bh (overlay (pos % 1024) chunk) } dev
      (blockOf p) (p % 1024) := fun p hp => T.spared (D.spared p hp)
  have hin : InodesStored u s' := hv.inode
  have hrefs := brelse_refs hf (B.got.refs (store_refs _ _ _)) h
  exact ⟨⟨hv.ready, hrefs.few D.few, fun p hp => hv.spared (hspared p hp),
    fun p hp => hv.settled _ _ (hsettled p hp),
    fun p hp hq => (hv.bytes _ _ _ (hsettled p hp) (hspared p hq)).trans (hbytes p hp hq)⟩,
    fun W => W.next (T.inode.trans hin) hrefs⟩

/-- Chunk after chunk. -/
theorem overlay_append (chunk rest : List (BitVec 8)) :
    overlay (pos + chunk.length) rest (overlay pos chunk g) = overlay pos (chunk ++ rest) g := by
  funext p
  unfold overlay
  rw [List.length_append]
  by_cases hlow : p < pos + chunk.length
  · rw [if_neg (by omega)]
    by_cases hp : pos ≤ p
    · rw [if_pos ⟨hp, hlow⟩, if_pos ⟨hp, by omega⟩, List.getD_append _ _ _ _ (by omega)]
    · rw [if_neg fun h => hp h.1, if_neg fun h => hp h.1]
  · by_cases hp : p < pos + chunk.length + rest.length
    · rw [if_pos ⟨by omega, hp⟩, if_pos ⟨by omega, by omega⟩, List.getD_append_right _ _ _ _ (by omega),
        Nat.sub_add_eq]
    · rw [if_neg fun h => hp h.2, if_neg fun h => hlow h.2, if_neg (by omega)]

theorem Has.mono {P' : Nat → Prop} {g' : Nat → BitVec 8} (D : Has ramdisk dev Q P g s)
    (hP : ∀ p, P' p → P p) (hg : ∀ p, P' p → Q p → g p = g' p) : Has ramdisk dev Q P' g' s :=
  ⟨D.ready, D.few, D.spared, fun p hp => D.settled p (hP p hp),
    fun p hp hq => (D.bytes p (hP p hp) hq).trans (hg p hp hq)⟩

/-- The loop of `block_write` stores the bytes, if every whole block is present. -/
theorem blockWriteFrom_spec (hsync : Lasting ramdisk sync) (hgives : GivesBack sync)
    (hd : hasDriver ramdisk dev = true) (hQ : ∀ p, Q p → p / 1024 < 2 ^ 32) {n written pos' : Nat}
    {bytes : List (BitVec 8)} {r : Int} (D : Has ramdisk dev Q P g s)
    (hpos : (pos + bytes.length) / 1024 < 2 ^ 32)
    (hbacked : Backed ramdisk sync fuel dev n pos bytes s)
    (h : blockWriteFrom ramdisk sync fuel dev n (blockOf pos) pos bytes written s = some (r, pos', s')) :
    r = (written + bytes.length : Nat) ∧ pos' = pos + bytes.length ∧
      Has ramdisk dev Q (fun p => P p ∨ (pos ≤ p ∧ p < pos + bytes.length)) (overlay pos bytes g) s' ∧
      (Roomy s → Roomy s') := by
  induction n generalizing pos bytes written s P g with
  | zero => cases h
  | succ n ih =>
    by_cases hb : bytes = []
    · subst hb
      have hnone : ∀ p, ¬ (pos ≤ p ∧ p < pos + ([] : List (BitVec 8)).length) := fun p hp => by
        rw [List.length_nil] at hp
        omega
      unfold blockWriteFrom at h
      rw [if_pos rfl] at h
      cases h
      exact ⟨rfl, rfl, D.mono (fun p hp => hp.resolve_right (hnone p)) fun p _ _ =>
        (overlay_outside (hnone p)).symm, id⟩
    · rw [blockWriteFrom_succ hb] at h
      obtain ⟨⟨found, u⟩, hu, h⟩ := Option.bind_eq_some_iff.mp h
      obtain ⟨hp, hnext⟩ := hbacked hb
      have hsplit : bytes.take (1024 - pos % 1024) ++
          bytes.drop (bytes.take (1024 - pos % 1024)).length = bytes :=
        List.prefix_iff_eq_append.mp (List.take_prefix _ _)
      have hchunk : (bytes.take (1024 - pos % 1024)).length ≤ 1024 - pos % 1024 := List.length_take_le _ _
      generalize bytes.take (1024 - pos % 1024) = chunk at *
      obtain ⟨bh, rfl, B, hup⟩ := bringChunk_spec hsync hgives D.ready D.few hd hp hu
      obtain ⟨v, hv, h⟩ := Option.bind_eq_some_iff.mp h
      have hlen : chunk.length + (bytes.drop chunk.length).length = bytes.length := by
        rw [← List.length_append, hsplit]
      obtain ⟨Dv, hroom⟩ := D.chunk hd hQ (by omega) (by omega) B hup hv
      obtain ⟨hr, hpos', D', hroom'⟩ := ih Dv (by omega) (hnext v (by rw [writeRound, hu]; exact hv)) h
      rw [overlay_append, hsplit] at D'
      refine ⟨by rw [hr]; congr 1; omega, by omega, D'.mono (fun p hp => ?_) fun _ _ _ => rfl,
        fun W => hroom' (hroom W)⟩
      rcases hp with hp | hp
      · exact Or.inl (Or.inl hp)
      · by_cases hlow : p < pos + chunk.length
        · exact Or.inl (Or.inr ⟨hp.1, hlow⟩)
        · exact Or.inr ⟨by omega, by omega⟩

end Linux011.Sync
