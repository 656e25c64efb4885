import Linux011.Lib.Machine
import Linux011.Sync.Returns

/-!
# A block device is read as it was written

`block_write` and `block_read` against an array of bytes: what is stored is read back, and the other
bytes are as before, whatever is evicted and written back in between. This is so if each whole block that
`block_write` stores is in a buffer that is up to date. Otherwise `block_write` leaves a buffer that is
dirty and not up to date, and `bread` reads the old block over it.
-/

namespace Linux011.Sync

open Buffer
open Lib (Reach)

variable {ramdisk : Bool} {s s' s₁ s₂ : Sys} {depth fuel pos : Nat} {dev : Dev} {block : Block}
  {Q P : Nat → Prop} {g : Nat → BitVec 8}

/-! ## What happens between two calls -/

/-- `getblk` takes a buffer away from another block. -/
inductive Event
  | interrupt
  | getblk (dev : Dev) (block : Block)
  | read (dev : Dev) (pos count : Nat)
  | syncDev (dev : Dev)
  | sync

/-- The device exists. -/
def Event.Real (ramdisk : Bool) : Event → Prop
  | .getblk dev _ => hasDriver ramdisk dev = true
  | .read dev _ _ => hasDriver ramdisk dev = true
  | _ => True

def step (ramdisk : Bool) (depth fuel : Nat) (s : Sys) : Event → Option Sys
  | .interrupt => some s.interrupt
  | .getblk dev block =>
    (getblk (syncDev ramdisk depth) fuel dev block s).bind fun (bh, s) => brelse bh s
  | .read dev pos count =>
    (blockRead ramdisk (syncDev ramdisk depth) fuel dev fuel pos count [] s).map fun r => r.2.2.2
  | .syncDev dev => syncDev ramdisk depth dev s
  | .sync => sysSync ramdisk depth s

theorem step_steady {e : Event} (R : Ready ramdisk s) (hf : Few 2 s.cache) (he : e.Real ramdisk)
    (h : step ramdisk depth fuel s e = some s') : Steady ramdisk s s' ∧ Refs s.cache s'.cache := by
  have hf' : Few 1 s.cache := fun q => by have := hf q; omega
  cases e with
  | interrupt =>
    cases h
    exact ⟨interrupt_steady R, interrupt_refs s⟩
  | getblk dev block =>
    obtain ⟨⟨bh, u⟩, hu, h⟩ := Option.bind_eq_some_iff.mp h
    obtain ⟨T, -, -⟩ := getblk_steady (syncDev_steady depth) R (hasDriver_ne_zero he) hu
    exact ⟨T.trans (brelse_steady T.ready h), brelse_refs hf' (getblk_got (syncDev_refs depth) hf' hu) h⟩
  | read dev pos count =>
    obtain ⟨⟨r, pos', buf, u⟩, hu, hres⟩ := Option.map_eq_some_iff.mp h
    cases hres
    have D : Has ramdisk dev (fun _ => False) (fun _ => False) (fun _ => 0) s :=
      ⟨R, hf, nofun, nofun, nofun⟩
    exact (blockRead_spec (syncDev_steady depth) (syncDev_refs depth) he D hu).1
  | syncDev dev => exact ⟨syncDev_steady depth dev s s' R h, syncDev_refs depth dev s s' hf' h⟩
  | sync => exact ⟨sysSync_steady R h, sysSync_refs hf' h⟩

/-- Nothing of this changes what the device has. -/
theorem reach_has (D : Has ramdisk dev Q P g s₁)
    (hrun : Reach (step ramdisk depth fuel) (fun _ e => e.Real ramdisk) (· = s₁) s₂) :
    Has ramdisk dev Q P g s₂ ∧ s₂.cache.nr = s₁.cache.nr ∧ (Roomy s₁ → Roomy s₂) := by
  refine Reach.invariant (I := fun s => Has ramdisk dev Q P g s ∧ s.cache.nr = s₁.cache.nr ∧
    (Roomy s₁ → Roomy s)) (fun s hs => ?_) (fun s e s' hI he h => ?_) hrun
  · rw [hs]
    exact ⟨D, rfl, id⟩
  · obtain ⟨D, hnr, hroom⟩ := hI
    obtain ⟨T, hrefs⟩ := step_steady D.ready D.few he h
    exact ⟨D.next T hrefs, T.nr.trans hnr, fun W => (hroom W).next T.inode hrefs⟩

/-! ## Read after write -/

/-- No inode is waiting to be stored at the position. -/
def Free (s : Sys) (dev : Dev) (p : Nat) : Prop :=
  p / 1024 < 2 ^ 32 ∧ Spared s dev (blockOf p) (p % 1024)

/-- And its block is in no buffer that is dirty and not up to date. -/
def Fresh (s : Sys) (dev : Dev) (p : Nat) : Prop :=
  Free s dev p ∧ ∀ bh, (s.cache.head bh).Is dev (blockOf p) → ¬ Stale s.cache bh

/-- `block_read` brings the bytes that are asked for, at the positions `P` those of `g`. -/
def Delivers (ramdisk : Bool) (depth fuel : Nat) (dev : Dev) (s : Sys) (P : Nat → Prop)
    (g : Nat → BitVec 8) : Prop :=
  ∀ n pos count r pos' buf s',
    blockRead ramdisk (syncDev ramdisk depth) fuel dev n pos count [] s = some (r, pos', buf, s') →
      r = count ∧ pos' = pos + count ∧ buf.length = count ∧
        ∀ i < count, P (pos + i) → buf.getD i 0 = g (pos + i)

theorem Has.delivers (D : Has ramdisk dev Q P g s) (hd : hasDriver ramdisk dev = true) :
    Delivers ramdisk depth fuel dev s (fun p => P p ∧ Q p) g := by
  intro n pos count r pos' buf s' h
  obtain ⟨-, hr, hpos, got, hbuf, hlen, hgot⟩ := blockRead_spec (syncDev_steady depth)
    (syncDev_refs depth) hd D h
  obtain rfl : buf = got := hbuf
  exact ⟨by rw [hr, hlen], hpos, hlen, fun i hi hp => hgot i hi hp.1 hp.2⟩

theorem Delivers.mono {P' : Nat → Prop} (h : Delivers ramdisk depth fuel dev s P g)
    (hP : ∀ p, P' p → P p) : Delivers ramdisk depth fuel dev s P' g := by
  intro n pos count r pos' buf s' hread
  obtain ⟨hr, hpos, hlen, hbuf⟩ := h n pos count r pos' buf s' hread
  exact ⟨hr, hpos, hlen, fun i hi hp => hbuf i hi (hP _ hp)⟩

theorem overlay_inside {bytes : List (BitVec 8)} {i : Nat} (hi : i < bytes.length) :
    overlay pos bytes g (pos + i) = bytes.getD i 0 := by
  unfold overlay
  rw [if_pos ⟨Nat.le_add_right _ _, Nat.add_lt_add_left hi pos⟩, Nat.add_sub_cancel_left]

/-- What the device has. -/
theorem has_contents (R : Ready ramdisk s) (hf : Few 2 s.cache) :
    Has ramdisk dev (Free s dev) (Fresh s dev)
      (fun p => logical s.cache dev (blockOf p) (p % 1024)) s where
  ready := R
  few := hf
  spared := fun _ hp => hp.2
  settled := fun p hp => by
    rcases reread_cases R.sound dev (blockOf p) with h | ⟨bh, hs, his, -⟩
    · exact h
    · exact absurd hs (hp.2 bh his)
  bytes := fun _ _ _ => rfl

/-- A whole block in a buffer that is not up to date: `block_read` brings the one that the disk has. -/
theorem stale_read (R : Ready ramdisk s) (hf : Few 2 s.cache) (hd : hasDriver ramdisk dev = true)
    {n pos' bh : Nat} {chunk buf : List (BitVec 8)} {u v : Sys} {r : Int} (hpos : pos % 1024 = 0)
    (hget : getblk (syncDev ramdisk depth) fuel dev (blockOf pos) s = some (bh, u))
    (hup : (u.cache.head bh).uptodate = false) (hstore : storeChunk pos chunk bh u = some v)
    (hread : blockRead ramdisk (syncDev ramdisk depth) fuel dev n pos 1024 [] v = some (r, pos', buf, s'))
    {i : Nat} (hi : i < 1024) (hfree : Free s dev (pos + i)) :
    buf.getD i 0 = u.cache.disk dev (blockOf pos) i := by
  have h0 := hasDriver_ne_zero hd
  have hf' : Few 1 s.cache := fun q => by have := hf q; omega
  obtain ⟨T, his, hlock⟩ := getblk_steady (syncDev_steady depth) R h0 hget
  have G := getblk_got (syncDev_refs depth) hf' hget
  have hdev : hasDriver ramdisk (u.cache.head bh).dev = true := by
    rw [his.1]
    exact hd
  obtain ⟨S, -⟩ := store_spec T.ready.sound (hasDriver_ne_zero hdev) hlock (f := overlay (pos % 1024) chunk)
  have K := Keeps.store u.cache bh (overlay (pos % 1024) chunk)
  have hs : Stale (u.cache.store bh (overlay (pos % 1024) chunk)) bh := by
    rw [Stale, Cache.store, modify_head]
    exact ⟨rfl, hup, (T.ready.sound.idle hlock).not_writing⟩
  obtain ⟨-, hre⟩ := stale_views S ⟨(K.dev bh).trans his.1, (K.blocknr bh).trans his.2⟩ h0 hs
  have Rstore : Ready ramdisk { u with cache := u.cache.store bh (overlay (pos % 1024) chunk) } :=
    T.ready.of S (T.ready.driven.store hdev _) ⟨rfl, rfl⟩
  have Tv := brelse_steady Rstore hstore
  have hfv := (brelse_refs hf' (G.refs (store_refs _ _ _)) hstore).few hf
  obtain ⟨hblock, hoff⟩ := position_add (show i < 1024 - pos % 1024 by omega)
  have hspared := Tv.spared (T.spared hfree.2)
  rw [hblock, hoff, hpos, Nat.zero_add] at hspared
  cases n with
  | zero => cases hread
  | succ n =>
    rw [blockRead, if_neg (by decide), hpos] at hread
    obtain ⟨⟨found, x⟩, hx, hread⟩ := Option.bind_eq_some_iff.mp hread
    obtain ⟨q, rfl, -, -, hdata⟩ :=
      breada_spec (syncDev_steady depth) (syncDev_refs depth) Tv.ready hfv hd hx
    obtain ⟨y, -, hread⟩ := Option.bind_eq_some_iff.mp hread
    cases n with
    | zero => cases hread
    | succ n =>
      rw [blockRead, if_pos (by decide), Option.some_inj, Prod.mk.injEq, Prod.mk.injEq, Prod.mk.injEq] at hread
      rw [← hread.2.2.1, List.nil_append, List.getD_eq_getElem _ _ (by simpa using hi), List.getElem_map,
        List.getElem_range, Nat.zero_add, hdata _ hspared, (brelse_spec S hstore).reread]
      exact congrFun hre i

/-- What `block_write` has stored is read back, and the other bytes are as they were; but a whole block in
a buffer that is not up to date is lost, if it is read at once. -/
theorem block_read_after_write (R : Ready ramdisk s) (hf : Few 2 s.cache)
    (hd : hasDriver ramdisk dev = true) :
    (∀ {n pos pos' : Nat} {bytes : List (BitVec 8)} {r : Int} {s₁ s₂}, pos + bytes.length ≤ 2 ^ 31 →
      Backed ramdisk (syncDev ramdisk depth) fuel dev n pos bytes s →
      blockWrite ramdisk (syncDev ramdisk depth) fuel dev n pos bytes 0 s = some (r, pos', s₁) →
      Reach (step ramdisk depth fuel) (fun _ e => e.Real ramdisk) (· = s₁) s₂ →
      (r = bytes.length ∧ pos' = pos + bytes.length) ∧
      (∃ g, Delivers ramdisk depth fuel dev s (Fresh s dev) g ∧
        Delivers ramdisk depth fuel dev s₂
          (fun p => Fresh s dev p ∨ Free s dev p ∧ pos ≤ p ∧ p < pos + bytes.length)
          (overlay pos bytes g)) ∧
      ((∀ i < bytes.length, Free s dev (pos + i)) → ∀ n r pos' buf s',
        blockRead ramdisk (syncDev ramdisk depth) fuel dev n pos bytes.length [] s₂ =
          some (r, pos', buf, s') → r = bytes.length ∧ pos' = pos + bytes.length ∧ buf = bytes) ∧
      (Roomy s → 0 < depth → 3 ≤ fuel → ∀ n pos count, rounds pos count < n →
        Fed ((30 * s₂.cache.nr + 28) * rounds pos count) s₂ →
        ∃ res, blockRead ramdisk (syncDev ramdisk depth) fuel dev n pos count [] s₂ = some res)) ∧
    ∀ {n pos pos' bh : Nat} {chunk buf : List (BitVec 8)} {u v s' : Sys} {r : Int}, pos % 1024 = 0 →
      getblk (syncDev ramdisk depth) fuel dev (blockOf pos) s = some (bh, u) →
      (u.cache.head bh).uptodate = false → storeChunk pos chunk bh u = some v →
      blockRead ramdisk (syncDev ramdisk depth) fuel dev n pos 1024 [] v = some (r, pos', buf, s') →
      ∀ i < 1024, Free s dev (pos + i) → buf.getD i 0 = u.cache.disk dev (blockOf pos) i := by
  refine ⟨fun {n pos pos' bytes r s₁ s₂} hpos hbacked hwrite hrun => ?_, fun hpos hget hup hstore hread i hi =>
    stale_read R hf hd hpos hget hup hstore hread hi⟩
  have D : Has ramdisk dev (Free s dev) (Fresh s dev)
      (fun p => logical s.cache dev (blockOf p) (p % 1024)) s := has_contents R hf
  rw [blockWrite_eq hpos] at hwrite
  obtain ⟨hr, hpos', D₁, hroom⟩ := blockWriteFrom_spec (syncDev_steady depth) (syncDev_refs depth) hd
    (fun p hp => hp.1) D (by omega) hbacked hwrite
  obtain ⟨D₂, -, hroom₂⟩ := reach_has D₁ hrun
  have hdel : Delivers ramdisk depth fuel dev s₂
      (fun p => Fresh s dev p ∨ Free s dev p ∧ pos ≤ p ∧ p < pos + bytes.length)
      (overlay pos bytes fun p => logical s.cache dev (blockOf p) (p % 1024)) :=
    (D₂.delivers hd).mono fun p hp => hp.elim (fun hp => ⟨Or.inl hp, hp.1⟩) fun hp => ⟨Or.inr hp.2, hp.1⟩
  refine ⟨⟨by rw [hr, Nat.zero_add], hpos'⟩, ⟨_, ?_, hdel⟩, fun hfree n r pos' buf s' h => ?_,
    fun W hdepth hfuel n pos count hn F => ?_⟩
  · exact (D.delivers hd).mono fun p hp => ⟨hp, hp.1⟩
  · obtain ⟨hr, hpos', hlen, hbuf⟩ := hdel _ _ _ _ _ _ _ h
    refine ⟨hr, hpos', List.ext_getElem hlen fun i hi hi' => ?_⟩
    have hbyte := hbuf i hi' (Or.inr ⟨hfree i hi', by omega, by omega⟩)
    rw [overlay_inside hi'] at hbyte
    rw [← List.getD_eq_getElem _ 0 hi, hbyte, List.getD_eq_getElem _ 0 hi']
  · obtain ⟨depth, rfl⟩ := Nat.exists_eq_succ_of_ne_zero (Nat.pos_iff_ne_zero.mp hdepth)
    obtain ⟨fuel, rfl⟩ := Nat.exists_eq_add_of_le hfuel
    rw [Nat.add_comm]
    exact blockRead_returns depth fuel hd D₂.ready (hroom₂ (hroom W)) hn F

/-! ## Runs -/

/-- Four buffers, and disks with the byte 9 all over. -/
def fourBuffers : Sys where
  cache := bufferInit 4 fun _ _ _ => 9
  inode := fun _ => ⟨0, 0, false, false, false, fun _ => 0⟩
  super := fun _ => none
  irq := List.replicate 60 [31, 30, 29, 20, 19, 18]

theorem fourBuffers_ready : Ready false fourBuffers :=
  ⟨bufferInit_sound 4 fun _ _ _ => 9, fun _ h => (nomatch h), fun _ _ h => (nomatch h),
    fun _ _ h => (nomatch h)⟩

theorem fourBuffers_few : Few 2 fourBuffers.cache := fun _ => show 0 + 2 < 256 by decide

theorem fourBuffers_free (p : Nat) (hp : p < 2 ^ 32) : Free fourBuffers dev p :=
  ⟨by omega, fun _ _ h => (nomatch h)⟩

/-- The end of a block, a whole one and the beginning of the next. -/
def threeChunks : List (BitVec 8) := List.replicate 1026 1

/-- The first chunk has `breada` read the whole block, too. -/
theorem block_read_after_write_threeChunks :
    ∃ s₁ s₂, blockWrite false (syncDev false 2) 3 0x301 4 1023 threeChunks 0 fourBuffers =
        some (1026, 2049, s₁) ∧ sysSync false 2 s₁ = some s₂ ∧
      ∀ n r pos' buf s', blockRead false (syncDev false 2) 3 0x301 n 1023 1026 [] s₂ =
        some (r, pos', buf, s') → r = 1026 ∧ pos' = 2049 ∧ buf = threeChunks := by
  have hsome : ((blockWrite false (syncDev false 2) 3 0x301 4 1023 threeChunks 0 fourBuffers).bind
      fun r => sysSync false 2 r.2.2).isSome = true := by decide +kernel
  obtain ⟨s₂, hs₂⟩ := Option.isSome_iff_exists.mp hsome
  obtain ⟨⟨r, pos', s₁⟩, hwrite, hsync⟩ := Option.bind_eq_some_iff.mp hs₂
  have hlen : threeChunks.length = 1026 := List.length_replicate
  have hbacked : Backed false (syncDev false 2) 3 0x301 4 1023 threeChunks fourBuffers := by
    decide +kernel
  obtain ⟨⟨hr, hpos'⟩, -, hread, -⟩ := (block_read_after_write fourBuffers_ready fourBuffers_few rfl).1
    (by rw [hlen]; decide) hbacked hwrite (.next .sync (.start rfl) trivial hsync)
  rw [hlen] at hr hpos' hread
  rw [hr, hpos'] at hwrite
  refine ⟨s₁, s₂, hwrite, hsync, hread fun i hi => fourBuffers_free _ (by omega)⟩

/-- The buffer has never been up to date. -/
theorem whole_block_lost : Ready false fourBuffers ∧ ∃ s₁ s₂,
    blockWrite false (syncDev false 2) 3 0x301 4 0 (List.replicate 1024 1) 0 fourBuffers =
      some (1024, 1024, s₁) ∧
    blockRead false (syncDev false 2) 3 0x301 4 0 1024 [] s₁ =
      some (1024, 1024, List.replicate 1024 9, s₂) := by
  have hrun : ((blockWrite false (syncDev false 2) 3 0x301 4 0 (List.replicate 1024 1) 0 fourBuffers).bind
      fun w => (blockRead false (syncDev false 2) 3 0x301 4 0 1024 [] w.2.2).map fun r =>
        (w.1, w.2.1, r.1, r.2.1, r.2.2.1)) = some (1024, 1024, 1024, 1024, List.replicate 1024 9) := by
    decide +kernel
  obtain ⟨⟨r, pos', s₁⟩, hwrite, hrun⟩ := Option.bind_eq_some_iff.mp hrun
  obtain ⟨⟨r', pos'', buf, s₂⟩, hread, hrun⟩ := Option.map_eq_some_iff.mp hrun
  simp only [Prod.mk.injEq] at hrun
  obtain ⟨rfl, rfl, rfl, rfl, rfl⟩ := hrun
  exact ⟨fourBuffers_ready, s₁, s₂, hwrite, hread⟩

end Linux011.Sync
