import Linux011.Sync.Inodes

/-!
# What the cache keeps, whatever it writes back

`getblk` writes a device back when the buffer it wants is dirty, and `sync_dev` stores the dirty inodes
of the whole table on the way. The contents of a block stay through all of this, besides the bytes of
inodes that are waiting there to be stored: if `bread` brings the contents before, it does so
afterwards. Buffers that are held keep their blocks.
-/

namespace Linux011.Sync

open Buffer

variable {ramdisk : Bool} {sync : Dev → Sys → Option Sys} {s s' u : Sys} {c c' : Cache}
  {bh fuel : Nat} {dev : Dev} {block : Block}

/-! ## Contents -/

/-- No inode is waiting to be stored in the byte. -/
def Spared (s : Sys) (dev : Dev) (block : Block) (off : Nat) : Prop :=
  ∀ i < 32, s.home i = some (dev, block) → off / 32 ≠ (s.inode i).slot

/-- Inodes are stored, and nothing else happens to them. -/
def InodesStored (s s' : Sys) : Prop :=
  ∀ i, s'.inode i = s.inode i ∨ s'.inode i = { s.inode i with dirt := false }

theorem InodesStored.trans (h : InodesStored s u) (h' : InodesStored u s') : InodesStored s s' := by
  intro i
  rcases h' i with hin' | hin' <;> rcases h i with hin | hin <;> rw [hin', hin]
  · exact .inl rfl
  · exact .inr rfl
  · exact .inr rfl
  · exact .inr rfl

/-- What a call may change: inodes are stored, and the bytes where they are stored. -/
structure Steady (ramdisk : Bool) (s s' : Sys) : Prop where
  ready : Ready ramdisk s'
  nr : s'.cache.nr = s.cache.nr
  super : s'.super = s.super
  inode : InodesStored s s'
  settled : ∀ d b, Settled s.cache d b → Settled s'.cache d b
  bytes : ∀ d b off, Settled s.cache d b → Spared s d b off →
    logical s'.cache d b off = logical s.cache d b off

theorem Steady.refl (R : Ready ramdisk s) : Steady ramdisk s s :=
  ⟨R, rfl, rfl, fun _ => .inl rfl, fun _ _ => id, fun _ _ _ _ _ => rfl⟩

theorem Steady.spared (h : Steady ramdisk s s') {off : Nat} (hs : Spared s dev block off) :
    Spared s' dev block off := by
  intro i hi hh
  rcases h.inode i with hin | hin
  · have hhome : s'.home i = s.home i := by
      unfold Sys.home Sys.checkInSuperb
      rw [hin, h.super]
    rw [hin]
    exact hs i hi (hhome ▸ hh)
  · have hnone : s'.home i = none := by
      unfold Sys.home
      rw [hin]
      exact if_neg fun hd => Bool.noConfusion hd.1
    rw [hnone] at hh
    cases hh

theorem Steady.trans (h : Steady ramdisk s u) (h' : Steady ramdisk u s') : Steady ramdisk s s' where
  ready := h'.ready
  nr := h'.nr.trans h.nr
  super := h'.super.trans h.super
  inode := h.inode.trans h'.inode
  settled := fun d b hd => h'.settled d b (h.settled d b hd)
  bytes := fun d b off hd hs =>
    (h'.bytes d b off (h.settled d b hd) (h.spared hs)).trans (h.bytes d b off hd hs)

/-- Nothing is stored. -/
theorem Same.steady (R : Ready ramdisk s) (M : Same s.cache s'.cache) (K : Kept s s') :
    Steady ramdisk s s' :=
  ⟨R.of M.sound (R.driven.of M.dirtier) K, M.nr, K.super, fun i => .inl (congrFun K.inode i),
    fun _ _ => M.settled, fun _ _ _ _ _ => by rw [M.logical]⟩

theorem Same.stored (R : Ready ramdisk s) (M : Same s.cache c) : Steady ramdisk s { s with cache := c } :=
  Same.steady R M ⟨rfl, rfl⟩

/-- A block is read. -/
theorem Fetched.steady (R : Ready ramdisk s) (F : Fetched s.cache s'.cache dev block) (K : Kept s s') :
    Steady ramdisk s s' ∧ Settled s'.cache dev block := by
  have hread : Settled s'.cache dev block := by rw [Settled, F.logical, put_self, F.reread]
  have hlog : ∀ d b, Settled s.cache d b → Sync.logical s'.cache d b = Sync.logical s.cache d b := by
    intro d b hd
    rw [F.logical]
    by_cases hdb : d = dev ∧ b = block
    · rw [hdb.1, hdb.2, put_self]
      rw [hdb.1, hdb.2] at hd
      exact hd
    · exact put_other hdb
  refine ⟨⟨R.of F.sound (R.driven.of F.dirtier) K, F.nr, K.super, fun i => .inl (congrFun K.inode i),
    fun d b hd => ?_, fun d b off hd _ => by rw [hlog d b hd]⟩, hread⟩
  rw [Settled, hlog d b hd, F.reread]
  exact hd

theorem Fetched.stored (R : Ready ramdisk s) (F : Fetched s.cache c dev block) :
    Steady ramdisk s { s with cache := c } :=
  have h : Steady ramdisk s { s with cache := c } ∧ Settled c dev block := F.steady R ⟨rfl, rfl⟩
  h.1

theorem Swept.steady {T : Dev → Prop} {k : Nat} (R : Ready ramdisk s)
    (W : Swept ramdisk T s.cache k s'.cache) (K : Kept s s') : Steady ramdisk s s' :=
  ⟨R.of W.sound W.driven K, W.nr, K.super, fun i => .inl (congrFun K.inode i), W.settled,
    fun _ _ _ _ _ => by rw [W.logical]⟩

/-- Inodes are stored. -/
theorem Upto.steady (R : Ready ramdisk s) (U : Upto ramdisk s 32 s') : Steady ramdisk s s' := by
  have hready : Ready ramdisk s' := by
    refine ⟨U.sound, U.driven, fun i hi hd hp => ?_, ?_⟩
    · exact absurd ((U.clean i hi hd).symm.trans hp) nofun
    · rw [U.super]
      exact R.super
  refine ⟨hready, U.nr, U.super, U.stays, fun d b hd => ?_, fun d b off hd hs => ?_⟩
  · by_cases hex : ∃ i < 32, s.home i = some (d, b)
    · exact (U.stored d b hex).symm
    · have hno : ∀ i < 32, s.home i ≠ some (d, b) := fun i hi h => hex ⟨i, hi, h⟩
      rw [Settled, U.rest d b hno, U.reread, withInodes_other hno]
      exact hd
  · by_cases hex : ∃ i < 32, s.home i = some (d, b)
    · rw [U.stored d b hex, U.reread, withInodes_uncovered hs, hd]
    · rw [U.rest d b fun i hi h => hex ⟨i, hi, h⟩]

/-! ## `sync_dev` and `sys_sync` -/

/-- What `getblk` relies on in `sync_dev`. -/
def Lasting (ramdisk : Bool) (sync : Dev → Sys → Option Sys) : Prop :=
  ∀ dev s s', Ready ramdisk s → sync dev s = some s' → Steady ramdisk s s'

theorem syncBuffers_steady (R : Ready ramdisk s) (h : syncBuffers ramdisk dev s = some s') :
    Steady ramdisk s s' :=
  (syncBuffers_spec R.sound R.driven h).steady R (syncBuffers_kept h)

theorem syncInodes_steady (hsync : Blocked sync) (R : Ready ramdisk s)
    (h : syncInodes ramdisk sync fuel s = some s') : Steady ramdisk s s' :=
  (syncInodes_spec R hsync h).steady R

theorem syncDev_steady (fuel : Nat) : Lasting ramdisk (syncDev ramdisk fuel) := by
  intro dev s s' R h
  cases fuel with
  | zero => cases h
  | succ fuel =>
    obtain ⟨u, hu, h⟩ := Option.bind_eq_some_iff.mp h
    obtain ⟨v, hv, h⟩ := Option.bind_eq_some_iff.mp h
    have T := syncBuffers_steady R hu
    have T' := syncInodes_steady (syncDev_blocked fuel) T.ready hv
    exact T.trans (T'.trans (syncBuffers_steady T'.ready h))

theorem sysSync_steady (R : Ready ramdisk s) (h : sysSync ramdisk fuel s = some s') :
    Steady ramdisk s s' := by
  obtain ⟨u, hu, h⟩ := Option.bind_eq_some_iff.mp h
  have T := syncInodes_steady (syncDev_blocked fuel) R hu
  obtain ⟨W, K⟩ := syncAll_spec T.ready.sound T.ready.driven rfl h
  exact T.trans (W.steady T.ready K)

/-! ## `getblk` -/

theorem waitBufferUnlock_steady (R : Ready ramdisk s) (h : waitBufferUnlock bh s = some s') :
    Steady ramdisk s s' :=
  (waitBufferUnlock_spec R.sound h).1.toSame.steady R (waitBufferUnlock_kept h)

theorem interrupt_steady (R : Ready ramdisk s) : Steady ramdisk s s.interrupt :=
  (interrupt_spec R.sound).toSame.steady R (interrupt_kept s)

/-- The loop is left with a buffer that is clean and unlocked. -/
theorem cleanLoop_steady (hsync : Lasting ramdisk sync) (R : Ready ramdisk s)
    (hlock : (s.cache.head bh).lock = false) {again : Bool}
    (h : cleanLoop sync bh fuel s = some (again, s')) :
    Steady ramdisk s s' ∧
      (again = false → (s'.cache.head bh).lock = false ∧ (s'.cache.head bh).dirt = false) := by
  induction fuel generalizing s with
  | zero => cases h
  | succ fuel ih =>
    unfold cleanLoop at h
    split at h
    · obtain ⟨u, hu, h⟩ := Option.bind_eq_some_iff.mp h
      obtain ⟨v, hv, h⟩ := Option.bind_eq_some_iff.mp h
      have T := hsync _ s u R hu
      have T' := T.trans (waitBufferUnlock_steady T.ready hv)
      split at h
      · cases h
        exact ⟨T', fun h => by cases h⟩
      · obtain ⟨T'', hclean⟩ := ih T'.ready (waitBufferUnlock_spec T.ready.sound hv).2 h
        exact ⟨T'.trans T'', hclean⟩
    · next hd =>
      cases h
      exact ⟨.refl R, fun _ => ⟨hlock, Bool.not_eq_true _ ▸ hd⟩⟩

theorem getblk_steady (hsync : Lasting ramdisk sync) (R : Ready ramdisk s) (h0 : dev ≠ 0)
    (h : getblk sync fuel dev block s = some (bh, s')) :
    Steady ramdisk s s' ∧ Obtained dev block bh s' := by
  refine getblk_rule (P := Steady ramdisk s) (R := fun q u => Steady ramdisk s u ∧ Obtained dev block q u)
    (fun u T => T.trans (interrupt_steady T.ready)) (fun T hu => ?_)
    (fun T hv => T.trans (waitBufferUnlock_steady T.ready hv)) (fun {_ _ _ _ _ w} T hq hv _ hw => ?_)
    (.refl R) h
  · obtain ⟨M, hfound⟩ := getHashTable_spec T.ready.sound hu
    have T' := T.trans (M.steady T.ready (getHashTable_kept hu))
    exact ⟨fun _ => T', fun q h => ⟨T', hfound q h⟩⟩
  · obtain ⟨Q, hlock⟩ := waitBufferUnlock_spec T.ready.sound hv
    have Tv := T.trans (waitBufferUnlock_steady T.ready hv)
    obtain ⟨T', hclean⟩ := cleanLoop_steady hsync Tv.ready hlock hw
    have Tw := Tv.trans T'
    refine ⟨Tw, fun hagain hfind => ?_⟩
    obtain ⟨hlock', hdirt⟩ := hclean hagain
    have hnr := T.ready.sound.ring _ hq
    rw [← Q.nr, ← T'.nr] at hnr
    have M' := take_same Tw.ready.sound hnr hlock' hdirt hfind h0
    exact ⟨Tw.trans (M'.stored Tw.ready), obtained_take w _ dev block hlock'⟩

/-! ## `breada` and `brelse` -/

theorem readAhead_steady (R : Ready ramdisk s) (bh : Nat) :
    Steady ramdisk s (readAhead ramdisk bh s) := by
  unfold readAhead
  dsimp only
  split
  · exact .refl R
  · next hcond =>
    obtain ⟨hd, hl, hup⟩ : hasDriver ramdisk (s.cache.head bh).dev = true ∧
        (s.cache.head bh).lock = false ∧ (s.cache.head bh).uptodate = false := by
      simpa only [not_or, Bool.not_eq_false, Bool.not_eq_true] using hcond
    split
    · next i hi =>
      obtain ⟨L, hidle, hself, -⟩ := lock_spec R.sound hl
      have hfree : s.cache.request i = none := emptyRequest_free hi
      have his : ((s.cache.modify bh fun h => { h with lock := true }).head bh).Is
          (s.cache.head bh).dev (s.cache.head bh).blocknr := by
        rw [hself]
        exact ⟨rfl, rfl⟩
      have F := addRequest_fetched L.sound (emptyRequest_lt hi) his (hasDriver_ne_zero hd)
        (by rw [hself]) hidle hfree (by rw [hself]; exact hup)
      exact (L.fetched F).stored R
    · exact .refl R

theorem drop_steady (R : Ready ramdisk s) (bh : Nat) :
    Steady ramdisk s { s with cache := s.cache.drop bh } :=
  (R.sound.drop bh).stored R

/-- What a round of the loop of `breada` leaves. -/
def aheadOf (ramdisk : Bool) (tmp : Nat) (s : Sys) : Sys :=
  let s := if (s.cache.head tmp).uptodate then s else readAhead ramdisk tmp s
  { s with cache := s.cache.drop tmp }

theorem readAheads_cons (first : Block) (rest : List Block) :
    readAheads ramdisk sync fuel dev (first :: rest) s =
      (getblk sync fuel dev first s).bind fun (tmp, s) =>
        readAheads ramdisk sync fuel dev rest (aheadOf ramdisk tmp s) := rfl

theorem aheadOf_steady (R : Ready ramdisk s) (tmp : Nat) : Steady ramdisk s (aheadOf ramdisk tmp s) := by
  have T : Steady ramdisk s (if (s.cache.head tmp).uptodate then s else readAhead ramdisk tmp s) := by
    split
    · exact .refl R
    · exact readAhead_steady R tmp
  exact T.trans (drop_steady T.ready tmp)

theorem readAheads_steady (hsync : Lasting ramdisk sync) (R : Ready ramdisk s) (h0 : dev ≠ 0)
    {rest : List Block} (h : readAheads ramdisk sync fuel dev rest s = some s') :
    Steady ramdisk s s' := by
  induction rest generalizing s with
  | nil =>
    cases h
    exact .refl R
  | cons first rest ih =>
    rw [readAheads_cons] at h
    obtain ⟨⟨tmp, u⟩, hu, h⟩ := Option.bind_eq_some_iff.mp h
    obtain ⟨T, -, -⟩ := getblk_steady hsync R h0 hu
    have T' := T.trans (aheadOf_steady T.ready tmp)
    exact T'.trans (ih T'.ready h)

theorem brelse_steady (R : Ready ramdisk s) (h : brelse bh s = some s') : Steady ramdisk s s' :=
  (brelse_spec R.sound h).steady R (brelse_kept h)

end Linux011.Sync
