import Linux011.Sync.Flush

/-!
# What `sync` leaves on the disk

`sync_inodes` stores every dirty inode over what `bread` brings, and `sys_sync` writes all dirty
buffers behind it. The disk then has the logical contents with the inodes stored in them; only where
an inode's block is in a stale buffer, `bread` has brought the old block from the disk, and what the
buffer had is lost. `sync_dev` writes the buffers of its device first, so none of them is stale when it
comes to the inodes.
-/

namespace Linux011.Sync

open Buffer

variable {ramdisk : Bool} {sync : Dev → Sys → Option Sys} {s s' s0 : Sys} {fuel : Nat} {dev : Dev}
  {block : Block} {g : Dev → Block → Data}

/-! ## Inodes in their blocks -/

/-- Where a dirty inode is to be stored. -/
def Sys.home (s : Sys) (i : Nat) : Option (Dev × Block) :=
  if (s.inode i).dirt ∧ (s.inode i).pipe = false then
    (s.checkInSuperb (s.inode i).dev).map fun sb => ((s.inode i).dev, (s.inode i).block sb)
  else none

/-- The blocks with one inode stored. -/
def place (s : Sys) (g : Dev → Block → Data) (i : Nat) : Dev → Block → Data :=
  match s.home i with
  | some (dev, block) => put g dev block ((s.inode i).write (g dev block))
  | none => g

/-- The blocks with the first `k` inodes of the table stored. -/
def withInodes (s : Sys) (k : Nat) (g : Dev → Block → Data) : Dev → Block → Data :=
  (List.range k).foldl (place s) g

theorem withInodes_succ (s : Sys) (k : Nat) (g : Dev → Block → Data) :
    withInodes s (k + 1) g = place s (withInodes s k g) k := by
  rw [withInodes, List.range_succ, List.foldl_append]
  rfl

theorem place_other {i : Nat} (h : s.home i ≠ some (dev, block))
    : place s g i dev block = g dev block := by
  unfold place
  cases hd : s.home i with
  | none => rfl
  | some p =>
    refine put_other fun hdb => h ?_
    rw [hd, hdb.1, hdb.2]

theorem place_home {i : Nat} (h : s.home i = some (dev, block)) :
    place s g i dev block = (s.inode i).write (g dev block) := by
  unfold place
  rw [h]
  exact put_self ..

/-- A block without inodes stays. -/
theorem withInodes_other {k : Nat} (h : ∀ i < k, s.home i ≠ some (dev, block)) :
    withInodes s k g dev block = g dev block := by
  induction k with
  | zero => rfl
  | succ k ih =>
    rw [withInodes_succ, place_other (h k (Nat.lt_succ_self k)),
      ih fun i hi => h i (Nat.lt_succ_of_lt hi)]

/-- A byte that is in no inode stays. -/
theorem withInodes_uncovered {k off : Nat}
    (h : ∀ i < k, s.home i = some (dev, block) → off / 32 ≠ (s.inode i).slot) :
    withInodes s k g dev block off = g dev block off := by
  induction k with
  | zero => rfl
  | succ k ih =>
    have ih := ih fun i hi => h i (Nat.lt_succ_of_lt hi)
    rw [withInodes_succ]
    by_cases hk : s.home k = some (dev, block)
    · rw [place_home hk, MInode.write, if_neg (h k (Nat.lt_succ_self k) hk), ih]
    · rw [place_other hk, ih]

/-- A byte of an inode does not depend on what was there before. -/
theorem withInodes_covered {k off i : Nat} {g' : Dev → Block → Data} (hi : i < k)
    (hh : s.home i = some (dev, block)) (hoff : off / 32 = (s.inode i).slot) :
    withInodes s k g dev block off = withInodes s k g' dev block off := by
  induction k with
  | zero => omega
  | succ k ih =>
    rw [withInodes_succ, withInodes_succ]
    by_cases hk : s.home k = some (dev, block)
    · rw [place_home hk, place_home hk, MInode.write, MInode.write]
      split
      · rfl
      · next hne =>
        refine ih ?_
        by_contra hik
        rw [show i = k by omega] at hoff
        exact hne hoff
    · rw [place_other hk, place_other hk]
      refine ih ?_
      by_contra hik
      rw [show i = k by omega] at hh
      exact hk hh

/-- Two blocks are the same once the inodes are stored, if they agree outside of the inodes. -/
theorem withInodes_eq_iff {k : Nat} {g' : Dev → Block → Data} :
    withInodes s k g dev block = withInodes s k g' dev block ↔
      ∀ off, (∀ i < k, s.home i = some (dev, block) → off / 32 ≠ (s.inode i).slot) →
        g dev block off = g' dev block off := by
  refine ⟨fun h off hoff => ?_, fun h => funext fun off => ?_⟩
  · rw [← withInodes_uncovered (g := g) hoff, ← withInodes_uncovered (g := g') hoff, h]
  · by_cases hoff : ∀ i < k, s.home i = some (dev, block) → off / 32 ≠ (s.inode i).slot
    · rw [withInodes_uncovered hoff, withInodes_uncovered hoff, h off hoff]
    · push Not at hoff
      obtain ⟨i, hi, hh, hslot⟩ := hoff
      exact withInodes_covered hi hh hslot

/-! ## `write_inode` and `sync_inodes` -/

/-- Dirty buffers are of devices with a driver. -/
def Driven (ramdisk : Bool) (c : Cache) : Prop :=
  ∀ q, (c.head q).dirt = true → hasDriver ramdisk (c.head q).dev = true

theorem Driven.of {c c' : Cache} (h : Driven ramdisk c) (hn : NoDirtier c c') : Driven ramdisk c' :=
  fun q hq => by
    rw [(hn q hq).2]
    exact h q (hn q hq).1

theorem Driven.store {c : Cache} {bh : Nat} (h : Driven ramdisk c)
    (hd : hasDriver ramdisk (c.head bh).dev = true) (f : Data → Data) : Driven ramdisk (c.store bh f) := by
  intro q hq
  by_cases hqb : q = bh
  · rw [hqb, (Keeps.store c bh f).dev]
    exact hd
  · have hhead : (c.store bh f).head q = c.head q := modify_other _ _ hqb
    rw [hhead] at hq ⊢
    exact h q hq

/-- A system as a task finds it when it calls one of the functions. -/
structure Ready (ramdisk : Bool) (s : Sys) : Prop where
  sound : Sound s.cache
  driven : Driven ramdisk s.cache
  inode : ∀ i < 32, (s.inode i).dirt = true → (s.inode i).pipe = false →
    (s.checkInSuperb (s.inode i).dev).isSome = true
  super : ∀ dev sb, s.super dev = some sb → hasDriver ramdisk dev = true

theorem Ready.of (R : Ready ramdisk s) (S : Sound s'.cache) (D : Driven ramdisk s'.cache)
    (K : Kept s s') : Ready ramdisk s' := by
  refine ⟨S, D, fun i hi => ?_, ?_⟩
  · unfold Sys.checkInSuperb
    rw [K.inode, K.super]
    exact R.inode i hi
  · rw [K.super]
    exact R.super

theorem checkInSuperb_some {sb : SuperBlock} (h : s.checkInSuperb dev = some sb) :
    dev ≠ 0 ∧ s.super dev = some sb := by
  unfold Sys.checkInSuperb at h
  split at h
  · cases h
  · next h0 => exact ⟨h0, h⟩

/-- A dirty inode is stored over what `bread` brings. -/
theorem writeInode_spec (hsync : Blocked sync) {i : Nat} (hi : i < 32) (S : Sound s.cache)
    (D : Driven ramdisk s.cache) (hsuper : ∀ dev sb, s.super dev = some sb → hasDriver ramdisk dev = true)
    (hh : s.home i = some (dev, block)) (h : writeInode ramdisk sync fuel i s = some s') :
    Sound s'.cache ∧ Driven ramdisk s'.cache ∧
      logical s'.cache = put (logical s.cache) dev block ((s.inode i).write (reread s.cache dev block)) ∧
      reread s'.cache = place s (reread s.cache) i ∧ s'.cache.nr = s.cache.nr ∧ s'.super = s.super ∧
      s'.inode = Function.update s.inode i { s.inode i with dirt := false } := by
  have hplace : place s (reread s.cache) i =
      put (reread s.cache) dev block ((s.inode i).write (reread s.cache dev block)) := by
    rw [place, hh]
  unfold Sys.home at hh
  split at hh
  · next hdp =>
    obtain ⟨sb, hsb, hdb⟩ := Option.map_eq_some_iff.mp hh
    obtain ⟨rfl, rfl⟩ := Prod.mk.inj hdb
    obtain ⟨h0, hsup⟩ := checkInSuperb_some hsb
    have hd := hsuper _ _ hsup
    unfold writeInode at h
    dsimp only at h
    rw [hsb] at h
    have hgo : ¬ ((s.inode i).dirt = false ∨ (s.inode i).dev = 0) := by
      rintro (h | h)
      · rw [hdp.1] at h
        cases h
      · exact h0 h
    rw [if_neg hgo] at h
    split at h
    · cases h
    · obtain ⟨⟨found, u⟩, hu, h⟩ := Option.bind_eq_some_iff.mp h
      cases found with
      | none => cases h
      | some bh =>
        obtain ⟨v, hv, rfl⟩ := Option.map_eq_some_iff.mp h
        have hl : ∃ j < 32, ((s.setInode i { s.inode i with lock := true }).inode j).lock = true :=
          ⟨i, hi, by rw [setInode_self]⟩
        obtain ⟨F, his, hup, hlock⟩ := bread_spec (s := s.setInode i { s.inode i with lock := true })
          hsync hl S hd hu
        have hu0 : (u.cache.head bh).dev ≠ 0 := by rw [his.1]; exact h0
        obtain ⟨S', hlog, hup'⟩ := store_spec F.sound hu0 hlock (f := (s.inode i).write)
        obtain ⟨hre, hdata⟩ := hup' hup
        rw [his.1, his.2] at hlog hre hdata
        have M := brelse_spec (s := { u with cache := u.cache.store bh (s.inode i).write }) S' hv
        have K := (bread_kept hsync hl hu).trans (brelse_kept hv).cache
        have hold := hdata.trans (congrFun₂ F.reread (s.inode i).dev ((s.inode i).block sb))
        rw [hold] at hlog hre
        have Dv := (D.of F.dirtier).store (by rw [his.1]; exact hd) (s.inode i).write
        refine ⟨M.sound, Dv.of M.dirtier, ?_, ?_, M.nr.trans F.nr, K.super, ?_⟩
        · exact M.logical.trans (hlog.trans (by rw [F.logical, put_put]; rfl))
        · rw [hplace]
          exact M.reread.trans (hre.trans (by rw [F.reread]; rfl))
        · show Function.update v.inode i _ = _
          rw [K.inode]
          exact Function.update_idem ..
  · cases hh

/-- `sync_inodes` before its iteration `k`, when it started in `s0`. -/
structure Upto (ramdisk : Bool) (s0 : Sys) (k : Nat) (u : Sys) : Prop where
  sound : Sound u.cache
  driven : Driven ramdisk u.cache
  nr : u.cache.nr = s0.cache.nr
  super : u.super = s0.super
  later : ∀ j, k ≤ j → u.inode j = s0.inode j
  clean : ∀ j < k, (u.inode j).dirt = true → (u.inode j).pipe = true
  stays : ∀ j, u.inode j = s0.inode j ∨ u.inode j = { s0.inode j with dirt := false }
  reread : reread u.cache = withInodes s0 k (reread s0.cache)
  stored : ∀ dev block, (∃ i < k, s0.home i = some (dev, block)) →
    logical u.cache dev block = Sync.reread u.cache dev block
  rest : ∀ dev block, (∀ i < k, s0.home i ≠ some (dev, block)) →
    logical u.cache dev block = logical s0.cache dev block

theorem Ready.upto (R : Ready ramdisk s0) : Upto ramdisk s0 0 s0 :=
  ⟨R.sound, R.driven, rfl, rfl, fun _ _ => rfl, nofun, fun _ => .inl rfl, rfl,
    fun _ _ ⟨_, h, _⟩ => (nomatch h), fun _ _ _ => rfl⟩

/-- An entry that is not written. -/
theorem Upto.skip {k : Nat} {u : Sys} (U : Upto ramdisk s0 k u) (h : s0.home k = none)
    (hclean : (u.inode k).dirt = true → (u.inode k).pipe = true) : Upto ramdisk s0 (k + 1) u := by
  have hnot : ∀ d b, s0.home k ≠ some (d, b) := fun d b => by
    rw [h]
    nofun
  refine ⟨U.sound, U.driven, U.nr, U.super, fun j hj => U.later j (by omega), fun j hj => ?_, U.stays, ?_,
    fun d b hex => ?_, fun d b hno => U.rest d b fun i hi => hno i (by omega)⟩
  · by_cases hjk : j = k
    · rw [hjk]
      exact hclean
    · exact U.clean j (by omega)
  · rw [withInodes_succ, place, h]
    exact U.reread
  · obtain ⟨i, hi, hh⟩ := hex
    refine U.stored d b ⟨i, ?_, hh⟩
    by_contra hik
    rw [show i = k by omega] at hh
    exact hnot d b hh

/-- An entry that is written. -/
theorem Upto.write (R : Ready ramdisk s0) (hsync : Blocked sync) {k : Nat} {u u' : Sys} (hk : k < 32)
    (U : Upto ramdisk s0 k u) (hdirt : (u.inode k).dirt = true) (hpipe : (u.inode k).pipe = false)
    (h : writeInode ramdisk sync fuel k u = some u') : Upto ramdisk s0 (k + 1) u' := by
  have hsame := U.later k (Nat.le_refl k)
  have hhome : u.home k = s0.home k := by
    unfold Sys.home Sys.checkInSuperb
    rw [hsame, U.super]
  have hplace : ∀ g, place u g k = place s0 g k := fun g => by
    unfold place
    rw [hhome, hsame]
  obtain ⟨sb, hsb⟩ := Option.isSome_iff_exists.mp (R.inode k hk (hsame ▸ hdirt) (hsame ▸ hpipe))
  have hh : s0.home k = some ((s0.inode k).dev, (s0.inode k).block sb) := by
    unfold Sys.home
    rw [if_pos ⟨hsame ▸ hdirt, hsame ▸ hpipe⟩, hsb]
    rfl
  generalize (s0.inode k).dev = dev at hh
  generalize (s0.inode k).block sb = block at hh
  obtain ⟨S', D', hlog, hre, hnr, hsup, hinode⟩ := writeInode_spec hsync hk U.sound U.driven
    (by rw [U.super]; exact R.super) (hhome.trans hh) h
  have hother : ∀ j, j ≠ k → u'.inode j = u.inode j := fun j hj => by
    rw [hinode, Function.update_of_ne hj]
  rw [hplace] at hre
  refine ⟨S', D', hnr.trans U.nr, hsup.trans U.super, fun j hj => ?_, fun j hj => ?_, fun j => ?_, ?_,
    fun d b hex => ?_, fun d b hno => ?_⟩
  · rw [hother j (by omega)]
    exact U.later j (by omega)
  · by_cases hjk : j = k
    · rw [hjk, hinode, Function.update_self]
      nofun
    · rw [hother j hjk]
      exact U.clean j (by omega)
  · by_cases hjk : j = k
    · rw [hjk, hinode, Function.update_self, hsame]
      exact .inr rfl
    · rw [hother j hjk]
      exact U.stays j
  · rw [hre, withInodes_succ, U.reread]
  · rw [hlog, hre]
    by_cases hdb : d = dev ∧ b = block
    · rw [hdb.1, hdb.2, put_self, place_home hh, hsame]
    · have hne : s0.home k ≠ some (d, b) := fun h => hdb ⟨by rw [hh] at h; cases h; rfl,
        by rw [hh] at h; cases h; rfl⟩
      obtain ⟨i, hi, hi'⟩ := hex
      rw [put_other hdb, place_other hne]
      refine U.stored d b ⟨i, ?_, hi'⟩
      by_contra hik
      rw [show i = k by omega] at hi'
      exact hne hi'
  · have hdb : ¬ (d = dev ∧ b = block) := fun hdb => hno k (Nat.lt_succ_self k) (by rw [hh, hdb.1, hdb.2])
    rw [hlog, put_other hdb]
    exact U.rest d b fun i hi => hno i (by omega)

theorem syncInodes_spec (R : Ready ramdisk s0) (hsync : Blocked sync)
    (h : syncInodes ramdisk sync fuel s0 = some s') : Upto ramdisk s0 32 s' := by
  refine forEach_range (P := Upto ramdisk s0) (fun k hk u u' U hstep => ?_) R.upto h
  split at hstep
  · cases hstep
  · split at hstep
    · next hdp => exact U.write R hsync hk hdp.1 hdp.2 hstep
    · next hdp =>
      cases hstep
      refine U.skip ?_ fun hd => Bool.not_eq_false _ ▸ fun hp => hdp ⟨hd, hp⟩
      rw [Sys.home, if_neg]
      rw [← U.later k (Nat.le_refl k)]
      exact hdp

/-! ## The loops over the buffers -/

/-- Such a loop before its iteration `k`: of the buffers it has passed, none of the devices is dirty. -/
structure Swept (ramdisk : Bool) (T : Dev → Prop) (c0 : Cache) (k : Nat) (c : Cache) : Prop where
  sound : Sound c
  driven : Driven ramdisk c
  logical : logical c = logical c0
  settled : ∀ dev block, Settled c0 dev block → Settled c dev block
  nr : c.nr = c0.nr
  keeps : Keeps c0 c
  dirtier : NoDirtier c0 c
  clean : ∀ j < k, T (c.head j).dev → (c.head j).dirt = false

variable {T : Dev → Prop} {c c' c0 : Cache} {k : Nat}

theorem Swept.start (S : Sound c) (D : Driven ramdisk c) : Swept ramdisk T c 0 c :=
  ⟨S, D, rfl, fun _ _ hd => hd, rfl, .refl c, fun _ hq => ⟨hq, rfl⟩, nofun⟩

theorem Swept.quiet (W : Swept ramdisk T c0 k c) (Q : Quiet c c') : Swept ramdisk T c0 k c' :=
  ⟨Q.sound, W.driven.of Q.dirtier, Q.logical.trans W.logical,
    fun d b hd => Q.toSame.settled (W.settled d b hd), Q.nr.trans W.nr, W.keeps.trans Q.keeps,
    W.dirtier.trans Q.dirtier, fun j hj ht => by
    rw [Q.dirt]
    exact W.clean j hj (Q.keeps.dev j ▸ ht)⟩

/-- The buffer needs no request. -/
theorem Swept.skip (W : Swept ramdisk T c0 k c) (h : T (c.head k).dev → (c.head k).dirt = false) :
    Swept ramdisk T c0 (k + 1) c :=
  ⟨W.sound, W.driven, W.logical, W.settled, W.nr, W.keeps, W.dirtier, fun j hj ht => by
    by_cases hjk : j = k
    · rw [hjk] at ht ⊢
      exact h ht
    · exact W.clean j (by omega) ht⟩

/-- The buffer is written. -/
theorem Swept.cleaned (W : Swept ramdisk T c0 k c) (C : Cleaned c c' k) : Swept ramdisk T c0 (k + 1)
    c' := by
  refine ⟨C.sound, W.driven.of C.dirtier, C.logical.trans W.logical,
    fun d b hd => C.settled d b (W.settled d b hd), C.nr.trans W.nr, W.keeps.trans C.keeps,
    W.dirtier.trans C.dirtier, fun j hj ht => ?_⟩
  by_cases hjk : j = k
  · rw [hjk]
    exact C.self
  · rw [C.other j hjk]
    exact W.clean j (by omega) (C.keeps.dev j ▸ ht)

/-- The loop of `sync_dev`. -/
theorem syncBuffers_spec (S : Sound s.cache) (D : Driven ramdisk s.cache)
    (h : syncBuffers ramdisk dev s = some s') :
    Swept ramdisk (· = dev) s.cache s.cache.nr s'.cache := by
  refine forEach_range (P := fun k u => Swept ramdisk (· = dev) s.cache k u.cache)
    (fun k _ u u' W hstep => ?_) (.start S D) h
  split at hstep
  · next hne =>
    cases hstep
    exact W.skip fun ht => absurd ht hne
  · obtain ⟨v, hv, hstep⟩ := Option.bind_eq_some_iff.mp hstep
    have W := W.quiet (waitBufferUnlock_spec W.sound hv).1
    split at hstep
    · next hd => exact W.cleaned (llRwBlock_write W.sound (W.driven k hd.2) hstep)
    · next hd =>
      cases hstep
      exact W.skip fun ht => Bool.not_eq_true _ ▸ fun hdirt => hd ⟨ht, hdirt⟩

/-- The loop of `sys_sync`. -/
theorem syncAll_spec {f : Nat → Sys → Option Sys} (S : Sound s.cache) (D : Driven ramdisk s.cache)
    (hf : f = fun bh s => (waitBufferUnlock bh s).bind fun s =>
      if (s.cache.head bh).dirt then llRwBlock ramdisk .write bh s else some s)
    (h : forEach f (List.range s.cache.nr) s = some s') :
    Swept ramdisk (fun _ => True) s.cache s.cache.nr s'.cache ∧ Kept s s' := by
  refine forEach_range (P := fun k u => Swept ramdisk (fun _ => True) s.cache k u.cache ∧ Kept s u)
    (fun k _ u u' ⟨W, K⟩ hstep => ?_) ⟨.start S D, .refl s⟩ h
  rw [hf] at hstep
  obtain ⟨v, hv, hstep⟩ := Option.bind_eq_some_iff.mp hstep
  have W := W.quiet (waitBufferUnlock_spec W.sound hv).1
  have K := K.trans (waitBufferUnlock_kept hv)
  split at hstep
  · next hd => exact ⟨W.cleaned (llRwBlock_write W.sound (W.driven k hd) hstep),
      K.trans (llRwBlock_kept hstep)⟩
  · next hd =>
    cases hstep
    exact ⟨W.skip fun _ => Bool.not_eq_true _ ▸ hd, K⟩

/-- When all requests are finished, the disk has the contents of the devices that were swept. -/
theorem Swept.finished (W : Swept ramdisk T c0 c0.nr c) {is : List Nat}
    (hdone : ∀ i < 32, (finishAll c is).request i = none) :
    (∀ bh < (finishAll c is).nr, T ((finishAll c is).head bh).dev → ((finishAll c is).head bh).dirt =
      false) ∧
      ∀ dev block, T dev → (finishAll c is).disk dev block = Sync.logical c0 dev block := by
  have Q := finishAll_quiet W.sound is
  have W' := W.quiet Q
  have hclean : ∀ bh < (finishAll c is).nr, T ((finishAll c is).head bh).dev →
      ((finishAll c is).head bh).dirt = false := fun bh hbh ht => W'.clean bh (W'.nr ▸ hbh) ht
  refine ⟨hclean, fun dev block ht => ?_⟩
  rw [← W'.logical]
  exact logical_disk W'.sound hdone fun bh hbh hdev => hclean bh hbh (hdev ▸ ht)

/-! ## The results -/

theorem withInodes_kept {u : Sys} (K : Kept s u) (k : Nat) (g : Dev → Block → Data) :
    withInodes u k g = withInodes s k g := by
  have hplace : place u = place s := by
    funext g i
    unfold place Sys.home Sys.checkInSuperb
    rw [K.inode, K.super]
  rw [withInodes, withInodes, hplace]

/-- The contents after `sync_inodes`. -/
theorem Upto.logical_eq {u : Sys} (U : Upto ramdisk s0 k u) (dev : Dev) (block : Block) :
    logical u.cache dev block = withInodes s0 k (logical s0.cache) dev block ↔
      ((∃ i < k, s0.home i = some (dev, block)) → withInodes s0 k (Sync.reread s0.cache) dev block =
        withInodes s0 k (logical s0.cache) dev block) := by
  by_cases hex : ∃ i < k, s0.home i = some (dev, block)
  · rw [U.stored dev block hex, U.reread]
    exact ⟨fun h _ => h, fun h => h hex⟩
  · have hno : ∀ i < k, s0.home i ≠ some (dev, block) := fun i hi h => hex ⟨i, hi, h⟩
    rw [U.rest dev block hno, withInodes_other hno]
    exact ⟨fun _ h => absurd h hex, fun _ => rfl⟩

/-- What a stale buffer has besides the dirty inodes is on the disk, too, if it has dirty inodes. -/
def Agrees (s : Sys) : Prop :=
  ∀ bh, Stale s.cache bh → ∀ dev block, (s.cache.head bh).Is dev block →
    (∃ i < 32, s.home i = some (dev, block)) →
      ∀ off, (∀ i < 32, s.home i = some (dev, block) → off / 32 ≠ (s.inode i).slot) →
        (s.cache.head bh).data off = s.cache.disk dev block off

/-- `bread` brings what was on the disk only if the buffer is stale. -/
theorem reread_cases (S : Sound c) (dev : Dev) (block : Block) :
    reread c dev block = logical c dev block ∨
      ∃ bh, Stale c bh ∧ (c.head bh).Is dev block ∧ logical c dev block = (c.head bh).data ∧
        reread c dev block = c.disk dev block := by
  cases hf : findBuffer c dev block with
  | none => exact Or.inl (by rw [reread, logical, seen_none hf, seen_none hf])
  | some bh =>
    have his := findBuffer_some hf
    have h0 : dev ≠ 0 := by
      rintro rfl
      rw [S.find_zero] at hf
      cases hf
    by_cases hs : Stale c bh
    · exact Or.inr ⟨bh, hs, his, stale_views S his h0 hs⟩
    · exact Or.inl (fresh_views S his h0 hs)

theorem agrees_iff (R : Ready ramdisk s) : Agrees s ↔ ∀ dev block,
    (∃ i < 32, s.home i = some (dev, block)) → withInodes s 32 (reread s.cache) dev block =
      withInodes s 32 (logical s.cache) dev block := by
  refine ⟨fun h dev block hex => ?_, fun h bh hs dev block his hex => ?_⟩
  · rw [withInodes_eq_iff]
    intro off hoff
    rcases reread_cases R.sound dev block with heq | ⟨bh, hs, his, hlog, hre⟩
    · rw [heq]
    · rw [hlog, hre]
      exact (h bh hs dev block his hex off hoff).symm
  · intro off hoff
    have hoffs := withInodes_eq_iff.mp (h dev block hex) off hoff
    have h0 : dev ≠ 0 := his.1 ▸ hasDriver_ne_zero (R.driven bh hs.1)
    obtain ⟨hlog, hre⟩ := stale_views R.sound his h0 hs
    rw [hlog, hre] at hoffs
    exact hoffs.symm

/-- After `sync_dev`. -/
theorem syncDev_spec (R : Ready ramdisk s) (h : syncDev ramdisk fuel dev s = some s') {is : List Nat}
    (hdone : ∀ i < 32, (finishAll s'.cache is).request i = none) :
    (∀ i < 32, (s'.inode i).dirt = true → (s'.inode i).pipe = true) ∧
      (∀ bh < (finishAll s'.cache is).nr, ((finishAll s'.cache is).head bh).dev = dev →
        ((finishAll s'.cache is).head bh).dirt = false) ∧
      ∀ block, (finishAll s'.cache is).disk dev block = withInodes s 32 (logical s.cache) dev block := by
  cases fuel with
  | zero => cases h
  | succ fuel =>
    obtain ⟨u, hu, h⟩ := Option.bind_eq_some_iff.mp h
    obtain ⟨v, hv, h⟩ := Option.bind_eq_some_iff.mp h
    have W := syncBuffers_spec R.sound R.driven hu
    have K := syncBuffers_kept hu
    have U := syncInodes_spec (R.of W.sound W.driven K) (syncDev_blocked fuel) hv
    have W' := syncBuffers_spec U.sound U.driven h
    obtain ⟨hclean, hdisk⟩ := W'.finished hdone
    refine ⟨fun i hi => ?_, hclean, fun block => ?_⟩
    · rw [(syncBuffers_kept h).inode]
      exact U.clean i hi
    · -- no buffer of the device is stale after the first loop
      have hnot : ∀ q, (u.cache.head q).dev = dev → (u.cache.head q).dirt = false := by
        intro q hq
        by_contra hd
        have hd : (u.cache.head q).dirt = true := Bool.not_eq_false _ ▸ hd
        have hlt := W.sound.buffers q (hasDriver_ne_zero (W.driven q hd))
        rw [W.nr] at hlt
        rw [W.clean q hlt hq] at hd
        cases hd
      have hsame : reread u.cache dev block = logical u.cache dev block := reread_eq_logical W.sound hnot
      have hin := (U.logical_eq dev block).mpr fun _ => withInodes_eq_iff.mpr fun off _ => by rw [hsame]
      rw [hdisk dev block rfl, hin, withInodes_kept K, W.logical]

/-- After `sys_sync`. -/
theorem sysSync_spec (R : Ready ramdisk s) (h : sysSync ramdisk fuel s = some s') {is : List Nat}
    (hdone : ∀ i < 32, (finishAll s'.cache is).request i = none) :
    (∀ i < 32, (s'.inode i).dirt = true → (s'.inode i).pipe = true) ∧
      (∀ bh < (finishAll s'.cache is).nr, ((finishAll s'.cache is).head bh).dirt = false) ∧
      ((∀ dev block, (finishAll s'.cache is).disk dev block = withInodes s 32 (logical s.cache)
        dev block) ↔
        Agrees s) := by
  obtain ⟨u, hu, h⟩ := Option.bind_eq_some_iff.mp h
  have U := syncInodes_spec R (syncDev_blocked fuel) hu
  obtain ⟨W, K⟩ := syncAll_spec U.sound U.driven rfl h
  obtain ⟨hclean, hdisk⟩ := W.finished hdone
  refine ⟨fun i hi => ?_, fun bh hbh => hclean bh hbh trivial, ?_⟩
  · rw [K.inode]
    exact U.clean i hi
  · rw [agrees_iff R]
    refine forall₂_congr fun dev block => ?_
    rw [hdisk dev block trivial]
    exact U.logical_eq dev block

/-- `sys_sync` leaves nothing behind if and only if no stale buffer has a dirty inode, besides bytes that
are on the disk, too. `sync_dev` leaves nothing of its device behind. -/
theorem sync_writes_back (R : Ready ramdisk s) :
    (∀ s' is, sysSync ramdisk fuel s = some s' → (∀ i < 32, (finishAll s'.cache is).request i = none) →
      (((∀ i < 32, (s'.inode i).dirt = true → (s'.inode i).pipe = true) ∧
        (∀ bh < (finishAll s'.cache is).nr, ((finishAll s'.cache is).head bh).dirt = false) ∧
        ∀ dev block, (finishAll s'.cache is).disk dev block = withInodes s 32 (logical s.cache)
          dev block) ↔
      Agrees s)) ∧
    ∀ dev s' is, syncDev ramdisk fuel dev s = some s' →
      (∀ i < 32, (finishAll s'.cache is).request i = none) →
      (∀ i < 32, (s'.inode i).dev = dev → (s'.inode i).dirt = true → (s'.inode i).pipe = true) ∧
        (∀ bh < (finishAll s'.cache is).nr, ((finishAll s'.cache is).head bh).dev = dev →
          ((finishAll s'.cache is).head bh).dirt = false) ∧
        ∀ block, (finishAll s'.cache is).disk dev block = withInodes s 32 (logical s.cache)
          dev block := by
  refine ⟨fun s' is h hdone => ?_, fun dev s' is h hdone => ?_⟩
  · obtain ⟨hinode, hclean, hdisk⟩ := sysSync_spec R h hdone
    exact ⟨fun hall => hdisk.mp hall.2.2, fun ha => ⟨hinode, hclean, hdisk.mpr ha⟩⟩
  · obtain ⟨hinode, hclean, hdisk⟩ := syncDev_spec R h hdone
    exact ⟨fun i hi _ => hinode i hi, hclean, hdisk⟩

/-! ## Runs -/

/-- Two buffers, and a dirty inode 1 of `/dev/hda1`, whose inodes begin at block 4. -/
def dirtyInode : Sys where
  cache := bufferInit 2 fun _ _ _ => 0
  inode := fun i => if i = 0 then ⟨0x301, 1, true, false, false, fun _ => 7⟩
    else ⟨0, 0, false, false, false, fun _ => 0⟩
  super := fun dev => if dev = 0x301 then some ⟨1, 1⟩ else none
  irq := List.replicate 8 [20, 31]

/-- `block_write` of a whole block that is in no buffer. -/
def blockBytes : List (BitVec 8) := List.replicate 1024 1

def rawBlock : Sys :=
  { dirtyInode with
    cache := ((take dirtyInode.cache 0 0x301 4).store 0 (overlay 0 blockBytes)).drop 0
    irq := List.replicate 5 [20, 31] }

theorem blockWrite_rawBlock :
    blockWrite false (syncDev false 3) 3 0x301 2 4096 blockBytes 0 dirtyInode =
      some (1024, 5120, rawBlock) := by
  have hlen : blockBytes.length = 1024 := List.length_replicate
  have htake : blockBytes.take (1024 - 4096 % 1024) = blockBytes := List.take_of_length_le (by rw [hlen])
  have hdrop : blockBytes.drop 1024 = [] := List.drop_of_length_le (by rw [hlen])
  have hget : getblk (syncDev false 3) 3 0x301 ((BitVec.ofNat 32 4096).sshiftRight 10) dirtyInode =
      some (0, { dirtyInode with
        cache := take dirtyInode.cache 0 0x301 4, irq := List.replicate 6 [20, 31] }) := rfl
  unfold blockWrite blockWriteFrom
  rw [if_neg (List.ne_nil_of_length_pos (by rw [hlen]; decide))]
  dsimp only
  rw [htake, hlen, if_pos rfl, hget, hdrop]
  rfl

theorem dirtyInode_ready {c : Cache} (irq : List (List Nat)) (S : Sound c) (D : Driven false c) :
    Ready false { dirtyInode with cache := c, irq := irq } := by
  refine ⟨S, D, ?_, fun dev sb h => ?_⟩
  · show ∀ i < 32, (dirtyInode.inode i).dirt = true → (dirtyInode.inode i).pipe = false →
      (dirtyInode.checkInSuperb (dirtyInode.inode i).dev).isSome = true
    decide
  · have h : (if dev = 0x301 then some (⟨1, 1⟩ : SuperBlock) else none) = some sb := h
    split at h
    · next hd =>
      rw [hd]
      rfl
    · cases h

/-- The state after that `block_write`. -/
theorem rawBlock_ready : Ready false rawBlock := by
  have T : Same dirtyInode.cache (take dirtyInode.cache 0 0x301 4) :=
    take_same (bufferInit_sound 2 fun _ _ _ => 0) (by decide) rfl rfl rfl (by decide)
  have S : Sound ((take dirtyInode.cache 0 0x301 4).store 0 (overlay 0 blockBytes)) :=
    (store_spec T.sound (by decide) rfl).1
  refine dirtyInode_ready _ (S.drop 0).sound fun q hq => ?_
  by_cases h : q = 0
  · rw [h]
    rfl
  · have hq : ((dirtyInode.cache.head q)).dirt = true := by
      rw [Cache.drop, modify_other _ _ h, Cache.store, modify_other _ _ h] at hq
      have hq : ((take dirtyInode.cache 0 0x301 4).head q).dirt = true := hq
      rwa [take_other _ _ _ h] at hq
    cases hq

/-- The buffer of the inode's block is stale, and byte 32 is not in the inode. -/
theorem rawBlock_stale : ¬ Agrees rawBlock := fun h => by
  have hstale : Stale rawBlock.cache 0 := by
    refine ⟨rfl, rfl, ?_⟩
    rintro ⟨i, r, hr, -⟩
    cases hr
  have hbyte := h 0 hstale 0x301 4 ⟨rfl, rfl⟩ ⟨0, by decide, by decide⟩ 32 (by decide)
  exact absurd hbyte (by decide +kernel)

def rawSynced : Sys := (sysSync false 3 rawBlock).getD rawBlock

/-- `sys_sync` reads the old block over the new one: byte 32 is 0 on the disk, and not 1. -/
theorem sync_loses_block :
    blockWrite false (syncDev false 3) 3 0x301 2 4096 blockBytes 0 dirtyInode =
        some (1024, 5120, rawBlock) ∧
      Ready false rawBlock ∧ sysSync false 3 rawBlock = some rawSynced ∧
      (∀ i < 32, (finishAll rawSynced.cache [20]).request i = none) ∧
      (finishAll rawSynced.cache [20]).disk 0x301 4 32 = 0 ∧
      ¬ ∀ dev block, (finishAll rawSynced.cache [20]).disk dev block =
        withInodes rawBlock 32 (logical rawBlock.cache) dev block := by
  have hrun : sysSync false 3 rawBlock = some rawSynced :=
    (Option.getD_of_ne_none (Option.isSome_iff_ne_none.mp (by decide +kernel)) _).symm
  have hdone : ∀ i < 32, (finishAll rawSynced.cache [20]).request i = none := by decide +kernel
  have hspec := (sysSync_spec rawBlock_ready hrun hdone).2.2
  exact ⟨blockWrite_rawBlock, rawBlock_ready, hrun, hdone, by decide +kernel,
    fun h => rawBlock_stale (hspec.mp h)⟩

def inodeSynced : Sys := (sysSync false 3 dirtyInode).getD dirtyInode

theorem sync_writes_back_inode :
    (∀ i < 32, (inodeSynced.inode i).dirt = true → (inodeSynced.inode i).pipe = true) ∧
      (∀ bh < (finishAll inodeSynced.cache [20]).nr,
        ((finishAll inodeSynced.cache [20]).head bh).dirt = false) ∧
      ∀ dev block, (finishAll inodeSynced.cache [20]).disk dev block =
        withInodes dirtyInode 32 (logical dirtyInode.cache) dev block := by
  have hrun : sysSync false 3 dirtyInode = some inodeSynced :=
    (Option.getD_of_ne_none (Option.isSome_iff_ne_none.mp (by decide +kernel)) _).symm
  have hready : Ready false dirtyInode :=
    dirtyInode_ready _ (bufferInit_sound _ _) fun _ h => (nomatch h)
  exact ((sync_writes_back hready).1 inodeSynced [20] hrun (by decide +kernel)).mpr
    fun _ hs => (nomatch hs.1)

end Linux011.Sync
