import Linux011.Sync.Logical

/-!
# What the functions do

A task that holds the lock of an inode does not come back from `sync_dev`: `sync_inodes` waits for
that lock. So `getblk` returns to `write_inode` only where it finds the block, or a buffer that is
clean; and then its effect is said by the two views.
-/

namespace Linux011.Sync

open Buffer

variable {ramdisk : Bool} {sync : Dev → Sys → Option Sys} {s s' s0 : Sys} {c c' : Cache} {bh fuel : Nat}
  {dev : Dev} {block : Block}

/-! ## Inodes and super blocks stay -/

/-- Only the cache has changed. -/
structure Kept (s s' : Sys) : Prop where
  inode : s'.inode = s.inode
  super : s'.super = s.super

theorem Kept.refl (s : Sys) : Kept s s := ⟨rfl, rfl⟩

theorem Kept.trans {u : Sys} (h : Kept s s') (h' : Kept s' u) : Kept s u :=
  ⟨h'.inode.trans h.inode, h'.super.trans h.super⟩

theorem Kept.cache {c : Cache} (h : Kept { s with cache := c } s') : Kept s s' := ⟨h.inode, h.super⟩

/-- With an inode locked, `sync_dev` does not return. -/
def Blocked (sync : Dev → Sys → Option Sys) : Prop :=
  ∀ dev s, (∃ i < 32, (s.inode i).lock = true) → sync dev s = none

theorem interrupt_kept (s : Sys) : Kept s s.interrupt := by
  unfold Sys.interrupt
  split
  · exact .refl s
  · exact ⟨rfl, rfl⟩

theorem sleepWhile_kept {p : Cache → Bool} (h : s.sleepWhile p = some s') : Kept s s' := by
  obtain ⟨r, -, rfl⟩ := Option.map_eq_some_iff.mp h
  exact ⟨rfl, rfl⟩

theorem waitBufferUnlock_kept (h : waitBufferUnlock bh s = some s') : Kept s s' :=
  (interrupt_kept s).trans (sleepWhile_kept h)

theorem findRequest_kept {cmd : Cmd} (h : findRequest cmd bh s = some s') : Kept s s' := by
  obtain ⟨u, hu, h⟩ := Option.bind_eq_some_iff.mp h
  obtain ⟨i, -, rfl⟩ := Option.map_eq_some_iff.mp h
  exact (sleepWhile_kept hu).trans ⟨rfl, rfl⟩

theorem llRwBlock_kept {cmd : Cmd} (h : llRwBlock ramdisk cmd bh s = some s') : Kept s s' := by
  unfold llRwBlock at h
  split at h
  · obtain ⟨u, hu, h⟩ := Option.bind_eq_some_iff.mp h
    have K := waitBufferUnlock_kept hu
    split at h
    · cases h
      exact K
    · exact K.trans (findRequest_kept h).cache
  · cases h
    exact .refl s

theorem getHashTable_kept {found : Option Nat} (h : getHashTable fuel dev block s = some (found, s')) :
    Kept s s' := by
  induction fuel generalizing s with
  | zero => cases h
  | succ fuel ih =>
    unfold getHashTable at h
    split at h
    · cases h
      exact .refl _
    · obtain ⟨u, hu, h⟩ := Option.bind_eq_some_iff.mp h
      have K : Kept s u := (waitBufferUnlock_kept hu).cache
      split at h
      · cases h
        exact K
      · exact K.trans (ih h).cache

/-- With an inode locked the loop is passed only by a buffer that is clean. -/
theorem cleanLoop_locked (hsync : Blocked sync) (hl : ∃ i < 32, (s.inode i).lock = true) {again : Bool}
    (h : cleanLoop sync bh fuel s = some (again, s')) :
    s' = s ∧ again = false ∧ (s.cache.head bh).dirt = false := by
  cases fuel with
  | zero => cases h
  | succ fuel =>
    unfold cleanLoop at h
    split at h
    · rw [hsync _ s hl] at h
      cases h
    · next hd =>
      cases h
      exact ⟨rfl, rfl, Bool.not_eq_true _ ▸ hd⟩

/-- The rule of `getblk`: what holds in all rounds, and what of the buffer that is found or taken. -/
theorem getblk_rule {P : Sys → Prop} {R : Nat → Sys → Prop} (hint : ∀ u, P u → P u.interrupt)
    (hget : ∀ {fuel found u v}, P u → getHashTable fuel dev block u = some (found, v) →
      (found = none → P v) ∧ ∀ q, found = some q → R q v)
    (hwait : ∀ {q u v}, P u → waitBufferUnlock q u = some v → P v)
    (hclean : ∀ {fuel q u v again w}, P u → q ∈ u.cache.freeList → waitBufferUnlock q u = some v →
      (v.cache.head q).count = 0 → cleanLoop sync q fuel v = some (again, w) → P w ∧ (again = false →
        findBuffer w.cache dev block = none → R q { w with cache := take w.cache q dev block }))
    (hs : P s) (h : getblk sync fuel dev block s = some (bh, s')) : R bh s' := by
  induction fuel generalizing s with
  | zero => cases h
  | succ fuel ih =>
    unfold getblk at h
    obtain ⟨⟨found, u⟩, hu, h⟩ := Option.bind_eq_some_iff.mp h
    obtain ⟨hPu, hfound⟩ := hget (hint s hs) hu
    cases found with
    | some q =>
      cases h
      exact hfound _ rfl
    | none =>
      have hPu := hPu rfl
      dsimp only at h
      split at h
      · exact ih (hint u hPu) h
      · next q hscan =>
        obtain ⟨v, hv, h⟩ := Option.bind_eq_some_iff.mp h
        split at h
        · exact ih (hwait hPu hv) h
        · next hcount =>
          obtain ⟨⟨again, w⟩, hw, hk⟩ := Option.bind_eq_some_iff.mp h
          obtain ⟨hPw, hR⟩ := hclean hPu ((scanFree_mem hscan).resolve_left nofun) hv
            (not_not.mp hcount) hw
          split at hk
          · exact ih hPw hk
          · next hnone =>
            cases hk
            exact hR (Bool.not_eq_true _ ▸ fun hb => hnone (Or.inl hb))
              (Option.not_isSome_iff_eq_none.mp fun h => hnone (Or.inr h))

theorem getblk_kept (hsync : Blocked sync) (hl : ∃ i < 32, (s.inode i).lock = true)
    (h : getblk sync fuel dev block s = some (bh, s')) : Kept s s' := by
  refine getblk_rule (P := Kept s) (R := fun _ => Kept s) (fun u K => K.trans (interrupt_kept u))
    (fun K hu => ?_) (fun K hv => K.trans (waitBufferUnlock_kept hv)) (fun K _ hv _ hw => ?_) (.refl s) h
  · have Ku := K.trans (getHashTable_kept hu)
    exact ⟨fun _ => Ku, fun _ _ => Ku⟩
  · have Kv := K.trans (waitBufferUnlock_kept hv)
    obtain ⟨rfl, -, -⟩ := cleanLoop_locked hsync (by rw [Kv.inode]; exact hl) hw
    exact ⟨Kv, fun _ _ => Kv.trans ⟨rfl, rfl⟩⟩

theorem brelse_kept (h : brelse bh s = some s') : Kept s s' := by
  obtain ⟨u, hu, h⟩ := Option.bind_eq_some_iff.mp h
  have K := waitBufferUnlock_kept hu
  split at h
  · cases h
  · cases h
    exact K.trans ⟨rfl, rfl⟩

theorem bread_kept (hsync : Blocked sync) (hl : ∃ i < 32, (s.inode i).lock = true) {found : Option Nat}
    (h : bread ramdisk sync fuel dev block s = some (found, s')) : Kept s s' := by
  obtain ⟨⟨q, u⟩, hu, h⟩ := Option.bind_eq_some_iff.mp h
  have K := getblk_kept hsync hl hu
  dsimp only at h
  split at h
  · cases h
    exact K
  · obtain ⟨v, hv, h⟩ := Option.bind_eq_some_iff.mp h
    obtain ⟨w, hw, h⟩ := Option.bind_eq_some_iff.mp h
    have K := K.trans ((llRwBlock_kept hv).trans (waitBufferUnlock_kept hw))
    split at h
    · cases h
      exact K
    · obtain ⟨x, hx, h⟩ := Option.map_eq_some_iff.mp h
      cases h
      exact K.trans (brelse_kept hx)

/-! ## Locked inodes -/

/-- A loop over the first entries of a table. -/
theorem forEach_append (f : Nat → Sys → Option Sys) (is : List Nat) (i : Nat) (s : Sys) :
    forEach f (is ++ [i]) s = (forEach f is s).bind (f i) := by
  induction is generalizing s with
  | nil =>
    show (f i s).bind some = f i s
    cases f i s <;> rfl
  | cons j is ih =>
    rw [List.cons_append, forEach, forEach, Option.bind_assoc]
    exact congrArg (Option.bind (f j s)) (funext ih)

/-- THE RULE for a loop over a table: what an iteration hands to the next one. -/
theorem forEach_range {f : Nat → Sys → Option Sys} {P : Nat → Sys → Prop} {n : Nat}
    (hstep : ∀ i < n, ∀ s s', P i s → f i s = some s' → P (i + 1) s') (h0 : P 0 s)
    (h : forEach f (List.range n) s = some s') : P n s' := by
  induction n generalizing s' with
  | zero =>
    cases h
    exact h0
  | succ n ih =>
    rw [List.range_succ, forEach_append] at h
    obtain ⟨u, hu, h⟩ := Option.bind_eq_some_iff.mp h
    exact hstep n (Nat.lt_succ_self n) u s'
      (ih (fun i hi => hstep i (Nat.lt_succ_of_lt hi)) hu) h

theorem writeInode_others (hsync : Blocked sync) {i : Nat} (hi : i < 32)
    (h : writeInode ramdisk sync fuel i s = some s') {j : Nat} (hj : j ≠ i) : s'.inode j = s.inode j := by
  unfold writeInode at h
  dsimp only at h
  split at h
  · cases h
  · split at h
    · cases h
      rfl
    · split at h
      · cases h
      · obtain ⟨⟨found, u⟩, hu, h⟩ := Option.bind_eq_some_iff.mp h
        have hl : ∃ j < 32, ((s.setInode i { s.inode i with lock := true }).inode j).lock = true :=
          ⟨i, hi, by rw [setInode_self]⟩
        have K := bread_kept hsync hl hu
        cases found with
        | none => cases h
        | some bh =>
          obtain ⟨v, hv, rfl⟩ := Option.map_eq_some_iff.mp h
          have K' := K.trans (brelse_kept hv).cache
          rw [setInode_other _ _ hj, K'.inode, setInode_other _ _ hj]

/-- `sync_inodes` comes to the locked inode, and stays there. -/
theorem syncInodes_blocked (hsync : Blocked sync) (hl : ∃ i < 32, (s.inode i).lock = true) :
    syncInodes ramdisk sync fuel s = none := by
  obtain ⟨i, hi, hlock⟩ := hl
  cases h : syncInodes ramdisk sync fuel s with
  | none => rfl
  | some s' =>
    have hend : 32 ≤ i ∧ (s'.inode i).lock = true := by
      refine forEach_range (P := fun k u => k ≤ i ∧ (u.inode i).lock = true) ?_ ⟨Nat.zero_le i, hlock⟩ h
      rintro k hk u u' ⟨hki, hu⟩ hstep
      by_cases hlk : (u.inode k).lock
      · rw [if_pos hlk] at hstep
        cases hstep
      · rw [if_neg hlk] at hstep
        have hne : i ≠ k := by
          rintro rfl
          exact hlk hu
        refine ⟨by omega, ?_⟩
        split at hstep
        · rw [writeInode_others hsync hk hstep hne]
          exact hu
        · cases hstep
          exact hu
    omega

theorem syncBuffers_kept (h : syncBuffers ramdisk dev s = some s') : Kept s s' := by
  refine forEach_range (P := fun _ u => Kept s u) (fun k _ u u' K hstep => ?_) (.refl s) h
  split at hstep
  · cases hstep
    exact K
  · obtain ⟨v, hv, hstep⟩ := Option.bind_eq_some_iff.mp hstep
    have Kv := K.trans (waitBufferUnlock_kept hv)
    split at hstep
    · exact Kv.trans (llRwBlock_kept hstep)
    · cases hstep
      exact Kv

theorem syncDev_blocked (fuel : Nat) : Blocked (syncDev ramdisk fuel) := by
  induction fuel with
  | zero => exact fun _ _ _ => rfl
  | succ fuel ih =>
    intro dev s hl
    unfold syncDev
    cases h : syncBuffers ramdisk dev s with
    | none => rfl
    | some u =>
      rw [Option.bind_some, syncInodes_blocked ih (by rw [(syncBuffers_kept h).inode]; exact hl)]
      rfl

/-! ## Waiting -/

theorem sleepLoop_spec {p : Cache → Bool} {irq irq' : List (List Nat)} (S : Sound c)
    (h : sleepLoop p irq c = some (c', irq')) : Quiet c c' ∧ p c' = false := by
  induction irq generalizing c with
  | nil =>
    unfold sleepLoop at h
    split at h
    · cases h
    · next hp =>
      cases h
      exact ⟨.refl S, Bool.not_eq_true _ ▸ hp⟩
  | cons is irq ih =>
    unfold sleepLoop at h
    split at h
    · have Q := finishAll_quiet S is
      obtain ⟨Q', hp⟩ := ih Q.sound h
      exact ⟨Q.trans Q', hp⟩
    · next hp =>
      cases h
      exact ⟨.refl S, Bool.not_eq_true _ ▸ hp⟩

theorem sleepWhile_spec {p : Cache → Bool} (S : Sound s.cache) (h : s.sleepWhile p = some s') :
    Quiet s.cache s'.cache ∧ p s'.cache = false := by
  obtain ⟨⟨c, irq⟩, hr, rfl⟩ := Option.map_eq_some_iff.mp h
  exact sleepLoop_spec S hr

theorem interrupt_spec (S : Sound s.cache) : Quiet s.cache s.interrupt.cache := by
  unfold Sys.interrupt
  split
  · exact .refl S
  · exact finishAll_quiet S _

theorem waitBufferUnlock_spec (S : Sound s.cache) (h : waitBufferUnlock bh s = some s') :
    Quiet s.cache s'.cache ∧ (s'.cache.head bh).lock = false := by
  have Q := interrupt_spec S
  obtain ⟨Q', hl⟩ := sleepWhile_spec Q.sound h
  exact ⟨Q.trans Q', hl⟩

/-! ## Requests -/

theorem hasDriver_ne_zero (h : hasDriver ramdisk dev = true) : dev ≠ 0 := by
  rintro rfl
  cases ramdisk <;> cases h

theorem emptyRequest_lt {n i : Nat} (h : emptyRequest c n = some i) : i < n := by
  induction n with
  | zero => cases h
  | succ n ih =>
    rw [emptyRequest] at h
    split at h
    · cases h
      exact Nat.lt_succ_self i
    · exact Nat.lt_succ_of_lt (ih h)

theorem requestLimit_le (cmd : Cmd) : requestLimit cmd ≤ 32 := by cases cmd <;> decide

/-- A buffer that the task has locked gets its request. -/
theorem findRequest_spec {cmd : Cmd} (S : Sound s.cache) (hidle : Idle s.cache bh)
    (h : findRequest cmd bh s = some s') :
    ∃ i c, Quiet s.cache c ∧ c.head bh = s.cache.head bh ∧ Idle c bh ∧ i < 32 ∧ c.request i = none ∧
      s'.cache = c.addRequest i cmd bh := by
  obtain ⟨u, hu, h⟩ := Option.bind_eq_some_iff.mp h
  obtain ⟨i, hi, rfl⟩ := Option.map_eq_some_iff.mp h
  obtain ⟨Q, -⟩ := sleepWhile_spec S hu
  obtain ⟨hhead, hidle'⟩ := Q.idle bh hidle
  exact ⟨i, u.cache, Q, hhead, hidle', Nat.lt_of_lt_of_le (emptyRequest_lt hi) (requestLimit_le cmd),
    emptyRequest_free hi, rfl⟩

/-- The buffer and its flags while the request is waited for. -/
theorem lock_spec (S : Sound c) (hunlocked : (c.head bh).lock = false) :
    Same c (c.modify bh fun h => { h with lock := true }) ∧
      Idle (c.modify bh fun h => { h with lock := true }) bh ∧
      (c.modify bh fun h => { h with lock := true }).head bh = { c.head bh with lock := true } ∧
      Keeps c (c.modify bh fun h => { h with lock := true }) ∧
      ∀ q, ((c.modify bh fun h => { h with lock := true }).head q).dirt = (c.head q).dirt := by
  refine ⟨S.lock bh, S.idle hunlocked, modify_head _ _ _,
    (Keeps.refl c).modify bh _ (fun _ => rfl) (fun _ => rfl) fun _ => rfl, fun q => ?_⟩
  by_cases hq : q = bh
  · rw [hq, modify_head]
  · rw [modify_other _ _ hq]

/-- The cache after a write request, or none if the buffer was clean. -/
structure Cleaned (c c' : Cache) (bh : Nat) : Prop where
  sound : Sound c'
  logical : logical c' = logical c
  settled : ∀ dev block, Settled c dev block → Settled c' dev block
  nr : c'.nr = c.nr
  keeps : Keeps c c'
  self : (c'.head bh).dirt = false
  other : ∀ q, q ≠ bh → (c'.head q).dirt = (c.head q).dirt

theorem llRwBlock_write (S : Sound s.cache) (hd : hasDriver ramdisk (s.cache.head bh).dev = true)
    (h : llRwBlock ramdisk .write bh s = some s') : Cleaned s.cache s'.cache bh := by
  unfold llRwBlock at h
  rw [if_pos hd] at h
  obtain ⟨u, hu, h⟩ := Option.bind_eq_some_iff.mp h
  obtain ⟨Q, hl⟩ := waitBufferUnlock_spec S hu
  by_cases hdirt : (u.cache.head bh).dirt = true
  · rw [if_neg (by rw [hdirt]; rintro (⟨-, h⟩ | ⟨h, -⟩) <;> cases h)] at h
    obtain ⟨L, hidle, hself, hids, hdirty⟩ := lock_spec Q.sound hl
    obtain ⟨i, c, Q', hhead, hidle', hi, hfree, hc⟩ := findRequest_spec
      (s := { u with cache := u.cache.modify bh fun h => { h with lock := true } }) L.sound hidle h
    have hcbh : c.head bh = { u.cache.head bh with lock := true } := hhead.trans hself
    have hdev : (c.head bh).dev ≠ 0 := by
      rw [hcbh]
      show (u.cache.head bh).dev ≠ 0
      rw [Q.keeps.dev]
      exact hasDriver_ne_zero hd
    obtain ⟨S', hclean, hrest, -, hlog⟩ := addRequest_spec .write
      Q'.sound hi hdev (by rw [hcbh]) hidle'
      hfree nofun (fun _ => by rw [hcbh]; exact hdirt)
    have K := Keeps.addRequest c i .write bh
    have hflags : ∀ q, (c.head q).dirt = (u.cache.head q).dirt := fun q => (Q'.dirt q).trans (hdirty q)
    have hkeeps : Keeps s.cache c := Q.keeps.trans (hids.trans Q'.keeps)
    rw [hc]
    have hall : Same s.cache c := Q.toSame.trans (L.trans Q'.toSame)
    obtain ⟨hlog, hre⟩ := hlog rfl
    refine ⟨S', hlog.trans hall.logical, fun d b hd => ?_, hall.nr, hkeeps.trans K, hclean, fun q hq => ?_⟩
    · rw [Settled, hlog, hre]
      by_cases hdb : d = (c.head bh).dev ∧ b = (c.head bh).blocknr
      · rw [hdb.1, hdb.2, put_self]
      · rw [put_other hdb, hall.reread, hall.logical]
        exact hd
    · rw [hrest q hq, hflags, Q.dirt]
  · have hclean : (u.cache.head bh).dirt = false := Bool.not_eq_true _ ▸ hdirt
    rw [if_pos (Or.inl ⟨rfl, hclean⟩)] at h
    cases h
    exact ⟨Q.sound, Q.logical, fun _ _ hd => Q.toSame.settled hd, Q.nr, Q.keeps, hclean,
      fun q _ => Q.dirt q⟩

theorem Cleaned.dirtier (C : Cleaned c c' bh) : NoDirtier c c' := fun q hq => by
  by_cases h : q = bh
  · rw [h, C.self] at hq
    cases hq
  · rw [C.other q h] at hq
    exact ⟨hq, C.keeps.dev q⟩

/-- The cache after a block has been asked for. -/
structure Fetched (c c' : Cache) (dev : Dev) (block : Block) : Prop where
  sound : Sound c'
  logical : logical c' = put (logical c) dev block (reread c dev block)
  reread : reread c' = reread c
  dirtier : NoDirtier c c'
  nr : c'.nr = c.nr

theorem Fetched.quiet (F : Fetched c c' dev block) {d : Cache} (Q : Same c' d) : Fetched c d dev block :=
  ⟨Q.sound, Q.logical.trans F.logical, Q.reread.trans F.reread, F.dirtier.trans Q.dirtier,
    Q.nr.trans F.nr⟩

theorem Same.fetched (Q : Same c c') {d : Cache} (F : Fetched c' d dev block) : Fetched c d dev block :=
  ⟨F.sound, by rw [F.logical, Q.logical, Q.reread], F.reread.trans Q.reread, Q.dirtier.trans F.dirtier,
    F.nr.trans Q.nr⟩

/-- A buffer that is up to date is not read again. -/
theorem fetched_uptodate (S : Sound c) (his : (c.head bh).Is dev block) (h0 : dev ≠ 0)
    (hu : (c.head bh).uptodate = true) : Fetched c c dev block := by
  have hns : ¬ Stale c bh := fun h => by
    rw [Stale, hu] at h
    cases h.2.1
  exact ⟨S, by rw [fresh_views S his h0 hns, put_same], rfl, fun _ h => ⟨h, rfl⟩, rfl⟩

/-- A read request for a buffer that is locked. -/
theorem addRequest_fetched (S : Sound c) {i : Nat} (hi : i < 32) (his : (c.head bh).Is dev block)
    (h0 : dev ≠ 0) (hlock : (c.head bh).lock = true) (hidle : Idle c bh) (hfree : c.request i = none)
    (hup : (c.head bh).uptodate = false) : Fetched c (c.addRequest i .read bh) dev block := by
  obtain ⟨rfl, rfl⟩ := his
  obtain ⟨S', hclean, hrest, hlog, -⟩ := addRequest_spec .read S hi h0 hlock hidle hfree
    (fun _ => hup) nofun
  obtain ⟨hlog, hre⟩ := hlog rfl
  refine ⟨S', hlog, hre, fun q hq => ?_, rfl⟩
  by_cases h : q = bh
  · rw [h, hclean] at hq
    cases hq
  · rw [hrest q h] at hq ⊢
    exact ⟨hq, rfl⟩

theorem llRwBlock_read (S : Sound s.cache) (his : (s.cache.head bh).Is dev block)
    (hd : hasDriver ramdisk dev = true) (h : llRwBlock ramdisk .read bh s = some s') :
    Fetched s.cache s'.cache dev block ∧ (s'.cache.head bh).Is dev block := by
  obtain ⟨rfl, rfl⟩ := his
  have h0 := hasDriver_ne_zero hd
  unfold llRwBlock at h
  rw [if_pos hd] at h
  obtain ⟨u, hu, h⟩ := Option.bind_eq_some_iff.mp h
  obtain ⟨Q, hl⟩ := waitBufferUnlock_spec S hu
  have hid : (u.cache.head bh).Is (s.cache.head bh).dev (s.cache.head bh).blocknr :=
    ⟨Q.keeps.dev bh, Q.keeps.blocknr bh⟩
  by_cases hup : (u.cache.head bh).uptodate = true
  · rw [if_pos (Or.inr ⟨rfl, hup⟩)] at h
    cases h
    exact ⟨Q.toSame.fetched (fetched_uptodate Q.sound hid h0 hup), hid⟩
  · have hup : (u.cache.head bh).uptodate = false := Bool.not_eq_true _ ▸ hup
    rw [if_neg (by rw [hup]; rintro (⟨h, -⟩ | ⟨-, h⟩) <;> cases h)] at h
    obtain ⟨L, hidle, hself, -⟩ := lock_spec Q.sound hl
    obtain ⟨i, c, Q', hhead, hidle', hi, hfree, hc⟩ := findRequest_spec
      (s := { u with cache := u.cache.modify bh fun h => { h with lock := true } }) L.sound hidle h
    have hcbh : c.head bh = { u.cache.head bh with lock := true } := hhead.trans hself
    have hid' : (c.head bh).Is (s.cache.head bh).dev (s.cache.head bh).blocknr := by
      rw [hcbh]
      exact hid
    have F := addRequest_fetched Q'.sound hi hid' h0 (by rw [hcbh]) hidle' hfree (by rw [hcbh]; exact hup)
    have K := Keeps.addRequest c i .read bh
    have hall : Same s.cache c := Q.toSame.trans (L.trans Q'.toSame)
    rw [hc]
    exact ⟨hall.fetched F, (K.dev bh).trans hid'.1, (K.blocknr bh).trans hid'.2⟩

/-! ## Blocks -/

theorem getHashTable_spec {found : Option Nat} (S : Sound s.cache)
    (h : getHashTable fuel dev block s = some (found, s')) : Same s.cache s'.cache ∧
      ∀ bh, found = some bh → (s'.cache.head bh).Is dev block ∧ (s'.cache.head bh).lock = false := by
  induction fuel generalizing s with
  | zero => cases h
  | succ fuel ih =>
    unfold getHashTable at h
    split at h
    · cases h
      exact ⟨.refl S, nofun⟩
    · next q _ =>
      obtain ⟨u, hu, h⟩ := Option.bind_eq_some_iff.mp h
      have H := S.hold q
      obtain ⟨Q, hl⟩ := waitBufferUnlock_spec (s := { s with cache := s.cache.hold q }) H.sound hu
      have M := H.trans Q.toSame
      split at h
      · next his =>
        cases h
        refine ⟨M, fun bh hbh => ?_⟩
        cases hbh
        exact ⟨his, hl⟩
      · have D := Q.sound.drop q
        obtain ⟨M', hfound⟩ := ih (s := { u with cache := u.cache.drop q }) D.sound h
        exact ⟨M.trans (D.trans M'), hfound⟩

/-- The buffer of the block, with nobody who has locked it. -/
def Obtained (dev : Dev) (block : Block) (bh : Nat) (s : Sys) : Prop :=
  (s.cache.head bh).Is dev block ∧ (s.cache.head bh).lock = false

theorem obtained_take (s : Sys) (bh : Nat) (dev : Dev) (block : Block)
    (hlock : (s.cache.head bh).lock = false) :
    Obtained dev block bh { s with cache := take s.cache bh dev block } := by
  unfold Obtained
  dsimp only
  rw [take_head]
  exact ⟨⟨rfl, rfl⟩, hlock⟩

/-- `getblk` for a task that has locked an inode. -/
theorem getblk_spec (hsync : Blocked sync) (hl : ∃ i < 32, (s.inode i).lock = true) (S : Sound s.cache)
    (h0 : dev ≠ 0) (h : getblk sync fuel dev block s = some (bh, s')) :
    Same s.cache s'.cache ∧ Obtained dev block bh s' := by
  refine getblk_rule (P := fun u => Kept s u ∧ Same s.cache u.cache)
    (R := fun q u => Same s.cache u.cache ∧ Obtained dev block q u)
    (fun u ⟨K, M⟩ => ⟨K.trans (interrupt_kept u), M.trans (interrupt_spec M.sound).toSame⟩)
    (fun ⟨K, M⟩ hu => ?_) (fun ⟨K, M⟩ hv => ?_) (fun ⟨K, M⟩ hq hv _ hw => ?_)
    ⟨.refl s, .refl S⟩ h
  · obtain ⟨M', hfound⟩ := getHashTable_spec M.sound hu
    exact ⟨fun _ => ⟨K.trans (getHashTable_kept hu), M.trans M'⟩, fun q h => ⟨M.trans M', hfound q h⟩⟩
  · exact ⟨K.trans (waitBufferUnlock_kept hv), M.trans (waitBufferUnlock_spec M.sound hv).1.toSame⟩
  · have Kv := K.trans (waitBufferUnlock_kept hv)
    obtain ⟨Q, hlock⟩ := waitBufferUnlock_spec M.sound hv
    have Mv := M.trans Q.toSame
    obtain ⟨rfl, -, hdirt⟩ := cleanLoop_locked hsync (by rw [Kv.inode]; exact hl) hw
    refine ⟨⟨Kv, Mv⟩, fun _ hfind => ⟨Mv.trans ?_, obtained_take _ _ dev block hlock⟩⟩
    exact take_same Q.sound (Q.nr ▸ M.sound.ring _ hq) hlock hdirt hfind h0

theorem brelse_spec (S : Sound s.cache) (h : brelse bh s = some s') : Same s.cache s'.cache := by
  obtain ⟨u, hu, h⟩ := Option.bind_eq_some_iff.mp h
  obtain ⟨Q, -⟩ := waitBufferUnlock_spec S hu
  split at h
  · cases h
  · cases h
    exact Q.toSame.trans (Q.sound.drop bh)

/-- `bread` for a task that has locked an inode. -/
theorem bread_spec (hsync : Blocked sync) (hl : ∃ i < 32, (s.inode i).lock = true) (S : Sound s.cache)
    (hd : hasDriver ramdisk dev = true) (h : bread ramdisk sync fuel dev block s = some (some bh, s')) :
    Fetched s.cache s'.cache dev block ∧ (s'.cache.head bh).Is dev block ∧
      (s'.cache.head bh).uptodate = true ∧ (s'.cache.head bh).lock = false := by
  have h0 := hasDriver_ne_zero hd
  obtain ⟨⟨q, u⟩, hu, h⟩ := Option.bind_eq_some_iff.mp h
  obtain ⟨M, his, hlock⟩ := getblk_spec hsync hl S h0 hu
  dsimp only at h
  split at h
  · next hup =>
    cases h
    exact ⟨M.fetched (fetched_uptodate M.sound his h0 hup), his, hup, hlock⟩
  · obtain ⟨v, hv, h⟩ := Option.bind_eq_some_iff.mp h
    obtain ⟨w, hw, h⟩ := Option.bind_eq_some_iff.mp h
    obtain ⟨F, his'⟩ := llRwBlock_read M.sound his hd hv
    obtain ⟨Q, hlock'⟩ := waitBufferUnlock_spec F.sound hw
    split at h
    · next hup =>
      cases h
      exact ⟨(M.fetched F).quiet Q.toSame,
        ⟨(Q.keeps.dev bh).trans his'.1, (Q.keeps.blocknr bh).trans his'.2⟩, hup, hlock'⟩
    · obtain ⟨x, -, hx⟩ := Option.map_eq_some_iff.mp h
      cases hx

end Linux011.Sync
