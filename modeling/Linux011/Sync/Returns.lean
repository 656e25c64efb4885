import Linux011.Sync.ReadBack

/-!
# Calls that return

`sync_dev` does not return to a task that has locked an inode, and `getblk` sleeps when every buffer is
held. While no inode is dirty or locked, and two buffers are held by nobody, a call waits for the
drivers only. If they finish all requests whenever somebody waits, a bounded number of waits is enough.
-/

namespace Linux011.Sync

open Buffer

variable {ramdisk : Bool} {sync : Dev → Sys → Option Sys} {s s' u : Sys} {c c' : Cache}
  {bh fuel k : Nat} {dev : Dev} {block : Block}

/-! ## What the drivers do -/

/-- For the next `k` waits the drivers finish all requests. -/
structure Fed (k : Nat) (s : Sys) : Prop where
  all : ∀ is ∈ s.irq, ∀ i < 32, i ∈ is
  length : k ≤ s.irq.length

/-- At most `k` waits are over. -/
structure Takes (k : Nat) (s s' : Sys) : Prop where
  suffix : s'.irq <:+ s.irq
  length : s.irq.length ≤ s'.irq.length + k

theorem Takes.refl (s : Sys) : Takes 0 s s := ⟨List.suffix_rfl, Nat.le_refl _⟩

theorem Takes.trans {j : Nat} (h : Takes k s u) (h' : Takes j u s') : Takes (k + j) s s' :=
  ⟨h'.suffix.trans h.suffix, by have := h.length; have := h'.length; omega⟩

theorem Takes.mono {j : Nat} (h : Takes k s s') (hk : k ≤ j) : Takes j s s' :=
  ⟨h.suffix, by have := h.length; omega⟩

theorem Fed.mono {j : Nat} (h : Fed k s) (hj : j ≤ k) : Fed j s := ⟨h.all, Nat.le_trans hj h.length⟩

theorem Fed.after {j : Nat} (h : Fed (k + j) s) (ht : Takes k s s') : Fed j s' :=
  ⟨fun is his => h.all is (ht.suffix.subset his), by have := h.length; have := ht.length; omega⟩

/-- The requests that are left. -/
theorem finishAll_request (c : Cache) (is : List Nat) (j : Nat) :
    (finishAll c is).request j = if j ∈ is then none else c.request j := by
  induction is generalizing c with
  | nil => rfl
  | cons i is ih =>
    have hfirst : (finish c i).request j = if j = i then none else c.request j := by
      unfold finish
      cases hr : c.request i with
      | none =>
        show c.request j = _
        split
        · next h => rw [h, hr]
        · rfl
      | some r => rw [(endRequest_rest c i r).2.1, Function.update_apply]
    show (finishAll (finish c i) is).request j = _
    rw [ih, hfirst]
    by_cases hj : j ∈ is
    · rw [if_pos hj, if_pos (List.mem_cons_of_mem i hj)]
    · rw [if_neg hj]
      by_cases hji : j = i
      · rw [if_pos hji, if_pos (hji ▸ List.mem_cons_self)]
      · rw [if_neg hji, if_neg (List.not_mem_cons_of_ne_of_not_mem hji hj)]

/-- A task that sleeps is woken with no request left. -/
theorem sleepWhile_returns {p : Cache → Bool} (F : Fed 1 s)
    (hp : ∀ is, (∀ i < 32, i ∈ is) → p (finishAll s.cache is) = false) :
    ∃ s', s.sleepWhile p = some s' ∧ Takes 1 s s' := by
  obtain ⟨is, irq, hirq⟩ := List.exists_cons_of_length_pos F.length
  have hnext := hp is (F.all is (by rw [hirq]; exact List.mem_cons_self))
  unfold Sys.sleepWhile
  rw [hirq]
  by_cases hnow : p s.cache = true
  · have hloop : sleepLoop p irq (finishAll s.cache is) = some (finishAll s.cache is, irq) := by
      cases irq <;> rw [sleepLoop, if_neg (Bool.not_eq_true _ ▸ hnext)]
    rw [sleepLoop, if_pos hnow, hloop]
    refine ⟨_, rfl, ?_, ?_⟩
    · rw [hirq]
      exact List.suffix_cons is irq
    · rw [hirq]
      exact Nat.le_refl _
  · rw [sleepLoop, if_neg hnow]
    refine ⟨_, rfl, ?_, ?_⟩
    · rw [hirq]
    · rw [hirq]
      exact Nat.le_succ _

theorem interrupt_takes (s : Sys) : Takes 1 s s.interrupt := by
  unfold Sys.interrupt
  split
  · exact (Takes.refl s).mono (Nat.zero_le 1)
  · next is irq h =>
    refine ⟨?_, ?_⟩
    · rw [h]
      exact List.suffix_cons is irq
    · rw [h]
      exact Nat.le_refl _

/-- A buffer is unlocked. -/
theorem waitBufferUnlock_returns (S : Sound s.cache) (hs : Served s.cache bh) (F : Fed 2 s) :
    ∃ s', waitBufferUnlock bh s = some s' ∧ Takes 2 s s' := by
  have Ti := interrupt_takes s
  have S' := (interrupt_spec S).sound
  have hs' := (interrupt_refs s).served bh hs
  obtain ⟨s', h, T⟩ := sleepWhile_returns (p := fun c => (c.head bh).lock) ((F.after (j := 1) Ti))
    fun is his => by
      by_contra hl
      obtain ⟨i, r, hr, -⟩ := (finishAll_refs s.interrupt.cache is).served bh hs'
        (Bool.not_eq_false _ ▸ hl)
      rw [finishAll_request] at hr
      split at hr
      · cases hr
      · next hi =>
        by_cases hlt : i < 32
        · exact hi (his i hlt)
        · rw [S'.table i (by omega)] at hr
          cases hr
  exact ⟨s', h, Ti.trans T⟩

theorem emptyRequest_isSome {n : Nat} (hn : 0 < n) (h : ∀ i < n, c.request i = none) :
    (emptyRequest c n).isSome = true := by
  obtain ⟨m, rfl⟩ := Nat.exists_eq_succ_of_ne_zero (Nat.pos_iff_ne_zero.mp hn)
  rw [emptyRequest, h m (Nat.lt_succ_self m)]
  rfl

theorem findRequest_returns (cmd : Cmd) (bh : Nat) (F : Fed 1 s) :
    ∃ s', findRequest cmd bh s = some s' ∧ Takes 1 s s' := by
  obtain ⟨u, hu, T⟩ := sleepWhile_returns (p := fun c => (emptyRequest c (requestLimit cmd)).isNone) F
    fun is his => by
      have hsome : (emptyRequest (finishAll s.cache is) (requestLimit cmd)).isSome = true := by
        refine emptyRequest_isSome (by cases cmd <;> decide) fun i hi => ?_
        rw [finishAll_request, if_pos (his i (Nat.lt_of_lt_of_le hi (requestLimit_le cmd)))]
      rw [Option.isNone_eq_false_iff]
      exact hsome
  obtain ⟨-, hfree⟩ := sleepWhile_refs hu
  obtain ⟨i, hi⟩ := Option.isSome_iff_exists.mp (Option.isNone_eq_false_iff.mp hfree)
  unfold findRequest
  rw [hu, Option.bind_some, hi]
  exact ⟨_, rfl, T.suffix, T.length⟩

theorem llRwBlock_returns (ramdisk : Bool) (cmd : Cmd) (S : Sound s.cache)
    (hs : Served s.cache bh) (F : Fed 3 s) :
    ∃ s', llRwBlock ramdisk cmd bh s = some s' ∧ Takes 3 s s' := by
  unfold llRwBlock
  split
  · obtain ⟨u, hu, T⟩ := waitBufferUnlock_returns S hs (F.mono (by omega))
    rw [hu, Option.bind_some]
    split
    · exact ⟨u, rfl, T.mono (by omega)⟩
    · have F' := F.after (j := 1) T
      obtain ⟨s', h, T'⟩ := findRequest_returns cmd bh
        (s := { u with cache := u.cache.modify bh fun h => { h with lock := true } })
        ⟨F'.all, F'.length⟩
      exact ⟨s', h, T'.suffix.trans T.suffix, by
        have := T.length
        have : u.irq.length ≤ s'.irq.length + 1 := T'.length
        omega⟩
  · exact ⟨s, rfl, (Takes.refl s).mono (by omega)⟩

/-! ## Loops over the buffers -/

/-- What the waits of a loop rely on. -/
structure Going (s : Sys) : Prop where
  sound : Sound s.cache
  served : ∀ q, Served s.cache q

/-- THE RULE for the waits of a loop: each iteration may use `k`. -/
theorem forEach_returns {f : Nat → Sys → Option Sys} {P : Sys → Prop}
    (hstep : ∀ i s, P s → Fed k s → ∃ s', f i s = some s' ∧ P s' ∧ Takes k s s') {is : List Nat}
    (h0 : P s) (F : Fed (k * is.length) s) :
    ∃ s', forEach f is s = some s' ∧ Takes (k * is.length) s s' := by
  induction is generalizing s with
  | nil => exact ⟨s, rfl, .refl s⟩
  | cons i is ih =>
    rw [List.length_cons, Nat.mul_succ, Nat.add_comm] at F ⊢
    obtain ⟨u, hu, hP, T⟩ := hstep i s h0 (F.mono (Nat.le_add_right _ _))
    obtain ⟨s', h, T'⟩ := ih hP (F.after T)
    rw [forEach, hu]
    exact ⟨s', h, T.trans T'⟩

theorem forEach_idle {f : Nat → Sys → Option Sys} {is : List Nat} (h : ∀ i ∈ is, f i s = some s) :
    forEach f is s = some s := by
  induction is with
  | nil => rfl
  | cons i is ih =>
    rw [forEach, h i List.mem_cons_self]
    exact ih fun j hj => h j (List.mem_cons_of_mem i hj)

theorem Going.wait (W : Going s) (F : Fed 2 s) (bh : Nat) :
    ∃ s', waitBufferUnlock bh s = some s' ∧ Going s' ∧ Takes 2 s s' := by
  obtain ⟨s', h, T⟩ := waitBufferUnlock_returns W.sound (W.served bh) F
  exact ⟨s', h, ⟨(waitBufferUnlock_spec W.sound h).1.sound,
    fun q => (waitBufferUnlock_refs h).1.served q (W.served q)⟩, T⟩

theorem llRwBlock_sound {cmd : Cmd} (S : Sound s.cache) (h : llRwBlock ramdisk cmd bh s = some s') :
    Sound s'.cache := by
  by_cases hd : hasDriver ramdisk (s.cache.head bh).dev = true
  · cases cmd with
    | read => exact (llRwBlock_read S ⟨rfl, rfl⟩ hd h).1.sound
    | write => exact (llRwBlock_write S hd h).sound
  · unfold llRwBlock at h
    rw [if_neg hd] at h
    cases h
    exact S

theorem Going.request (W : Going s) (F : Fed 3 s) (ramdisk : Bool) (cmd : Cmd) (bh : Nat) :
    ∃ s', llRwBlock ramdisk cmd bh s = some s' ∧ Going s' ∧ Takes 3 s s' := by
  obtain ⟨s', h, T⟩ := llRwBlock_returns ramdisk cmd W.sound (W.served bh) F
  exact ⟨s', h, ⟨llRwBlock_sound W.sound h, fun q => (llRwBlock_refs h).served q (W.served q)⟩, T⟩

theorem syncBuffers_returns (ramdisk : Bool) (dev : Dev) (W : Going s) (F : Fed (5 * s.cache.nr) s) :
    ∃ s', syncBuffers ramdisk dev s = some s' ∧ Takes (5 * s.cache.nr) s s' := by
  have hlen : (List.range s.cache.nr).length = s.cache.nr := List.length_range
  obtain ⟨s', h, T⟩ := forEach_returns (k := 5) (P := Going)
    (f := fun bh s =>
      if (s.cache.head bh).dev ≠ dev then some s
      else (waitBufferUnlock bh s).bind fun s =>
        if (s.cache.head bh).dev = dev ∧ (s.cache.head bh).dirt then llRwBlock ramdisk .write bh s
        else some s)
    (fun bh s W F => by
      split
      · exact ⟨s, rfl, W, (Takes.refl s).mono (by omega)⟩
      · obtain ⟨u, hu, Wu, T⟩ := W.wait (F.mono (by omega)) bh
        rw [hu, Option.bind_some]
        split
        · obtain ⟨v, hv, Wv, T'⟩ := Wu.request (F.after (j := 3) T) ramdisk .write bh
          exact ⟨v, hv, Wv, T.trans T'⟩
        · exact ⟨u, rfl, Wu, T.mono (by omega)⟩)
    W (show Fed (5 * (List.range s.cache.nr).length) s by rw [hlen]; exact F)
  rw [hlen] at T
  exact ⟨s', h, T⟩

/-! ## `sync_dev` -/

theorem Calm.syncInodes (C : Calm s) : syncInodes ramdisk sync fuel s = some s := by
  refine forEach_idle fun i hi => ?_
  obtain ⟨hd, hl⟩ := C.inode i (List.mem_range.mp hi)
  have hlock : ¬ (s.inode i).lock = true := by rw [hl]; exact Bool.false_ne_true
  have hdirt : ¬ ((s.inode i).dirt = true ∧ (s.inode i).pipe = false) := by
    rw [hd]
    exact fun h => Bool.false_ne_true h.1
  rw [if_neg hlock, if_neg hdirt]

/-- A device is written back, and its buffers are clean. -/
theorem syncDev_returns (fuel : Nat) (dev : Dev) (R : Ready ramdisk s) (C : Calm s)
    (F : Fed (10 * s.cache.nr) s) :
    ∃ s', syncDev ramdisk (fuel + 1) dev s = some s' ∧ Takes (10 * s.cache.nr) s s' ∧
      Keeps s.cache s'.cache ∧ ∀ bh, (s.cache.head bh).dev = dev → (s'.cache.head bh).dirt = false := by
  obtain ⟨u, hu, T⟩ := syncBuffers_returns ramdisk dev ⟨R.sound, C.served⟩ (F.mono (by omega))
  have W := syncBuffers_spec R.sound R.driven hu
  have Tu := syncBuffers_steady R hu
  have Cu := C.next Tu.inode (syncBuffers_refs hu).served
  have F' : Fed (5 * u.cache.nr) u := by
    rw [Tu.nr]
    exact (F.mono (Nat.le_of_eq (by omega))).after T
  obtain ⟨s', h, T'⟩ := syncBuffers_returns ramdisk dev
    ⟨Tu.ready.sound, Cu.served⟩ F'
  have W' := syncBuffers_spec Tu.ready.sound Tu.ready.driven h
  refine ⟨s', ?_, ?_, W.keeps.trans W'.keeps, fun bh hbh => ?_⟩
  · rw [syncDev, hu, Option.bind_some, Cu.syncInodes, Option.bind_some, h]
  · rw [Tu.nr] at T'
    exact (T.trans T').mono (by omega)
  · by_contra hd
    obtain ⟨hdu, -⟩ := W'.dirtier bh (Bool.not_eq_false _ ▸ hd)
    obtain ⟨hds, hdev⟩ := W.dirtier bh hdu
    have hlt := R.sound.buffers bh (hasDriver_ne_zero (R.driven bh hds))
    rw [W.clean bh hlt (hdev.trans hbh)] at hdu
    cases hdu

/-! ## `getblk` -/

theorem getHashTable_returns (S : Sound s.cache) (hs : ∀ q, Served s.cache q) (hf : Few 1 s.cache)
    (F : Fed 2 s) (fuel : Nat) (dev : Dev) (block : Block) :
    ∃ found s', getHashTable (fuel + 1) dev block s = some (found, s') ∧ Takes 2 s s' ∧
      (found = none → s' = s ∧ findBuffer s.cache dev block = none) := by
  unfold getHashTable
  cases hfind : findBuffer s.cache dev block with
  | none => exact ⟨none, s, rfl, (Takes.refl s).mono (by omega), fun _ => ⟨rfl, rfl⟩⟩
  | some q =>
    obtain ⟨u, hu, T⟩ := waitBufferUnlock_returns (s := { s with cache := s.cache.hold q })
      (S.hold q).sound ((hold_got hf q).served q (hs q)) ⟨F.all, F.length⟩
    have hstays := (count_stays s.cache q _ q).1.trans
      ((waitBufferUnlock_refs hu).1.held q (hold_got hf q).pos)
    dsimp only
    rw [hu, Option.bind_some, if_pos (hstays.is (findBuffer_some hfind))]
    exact ⟨some q, u, rfl, ⟨T.suffix, T.length⟩, fun h => by cases h⟩

theorem scanFree_isSome (best : Option Nat) {ring : List Nat}
    (h : best.isSome = true ∨ ∃ q ∈ ring, (c.head q).count = 0) :
    (scanFree c best ring).isSome = true := by
  induction ring generalizing best with
  | nil =>
    rcases h with h | ⟨q, hq, -⟩
    · exact h
    · cases hq
  | cons tmp ring ih =>
    rw [scanFree]
    split
    · next hcount =>
      refine ih best ?_
      rcases h with h | ⟨q, hq, h0⟩
      · exact .inl h
      · exact .inr ⟨q, (List.mem_cons.mp hq).resolve_left fun heq => hcount (heq ▸ h0), h0⟩
    · split
      · split
        · rfl
        · exact ih _ (.inl rfl)
      · next hbest =>
        cases best with
        | none => exact absurd rfl hbest
        | some b => exact ih _ (.inl rfl)

theorem scanFree_free {best : Option Nat} {ring : List Nat} (h : scanFree c best ring = some bh)
    (hb : ∀ b, best = some b → (c.head b).count = 0) : (c.head bh).count = 0 := by
  induction ring generalizing best with
  | nil => exact hb bh h
  | cons tmp ring ih =>
    rw [scanFree] at h
    split at h
    · exact ih h hb
    · next hcount =>
      have hzero : (c.head tmp).count = 0 := not_not.mp hcount
      split at h
      · split at h
        · cases h
          exact hzero
        · exact ih h fun b hb => by
            cases hb
            exact hzero
      · exact ih h hb

/-- The loop is passed at once, or after the device of the buffer has been written back. -/
theorem cleanLoop_returns (R : Ready ramdisk s) (C : Calm s) (hf : Few 1 s.cache)
    (hzero : (s.cache.head bh).count = 0) (F : Fed (10 * s.cache.nr + 2) s) (depth fuel : Nat) :
    ∃ s', cleanLoop (syncDev ramdisk (depth + 1)) bh (fuel + 2) s = some (false, s') ∧
      Takes (10 * s.cache.nr + 2) s s' ∧ Keeps s.cache s'.cache := by
  unfold cleanLoop
  by_cases hd : (s.cache.head bh).dirt = true
  · obtain ⟨u, hu, T, K, hclean⟩ := syncDev_returns depth (s.cache.head bh).dev R C
      (F.mono (by omega))
    have Tu := syncDev_steady (depth + 1) _ s u R hu
    have Ru := syncDev_refs (depth + 1) _ s u hf hu
    obtain ⟨v, hv, T'⟩ := waitBufferUnlock_returns Tu.ready.sound
      ((C.next Tu.inode Ru.served).served bh) (F.after T)
    have Q := (waitBufferUnlock_spec Tu.ready.sound hv).1
    have hcount : (v.cache.head bh).count = 0 := by rw [Q.keeps.count, K.count, hzero]
    have hdirt : (v.cache.head bh).dirt = false := by rw [Q.dirt, hclean bh rfl]
    rw [if_pos hd, hu, Option.bind_some, hv, Option.bind_some, if_neg (not_not.mpr hcount)]
    unfold cleanLoop
    rw [if_neg (by rw [hdirt]; exact Bool.false_ne_true)]
    exact ⟨v, rfl, T.trans T', K.trans Q.keeps⟩
  · rw [if_neg hd]
    exact ⟨s, rfl, (Takes.refl s).mono (Nat.zero_le _), .refl _⟩

theorem getblk_returns (R : Ready ramdisk s) (C : Calm s) (hf : Few 1 s.cache) (hspare : Spare s.cache)
    (F : Fed (10 * s.cache.nr + 7) s) (depth fuel : Nat) (dev : Dev) (block : Block) :
    ∃ bh s', getblk (syncDev ramdisk (depth + 1)) (fuel + 3) dev block s = some (bh, s') ∧
      Takes (10 * s.cache.nr + 7) s s' := by
  have Ti := interrupt_takes s
  have Si := interrupt_steady R
  have Ri := interrupt_refs s
  have Ci := C.next Si.inode Ri.served
  have F1 : Fed (2 + (2 + (10 * s.cache.nr + 2))) s.interrupt := (F.mono (by omega)).after Ti
  obtain ⟨found, u, hu, Tu, hnone⟩ := getHashTable_returns Si.ready.sound Ci.served (Ri.few hf)
    (F1.mono (by omega)) (fuel + 1) dev block
  unfold getblk
  rw [hu, Option.bind_some]
  cases found with
  | some q => exact ⟨q, u, rfl, (Ti.trans Tu).mono (by omega)⟩
  | none =>
    obtain ⟨rfl, hfind⟩ := hnone rfl
    obtain ⟨q, hq, hq0⟩ := hspare
    obtain ⟨bh, hscan⟩ := Option.isSome_iff_exists.mp (scanFree_isSome none (.inr
      ⟨q, (Ri.ring q).mpr hq, (Ri.count q).trans hq0⟩))
    have hzero := scanFree_free hscan fun b hb => by cases hb
    have F2 := F1.after Tu
    obtain ⟨v, hv, Tv⟩ := waitBufferUnlock_returns Si.ready.sound (Ci.served bh) (F2.mono (by omega))
    have Q := (waitBufferUnlock_spec Si.ready.sound hv).1
    have Sv := waitBufferUnlock_steady Si.ready hv
    have Rv := (waitBufferUnlock_refs hv).1
    have hcount : (v.cache.head bh).count = 0 := (Rv.count bh).trans hzero
    have hnr : v.cache.nr = s.cache.nr := Sv.nr.trans Si.nr
    obtain ⟨w, hw, Tw, K⟩ := cleanLoop_returns Sv.ready (Ci.next Sv.inode Rv.served)
      ((Ri.trans Rv).few hf) hcount (by rw [hnr]; exact F2.after Tv) depth fuel
    -- the buffers have kept their blocks
    have K := Q.keeps.trans K
    have hfind : findBuffer w.cache dev block = none :=
      (findBuffer_ids (fun q => ⟨K.dev q, K.blocknr q⟩) K.hash dev block).trans hfind
    rw [hnr] at Tw
    dsimp only
    rw [hscan]
    dsimp only
    rw [hv, Option.bind_some, if_neg (not_not.mpr hcount), hw, Option.bind_some, hfind]
    exact ⟨bh, _, rfl, ((Ti.trans Tu).trans (Tv.trans Tw)).suffix,
      (((Ti.trans Tu).trans (Tv.trans Tw)).mono (by omega)).length⟩

/-! ## `breada` and `block_read` -/

theorem aheadOf_irq (ramdisk : Bool) (tmp : Nat) (s : Sys) : (aheadOf ramdisk tmp s).irq = s.irq := by
  have hread : (readAhead ramdisk tmp s).irq = s.irq := by
    unfold readAhead
    dsimp only
    split
    · rfl
    · split <;> rfl
  unfold aheadOf
  dsimp only
  split
  · rfl
  · exact hread

theorem readAheads_returns (depth fuel : Nat) (rest : List Block) (R : Ready ramdisk s) (C : Calm s)
    (hf : Few 1 s.cache) (hspare : Spare s.cache) (h0 : dev ≠ 0)
    (F : Fed ((10 * s.cache.nr + 7) * rest.length) s) :
    ∃ s', readAheads ramdisk (syncDev ramdisk (depth + 1)) (fuel + 3) dev rest s = some s' ∧
      Takes ((10 * s.cache.nr + 7) * rest.length) s s' := by
  induction rest generalizing s with
  | nil => exact ⟨s, rfl, .refl s⟩
  | cons first rest ih =>
    rw [List.length_cons, Nat.mul_succ, Nat.add_comm (_ * rest.length)] at F ⊢
    obtain ⟨tmp, u, hu, T⟩ := getblk_returns R C hf hspare (F.mono (Nat.le_add_right _ _)) depth fuel
      dev first
    obtain ⟨Tu, -, -⟩ := getblk_steady (syncDev_steady (depth + 1)) R h0 hu
    have Tv := Tu.trans (aheadOf_steady Tu.ready tmp)
    have Rv : Refs s.cache (aheadOf ramdisk tmp u).cache :=
      aheadOf_refs hf (getblk_got (syncDev_refs (depth + 1)) hf hu)
    have T : Takes (10 * s.cache.nr + 7) s (aheadOf ramdisk tmp u) := by
      refine ⟨?_, ?_⟩ <;> rw [aheadOf_irq]
      · exact T.suffix
      · exact T.length
    obtain ⟨s', h, T'⟩ := ih Tv.ready (C.next Tv.inode Rv.served) (Rv.few hf) (hspare.next Rv)
      (by rw [Tv.nr]; exact F.after T)
    rw [readAheads_cons, hu]
    rw [Tv.nr] at T'
    exact ⟨s', h, T.trans T'⟩

theorem brelse_returns (S : Sound s.cache) (hs : Served s.cache bh)
    (hcount : (s.cache.head bh).count ≠ 0) (F : Fed 2 s) :
    ∃ s', brelse bh s = some s' ∧ Takes 2 s s' := by
  obtain ⟨u, hu, T⟩ := waitBufferUnlock_returns S hs F
  have hcount : (u.cache.head bh).count ≠ 0 := by
    rw [(waitBufferUnlock_refs hu).1.count]
    exact hcount
  unfold brelse
  rw [hu, Option.bind_some, if_neg hcount]
  exact ⟨_, rfl, T.suffix, T.length⟩

theorem breada_returns (depth fuel : Nat) (R : Ready ramdisk s) (C : Calm s) (hf : Few 2 s.cache)
    (hspare : TwoSpare s.cache) (hd : hasDriver ramdisk dev = true)
    (F : Fed (30 * s.cache.nr + 26) s) (block b₁ b₂ : Block) :
    ∃ found s', breada ramdisk (syncDev ramdisk (depth + 1)) (fuel + 3) dev block [b₁, b₂] s =
      some (found, s') ∧ Takes (30 * s.cache.nr + 26) s s' := by
  have h0 := hasDriver_ne_zero hd
  have hf' : Few 1 s.cache := fun q => by have := hf q; omega
  obtain ⟨bh, u, hu, Tu⟩ := getblk_returns R C hf' hspare.one (F.mono (by omega)) depth fuel dev block
  obtain ⟨Su, his, -⟩ := getblk_steady (syncDev_steady (depth + 1)) R h0 hu
  have G := getblk_got (syncDev_refs (depth + 1)) hf' hu
  -- the block is asked for while its buffer is held
  have Fu := (F.mono (Nat.le_of_eq (by omega))).after (j := 20 * s.cache.nr + 19) Tu
  have hask : ∃ v, (if (u.cache.head bh).uptodate then some u else llRwBlock ramdisk .read bh u) = some v ∧
      Takes 3 u v := by
    split
    · exact ⟨u, rfl, (Takes.refl u).mono (by omega)⟩
    · exact llRwBlock_returns ramdisk .read Su.ready.sound (G.served bh (C.served bh)) (Fu.mono (by omega))
  obtain ⟨v, hv, Tv⟩ := hask
  obtain ⟨⟨Sv, Rv, hload⟩, -⟩ := ask_spec Su.ready his hd G.pos hv
  have Gv := G.refs Rv
  have Cv := C.next (Su.trans Sv).inode Gv.served
  have hnr : v.cache.nr = s.cache.nr := Sv.nr.trans Su.nr
  have Fv := (Fu.mono (Nat.le_of_eq (by omega))).after (j := 20 * s.cache.nr + 16) Tv
  -- the others need one more buffer
  obtain ⟨w, hw, Tw⟩ := readAheads_returns depth fuel [b₁, b₂] Sv.ready Cv (Gv.few hf)
    (hspare.got Gv) h0 (Fv.mono (by rw [hnr]; show _ * 2 ≤ _; omega))
  rw [hnr] at Tw
  have Rw := readAheads_refs (syncDev_refs (depth + 1)) (Gv.few hf) hw
  have Sw := readAheads_steady (syncDev_steady (depth + 1)) Sv.ready h0 hw
  have Fw := (Fv.mono (Nat.le_of_eq (by show _ * 2 + _ = _; omega))).after (j := 2) Tw
  obtain ⟨x, hx, Tx⟩ := waitBufferUnlock_returns Sw.ready.sound ((Cv.next Sw.inode Rw.served).served bh) Fw
  obtain ⟨Rx, hlock⟩ := waitBufferUnlock_refs hx
  have hup : (x.cache.head bh).uptodate = true :=
    (((Rw.trans Rx).held bh (by rw [Rv.count]; exact G.pos)).loaded hload).uptodate hlock
  have T := Tu.trans (Tv.trans (Tw.trans Tx))
  refine ⟨some bh, x, ?_, T.mono (by show _ + (_ + (_ * 2 + _)) ≤ _; omega)⟩
  unfold breada
  rw [hu, Option.bind_some]
  dsimp only
  rw [hv, Option.bind_some, hw, Option.bind_some, hx, Option.bind_some, if_pos hup]

/-- The rounds of `block_read`. -/
def rounds (pos count : Nat) : Nat := if count = 0 then 0 else (pos % 1024 + count + 1023) / 1024

theorem rounds_next {pos count : Nat} (h : count ≠ 0) :
    rounds pos count = rounds (pos + min (1024 - pos % 1024) count) (count - min (1024 - pos % 1024) count)
      + 1 := by
  unfold rounds
  rw [if_neg h]
  by_cases hlast : count ≤ 1024 - pos % 1024
  · rw [Nat.min_eq_right hlast, Nat.sub_self, if_pos rfl]
    omega
  · rw [Nat.min_eq_left (by omega), if_neg (by omega)]
    omega

/-- `block_read` returns. -/
theorem blockRead_returns (depth fuel : Nat) (hd : hasDriver ramdisk dev = true) {n pos count : Nat}
    {buf : List (BitVec 8)} (R : Ready ramdisk s) (W : Roomy s)
    (hn : rounds pos count < n) (F : Fed ((30 * s.cache.nr + 28) * rounds pos count) s) :
    ∃ res, blockRead ramdisk (syncDev ramdisk (depth + 1)) (fuel + 3) dev n pos count buf s = some res := by
  induction n generalizing pos count buf s with
  | zero => exact absurd hn (Nat.not_lt_zero _)
  | succ n ih =>
    unfold blockRead
    by_cases h0 : count = 0
    · rw [if_pos h0]
      exact ⟨_, rfl⟩
    · rw [if_neg h0]
      rw [rounds_next h0] at hn F
      rw [Nat.mul_succ, Nat.add_comm (_ * rounds _ _)] at F
      have hf : Few 1 s.cache := fun q => by have := W.few q; omega
      have hsync : Lasting ramdisk (syncDev ramdisk (depth + 1)) := syncDev_steady (depth + 1)
      have hgives : GivesBack (syncDev ramdisk (depth + 1)) := syncDev_refs (depth + 1)
      generalize hm : (30 * s.cache.nr + 28) * rounds (pos + min (1024 - pos % 1024) count)
        (count - min (1024 - pos % 1024) count) = m at F
      have F' : Fed ((30 * s.cache.nr + 26) + (2 + m)) s := F.mono (Nat.le_of_eq (by omega))
      obtain ⟨found, u, hu, Tu⟩ := breada_returns depth fuel R W.toCalm W.few W.spare hd
        (F'.mono (Nat.le_add_right _ _)) (BitVec.ofNat 32 (pos / 1024)) (BitVec.ofNat 32 (pos / 1024) + 1)
        (BitVec.ofNat 32 (pos / 1024) + 2)
      obtain ⟨bh, rfl, B, -⟩ := breada_spec hsync hgives R W.few hd hu
      have Fu := F'.after Tu
      obtain ⟨v, hv, Tv⟩ := brelse_returns B.steady.ready.sound (B.got.served bh (W.served bh)) B.got.pos
        (Fu.mono (Nat.le_add_right _ _))
      have Sv := B.steady.trans (brelse_steady B.steady.ready hv)
      have Rv := brelse_refs hf B.got hv
      have Wv := W.next Sv.inode Rv
      dsimp only
      rw [hu, Option.bind_some]
      dsimp only
      rw [hv, Option.bind_some]
      exact ih Sv.ready Wv (by omega) (by rw [Sv.nr, hm]; exact Fu.after Tv)

end Linux011.Sync
