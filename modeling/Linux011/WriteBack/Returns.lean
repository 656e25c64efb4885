import Linux011.WriteBack.Inodes
import Linux011.WriteBack.Locked

/-!
# The calls come back

Without a lock `getblk` may call `sync_dev`. It writes the inodes one after the other, each under its own
lock, and each of these returns at once as long as the cache is not crowded; then no inode is dirty any
more, and a second call cleans the buffer. So every loop of the inode code ends after at most two rounds.

Each function is a pair of twins: with the watch it returns or panics, or it stops with `crowded`; without
it does the same, or does not come back where the watch has stopped. Hence a call comes back if and only
if the watch sees no crowded cache (`returns_iff`).
-/

namespace Linux011.WriteBack

open Linux011.Lib

variable {s s' s'' : State} {i j b n m fuel : Nat} {dev : Dev} {block : Block}

abbrev Twins {α : Type} (Q : α → Prop) (w u : Out α) : Prop :=
  Twin Stop.crowded (· = Stop.panic) Q w u

theorem twins_panic {α : Type} {Q : α → Prop} : Twins Q (.error .panic) (.error .panic) :=
  .error nofun rfl

/-! ## What is kept -/

/-- Nothing is locked, and of the inodes at most the dirty flag is cleared. -/
structure Kept (s s' : State) : Prop where
  fit : Fit s'
  unlocked : s'.Unlocked
  super : s'.super = s.super
  nr : s'.nr = s.nr
  inode : ∀ j, s'.inode j = s.inode j ∨ s'.inode j = { s.inode j with dirt := false }

theorem Kept.refl (hF : Fit s) (hU : s.Unlocked) : Kept s s := ⟨hF, hU, rfl, rfl, fun _ => .inl rfl⟩

theorem Kept.trans (h : Kept s s') (h' : Kept s' s'') : Kept s s'' := by
  refine ⟨h'.fit, h'.unlocked, h'.super.trans h.super, h'.nr.trans h.nr, fun j => ?_⟩
  obtain h1 | h1 := h'.inode j <;> obtain h2 | h2 := h.inode j
  · exact .inl (h1.trans h2)
  · exact .inr (h1.trans h2)
  · exact .inr (by rw [h1, h2])
  · exact .inr (by rw [h1, h2])

/-- Only buffers are different. -/
structure Calm (s s' : State) : Prop where
  inode : s'.inode = s.inode
  super : s'.super = s.super
  nr : s'.nr = s.nr
  free : ∀ x ∈ s'.free, x ∈ s.free

theorem Quiet.calm (h : Quiet s s') : Calm s s' := ⟨h.inode, h.super, h.nr, fun _ hx => h.free ▸ hx⟩

theorem Got.calm (h : Got b s s') : Calm s s' := ⟨h.inode, h.super, h.nr, h.free⟩

theorem modify_calm {f : Head → Head} : Calm s (s.modify b f) := ⟨rfl, rfl, rfl, fun _ => id⟩

theorem Calm.trans (h : Calm s s') (h' : Calm s' s'') : Calm s s'' :=
  ⟨h'.inode.trans h.inode, h'.super.trans h.super, h'.nr.trans h.nr, fun x hx => h.free x (h'.free x hx)⟩

theorem Calm.fit (h : Calm s s') (hF : Fit s) : Fit s' := by
  refine ⟨?_, ?_, ?_, ?_, fun b hb => ?_⟩
  · rw [h.inode]
    exact hF.dirty
  · unfold State.Mounted
    rw [h.inode, h.super]
    exact hF.super
  · rw [h.inode]
    exact hF.mount
  · rw [h.super]
    exact hF.supers
  · rw [h.nr]
    exact hF.free b (h.free b hb)

theorem Calm.kept (h : Calm s s') (hF : Fit s) (hU : s.Unlocked) : Kept s s' := by
  refine ⟨h.fit hF, ?_, h.super, h.nr, fun j => .inl (by rw [h.inode])⟩
  unfold State.Unlocked
  rw [h.inode]
  exact hU

theorem Kept.calm (h : Kept s s') (h' : Calm s' s'') : Kept s s'' := h.trans (h'.kept h.fit h.unlocked)

theorem Wrote.kept (h : Wrote i s s') (hF : Fit s) (hU : s.Unlocked) : Kept s s' := by
  refine ⟨h.fit hF, h.unlocked hU, h.super, h.nr, fun j => ?_⟩
  by_cases hj : j = i
  · rw [hj]
    exact .inr h.self
  · exact .inl (h.other hj)

/-! ## `sync_inodes` and `sync_dev` -/

/-- No inode is left to be written. -/
def State.Settled (s : State) : Prop := ∀ i < 32, (s.inode i).dirt = true → (s.inode i).pipe = true

/-- After `sync_inodes`. -/
structure Synced (s s' : State) : Prop where
  kept : Kept s s'
  count : ∀ x, (s'.head x).count = (s.head x).count
  settled : s'.Settled

theorem syncInodes_twin {syncW syncU : Dev → State → Out State} (hB : Blocked syncU) (hF : Fit s)
    (hU : s.Unlocked) :
    Twins (Synced s) (syncInodes true syncW (n + 2) s) (syncInodes false syncU (n + 2) s) := by
  refine Twin.mono (Twin.loop_range (P := fun k u => Kept s u ∧
    (∀ x, (u.head x).count = (s.head x).count) ∧
      ∀ i < k, (u.inode i).dirt = true → (u.inode i).pipe = true) (fun i hi u ⟨hK, hc, hset⟩ => ?_)
    ⟨.refl hF hU, fun _ => rfl, fun _ hi => absurd hi (Nat.not_lt_zero _)⟩)
    fun u h => ⟨h.1, h.2.1, h.2.2⟩
  have hl : ¬ (u.inode i).lock = true := by
    rw [hK.unlocked i hi]
    exact Bool.false_ne_true
  rw [if_neg hl, if_neg hl]
  by_cases hd : ((u.inode i).dirt && !(u.inode i).pipe) = true
  · rw [if_pos hd, if_pos hd]
    rw [Bool.and_eq_true] at hd
    obtain ⟨v, hv, hw⟩ | ⟨hw, hu⟩ := writeInode_locked hK.fit hi (Bool.eq_false_iff.mpr hl) hd.1
    · rw [hv, hv]
      refine .ok ⟨hK.trans (hw.kept hK.fit hK.unlocked), fun x => (hw.count x).trans (hc x),
        fun k hk => ?_⟩
      by_cases hki : k = i
      · subst hki
        rw [hw.self]
        exact nofun
      · rw [hw.other hki]
        exact hset k (by omega)
    · rw [hw]
      exact .flagged (hu _ hB n)
  · rw [if_neg hd, if_neg hd]
    refine .ok ⟨hK, hc, fun k hk hdk => ?_⟩
    by_cases hki : k = i
    · subst hki
      rw [hdk, Bool.true_and, Bool.not_eq_true', Bool.not_eq_false] at hd
      exact hd
    · exact hset k (by omega) hdk

theorem syncInodes_settled {watch : Bool} {sync : Dev → State → Out State} (hU : s.Unlocked)
    (hS : s.Settled) : syncInodes watch sync n s = .ok s := by
  refine forEach_fixed fun i hi => ?_
  have hi := List.mem_range.mp hi
  rw [if_neg (by rw [hU i hi]; exact Bool.false_ne_true), if_neg]
  rw [Bool.and_eq_true, not_and, Bool.not_eq_true', Bool.not_eq_false]
  exact hS i hi

theorem syncDev_twin (hF : Fit s) (hU : s.Unlocked) :
    Twins (Synced s) (syncDev true (n + 3) dev s) (syncDev false (n + 3) dev s) := by
  have hQ := syncBuffers_quiet dev s
  refine (syncInodes_twin (syncDev_blocked (n + 2)) (hQ.fit hF) (hQ.unlocked hU)).map fun u hu => ?_
  have hQ' := syncBuffers_quiet dev u
  refine ⟨((hQ.calm.kept hF hU).trans hu.kept).calm hQ'.calm, fun x => ?_, ?_⟩
  · rw [hQ'.count, hu.count, hQ.count]
  · unfold State.Settled
    rw [hQ'.inode]
    exact hu.settled

theorem syncBuffer_clean (hb : (s.head b).dev = dev) : ((syncBuffer dev s b).head b).dirt = false := by
  have hQ := wait_quiet b s
  unfold syncBuffer
  rw [if_neg (not_not.mpr hb)]
  dsimp only
  split
  · exact llRwBlock_clean
  · next h =>
    rw [hQ.dev, not_and, Bool.not_eq_true] at h
    exact h hb

/-- The loop of `sync_dev` cleans the buffers of the device. -/
theorem syncBuffers_clean (hlt : b < s.nr) (hb : (s.head b).dev = dev) :
    ((syncBuffers dev s).head b).dirt = false := by
  have hgen (bs : List Nat) : ∀ s : State, b ∈ bs → (s.head b).dev = dev →
      ((bs.foldl (syncBuffer dev) s).head b).dirt = false := by
    induction bs with
    | nil => exact fun _ h => (nomatch h)
    | cons c bs ih =>
      intro s hmem hb
      have hQ := syncBuffer_quiet dev s c
      obtain rfl | hmem := List.mem_cons.mp hmem
      · refine Bool.eq_false_iff.mpr fun h => ?_
        have := (foldl_quiet (syncBuffer_quiet dev) bs (syncBuffer dev s b)).dirt b h
        rw [syncBuffer_clean hb] at this
        cases this
      · exact ih _ hmem ((hQ.dev b).trans hb)
  exact hgen _ s (List.mem_range.mpr hlt) hb

theorem syncDev_settled {watch : Bool} (hU : s.Unlocked) (hS : s.Settled) :
    syncDev watch (n + 1) dev s = .ok (syncBuffers dev (syncBuffers dev s)) := by
  have hQ := syncBuffers_quiet dev s
  have hS' : (syncBuffers dev s).Settled := by
    unfold State.Settled
    rw [hQ.inode]
    exact hS
  rw [syncDev, syncInodes_settled (hQ.unlocked hU) hS']
  rfl

/-! ## `getblk` without a lock -/

/-- When no inode is left, one call of `sync_dev` cleans the buffer. -/
theorem cleanLoop_settled (hU : s.Unlocked) (hS : s.Settled) (hc : (s.head b).count = 0)
    (hlt : b < s.nr) : ∃ s',
    (∀ watch n m, cleanLoop (syncDev watch (n + 1)) b (m + 2) s = .ok (false, s')) ∧ Quiet s s' := by
  by_cases hd : (s.head b).dirt = true
  · have hQ := syncBuffers_quiet (s.head b).dev s
    have hQ' := syncBuffers_quiet (s.head b).dev (syncBuffers (s.head b).dev s)
    have hW := wait_quiet b (syncBuffers (s.head b).dev (syncBuffers (s.head b).dev s))
    have hclean : ((waitBufferUnlock b (syncBuffers (s.head b).dev (syncBuffers (s.head b).dev s))).head
        b).dirt = false := Bool.eq_false_iff.mpr fun h => by
      have := hQ'.dirt b (hW.dirt b h)
      rw [syncBuffers_clean hlt rfl] at this
      cases this
    refine ⟨_, fun watch n m => ?_, (hQ.trans hQ').trans hW⟩
    rw [cleanLoop, if_pos hd, syncDev_settled hU hS]
    show (if _ then _ else _) = _
    rw [if_neg (by rw [hW.count, hQ'.count, hQ.count, hc]; exact not_not.mpr rfl)]
    exact cleanLoop_clean hclean
  · exact ⟨s, fun _ _ m => cleanLoop_clean (n := m + 1) (Bool.eq_false_iff.mpr hd), .refl s⟩

theorem cleanLoop_twin (hF : Fit s) (hU : s.Unlocked) (hc : (s.head b).count = 0) (hlt : b < s.nr) :
    Twins (fun r => r.1 = false ∧ Kept s r.2)
      (cleanLoop (syncDev true (n + 3)) b (m + 3) s) (cleanLoop (syncDev false (n + 3)) b (m + 3) s) := by
  by_cases hd : (s.head b).dirt = true
  · rw [cleanLoop, cleanLoop, if_pos hd, if_pos hd]
    refine (syncDev_twin hF hU).bind fun u hu => ?_
    have hW := wait_quiet b u
    have hK := hu.kept.calm hW.calm
    have hc' : ((waitBufferUnlock b u).head b).count = 0 := by rw [hW.count, hu.count, hc]
    have hS : (waitBufferUnlock b u).Settled := by
      unfold State.Settled
      rw [hW.inode]
      exact hu.settled
    obtain ⟨v, hv, hQ⟩ := cleanLoop_settled hK.unlocked hS hc' (by rw [hK.nr]; exact hlt)
    dsimp only
    rw [if_neg (not_not.mpr hc'), if_neg (not_not.mpr hc'), hv true (n + 2) m, hv false (n + 2) m]
    exact .ok ⟨rfl, hK.calm hQ.calm⟩
  · rw [cleanLoop_clean (n := m + 2) (Bool.eq_false_iff.mpr hd),
      cleanLoop_clean (n := m + 2) (Bool.eq_false_iff.mpr hd)]
    exact .ok ⟨rfl, .refl hF hU⟩

theorem take_kept (hF : Fit s) (hU : s.Unlocked) (hlt : b < s.nr) : Kept s (take b dev block s) := by
  refine ⟨⟨hF.dirty, hF.super, hF.mount, hF.supers, fun x hx => ?_⟩, hU, rfl, rfl, fun _ => .inl rfl⟩
  obtain hx | hx := List.mem_append.mp hx
  · exact hF.free x (List.mem_of_mem_erase hx)
  · rw [List.mem_singleton.mp hx]
    exact hlt

theorem getblk_twin (hF : Fit s) (hU : s.Unlocked) : Twins (fun r => Kept s r.2)
    (getblk true (syncDev true (n + 3)) (m + 4) dev block s)
    (getblk false (syncDev false (n + 3)) (m + 4) dev block s) := by
  have hQ := tick_quiet s
  cases hf : findBuffer s dev block with
  | some b =>
    rw [getblk_found hf, getblk_found hf]
    exact .ok ((hQ.calm.trans holdBuffer_got.calm).kept hF hU)
  | none =>
    have hU' := hQ.unlocked hU
    rw [getblk_none hf, getblk_none hf, Bool.true_and, Bool.false_and, if_neg Bool.false_ne_true]
    cases hcr : s.tick.crowded with
    | true =>
      cases hscan : scanFree s.tick none s.tick.free with
      | none => exact .flagged ⟨.starved, rfl, nofun⟩
      | some b =>
        have := (scan_crowded hcr hscan).2.1
        rw [Unlocked.not_holdsLock hU'] at this
        cases this
    | false =>
      obtain ⟨b, hb, hscan, hc, -⟩ := scan_roomy hcr
      have hW := wait_quiet b s.tick
      have hK : Kept s (waitBufferUnlock b s.tick) := (hQ.trans hW).calm.kept hF hU
      have hc' : ((waitBufferUnlock b s.tick).head b).count = 0 := by rw [hW.count, hc]
      have hlt : b < (waitBufferUnlock b s.tick).nr := by
        rw [hW.nr]
        exact (hQ.fit hF).free b hb
      rw [if_neg Bool.false_ne_true, hscan]
      unfold claimBuffer
      dsimp only
      rw [if_neg (not_not.mpr hc'), if_neg (not_not.mpr hc')]
      refine (cleanLoop_twin (m := m) hK.fit hK.unlocked hc' hlt).bind fun r hr => ?_
      obtain ⟨full, u⟩ := r
      obtain ⟨rfl, hu⟩ := hr
      have hKu := hK.trans hu
      dsimp only
      rw [Bool.false_or]
      -- the inodes may have brought the block
      cases hfound : findBuffer u dev block with
      | some b' =>
        rw [Option.isSome_some, if_pos rfl, if_pos rfl, getblk_found hfound, getblk_found hfound]
        exact .ok (hKu.calm ((tick_quiet u).calm.trans holdBuffer_got.calm))
      | none =>
        rw [Option.isSome_none, if_neg Bool.false_ne_true, if_neg Bool.false_ne_true]
        exact .ok (hKu.trans (take_kept hu.fit hu.unlocked (by rw [hu.nr]; exact hlt)))

theorem bread_twin (hF : Fit s) (hU : s.Unlocked) : Twins (fun r => Kept s r.2)
    (bread true (syncDev true (n + 3)) (m + 4) dev block s)
    (bread false (syncDev false (n + 3)) (m + 4) dev block s) := by
  rw [bread_eq, bread_eq]
  exact (getblk_twin hF hU).map fun r hr => hr.calm (finishRead_quiet r.1 r.2).calm

/-! ## `truncate` -/

theorem brelse_twin (hF : Fit s) (hU : s.Unlocked) : Twins (Kept s) (brelse b s) (brelse b s) := by
  unfold brelse
  dsimp only
  split
  · exact twins_panic
  · exact .ok (((wait_quiet b s).calm.trans modify_calm).kept hF hU)

theorem clearZone_twin {sb : SuperBlock} {zone : BitVec 16} (hF : Fit s) (hU : s.Unlocked) :
    Twins (Kept s) (clearZone sb dev zone s) (clearZone sb dev zone s) := by
  unfold clearZone
  dsimp only
  split
  · exact twins_panic
  · next k _ =>
    split
    · exact twins_panic
    · exact .ok (Calm.kept ⟨rfl, rfl, rfl, fun _ => id⟩ hF hU)

/-- `free_block` asks for no buffer. -/
theorem freeBlock_twin {zone : BitVec 16} (hF : Fit s) (hU : s.Unlocked) :
    Twins (Kept s) (freeBlock (n + 1) dev zone s) (freeBlock (n + 1) dev zone s) := by
  unfold freeBlock
  obtain h | ⟨sb, h, -⟩ := checkInSuperb_cases hF.supers dev
  · rw [h]
    exact twins_panic
  · rw [h]
    show Twins (Kept s) (if _ then _ else _) (if _ then _ else _)
    split
    · exact twins_panic
    · cases hf : findBuffer s dev (zone.zeroExtend 32) with
      | none =>
        rw [getHashTable_none hf]
        exact clearZone_twin hF hU
      | some b =>
        rw [getHashTable_some hf]
        have hK := (holdBuffer_got (b := b)).calm.kept hF hU
        show Twins (Kept s) (if _ then _ else _) (if _ then _ else _)
        split
        · exact .ok hK
        · have hK' := hK.calm (modify_calm (b := b)
            (f := fun h => { h with dirt := false, uptodate := false }))
          refine (brelse_twin hK'.fit hK'.unlocked).bind fun u hu => ?_
          exact (clearZone_twin hu.fit hu.unlocked).mono fun v hv => (hK'.trans hu).trans hv

theorem freeTable_twin {eachW eachU : BitVec 16 → State → Out State} {zone : BitVec 16}
    (heach : ∀ e u, Fit u → u.Unlocked → Twins (Kept u) (eachW e u) (eachU e u)) (hF : Fit s)
    (hU : s.Unlocked) : Twins (Kept s) (freeTable true (n + 4) eachW dev zone s)
      (freeTable false (n + 4) eachU dev zone s) := by
  unfold freeTable
  split
  · exact .ok (.refl hF hU)
  · refine (bread_twin hF hU).bind fun r hr => ?_
    refine Twin.bind (Twin.loop (I := Kept s) (fun k _ u hu => ?_) hr) fun u hu => ?_
    · dsimp only
      split
      · exact .ok hu
      · exact (heach _ u hu.fit hu.unlocked).mono fun v hv => hu.trans hv
    · refine (brelse_twin hu.fit hu.unlocked).bind fun v hv => ?_
      exact (freeBlock_twin hv.fit hv.unlocked).mono fun w hw => (hu.trans hv).trans hw

theorem freeInd_twin {zone : BitVec 16} (hF : Fit s) (hU : s.Unlocked) :
    Twins (Kept s) (freeInd true (n + 4) dev zone s) (freeInd false (n + 4) dev zone s) :=
  freeTable_twin (fun _ _ hF hU => freeBlock_twin hF hU) hF hU

theorem freeDind_twin {zone : BitVec 16} (hF : Fit s) (hU : s.Unlocked) :
    Twins (Kept s) (freeDind true (n + 4) dev zone s) (freeDind false (n + 4) dev zone s) :=
  freeTable_twin (fun _ _ hF hU => freeInd_twin hF hU) hF hU

/-- Inode `i` is another one, but its device and references are the same. -/
structure KeptBut (i : Nat) (s s' : State) : Prop where
  fit : Fit s'
  unlocked : s'.Unlocked
  super : s'.super = s.super
  dev : (s'.inode i).dev = (s.inode i).dev
  count : (s'.inode i).count = (s.inode i).count
  mount : (s'.inode i).mount = (s.inode i).mount
  inode : ∀ j, j ≠ i → s'.inode j = s.inode j ∨ s'.inode j = { s.inode j with dirt := false }

theorem Kept.but (h : Kept s s') (i : Nat) : KeptBut i s s' := by
  refine ⟨h.fit, h.unlocked, h.super, ?_, ?_, ?_, fun j _ => h.inode j⟩ <;>
    · obtain h | h := h.inode i <;> rw [h]

theorem KeptBut.trans (h : KeptBut i s s') (h' : KeptBut i s' s'') : KeptBut i s s'' := by
  refine ⟨h'.fit, h'.unlocked, h'.super.trans h.super, h'.dev.trans h.dev, h'.count.trans h.count,
    h'.mount.trans h.mount, fun j hj => ?_⟩
  obtain h1 | h1 := h'.inode j hj <;> obtain h2 | h2 := h.inode j hj
  · exact .inl (h1.trans h2)
  · exact .inr (h1.trans h2)
  · exact .inr (by rw [h1, h2])
  · exact .inr (by rw [h1, h2])

/-- A change of an inode that keeps its device and references. -/
theorem setInode_keptBut {h : MInode} (hF : Fit s) (hU : s.Unlocked) (hi : i < 32)
    (hdev : h.dev = (s.inode i).dev) (hcount : h.count = (s.inode i).count)
    (hnum : h.num = (s.inode i).num) (hmount : h.mount = (s.inode i).mount)
    (hlock : h.lock = (s.inode i).lock)
    (hdirt : h.dirt = true → (s.inode i).dirt = true ∨ (s.inode i).dev ≠ 0 ∧ (s.inode i).count ≠ 0) :
    KeptBut i s (s.setInode i h) := by
  have hdirty : h.dirt = true → (s.inode i).dev ≠ 0 := fun hd =>
    (hdirt hd).elim (hF.dirty i hi) And.left
  refine ⟨⟨fun j hj hd => ?_, fun j hj hc h0 => ?_, fun j hj hm => ?_, hF.supers, hF.free⟩,
    fun j hj => ?_, rfl, ?_, ?_, ?_, fun j hj => .inl (setInode_other hj)⟩
  · by_cases hij : j = i
    · subst hij
      rw [setInode_self] at hd ⊢
      rw [hdev]
      exact hdirty hd
    · rw [setInode_other hij] at hd ⊢
      exact hF.dirty j hj hd
  · by_cases hij : j = i
    · subst hij
      rw [setInode_self] at hc h0 ⊢
      rw [hdev] at h0 ⊢
      refine hF.super j hj ?_ h0
      rw [hcount] at hc
      exact hc.elim (fun hd => (hdirt hd).imp id And.right) .inr
    · rw [setInode_other hij] at hc h0 ⊢
      exact hF.super j hj hc h0
  · by_cases hij : j = i
    · subst hij
      rw [setInode_self] at hm ⊢
      rw [hnum, hcount]
      exact hF.mount j hj (hmount ▸ hm)
    · rw [setInode_other hij] at hm ⊢
      exact hF.mount j hj hm
  · by_cases hij : j = i
    · subst hij
      rw [setInode_self, hlock]
      exact hU j hj
    · rw [setInode_other hij]
      exact hU j hj
  · rw [setInode_self, hdev]
  · rw [setInode_self, hcount]
  · rw [setInode_self, hmount]

theorem freeDirect_twin (hF : Fit s) (hU : s.Unlocked) (hi : i < 32) :
    Twins (KeptBut i s) (freeDirect (n + 1) i s) (freeDirect (n + 1) i s) := by
  refine Twin.loop (I := KeptBut i s) (fun k _ u hu => ?_) ((Kept.refl hF hU).but i)
  dsimp only
  split
  · exact .ok hu
  · refine (freeBlock_twin hu.fit hu.unlocked).map fun v hv => ?_
    exact (hu.trans (hv.but i)).trans
      (setInode_keptBut hv.fit hv.unlocked hi rfl rfl rfl rfl rfl .inl)

theorem truncate_twin (hF : Fit s) (hU : s.Unlocked) (hi : i < 32) (h0 : (s.inode i).dev ≠ 0)
    (hc : (s.inode i).count ≠ 0) :
    Twins (KeptBut i s) (truncate true (n + 4) i s) (truncate false (n + 4) i s) := by
  unfold truncate
  split
  · refine (freeDirect_twin hF hU hi).bind fun u hu => ?_
    refine (freeInd_twin hu.fit hu.unlocked).bind fun v hv => ?_
    refine (freeDind_twin hv.fit hv.unlocked).map fun w hw => ?_
    have hK := (hu.trans (hv.but i)).trans (hw.but i)
    refine hK.trans (setInode_keptBut hw.fit hw.unlocked hi rfl rfl rfl rfl rfl fun _ => .inr ?_)
    rw [hK.dev, hK.count]
    exact ⟨h0, hc⟩
  · exact .ok ((Kept.refl hF hU).but i)

/-! ## `iput` -/

/-- After `iput` of inode `i`; a mount point must have had another reference. -/
structure Put (i : Nat) (s s' : State) : Prop where
  fit : ((s.inode i).mount = true → 1 < (s.inode i).count) → Fit s'
  unlocked : s'.Unlocked
  super : s'.super = s.super
  inode : ∀ j, j ≠ i → s'.inode j = s.inode j ∨ s'.inode j = { s.inode j with dirt := false }

theorem Put.after (h : Put i s' s'') (hK : Kept s s') : Put i s s'' := by
  refine ⟨fun hm => h.fit ?_, h.unlocked, h.super.trans hK.super, fun j hj => ?_⟩
  · obtain hi | hi := hK.inode i <;>
      · rw [hi]
        exact hm
  · obtain h1 | h1 := h.inode j hj <;> obtain h2 | h2 := hK.inode j
    · exact .inl (h1.trans h2)
    · exact .inr (h1.trans h2)
    · exact .inr (by rw [h1, h2])
    · exact .inr (by rw [h1, h2])

/-- An inode that loses a reference, or all it had. -/
theorem setInode_put {h : MInode} (hF : Fit s) (hU : s.Unlocked)
    (hdev : h.dev = (s.inode i).dev ∨ h.dev = 0)
    (hdirt : h.dirt = true → (s.inode i).dirt = true ∧ h.dev ≠ 0)
    (hcount : h.count ≠ 0 → (s.inode i).count ≠ 0)
    (hmount : h.mount = true → (s.inode i).mount = true ∧ h.num = (s.inode i).num ∧
      (1 < (s.inode i).count → h.count ≠ 0))
    (hlock : h.lock = false) : Put i s (s.setInode i h) := by
  refine ⟨fun hm => ⟨fun j hj hd => ?_, fun j hj hc h0 => ?_, fun j hj hjm => ?_, hF.supers, hF.free⟩,
    fun j hj => ?_, rfl, fun j hj => .inl (setInode_other hj)⟩
  · by_cases hij : j = i
    · subst hij
      rw [setInode_self] at hd ⊢
      exact (hdirt hd).2
    · rw [setInode_other hij] at hd ⊢
      exact hF.dirty j hj hd
  · by_cases hij : j = i
    · subst hij
      rw [setInode_self] at hc h0 ⊢
      have hdev := hdev.resolve_right h0
      rw [hdev] at h0 ⊢
      exact hF.super j hj (hc.imp (fun hd => (hdirt hd).1) hcount) h0
    · rw [setInode_other hij] at hc h0 ⊢
      exact hF.super j hj hc h0
  · by_cases hij : j = i
    · subst hij
      rw [setInode_self] at hjm ⊢
      obtain ⟨h1, h2, h3⟩ := hmount hjm
      rw [h2]
      exact ⟨(hF.mount j hj h1).1, h3 (hm h1)⟩
    · rw [setInode_other hij] at hjm ⊢
      exact hF.mount j hj hjm
  · by_cases hij : j = i
    · subst hij
      rw [setInode_self]
      exact hlock
    · rw [setInode_other hij]
      exact hU j hj

theorem decCount_put (hF : Fit s) (hU : s.Unlocked) (hi : i < 32) : Put i s (s.decCount i) :=
  setInode_put hF hU (.inl rfl) (fun hd => ⟨hd, hF.dirty i hi hd⟩) (fun hc h0 => hc (by rw [h0]))
    (fun hm => ⟨hm, rfl, fun hc => Nat.sub_ne_zero_of_lt hc⟩) (hU i hi)

theorem zero_put (hF : Fit s) (hU : s.Unlocked) : Put i s (s.setInode i .zero) :=
  setInode_put hF hU (.inr rfl) nofun (fun h => absurd rfl h) nofun rfl

theorem freeInode_twin (hF : Fit s) (hU : s.Unlocked) :
    Twins (Put i s) (freeInode i s) (freeInode i s) := by
  unfold freeInode
  dsimp only
  split
  · exact .ok (zero_put hF hU)
  · split
    · exact twins_panic
    · obtain h | ⟨sb, h, -⟩ := checkInSuperb_cases hF.supers (s.inode i).dev
      · rw [h]
        exact twins_panic
      · rw [h]
        show Twins (Put i s) (if _ then _ else _) (if _ then _ else _)
        split
        · exact twins_panic
        · split
          · exact twins_panic
          · next m _ =>
            have hC := (modify_calm (s := s) (b := m) (f := fun h => { h with dirt := true })).kept hF hU
            exact .ok ((zero_put hC.fit hC.unlocked).after hC)

/-- `truncate` and `free_inode` of an inode. -/
theorem KeptBut.put (h : KeptBut i s s') (h' : Put i s' s'') : Put i s s'' := by
  refine ⟨fun hc => h'.fit ?_, h'.unlocked, h'.super.trans h.super, fun j hj => ?_⟩
  · rw [h.mount, h.count]
    exact hc
  · obtain h1 | h1 := h'.inode j hj <;> obtain h2 | h2 := h.inode j hj
    · exact .inl (h1.trans h2)
    · exact .inr (h1.trans h2)
    · exact .inr (by rw [h1, h2])
    · exact .inr (by rw [h1, h2])

theorem iputLoop_twin (hF : Fit s) (hU : s.Unlocked) (hi : i < 32) (h0 : (s.inode i).dev ≠ 0)
    (hc : (s.inode i).count ≠ 0) :
    Twins (Put i s) (iputLoop true (n + 4) i (m + 2) s) (iputLoop false (n + 4) i (m + 2) s) := by
  rw [iputLoop, iputLoop]
  split
  · exact .ok (decCount_put hF hU hi)
  · split
    · refine (truncate_twin hF hU hi h0 hc).bind fun u hu => ?_
      exact (freeInode_twin hu.fit hu.unlocked).mono fun v hv => hu.put hv
    · next h1 hlinks =>
      split
      · next hd =>
        obtain ⟨v, hv, hw⟩ | ⟨hw, hu⟩ := writeInode_locked hF hi (hU i hi) hd
        · have hK := hw.kept hF hU
          have hlv : ¬ (v.inode i).lock = true := by
            rw [hK.unlocked i hi]
            exact Bool.false_ne_true
          -- the second round finds the inode clean
          have hround (watch : Bool) : iputLoop watch (n + 4) i (m + 1) v = .ok (v.decCount i) := by
            rw [iputLoop, hw.self]
            dsimp only
            rw [if_neg h1, if_neg hlinks, if_neg Bool.false_ne_true]
          rw [hv true, hv false]
          show Twins (Put i s) (if _ then _ else _) (if _ then _ else _)
          rw [if_neg hlv, if_neg hlv, hround, hround]
          exact .ok ((decCount_put hK.fit hK.unlocked hi).after hK)
        · rw [hw]
          exact .flagged (hu _ (syncDev_blocked _) _).bind
      · exact .ok (decCount_put hF hU hi)

theorem iput_twin (hF : Fit s) (hU : s.Unlocked) (hi : i < 32) :
    Twins (Put i s) (iput true (n + 4) i s) (iput false (n + 4) i s) := by
  have hl : ¬ (s.inode i).lock = true := by
    rw [hU i hi]
    exact Bool.false_ne_true
  unfold iput
  dsimp only
  rw [if_neg hl, if_neg hl]
  split
  · exact twins_panic
  · next hc =>
    split
    · split
      · exact .ok (decCount_put hF hU hi)
      · next h1 =>
        exact .ok (setInode_put hF hU (.inl rfl) nofun (fun h => absurd rfl h)
          (fun hm => ⟨hm, rfl, fun h => absurd h h1⟩) (hU i hi))
    · split
      · exact .ok (decCount_put hF hU hi)
      · next h0 =>
        split
        · refine (syncDev_twin (n := n + 1) hF hU).bind fun u hu => ?_
          have hlu : ¬ (u.inode i).lock = true := by
            rw [hu.kept.unlocked i hi]
            exact Bool.false_ne_true
          have hB := hu.kept.but i
          rw [if_neg hlu, if_neg hlu]
          refine (iputLoop_twin (m := n + 2) hu.kept.fit hu.kept.unlocked hi ?_ ?_).mono fun v hv =>
            hv.after hu.kept
          · rw [hB.dev]
            exact h0
          · rw [hB.count]
            exact hc
        · exact iputLoop_twin (m := n + 2) hF hU hi h0 hc

/-! ## `get_empty_inode`, `read_inode` and `iget` -/

theorem scanInodes_spec {inode : Nat → MInode} {last l : Nat} {found : Option Nat}
    (h : scanInodes inode n last found = (some i, l))
    (hf : ∀ i, found = some i → i < 32 ∧ (inode i).count = 0) : i < 32 ∧ (inode i).count = 0 := by
  induction n generalizing last found with
  | zero =>
    cases h
    exact hf _ rfl
  | succ n ih =>
    have hlt : (if last + 1 ≥ 32 then 0 else last + 1) < 32 := by split <;> omega
    unfold scanInodes at h
    generalize (if last + 1 ≥ 32 then 0 else last + 1) = next at h hlt
    dsimp only at h
    split at h
    · next hc =>
      split at h
      · cases h
        exact ⟨hlt, hc⟩
      · refine ih h fun i hi => ?_
        cases hi
        exact ⟨hlt, hc⟩
    · exact ih h hf

/-- An inode of `get_empty_inode`. -/
def MInode.empty : MInode := { MInode.zero with count := 1 }

theorem empty_keptBut (hF : Fit s) (hU : s.Unlocked) :
    Fit (s.setInode i .empty) ∧ (s.setInode i .empty).Unlocked := by
  refine ⟨⟨fun j hj hd => ?_, fun j hj hc h0 => ?_, fun j hj hm => ?_, hF.supers, hF.free⟩,
    fun j hj => ?_⟩ <;>
    by_cases hij : j = i
  · subst hij
    rw [setInode_self] at hd
    cases hd
  · rw [setInode_other hij] at hd ⊢
    exact hF.dirty j hj hd
  · subst hij
    rw [setInode_self] at h0
    exact absurd rfl h0
  · rw [setInode_other hij] at hc h0 ⊢
    exact hF.super j hj hc h0
  · subst hij
    rw [setInode_self] at hm
    cases hm
  · rw [setInode_other hij] at hm ⊢
    exact hF.mount j hj hm
  · subst hij
    rw [setInode_self]
    rfl
  · rw [setInode_other hij]
    exact hU j hj

theorem writeDirty_twin (hF : Fit s) (hU : s.Unlocked) (hi : i < 32) :
    Twins (Kept s) (writeDirty true (n + 2) i (m + 2) s) (writeDirty false (n + 2) i (m + 2) s) := by
  by_cases hd : (s.inode i).dirt = true
  · rw [writeDirty, writeDirty, if_pos hd, if_pos hd]
    obtain ⟨v, hv, hw⟩ | ⟨hw, hu⟩ := writeInode_locked hF hi (hU i hi) hd
    · have hK := hw.kept hF hU
      have hlv : ¬ (v.inode i).lock = true := by
        rw [hK.unlocked i hi]
        exact Bool.false_ne_true
      have hdv : ¬ (v.inode i).dirt = true := by
        rw [hw.self]
        exact Bool.false_ne_true
      rw [hv true, hv false]
      show Twins (Kept s) (if _ then _ else _) (if _ then _ else _)
      rw [if_neg hlv, if_neg hlv, writeDirty, writeDirty, if_neg hdv, if_neg hdv]
      exact .ok hK
    · rw [hw]
      exact .flagged (hu _ (syncDev_blocked _) _).bind
  · rw [writeDirty, writeDirty, if_neg hd, if_neg hd]
    exact .ok (.refl hF hU)

/-- The result of `get_empty_inode`. -/
def Fresh (r : Nat × State) : Prop := r.1 < 32 ∧ Fit r.2 ∧ r.2.Unlocked ∧ r.2.inode r.1 = .empty

theorem getEmptyInode_twin (hF : Fit s) (hU : s.Unlocked) :
    Twins Fresh (getEmptyInode true (n + 2) (m + 1) s) (getEmptyInode false (n + 2) (m + 1) s) := by
  rw [getEmptyInode, getEmptyInode]
  split
  · exact twins_panic
  · next i last hscan =>
    obtain ⟨hi, hc⟩ := scanInodes_spec hscan nofun
    have hFl : Fit { s with lastInode := last } := ⟨hF.dirty, hF.super, hF.mount, hF.supers, hF.free⟩
    have hl : ¬ (s.inode i).lock = true := by
      rw [hU i hi]
      exact Bool.false_ne_true
    dsimp only
    rw [if_neg hl, if_neg hl]
    refine (writeDirty_twin (m := n) hFl hU hi).bind fun u hu => ?_
    have hcu : (u.inode i).count = 0 := by
      rw [(hu.but i).count]
      exact hc
    rw [if_neg (not_not.mpr hcu), if_neg (not_not.mpr hcu)]
    obtain ⟨hFe, hUe⟩ := empty_keptBut (i := i) hu.fit hu.unlocked
    exact .ok ⟨hi, hFe, hUe, setInode_self⟩

/-- `read_inode` of an inode, the device of which may be missing. -/
theorem readInode_twin (hsup : ∀ k, (s.super k).lock = false)
    (hF : s.Mounted (s.inode i).dev → Fit s) (hU : s.Unlocked) (hi : i < 32) :
    Twins (fun _ => True) (readInode true (n + 2) i s) (readInode false (n + 2) i s) := by
  have hl : ¬ (s.inode i).lock = true := by
    rw [hU i hi]
    exact Bool.false_ne_true
  unfold readInode
  rw [if_neg hl, if_neg hl]
  dsimp only
  rw [setInode_self]
  obtain h | ⟨sb, h, hm⟩ := checkInSuperb_cases (s := s.setInode i { s.inode i with lock := true }) hsup
    (s.inode i).dev
  · rw [h]
    exact twins_panic
  · rw [h]
    show Twins _ ((bread true _ _ _ _ _).bind _) ((bread false _ _ _ _ _).bind _)
    obtain ⟨b, v, hv, hg⟩ | ⟨hw, hu⟩ := bread_locked (s.inode i).dev (sb.inodeBlock (s.inode i).num)
      (holdsLock_lock (s := s) hi)
    · rw [hv, hv]
      show Twins _ ((brelse b _).map _) ((brelse b _).map _)
      rw [brelse_ok (by show (v.head b).count ≠ 0; rw [hg.count, if_pos rfl]; exact Nat.succ_ne_zero _)]
      exact .ok trivial
    · rw [hw]
      exact .flagged (hu _ (syncDev_blocked _) ((hF hm).lock true) n).bind

theorem iput_empty {watch : Bool} (hi : s.inode i = .empty) :
    iput watch fuel i s = .ok (s.decCount i) := by
  unfold iput
  rw [hi]
  rfl

theorem incCount_self : (s.incCount i).inode i = { s.inode i with count := (s.inode i).count + 1 } :=
  setInode_self

theorem incCount_other (hj : j ≠ i) : (s.incCount i).inode j = s.inode j := setInode_other hj

theorem incCount_unlocked (hU : s.Unlocked) : (s.incCount i).Unlocked := by
  intro j hj
  by_cases hij : j = i
  · subst hij
    rw [incCount_self]
    exact hU j hj
  · rw [incCount_other hij]
    exact hU j hj

/-- One more reference to an inode that is referenced. -/
theorem incCount_fit (hF : Fit s) (hc : (s.inode i).count ≠ 0) : Fit (s.incCount i) := by
  refine ⟨fun j hj hd => ?_, fun j hj hcj h0 => ?_, fun j hj hjm => ?_, hF.supers, hF.free⟩ <;>
    by_cases hij : j = i
  · subst hij
    rw [incCount_self] at hd ⊢
    exact hF.dirty j hj hd
  · rw [incCount_other hij] at hd ⊢
    exact hF.dirty j hj hd
  · subst hij
    rw [incCount_self] at h0 ⊢
    exact hF.super j hj (.inr hc) h0
  · rw [incCount_other hij] at hcj h0 ⊢
    exact hF.super j hj hcj h0
  · subst hij
    rw [incCount_self] at hjm ⊢
    exact ⟨(hF.mount j hj hjm).1, Nat.succ_ne_zero _⟩
  · rw [incCount_other hij] at hjm ⊢
    exact hF.mount j hj hjm

/-- The empty inode gets its identity. -/
theorem named_fit {nr : BitVec 16} (hF : Fit s) (hi : s.inode i = .empty) (hm : s.Mounted dev) :
    Fit (s.setInode i { s.inode i with dev := dev, num := nr }) := by
  rw [hi]
  refine ⟨fun j hj hd => ?_, fun j hj hcj h0 => ?_, fun j hj hjm => ?_, hF.supers, hF.free⟩ <;>
    by_cases hij : j = i
  · subst hij
    rw [setInode_self] at hd
    cases hd
  · rw [setInode_other hij] at hd ⊢
    exact hF.dirty j hj hd
  · subst hij
    rw [setInode_self]
    exact hm
  · rw [setInode_other hij] at hcj h0 ⊢
    exact hF.super j hj hcj h0
  · subst hij
    rw [setInode_self] at hjm
    cases hjm
  · rw [setInode_other hij] at hjm ⊢
    exact hF.mount j hj hjm

/-- One round of the loop of `iget`; no root directory is a mount point, so it is the last one there. -/
theorem igetLoop_round {empty : Nat} {nr : BitVec 16} (he : empty < 32) (hF : Fit s) (hU : s.Unlocked)
    (hempty : s.inode empty = .empty) (hnr : dev ≠ 0 ∨ nr ≠ 0)
    (hnext : nr = 1 ∨ ∀ dev u, Fit u → u.Unlocked → u.inode empty = .empty →
      Twins (fun _ => True) (igetLoop true (n + 4) empty m dev 1 u)
        (igetLoop false (n + 4) empty m dev 1 u)) :
    Twins (fun _ => True) (igetLoop true (n + 4) empty (m + 1) dev nr s)
      (igetLoop false (n + 4) empty (m + 1) dev nr s) := by
  rw [igetLoop, igetLoop]
  split
  · next i hfind =>
    have hi : i < 32 := List.mem_range.mp (List.mem_of_find?_eq_some hfind)
    have hmatch : (s.inode i).dev = dev ∧ (s.inode i).num = nr := by simpa using List.find?_some hfind
    have hne : empty ≠ i := by
      rintro rfl
      rw [hempty] at hmatch
      exact hnr.elim (fun h => h hmatch.1.symm) fun h => h hmatch.2.symm
    have hl : ¬ (s.inode i).lock = true := by
      rw [hU i hi]
      exact Bool.false_ne_true
    have hsame : (s.incCount i).inode empty = .empty := (incCount_other hne).trans hempty
    have hput (watch : Bool) : iput watch (n + 4) empty (s.incCount i) =
        .ok ((s.incCount i).decCount empty) := iput_empty hsame
    rw [if_neg hl, if_neg hl]
    dsimp only
    rw [incCount_self]
    dsimp only
    split
    · next hm =>
      obtain ⟨hroot, hc⟩ := hF.mount i hi hm
      split
      · rw [hput, hput]
        exact .ok trivial
      · next k _ =>
        refine (iput_twin (incCount_fit hF hc) (incCount_unlocked hU) hi).bind fun u hu => ?_
        have hFu := hu.fit fun _ => by
          rw [incCount_self]
          exact Nat.succ_lt_succ (Nat.pos_of_ne_zero hc)
        have hnext := hnext.resolve_left fun h => hroot (hmatch.2.trans h)
        refine hnext _ u hFu hu.unlocked ?_
        obtain h | h := hu.inode empty hne <;>
          · rw [h, hsame]
            try rfl
    · rw [hput, hput]
      exact .ok trivial
  · have hU' : (s.setInode empty { s.inode empty with dev := dev, num := nr }).Unlocked := by
      intro j hj
      by_cases hij : j = empty
      · subst hij
        rw [setInode_self]
        exact hU j hj
      · rw [setInode_other hij]
        exact hU j hj
    refine Twin.map (S := fun _ => True) (readInode_twin (n := n + 2)
      (s := s.setInode empty { s.inode empty with dev := dev, num := nr }) hF.supers
      (fun hm => ?_) hU' he)
      fun _ _ => trivial
    rw [setInode_self] at hm
    exact named_fit hF hempty hm

theorem iget_twin {nr : BitVec 16} (hF : Fit s) (hU : s.Unlocked) :
    Twins (fun _ => True) (iget true (n + 4) dev nr s) (iget false (n + 4) dev nr s) := by
  unfold iget
  split
  · exact twins_panic
  · next h0 =>
    refine (getEmptyInode_twin (n := n + 2) (m := n + 3) hF hU).bind fun r hr => ?_
    obtain ⟨empty, u⟩ := r
    obtain ⟨he, hFu, hUu, hempty⟩ := hr
    refine igetLoop_round (m := n + 3) he hFu hUu hempty (.inl h0) (.inr fun dev v hFv hUv hev => ?_)
    exact igetLoop_round (m := n + 2) he hFv hUv hev (.inr (by decide)) (.inl rfl)

/-! ## The calls -/

theorem writeInode_clean {watch : Bool} {sync : Dev → State → Out State} (hl : (s.inode i).lock = false)
    (hd : (s.inode i).dirt = false) : writeInode watch sync fuel i s =
      .ok (unlockInode i (s.setInode i { s.inode i with lock := true })) := by
  unfold writeInode
  rw [if_neg (by rw [hl]; exact Bool.false_ne_true)]
  dsimp only
  rw [setInode_self]
  exact if_pos (.inl hd)

theorem call_twin (c : Call) (hF : Fit s) (hU : s.Unlocked) :
    Twins (fun _ => True) (c.run true (n + 4) s) (c.run false (n + 4) s) := by
  cases c with
  | iget dev nr => exact (iget_twin hF hU).map fun _ _ => trivial
  | iput i => exact (iput_twin hF hU i.isLt).mono fun _ _ => trivial
  | getEmptyInode =>
    exact (getEmptyInode_twin (n := n + 2) (m := n + 3) hF hU).map fun _ _ => trivial
  | readInode i => exact readInode_twin (n := n + 2) hF.supers (fun _ => hF) hU i.isLt
  | writeInode i =>
    by_cases hd : (s.inode i).dirt = true
    · obtain ⟨v, hv, -⟩ | ⟨hw, hu⟩ := writeInode_locked hF i.isLt (hU i i.isLt) hd
      · show Twins _ (writeInode true _ _ _ _) (writeInode false _ _ _ _)
        rw [hv, hv]
        exact .ok trivial
      · show Twins _ (writeInode true _ _ _ _) (writeInode false _ _ _ _)
        rw [hw]
        exact .flagged (hu _ (syncDev_blocked _) _)
    · show Twins _ (writeInode true _ _ _ _) (writeInode false _ _ _ _)
      rw [writeInode_clean (hU i i.isLt) (Bool.eq_false_iff.mpr hd),
        writeInode_clean (hU i i.isLt) (Bool.eq_false_iff.mpr hd)]
      exact .ok trivial
  | syncInodes =>
    exact (syncInodes_twin (n := n + 2) (syncDev_blocked _) hF hU).mono fun _ _ => trivial
  | syncDev dev => exact (syncDev_twin (n := n + 1) hF hU).mono fun _ _ => trivial
  | sysSync => exact (syncInodes_twin (n := n + 2) (syncDev_blocked _) hF hU).map fun _ _ => trivial

/-- A call of one task, from a state without locks, comes back (or panics) if and only if the watch sees
nothing: whenever `getblk` has to evict a block there is an unreferenced buffer, and a clean one if the
task holds the lock of an inode. -/
theorem returns_iff (c : Call) (s : State) (n : Nat) (hF : Fit s) (hU : s.Unlocked) :
    (∀ e, c.run false (n + 4) s = .error e → e = .panic) ↔
      c.run true (n + 4) s ≠ .error .crowded :=
  Twin.ends_iff (call_twin c hF hU)

/-! ## A deadlock -/

/-- One buffer with a dirty block of a file, and a dirty inode whose block is in no buffer. -/
def fullCache (dirt : Bool) : State where
  head _ := ⟨0x301, 100, 0, dirt, true, false⟩
  nr := 1
  free := [0]
  inode i := if i = 0 then { MInode.zero with dev := 0x301, num := 1, count := 1, dirt := true }
    else .zero
  lastInode := 0
  super _ := ⟨0x301, 1, 1, 5, 1000, 100, fun _ => none, fun _ => none, none, false⟩
  dinode _ _ := ⟨0, 1, fun _ => 0⟩
  indirect _ _ _ := 0
  zbit _ _ := false
  time := 0
  finished _ _ := false

theorem fullCache_fit (dirt : Bool) : Fit (fullCache dirt) ∧ (fullCache dirt).Unlocked := by
  have hinode (i : Nat) : (fullCache dirt).inode i =
      if i = 0 then { MInode.zero with dev := 0x301, num := 1, count := 1, dirt := true }
      else .zero := rfl
  refine ⟨⟨fun i _ hd => ?_, fun i _ _ h0 => ?_, fun i _ hm => ?_, fun _ => rfl, fun b hb => ?_⟩,
    fun i _ => ?_⟩
  · rw [hinode] at hd ⊢
    split at hd
    · next h =>
      rw [if_pos h]
      decide
    · cases hd
  · rw [hinode] at h0 ⊢
    split at h0
    · next h =>
      rw [if_pos h]
      exact ⟨0, by decide, rfl⟩
    · exact absurd rfl h0
  · rw [hinode] at hm
    split at hm <;> cases hm
  · rw [List.mem_singleton.mp hb]
    exact Nat.zero_lt_one
  · rw [hinode]
    split <;> rfl

/-- `write_inode` takes the lock, `getblk` finds the buffer dirty, and `sync_inodes` waits for the
lock. -/
theorem waits_for_own_lock : ¬ ∀ (c : Call) (s : State) (n : Nat), Fit s → s.Unlocked →
    (∃ b ∈ s.free, (s.head b).count = 0) → c.run false n s ≠ .error .ownLock := by
  intro hall
  obtain ⟨hF, hU⟩ := fullCache_fit true
  refine hall .syncInodes (fullCache true) 4 hF hU ⟨0, List.mem_singleton_self 0, rfl⟩ ?_
  have hrun : (match Call.syncInodes.run false 4 (fullCache true) with
      | .ok _ => none
      | .error e => some e) = some Stop.ownLock := by decide +kernel
  cases hres : Call.syncInodes.run false 4 (fullCache true) with
  | ok u =>
    rw [hres] at hrun
    cases hrun
  | error e =>
    rw [hres] at hrun
    cases hrun
    rfl

/-- With a clean buffer `sync_inodes` comes back. -/
theorem returns_iff_clean :
    (∀ e, Call.syncInodes.run false 4 (fullCache false) = .error e → e = .panic) ∧
      (∃ s, Call.syncInodes.run false 4 (fullCache false) = .ok s) := by
  obtain ⟨hF, hU⟩ := fullCache_fit false
  have hrun : (match Call.syncInodes.run true 4 (fullCache false) with
      | .ok _ => none
      | .error e => some e) = none := by decide +kernel
  have hplain : (match Call.syncInodes.run false 4 (fullCache false) with
      | .ok _ => none
      | .error e => some e) = none := by decide +kernel
  refine ⟨(returns_iff .syncInodes (fullCache false) 0 hF hU).mpr fun h => ?_, ?_⟩
  · rw [h] at hrun
    cases hrun
  · cases hres : Call.syncInodes.run false 4 (fullCache false) with
    | ok u => exact ⟨u, rfl⟩
    | error e =>
      rw [hres] at hplain
      cases hplain

end Linux011.WriteBack
