import Linux011.WriteBack.Buffers
import Mathlib.Tactic.Common

/-!
# What happens under the lock of an inode

While the task holds the lock of an inode, `getblk` does one of two things. When the block is in a
buffer, or a clean unreferenced buffer is left, it returns at once, and nothing has changed but that
buffer (`getblk_locked`). Otherwise it calls `sync_dev`, and that never comes back: every way through
`sync_inodes` ends at the latest at the locked inode (`syncDev_blocked`).
-/

namespace Linux011.WriteBack

open Linux011.Lib

variable {watch : Bool} {sync : Dev → State → Out State} {s s' s'' : State} {i j b n fuel : Nat}
  {dev : Dev} {block : Block} {ring : List Nat} {best : Option Nat}

/-! ## States -/

/-- The device has a super block. -/
def State.Mounted (s : State) (dev : Dev) : Prop := ∃ k < 8, (s.super k).dev = dev

/-- A dirty inode has a device, and the device of a dirty or referenced inode a super block; mount points
are referenced, and no root directory is one; no super block is locked. -/
structure Fit (s : State) : Prop where
  dirty : ∀ i < 32, (s.inode i).dirt = true → (s.inode i).dev ≠ 0
  super : ∀ i < 32, (s.inode i).dirt = true ∨ (s.inode i).count ≠ 0 → (s.inode i).dev ≠ 0 →
    s.Mounted (s.inode i).dev
  mount : ∀ i < 32, (s.inode i).mount = true → (s.inode i).num ≠ 1 ∧ (s.inode i).count ≠ 0
  supers : ∀ k, (s.super k).lock = false
  free : ∀ b ∈ s.free, b < s.nr

/-- No inode is locked. -/
def State.Unlocked (s : State) : Prop := ∀ i < 32, (s.inode i).lock = false

theorem holdsLock_iff : s.holdsLock = true ↔ ∃ i < 32, (s.inode i).lock = true := by
  unfold State.holdsLock
  rw [List.any_eq_true]
  exact exists_congr fun i => and_congr_left fun _ => List.mem_range

theorem Unlocked.not_holdsLock (h : s.Unlocked) : s.holdsLock = false := by
  rw [← Bool.not_eq_true, holdsLock_iff]
  rintro ⟨i, hi, hl⟩
  rw [h i hi] at hl
  cases hl

/-! ## Transfers -/

/-- Transfers are completed, and buffers are written. -/
structure Quiet (s s' : State) : Prop where
  inode : s'.inode = s.inode
  super : s'.super = s.super
  nr : s'.nr = s.nr
  free : s'.free = s.free
  dev : ∀ b, (s'.head b).dev = (s.head b).dev
  block : ∀ b, (s'.head b).block = (s.head b).block
  count : ∀ b, (s'.head b).count = (s.head b).count
  dirt : ∀ b, (s'.head b).dirt = true → (s.head b).dirt = true

theorem Quiet.refl (s : State) : Quiet s s :=
  ⟨rfl, rfl, rfl, rfl, fun _ => rfl, fun _ => rfl, fun _ => rfl, fun _ => id⟩

theorem Quiet.trans (h : Quiet s s') (h' : Quiet s' s'') : Quiet s s'' :=
  ⟨h'.inode.trans h.inode, h'.super.trans h.super, h'.nr.trans h.nr, h'.free.trans h.free,
    fun b => (h'.dev b).trans (h.dev b), fun b => (h'.block b).trans (h.block b),
    fun b => (h'.count b).trans (h.count b), fun b hb => h.dirt b (h'.dirt b hb)⟩

@[simp] theorem modify_self {f : Head → Head} : (s.modify b f).head b = f (s.head b) :=
  Function.update_self ..

theorem modify_other {x : Nat} {f : Head → Head} (h : x ≠ b) : (s.modify b f).head x = s.head x :=
  Function.update_of_ne h ..

/-- A change of one buffer that keeps its identity and count, and does not make it dirty. -/
theorem modify_quiet {f : Head → Head} (hd : (f (s.head b)).dev = (s.head b).dev)
    (hb : (f (s.head b)).block = (s.head b).block) (hc : (f (s.head b)).count = (s.head b).count)
    (hdirt : (f (s.head b)).dirt = true → (s.head b).dirt = true) : Quiet s (s.modify b f) := by
  refine ⟨rfl, rfl, rfl, rfl, fun x => ?_, fun x => ?_, fun x => ?_, fun x => ?_⟩ <;>
    · by_cases hx : x = b
      · subst hx
        rw [modify_self]
        assumption
      · rw [modify_other hx]
        try exact id

theorem tick_head (b : Nat) (s : State) :
    s.tick.head b = (s.head b).release ∨ s.tick.head b = s.head b := by
  show (if s.finished s.time b then (s.head b).release else s.head b) = (s.head b).release ∨
    (if s.finished s.time b then (s.head b).release else s.head b) = s.head b
  split
  · exact .inl rfl
  · exact .inr rfl

theorem tick_quiet (s : State) : Quiet s s.tick := by
  have hkeep {α : Type} (f : Head → α) (hf : ∀ h : Head, f h.release = f h) (b : Nat) :
      f (s.tick.head b) = f (s.head b) := by
    obtain h | h := tick_head b s
    · rw [h]
      exact hf _
    · rw [h]
  exact ⟨rfl, rfl, rfl, rfl, hkeep Head.dev fun _ => rfl, hkeep Head.block fun _ => rfl,
    hkeep Head.count fun _ => rfl, fun b hb => hkeep Head.dirt (fun _ => rfl) b ▸ hb⟩

theorem wait_quiet (b : Nat) (s : State) : Quiet s (waitBufferUnlock b s) :=
  (tick_quiet s).trans (modify_quiet rfl rfl rfl id)

theorem llRwBlock_quiet (write : Bool) (b : Nat) (s : State) : Quiet s (llRwBlock write b s) := by
  unfold llRwBlock
  dsimp only
  split
  · exact wait_quiet b s
  · exact ((wait_quiet b s).trans (tick_quiet _)).trans (modify_quiet rfl rfl rfl nofun)

/-- Written, a buffer is clean. -/
theorem llRwBlock_clean : ((llRwBlock true b s).head b).dirt = false := by
  unfold llRwBlock
  dsimp only
  split
  · next h =>
    rw [Bool.true_and, Bool.not_true, Bool.false_and, Bool.or_false, Bool.not_eq_true'] at h
    exact h
  · rw [modify_self]

theorem Quiet.fit (h : Quiet s s') (hf : Fit s) : Fit s' := by
  refine ⟨?_, ?_, ?_, ?_, ?_⟩
  · rw [h.inode]
    exact hf.dirty
  · unfold State.Mounted
    rw [h.inode, h.super]
    exact hf.super
  · rw [h.inode]
    exact hf.mount
  · rw [h.super]
    exact hf.supers
  · rw [h.free, h.nr]
    exact hf.free

theorem Quiet.unlocked (h : Quiet s s') (hu : s.Unlocked) : s'.Unlocked := by
  unfold State.Unlocked
  rw [h.inode]
  exact hu

theorem Quiet.holdsLock (h : Quiet s s') : s'.holdsLock = s.holdsLock := by
  unfold State.holdsLock
  rw [h.inode]

/-! ## `get_hash_table` -/

theorem findBuffer_some (h : findBuffer s dev block = some b) :
    (s.head b).dev = dev ∧ (s.head b).block = block := by
  have := List.find?_some h
  rwa [Bool.and_eq_true, beq_iff_eq, beq_iff_eq] at this

theorem Quiet.findBuffer (h : Quiet s s') : findBuffer s' dev block = findBuffer s dev block := by
  unfold WriteBack.findBuffer
  rw [h.nr]
  refine congrArg (fun p => (List.range s.nr).find? p) (funext fun b => ?_)
  rw [h.dev, h.block]

theorem getHashTable_none (h : findBuffer s dev block = none) :
    getHashTable (n + 1) dev block s = .ok (none, s) := by
  unfold getHashTable
  rw [h]

/-- The buffer with one more reference. -/
def holdBuffer (b : Nat) (s : State) : State :=
  waitBufferUnlock b (s.modify b fun h => { h with count := h.count + 1 })

theorem getHashTable_some (h : findBuffer s dev block = some b) :
    getHashTable (n + 1) dev block s = .ok (some b, holdBuffer b s) := by
  have hQ := wait_quiet b (s.modify b fun h => { h with count := h.count + 1 })
  have hf := findBuffer_some h
  unfold getHashTable
  rw [h]
  refine if_pos ⟨?_, ?_⟩
  · rw [hQ.dev, modify_self]
    exact hf.1
  · rw [hQ.block, modify_self]
    exact hf.2

/-! ## The ring -/

theorem scan_mem (h : scanFree s best ring = some b) :
    best = some b ∨ b ∈ ring ∧ (s.head b).count = 0 := by
  induction ring generalizing best with
  | nil => exact .inl h
  | cons tmp ring ih =>
    have hcons (hr : b ∈ ring ∧ (s.head b).count = 0) : b ∈ tmp :: ring ∧ (s.head b).count = 0 :=
      ⟨List.mem_cons_of_mem _ hr.1, hr.2⟩
    unfold scanFree at h
    split at h
    · exact (ih h).imp id hcons
    · next hc =>
      have hc : (s.head tmp).count = 0 := not_not.mp hc
      split at h
      · split at h
        · cases h
          exact .inr ⟨List.mem_cons_self, hc⟩
        · obtain hb | hr := ih h
          · cases hb
            exact .inr ⟨List.mem_cons_self, hc⟩
          · exact .inr (hcons hr)
      · exact (ih h).imp id hcons

theorem scan_none (h : scanFree s best ring = none) :
    best = none ∧ ∀ b ∈ ring, (s.head b).count ≠ 0 := by
  induction ring generalizing best with
  | nil => exact ⟨h, fun _ hb => (nomatch hb)⟩
  | cons tmp ring ih =>
    unfold scanFree at h
    split at h
    · next hc =>
      obtain ⟨hn, hr⟩ := ih h
      exact ⟨hn, fun b hb => (List.mem_cons.mp hb).elim (fun he => he ▸ hc) (hr b)⟩
    · split at h
      · split at h
        · cases h
        · cases (ih h).1
      · next hall =>
        rw [(ih h).1] at hall
        exact absurd rfl hall

theorem scan_le (h : scanFree s best ring = some b) :
    (∀ x ∈ ring, (s.head x).count = 0 → badness (s.head b) ≤ badness (s.head x)) ∧
      ∀ x, best = some x → badness (s.head b) ≤ badness (s.head x) := by
  induction ring generalizing best with
  | nil =>
    refine ⟨fun _ hx => (nomatch hx), fun x hx => ?_⟩
    cases h.symm.trans hx
    exact Nat.le_refl _
  | cons tmp ring ih =>
    unfold scanFree at h
    split at h
    · next hc =>
      obtain ⟨h1, h2⟩ := ih h
      refine ⟨fun x hx h0 => ?_, h2⟩
      exact (List.mem_cons.mp hx).elim (fun he => absurd (he ▸ h0) hc) fun hx => h1 x hx h0
    · split at h
      · next hall =>
        have hbest (x : Nat) (hx : best = some x) : badness (s.head tmp) ≤ badness (s.head x) := by
          rw [hx, Option.all_some, decide_eq_true_eq] at hall
          exact Nat.le_of_lt hall
        split at h
        · next h0 =>
          cases h
          exact ⟨fun x _ _ => h0 ▸ Nat.zero_le _, fun x _ => h0 ▸ Nat.zero_le _⟩
        · obtain ⟨h1, h2⟩ := ih h
          have htmp := h2 tmp rfl
          exact ⟨fun x hx h0 => (List.mem_cons.mp hx).elim (fun he => he ▸ htmp) fun hx => h1 x hx h0,
            fun x hx => Nat.le_trans htmp (hbest x hx)⟩
      · next hall =>
        obtain ⟨h1, h2⟩ := ih h
        refine ⟨fun x hx h0 => (List.mem_cons.mp hx).elim (fun he => ?_) fun hx => h1 x hx h0, h2⟩
        cases hb : best with
        | none =>
          rw [hb] at hall
          exact absurd rfl hall
        | some y =>
          rw [hb, Option.all_some, decide_eq_true_eq] at hall
          rw [he]
          exact Nat.le_trans (h2 y hb) (Nat.le_of_not_lt hall)

theorem badness_dirt {h : Head} : badness h < 2 ↔ h.dirt = false := by
  unfold badness
  cases h.dirt <;> cases h.lock <;> decide

/-- When the cache is not crowded `getblk` finds a buffer, under a lock a clean one. -/
theorem scan_roomy (h : s.crowded = false) : ∃ b ∈ s.free, scanFree s none s.free = some b ∧
    (s.head b).count = 0 ∧ (s.holdsLock = true → (s.head b).dirt = false) := by
  unfold State.crowded at h
  rw [List.all_eq_false] at h
  obtain ⟨x, hx, hbad⟩ := h
  rw [Bool.or_eq_true, not_or, decide_eq_true_eq, not_not, Bool.and_eq_true, not_and,
    Bool.not_eq_true] at hbad
  cases hs : scanFree s none s.free with
  | none => exact absurd hbad.1 ((scan_none hs).2 x hx)
  | some b =>
    obtain ⟨hb, hc⟩ := (scan_mem hs).resolve_left nofun
    refine ⟨b, hb, rfl, hc, fun hl => badness_dirt.mp ?_⟩
    exact Nat.lt_of_le_of_lt ((scan_le hs).1 x hx hbad.1) (badness_dirt.mpr (hbad.2 hl))

/-- In a crowded cache it finds none, or a dirty one under a lock. -/
theorem scan_crowded (h : s.crowded = true) (hs : scanFree s none s.free = some b) :
    (s.head b).count = 0 ∧ s.holdsLock = true ∧ (s.head b).dirt = true := by
  obtain ⟨hb, hc⟩ := (scan_mem hs).resolve_left nofun
  have := List.all_eq_true.mp h b hb
  rw [Bool.or_eq_true, decide_eq_true_eq, Bool.and_eq_true] at this
  exact ⟨hc, this.resolve_left fun hn => hn hc⟩

/-! ## `getblk` -/

/-- A buffer has one more reference, and perhaps a new identity. -/
structure Got (b : Nat) (s s' : State) : Prop where
  inode : s'.inode = s.inode
  super : s'.super = s.super
  nr : s'.nr = s.nr
  free : ∀ x ∈ s'.free, x ∈ s.free
  count : ∀ x, (s'.head x).count = (s.head x).count + if x = b then 1 else 0

theorem Got.after (h : Got b s' s'') (hq : Quiet s s') : Got b s s'' :=
  ⟨h.inode.trans hq.inode, h.super.trans hq.super, h.nr.trans hq.nr,
    fun x hx => hq.free ▸ h.free x hx, fun x => by rw [h.count, hq.count]⟩

theorem Got.quiet (h : Got b s s') (hq : Quiet s' s'') : Got b s s'' :=
  ⟨hq.inode.trans h.inode, hq.super.trans h.super, hq.nr.trans h.nr,
    fun x hx => h.free x (hq.free ▸ hx), fun x => by rw [hq.count, h.count]⟩

theorem modify_got {f : Head → Head} (hc : (f (s.head b)).count = (s.head b).count + 1) :
    Got b s (s.modify b f) := by
  refine ⟨rfl, rfl, rfl, fun _ => id, fun x => ?_⟩
  by_cases hx : x = b
  · rw [hx, if_pos rfl, modify_self, hc]
  · rw [if_neg hx, modify_other hx]
    rfl

theorem holdBuffer_got : Got b s (holdBuffer b s) := (modify_got rfl).quiet (wait_quiet b _)

theorem take_got (hb : b ∈ s.free) (hc : (s.head b).count = 0) : Got b s (take b dev block s) := by
  have h : Got b s (s.modify b fun h =>
      { h with dev := dev, block := block, count := 1, dirt := false, uptodate := false }) :=
    modify_got (by rw [hc])
  refine ⟨h.inode, h.super, h.nr, fun x hx => ?_, h.count⟩
  obtain hx | hx := List.mem_append.mp hx
  · exact List.mem_of_mem_erase hx
  · rw [List.mem_singleton.mp hx]
    exact hb

theorem getblk_found (h : findBuffer s dev block = some b) :
    getblk watch sync (n + 2) dev block s = .ok (b, holdBuffer b s.tick) := by
  unfold getblk
  rw [getHashTable_some ((tick_quiet s).findBuffer.trans h)]
  rfl

/-- The block is in no buffer. -/
theorem getblk_none (h : findBuffer s dev block = none) : getblk watch sync (n + 2) dev block s =
    if watch && s.tick.crowded then .error .crowded
    else
      match scanFree s.tick none s.tick.free with
      | none => .error .starved
      | some b => claimBuffer sync (getblk watch sync (n + 1) dev block) (n + 1) b dev block s.tick := by
  rw [getblk, getHashTable_none ((tick_quiet s).findBuffer.trans h)]
  rfl

theorem getblk_short (h : n < 2) : getblk watch sync n dev block s = .error .fuel := by
  obtain rfl | rfl : n = 0 ∨ n = 1 := by omega
  · rfl
  · rfl

theorem cleanLoop_clean (h : (s.head b).dirt = false) :
    cleanLoop sync b (n + 1) s = .ok (false, s) := by
  rw [cleanLoop, if_neg (by rw [h]; exact Bool.false_ne_true)]

/-- A clean buffer is taken at once. -/
theorem claimBuffer_clean {again : State → Out (Nat × State)} (hc : (s.head b).count = 0)
    (hd : (s.head b).dirt = false) (hf : findBuffer s dev block = none) :
    claimBuffer sync again (n + 1) b dev block s = .ok (b, take b dev block (waitBufferUnlock b s)) := by
  have hQ := wait_quiet b s
  have hd' : ((waitBufferUnlock b s).head b).dirt = false :=
    Bool.eq_false_iff.mpr fun h => by rw [hQ.dirt b h] at hd; cases hd
  unfold claimBuffer
  dsimp only
  rw [if_neg (by rw [hQ.count, hc]; exact not_not.mpr rfl), cleanLoop_clean hd']
  show (if (false || (findBuffer (waitBufferUnlock b s) dev block).isSome) = true then _ else _) = _
  rw [hQ.findBuffer, hf]
  rfl

/-! ## Under a lock -/

/-- A run that neither returns nor panics. -/
abbrev IsStuck {α : Type} (x : Out α) : Prop := Stuck (· = Stop.panic) x

/-- `sync_dev` does not come back to a task that holds the lock of an inode. -/
def Blocked (sync : Dev → State → Out State) : Prop :=
  ∀ dev s, Fit s → s.holdsLock = true → IsStuck (sync dev s)

theorem claimBuffer_stuck {again : State → Out (Nat × State)} (hB : Blocked sync) (hF : Fit s)
    (hc : (s.head b).count = 0) (hl : s.holdsLock = true) (hd : (s.head b).dirt = true) :
    IsStuck (claimBuffer sync again n b dev block s) := by
  have hQ := wait_quiet b s
  unfold claimBuffer
  dsimp only
  rw [if_neg (by rw [hQ.count, hc]; exact not_not.mpr rfl)]
  refine Stuck.bind ?_
  cases n with
  | zero => exact ⟨.fuel, rfl, nofun⟩
  | succ n =>
    -- the wait for the buffer does not clean it, so `sync_dev` is called
    have hd' : ((waitBufferUnlock b s).head b).dirt = true := by
      show ((s.tick.modify b Head.release).head b).dirt = true
      rw [modify_self]
      obtain h | h := tick_head b s
      · rw [h]
        exact hd
      · rw [h]
        exact hd
    rw [cleanLoop, if_pos hd']
    exact (hB _ _ (hQ.fit hF) (hQ.holdsLock.trans hl)).bind

/-- Under a lock `getblk` returns at once, or it meets a crowded cache and gets stuck. -/
theorem getblk_locked (dev : Dev) (block : Block) (hl : s.holdsLock = true) :
    (∃ b s', (∀ watch sync n, getblk watch sync (n + 2) dev block s = .ok (b, s')) ∧ Got b s s') ∨
      (∀ sync n, getblk true sync (n + 2) dev block s = .error .crowded) ∧
        ∀ sync, Blocked sync → Fit s → ∀ n, IsStuck (getblk false sync (n + 2) dev block s) := by
  have hQ := tick_quiet s
  cases hf : findBuffer s dev block with
  | some b =>
    exact .inl ⟨b, _, fun _ _ _ => getblk_found hf, holdBuffer_got.after hQ⟩
  | none =>
    have hl' := hQ.holdsLock.trans hl
    cases hcr : s.tick.crowded with
    | false =>
      obtain ⟨b, hb, hscan, hc, hd⟩ := scan_roomy hcr
      have hW := wait_quiet b s.tick
      refine .inl ⟨b, take b dev block (waitBufferUnlock b s.tick), fun watch sync n => ?_, ?_⟩
      · rw [getblk_none hf, hcr, Bool.and_false, if_neg Bool.false_ne_true, hscan]
        exact claimBuffer_clean hc (hd hl') (hQ.findBuffer.trans hf)
      · have hb' : b ∈ (waitBufferUnlock b s.tick).free := hW.free ▸ hb
        exact (take_got hb' (by rw [hW.count, hc])).after (hQ.trans hW)
    | true =>
      refine .inr ⟨fun sync n => ?_, fun sync hB hF n => ?_⟩
      · rw [getblk_none hf, hcr]
        rfl
      · rw [getblk_none hf, Bool.false_and, if_neg Bool.false_ne_true]
        cases hscan : scanFree s.tick none s.tick.free with
        | none => exact ⟨.starved, rfl, nofun⟩
        | some b =>
          obtain ⟨hc, hl, hd⟩ := scan_crowded hcr hscan
          exact claimBuffer_stuck hB (hQ.fit hF) hc hl hd

/-- The end of `bread`. -/
def finishRead (b : Nat) (s : State) : State :=
  if (s.head b).uptodate then s else waitBufferUnlock b (llRwBlock false b s)

theorem finishRead_quiet (b : Nat) (s : State) : Quiet s (finishRead b s) := by
  unfold finishRead
  split
  · exact .refl s
  · exact (llRwBlock_quiet false b s).trans (wait_quiet b _)

theorem bread_eq : bread watch sync fuel dev block s =
    (getblk watch sync fuel dev block s).map fun r => (r.1, finishRead r.1 r.2) := by
  unfold bread
  cases getblk watch sync fuel dev block s with
  | error e => rfl
  | ok r =>
    show (if (r.2.head r.1).uptodate then (.ok (r.1, r.2) : Out (Nat × State)) else .ok (r.1, _)) =
      .ok (r.1, finishRead r.1 r.2)
    unfold finishRead
    split <;> rfl

theorem bread_locked (dev : Dev) (block : Block) (hl : s.holdsLock = true) :
    (∃ b s', (∀ watch sync n, bread watch sync (n + 2) dev block s = .ok (b, s')) ∧ Got b s s') ∨
      (∀ sync n, bread true sync (n + 2) dev block s = .error .crowded) ∧
        ∀ sync, Blocked sync → Fit s → ∀ n, IsStuck (bread false sync (n + 2) dev block s) := by
  obtain ⟨b, s', hget, hg⟩ | ⟨hw, hu⟩ := getblk_locked dev block hl
  · refine .inl ⟨b, finishRead b s', fun watch sync n => ?_, hg.quiet (finishRead_quiet b s')⟩
    rw [bread_eq, hget]
    rfl
  · refine .inr ⟨fun sync n => ?_, fun sync hB hF n => ?_⟩
    · rw [bread_eq, hw]
      rfl
    · obtain ⟨e, he, hp⟩ := hu sync hB hF n
      rw [bread_eq, he]
      exact ⟨e, rfl, hp⟩

theorem bread_short (h : n < 2) : IsStuck (bread watch sync n dev block s) := by
  rw [bread_eq, getblk_short h]
  exact ⟨.fuel, rfl, nofun⟩

/-! ## `write_inode` under its own lock -/

@[simp] theorem setInode_self {h : MInode} : (s.setInode i h).inode i = h := Function.update_self ..

theorem setInode_other {h : MInode} (hj : j ≠ i) : (s.setInode i h).inode j = s.inode j :=
  Function.update_of_ne hj ..

/-- The lock of an inode does not matter to the rest. -/
theorem Fit.lock (hF : Fit s) (v : Bool) : Fit (s.setInode i { s.inode i with lock := v }) := by
  have h {P : MInode → Prop} (hP : ∀ h : MInode, P h → P { h with lock := v }) (j : Nat)
      (hj : P (s.inode j)) : P ((s.setInode i { s.inode i with lock := v }).inode j) := by
    by_cases hij : j = i
    · subst hij
      rw [setInode_self]
      exact hP _ hj
    · rw [setInode_other hij]
      exact hj
  refine ⟨fun j hj => ?_, fun j hj => ?_, fun j hj => ?_, hF.supers, hF.free⟩
  · exact h (P := fun h => h.dirt = true → h.dev ≠ 0) (fun _ => id) j (hF.dirty j hj)
  · exact h (P := fun h => h.dirt = true ∨ h.count ≠ 0 → h.dev ≠ 0 → s.Mounted h.dev) (fun _ => id) j
      (hF.super j hj)
  · exact h (P := fun h => h.mount = true → h.num ≠ 1 ∧ h.count ≠ 0) (fun _ => id) j (hF.mount j hj)

theorem holdsLock_lock (hi : i < 32) :
    (s.setInode i { s.inode i with lock := true }).holdsLock = true :=
  holdsLock_iff.mpr ⟨i, hi, by rw [setInode_self]⟩

theorem checkInSuperb_cases (h : ∀ k, (s.super k).lock = false) (dev : Dev) :
    checkInSuperb dev s = .ok none ∨
      ∃ sb, checkInSuperb dev s = .ok (some sb) ∧ s.Mounted dev := by
  unfold checkInSuperb
  split
  · exact .inl rfl
  · split
    · exact .inl rfl
    · next k hk =>
      have hmem := List.mem_of_find?_eq_some hk
      have hdev : ((s.super k).dev == dev) = true := by simpa using List.find?_some hk
      rw [if_neg (by rw [h]; exact Bool.false_ne_true)]
      exact .inr ⟨_, rfl, k, List.mem_range.mp hmem, beq_iff_eq.mp hdev⟩

theorem checkInSuperb_mounted (h : ∀ k, (s.super k).lock = false) (h0 : dev ≠ 0) (hm : s.Mounted dev) :
    ∃ sb, checkInSuperb dev s = .ok (some sb) := by
  obtain ⟨k, hk, hdev⟩ := hm
  unfold checkInSuperb
  rw [if_neg h0]
  cases hf : (List.range 8).find? fun k => (s.super k).dev == dev with
  | none =>
    have := List.find?_eq_none.mp hf k (List.mem_range.mpr hk)
    exact absurd (beq_iff_eq.mpr hdev) this
  | some k =>
    dsimp only
    rw [if_neg (by rw [h]; exact Bool.false_ne_true)]
    exact ⟨_, rfl⟩

/-- The inode is in its block, and nothing else is different but one clean buffer. -/
structure Wrote (i : Nat) (s s' : State) : Prop where
  inode : s'.inode = Function.update s.inode i { s.inode i with dirt := false }
  super : s'.super = s.super
  nr : s'.nr = s.nr
  free : ∀ x ∈ s'.free, x ∈ s.free
  count : ∀ x, (s'.head x).count = (s.head x).count

theorem Wrote.self (h : Wrote i s s') : s'.inode i = { s.inode i with dirt := false } := by
  rw [h.inode, Function.update_self]

theorem Wrote.other (h : Wrote i s s') (hj : j ≠ i) : s'.inode j = s.inode j := by
  rw [h.inode, Function.update_of_ne hj]

theorem Wrote.fit (h : Wrote i s s') (hF : Fit s) : Fit s' := by
  refine ⟨fun j hj hd => ?_, fun j hj hc h0 => ?_, fun j hj hm => ?_, fun k => ?_, fun b hb => ?_⟩
  · by_cases hij : j = i
    · rw [hij, h.self] at hd
      cases hd
    · rw [h.other hij] at hd ⊢
      exact hF.dirty j hj hd
  · unfold State.Mounted
    rw [h.super]
    by_cases hij : j = i
    · subst hij
      rw [h.self] at hc h0 ⊢
      exact hF.super j hj (.inr (hc.resolve_left Bool.false_ne_true)) h0
    · rw [h.other hij] at hc h0 ⊢
      exact hF.super j hj hc h0
  · by_cases hij : j = i
    · subst hij
      rw [h.self] at hm ⊢
      exact hF.mount j hj hm
    · rw [h.other hij] at hm ⊢
      exact hF.mount j hj hm
  · rw [h.super]
    exact hF.supers k
  · rw [h.nr]
    exact hF.free b (h.free b hb)

theorem Wrote.unlocked (h : Wrote i s s') (hu : s.Unlocked) : s'.Unlocked := by
  intro j hj
  by_cases hij : j = i
  · subst hij
    rw [h.self]
    exact hu j hj
  · rw [h.other hij]
    exact hu j hj

/-- The buffer with one reference less. -/
def dropBuffer (b : Nat) (s : State) : State :=
  (waitBufferUnlock b s).modify b fun h => { h with count := h.count - 1 }

theorem brelse_ok (h : (s.head b).count ≠ 0) : brelse b s = .ok (dropBuffer b s) := by
  unfold brelse
  dsimp only
  rw [if_neg (by rw [(wait_quiet b s).count]; exact h)]
  rfl

/-- `write_inode` of a dirty inode is `bread` under the lock, and the rest does not fail. -/
theorem writeInode_dirty (hF : Fit s) (hi : i < 32) (hl : (s.inode i).lock = false)
    (hd : (s.inode i).dirt = true) : ∃ dev block, ∀ watch sync n, writeInode watch sync n i s =
      (bread watch sync n dev block (s.setInode i { s.inode i with lock := true })).bind fun r =>
        (brelse r.1 (storeInode i r.1 r.2)).map (unlockInode i) := by
  have h0 := hF.dirty i hi hd
  have hF' := hF.lock (i := i) true
  obtain ⟨sb, hsb⟩ := checkInSuperb_mounted hF'.supers h0 (hF.super i hi (.inl hd) h0)
  refine ⟨(s.inode i).dev, sb.inodeBlock (s.inode i).num, fun watch sync n => ?_⟩
  unfold writeInode
  rw [if_neg (by rw [hl]; exact Bool.false_ne_true)]
  dsimp only
  rw [setInode_self]
  dsimp only
  rw [if_neg (fun h => h.elim (fun hf => by rw [hd] at hf; cases hf) h0), hsb]
  rfl

theorem wrote_of_got {s1 : State} (hl : (s.inode i).lock = false)
    (hg : Got b (s.setInode i { s.inode i with lock := true }) s1) :
    Wrote i s (unlockInode i (dropBuffer b (storeInode i b s1))) := by
  have hQ := wait_quiet b (storeInode i b s1)
  refine ⟨?_, hQ.super.trans hg.super, hQ.nr.trans hg.nr, fun x hx => ?_, fun x => ?_⟩
  · funext j
    by_cases hij : j = i
    · subst hij
      rw [Function.update_self]
      show (unlockInode j (dropBuffer b (storeInode j b s1))).inode j = _
      unfold unlockInode
      rw [setInode_self]
      show { (waitBufferUnlock b (storeInode j b s1)).inode j with lock := false } = _
      rw [hQ.inode]
      show { Function.update s1.inode j { s1.inode j with dirt := false } j with lock := false } = _
      rw [Function.update_self, hg.inode, setInode_self, ← hl]
    · rw [Function.update_of_ne hij]
      show (unlockInode i (dropBuffer b (storeInode i b s1))).inode j = _
      unfold unlockInode
      rw [setInode_other hij]
      show (waitBufferUnlock b (storeInode i b s1)).inode j = _
      rw [hQ.inode]
      show Function.update s1.inode i { s1.inode i with dirt := false } j = _
      rw [Function.update_of_ne hij, hg.inode, setInode_other hij]
  · have hx : x ∈ (waitBufferUnlock b (storeInode i b s1)).free := hx
    exact hg.free x (hQ.free ▸ hx)
  · have hstore (y : Nat) : ((storeInode i b s1).head y).count = (s1.head y).count := by
      show ((s1.modify b fun h => { h with dirt := true }).head y).count = _
      by_cases hy : y = b
      · rw [hy, modify_self]
      · rw [modify_other hy]
    have hgot := hg.count x
    show ((dropBuffer b (storeInode i b s1)).head x).count = _
    unfold dropBuffer
    by_cases hx : x = b
    · rw [hx, if_pos rfl] at hgot
      rw [hx, modify_self, hQ.count, hstore, hgot]
      exact Nat.add_sub_cancel ..
    · rw [if_neg hx] at hgot
      rw [modify_other hx, hQ.count, hstore, hgot]
      rfl

/-- `write_inode` returns at once, or it meets a crowded cache and gets stuck. -/
theorem writeInode_locked (hF : Fit s) (hi : i < 32) (hl : (s.inode i).lock = false)
    (hd : (s.inode i).dirt = true) :
    (∃ s', (∀ watch sync n, writeInode watch sync (n + 2) i s = .ok s') ∧ Wrote i s s') ∨
      (∀ sync n, writeInode true sync (n + 2) i s = .error .crowded) ∧
        ∀ sync, Blocked sync → ∀ n, IsStuck (writeInode false sync (n + 2) i s) := by
  obtain ⟨dev, block, hw⟩ := writeInode_dirty hF hi hl hd
  obtain ⟨b, s1, hread, hg⟩ | ⟨hwatch, hstuck⟩ := bread_locked dev block (holdsLock_lock (s := s) hi)
  · refine .inl ⟨_, fun watch sync n => ?_, wrote_of_got hl hg⟩
    have hc : ((storeInode i b s1).head b).count ≠ 0 := by
      show ((s1.modify b fun h => { h with dirt := true }).head b).count ≠ 0
      rw [modify_self]
      show (s1.head b).count ≠ 0
      rw [hg.count, if_pos rfl]
      exact Nat.succ_ne_zero _
    rw [hw, hread]
    show (brelse b (storeInode i b s1)).map (unlockInode i) = _
    rw [brelse_ok hc]
    rfl
  · refine .inr ⟨fun sync n => ?_, fun sync hB n => ?_⟩
    · rw [hw, hwatch]
      rfl
    · rw [hw]
      exact (hstuck sync hB (hF.lock true) n).bind

theorem writeInode_stuckOr (hB : Blocked sync) (hF : Fit s) (hi : i < 32)
    (hl : (s.inode i).lock = false) (hd : (s.inode i).dirt = true) :
    StuckOr (· = Stop.panic) (Wrote i s) (writeInode false sync n i s) := by
  by_cases hn : n < 2
  · obtain ⟨dev, block, hw⟩ := writeInode_dirty hF hi hl hd
    rw [hw]
    exact .inl (bread_short hn).bind
  · obtain ⟨n, rfl⟩ := Nat.exists_eq_add_of_le' (Nat.le_of_not_lt hn)
    obtain ⟨s', hw, hs⟩ | ⟨-, hu⟩ := writeInode_locked hF hi hl hd
    · exact .inr ⟨s', hw _ _ _, hs⟩
    · exact .inl (hu sync hB n)

/-! ## `sync_dev` under a lock -/

theorem syncBuffer_quiet (dev : Dev) (s : State) (b : Nat) : Quiet s (syncBuffer dev s b) := by
  unfold syncBuffer
  split
  · exact .refl s
  · dsimp only
    split
    · exact (wait_quiet b s).trans (llRwBlock_quiet true b _)
    · exact wait_quiet b s

theorem foldl_quiet {f : State → Nat → State} (h : ∀ s b, Quiet s (f s b)) (bs : List Nat) (s : State) :
    Quiet s (bs.foldl f s) := by
  induction bs generalizing s with
  | nil => exact .refl s
  | cons b bs ih => exact (h s b).trans (ih (f s b))

theorem syncBuffers_quiet (dev : Dev) (s : State) : Quiet s (syncBuffers dev s) :=
  foldl_quiet (syncBuffer_quiet dev) _ s

theorem syncInodes_blocked (hB : Blocked sync) (hF : Fit s) (hl : s.holdsLock = true) :
    IsStuck (syncInodes false sync n s) := by
  obtain ⟨j, hj, hjl⟩ := holdsLock_iff.mp hl
  refine Stuck.loop (I := fun s => Fit s ∧ (s.inode j).lock = true) (List.mem_range.mpr hj)
    (fun i hi u ⟨hF, hjl⟩ => ?_) (fun u ⟨_, hjl⟩ => ?_) ⟨hF, hjl⟩
  · split
    · exact .inl ⟨.ownLock, rfl, nofun⟩
    · next hil =>
      rw [Bool.not_eq_true] at hil
      split
      · next hd =>
        rw [Bool.and_eq_true] at hd
        obtain h | ⟨v, hv, hw⟩ := writeInode_stuckOr (n := n) hB hF (List.mem_range.mp hi) hil hd.1
        · exact .inl h
        · refine .inr ⟨v, hv, hw.fit hF, ?_⟩
          rw [hw.other (fun he => by rw [he, hil] at hjl; cases hjl)]
          exact hjl
      · exact .inr ⟨u, rfl, hF, hjl⟩
  · rw [if_pos hjl]
    exact ⟨.ownLock, rfl, nofun⟩

/-- A task that holds the lock of an inode does not come back from `sync_dev`. -/
theorem syncDev_blocked (n : Nat) : Blocked (syncDev false n) := by
  induction n with
  | zero => exact fun _ _ _ _ => ⟨.fuel, rfl, nofun⟩
  | succ n ih =>
    intro dev s hF hl
    have hQ := syncBuffers_quiet dev s
    exact (syncInodes_blocked ih (hQ.fit hF) (hQ.holdsLock.trans hl)).map

end Linux011.WriteBack
