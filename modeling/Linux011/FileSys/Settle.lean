import Linux011.FileSys.Marks

/-!
# Calls that return

A buffer can be had at any moment: if all others are dirty, `getblk` has the inodes written back first.
That panics when an inode is dirty whose device is not mounted, so a state is `Writable` if there is
none. What is the same after such a write-back, `Settled` says: all bytes of the blocks, all references,
and every predicate on inodes that is `Stable`.
-/

namespace Linux011.FileSys

open Lib (Returns)
open Lib.Prog (stop alarm when forEach)

variable {s s' s'' : State Tables} {i : Nat} {dev : Dev} {sb : SuperBlock}

/-- An inode that is dirty can be written back. -/
def State.Writable (s : State Tables) : Prop :=
  ∀ i, (s.inode i).dirt = true → (s.inode i).dev ≠ 0 ∧ (s.superAt (s.inode i).dev).isSome

/-- Inodes may have been written back, and time has passed. -/
structure Settled (s s' : State Tables) : Prop where
  byte : s'.contents.byte = s.contents.byte
  super : s'.super = s.super
  task : s'.task = s.task
  bcount : s'.bcount = s.bcount
  stable : ∀ {P}, Stable P → P s → P s'

theorem Settled.refl (s : State Tables) : Settled s s := ⟨rfl, rfl, rfl, rfl, fun _ h => h⟩

theorem Settled.trans (h : Settled s s') (h' : Settled s' s'') : Settled s s'' where
  byte := h'.byte.trans h.byte
  super := h'.super.trans h.super
  task := h'.task.trans h.task
  bcount := h'.bcount.trans h.bcount
  stable hP hs := h'.stable hP (h.stable hP hs)

theorem superAt_congr {C : Type} {s s' : State C} (h : s'.super = s.super) (dev : Dev) :
    s'.superAt dev = s.superAt dev := by
  unfold State.superAt
  rw [h]

theorem Settled.superAt (h : Settled s s') (dev : Dev) : s'.superAt dev = s.superAt dev :=
  superAt_congr h.super dev

theorem writable_stable : Stable State.Writable where
  frame {s s'} hi _ hs h i hdirt := by
    rw [hi] at hdirt ⊢
    rw [superAt_congr hs]
    exact h i hdirt
  store {s i sb} _ _ h j hdirt := by
    obtain ⟨b, hb, hle⟩ := storeInode_inode s i ((s.inode i).dev, sb.inodeBlock (s.inode i).num) j
    rw [hb] at hdirt ⊢
    exact h j (hle hdirt)

theorem Settled.writable (h : Settled s s') (hw : s.Writable) : s'.Writable :=
  h.stable writable_stable hw

theorem decCount_incCount (n : Bh → Nat) (bh : Bh) : decCount (incCount n bh) bh = n := by
  unfold incCount decCount
  rw [Function.update_idem, Function.update_self, Nat.add_sub_cancel, Function.update_eq_self]

section

variable {C : Type} {s : State C}

theorem superOf_iff {Q : SuperBlock → State C → Prop} (hsb : s.superAt dev = some sb) :
    Returns (superOf dev : Call C SuperBlock) s Q ↔ Q sb s := by
  have hfound : (if dev = 0 then none
      else ((List.range 8).find? fun k => (s.super k).dev == dev).map s.super) = some sb := hsb
  unfold superOf checkInSuperb
  rw [Returns.bind_iff, Returns.read_iff, hfound]
  exact Returns.pure_iff

theorem hold_returns {bh : Bh} {Q : Unit → State C → Prop}
    (h : Q () { s with bcount := incCount s.bcount bh }) :
    Returns (hold bh : Call C Unit) s Q :=
  Returns.modify_iff.mpr h

/-- A reference that was counted is given back. -/
theorem brelse_returns {bh : Bh} {n : Bh → Nat} {Q : Unit → State C → Prop}
    (hn : s.bcount = incCount n bh) (h : Q () { s with bcount := n }) :
    Returns (brelse bh : Call C Unit) s Q := by
  refine Returns.bind_iff.mpr (Returns.read_iff.mpr (Returns.ite (fun h0 => ?_) fun _ => ?_))
  · rw [hn, incCount, Function.update_self] at h0
    cases h0
  · refine Returns.modify_iff.mpr ?_
    rw [hn, decCount_incCount]
    exact h

/-- `write_inode` of an inode that is dirty. -/
theorem writeInode_dirty [Contents C] {Q : Unit → State C → Prop} (hdirt : (s.inode i).dirt = true)
    (hsb : s.superAt (s.inode i).dev = some sb)
    (h : Q () (s.storeInode i ((s.inode i).dev, sb.inodeBlock (s.inode i).num))) :
    Returns (writeInode i : Call C Unit) s Q := by
  refine Returns.bind_iff.mpr (Returns.read_iff.mpr (Returns.ite (fun hc => ?_) fun _ => ?_))
  · obtain hclean | hdev := hc
    · rw [hdirt] at hclean
      cases hclean
    · rw [State.superAt, if_pos hdev] at hsb
      cases hsb
  · refine Returns.bind_iff.mpr ((superOf_iff hsb).mpr (Returns.bind_iff.mpr (hold_returns ?_)))
    exact Returns.bind_iff.mpr (Returns.modify_iff.mpr (brelse_returns rfl h))

end

/-- `write_inode`. -/
theorem writeInode_returns (hi : (s.inode i).dirt = true → (s.superAt (s.inode i).dev).isSome) :
    Returns (writeInode i : Call Tables Unit) s fun _ s' => Settled s s' ∧
      ((s.inode i).dev ≠ 0 → (s'.inode i).dirt = false) := by
  by_cases h : (s.inode i).dirt = false ∨ (s.inode i).dev = 0
  · refine Returns.bind_iff.mpr (Returns.read_iff.mpr (Returns.ite (fun _ => ?_) fun hn => absurd h hn))
    exact Returns.pure_iff.mpr ⟨.refl s, fun hdev => h.resolve_right hdev⟩
  · rw [not_or, Bool.not_eq_false] at h
    obtain ⟨sb, hsb⟩ := Option.isSome_iff_exists.mp (hi h.1)
    refine writeInode_dirty h.1 hsb ⟨⟨rfl, rfl, rfl, rfl, fun hP hs => hP.store h.2 hsb hs⟩, fun _ => ?_⟩
    rw [storeInode_self]

/-- `sync_inodes`. -/
theorem syncInodes_returns (hw : s.Writable) :
    Returns (syncInodes : Call Tables Unit) s fun _ s' => Settled s s' := by
  refine Returns.forEach (fun i _ s₁ h₁ => ?_) (Settled.refl s)
  refine Returns.bind_iff.mpr (Returns.read_iff.mpr (Returns.when (fun h => ?_) fun _ => h₁))
  exact (writeInode_returns fun hdirt => (h₁.writable hw i hdirt).2).mono
    fun _ _ h₂ => h₁.trans h₂.1

/-- `getblk`: the buffer has one more reference, and otherwise nothing happens but a write-back. -/
theorem getblk_returns (hw : s.Writable) (dev : Dev) (block : Block) :
    Returns (getblk dev block : Call Tables Bh) s fun bh s' => bh = (dev, block) ∧
      ∃ s₁, Settled s s₁ ∧ s' = { s₁ with bcount := incCount s₁.bcount (dev, block) } := by
  refine Returns.bind_iff.mpr (Returns.read_iff.mpr (Returns.bind_iff.mpr (Returns.modify_iff.mpr ?_)))
  have hpass : Settled s { s with time := s.time + 1 } :=
    ⟨rfl, rfl, rfl, rfl, fun hP hs => hP.frame (s := s) rfl rfl rfl hs⟩
  refine Returns.bind (Q := fun _ s₁ => Settled s s₁) (Returns.when (fun _ => ?_) fun _ => hpass)
    fun _ s₁ h₁ => ?_
  · exact (syncInodes_returns (hpass.writable hw)).mono fun _ _ h => hpass.trans h
  · exact Returns.bind_iff.mpr (hold_returns (Returns.pure_iff.mpr ⟨rfl, s₁, h₁, rfl⟩))

/-! ## An empty inode -/

/-- `++last_inode`, which goes round. -/
def nextInode (last : Nat) : Nat := if last + 1 ≥ 32 then 0 else last + 1

theorem nextInode_iterate (last k : Nat) (h : last < 32) :
    nextInode^[k] last = (last + k) % 32 := by
  induction k with
  | zero => exact (Nat.mod_eq_of_lt h).symm
  | succ k ih =>
    rw [Function.iterate_succ_apply', ih, nextInode]
    split <;> omega

/-- The ring of 32 entries comes by each of them. -/
theorem nextInode_cover (last i : Nat) (hi : i < 32) : ∃ k < 32, nextInode^[k + 1] last = i := by
  by_cases hlast : last < 32
  · refine ⟨(i + 31 - last) % 32, Nat.mod_lt _ (by decide), ?_⟩
    rw [nextInode_iterate last _ hlast]
    omega
  · have hzero : nextInode last = 0 := if_pos (by omega)
    refine ⟨i, hi, ?_⟩
    rw [Function.iterate_succ_apply, hzero, nextInode_iterate 0 i (by decide), Nat.zero_add,
      Nat.mod_eq_of_lt hi]

theorem scanInodes_succ (inode : Nat → MInode) (n last : Nat) (found : Option Nat) :
    scanInodes inode (n + 1) last found =
      if (inode (nextInode last)).count = 0 then
        if (inode (nextInode last)).dirt = false then (some (nextInode last), nextInode last)
        else scanInodes inode n (nextInode last) (some (nextInode last))
      else scanInodes inode n (nextInode last) found := rfl

/-- The loop finds an entry unless all that it comes by are in use. -/
theorem scanInodes_none {inode : Nat → MInode} {n last : Nat} {found : Option Nat}
    (h : (scanInodes inode n last found).1 = none) :
    found = none ∧ ∀ k < n, (inode (nextInode^[k + 1] last)).count ≠ 0 := by
  induction n generalizing last found with
  | zero => exact ⟨h, fun k hk => absurd hk (Nat.not_lt_zero k)⟩
  | succ n ih =>
    rw [scanInodes_succ] at h
    split at h
    · split at h
      · cases h
      · cases (ih h).1
    · next hcount =>
      obtain ⟨hfound, hrest⟩ := ih h
      refine ⟨hfound, fun k hk => ?_⟩
      cases k with
      | zero => exact hcount
      | succ k => exact hrest k (Nat.lt_of_succ_lt_succ hk)

/-- What the loop finds is not in use. -/
theorem scanInodes_free {inode : Nat → MInode} {n last i : Nat} {found : Option Nat}
    (h : (scanInodes inode n last found).1 = some i)
    (hfound : ∀ j, found = some j → (inode j).count = 0) : (inode i).count = 0 := by
  induction n generalizing last found with
  | zero => exact hfound i h
  | succ n ih =>
    rw [scanInodes_succ] at h
    split at h
    · next hcount =>
      split at h
      · cases h
        exact hcount
      · exact ih h fun j hj => Option.some.inj hj ▸ hcount
    · exact ih h hfound

/-- An entry of the inode table is free. -/
def State.Room (s : State Tables) : Prop := ∃ i < 32, (s.inode i).count = 0

/-- `get_empty_inode`, when there is one. -/
theorem getEmptyInode_returns (hw : s.Writable) (hroom : s.Room) :
    Returns (getEmptyInode : Call Tables Nat) s fun i s' => i < 32 ∧ (s.inode i).count = 0 ∧
      ∃ s₁, Settled s s₁ ∧ (s₁.inode i).dirt = false ∧
        s' = s₁.setInode i { MInode.zero with count := 1 } := by
  unfold getEmptyInode
  rw [Returns.bind_iff, Returns.read_iff, Returns.bind_iff, Returns.modify_iff]
  cases hscan : (scanInodes s.inode 32 s.lastInode none).1 with
  | none =>
    obtain ⟨i, hi, hcount⟩ := hroom
    obtain ⟨k, hk, rfl⟩ := nextInode_cover s.lastInode i hi
    exact absurd hcount ((scanInodes_none hscan).2 k hk)
  | some i =>
    dsimp only
    let s₀ : State Tables := { s with lastInode := (scanInodes s.inode 32 s.lastInode none).2 }
    have h₀ : Settled s s₀ := ⟨rfl, rfl, rfl, rfl, fun hP hs => hP.frame (s := s) rfl rfl rfl hs⟩
    have hfree : (s.inode i).count = 0 := scanInodes_free hscan nofun
    refine Returns.bind (writeInode_returns (s := s₀) fun hdirt => (hw i hdirt).2) ?_
    rintro _ s₁ ⟨h₁, hclean⟩
    have hsettled := h₀.trans h₁
    have hdirt : (s₁.inode i).dirt = false := by
      by_cases hdev : (s.inode i).dev = 0
      · have hkeep : ¬ (s₁.inode i).dirt = true := fun hdirt => by
          have hdev₁ : (s₁.inode i).dev = 0 :=
            hsettled.stable (Stable.ofInode (p := fun h => h.dev = 0) (fun _ _ h => h) i) hdev
          exact (hsettled.writable hw i hdirt).1 hdev₁
        exact Bool.eq_false_of_not_eq_true hkeep
      · exact hclean hdev
    unfold getInode
    rw [Returns.bind_iff, Returns.read_iff, hdirt, if_neg Bool.false_ne_true, Returns.bind_iff]
    unfold editInode
    rw [Returns.modify_iff, Returns.pure_iff]
    exact ⟨scanInodes_lt hscan nofun, hfree, s₁, hsettled, hdirt, rfl⟩

end Linux011.FileSys
