import Mathlib.Data.Multiset.Count
import Linux011.Fs.Frame
import Linux011.Files.Calls

/-!
# What a call does to the inodes

A call gives some references back and takes others; it changes the contents of one file at most; and
apart from the files it destroys or creates, every inode keeps its type, its permissions and its
links. `Shift` says so, and composes; what else the caller refers to is carried along.
-/

namespace Linux011.Files

open Fs (Id Byte Block MInode DirEntry)
open Inode (Dev)

/-- The reference that a pointer is. -/
def held : Option Id → Multiset Id
  | some i => {i}
  | none => 0

@[simp] theorem held_some (i : Id) : held (some i) = {i} := rfl

@[simp] theorem held_none : held none = 0 := rfl

theorem count_held (p : Option Id) (j : Id) : (held p).count j = Fs.one p j := by
  cases p with
  | none => exact Multiset.count_zero j
  | some i =>
    by_cases h : j = i
    · subst h
      rw [Fs.one_self]
      exact Multiset.count_singleton_self j
    · rw [Fs.one_of_ne h, held, Multiset.count_singleton, if_neg h]

/-- The inode has links, or somebody refers to it whose reference is not in `d`. -/
def Volume.Live (v : Volume) (d : Multiset Id) (j : Id) : Prop :=
  (v.fs.inode j).nlinks ≠ 0 ∨ d.count j < v.fs.count j

/-- References `d` are given back and `r` taken; only the contents of `w` change. -/
structure Shift (w : Option Id) (d r : Multiset Id) (v v' : Volume) : Prop where
  count : ∀ j, v'.fs.count j + d.count j = v.fs.count j + r.count j
  superBlock : v'.fs.superBlock = v.fs.superBlock
  kept : ∀ j, v.Live d j →
    (v'.fs.inode j).mode = (v.fs.inode j).mode ∧ (v'.fs.inode j).nlinks = (v.fs.inode j).nlinks
  contents : ∀ j, v.Live d j → w ≠ some j →
    (v'.fs.inode j).size = (v.fs.inode j).size ∧ v'.data j = v.data j

variable {v v' v'' : Volume} {w : Option Id} {d m r xs : Multiset Id} {i j : Id} {p q : Option Id}
  {me : Fs.Task} {fs fs' : Fs.State}

theorem Volume.Live.mono (h : v.Live (d + xs) j) : v.Live d j := by
  refine h.imp_right fun hlt => ?_
  rw [Multiset.count_add] at hlt
  omega

theorem Shift.refl (w : Option Id) (d : Multiset Id) (v : Volume) : Shift w d d v v where
  count _ := rfl
  superBlock := rfl
  kept _ _ := ⟨rfl, rfl⟩
  contents _ _ _ := ⟨rfl, rfl⟩

theorem Shift.live (S : Shift w d m v v') (h : v.Live d j) : v'.Live m j := by
  unfold Volume.Live
  rw [(S.kept j h).2]
  refine h.imp_right fun hlt => ?_
  have hc := S.count j
  omega

theorem Shift.trans (S : Shift w d m v v') (S' : Shift w m r v' v'') : Shift w d r v v'' where
  count j := by
    have h := S.count j
    have h' := S'.count j
    omega
  superBlock := S'.superBlock.trans S.superBlock
  kept j hj := by
    obtain ⟨hm, hn⟩ := S.kept j hj
    obtain ⟨hm', hn'⟩ := S'.kept j (S.live hj)
    exact ⟨hm'.trans hm, hn'.trans hn⟩
  contents j hj hw := by
    obtain ⟨hs, hd⟩ := S.contents j hj hw
    obtain ⟨hs', hd'⟩ := S'.contents j (S.live hj) hw
    exact ⟨hs'.trans hs, hd'.trans hd⟩

/-- What writes no file may write `w`. -/
theorem Shift.any (S : Shift none d r v v') (w : Option Id) : Shift w d r v v' where
  count := S.count
  superBlock := S.superBlock
  kept := S.kept
  contents j hj _ := S.contents j hj nofun

/-- The other references of the caller stay. -/
theorem Shift.frame (S : Shift w d r v v') (xs : Multiset Id) : Shift w (d + xs) (r + xs) v v' where
  count j := by
    have h := S.count j
    rw [Multiset.count_add, Multiset.count_add]
    omega
  superBlock := S.superBlock
  kept j hj := S.kept j hj.mono
  contents j hj := S.contents j hj.mono

theorem Shift.take (S : Shift w 0 r v v') (xs : Multiset Id) : Shift w xs (r + xs) v v' := by
  have h := S.frame xs
  rwa [Multiset.zero_add] at h

theorem Shift.ofTrade (T : Fs.Trade p q v.fs fs') :
    Shift none (held p) (held q) v { v with fs := fs' } where
  count j := by
    rw [count_held, count_held]
    exact T.count j
  superBlock := T.superBlock
  kept j hj := by
    have h : fs'.inode j = v.fs.inode j := T.inode j (by
      rw [← count_held]
      exact hj)
    exact ⟨congrArg MInode.mode h, congrArg MInode.nlinks h⟩
  contents j hj _ := by
    have h : fs'.inode j = v.fs.inode j := T.inode j (by
      rw [← count_held]
      exact hj)
    exact ⟨congrArg MInode.size h, rfl⟩

/-! ## One inode changes -/

/-- Only inode `dir` changes, but for its type, permissions and links. -/
structure Entered (dir : Id) (fs fs' : Fs.State) : Prop where
  count : fs'.count = fs.count
  superBlock : fs'.superBlock = fs.superBlock
  mode : (fs'.inode dir).mode = (fs.inode dir).mode
  nlinks : (fs'.inode dir).nlinks = (fs.inode dir).nlinks
  other : ∀ j, j ≠ dir → fs'.inode j = fs.inode j

theorem Entered.refl (dir : Id) (fs : Fs.State) : Entered dir fs fs :=
  ⟨rfl, rfl, rfl, rfl, fun _ _ => rfl⟩

theorem Entered.trans {fs'' : Fs.State} {dir : Id} (E : Entered dir fs fs')
    (E' : Entered dir fs' fs'') : Entered dir fs fs'' where
  count := E'.count.trans E.count
  superBlock := E'.superBlock.trans E.superBlock
  mode := E'.mode.trans E.mode
  nlinks := E'.nlinks.trans E.nlinks
  other j hj := (E'.other j hj).trans (E.other j hj)

/-- Buffers, and the blocks of directories. -/
theorem Entered.blocks (dir : Id) (hcount : fs'.count = fs.count)
    (hsuper : fs'.superBlock = fs.superBlock) (hinode : fs'.inode = fs.inode) :
    Entered dir fs fs' :=
  ⟨hcount, hsuper, by rw [hinode], by rw [hinode], fun j _ => by rw [hinode]⟩

/-- The size or the zones of the directory. -/
theorem Entered.inode {dir : Id} {h : MInode} (hcount : fs'.count = fs.count)
    (hsuper : fs'.superBlock = fs.superBlock) (hinode : fs'.inode = Function.update fs.inode dir h)
    (hmode : h.mode = (fs.inode dir).mode) (hlinks : h.nlinks = (fs.inode dir).nlinks) :
    Entered dir fs fs' where
  count := hcount
  superBlock := hsuper
  mode := by rw [hinode, Function.update_self, hmode]
  nlinks := by rw [hinode, Function.update_self, hlinks]
  other j hj := by rw [hinode, Function.update_of_ne hj]

theorem Entered.shift (E : Entered i v.fs v'.fs) (hdata : ∀ j, j ≠ i → v'.data j = v.data j) :
    Shift (some i) 0 0 v v' where
  count j := by rw [E.count]
  superBlock := E.superBlock
  kept j _ := by
    by_cases hj : j = i
    · rw [hj]
      exact ⟨E.mode, E.nlinks⟩
    · rw [E.other j hj]
      exact ⟨rfl, rfl⟩
  contents j _ hw := by
    have hj : j ≠ i := fun he => hw (congrArg some he.symm)
    rw [E.other j hj]
    exact ⟨rfl, hdata j hj⟩

theorem truncate_shift (v : Volume) (i : Id) : Shift (some i) 0 0 v (v.truncate i) := by
  unfold Volume.truncate
  dsimp only
  split
  · exact .refl _ 0 v
  · exact Entered.shift (.inode rfl rfl rfl rfl rfl) fun _ hj => Function.update_of_ne hj ..

theorem store_shift (v : Volume) (i : Id) (pos n : Nat) (buf : Nat → Byte) :
    Shift (some i) 0 0 v (v.store i pos n buf) :=
  Entered.shift (.inode rfl rfl rfl rfl rfl) fun _ hj => Function.update_of_ne hj ..

/-! ## `add_entry` -/

theorem dirBlockOf_entered (fs : Fs.State) (dir : Id) (b : Nat) (fresh : Block) :
    Entered dir fs (dirBlockOf fs dir b fresh).2 := by
  unfold dirBlockOf
  dsimp only
  split
  · split
    · exact .refl dir fs
    · exact .inode rfl rfl rfl rfl rfl
  · exact .refl dir fs

theorem nextBlock_entered {dir : Id} {fresh : Block} {e : Nat} {bh : Option Block}
    {next : Option Block × Fs.State} (h : nextBlock dir fresh fs e bh = next) :
    Entered dir fs next.2 := by
  subst h
  have hback : Entered dir fs ((bh.map (fs.brelse dir.dev)).getD fs) := by
    cases bh with
    | none => exact .refl dir fs
    | some block => exact .blocks dir rfl rfl rfl
  unfold nextBlock
  dsimp only
  split
  · split
    · exact hback.trans (dirBlockOf_entered ..)
    · exact (hback.trans (dirBlockOf_entered ..)).trans (.blocks dir rfl rfl rfl)
  · exact .refl dir fs

theorem growDir_entered (dir : Id) (fs : Fs.State) (e : Nat) (block : Block) :
    Entered dir fs (growDir dir fs e block) := by
  unfold growDir
  dsimp only
  split
  · exact .inode rfl rfl rfl rfl rfl
  · exact .refl dir fs

theorem addLoop_entered {dir : Id} {name : List Byte} {fresh : Block} {n e : Nat}
    {bh : Option Block} {place : Option (Block × Nat)}
    (h : addLoop dir name fresh n fs e bh = some (place, fs')) : Entered dir fs fs' := by
  induction n generalizing fs e bh with
  | zero => cases h
  | succ n ih =>
    unfold addLoop at h
    split at h
    · next fs1 hnext =>
      cases h
      exact nextBlock_entered hnext
    · next block fs1 hnext =>
      have E := (nextBlock_entered hnext).trans (growDir_entered dir fs1 e block)
      dsimp only at h
      split at h
      · cases h
        exact E.trans (.blocks dir rfl rfl rfl)
      · exact E.trans (ih h)

theorem addEntry_entered {dir : Id} {name : List Byte} {fresh : Block}
    {place : Option (Block × Nat)} (h : addEntry fs dir name fresh = some (place, fs')) :
    Entered dir fs fs' := by
  unfold addEntry at h
  split at h
  · cases h
    exact .refl dir fs
  · dsimp only at h
    split at h
    · cases h
      exact .refl dir fs
    · have E : Entered dir fs (fs.bread dir.dev ((fs.inode dir).zone 0)) := .blocks dir rfl rfl rfl
      exact E.trans (addLoop_entered h)

/-! ## Step by step -/

/-- One reference of the caller is exchanged for another. -/
theorem Shift.trade (S : Shift w d (held p + r) v v') (T : Fs.Trade p q v'.fs fs') :
    Shift w d (held q + r) v { v' with fs := fs' } :=
  S.trans (((Shift.ofTrade T).any w).frame r)

theorem Shift.pos (S : Shift w 0 ({i} + r) v v') : 0 < v'.fs.count i := by
  have h := S.count i
  rw [Multiset.count_add, Multiset.count_singleton_self, Multiset.count_zero] at h
  omega

theorem Shift.iput (S : Shift w 0 ({i} + r) v v') : Shift w 0 r v { v' with fs := v'.fs.iput i } := by
  have h := S.trade (p := some i) (q := none) (.iput S.pos)
  rwa [held_none, Multiset.zero_add] at h

theorem Shift.hold (S : Shift w d r v v') (i : Id) :
    Shift w d ({i} + r) v { v' with fs := v'.fs.hold i } := by
  rw [← Multiset.zero_add r] at S
  exact S.trade (p := none) (q := some i) (.hold v'.fs i)

theorem Shift.holdOpt (S : Shift w d r v v') (p : Option Id) :
    Shift w d (held p + r) v { v' with fs := Files.holdOpt v'.fs p } := by
  cases p with
  | none =>
    rw [held_none, Multiset.zero_add]
    exact S
  | some i => exact S.hold i

/-- Only inode `i` has changed since, and `v` is not concerned. -/
theorem Shift.unused (S : Shift w d r v v') (hi : ¬ v.Live d i) (hcount : v''.fs.count = v'.fs.count)
    (hsuper : v''.fs.superBlock = v'.fs.superBlock) (hinode : ∀ j, j ≠ i → v''.fs.inode j = v'.fs.inode j)
    (hdata : ∀ j, j ≠ i → v''.data j = v'.data j) : Shift w d r v v'' := by
  have hne : ∀ j, v.Live d j → j ≠ i := fun j hj heq => hi (heq ▸ hj)
  refine ⟨fun j => ?_, hsuper.trans S.superBlock, fun j hj => ?_, fun j hj hw => ?_⟩
  · rw [hcount]
    exact S.count j
  · rw [hinode j (hne j hj)]
    exact S.kept j hj
  · rw [hinode j (hne j hj), hdata j (hne j hj)]
    exact S.contents j hj hw

/-- Only buffers and blocks of directories have changed since. -/
theorem Shift.blocks (S : Shift w d r v v') (hcount : fs'.count = v'.fs.count)
    (hsuper : fs'.superBlock = v'.fs.superBlock) (hinode : fs'.inode = v'.fs.inode) :
    Shift w d r v { v' with fs := fs' } where
  count j := by
    show fs'.count j + _ = _
    rw [hcount]
    exact S.count j
  superBlock := hsuper.trans S.superBlock
  kept j hj := by
    show (fs'.inode j).mode = _ ∧ (fs'.inode j).nlinks = _
    rw [hinode]
    exact S.kept j hj
  contents j hj hw := by
    show (fs'.inode j).size = _ ∧ _
    rw [hinode]
    exact S.contents j hj hw

/-- Directory `i` has got an entry. -/
theorem Shift.entered (S : Shift w d r v v') (E : Entered i v'.fs fs') (hw : w = some i) :
    Shift w d r v { v' with fs := fs' } := by
  subst hw
  have h : Shift (some i) 0 0 v' { v' with fs := fs' } := E.shift fun _ _ => rfl
  have hr := h.take r
  rw [Multiset.zero_add] at hr
  exact S.trans hr

end Linux011.Files
