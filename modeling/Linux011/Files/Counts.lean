import Linux011.Files.Descriptors
import Linux011.Files.Effect

/-!
# Open files and inodes are counted

`f_count` of an entry of `file_table` is the number of descriptors that point to it, and `i_count` of an inode
the number of pointers to it: from entries that are in use, from tasks and from super blocks. A call in
progress holds more references; `Settled` says so for the references `xs` that it holds.

A call changes the descriptors of one task and the counters of `file_table` with them (`Settled.change`), or
takes references to inodes and gives them back (`Settled.took`, `Settled.iput`), or puts a reference it holds
into a table. Each call is a few of these steps.
-/

namespace Linux011.Files

open Fs (Id Byte MInode)

variable {k k' : Kernel} {cur : Fin 64} {t t' : Task} {f : Fin 64} {fd : Fin 20} {p q : Option Id} {i j : Id}
  {r xs ys : Multiset Id} {fs fs' : Fs.State}

/-! ## Descriptors -/

/-- The descriptors of a task that point to an entry. -/
def Task.fds (t : Task) (f : Fin 64) : Nat :=
  ((Finset.univ : Finset (Fin 20)).filter fun fd => t.filp fd = some f).card

/-- The descriptors of a slot. -/
def slotFds (t : Option Task) (f : Fin 64) : Nat := (t.map fun t => t.fds f).getD 0

theorem pairs_eq (k : Kernel) (f : Fin 64) : k.pairs f = ∑ i, slotFds (k.task i) f := by
  unfold Kernel.pairs
  rw [Finset.card_filter, Fintype.sum_prod_type]
  apply Finset.sum_congr rfl
  intro i _
  dsimp only
  obtain h | ⟨t, h⟩ := Option.eq_none_or_eq_some (k.task i)
  · simp [slotFds, h]
  · simp only [slotFds, h, Option.bind_some, Option.map_some, Option.getD_some, Task.fds]
    rw [Finset.card_filter]

/-- The descriptors of a task after one has changed. -/
theorem fds_setFilp (t : Task) (fd : Fin 20) (o : Option (Fin 64)) (f : Fin 64) :
    (t.setFilp fd o).fds f + (if t.filp fd = some f then 1 else 0) =
      t.fds f + if o = some f then 1 else 0 := by
  have h := Lib.card_filter_change (p := fun n => t.filp n = some f)
    (q := fun n => (t.setFilp fd o).filp n = some f) (Finset.mem_univ fd) fun n _ hn => by
      unfold Task.setFilp
      dsimp only
      rw [Function.update_of_ne hn]
  have hself : (t.setFilp fd o).filp fd = o := Function.update_self ..
  rw [hself] at h
  exact h

/-! ## Pointers to inodes -/

/-- The pointers of an entry; one that is free has none. -/
def File.refs (file : File) (j : Id) : Nat := if file.count = 0 then 0 else Fs.one file.inode j

theorem File.refs_free {file : File} (h : file.count = 0) (j : Id) : file.refs j = 0 := if_pos h

theorem File.refs_used {file : File} (h : file.count ≠ 0) (j : Id) : file.refs j = Fs.one file.inode j :=
  if_neg h

/-- The pointers of a task. -/
def Task.refs (t : Task) (j : Id) : Nat := Fs.one t.pwd j + Fs.one t.root j + Fs.one t.executable j

def slotRefs (t : Option Task) (j : Id) : Nat := (t.map fun t => t.refs j).getD 0

/-- The pointers of super block `s`. -/
def Kernel.superRefs (k : Kernel) (j : Id) (s : Nat) : Nat :=
  Fs.one (k.vol.fs.superBlock s).inodeMount j + Fs.one (k.inodeSuper s) j

/-- All pointers to an inode. -/
def Kernel.refs (k : Kernel) (j : Id) : Nat :=
  ∑ f, (k.file f).refs j + ∑ i, slotRefs (k.task i) j + ∑ s : Fin 8, k.superRefs j s

/-! ## How an entry was opened -/

/-- The flags that the mode of an open file depends on. -/
def modeFlags : BitVec 16 := (oAccMode ||| oTrunc).setWidth 16

/-- An entry has the flags that `sys_open` was called with, and unless it is for a directory, `open_namei` has
created the file or has asked `permission`. `h` are the inodes. -/
def File.Recorded (file : File) (h : Id → MInode) : Prop :=
  ∀ i, file.inode = some i → isPipe i = true ∨ ∃ o, file.opened = some o ∧
    file.flags &&& modeFlags = o.flag.setWidth 16 &&& modeFlags ∧
    ((h i).isDir = false → o.created = true ∨ o.passed = some (accMode (effective o.flag)))

/-- What a file system is mounted on is a directory; the root inode is there for its own super block. -/
def MountDir (sb : Fs.SuperBlock) (h : Id → MInode) : Prop :=
  ∀ i, sb.inodeMount = some i → (h i).isDir = true ∨ i = ⟨sb.dev, 1⟩

/-- Between two steps of a call, which holds references `xs`. -/
structure Settled (k : Kernel) (xs : Multiset Id) : Prop where
  counts : k.Counts
  inode : ∀ j, k.vol.fs.count j = k.refs j + xs.count j
  free : ∀ s < 8, (k.vol.fs.superBlock s).dev = 0 →
    (k.vol.fs.superBlock s).inodeMount = none ∧ k.inodeSuper s = none
  recorded : ∀ f, (k.file f).count ≠ 0 → (k.file f).Recorded k.vol.fs.inode
  mountDir : ∀ s < 8, MountDir (k.vol.fs.superBlock s) k.vol.fs.inode

theorem File.Recorded.mode {file : File} {h h' : Id → MInode} (R : file.Recorded h)
    (hmode : ∀ i, file.inode = some i → (h' i).mode = (h i).mode) : file.Recorded h' := by
  intro i hi
  refine (R i hi).imp_right fun ⟨o, ho, hflags, hpassed⟩ => ⟨o, ho, hflags, fun hdir => hpassed ?_⟩
  unfold MInode.isDir at hdir ⊢
  rwa [hmode i hi] at hdir

theorem MountDir.mode {sb : Fs.SuperBlock} {h h' : Id → MInode} (D : MountDir sb h)
    (hmode : ∀ i, sb.inodeMount = some i → (h' i).mode = (h i).mode) : MountDir sb h' := by
  intro i hi
  refine (D i hi).imp_left fun hdir => ?_
  unfold MInode.isDir at hdir ⊢
  rwa [hmode i hi]

namespace Settled

/-- A pointer in a table is not the caller's. -/
theorem live (L : Settled k (ys + xs)) (h : 0 < k.refs j) : k.vol.Live ys j := by
  refine .inr ?_
  rw [L.inode, Multiset.count_add]
  omega

/-- An entry in use points to an inode. -/
theorem refs_file (hcount : (k.file f).count ≠ 0) (hinode : (k.file f).inode = some j) :
    1 + ∑ s : Fin 8, k.superRefs j s ≤ k.refs j := by
  have hsum := Finset.add_sum_erase Finset.univ (fun f => (k.file f).refs j) (Finset.mem_univ f)
  have hone : (k.file f).refs j = 1 := by
    rw [File.refs_used hcount, hinode, Fs.one_self]
  unfold Kernel.refs
  omega

/-- The pointers of a super block, and those of all. -/
theorem super_le {s : Nat} (hs : s < 8) (j : Id) : k.superRefs j s ≤ ∑ a : Fin 8, k.superRefs j a := by
  have hsum : k.superRefs j s + ∑ a ∈ Finset.univ.erase (⟨s, hs⟩ : Fin 8), k.superRefs j a =
      ∑ a : Fin 8, k.superRefs j a :=
    Finset.add_sum_erase Finset.univ (fun a : Fin 8 => k.superRefs j a) (Finset.mem_univ ⟨s, hs⟩)
  omega

/-- Two super blocks. -/
theorem super_lt {a s : Nat} (ha : a < 8) (hs : s < 8) (hne : a ≠ s)
    (hmount : (k.vol.fs.superBlock a).inodeMount = some j) :
    k.superRefs j s < ∑ a : Fin 8, k.superRefs j a := by
  have hsum : k.superRefs j s + ∑ b ∈ Finset.univ.erase (⟨s, hs⟩ : Fin 8), k.superRefs j b =
      ∑ b : Fin 8, k.superRefs j b :=
    Finset.add_sum_erase Finset.univ (fun b : Fin 8 => k.superRefs j b) (Finset.mem_univ ⟨s, hs⟩)
  have hmem : (⟨a, ha⟩ : Fin 8) ∈ Finset.univ.erase ⟨s, hs⟩ :=
    Finset.mem_erase.mpr ⟨fun heq => hne (Fin.mk.inj heq), Finset.mem_univ _⟩
  have hrest : k.superRefs j a + ∑ b ∈ (Finset.univ.erase (⟨s, hs⟩ : Fin 8)).erase ⟨a, ha⟩, k.superRefs j b =
      ∑ b ∈ Finset.univ.erase (⟨s, hs⟩ : Fin 8), k.superRefs j b :=
    Finset.add_sum_erase _ (fun b : Fin 8 => k.superRefs j b) hmem
  have hone : 1 ≤ k.superRefs j a := by
    rw [Kernel.superRefs, hmount, Fs.one_self]
    omega
  omega

theorem super_refs (k : Kernel) (j : Id) : ∑ s : Fin 8, k.superRefs j s ≤ k.refs j := by
  unfold Kernel.refs
  omega

theorem refs_mount {s : Nat} (hs : s < 8) (hmount : (k.vol.fs.superBlock s).inodeMount = some j) :
    0 < k.refs j := by
  have hsum := super_le (k := k) hs j
  have hrefs := super_refs k j
  rw [Kernel.superRefs, hmount, Fs.one_self] at hsum
  omega

/-- The caller gives references `ys` back and takes `r`. -/
theorem volume (L : Settled k (ys + xs)) {v : Volume}
    (hcount : ∀ j, v.fs.count j + ys.count j = k.vol.fs.count j + r.count j)
    (hsuper : v.fs.superBlock = k.vol.fs.superBlock)
    (hmode : ∀ j, 0 < k.refs j → (v.fs.inode j).mode = (k.vol.fs.inode j).mode) :
    Settled { k with vol := v } (r + xs) where
  counts := ⟨L.counts.count, L.counts.closeOnExec⟩
  inode j := by
    have hrefs : ({ k with vol := v } : Kernel).refs j = k.refs j := by
      unfold Kernel.refs Kernel.superRefs
      dsimp only
      rw [hsuper]
    have hv := hcount j
    have hk := L.inode j
    rw [hrefs]
    rw [Multiset.count_add] at hk ⊢
    show v.fs.count j = _
    omega
  free s hs hdev := by
    have hdev' : (v.fs.superBlock s).dev = 0 := hdev
    rw [hsuper] at hdev'
    show (v.fs.superBlock s).inodeMount = none ∧ _
    rw [hsuper]
    exact L.free s hs hdev'
  recorded f hf := (L.recorded f hf).mode fun i hi => hmode i (by
    have hrefs := refs_file (k := k) hf hi
    omega)
  mountDir s hs := by
    show MountDir (v.fs.superBlock s) v.fs.inode
    rw [hsuper]
    exact (L.mountDir s hs).mode fun i hi => hmode i (refs_mount hs hi)

theorem shift (L : Settled k (ys + xs)) {w : Option Id} {v : Volume} (S : Shift w ys r k.vol v) :
    Settled { k with vol := v } (r + xs) :=
  L.volume S.count S.superBlock fun j hj => (S.kept j (L.live hj)).1

theorem took (L : Settled k xs) {w : Option Id} {v : Volume} (S : Shift w 0 r k.vol v) :
    Settled { k with vol := v } (r + xs) := by
  rw [← Multiset.zero_add xs] at L
  exact L.shift S

theorem trade (L : Settled k (held p + xs)) (T : Fs.Trade p q k.vol.fs fs') :
    Settled (k.setFs fs') (held q + xs) :=
  L.shift (Shift.ofTrade T)

theorem pos (L : Settled k ({i} + xs)) : 0 < k.vol.fs.count i := by
  rw [L.inode, Multiset.count_add, Multiset.count_singleton_self]
  omega

theorem iput (L : Settled k ({i} + xs)) : Settled (k.setFs (k.vol.fs.iput i)) xs := by
  have h := trade (p := some i) (q := none) L (.iput L.pos)
  rwa [held_none, Multiset.zero_add] at h

theorem iputOpt (L : Settled k (held p + xs)) : Settled (k.setFs (Files.iputOpt k.vol.fs p)) xs := by
  cases p with
  | none =>
    rw [held_none, Multiset.zero_add] at L
    exact L
  | some i => exact L.iput

/-- THE COUNT LAW: one slot changes, and the table of open files with it. -/
theorem change (L : Settled k xs) (cur : Fin 64) (x : Option Task) (file : Fin 64 → File)
    (hfds : ∀ f, (file f).count + slotFds (k.task cur) f = (k.file f).count + slotFds x f)
    (hexec : ∀ t', x = some t' → ∀ fd, t'.closeOnExec fd = true → t'.filp fd ≠ none)
    (hrefs : ∀ j, ∑ f, (file f).refs j + slotRefs x j + ys.count j =
      ∑ f, (k.file f).refs j + slotRefs (k.task cur) j + xs.count j)
    (hrecorded : ∀ f, (file f).count ≠ 0 → (file f).Recorded k.vol.fs.inode) :
    Settled { k with task := Function.update k.task cur x, file := file } ys where
  counts := by
    constructor
    · intro f
      have hsum := Lib.sum_update (fun t => slotFds t f) k.task cur x
      have h := hfds f
      rw [L.counts.count f, pairs_eq] at h
      rw [pairs_eq]
      dsimp only
      omega
    · intro c t fd ht
      dsimp only at ht
      by_cases hc : c = cur
      · subst hc
        rw [Function.update_self] at ht
        exact hexec t ht fd
      · rw [Function.update_of_ne hc] at ht
        exact L.counts.closeOnExec c t fd ht
  inode j := by
    have hsum := Lib.sum_update (fun t => slotRefs t j) k.task cur x
    have h := hrefs j
    have hk := L.inode j
    unfold Kernel.refs Kernel.superRefs at hk ⊢
    dsimp only at hk ⊢
    omega
  free := L.free
  recorded := hrecorded
  mountDir := L.mountDir

/-- A task gives pointers to the caller or takes them. -/
theorem task (L : Settled k xs) (ht : k.task cur = some t) (hfilp : t'.filp = t.filp)
    (hexec : ∀ fd, t'.closeOnExec fd = true → t.closeOnExec fd = true ∨ t.filp fd ≠ none)
    (hrefs : ∀ j, t'.refs j + ys.count j = t.refs j + xs.count j) : Settled (k.setTask cur t') ys := by
  refine L.change cur (some t') _ (fun f => ?_) (fun t₁ h₁ fd hfd => ?_) (fun j => ?_) L.recorded
  · rw [ht]
    show _ + t.fds f = _ + t'.fds f
    unfold Task.fds
    rw [hfilp]
  · cases h₁
    rw [hfilp]
    exact (hexec fd hfd).elim (L.counts.closeOnExec cur t fd ht) id
  · have h := hrefs j
    rw [ht]
    show _ + t'.refs j + _ = _ + t.refs j + _
    omega

/-- One entry of the table is written. -/
theorem set_recorded {file : Fin 64 → File} {h : Id → MInode} {new : File}
    (hold : ∀ g, (file g).count ≠ 0 → (file g).Recorded h) (hnew : new.count ≠ 0 → new.Recorded h)
    (g : Fin 64) (hg : (Function.update file f new g).count ≠ 0) : (Function.update file f new g).Recorded h := by
  by_cases heq : g = f
  · subst heq
    rw [Function.update_self] at hg ⊢
    exact hnew hg
  · rw [Function.update_of_ne heq] at hg ⊢
    exact hold g hg

/-- One entry changes, but for what counts and how it was opened. -/
theorem file (L : Settled k xs) {new : File} (hcount : new.count = (k.file f).count)
    (hinode : new.inode = (k.file f).inode)
    (hflags : new.flags &&& modeFlags = (k.file f).flags &&& modeFlags) (hopened : new.opened = (k.file f).opened) : Settled (k.setFile f new) xs := by
  have hrefs : ∀ j, new.refs j = (k.file f).refs j := fun j => by
    rw [File.refs, hcount, hinode, File.refs]
  have hself : ∀ (v : File → Nat), v new = v (k.file f) →
      ∑ g, v (Function.update k.file f new g) = ∑ g, v (k.file g) := fun v hv => by
    have hsum := Lib.sum_update v k.file f new
    omega
  constructor
  · constructor
    · intro g
      rw [show (k.setFile f new).pairs g = k.pairs g from rfl, ← L.counts.count]
      by_cases hg : g = f
      · rw [hg]
        exact (congrArg File.count (Function.update_self ..)).trans hcount
      · exact congrArg File.count (Function.update_of_ne hg ..)
    · exact L.counts.closeOnExec
  · intro j
    have h := L.inode j
    have hs := hself (fun file => file.refs j) (hrefs j)
    unfold Kernel.refs Kernel.setFile Kernel.superRefs at *
    dsimp only at *
    omega
  · exact L.free
  · refine set_recorded L.recorded fun hnew i hi => ?_
    rw [hflags, hopened]
    exact L.recorded f (hcount ▸ hnew) i (hinode ▸ hi)
  · exact L.mountDir

/-- A descriptor is opened or closed, and the entry it points to is counted. -/
theorem descriptor (L : Settled k xs) (ht : k.task cur = some t) {o : Option (Fin 64)} {new : File}
    (hfilp : t'.filp = Function.update t.filp fd o) (hbefore : t.filp fd = none ∨ t.filp fd = some f)
    (hafter : o = none ∨ o = some f)
    (hcount : new.count + (if t.filp fd = some f then 1 else 0) =
      (k.file f).count + if o = some f then 1 else 0)
    (hexec : ∀ n, t'.closeOnExec n = true → n ≠ fd ∧ t.closeOnExec n = true)
    (hrefs : ∀ j, new.refs j + t'.refs j + ys.count j = (k.file f).refs j + t.refs j + xs.count j)
    (hrecorded : new.count ≠ 0 → new.Recorded k.vol.fs.inode) :
    Settled ((k.setTask cur t').setFile f new) ys := by
  have hfds : ∀ g, t'.fds g + (if t.filp fd = some g then 1 else 0) =
      t.fds g + if o = some g then 1 else 0 := by
    intro g
    have h := fds_setFilp t fd o g
    unfold Task.fds at h ⊢
    rw [hfilp]
    exact h
  refine L.change cur (some t') _ (fun g => ?_) (fun t₁ h₁ n hn => ?_) (fun j => ?_)
    (set_recorded L.recorded hrecorded)
  · rw [ht]
    show (Function.update k.file f new g).count + t.fds g = (k.file g).count + t'.fds g
    have h := hfds g
    by_cases hg : g = f
    · subst hg
      rw [Function.update_self]
      omega
    · have hno : ∀ a : Option (Fin 64), a = none ∨ a = some f → ¬ a = some g := by
        rintro a (rfl | rfl) hag
        · cases hag
        · exact hg (Option.some.inj hag).symm
      rw [if_neg (hno _ hbefore), if_neg (hno _ hafter)] at h
      rw [Function.update_of_ne hg]
      omega
  · cases h₁
    obtain ⟨hne, hbit⟩ := hexec n hn
    rw [hfilp, Function.update_of_ne hne]
    exact L.counts.closeOnExec cur t n ht hbit
  · have hsum := Lib.sum_update (fun file => file.refs j) k.file f new
    have h := hrefs j
    rw [ht]
    show ∑ g, (Function.update k.file f new g).refs j + t'.refs j + _ = _ + t.refs j + _
    omega

/-- The pointers of a super block. -/
def superPointers (entry : Fs.SuperBlock × Option Id) (j : Id) : Nat :=
  Fs.one entry.1.inodeMount j + Fs.one entry.2 j

/-- Super block `s` changes, and references are given back or taken. -/
theorem superBlock (L : Settled k xs) (v : Volume) (ys : Multiset Id) {s : Nat} (hs : s < 8)
    {sb : Fs.SuperBlock} {o : Option Id} (hfree : sb.dev = 0 → sb.inodeMount = none ∧ o = none)
    (hdir : MountDir sb v.fs.inode) (hsuper : v.fs.superBlock = k.vol.fs.superBlock)
    (hmode : ∀ j, k.superRefs j s < k.refs j → (v.fs.inode j).mode = (k.vol.fs.inode j).mode)
    (hcount : ∀ j, v.fs.count j + Fs.one (k.vol.fs.superBlock s).inodeMount j + Fs.one (k.inodeSuper s) j +
      xs.count j = k.vol.fs.count j + Fs.one sb.inodeMount j + Fs.one o j + ys.count j) :
    Settled (({ k with vol := v } : Kernel).setSuper s sb o) ys where
  counts := ⟨L.counts.count, L.counts.closeOnExec⟩
  inode j := by
    have hsum := Lib.sum_update (fun entry => superPointers entry j)
      (fun a : Fin 8 => (k.vol.fs.superBlock a, k.inodeSuper a)) ⟨s, hs⟩ (sb, o)
    have hrefs : ∀ a : Fin 8, superPointers (Function.update (fun a : Fin 8 =>
        (k.vol.fs.superBlock a, k.inodeSuper a)) ⟨s, hs⟩ (sb, o) a) j =
        (({ k with vol := v } : Kernel).setSuper s sb o).superRefs j a := by
      intro a
      unfold Kernel.superRefs Kernel.setSuper Kernel.setFs superPointers
      dsimp only
      rw [hsuper]
      by_cases ha : a.val = s
      · obtain rfl : a = ⟨s, hs⟩ := Fin.ext ha
        rw [Function.update_self, Function.update_self, Function.update_self]
      · have ha' : a ≠ ⟨s, hs⟩ := fun heq => ha (congrArg Fin.val heq)
        rw [Function.update_of_ne ha, Function.update_of_ne ha, Function.update_of_ne ha']
    simp only [hrefs] at hsum
    have hk := L.inode j
    have hj := hcount j
    unfold Kernel.refs at hk ⊢
    unfold superPointers at hsum
    have hfiles : (({ k with vol := v } : Kernel).setSuper s sb o).file = k.file := rfl
    have htasks : (({ k with vol := v } : Kernel).setSuper s sb o).task = k.task := rfl
    have hvol : (({ k with vol := v } : Kernel).setSuper s sb o).vol.fs.count j = v.fs.count j := rfl
    have hsupers : ∑ a : Fin 8, (Fs.one (k.vol.fs.superBlock a).inodeMount j + Fs.one (k.inodeSuper a) j) =
      ∑ a : Fin 8, k.superRefs j a := rfl
    rw [hfiles, htasks, hvol]
    dsimp only at hsum
    omega
  free a ha hdev := by
    have hsb : (({ k with vol := v } : Kernel).setSuper s sb o).vol.fs.superBlock a =
        Function.update v.fs.superBlock s sb a := rfl
    have ho : (({ k with vol := v } : Kernel).setSuper s sb o).inodeSuper a =
        Function.update k.inodeSuper s o a := rfl
    rw [hsb, hsuper] at hdev ⊢
    rw [ho]
    by_cases has : a = s
    · subst has
      rw [Function.update_self] at hdev ⊢
      rw [Function.update_self]
      exact hfree hdev
    · rw [Function.update_of_ne has] at hdev ⊢
      rw [Function.update_of_ne has]
      exact L.free a ha hdev
  recorded f hf := (L.recorded f hf).mode fun i hi => hmode i (by
    have hrefs := refs_file (k := k) hf hi
    have hle := super_le (k := k) hs i
    omega)
  mountDir a ha := by
    have hsb : (({ k with vol := v } : Kernel).setSuper s sb o).vol.fs.superBlock a =
        Function.update v.fs.superBlock s sb a := rfl
    rw [hsb, hsuper]
    by_cases has : a = s
    · subst has
      rw [Function.update_self]
      exact hdir
    · rw [Function.update_of_ne has]
      exact (L.mountDir a ha).mode fun i hi =>
        hmode i (Nat.lt_of_lt_of_le (super_lt ha hs has hi) (super_refs k i))

end Settled

end Linux011.Files
