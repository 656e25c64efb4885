import Linux011.Files.Effect
import Linux011.Lib.Machine

/-!
# The mount table (`fs/super.c`)

A mounted file system is written down three times: in the super block, whose `s_inode_mount` is the
directory, in the directory, whose `i_mount` is set, and in the reference that the super block has to
the directory. `sys_mount` and `sys_umount` change the three together or not at all.

The super blocks say which inodes have `i_mount`, so what two states have to agree on is the super
blocks. The root of a file system never has it, which is why `iget` crosses one mount at most.

The super block of the root device is apart: `mount_root` makes it point to the root inode, and
nothing is mounted there. The counters do not wrap: a reference is a pointer in some table of the
kernel.
-/

namespace Linux011.Files

open Fs (Id Byte MInode SuperBlock)
open Inode (Dev)
open Lib (Reach of_guard run)

/-! ## The machine -/

/-- The kernel, and the references that `iget` has given out. -/
structure Mounts where
  kernel : Kernel
  held : Multiset Id

inductive MountEvent
  | mount (cur : Fin 64) (devName dirName : List Byte) (readable : Bool)
  | umount (cur : Fin 64) (devName : List Byte)
  | iget (i : Id)
  | iput (i : Id)

/-- A call that panics has no next state. Only a reference that was given out is given back. -/
def mountStep (s : Mounts) : MountEvent → Option Mounts
  | .mount cur devName dirName readable =>
    (sysMount s.kernel cur devName dirName readable).map fun r => { s with kernel := r.2 }
  | .umount cur devName => (sysUmount s.kernel cur devName).map fun r => { s with kernel := r.2 }
  | .iget i =>
    (Fs.iget 9 s.kernel.vol.fs i).map fun r => ⟨s.kernel.setFs r.2, {r.1} + s.held⟩
  | .iput i =>
    if i ∈ s.held then some ⟨s.kernel.setFs (s.kernel.vol.fs.iput i), s.held.erase i⟩ else none

/-- `mount_root` has returned; the inode table was empty when it was called. -/
def MountedRoot (s : Mounts) : Prop :=
  s.held = 0 ∧ ∃ k0 cur, Booted k0 ∧ (∀ j, (k0.vol.fs.inode j).mount = false) ∧
    mountRoot k0 cur = some s.kernel

/-- The device that a name stands for: `i_zone[0]` of the special file. -/
def Kernel.device (k : Kernel) (cur : Fin 64) (devName : List Byte) : Option Dev :=
  (k.task cur).bind fun t => t.names.bind fun me =>
    (Fs.namei me k.vol.fs devName).bind fun r => r.1.map fun i => (r.2.inode i).zone 0

/-! ## The super blocks -/

variable {k k' k1 k2 : Kernel} {sb : Nat → SuperBlock} {supers : Nat → Option Id} {root dev : Dev}
  {refs xs : Multiset Id} {a b s : Nat} {i j dir : Id} {fs fs' : Fs.State} {d r : Option Id}
  {cur : Fin 64} {devName dirName : List Byte} {readable : Bool} {o : Option Nat} {e : Int}

/-- Super block `a` is mounted on `j`. -/
def MountsOn (sb : Nat → SuperBlock) (root : Dev) (a : Nat) (j : Id) : Prop :=
  a < 8 ∧ (sb a).dev ≠ root ∧ (sb a).inodeMount = some j

/-- What holds of the super blocks. One that is not in use is empty. -/
structure Slots (sb : Nat → SuperBlock) (supers : Nat → Option Id) (root : Dev) : Prop where
  root_ne : root ≠ 0
  hasRoot : ∃ a < 8, (sb a).dev = root
  unique : ∀ a < 8, ∀ b < 8, (sb a).dev = (sb b).dev → (sb a).dev ≠ 0 → a = b
  free : ∀ a < 8, (sb a).dev = 0 → sb a = ⟨0, none⟩
  used : ∀ a < 8, (sb a).dev ≠ 0 → (sb a).inodeMount.isSome
  supers_none : ∀ a < 8, (sb a).dev ≠ root → supers a = none
  once : ∀ a b j, MountsOn sb root a j → MountsOn sb root b j → a = b
  num : ∀ a j, MountsOn sb root a j → j.num ≠ 1

/-- A free super block has been mounted. -/
theorem mountsOn_mounted (hs : s < 8) (hfree : sb s = ⟨0, none⟩) (hdev : dev ≠ root) :
    MountsOn (Function.update sb s ⟨dev, some dir⟩) root a j ↔
      a = s ∧ j = dir ∨ MountsOn sb root a j := by
  unfold MountsOn
  by_cases ha : a = s
  · subst ha
    rw [Function.update_self, hfree]
    constructor
    · rintro ⟨-, -, h⟩
      exact .inl ⟨rfl, (Option.some.inj h).symm⟩
    · rintro (⟨-, rfl⟩ | ⟨-, -, h⟩)
      · exact ⟨hs, hdev, rfl⟩
      · cases h
  · rw [Function.update_of_ne ha]
    constructor
    · exact .inr
    · exact fun h => h.resolve_left fun h => ha h.1

/-- A super block has been freed. -/
theorem mountsOn_freed :
    MountsOn (Function.update sb s ⟨0, none⟩) root a j ↔ a ≠ s ∧ MountsOn sb root a j := by
  unfold MountsOn
  by_cases ha : a = s
  · subst ha
    rw [Function.update_self]
    constructor
    · rintro ⟨-, -, h⟩
      cases h
    · exact fun h => absurd rfl h.1
  · rw [Function.update_of_ne ha]
    constructor
    · exact fun h => ⟨ha, h⟩
    · exact fun h => h.2

theorem Slots.mounted (L : Slots sb supers root) (hs : s < 8) (hfree : sb s = ⟨0, none⟩)
    (hdev : dev ≠ 0) (hnew : ∀ a < 8, (sb a).dev ≠ dev) (hnum : dir.num ≠ 1)
    (hdir : ∀ a, ¬ MountsOn sb root a dir) :
    Slots (Function.update sb s ⟨dev, some dir⟩) (Function.update supers s none) root := by
  obtain ⟨r, hr, hroot⟩ := L.hasRoot
  have hdevRoot : dev ≠ root := fun h => hnew r hr (hroot.trans h.symm)
  have hne : ∀ {a : Nat}, (sb a).dev ≠ 0 → a ≠ s := by
    rintro a ha rfl
    rw [hfree] at ha
    exact ha rfl
  refine ⟨L.root_ne, ⟨r, hr, ?_⟩, ?_, ?_, ?_, ?_, ?_, ?_⟩
  · rw [Function.update_of_ne (hne (by rw [hroot]; exact L.root_ne)), hroot]
  · intro a ha b hb
    by_cases has : a = s <;> by_cases hbs : b = s
    · exact fun _ _ => has.trans hbs.symm
    · rw [has, Function.update_self, Function.update_of_ne hbs]
      exact fun h _ => absurd h.symm (hnew b hb)
    · rw [hbs, Function.update_self, Function.update_of_ne has]
      exact fun h _ => absurd h (hnew a ha)
    · rw [Function.update_of_ne has, Function.update_of_ne hbs]
      exact L.unique a ha b hb
  · intro a ha
    by_cases has : a = s
    · rw [has, Function.update_self]
      exact fun h => absurd h hdev
    · rw [Function.update_of_ne has]
      exact L.free a ha
  · intro a ha
    by_cases has : a = s
    · rw [has, Function.update_self]
      exact fun _ => rfl
    · rw [Function.update_of_ne has]
      exact L.used a ha
  · intro a ha
    by_cases has : a = s
    · rw [has, Function.update_self, Function.update_self]
      exact fun _ => rfl
    · rw [Function.update_of_ne has, Function.update_of_ne has]
      exact L.supers_none a ha
  · intro a b j hja hjb
    rw [mountsOn_mounted hs hfree hdevRoot] at hja hjb
    obtain ⟨rfl, rfl⟩ | hja := hja
    · obtain ⟨rfl, -⟩ | hjb := hjb
      · rfl
      · exact absurd hjb (hdir b)
    · obtain ⟨-, rfl⟩ | hjb := hjb
      · exact absurd hja (hdir a)
      · exact L.once a b j hja hjb
  · intro a j hja
    obtain ⟨-, rfl⟩ | hja := (mountsOn_mounted hs hfree hdevRoot).mp hja
    · exact hnum
    · exact L.num a j hja

theorem Slots.freed (L : Slots sb supers root) (hroot : (sb s).dev ≠ root) :
    Slots (Function.update sb s ⟨0, none⟩) (Function.update supers s none) root := by
  obtain ⟨r, hr, hr'⟩ := L.hasRoot
  have hrs : r ≠ s := by
    rintro rfl
    exact hroot hr'
  refine ⟨L.root_ne, ⟨r, hr, ?_⟩, ?_, ?_, ?_, ?_, ?_, ?_⟩
  · rw [Function.update_of_ne hrs, hr']
  · intro a ha b hb
    by_cases has : a = s
    · rw [has, Function.update_self]
      exact fun _ h => absurd rfl h
    · by_cases hbs : b = s
      · rw [hbs, Function.update_self, Function.update_of_ne has]
        exact fun h h0 => absurd h h0
      · rw [Function.update_of_ne has, Function.update_of_ne hbs]
        exact L.unique a ha b hb
  · intro a ha
    by_cases has : a = s
    · rw [has, Function.update_self]
      exact fun _ => rfl
    · rw [Function.update_of_ne has]
      exact L.free a ha
  · intro a ha
    by_cases has : a = s
    · rw [has, Function.update_self]
      exact fun h => absurd rfl h
    · rw [Function.update_of_ne has]
      exact L.used a ha
  · intro a ha
    by_cases has : a = s
    · rw [has, Function.update_self]
      exact fun _ => Function.update_self ..
    · rw [Function.update_of_ne has, Function.update_of_ne has]
      exact L.supers_none a ha
  · intro a b j hja hjb
    exact L.once a b j (mountsOn_freed.mp hja).2 (mountsOn_freed.mp hjb).2
  · intro a j hja
    exact L.num a j (mountsOn_freed.mp hja).2

theorem superOf_some (h : superOf fs dev = some s) :
    s < 8 ∧ (fs.superBlock s).dev = dev ∧ dev ≠ 0 := by
  unfold superOf at h
  split at h
  · cases h
  · next hdev =>
    have hs := List.mem_range.mp (List.mem_of_find?_eq_some h)
    have hsdev := List.find?_some h
    exact ⟨hs, of_decide_eq_true hsdev, hdev⟩

theorem superOf_none (h : superOf fs dev = none) (hdev : dev ≠ 0) :
    ∀ a < 8, (fs.superBlock a).dev ≠ dev := by
  unfold superOf at h
  rw [if_neg hdev] at h
  intro a ha he
  exact List.find?_eq_none.mp h a (List.mem_range.mpr ha) (decide_eq_true he)

/-! ## The table -/

/-- The super blocks, the flags and the counters agree; `refs` are references of the callers. -/
structure MountTable (k : Kernel) (refs : Multiset Id) : Prop where
  slots : Slots k.vol.fs.superBlock k.inodeSuper k.rootDev
  flag : ∀ j, (k.vol.fs.inode j).mount = true ↔ ∃ a, MountsOn k.vol.fs.superBlock k.rootDev a j
  count : ∀ j, refs.count j + (if (k.vol.fs.inode j).mount then 1 else 0) ≤ k.vol.fs.count j

/-- References are exchanged, and no inode with `i_mount` loses its last one. -/
theorem mount_kept (T : Fs.Trade d r fs fs') (S : Fs.Spared fs fs')
    (h : ∀ j, (fs.inode j).mount = true → Fs.one d j < fs.count j) (j : Id) :
    (fs'.inode j).mount = (fs.inode j).mount := by
  cases hm : (fs.inode j).mount with
  | true => rw [T.inode j (.inr (h j hm)), hm]
  | false =>
    cases S j with
    | inl h => rw [h, hm]
    | inr h =>
      rw [h]
      rfl

theorem MountTable.trade (M : MountTable k (held d + xs)) (T : Fs.Trade d r k.vol.fs fs')
    (S : Fs.Spared k.vol.fs fs') : MountTable (k.setFs fs') (held r + xs) := by
  have hcount : ∀ j, Fs.one d j + xs.count j + (if (k.vol.fs.inode j).mount then 1 else 0) ≤
      k.vol.fs.count j := by
    intro j
    have h := M.count j
    rwa [Multiset.count_add, count_held] at h
  have hmount := mount_kept T S fun j hj => by
    have h := hcount j
    rw [hj, if_pos rfl] at h
    omega
  refine ⟨?_, fun j => ?_, fun j => ?_⟩
  · show Slots fs'.superBlock k.inodeSuper k.rootDev
    rw [T.superBlock]
    exact M.slots
  · show (fs'.inode j).mount = true ↔ ∃ a, MountsOn fs'.superBlock k.rootDev a j
    rw [T.superBlock, hmount]
    exact M.flag j
  · show (held r + xs).count j + (if (fs'.inode j).mount then 1 else 0) ≤ fs'.count j
    rw [Multiset.count_add, count_held, hmount]
    have h := hcount j
    have hT := T.count j
    omega

/-- `namei`, whatever it returns. -/
theorem MountTable.namei {me : Fs.Task} {name : List Byte} (M : MountTable k refs)
    (h : Fs.namei me k.vol.fs name = some (r, fs')) : MountTable (k.setFs fs') (held r + refs) := by
  refine MountTable.trade (d := none) ?_ (Fs.namei_trade h) (Fs.namei_spared h)
  rw [held_none, Multiset.zero_add]
  exact M

theorem MountTable.pos (M : MountTable k ({i} + refs)) : 0 < k.vol.fs.count i := by
  have h := M.count i
  rw [Multiset.count_add, Multiset.count_singleton_self] at h
  omega

theorem MountTable.iput (M : MountTable k ({i} + refs)) :
    MountTable (k.setFs (k.vol.fs.iput i)) refs := by
  have h := MountTable.trade (d := some i) M (.iput M.pos) (.iput _ i)
  rwa [held_none, Multiset.zero_add] at h

/-- The only reference is that of the caller, so nothing is mounted there. -/
theorem MountTable.not_mounted (M : MountTable k ({i} + refs)) (h : k.vol.fs.count i = 1) :
    (k.vol.fs.inode i).mount = false := by
  have hc := M.count i
  rw [Multiset.count_add, Multiset.count_singleton_self, h] at hc
  cases hm : (k.vol.fs.inode i).mount with
  | false => rfl
  | true =>
    rw [hm, if_pos rfl] at hc
    omega

/-! ## `read_super` and `sys_mount` -/

theorem setSuper_self (k : Kernel) (s : Nat) :
    k.setSuper s (k.vol.fs.superBlock s) (k.inodeSuper s) = k := by
  unfold Kernel.setSuper Kernel.setFs
  rw [Function.update_eq_self, Function.update_eq_self]

/-- `read_super` returns the super block that the device has, or takes a free one. -/
theorem readSuper_cases (L : Slots k.vol.fs.superBlock k.inodeSuper k.rootDev)
    (h : readSuper k dev readable = (o, k')) :
    (k' = k ∧ ∀ s, o = some s → (k.vol.fs.superBlock s).inodeMount.isSome) ∨
      ∃ s < 8, o = some s ∧ k' = k.setSuper s ⟨dev, none⟩ none ∧ dev ≠ 0 ∧
        k.vol.fs.superBlock s = ⟨0, none⟩ ∧ ∀ a < 8, (k.vol.fs.superBlock a).dev ≠ dev := by
  unfold readSuper at h
  split at h
  · cases h
    exact .inl ⟨rfl, nofun⟩
  · next hdev =>
    cases hof : superOf k.vol.fs dev with
    | some s =>
      rw [hof] at h
      cases h
      obtain ⟨hs, hsdev, -⟩ := superOf_some hof
      refine .inl ⟨rfl, fun a ha => ?_⟩
      cases ha
      exact L.used s hs (hsdev ▸ hdev)
    | none =>
      rw [hof] at h
      dsimp only at h
      split at h
      · cases h
        exact .inl ⟨rfl, nofun⟩
      · next s hfind =>
        have hs := List.mem_range.mp (List.mem_of_find?_eq_some hfind)
        have hzero := List.find?_some hfind
        have hfree := L.free s hs (of_decide_eq_true hzero)
        split at h
        · cases h
          exact .inr ⟨s, hs, rfl, rfl, hdev, hfree, superOf_none hof hdev⟩
        · cases h
          refine .inl ⟨?_, nofun⟩
          have hsuper : k.inodeSuper s = none := by
            refine L.supers_none s hs ?_
            rw [hfree]
            exact L.root_ne.symm
          rw [← hfree, ← hsuper]
          exact setSuper_self k s

/-- What `sys_mount` has found when it writes super block `s`. -/
structure MountedAt (k : Kernel) (dev : Dev) (dir : Id) (s : Nat) : Prop where
  lt : s < 8
  free : k.vol.fs.superBlock s = ⟨0, none⟩
  dev_ne : dev ≠ 0
  new : ∀ a < 8, (k.vol.fs.superBlock a).dev ≠ dev
  num : dir.num ≠ 1
  count : k.vol.fs.count dir = 1

/-- The super block and the directory that `sys_mount` writes. -/
def Kernel.mountAt (k : Kernel) (dev : Dev) (dir : Id) (s : Nat) : Kernel :=
  (k.setFs (setMount k.vol.fs dir true)).setSuper s ⟨dev, some dir⟩ none

theorem mountOn_cases (M : MountTable k ({dir} + refs)) (h : mountOn k dir dev readable = (e, k')) :
    (e ≠ 0 ∧ k' = k.setFs (k.vol.fs.iput dir)) ∨
      e = 0 ∧ ∃ s, MountedAt k dev dir s ∧ k' = k.mountAt dev dir s := by
  unfold mountOn at h
  dsimp only at h
  split at h
  · cases h
    exact .inl ⟨by decide, rfl⟩
  · next hbusy =>
    obtain ⟨hcount, hnum⟩ := not_or.mp hbusy
    have hcount := not_not.mp hcount
    split at h
    · cases h
      exact .inl ⟨by decide, rfl⟩
    · have hmount := M.not_mounted hcount
      cases hread : readSuper k dev readable with
      | mk o k1 =>
        rw [hread] at h
        cases readSuper_cases M.slots hread with
        | inl hold =>
          obtain ⟨rfl, hsome⟩ := hold
          cases o with
          | none =>
            cases h
            exact .inl ⟨by decide, rfl⟩
          | some s =>
            dsimp only at h
            rw [if_pos (hsome s rfl)] at h
            cases h
            exact .inl ⟨by decide, rfl⟩
        | inr hnew =>
          obtain ⟨s, hs, rfl, rfl, hdev, hfree, hnew⟩ := hnew
          refine .inr ?_
          have hsb : (k.setSuper s ⟨dev, none⟩ none).vol.fs.superBlock s = ⟨dev, none⟩ :=
            Function.update_self ..
          have hdir : ((k.setSuper s ⟨dev, none⟩ none).vol.fs.inode dir).mount = false := hmount
          dsimp only at h
          rw [hsb, hdir, if_neg (show ¬ (none : Option Id).isSome = true from Bool.false_ne_true),
            if_neg Bool.false_ne_true] at h
          cases h
          refine ⟨rfl, s, ⟨hs, hfree, hdev, hnew, hnum, hcount⟩, ?_⟩
          unfold Kernel.mountAt Kernel.setSuper Kernel.setFs setMount
          dsimp only
          rw [Function.update_idem, Function.update_idem, Function.update_self]

theorem MountTable.mountAt (M : MountTable k ({dir} + refs)) (A : MountedAt k dev dir s) :
    MountTable (k.mountAt dev dir s) refs := by
  have hrefs := M.count dir
  have hmount : (k.vol.fs.inode dir).mount = false := M.not_mounted A.count
  rw [Multiset.count_add, Multiset.count_singleton_self, A.count, hmount] at hrefs
  have hnot : ∀ a, ¬ MountsOn k.vol.fs.superBlock k.rootDev a dir := by
    intro a ha
    have h := (M.flag dir).mpr ⟨a, ha⟩
    rw [hmount] at h
    cases h
  obtain ⟨r, hr, hroot⟩ := M.slots.hasRoot
  have hdev : dev ≠ k.rootDev := fun h => A.new r hr (hroot.trans h.symm)
  refine ⟨M.slots.mounted A.lt A.free A.dev_ne A.new A.num hnot, fun j => ?_, fun j => ?_⟩
  · show (Function.update k.vol.fs.inode dir _ j).mount = true ↔
      ∃ a, MountsOn (Function.update k.vol.fs.superBlock s _) k.rootDev a j
    simp only [mountsOn_mounted A.lt A.free hdev]
    by_cases hj : j = dir
    · rw [hj, Function.update_self]
      exact ⟨fun _ => ⟨s, .inl ⟨rfl, rfl⟩⟩, fun _ => rfl⟩
    · rw [Function.update_of_ne hj, M.flag j]
      exact exists_congr fun a => ⟨.inr, fun h => h.resolve_left fun h => hj h.2⟩
  · show refs.count j + (if (Function.update k.vol.fs.inode dir _ j).mount then 1 else 0) ≤
      k.vol.fs.count j
    by_cases hj : j = dir
    · rw [hj, Function.update_self, A.count, if_pos rfl]
      omega
    · rw [Function.update_of_ne hj]
      have h := M.count j
      rw [Multiset.count_add] at h
      omega

/-- A call that succeeds has mounted the device; one that fails keeps the table. -/
theorem sysMount_cases (M : MountTable k refs)
    (h : sysMount k cur devName dirName readable = some (e, k')) :
    (e ≠ 0 ∧ MountTable k' refs) ∨ e = 0 ∧ ∃ fs dev dir s, k.device cur devName = some dev ∧
      Fs.Trade none (some dir) k.vol.fs fs ∧ MountTable (k.setFs fs) ({dir} + refs) ∧
      MountedAt (k.setFs fs) dev dir s ∧ k' = (k.setFs fs).mountAt dev dir s := by
  unfold sysMount at h
  obtain ⟨t, ht, h⟩ := Option.bind_eq_some_iff.mp h
  obtain ⟨me, hme, h⟩ := Option.bind_eq_some_iff.mp h
  obtain ⟨⟨r, fs1⟩, hdevName, h⟩ := Option.bind_eq_some_iff.mp h
  have M1 := M.namei hdevName
  cases r with
  | none =>
    cases h
    refine .inl ⟨by decide, ?_⟩
    rwa [held_none, Multiset.zero_add] at M1
  | some i =>
    have hdevice : k.device cur devName = some ((fs1.inode i).zone 0) := by
      unfold Kernel.device
      rw [ht, Option.bind_some, hme, Option.bind_some, hdevName]
      rfl
    have M2 := M1.iput
    dsimp only at h
    split at h
    · cases h
      exact .inl ⟨by decide, M2⟩
    · obtain ⟨⟨r, fs2⟩, hdirName, h⟩ := Option.map_eq_some_iff.mp h
      have M3 := M2.namei hdirName
      cases r with
      | none =>
        cases h
        refine .inl ⟨by decide, ?_⟩
        rwa [held_none, Multiset.zero_add] at M3
      | some dir =>
        have hfs1 : 0 < fs1.count i := M1.pos
        have T := ((Fs.namei_trade hdevName).trans (.iput hfs1)).trans (Fs.namei_trade hdirName)
        have M3 : MountTable (k.setFs fs2) ({dir} + refs) := M3
        cases mountOn_cases M3 h with
        | inl hfail =>
          obtain ⟨he, rfl⟩ := hfail
          exact .inl ⟨he, M3.iput⟩
        | inr hdone =>
          obtain ⟨he, s, A, hk⟩ := hdone
          exact .inr ⟨he, fs2, _, dir, s, hdevice, T, M3, A, hk⟩

theorem MountTable.sysMount (M : MountTable k refs)
    (h : sysMount k cur devName dirName readable = some (e, k')) : MountTable k' refs := by
  cases sysMount_cases M h with
  | inl hfail => exact hfail.2
  | inr hdone =>
    obtain ⟨-, fs, dev, dir, s, -, -, M', A, rfl⟩ := hdone
    exact M'.mountAt A

/-! ## `sys_umount` -/

theorem MountTable.umountFrom (M : MountTable k refs) (hs : s < 8)
    (hsb : k.vol.fs.superBlock s = ⟨dev, some dir⟩) (hroot : dev ≠ k.rootDev) :
    MountTable (umountFrom k s dir) refs ∧
      (Files.umountFrom k s dir).vol.fs.superBlock =
        Function.update k.vol.fs.superBlock s ⟨0, none⟩ ∧
      (Files.umountFrom k s dir).inodeSuper = k.inodeSuper ∧
      ∀ j, (Files.umountFrom k s dir).vol.fs.count j + Fs.one (some dir) j = k.vol.fs.count j := by
  have hon : MountsOn k.vol.fs.superBlock k.rootDev s dir := by
    refine ⟨hs, ?_, ?_⟩
    · rw [hsb]
      exact hroot
    · rw [hsb]
  have hmount := (M.flag dir).mpr ⟨s, hon⟩
  have hcount := M.count dir
  rw [hmount, if_pos rfl] at hcount
  have hsuper : k.inodeSuper s = none := M.slots.supers_none s hs hon.2.1
  -- without its flag the directory may go
  have hflag : ∀ j, ((setMount k.vol.fs dir false).inode j).mount = true ↔
      j ≠ dir ∧ (k.vol.fs.inode j).mount = true := by
    intro j
    show (Function.update k.vol.fs.inode dir _ j).mount = true ↔ _
    by_cases hj : j = dir
    · rw [hj, Function.update_self]
      exact ⟨nofun, fun h => absurd rfl h.1⟩
    · rw [Function.update_of_ne hj]
      exact ⟨fun h => ⟨hj, h⟩, fun h => h.2⟩
  have hpos : 0 < (setMount k.vol.fs dir false).count dir := by
    show 0 < k.vol.fs.count dir
    omega
  have T := Fs.Trade.iput hpos
  have hkept := mount_kept T (.iput _ dir) fun j hj => by
    obtain ⟨hne, hm⟩ := (hflag j).mp hj
    have h := M.count j
    rw [hm, if_pos rfl] at h
    rw [Fs.one_of_ne hne]
    show 0 < k.vol.fs.count j
    omega
  unfold Files.umountFrom
  dsimp only
  rw [hsuper]
  have hsuper' : Function.update k.inodeSuper s none = k.inodeSuper := by
    rw [← hsuper]
    exact Function.update_eq_self ..
  refine ⟨⟨?_, fun j => ?_, fun j => ?_⟩, ?_, hsuper', T.count⟩
  · show Slots (Function.update ((setMount k.vol.fs dir false).iput dir).superBlock s _)
      (Function.update k.inodeSuper s none) k.rootDev
    rw [T.superBlock]
    exact M.slots.freed hon.2.1
  · show (((setMount k.vol.fs dir false).iput dir).inode j).mount = true ↔
      ∃ a, MountsOn (Function.update ((setMount k.vol.fs dir false).iput dir).superBlock s _)
        k.rootDev a j
    rw [T.superBlock, hkept, hflag, M.flag]
    simp only [mountsOn_freed]
    constructor
    · rintro ⟨hj, a, ha⟩
      refine ⟨a, ?_, ha⟩
      rintro rfl
      exact hj (Option.some.inj (ha.2.2.symm.trans hon.2.2))
    · rintro ⟨a, has, ha⟩
      refine ⟨?_, a, ha⟩
      rintro rfl
      exact has (M.slots.once a s j ha hon)
  · show refs.count j + (if (((setMount k.vol.fs dir false).iput dir).inode j).mount then 1 else 0) ≤
      ((setMount k.vol.fs dir false).iput dir).count j
    have h := M.count j
    have hT : ((setMount k.vol.fs dir false).iput dir).count j + Fs.one (some dir) j =
      k.vol.fs.count j := T.count j
    rw [hkept]
    by_cases hj : j = dir
    · subst hj
      rw [hmount, if_pos rfl] at h
      rw [Fs.one_self] at hT
      rw [if_neg fun hm => ((hflag j).mp hm).1 rfl]
      omega
    · rw [Fs.one_of_ne hj] at hT
      have hsame : ((setMount k.vol.fs dir false).inode j).mount = (k.vol.fs.inode j).mount :=
        congrArg MInode.mount (Function.update_of_ne hj ..)
      rw [hsame]
      omega
  · show Function.update ((setMount k.vol.fs dir false).iput dir).superBlock s _ = _
    rw [T.superBlock]
    rfl

/-- A call that succeeds frees the super block of the device; one that fails keeps
the table. -/
theorem sysUmount_cases (M : MountTable k refs) (h : sysUmount k cur devName = some (e, k')) :
    (e ≠ 0 ∧ MountTable k' refs) ∨ e = 0 ∧ MountTable k' refs ∧ ∃ dev dir, ∃ s < 8,
      k.device cur devName = some dev ∧ k.vol.fs.superBlock s = ⟨dev, some dir⟩ ∧ dev ≠ 0 ∧
      k'.vol.fs.superBlock = Function.update k.vol.fs.superBlock s ⟨0, none⟩ ∧
      k'.inodeSuper = k.inodeSuper ∧ k'.rootDev = k.rootDev ∧
      ∀ j, k'.vol.fs.count j + Fs.one (some dir) j = k.vol.fs.count j := by
  unfold sysUmount at h
  obtain ⟨t, ht, h⟩ := Option.bind_eq_some_iff.mp h
  obtain ⟨me, hme, h⟩ := Option.bind_eq_some_iff.mp h
  obtain ⟨⟨r, fs1⟩, hdevName, h⟩ := Option.map_eq_some_iff.mp h
  have M1 := M.namei hdevName
  cases r with
  | none =>
    cases h
    refine .inl ⟨by decide, ?_⟩
    rwa [held_none, Multiset.zero_add] at M1
  | some i =>
    have hdevice : k.device cur devName = some ((fs1.inode i).zone 0) := by
      unfold Kernel.device
      rw [ht, Option.bind_some, hme, Option.bind_some, hdevName]
      rfl
    have M2 := M1.iput
    have hfs1 : 0 < fs1.count i := M1.pos
    have T := (Fs.namei_trade hdevName).trans (.iput hfs1)
    dsimp only at h
    split at h
    · cases h
      exact .inl ⟨by decide, M2⟩
    · split at h
      · cases h
        exact .inl ⟨by decide, M2⟩
      · next hroot =>
        split at h
        · cases h
          exact .inl ⟨by decide, M2⟩
        · next s hof =>
          obtain ⟨hs, hsdev, hdev⟩ := superOf_some hof
          split at h
          · cases h
            exact .inl ⟨by decide, M2⟩
          · next dir hdir =>
            split at h
            · cases h
              exact .inl ⟨by decide, M2⟩
            · cases h
              have hsb : ((k.setFs fs1).setFs (fs1.iput i)).vol.fs.superBlock s =
                  ⟨(fs1.inode i).zone 0, some dir⟩ :=
                congr (congrArg SuperBlock.mk hsdev) hdir
              obtain ⟨M3, hsuper, hinode, hcount⟩ := M2.umountFrom hs hsb hroot
              have hsame : (fs1.iput i).superBlock = k.vol.fs.superBlock := T.superBlock
              refine .inr ⟨rfl, M3, _, dir, s, hs, hdevice, ?_, hdev, ?_, hinode, rfl, fun j => ?_⟩
              · rw [← hsame]
                exact hsb
              · rw [← hsame]
                exact hsuper
              · exact (hcount j).trans (T.count j)

theorem MountTable.sysUmount (M : MountTable k refs)
    (h : sysUmount k cur devName = some (e, k')) : MountTable k' refs := by
  cases sysUmount_cases M h with
  | inl hfail => exact hfail.2
  | inr hdone => exact hdone.2.1

/-- `sys_mount` and `sys_umount` of one device: the super blocks and the counters are what they
were. -/
theorem umount_undoes {cur' : Fin 64} {devName' : List Byte} (M : MountTable k refs)
    (hdev : k.device cur devName = some dev)
    (hmount : Files.sysMount k cur devName dirName readable = some (0, k1))
    (hdev' : k1.device cur' devName' = some dev)
    (humount : Files.sysUmount k1 cur' devName' = some (0, k2)) :
    MountTable k2 refs ∧ k2.vol.fs.superBlock = k.vol.fs.superBlock ∧
      k2.inodeSuper = k.inodeSuper ∧ k2.rootDev = k.rootDev ∧
      k2.vol.fs.count = k.vol.fs.count := by
  obtain ⟨h0, -⟩ | ⟨-, fs, dev1, dir, s, hdev1, T, M', A, rfl⟩ := sysMount_cases M hmount
  · exact absurd rfl h0
  · have M1 := M'.mountAt A
    obtain ⟨h0, -⟩ | ⟨-, M2, dev2, dir2, s2, hs2, hdev2, hsb2, hdev0, hsuper, hinode, hroot, hcount⟩ :=
      sysUmount_cases M1 humount
    · exact absurd rfl h0
    · obtain rfl := Option.some.inj (hdev.symm.trans hdev1)
      obtain rfl := Option.some.inj (hdev'.symm.trans hdev2)
      have hsb : ((k.setFs fs).mountAt dev dir s).vol.fs.superBlock s = ⟨dev, some dir⟩ :=
        Function.update_self ..
      have hs : s2 = s := by
        refine M1.slots.unique s2 hs2 s A.lt ?_ ?_
        · rw [hsb2, hsb]
        · rw [hsb2]
          exact hdev0
      subst hs
      obtain rfl : dir = dir2 := by
        rw [hsb] at hsb2
        injection hsb2 with _ h
        exact Option.some.inj h
      have hfree : fs.superBlock s2 = ⟨0, none⟩ := A.free
      refine ⟨M2, ?_, ?_, hroot, DFinsupp.ext fun j => ?_⟩
      · rw [hsuper]
        show Function.update (Function.update fs.superBlock s2 _) s2 _ = _
        rw [Function.update_idem, ← hfree, Function.update_eq_self]
        exact T.superBlock
      · rw [hinode]
        show Function.update k.inodeSuper s2 none = _
        have hnone : k.inodeSuper s2 = none := M.slots.supers_none s2 hs2 (by
          rw [← T.superBlock, hfree]
          exact M.slots.root_ne.symm)
        rw [← hnone]
        exact Function.update_eq_self ..
      · have h : k2.vol.fs.count j + Fs.one (some dir) j = fs.count j := hcount j
        have hT := T.count j
        rw [Fs.one_none] at hT
        omega

/-! ## `iget` -/

/-- The scan of `iget` crosses one mount at most, and ends with an inode on which nothing is mounted. -/
theorem MountTable.igetLoop (M : MountTable k refs) (hdev : i.dev ≠ 0) :
    ∃ r, (k.vol.fs.inode r).mount = false ∧
      ∀ n, Fs.igetLoop (n + 2) k.vol.fs i = some (r, k.vol.fs.hold r) := by
  have hplain : ∀ r : Id, r.dev ≠ 0 → (k.vol.fs.inode r).mount = false →
      ∀ n, Fs.igetLoop (n + 1) k.vol.fs r = some (r, k.vol.fs.hold r) := by
    intro r hr hm n
    have hm' : ((k.vol.fs.hold r).inode r).mount = false := hm
    unfold Fs.igetLoop
    rw [if_neg hr]
    dsimp only
    rw [hm', if_neg Bool.false_ne_true]
  cases hm : (k.vol.fs.inode i).mount with
  | false => exact ⟨i, hm, fun n => hplain i hdev hm (n + 1)⟩
  | true =>
    obtain ⟨a, ha⟩ := (M.flag i).mp hm
    -- the super block that the search finds
    cases hk : Fs.mountedOn (k.vol.fs.hold i) i with
    | none =>
      exact absurd (decide_eq_true ha.2.2)
        (List.find?_eq_none.mp hk a (List.mem_range.mpr ha.1))
    | some b =>
      have hb := List.mem_range.mp (List.mem_of_find?_eq_some hk)
      have hbi := List.find?_some hk
      have hbi : (k.vol.fs.superBlock b).inodeMount = some i := of_decide_eq_true hbi
      have hbdev : (k.vol.fs.superBlock b).dev ≠ 0 := by
        intro h0
        rw [M.slots.free b hb h0] at hbi
        cases hbi
      have hroot : (k.vol.fs.inode ⟨(k.vol.fs.superBlock b).dev, 1⟩).mount = false := by
        cases hm : (k.vol.fs.inode ⟨(k.vol.fs.superBlock b).dev, 1⟩).mount with
        | false => rfl
        | true =>
          obtain ⟨c, hc⟩ := (M.flag _).mp hm
          exact absurd rfl (M.slots.num c _ hc)
      refine ⟨_, hroot, fun n => ?_⟩
      have hback : (k.vol.fs.hold i).iput i = k.vol.fs := by
        have hc := M.count i
        rw [hm, if_pos rfl] at hc
        exact Fs.iput_hold (.inr (by omega))
      have hm' : ((k.vol.fs.hold i).inode i).mount = true := hm
      rw [Fs.igetLoop, if_neg hdev]
      dsimp only
      rw [hm', if_pos rfl, hk]
      dsimp only
      rw [hback]
      exact hplain _ hbdev hroot n

/-! ## Runs -/

/-- The super block of the root device is the only one. -/
theorem slots_root {p q : Option Id} (hroot : root ≠ 0) (hs : s < 8) (hp : p.isSome)
    (hsb : ∀ a, sb a = ⟨0, none⟩) (hsupers : ∀ a, supers a = none) :
    Slots (Function.update sb s ⟨root, p⟩) (Function.update supers s q) root ∧
      ∀ a j, ¬ MountsOn (Function.update sb s ⟨root, p⟩) root a j := by
  have hother : ∀ a, a ≠ s → Function.update sb s ⟨root, p⟩ a = ⟨0, none⟩ := fun a ha =>
    (Function.update_of_ne ha ..).trans (hsb a)
  have hself : Function.update sb s ⟨root, p⟩ s = ⟨root, p⟩ := Function.update_self ..
  have hnone : ∀ a j, ¬ MountsOn (Function.update sb s ⟨root, p⟩) root a j := by
    rintro a j ⟨-, hdev, hmount⟩
    by_cases ha : a = s
    · rw [ha, hself] at hdev
      exact hdev rfl
    · rw [hother a ha] at hmount
      cases hmount
  have hused : ∀ a, (Function.update sb s ⟨root, p⟩ a).dev ≠ 0 → a = s := by
    intro a ha
    by_contra hne
    rw [hother a hne] at ha
    exact ha rfl
  refine ⟨⟨hroot, ⟨s, hs, by rw [hself]⟩, ?_, ?_, ?_, ?_, ?_, ?_⟩, hnone⟩
  · intro a _ b _ hab ha
    exact (hused a ha).trans (hused b (hab ▸ ha)).symm
  · intro a _ h0
    by_cases ha : a = s
    · rw [ha, hself] at h0
      exact absurd h0 hroot
    · exact hother a ha
  · intro a _ ha
    rw [hused a ha, hself]
    exact hp
  · intro a _ hdev
    by_cases ha : a = s
    · rw [ha, hself] at hdev
      exact absurd rfl hdev
    · rw [Function.update_of_ne ha]
      exact hsupers a
  · exact fun a _ j hj => absurd hj (hnone a j)
  · exact fun a j hj => absurd hj (hnone a j)

theorem mountRoot_table {m : Mounts} (h : MountedRoot m) : MountTable m.kernel m.held := by
  obtain ⟨hheld, k0, cur, hboot, hflags, h⟩ := h
  rw [hheld]
  have hsb : ∀ a, k0.vol.fs.superBlock a = ⟨0, none⟩ := fun a =>
    congr (congrArg SuperBlock.mk (hboot.super a).1) (hboot.super a).2.1
  unfold mountRoot at h
  dsimp only at h
  split at h
  · cases h
  · next s k1 hread =>
    obtain ⟨⟨i, fs⟩, hget, h⟩ := Option.bind_eq_some_iff.mp h
    obtain ⟨t, ht, h⟩ := Option.map_eq_some_iff.mp h
    unfold readSuper at hread
    split at hread
    · cases hread
    · next hroot =>
      split at hread
      · next s' hof =>
        obtain ⟨-, hsdev, -⟩ := superOf_some hof
        exact absurd (hsdev.symm.trans (hboot.super s').1) hroot
      · split at hread
        · cases hread
        · next s' hfind =>
          have hs := List.mem_range.mp (List.mem_of_find?_eq_some hfind)
          rw [if_pos rfl] at hread
          cases hread
          have T := Fs.iget_trade hget
          have hinode : ∀ j, (fs.inode j).mount = false := fun j => by
            cases Fs.iget_spared hget j with
            | inl h => rw [h]; exact hflags j
            | inr h => rw [h]; rfl
          obtain ⟨L, hnone⟩ := slots_root (p := some i) (q := some i) hroot hs rfl hsb
            fun a => (hboot.super a).2.2
          have hsuper : m.kernel.vol.fs.superBlock =
              Function.update k0.vol.fs.superBlock s ⟨k0.rootDev, some i⟩ := by
            have hT : fs.superBlock = Function.update k0.vol.fs.superBlock s ⟨k0.rootDev, none⟩ :=
              T.superBlock
            rw [← h]
            show Function.update fs.superBlock s { fs.superBlock s with inodeMount := some i } = _
            rw [hT, Function.update_idem, Function.update_self]
          have hsupers : m.kernel.inodeSuper = Function.update k0.inodeSuper s (some i) := by
            rw [← h]
            exact Function.update_idem ..
          have hrootDev : m.kernel.rootDev = k0.rootDev := by
            rw [← h]
            rfl
          have hflag : ∀ j, (m.kernel.vol.fs.inode j).mount = false := by
            rw [← h]
            exact hinode
          refine ⟨?_, fun j => ?_, fun j => ?_⟩
          · rw [hsuper, hsupers, hrootDev]
            exact L
          · rw [hflag, hsuper, hrootDev]
            exact ⟨nofun, fun ⟨a, ha⟩ => absurd ha (hnone a j)⟩
          · rw [hflag, Multiset.count_zero]
            exact Nat.zero_le _

theorem mountStep_table {m m' : Mounts} {ev : MountEvent} (M : MountTable m.kernel m.held)
    (h : mountStep m ev = some m') : MountTable m'.kernel m'.held := by
  cases ev with
  | mount cur devName dirName readable =>
    obtain ⟨⟨e, k'⟩, hcall, rfl⟩ := Option.map_eq_some_iff.mp h
    exact M.sysMount hcall
  | umount cur devName =>
    obtain ⟨⟨e, k'⟩, hcall, rfl⟩ := Option.map_eq_some_iff.mp h
    exact M.sysUmount hcall
  | iget i =>
    obtain ⟨⟨r, fs'⟩, hget, rfl⟩ := Option.map_eq_some_iff.mp h
    refine MountTable.trade (d := none) (r := some r) ?_ (Fs.iget_trade hget) (Fs.iget_spared hget)
    rw [held_none, Multiset.zero_add]
    exact M
  | iput i =>
    obtain ⟨hi, rfl⟩ := of_guard h
    have M : MountTable m.kernel ({i} + m.held.erase i) := by
      rw [Multiset.singleton_add, Multiset.cons_erase hi]
      exact M
    exact M.iput

/-- In every state that mounting, unmounting, `iget` and `iput` reach from `mount_root`: a device has
one super block at most; an inode has `i_mount` exactly if one super block, not that of the root, is
mounted on it, and then it is in use and no root of a file system; the scan of `iget` crosses one mount at
most and ends, and `iget` returns what it finds unless all entries of the inode table are in use; and to
mount a device and unmount it leaves no trace. -/
theorem mount_table {m : Mounts} (h : Reach mountStep (fun _ _ => True) MountedRoot m) :
    (∀ a < 8, ∀ b < 8, (m.kernel.vol.fs.superBlock a).dev = (m.kernel.vol.fs.superBlock b).dev →
      (m.kernel.vol.fs.superBlock a).dev ≠ 0 → a = b) ∧
    (∀ j, (m.kernel.vol.fs.inode j).mount = true ↔
      ∃! a, MountsOn m.kernel.vol.fs.superBlock m.kernel.rootDev a j) ∧
    (∀ j, (m.kernel.vol.fs.inode j).mount = true → 1 ≤ m.kernel.vol.fs.count j ∧ j.num ≠ 1) ∧
    (∀ i : Id, i.dev ≠ 0 → ∃ r, (m.kernel.vol.fs.inode r).mount = false ∧
      ∀ n, Fs.igetLoop (n + 2) m.kernel.vol.fs i = some (r, m.kernel.vol.fs.hold r) ∧
        Fs.iget (n + 2) m.kernel.vol.fs i =
          if m.kernel.vol.fs.room then some (r, m.kernel.vol.fs.hold r) else none) ∧
    ∀ cur devName dirName readable dev k1 cur' devName' k2,
      m.kernel.device cur devName = some dev →
      sysMount m.kernel cur devName dirName readable = some (0, k1) →
      k1.device cur' devName' = some dev → sysUmount k1 cur' devName' = some (0, k2) →
      k2.vol.fs.superBlock = m.kernel.vol.fs.superBlock ∧ k2.inodeSuper = m.kernel.inodeSuper ∧
      (∀ j, (k2.vol.fs.inode j).mount = (m.kernel.vol.fs.inode j).mount) ∧
      k2.vol.fs.count = m.kernel.vol.fs.count := by
  have M : MountTable m.kernel m.held :=
    h.invariant (fun _ => mountRoot_table) fun _ _ _ hm _ => mountStep_table hm
  refine ⟨M.slots.unique, fun j => ?_, fun j hj => ⟨?_, ?_⟩, fun i hdev => ?_, ?_⟩
  · rw [M.flag]
    exact ⟨fun ⟨a, ha⟩ => ⟨a, ha, fun b hb => M.slots.once b a j hb ha⟩, fun ⟨a, ha, _⟩ => ⟨a, ha⟩⟩
  · have hc := M.count j
    rw [hj, if_pos rfl] at hc
    omega
  · obtain ⟨a, ha⟩ := (M.flag j).mp hj
    exact M.slots.num a j ha
  · obtain ⟨r, hr, hloop⟩ := M.igetLoop hdev
    exact ⟨r, hr, fun n => ⟨hloop n, by rw [Fs.iget, hloop n]⟩⟩
  · intro cur devName dirName readable dev k1 cur' devName' k2 hdev hmount hdev' humount
    obtain ⟨M2, hsuper, hinode, hroot, hcount⟩ := umount_undoes M hdev hmount hdev' humount
    refine ⟨hsuper, hinode, fun j => ?_, hcount⟩
    -- the super blocks determine the flags
    rw [Bool.eq_iff_iff, M2.flag, M.flag, hsuper, hroot]

/-- A disk with a special file "d" for a second disk, and an empty directory "m". -/
def twoDisks : Kernel where
  vol :=
    { fs :=
        { inode := fun i =>
            if i = ⟨0x301, 1⟩ then ⟨0o040755, 0, 0, 2, 32, fun b => if b = 0 then 10 else 0, false⟩
            else if i = ⟨0x301, 2⟩ then
              ⟨0o060600, 0, 0, 1, 0, fun b => if b = 0 then 0x302 else 0, false⟩
            else if i = ⟨0x301, 3⟩ then ⟨0o040755, 0, 0, 1, 0, fun _ => 0, false⟩
            else .zero
          count := 0
          superBlock := fun _ => ⟨0, none⟩
          dirBlock := fun _ _ n =>
            ⟨BitVec.ofNat 16 (n + 2), fun c => if c ≠ 0 then 0 else if n = 0 then 100 else 109⟩
          bcount := fun _ _ => 0 }
      data := fun _ _ => 0 }
  inodeSuper := fun _ => none
  file := fun _ => ⟨0, 0, 0, none, 0, none⟩
  task := fun _ =>
    some ⟨0, 0, 0, none, none, none, fun _ => none, fun _ => false, false, -1, false⟩
  rootDev := 0x301

theorem twoDisks_booted : Booted twoDisks := by
  refine ⟨fun _ => rfl, fun _ _ => rfl, fun _ => rfl, fun _ => ⟨rfl, rfl, rfl⟩, fun cur t ht => ?_⟩
  cases ht
  exact ⟨rfl, rfl, rfl, fun _ => rfl, fun _ => rfl⟩

/-- The second disk is mounted on "m", and `iget` of "m" gives its root. -/
theorem mount_table_mounted : ∃ m : Mounts, m.held = {⟨0x302, 1⟩} ∧
    (∃! a, MountsOn m.kernel.vol.fs.superBlock m.kernel.rootDev a ⟨0x301, 3⟩) ∧
    1 ≤ m.kernel.vol.fs.count ⟨0x301, 3⟩ := by
  have hrun : (((mountRoot twoDisks 0).bind fun k => run mountStep ⟨k, 0⟩
      [.mount 0 [47, 100] [47, 109] true, .iget ⟨0x301, 3⟩]).map fun m =>
        (m.held, (m.kernel.vol.fs.inode ⟨0x301, 3⟩).mount)) = some ({⟨0x302, 1⟩}, true) := by
    decide +kernel
  obtain ⟨m, hm, hproj⟩ := Option.map_eq_some_iff.mp hrun
  obtain ⟨k, hroot, hm⟩ := Option.bind_eq_some_iff.mp hm
  obtain ⟨hheld, hmount⟩ := Prod.mk.inj hproj
  have hflags : ∀ j, (twoDisks.vol.fs.inode j).mount = false := by
    intro j
    show (ite _ _ _ : MInode).mount = false
    split
    · rfl
    · split
      · rfl
      · split <;> rfl
  have hreach : Reach mountStep (fun _ _ => True) MountedRoot m :=
    .ofRun (fun _ _ => trivial) (.start ⟨rfl, twoDisks, 0, twoDisks_booted, hflags, hroot⟩) hm
  obtain ⟨-, hflag, hcount, -⟩ := mount_table hreach
  exact ⟨m, hheld, (hflag _).mp hmount, (hcount _ hmount).1⟩

end Linux011.Files
