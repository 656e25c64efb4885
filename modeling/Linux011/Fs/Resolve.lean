import Linux011.Lib.Walk
import Linux011.Fs.Lookup

/-!
# Path resolution is a walk

`namei` follows the names of the path from directory to directory. Each round of its loop looks one
name up and exchanges its reference to the directory for one to the inode found, so at any time it
holds one reference and no buffer; on failure it has given everything back. The first name that is found
needs a free entry of the inode table, and what is free then is free at every later name.

The lookup is a parameter here, in one place: how many entries `find_entry` looks at, given the
directory it is called with and the one it looks in.
-/

namespace Linux011.Fs

open Inode (Dev)

variable {fs : State} {t : Task} {d m i : Id}

/-! ## The state a call finds -/

/-- The mounts as `sys_mount` makes them: nothing is mounted on the root of a file system; the super
block has a device, and a reference to the directory it is mounted on. Directories begin with their
first block. The task has a root and a working directory. -/
structure Ready (t : Task) (fs : State) : Prop where
  solid : ∀ i, (fs.inode i).isDir → Solid (fs.inode i)
  covered : ∀ i, (fs.inode i).mount → i.num ≠ 1 ∧ 0 < fs.count i
  dev : ∀ k m, (fs.superBlock k).inodeMount = some m → (fs.superBlock k).dev ≠ 0
  mounted : ∀ k m, (fs.superBlock k).inodeMount = some m →
    m.dev ≠ 0 ∧ 0 < fs.count m ∧ (fs.inode m).isDir
  root : t.root.dev ≠ 0 ∧ 0 < fs.count t.root
  pwd : t.pwd.dev ≠ 0 ∧ 0 < fs.count t.pwd

/-! ## `iget` -/

/-- The inode that stands for `i`: the root of what is mounted on it. -/
def cross (fs : State) (i : Id) : Id :=
  if (fs.inode i).mount then
    match mountedOn fs i with
    | some k => ⟨(fs.superBlock k).dev, 1⟩
    | none => i
  else i

theorem mountedOn_some {k : Nat} (h : mountedOn fs i = some k) :
    (fs.superBlock k).inodeMount = some i := by
  simpa using List.find?_some h

theorem cross_dev (R : Ready t fs) (h : i.dev ≠ 0) : (cross fs i).dev ≠ 0 := by
  unfold cross
  split
  · split
    · next k hk => exact R.dev k i (mountedOn_some hk)
    · exact h
  · exact h

/-- The scan takes one reference to the inode that stands for the one it is asked for. -/
theorem igetLoop_eq (R : Ready t fs) (h : i.dev ≠ 0) :
    igetLoop 9 fs i = some (cross fs i, fs.hold (cross fs i)) := by
  unfold igetLoop cross
  rw [if_neg h]
  have hinode : (fs.hold i).inode = fs.inode := rfl
  have hmounted : mountedOn (fs.hold i) i = mountedOn fs i := rfl
  simp only [hinode, hmounted]
  by_cases hm : (fs.inode i).mount = true
  · rw [if_pos hm, if_pos hm]
    cases hk : mountedOn fs i with
    | none => rfl
    | some k =>
      have hdev : (fs.superBlock k).dev ≠ 0 := R.dev k i (mountedOn_some hk)
      have hroot : ¬ (fs.inode ⟨(fs.superBlock k).dev, 1⟩).mount = true := fun h =>
        (R.covered _ h).1 rfl
      show igetLoop 8 ((fs.hold i).iput i) ⟨(fs.superBlock k).dev, 1⟩ = _
      rw [iput_hold (Or.inr (R.covered i hm).2)]
      unfold igetLoop
      rw [if_neg hdev]
      exact if_neg hroot
  · rw [if_neg hm, if_neg hm]

/-- `iget` does so if there is room. -/
theorem iget_eq (R : Ready t fs) (h : i.dev ≠ 0) :
    iget 9 fs i = if fs.room then some (cross fs i, fs.hold (cross fs i)) else none := by
  rw [iget, igetLoop_eq R h]

/-! ## One name -/

/-- A directory in which the task may look names up. -/
def mayPass (t : Task) (fs : State) (d : Id) : Bool :=
  (fs.inode d).isDir && permission t d (fs.inode d) mayExec

/-- The inode that a name leads to. -/
def lookBy (entries : Id → Id → Nat) (t : Task) (fs : State) (d : Id) (name : List Byte) :
    Option Id :=
  if name = [] then none
  else
    let m := place t fs d (name.take 14)
    (firstEntry fs m.1 (entries d m.1) (DirEntry.named m.2)).map fun e =>
      cross fs ⟨m.1.dev, e.2.inodenr⟩

/-- `find_entry` looks at as many entries as the directory it is called with has. -/
def ofCaller (fs : State) (d _ : Id) : Nat := (fs.inode d).size / 16

theorem permission_nlinks {h : MInode} {mask : BitVec 32} (hdev : i.dev ≠ 0)
    (hp : permission t i h mask = true) : h.nlinks ≠ 0 := by
  intro h0
  rw [permission, if_pos ⟨hdev, h0⟩] at hp
  cases hp

/-- A mount point is that of the file system whose root the directory is. -/
theorem mountPoint_spec (h : mountPoint fs d = some m) : d.num = 1 ∧ ∃ k, k < 8 ∧
    (fs.superBlock k).dev = d.dev ∧ (fs.superBlock k).inodeMount = some m := by
  unfold mountPoint at h
  split at h
  · next hnum =>
    obtain ⟨sb, hsb, hm⟩ := Option.bind_eq_some_iff.mp h
    unfold checkInSuperb at hsb
    split at hsb
    · cases hsb
    · obtain ⟨k, hk, rfl⟩ := Option.map_eq_some_iff.mp hsb
      refine ⟨hnum, k, List.mem_range.mp (List.mem_of_find?_eq_some hk), ?_, hm⟩
      simpa using List.find?_some hk
  · cases h

/-- Where `find_entry` looks, and what it refers to then. -/
theorem place_spec (R : Ready t fs) (hdev : d.dev ≠ 0) (hpass : mayPass t fs d = true)
    (name : List Byte) : (place t fs d name).1.dev ≠ 0 ∧
      (fs.inode (place t fs d name).1).isDir = true ∧
      exchanged t (fs.hold d) d name = fs.hold (place t fs d name).1 ∧
      (fs.hold (place t fs d name).1).iput (place t fs d name).1 = fs := by
  obtain ⟨hdir, hperm⟩ := Bool.and_eq_true_iff.mp hpass
  have hput : (fs.hold d).iput d = fs := iput_hold (Or.inl (permission_nlinks hdev hperm))
  have hpoint : mountPoint (fs.hold d) d = mountPoint fs d := rfl
  unfold place exchanged
  by_cases hname : name = [46, 46]
  · rw [if_pos hname]
    by_cases hroot : d = t.root
    · rw [if_pos hroot, if_neg fun h => h.2 hroot]
      exact ⟨hdev, hdir, rfl, hput⟩
    · rw [if_neg hroot, if_pos ⟨hname, hroot⟩, hpoint]
      cases hm : mountPoint fs d with
      | none => exact ⟨hdev, hdir, rfl, hput⟩
      | some m =>
        obtain ⟨-, k, -, -, hk⟩ := mountPoint_spec hm
        obtain ⟨hmdev, hcount, hmdir⟩ := R.mounted k m hk
        refine ⟨hmdev, hmdir, ?_, iput_hold (Or.inr hcount)⟩
        show ((fs.hold d).iput d).hold m = fs.hold m
        rw [hput]
  · rw [if_neg hname, if_neg fun h => hname h.1]
    exact ⟨hdev, hdir, rfl, hput⟩

/-- One round: the name is found, and if there is room the task refers to the inode it leads to; or it is
not, and the directory is given back. -/
theorem findEntry_look (R : Ready t fs) (hdev : d.dev ≠ 0) (hpass : mayPass t fs d = true)
    {name : List Byte} {namelen : Nat} (h0 : 0 ∉ name) (hlen : namelen ≤ name.length) :
    (∃ m g, findEntry t (fs.hold d) d name namelen = (m, none, g) ∧ g.iput m = fs ∧
      lookBy (ofCaller fs) t fs d (name.take namelen) = none) ∨
    ∃ m block de g u, findEntry t (fs.hold d) d name namelen = (m, some (block, de), g) ∧
      follow g m block de = (if fs.room then some (u, fs.hold u) else none) ∧ u.dev ≠ 0 ∧
      lookBy (ofCaller fs) t fs d (name.take namelen) = some u := by
  by_cases hzero : namelen = 0
  · refine Or.inl ⟨d, fs.hold d, ?_, ?_, ?_⟩
    · subst hzero
      rfl
    · exact iput_hold (Or.inl (permission_nlinks hdev (Bool.and_eq_true_iff.mp hpass).2))
    · rw [hzero]
      rfl
  · have hkey : (name.take namelen).take 14 = name.take (min namelen 14) := by
      rw [List.take_take, Nat.min_comm]
    have hne : name.take namelen ≠ [] := by
      intro h
      have := congrArg List.length h
      rw [List.length_take_of_le hlen] at this
      exact hzero this
    obtain ⟨hmdev, hmdir, hex, hput⟩ := place_spec R hdev hpass (name.take (min namelen 14))
    have hplace : place t (fs.hold d) d (name.take (min namelen 14)) =
      place t fs d (name.take (min namelen 14)) := rfl
    have hfind := findEntry_eq h0 hzero hlen rfl hex (by rw [hplace]; exact R.solid _ hmdir)
    rw [hplace] at hfind
    unfold lookBy
    rw [if_neg hne, hkey]
    generalize place t fs d (name.take (min namelen 14)) = p at hmdev hput hfind ⊢
    have hfirst : firstEntry (fs.hold p.1) p.1 (((fs.hold d).inode d).size / 16)
        (DirEntry.named p.2) = firstEntry fs p.1 (ofCaller fs d p.1) (DirEntry.named p.2) := rfl
    rw [hfirst] at hfind
    cases hfound : firstEntry fs p.1 (ofCaller fs d p.1) (DirEntry.named p.2) with
    | none =>
      rw [hfound] at hfind
      refine Or.inl ⟨p.1, fs.hold p.1, hfind, hput, ?_⟩
      dsimp only
      rw [hfound]
      rfl
    | some e =>
      rw [hfound] at hfind
      have hdev' : (⟨p.1.dev, e.2.inodenr⟩ : Id).dev ≠ 0 := hmdev
      refine Or.inr ⟨p.1, e.1, e.2, (fs.hold p.1).bread p.1.dev e.1, cross fs ⟨p.1.dev, e.2.inodenr⟩,
        hfind, ?_, cross_dev R hdev', ?_⟩
      · rw [follow, brelse_bread, hput]
        exact iget_eq R hdev'
      · dsimp only
        rw [hfound]
        rfl

/-! ## The walk -/

theorem nameLen_eq {p : List Byte} (h : 47 ∉ p) : nameLen p = p.length := by
  induction p with
  | nil => rfl
  | cons c p ih =>
    obtain ⟨hc, hp⟩ := not_or.mp (mt List.mem_cons.mpr h)
    rw [nameLen, if_neg (Ne.symm hc), ih hp, List.length_cons]

theorem nameLen_append {a b : List Byte} (h : 47 ∉ a) : nameLen (a ++ 47 :: b) = a.length := by
  induction a with
  | nil => rfl
  | cons c a ih =>
    obtain ⟨hc, ha⟩ := not_or.mp (mt List.mem_cons.mpr h)
    rw [List.cons_append, nameLen, if_neg (Ne.symm hc), ih ha, List.length_cons]

theorem baseName_eq (p base : List Byte) : baseName p base = Lib.afterLast 47 p base := by
  induction p generalizing base with
  | nil => rfl
  | cons c p ih =>
    rw [baseName, Lib.afterLast]
    exact ih _

/-- The counters are as they were. -/
def SameCounts (fs g : State) : Prop := g.count = fs.count ∧ g.bcount = fs.bcount

/-- A name is found in the directory that a walk starts from, and the inode table is full. -/
structure Stuck (t : Task) (fs : State) (d : Id) (names : List (List Byte)) : Prop where
  full : fs.room = false
  pass : mayPass t fs d = true
  found : ∃ name ∈ names, (lookBy (ofCaller fs) t fs d name).isSome

/-- The loop of `get_dir_inode` walks along the names, if it does not panic at the first one. -/
theorem getDirLoop_eq (R : Ready t fs) {n : Nat} {p : List Byte} (hdev : d.dev ≠ 0) (h0 : 0 ∉ p)
    (hn : p.length < n) :
    (∃ g, getDirLoop t n (fs.hold d) d p = some (none, g) ∧ SameCounts fs g ∧
      Lib.walkTo (mayPass t fs) (lookBy (ofCaller fs) t fs) d (p.splitOn 47) = none) ∨
    (∃ e, getDirLoop t n (fs.hold d) d p = some (some e, fs.hold e) ∧ e.dev ≠ 0 ∧
      (fs.room = true ∨ e = d) ∧
      Lib.walkTo (mayPass t fs) (lookBy (ofCaller fs) t fs) d (p.splitOn 47) = some e) ∨
    getDirLoop t n (fs.hold d) d p = none ∧ Stuck t fs d (p.splitOn 47) := by
  induction n generalizing d p with
  | zero => omega
  | succ n ih =>
    have hinode : (fs.hold d).inode = fs.inode := rfl
    simp only [getDirLoop, hinode]
    cases hpass : mayPass t fs d with
    | false =>
      refine Or.inl ⟨(fs.hold d).iput d, if_pos ?_, iput_hold_counts fs d, ?_⟩
      · rw [mayPass, Bool.and_eq_false_iff] at hpass
        rcases hpass with h | h
        · exact Or.inl (by rw [h]; nofun)
        · exact Or.inr (by rw [h]; nofun)
      · cases hw : Lib.walkTo (mayPass t fs) (lookBy (ofCaller fs) t fs) d (p.splitOn 47) with
        | none => rfl
        | some e =>
          rw [Lib.walkTo_start hw] at hpass
          cases hpass
    | true =>
      obtain ⟨hdir, hperm⟩ := Bool.and_eq_true_iff.mp hpass
      rw [if_neg (by simp [hdir, hperm])]
      by_cases hslash : 47 ∈ p
      · obtain ⟨a, b, rfl, ha⟩ := List.eq_append_cons_of_mem hslash
        have hlen : ¬ (a ++ 47 :: b).length ≤ a.length := by
          rw [List.length_append, List.length_cons]
          omega
        have hrest : (a ++ 47 :: b).drop (a.length + 1) = b := by
          rw [← List.drop_drop, List.drop_left]
          rfl
        rw [nameLen_append ha, List.splitOn_append_cons_self_of_not_mem ha,
          Lib.walkTo_cons _ _ (List.splitOn_ne_nil _ _), hpass, if_pos rfl, if_neg hlen]
        have hle : a.length ≤ (a ++ 47 :: b).length := by
          rw [List.length_append]
          omega
        have hround := findEntry_look R hdev hpass h0 hle
        rw [List.take_left] at hround
        rcases hround with ⟨m, g, hfind, hput, hlook⟩ | ⟨m, block, de, g, u, hfind, hfollow, hu, hlook⟩
        · simp only [hfind, hlook, hput]
          exact Or.inl ⟨fs, rfl, ⟨rfl, rfl⟩, rfl⟩
        · simp only [hfind, hlook, hfollow, hrest]
          cases hroom : fs.room with
          | false => exact Or.inr (Or.inr ⟨rfl, hroom, hpass, a, List.mem_cons_self, by rw [hlook]; rfl⟩)
          | true =>
            have hb : 0 ∉ b := fun h => h0 (List.mem_append_right _ (List.mem_cons_of_mem _ h))
            have hlt : b.length < n := by
              rw [List.length_append, List.length_cons] at hn
              omega
            rcases ih hu hb hlt with hnone | ⟨e, he, hedev, -, hwalk⟩ | ⟨-, hstuck⟩
            · exact Or.inl hnone
            · exact Or.inr (Or.inl ⟨e, he, hedev, Or.inl rfl, hwalk⟩)
            · rw [hstuck.full] at hroom
              cases hroom
      · rw [nameLen_eq hslash, if_pos (Nat.le_refl _), List.splitOn_eq_singleton hslash]
        exact Or.inr (Or.inl ⟨d, rfl, hdev, Or.inr rfl, if_pos hpass⟩)

/-! ## `namei` -/

/-- Where a path starts, and the rest of it. -/
def startOf (t : Task) : List Byte → Id × List Byte
  | [] => (t.pwd, [])
  | c :: p => if c = 47 then (t.root, p) else (t.pwd, c :: p)

/-- The directory that the last name of the path belongs in. -/
def dirBy (entries : Id → Id → Nat) (t : Task) (fs : State) (path : List Byte) : Option Id :=
  if path = [] then none
  else
    Lib.walkTo (mayPass t fs) (lookBy entries t fs) (startOf t path).1
      ((startOf t path).2.splitOn 47)

/-- The last name. -/
def lastName (t : Task) (path : List Byte) : List Byte :=
  ((startOf t path).2.splitOn 47).getLast (List.splitOn_ne_nil _ _)

/-- The inode that the path leads to: the walk, and the last name looked up at its end; an empty one
stands for the directory itself. -/
def resolveBy (entries : Id → Id → Nat) (t : Task) (fs : State) (path : List Byte) : Option Id :=
  (dirBy entries t fs path).bind fun d =>
    if lastName t path = [] then some d else lookBy entries t fs d (lastName t path)

theorem getDirInode_eq (R : Ready t fs) {path : List Byte} (h0 : 0 ∉ path) :
    (∃ g, getDirInode t fs path = some (none, g) ∧ SameCounts fs g ∧
      dirBy (ofCaller fs) t fs path = none) ∨
    (∃ e, getDirInode t fs path = some (some e, fs.hold e) ∧ e.dev ≠ 0 ∧
      (fs.room = true ∨ e = (startOf t path).1) ∧ dirBy (ofCaller fs) t fs path = some e) ∨
    getDirInode t fs path = none ∧ Stuck t fs (startOf t path).1 ((startOf t path).2.splitOn 47) := by
  have hheld : ¬ (fs.count t.root = 0 ∨ fs.count t.pwd = 0) :=
    not_or.mpr ⟨Nat.ne_of_gt R.root.2, Nat.ne_of_gt R.pwd.2⟩
  unfold getDirInode
  rw [if_neg hheld]
  cases path with
  | nil => exact Or.inl ⟨fs, rfl, ⟨rfl, rfl⟩, rfl⟩
  | cons c p =>
    obtain ⟨-, hp⟩ := not_or.mp (mt List.mem_cons.mpr h0)
    unfold dirBy startOf
    rw [if_neg (List.cons_ne_nil c p)]
    by_cases hc : c = 47
    · simp only [if_pos hc]
      exact getDirLoop_eq R R.root.1 hp (Nat.lt_succ_self _)
    · simp only [if_neg hc]
      exact getDirLoop_eq R R.pwd.1 h0 (Nat.lt_succ_self _)

theorem baseName_lastName (t : Task) (path : List Byte) :
    baseName path path = lastName t path := by
  unfold lastName startOf
  cases path with
  | nil => rfl
  | cons c p =>
    rw [baseName_eq]
    by_cases hc : c = 47
    · simp only [if_pos hc]
      rw [Lib.afterLast, if_pos hc, Lib.afterLast_eq_getLast]
    · simp only [if_neg hc]
      rw [Lib.afterLast_eq_getLast]

theorem lastName_mem (t : Task) {path : List Byte} (h0 : 0 ∉ path) : 0 ∉ lastName t path := by
  rw [← baseName_lastName, baseName_eq]
  exact fun h => (Lib.mem_afterLast 47 h).elim h0 h0

theorem dirNamei_eq (R : Ready t fs) {path : List Byte} (h0 : 0 ∉ path) :
    (∃ g, dirNamei t fs path = some (none, g) ∧ SameCounts fs g ∧
      dirBy (ofCaller fs) t fs path = none) ∨
    (∃ e, dirNamei t fs path = some (some (e, lastName t path), fs.hold e) ∧ e.dev ≠ 0 ∧
      (fs.room = true ∨ e = (startOf t path).1) ∧ dirBy (ofCaller fs) t fs path = some e) ∨
    dirNamei t fs path = none ∧ Stuck t fs (startOf t path).1 ((startOf t path).2.splitOn 47) := by
  unfold dirNamei
  rw [baseName_lastName t path]
  rcases getDirInode_eq R h0 with ⟨g, hg, hsame, hdir⟩ | ⟨e, he, hdev, hroom, hdir⟩ | ⟨hnone, hstuck⟩
  · exact Or.inl ⟨g, by rw [hg]; rfl, hsame, hdir⟩
  · exact Or.inr (Or.inl ⟨e, by rw [he]; rfl, hdev, hroom, hdir⟩)
  · exact Or.inr (Or.inr ⟨by rw [hnone]; rfl, hstuck⟩)

theorem lastName_mem_names (t : Task) (path : List Byte) :
    lastName t path ∈ (startOf t path).2.splitOn 47 :=
  List.getLast_mem _

/-- `namei` returns what the walk leads to. On failure every counter is as it was; on success there
is one more reference to the inode it returns, and nothing else is different. It panics only over a name
that it finds in the directory it starts from. -/
theorem namei_eq (R : Ready t fs) {path : List Byte} (h0 : 0 ∉ path) :
    (∃ g, namei t fs path = some (none, g) ∧ SameCounts fs g ∧
      resolveBy (ofCaller fs) t fs path = none) ∨
    (∃ i, namei t fs path = some (some i, fs.hold i) ∧
      (fs.room = true ∨ lastName t path = [] ∧ i = (startOf t path).1) ∧
      resolveBy (ofCaller fs) t fs path = some i) ∨
    namei t fs path = none ∧ Stuck t fs (startOf t path).1 ((startOf t path).2.splitOn 47) := by
  unfold namei resolveBy
  rcases dirNamei_eq R h0 with ⟨g, hg, hsame, hdir⟩ | ⟨d, hd, hdev, hroom, hdir⟩ | ⟨hnone, hstuck⟩
  · rw [hg, hdir]
    exact Or.inl ⟨g, rfl, hsame, rfl⟩
  · have hpass : mayPass t fs d = true := by
      unfold dirBy at hdir
      split at hdir
      · cases hdir
      · exact Lib.walkTo_ok hdir
    rw [hd, hdir]
    dsimp only [Option.bind_some]
    by_cases hlast : lastName t path = []
    · rw [hlast]
      exact Or.inr (Or.inl ⟨d, rfl, hroom.imp_right fun h => ⟨rfl, h⟩, rfl⟩)
    · have hlen : ¬ (lastName t path).length = 0 := fun h => hlast (List.eq_nil_of_length_eq_zero h)
      rw [if_neg hlen, if_neg hlast]
      have hround := findEntry_look R hdev hpass (lastName_mem t h0) (Nat.le_refl _)
      rw [List.take_length] at hround
      rcases hround with ⟨m, g, hfind, hput, hlook⟩ | ⟨m, block, de, g, u, hfind, hfollow, -, hlook⟩
      · rw [hfind, hlook]
        dsimp only
        rw [hput]
        exact Or.inl ⟨fs, rfl, ⟨rfl, rfl⟩, rfl⟩
      · rw [hfind, hlook]
        dsimp only
        rw [hfollow]
        cases hfree : fs.room with
        | true => exact Or.inr (Or.inl ⟨u, rfl, Or.inl rfl, rfl⟩)
        | false =>
          -- without room the walk has not left the directory it starts from
          obtain rfl := hroom.resolve_left (by rw [hfree]; nofun)
          exact Or.inr (Or.inr ⟨rfl, hfree, hpass, _, lastName_mem_names t path, by rw [hlook]; rfl⟩)
  · rw [hnone]
    exact Or.inr (Or.inr ⟨rfl, hstuck⟩)

end Linux011.Fs
