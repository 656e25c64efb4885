import Mathlib.Logic.Relation
import Linux011.Fs.Reference

/-!
# A task stays below its root

An inode is inside a root when it is below it in the tree of directories, where a mounted file system
hangs below the directory it is mounted on. In a tree whose `.` and `..` entries are correct, a path that
starts inside the task's root leads to an inode inside it, but for one way out.

`find_entry` compares the current directory with `current->root` only before it goes over a mount point.
When something is mounted on the task's root, `..` in the root of that is looked up in the root itself, and
it is no faked `.` there. A task can get such a root: `sys_mount` looks at `i_count` before `read_super`
sleeps, and another task may change its root to the directory meanwhile.
-/

namespace Linux011.Fs

open Inode (Dev)

variable {fs : State} {t : Task} {d m k i : Id}

/-! ## The tree -/

/-- Entry `j` of the directory is live, and carries the name. -/
def Entry (fs : State) (d : Id) (name : List Byte) (i : Id) : Prop :=
  ∃ j < (fs.inode d).size / 16, ∃ e, entryAt fs d j = some e ∧ e.2.named name = true ∧
    i = ⟨d.dev, e.2.inodenr⟩

/-- `k` is named in directory `d`, other than as `.` or `..`. -/
def Child (fs : State) (d k : Id) : Prop :=
  (fs.inode d).isDir = true ∧ ∃ name, name ≠ [46] ∧ name ≠ [46, 46] ∧ Entry fs d name k

/-- `k` is the root of what is mounted on `d`. -/
def MountEdge (fs : State) (d k : Id) : Prop :=
  (fs.inode d).mount = true ∧ ∃ n, mountedOn fs d = some n ∧ k = ⟨(fs.superBlock n).dev, 1⟩

/-- `k` is in the subtree of `d`, following mounts. -/
def Inside (fs : State) : Id → Id → Prop :=
  Relation.ReflTransGen fun d k => Child fs d k ∨ MountEdge fs d k

/-- Every `.` and `..` is correct, `..` leads to the one directory that names the directory, no directory is
below itself, and every device is mounted once. -/
structure Tree (fs : State) : Prop where
  self : ∀ d i, (fs.inode d).isDir = true → Entry fs d [46] i → i = d
  parent : ∀ d i p, (fs.inode d).isDir = true → d.num ≠ 1 → Entry fs d [46, 46] i → (Child fs p d ↔ i = p)
  dotdot : ∀ d, (fs.inode d).isDir = true → ∃ i, Entry fs d [46, 46] i
  acyclic : ∀ d k, Child fs d k → ¬ Inside fs k d
  root : ∀ d k, Child fs d k → k.num ≠ 1
  super : ∀ k n, k < 8 → n < 8 → (fs.superBlock n).dev ≠ 0 →
    (fs.superBlock k).dev = (fs.superBlock n).dev → k = n

theorem cross_inside {r : Id} (h : Inside fs r i) : Inside fs r (cross fs i) := by
  unfold cross
  split
  · next hm =>
    split
    · next n hn => exact h.tail (Or.inr ⟨hm, n, hn, rfl⟩)
    · exact h
  · exact h

/-- The first entry that fits is an entry of the directory, if one of its entries fits at all. -/
theorem firstEntry_entry {name : List Byte} {n : Nat} {e : Block × DirEntry}
    (h : firstEntry fs m n (DirEntry.named name) = some e)
    (hin : n ≤ (fs.inode m).size / 16 ∨ ∃ i, Entry fs m name i) :
    Entry fs m name ⟨m.dev, e.2.inodenr⟩ := by
  -- some entry `j` of the directory, at the place found
  have hentry : ∀ n, n ≤ (fs.inode m).size / 16 →
      firstEntry fs m n (DirEntry.named name) = some e → Entry fs m name ⟨m.dev, e.2.inodenr⟩ := by
    intro n hn h
    obtain ⟨j, hj, hhit⟩ := List.exists_of_findSome?_eq_some h
    obtain ⟨he, hname⟩ := Option.filter_eq_some_iff.mp hhit
    exact ⟨j, (List.mem_range.mp hj).trans_le hn, e, he, hname, rfl⟩
  by_cases hn : n ≤ (fs.inode m).size / 16
  · exact hentry n hn h
  · obtain ⟨i, j, hj, e', he', hname', -⟩ := hin.resolve_left hn
    have hhit : (hit fs m (DirEntry.named name) j).isSome = true := by
      rw [hit, he', Option.filter_some, if_pos hname']
      rfl
    rw [firstEntry_reach hhit (by omega)] at h
    exact hentry (j + 1) hj h

/-- The file system mounted on `d` finds its mount point. -/
theorem mountPoint_of_edge (R : Ready t fs) (T : Tree fs) (h : MountEdge fs d k) :
    mountPoint fs k = some d := by
  obtain ⟨-, n, hn, rfl⟩ := h
  have hmount := mountedOn_some hn
  have hdev := R.dev n d hmount
  have hlt : n < 8 := List.mem_range.mp (List.mem_of_find?_eq_some hn)
  unfold mountPoint checkInSuperb
  rw [if_pos rfl, if_neg hdev]
  have hfind : (List.range 8).find? (fun k => (fs.superBlock k).dev = (fs.superBlock n).dev) = some n := by
    cases hk : (List.range 8).find? (fun k => (fs.superBlock k).dev = (fs.superBlock n).dev) with
    | none =>
      have := List.find?_eq_none.mp hk n (List.mem_range.mpr hlt)
      exact absurd (decide_eq_true rfl) this
    | some k =>
      have hk8 := List.mem_range.mp (List.mem_of_find?_eq_some hk)
      have hkdev : (fs.superBlock k).dev = (fs.superBlock n).dev := by
        simpa using List.find?_some hk
      rw [T.super k n hk8 hlt hdev hkdev]
  rw [hfind]
  exact hmount

/-- The last edge to an inode that is no root of a file system is an entry. -/
theorem inside_child {r : Id} (h : Inside fs r d) (hne : d ≠ r) (hnum : d.num ≠ 1) :
    ∃ p, Inside fs r p ∧ Child fs p d := by
  rcases Relation.ReflTransGen.cases_tail h with rfl | ⟨p, hp, hchild | hmount⟩
  · exact absurd rfl hne
  · exact ⟨p, hp, hchild⟩
  · obtain ⟨-, n, -, rfl⟩ := hmount
    exact absurd rfl hnum

/-- The last edge to the root of a mounted file system is the mount. -/
theorem inside_mount (T : Tree fs) {r : Id} (h : Inside fs r d) (hne : d ≠ r) (hnum : d.num = 1) :
    ∃ p, Inside fs r p ∧ MountEdge fs p d := by
  rcases Relation.ReflTransGen.cases_tail h with rfl | ⟨p, hp, hchild | hmount⟩
  · exact absurd rfl hne
  · exact absurd hnum (T.root p d hchild)
  · exact ⟨p, hp, hmount⟩

/-- From `d`, `..` leads over the mount on the task's root. -/
structure Out (t : Task) (fs : State) (d : Id) : Prop where
  away : d ≠ t.root
  covers : mountPoint fs d = some t.root
  found : (parentAmong fs t.root ((fs.inode d).size / 16)).isSome

/-- A walk comes to where `..` leads over the mount on the task's root. -/
def Leak (t : Task) (fs : State) : Prop :=
  ∃ s names d, (s = t.root ∨ s = t.pwd) ∧ (∀ name ∈ names, IsName name) ∧
    Lib.walkTo (mayPass t fs) (lookBy (ofCaller fs) t fs) s names = some d ∧ Out t fs d

/-- One lookup stays inside the root, if it does not go over the mount on it. -/
theorem lookBy_inside (R : Ready t fs) (T : Tree fs) (hout : ¬ Out t fs d)
    {name : List Byte} (hd : Inside fs t.root d) (hpass : mayPass t fs d = true)
    (h : lookBy (ofCaller fs) t fs d name = some i) : Inside fs t.root i := by
  obtain ⟨hdir, -⟩ := Bool.and_eq_true_iff.mp hpass
  -- what the entry found leads to, when the entry is correct
  have hfound : ∀ {m : Id} {key : List Byte}, (fs.inode m).isDir = true →
      (firstEntry fs m (ofCaller fs d m) (DirEntry.named key)).map (fun e =>
        cross fs ⟨m.dev, e.2.inodenr⟩) = some i →
      (ofCaller fs d m ≤ (fs.inode m).size / 16 ∨ ∃ i, Entry fs m key i) →
      (∀ k, Entry fs m key k → Inside fs t.root k) → Inside fs t.root i := by
    intro m key hm hmap hin hk
    obtain ⟨e, he, rfl⟩ := Option.map_eq_some_iff.mp hmap
    exact cross_inside (hk _ (firstEntry_entry he hin))
  unfold lookBy place at h
  split at h
  · cases h
  · by_cases hdot : name.take 14 = [46, 46]
    · simp only [if_pos hdot] at h
      by_cases hdr : d = t.root
      · simp only [if_pos hdr] at h
        refine hfound hdir h (Or.inl (Nat.le_refl _)) fun k hk => ?_
        rw [T.self d k hdir hk]
        exact hd
      · simp only [if_neg hdr] at h
        cases hm : mountPoint fs d with
        | none =>
          rw [hm] at h
          have hnum : d.num ≠ 1 := by
            intro hnum
            obtain ⟨p, -, hedge⟩ := inside_mount T hd hdr hnum
            rw [mountPoint_of_edge R T hedge] at hm
            cases hm
          obtain ⟨p, hp, hchild⟩ := inside_child hd hdr hnum
          refine hfound hdir h (Or.inl (Nat.le_refl _)) fun k hk => ?_
          rw [hdot] at hk
          rw [(T.parent d k p hdir hnum hk).mp hchild]
          exact hp
        | some m =>
          rw [hm] at h
          -- the directory it is mounted on is inside, and is not the root
          obtain ⟨hnum, k, -, -, hk⟩ := mountPoint_spec hm
          obtain ⟨p, hp, hedge⟩ := inside_mount T hd hdr hnum
          obtain rfl : p = m := Option.some.inj ((mountPoint_of_edge R T hedge).symm.trans hm)
          have hpdir := (R.mounted k p hk).2.2
          dsimp only at h
          rw [hdot] at h
          have hpr : p ≠ t.root := by
            rintro rfl
            refine hout ⟨hdr, hm, ?_⟩
            rw [parentAmong]
            exact h ▸ rfl
          have hpnum := (R.covered p hedge.1).1
          obtain ⟨q, hq, hchild⟩ := inside_child hp hpr hpnum
          refine hfound hpdir h (Or.inr (T.dotdot p hpdir)) fun k hk => ?_
          rw [(T.parent p k q hpdir hpnum hk).mp hchild]
          exact hq
    · simp only [if_neg hdot] at h
      refine hfound hdir h (Or.inl (Nat.le_refl _)) fun k hk => ?_
      by_cases hself : name.take 14 = [46]
      · rw [hself] at hk
        rw [T.self d k hdir hk]
        exact hd
      · exact hd.tail (Or.inl ⟨hdir, _, hself, hdot, hk⟩)

/-- A walk that never comes to a way out stays inside the root. -/
theorem walk_inside (R : Ready t fs) (T : Tree fs) (hpwd : Inside fs t.root t.pwd) (hleak : ¬ Leak t fs)
    {s : Id} {names : List (List Byte)} (hs : s = t.root ∨ s = t.pwd) (hnames : ∀ name ∈ names, IsName name)
    (h : Lib.walkTo (mayPass t fs) (lookBy (ofCaller fs) t fs) s names = some d) : Inside fs t.root d := by
  have hstart : Inside fs t.root s := by
    rcases hs with rfl | rfl
    · exact .refl
    · exact hpwd
  refine Lib.walkTo_along hstart (fun pre name suf heq u u' hu hin hlook => ?_) h
  refine lookBy_inside R T (fun hout => hleak ⟨s, pre ++ [name], u, hs, fun k hk => hnames k ?_, hu, hout⟩)
    hin (Lib.walkTo_ok hu) hlook
  rw [heq]
  rcases List.mem_append.mp hk with hk | hk
  · exact List.mem_append_left _ hk
  · exact List.mem_append_right _ (List.mem_singleton.mp hk ▸ List.mem_cons_self)

/-- Without something mounted on the root there is no way out. -/
theorem not_leak (R : Ready t fs) (T : Tree fs) (hpwd : Inside fs t.root t.pwd)
    (hroot : (fs.inode t.root).mount = false) : ¬ Leak t fs := by
  have hinside : ∀ d, Inside fs t.root d → ¬ Out t fs d := by
    intro d hd hout
    obtain ⟨hnum, -⟩ := mountPoint_spec hout.covers
    obtain ⟨p, -, hedge⟩ := inside_mount T hd hout.away hnum
    obtain rfl := Option.some.inj ((mountPoint_of_edge R T hedge).symm.trans hout.covers)
    rw [hedge.1] at hroot
    cases hroot
  rintro ⟨s, names, d, hs, -, hwalk, hout⟩
  refine hinside d (Lib.walkTo_invariant (P := Inside fs t.root) (fun u name u' hu hok hlook => ?_) ?_ hwalk) hout
  · exact lookBy_inside R T (hinside u hu) hu hok hlook
  · rcases hs with rfl | rfl
    · exact .refl
    · exact hpwd

/-- What `..` leads to over the mount on the root is not inside it. -/
theorem Out.outside (R : Ready t fs) (T : Tree fs) (hd : Inside fs t.root d) (hout : Out t fs d)
    (h : parentAmong fs t.root ((fs.inode d).size / 16) = some i) : ¬ Inside fs t.root i := by
  obtain ⟨hnum, k, -, -, hk⟩ := mountPoint_spec hout.covers
  obtain ⟨p, -, hedge⟩ := inside_mount T hd hout.away hnum
  obtain rfl : p = t.root := Option.some.inj ((mountPoint_of_edge R T hedge).symm.trans hout.covers)
  have hdir := (R.mounted k t.root hk).2.2
  have hroot := (R.covered t.root hedge.1).1
  obtain ⟨e, he, rfl⟩ := Option.map_eq_some_iff.mp h
  have hentry := firstEntry_entry he (Or.inr (T.dotdot t.root hdir))
  -- the parent names the root, so it is not below it; nor is what is mounted on the parent
  have hchild := (T.parent t.root _ _ hdir hroot hentry).mpr rfl
  have habove := T.acyclic _ _ hchild
  intro hin
  unfold cross at hin
  split at hin
  · next hm =>
    split at hin
    · next n hn =>
      have hne : (⟨(fs.superBlock n).dev, 1⟩ : Id) ≠ t.root := fun heq => hroot (heq ▸ rfl)
      obtain ⟨q, hq, hedge'⟩ := inside_mount T hin hne rfl
      have hpoint := (mountPoint_of_edge R T hedge').symm.trans (mountPoint_of_edge R T ⟨hm, n, hn, rfl⟩)
      exact habove (Option.some.inj hpoint ▸ hq)
    · exact habove hin
  · exact habove hin

/-- Where a walk comes to, a path with any last name does. -/
theorem exists_path_to {s : Id} {names : List (List Byte)} {entries : Id → Id → Nat}
    (hs : s = t.root ∨ s = t.pwd) (hnames : ∀ name ∈ names, IsName name)
    (h : Lib.walkTo (mayPass t fs) (lookBy entries t fs) s names = some d) {k : List Byte} (hk : IsName k)
    (hne : k ≠ []) : ∃ path, 0 ∉ path ∧ dirBy entries t fs path = some d ∧ lastName t path = k := by
  obtain ⟨pre, last, rfl⟩ : ∃ pre last, names = pre ++ [last] := by
    rcases List.eq_nil_or_concat names with rfl | ⟨pre, last, rfl⟩
    · cases h
    · exact ⟨pre, last, List.concat_eq_append⟩
  have hwalk := (Lib.walkTo_concat s k last pre).trans h
  -- an empty first name is looked up in vain
  have hhead : (pre ++ [k]).head? ≠ some [] := by
    cases pre with
    | nil => exact fun h => hne (Option.some.inj h)
    | cons j pre =>
      intro hj
      obtain rfl : j = [] := Option.some.inj hj
      rw [List.cons_append, Lib.walkTo_cons _ _ (List.concat_ne_nil _ _)] at hwalk
      split at hwalk <;> cases hwalk
  obtain ⟨path, h0, hpath, hstart, hsplit⟩ := exists_path t hs (List.concat_ne_nil k pre) hhead
    fun name hn => (List.mem_append.mp hn).elim (fun h => hnames name (List.mem_append_left _ h))
      fun h => List.mem_singleton.mp h ▸ hk
  refine ⟨path, h0, ?_, ?_⟩
  · rw [dirBy_eq hpath hstart hsplit, hwalk]
  · unfold lastName
    simp only [hsplit, List.getLast_append_singleton]

theorem dirBy_inside (R : Ready t fs) (T : Tree fs) (hpwd : Inside fs t.root t.pwd) (hleak : ¬ Leak t fs)
    {path : List Byte} (h0 : 0 ∉ path) (h : dirBy (ofCaller fs) t fs path = some d) :
    Inside fs t.root d ∧ ¬ Out t fs d ∧ mayPass t fs d = true := by
  unfold dirBy at h
  split at h
  · cases h
  · have hs := startOf_start t path
    have hnames := names_of_path (t := t) h0
    exact ⟨walk_inside R T hpwd hleak hs hnames h, fun hout => hleak ⟨_, _, d, hs, hnames, h, hout⟩,
      Lib.walkTo_ok h⟩

theorem start_inside (hpwd : Inside fs t.root t.pwd) (path : List Byte) :
    Inside fs t.root (startOf t path).1 := by
  rcases startOf_start t path with hs | hs
  · rw [hs]
    exact .refl
  · rw [hs]
    exact hpwd

/-- The inode that `namei` returns, and the directory that `dir_namei` returns, are inside the root of the
task for every path, if and only if no walk comes to where `..` leads over a mount on the root, or the inode
table is full. -/
theorem namei_inside (R : Ready t fs) (T : Tree fs) (hpwd : Inside fs t.root t.pwd) :
    (∀ path, 0 ∉ path → (∀ i g, namei t fs path = some (some i, g) → Inside fs t.root i) ∧
      ∀ d name g, dirNamei t fs path = some (some (d, name), g) → Inside fs t.root d) ↔
    ¬ Leak t fs ∨ fs.room = false := by
  constructor
  · intro hclaim
    by_contra hnot
    obtain ⟨hleak, hroom⟩ := not_or.mp hnot
    obtain ⟨s, names, d, hs, hnames, hwalk, hout⟩ := not_not.mp hleak
    obtain ⟨path, h0, hdir, hlast⟩ := exists_path_to hs hnames hwalk (k := [46, 46]) (by decide) (by simp)
    obtain ⟨u, hu⟩ := Option.isSome_iff_exists.mp hout.found
    have hres : resolveBy (ofCaller fs) t fs path = some u := by
      rw [resolveBy, hdir, Option.bind_some, hlast, if_neg (by simp), lookBy_dotdot hout.away hout.covers]
      exact hu
    -- the walk to `d` is inside, and the next step is not
    have hd : Inside fs t.root d := by
      rcases dirNamei_eq R h0 with ⟨g, -, -, hdir'⟩ | ⟨e, he, -, -, hdir'⟩ | ⟨-, hstuck⟩
      · cases hdir'.symm.trans hdir
      · obtain rfl := Option.some.inj (hdir'.symm.trans hdir)
        exact (hclaim path h0).2 _ _ _ he
      · exact absurd hstuck.full hroom
    rcases namei_eq R h0 with ⟨g, -, -, hres'⟩ | ⟨i, hi, -, hres'⟩ | ⟨-, hstuck⟩
    · cases hres'.symm.trans hres
    · obtain rfl := Option.some.inj (hres'.symm.trans hres)
      exact hout.outside R T hd hu ((hclaim path h0).1 _ _ hi)
    · exact absurd hstuck.full hroom
  · intro hcond path h0
    constructor
    · intro i g hn
      rcases namei_eq R h0 with ⟨g', hn', -, -⟩ | ⟨j, hn', hroom, hres⟩ | ⟨hn', -⟩
      · cases hn'.symm.trans hn
      · cases hn'.symm.trans hn
        rcases hcond with hleak | hfull
        · obtain ⟨d, hdir, hlast⟩ := Option.bind_eq_some_iff.mp hres
          obtain ⟨hd, hout, hpass⟩ := dirBy_inside R T hpwd hleak h0 hdir
          split at hlast
          · exact Option.some.inj hlast ▸ hd
          · exact lookBy_inside R T hout hd hpass hlast
        · rw [(hroom.resolve_left (by rw [hfull]; exact Bool.false_ne_true)).2]
          exact start_inside hpwd path
      · cases hn'.symm.trans hn
    · intro d name g hn
      rcases dirNamei_eq R h0 with ⟨g', hn', -, -⟩ | ⟨e, hn', -, hroom, hdir⟩ | ⟨hn', -⟩
      · cases hn'.symm.trans hn
      · cases hn'.symm.trans hn
        rcases hcond with hleak | hfull
        · exact (dirBy_inside R T hpwd hleak h0 hdir).1
        · rw [hroom.resolve_left (by rw [hfull]; exact Bool.false_ne_true)]
          exact start_inside hpwd path
      · cases hn'.symm.trans hn

/-! ## A root that something is mounted on -/

/-- The root and the working directory of the task is the directory that device 2 is mounted on. -/
def jailTask : Task := ⟨0, 0, ⟨1, 2⟩, ⟨1, 2⟩⟩

/-- In the directory `m`, on which device 2 is mounted, `..` comes second. -/
def jailTree : State := mountTree [entry 2 [46], entry 1 [46, 46], entry 3 [120]]

/-- The entries of `jailTree`: directory, name and inode. -/
def jailEntries : List (Id × List Byte × Id) :=
  [(⟨1, 1⟩, [46], ⟨1, 1⟩), (⟨1, 1⟩, [46, 46], ⟨1, 1⟩), (⟨1, 1⟩, [109], ⟨1, 2⟩),
    (⟨1, 2⟩, [46], ⟨1, 2⟩), (⟨1, 2⟩, [46, 46], ⟨1, 1⟩), (⟨1, 2⟩, [120], ⟨1, 3⟩),
    (⟨2, 1⟩, [46], ⟨2, 1⟩), (⟨2, 1⟩, [46, 46], ⟨2, 1⟩)]

/-- The directories of `jailTree`. -/
def jailDirs : List Id := [⟨1, 1⟩, ⟨1, 2⟩, ⟨2, 1⟩]

theorem jailTree_zero (h : d ∉ jailDirs) : jailTree.inode d = .zero := by
  simp only [jailDirs, List.mem_cons, List.not_mem_nil, or_false, not_or] at h
  simp only [jailTree, mountTree, if_neg h.1, if_neg h.2.1, if_neg h.2.2]

theorem jailTree_entry {name : List Byte} (h : Entry jailTree d name i) :
    (d, name, i) ∈ jailEntries := by
  obtain ⟨j, hj, e, he, hname, rfl⟩ := h
  have hchars : e.2.chars = name := (of_decide_eq_true hname).2
  subst hchars
  have hall : ∀ d ∈ jailDirs, ∀ j < (jailTree.inode d).size / 16,
      (entryAt jailTree d j).all fun e => (d, e.2.chars, ⟨d.dev, e.2.inodenr⟩) ∈ jailEntries := by
    decide +kernel
  have hdir : d ∈ jailDirs := by
    by_contra hd
    rw [jailTree_zero hd] at hj
    exact absurd hj (Nat.not_lt_zero j)
  have := hall d hdir j hj
  rw [he] at this
  exact of_decide_eq_true this

theorem jailTree_child (h : Child jailTree d k) :
    d = ⟨1, 1⟩ ∧ k = ⟨1, 2⟩ ∨ d = ⟨1, 2⟩ ∧ k = ⟨1, 3⟩ := by
  obtain ⟨-, name, h1, h2, hentry⟩ := h
  have hall : ∀ e ∈ jailEntries, e.2.1 = [46] ∨ e.2.1 = [46, 46] ∨
      e.1 = ⟨1, 1⟩ ∧ e.2.2 = ⟨1, 2⟩ ∨ e.1 = ⟨1, 2⟩ ∧ e.2.2 = ⟨1, 3⟩ := by decide
  exact ((hall _ (jailTree_entry hentry)).resolve_left h1).resolve_left h2

/-- Nothing leads to the root of the first device. -/
theorem jailTree_top (p : Id) : ¬ (Child jailTree p ⟨1, 1⟩ ∨ MountEdge jailTree p ⟨1, 1⟩) := by
  rintro (hchild | ⟨hcovered, n, hn, hk⟩)
  · rcases jailTree_child hchild with ⟨-, h⟩ | ⟨-, h⟩ <;> exact absurd h (by decide)
  · have hdev : (jailTree.superBlock n).dev = 1 := (congrArg Id.dev hk).symm
    have hp := mountedOn_some hn
    by_cases h0 : n = 0
    · subst h0
      obtain rfl : ⟨1, 1⟩ = p := Option.some.inj hp
      cases hcovered
    · simp only [jailTree, mountTree, if_neg h0] at hdev
      split at hdev <;> exact absurd hdev (by decide)

theorem jailTree_tree : Tree jailTree where
  self d i _ h := by
    have hall : ∀ e ∈ jailEntries, e.2.1 = [46] → e.2.2 = e.1 := by decide
    exact hall _ (jailTree_entry h) rfl
  parent d i p hdir hnum h := by
    have hall : ∀ e ∈ jailEntries, e.2.1 = [46, 46] → e.1 = ⟨1, 2⟩ → e.2.2 = ⟨1, 1⟩ := by decide
    have hdirs : ∀ d ∈ jailDirs, d.num ≠ 1 → d = ⟨1, 2⟩ := by decide
    have hd : d ∈ jailDirs := by
      by_contra hd
      rw [jailTree_zero hd] at hdir
      cases hdir
    obtain rfl := hdirs d hd hnum
    obtain rfl := hall _ (jailTree_entry h) rfl rfl
    constructor
    · intro hchild
      rcases jailTree_child hchild with ⟨rfl, -⟩ | ⟨-, hk⟩
      · rfl
      · exact absurd hk (by decide)
    · rintro rfl
      exact ⟨by decide, [109], by decide, by decide, 2, by decide +kernel, ⟨10, entry 2 [109]⟩, rfl,
        by decide +kernel, rfl⟩
  acyclic d k hchild := by
    have hbelow : ∀ j, Inside jailTree ⟨1, 2⟩ j → j ≠ ⟨1, 1⟩ := by
      intro j hj
      rcases Relation.ReflTransGen.cases_tail hj with rfl | ⟨p, -, hp⟩
      · decide
      · exact fun h => jailTree_top p (h ▸ hp)
    have hleaf : ∀ j, Inside jailTree ⟨1, 3⟩ j → j = ⟨1, 3⟩ := by
      intro j hj
      refine Relation.ReflTransGen.head_induction_on (motive := fun i _ => i = ⟨1, 3⟩ → j = ⟨1, 3⟩) hj
        id (fun hstep _ _ hi => ?_) rfl
      subst hi
      rcases hstep with hchild | ⟨hmount, -⟩
      · rcases jailTree_child hchild with ⟨h, -⟩ | ⟨h, -⟩ <;> exact absurd h (by decide)
      · cases hmount
    rcases jailTree_child hchild with ⟨rfl, rfl⟩ | ⟨rfl, rfl⟩
    · exact fun h => hbelow _ h rfl
    · exact fun h => absurd (hleaf _ h) (by decide)
  dotdot d hdir := by
    have hall : ∀ d ∈ jailDirs, 1 < (jailTree.inode d).size / 16 ∧
        (entryAt jailTree d 1).any fun e => e.2.named [46, 46] := by decide +kernel
    have hd : d ∈ jailDirs := by
      by_contra hd
      rw [jailTree_zero hd] at hdir
      cases hdir
    obtain ⟨hlt, hany⟩ := hall d hd
    obtain ⟨e, he, hname⟩ := (Option.any_eq_true ..).mp hany
    exact ⟨_, 1, hlt, e, he, hname, rfl⟩
  root d k h := by
    rcases jailTree_child h with ⟨-, rfl⟩ | ⟨-, rfl⟩
    · exact (by decide : (2 : Inode.Num) ≠ 1)
    · exact (by decide : (3 : Inode.Num) ≠ 1)
  super := by
    have hall : ∀ k < 8, ∀ n < 8, (jailTree.superBlock n).dev ≠ 0 →
        (jailTree.superBlock k).dev = (jailTree.superBlock n).dev → k = n := by decide
    exact fun k n hk hn => hall k hk n hn

theorem jailTree_ready : Ready jailTask jailTree :=
  { mountTree_ready _ with
    root := ⟨by decide, by simp [jailTask, jailTree, mountTree]⟩
    pwd := ⟨by decide, by simp [jailTask, jailTree, mountTree]⟩ }

theorem namei_inside_mount :
    (∀ i g, namei rootTask jailTree [109, 47, 46, 46] = some (some i, g) →
        Inside jailTree rootTask.root i) ∧
      ∀ d name g, dirNamei rootTask jailTree [109, 47, 46, 46] = some (some (d, name), g) →
        Inside jailTree rootTask.root d :=
  (namei_inside (mountTree_ready _) jailTree_tree .refl).mpr
    (.inl (not_leak (mountTree_ready _) jailTree_tree .refl rfl)) _ (by decide)

/-- `/.` is the root of what is mounted on the task's root, and `..` leads from there to the directory above
the task's root. -/
theorem namei_leaves_root : ¬ ∀ t fs path, Ready t fs → Tree fs → Inside fs t.root t.pwd → 0 ∉ path →
    ∀ i g, namei t fs path = some (some i, g) → Inside fs t.root i := by
  intro hclaim
  have hcode : (namei jailTask jailTree [47, 46, 47, 46, 46]).map Prod.fst = some (some ⟨1, 1⟩) := by
    decide +kernel
  obtain ⟨⟨i, g⟩, hn, hi⟩ := Option.map_eq_some_iff.mp hcode
  obtain rfl : i = some ⟨1, 1⟩ := hi
  have hin := hclaim jailTask jailTree _ jailTree_ready jailTree_tree .refl (by decide) _ g hn
  rcases Relation.ReflTransGen.cases_tail hin with heq | ⟨p, -, hp⟩
  · exact absurd heq (by decide)
  · exact jailTree_top p hp

end Linux011.Fs
