import Linux011.Fs.Resolve

/-!
# The reference walk

What a path means: a walk from the root or the working directory, one directory for each name, with
`..` as a `.` in the task's root and over the mount point in the root of a mounted file system.

`find_entry` counts the entries of the directory it is called with, and then exchanges the directory
at a mount point. So over a mount point it looks at as many entries of the one directory as the other
one has. And `iget` asks for a free entry of the inode table for every name that is found, also for an
inode that is in the table. The code resolves every path as the walk does if and only if the one makes no
difference anywhere a walk comes, and the other none where walks start; where every directory begins with
`.` and `..`, the number of entries makes none.
-/

namespace Linux011.Fs

open Inode (Dev)

variable {fs : State} {t : Task} {d m s : Id}

/-- The entries of the directory in which the name is looked up. -/
def ofPlace (fs : State) (_ m : Id) : Nat := (fs.inode m).size / 16

/-- The inode a path stands for. -/
def reference (t : Task) (fs : State) (path : List Byte) : Option Id :=
  resolveBy (ofPlace fs) t fs path

/-- `namei` returns the inode the path stands for. When there is none, every `i_count` and `b_count`
is as it was; otherwise there is one more reference to the inode, and nothing else has changed. -/
def Resolves (t : Task) (fs : State) (path : List Byte) : Prop :=
  ∃ r g, namei t fs path = some (r, g) ∧ r = reference t fs path ∧
    (r = none → SameCounts fs g) ∧ ∀ i, r = some i → g = fs.hold i

/-- A name in a path. -/
def IsName (name : List Byte) : Prop := 47 ∉ name ∧ 0 ∉ name

instance (name : List Byte) : Decidable (IsName name) := inferInstanceAs (Decidable (_ ∧ _))

/-- The inode that `..` leads to, among the first `n` entries of the directory. -/
def parentAmong (fs : State) (m : Id) (n : Nat) : Option Id :=
  (firstEntry fs m n (DirEntry.named [46, 46])).map fun e => cross fs ⟨m.dev, e.2.inodenr⟩

/-- Wherever a walk comes to the root `d` of a file system mounted on `m`, `..` in `m` leads to the
same inode among as many entries as `d` has and among those of `m`. -/
def MountsAgree (t : Task) (fs : State) : Prop :=
  ∀ s names d m, s = t.root ∨ s = t.pwd → (∀ name ∈ names, IsName name) →
    Lib.walkTo (mayPass t fs) (lookBy (ofPlace fs) t fs) s names = some d →
    d ≠ t.root → mountPoint fs d = some m →
      parentAmong fs m ((fs.inode d).size / 16) = parentAmong fs m ((fs.inode m).size / 16)

/-- There is a free entry of the inode table, if any name is found where a walk starts. -/
def TableFits (t : Task) (fs : State) : Prop :=
  ∀ s name, s = t.root ∨ s = t.pwd → IsName name → mayPass t fs s = true →
    (lookBy (ofPlace fs) t fs s name).isSome → fs.room = true

/-! ## Where the two lookups differ -/

theorem take_eq_dotdot {name : List Byte} (h : name.take 14 = [46, 46]) : name = [46, 46] := by
  have hlen := congrArg List.length h
  rw [List.length_take] at hlen
  have hshort : name.length ≤ 14 := by
    simp only [List.length_cons, List.length_nil] at hlen
    omega
  rw [← List.take_of_length_le hshort]
  exact h

/-- The lookups agree, but for `..` over a mount point. -/
theorem lookBy_eq {name : List Byte} (h : name = [46, 46] → d ≠ t.root → ∀ m,
      mountPoint fs d = some m → parentAmong fs m ((fs.inode d).size / 16) =
        parentAmong fs m ((fs.inode m).size / 16)) :
    lookBy (ofPlace fs) t fs d name = lookBy (ofCaller fs) t fs d name := by
  unfold lookBy place
  split
  · rfl
  · by_cases hdot : name.take 14 = [46, 46]
    · simp only [if_pos hdot]
      by_cases hroot : d = t.root
      · simp only [if_pos hroot]
        rfl
      · simp only [if_neg hroot]
        cases hm : mountPoint fs d with
        | none => rfl
        | some m =>
          dsimp only
          rw [hdot]
          exact (h (take_eq_dotdot hdot) hroot m hm).symm
    · simp only [if_neg hdot]
      rfl

theorem lookBy_dotdot {entries : Id → Id → Nat} (hroot : d ≠ t.root) (hm : mountPoint fs d = some m) :
    lookBy entries t fs d [46, 46] = parentAmong fs m (entries d m) := by
  unfold lookBy place
  rw [if_neg (by simp)]
  have htake : ([46, 46] : List Byte).take 14 = [46, 46] := rfl
  simp only [htake, if_true, if_neg hroot, hm]
  rfl

/-! ## Paths of names -/

/-- Every walk along names, the first of them not empty, is that of a path. -/
theorem exists_path (t : Task) {names : List (List Byte)} (hs : s = t.root ∨ s = t.pwd)
    (hne : names ≠ []) (hfirst : names.head? ≠ some []) (hnames : ∀ name ∈ names, IsName name) :
    ∃ path, 0 ∉ path ∧ path ≠ [] ∧ (startOf t path).1 = s ∧
      (startOf t path).2.splitOn 47 = names := by
  have hsplit : (([47] : List Byte).intercalate names).splitOn 47 = names :=
    List.splitOn_intercalate 47 (fun l hl => (hnames l hl).1) hne
  have h0 : 0 ∉ ([47] : List Byte).intercalate names := by
    intro h
    rcases Lib.mem_intercalate 47 h with h | ⟨k, hk, h⟩
    · cases h
    · exact (hnames k hk).2 h
  rcases hs with rfl | rfl
  · refine ⟨47 :: ([47] : List Byte).intercalate names, ?_, List.cons_ne_nil _ _, rfl, hsplit⟩
    rw [List.mem_cons, not_or]
    exact ⟨nofun, h0⟩
  · -- the path begins with the first letter of the first name
    obtain ⟨c, p, hp, hc⟩ : ∃ c p, ([47] : List Byte).intercalate names = c :: p ∧ c ≠ 47 := by
      match names, hne with
      | [] :: _, _ => exact absurd rfl hfirst
      | (c :: k) :: ks, _ =>
        have hc : c ≠ 47 := fun h => (hnames (c :: k) List.mem_cons_self).1 (h ▸ List.mem_cons_self)
        match ks with
        | [] => exact ⟨c, k, List.intercalate_singleton, hc⟩
        | k' :: ks => exact ⟨c, k ++ 47 :: ([47] : List Byte).intercalate (k' :: ks), by
            rw [List.intercalate_cons_cons]; simp, hc⟩
    refine ⟨([47] : List Byte).intercalate names, h0, by rw [hp]; exact List.cons_ne_nil _ _, ?_, ?_⟩
    · rw [hp, startOf, if_neg hc]
    · rw [hp, startOf, if_neg hc, ← hp, hsplit]

/-! ## The two directions -/

theorem dirBy_eq {entries : Id → Id → Nat} {path : List Byte} {names : List (List Byte)}
    (hne : path ≠ []) (hstart : (startOf t path).1 = s) (hnames : (startOf t path).2.splitOn 47 = names) :
    dirBy entries t fs path = Lib.walkTo (mayPass t fs) (lookBy entries t fs) s names := by
  rw [dirBy, if_neg hne, hstart, hnames]

/-- The names of a path are names. -/
theorem names_of_path {path : List Byte} (h0 : 0 ∉ path) :
    ∀ name ∈ (startOf t path).2.splitOn 47, IsName name := by
  have hrest : 0 ∉ (startOf t path).2 := by
    unfold startOf
    match path with
    | [] => exact h0
    | c :: p =>
      dsimp only
      split
      · exact fun h => h0 (List.mem_cons_of_mem c h)
      · exact h0
  intro name hname
  obtain ⟨hslash, hmem⟩ := Lib.mem_splitOn 47 hname
  exact ⟨hslash, fun h => hrest (hmem 0 h)⟩

theorem startOf_start (t : Task) (path : List Byte) :
    (startOf t path).1 = t.root ∨ (startOf t path).1 = t.pwd := by
  unfold startOf
  match path with
  | [] => exact Or.inr rfl
  | c :: p =>
    dsimp only
    split
    · exact Or.inl rfl
    · exact Or.inr rfl

theorem MountsAgree.lookBy_eq (A : MountsAgree t fs) {names : List (List Byte)} {name : List Byte}
    (hs : s = t.root ∨ s = t.pwd) (hnames : ∀ name ∈ names, IsName name)
    (hd : Lib.walkTo (mayPass t fs) (lookBy (ofPlace fs) t fs) s names = some d) :
    lookBy (ofPlace fs) t fs d name = lookBy (ofCaller fs) t fs d name :=
  Fs.lookBy_eq fun _ hroot m hm => A s names d m hs hnames hd hroot hm

/-- Where the lookups agree, the walks do. -/
theorem MountsAgree.resolveBy_eq (A : MountsAgree t fs) {path : List Byte} (h0 : 0 ∉ path) :
    resolveBy (ofCaller fs) t fs path = reference t fs path := by
  have hnames := names_of_path (t := t) h0
  have hs := startOf_start t path
  have hdir : dirBy (ofCaller fs) t fs path = dirBy (ofPlace fs) t fs path := by
    unfold dirBy
    split
    · rfl
    · refine (Lib.walkTo_congr fun pre k suf hsuf _ d hd => ?_).symm
      refine A.lookBy_eq hs (fun name hname => hnames name ?_) hd
      rw [hsuf]
      rcases List.mem_append.mp hname with h | h
      · exact List.mem_append_left _ h
      · rw [List.mem_singleton.mp h]
        exact List.mem_append_right _ List.mem_cons_self
  unfold reference resolveBy
  rw [hdir]
  cases hd : dirBy (ofPlace fs) t fs path with
  | none => rfl
  | some d =>
    dsimp only [Option.bind_some]
    split
    · rfl
    · unfold dirBy at hd
      split at hd
      · cases hd
      · exact (A.lookBy_eq hs hnames hd).symm

theorem resolves_imp (R : Ready t fs) {path : List Byte} (h0 : 0 ∉ path) (h : Resolves t fs path) :
    resolveBy (ofCaller fs) t fs path = reference t fs path := by
  obtain ⟨r, g, hn, hr, -, -⟩ := h
  rcases namei_eq R h0 with ⟨g', hn', -, hres⟩ | ⟨i, hn', -, hres⟩ | ⟨hn', -⟩
  · rw [hn'] at hn
    rw [hres, ← hr]
    exact (congrArg Prod.fst (Option.some.inj hn))
  · rw [hn'] at hn
    rw [hres, ← hr]
    exact (congrArg Prod.fst (Option.some.inj hn))
  · cases hn'.symm.trans hn

theorem resolves_of_eq (R : Ready t fs) {path : List Byte} (h0 : 0 ∉ path)
    (hfree : ¬ Stuck t fs (startOf t path).1 ((startOf t path).2.splitOn 47))
    (heq : resolveBy (ofCaller fs) t fs path = reference t fs path) : Resolves t fs path := by
  rcases namei_eq R h0 with ⟨g, hn, hsame, hres⟩ | ⟨i, hn, -, hres⟩ | ⟨-, hstuck⟩
  · exact ⟨none, g, hn, hres ▸ heq, fun _ => hsame, nofun⟩
  · exact ⟨some i, fs.hold i, hn, hres ▸ heq, nofun, fun j hj => by rw [Option.some.inj hj]⟩
  · exact absurd hstuck hfree

/-- Where there is room, or nothing to be found, no walk is stuck. -/
theorem TableFits.not_stuck (F : TableFits t fs) (A : MountsAgree t fs) {path : List Byte} (h0 : 0 ∉ path) :
    ¬ Stuck t fs (startOf t path).1 ((startOf t path).2.splitOn 47) := by
  rintro ⟨hfull, hpass, name, hmem, hfound⟩
  have hname := names_of_path (t := t) h0 name hmem
  have hs := startOf_start t path
  have hwalk : Lib.walkTo (mayPass t fs) (lookBy (ofPlace fs) t fs) (startOf t path).1 [name] =
      some (startOf t path).1 := if_pos hpass
  rw [← A.lookBy_eq hs (by simpa using hname) hwalk] at hfound
  rw [F _ name hs hname hpass hfound] at hfull
  cases hfull

/-- A path for every name in every directory a walk comes to. -/
theorem resolveBy_snoc {entries : Id → Id → Nat} {path : List Byte} {pre : List (List Byte)}
    {name : List Byte} (hne : path ≠ []) (hstart : (startOf t path).1 = s)
    (hsplit : (startOf t path).2.splitOn 47 = pre ++ [name]) :
    resolveBy entries t fs path =
      (Lib.walkTo (mayPass t fs) (lookBy entries t fs) s (pre ++ [name])).bind fun d =>
        if name = [] then some d else lookBy entries t fs d name := by
  have hlast : lastName t path = name := by
    unfold lastName
    simp only [hsplit, List.getLast_append_singleton]
  rw [resolveBy, dirBy_eq hne hstart hsplit, hlast]

theorem mountsAgree_of_resolves (R : Ready t fs)
    (h : ∀ path, 0 ∉ path → Resolves t fs path) : MountsAgree t fs := by
  intro s names d m hs hnames hd hroot hm
  -- the walk to `d` with any last name
  obtain ⟨pre, last, rfl⟩ : ∃ pre last, names = pre ++ [last] := by
    rcases List.eq_nil_or_concat names with rfl | ⟨pre, last, rfl⟩
    · cases hd
    · exact ⟨pre, last, List.concat_eq_append⟩
  have hpre : ∀ name ∈ pre, IsName name := fun name hn => hnames name (List.mem_append_left _ hn)
  have hwalk : ∀ k, Lib.walkTo (mayPass t fs) (lookBy (ofPlace fs) t fs) s (pre ++ [k]) = some d :=
    fun k => (Lib.walkTo_concat s k last pre).trans hd
  have hhead : pre.head? ≠ some [] := by
    match pre, hd with
    | [], _ => nofun
    | k :: ks, hd =>
      intro hk
      rw [List.head?_cons, Option.some.injEq] at hk
      subst hk
      rw [List.cons_append, Lib.walkTo_cons _ _ (List.concat_ne_nil _ _)] at hd
      split at hd
      · cases hd
      · cases hd
  -- every last name gives a path, and the code and the walk resolve it alike
  have hpath : ∀ k, IsName k → (pre ++ [k]).head? ≠ some [] →
      ((Lib.walkTo (mayPass t fs) (lookBy (ofCaller fs) t fs) s (pre ++ [k])).bind fun e =>
        if k = [] then some e else lookBy (ofCaller fs) t fs e k) =
      if k = [] then some d else lookBy (ofPlace fs) t fs d k := by
    intro k hk hfirst
    obtain ⟨path, h0, hne, hstart, hsplit⟩ := exists_path t hs (List.concat_ne_nil k pre) hfirst
      fun name hn => (List.mem_append.mp hn).elim (hpre name) fun h => List.mem_singleton.mp h ▸ hk
    have heq := resolves_imp R h0 (h path h0)
    rw [reference, resolveBy_snoc hne hstart hsplit, resolveBy_snoc hne hstart hsplit, hwalk k] at heq
    exact heq
  have hcode : ∀ k, Lib.walkTo (mayPass t fs) (lookBy (ofCaller fs) t fs) s (pre ++ [k]) = some d := by
    intro k
    cases pre with
    | nil => exact hwalk k
    | cons j pre =>
      have hdir := hpath [] ⟨nofun, nofun⟩ hhead
      rw [if_pos rfl] at hdir
      obtain ⟨e, he, hed⟩ := Option.bind_eq_some_iff.mp hdir
      rw [if_pos rfl] at hed
      rw [Lib.walkTo_concat s k [] (j :: pre), he, hed]
  have hfirst : (pre ++ [[46, 46]]).head? ≠ some [] := by
    cases pre with
    | nil => nofun
    | cons j pre => exact hhead
  have hparent := hpath [46, 46] (by decide) hfirst
  rw [hcode, Option.bind_some, if_neg (by simp), if_neg (by simp), lookBy_dotdot hroot hm,
    lookBy_dotdot hroot hm] at hparent
  exact hparent

/-- A path of one name that is found takes an entry of the table. -/
theorem tableFits_of_resolves (R : Ready t fs)
    (h : ∀ path, 0 ∉ path → Resolves t fs path) : TableFits t fs := by
  intro s name hs hname hpass hfound
  have hne : name ≠ [] := by
    rintro rfl
    cases hfound
  obtain ⟨path, h0, hpath, hstart, hsplit⟩ := exists_path t hs (List.cons_ne_nil name [])
    (fun hhead => hne (Option.some.inj hhead)) fun k hk => List.mem_singleton.mp hk ▸ hname
  have hlast : lastName t path = name := by
    unfold lastName
    simp only [hsplit, List.getLast_singleton]
  have hres : reference t fs path = lookBy (ofPlace fs) t fs s name := by
    have hwalk : Lib.walkTo (mayPass t fs) (lookBy (ofPlace fs) t fs) s ([] ++ [name]) = some s := if_pos hpass
    have hsplit' : (startOf t path).2.splitOn 47 = [] ++ [name] := hsplit
    rw [reference, resolveBy_snoc hpath hstart hsplit', hwalk, Option.bind_some, if_neg hne]
  obtain ⟨r, g, hn, hr, -, -⟩ := h path h0
  rw [hres] at hr
  rcases namei_eq R h0 with ⟨g', hn', -, -⟩ | ⟨i, -, hroom, -⟩ | ⟨hn', -⟩
  · rw [hn'] at hn
    cases hn
    rw [← hr] at hfound
    cases hfound
  · exact hroom.resolve_right fun h => hne (hlast ▸ h.1)
  · cases hn'.symm.trans hn

/-! ## Directories that begin with `.` and `..` -/

/-- From the first entry on that fits, it does not matter how many there are. -/
theorem firstEntry_reach {p : DirEntry → Bool} {j n : Nat} (h : (hit fs m p j).isSome)
    (hn : j < n) :
    firstEntry fs m n p = firstEntry fs m (j + 1) p := by
  obtain ⟨k, rfl⟩ := Nat.exists_eq_add_of_le (Nat.succ_le_of_lt hn)
  rw [firstEntry, List.range_add, List.findSome?_append, ← firstEntry]
  cases hfirst : firstEntry fs m (j + 1) p with
  | some e => rfl
  | none =>
    rw [firstEntry, List.findSome?_eq_none_iff] at hfirst
    rw [hfirst j (List.mem_range.mpr (Nat.lt_succ_self j))] at h
    cases h

/-- Where both directories have the entry for `..` in reach, the lookups agree. -/
theorem mountsAgree_of_reach (h : ∀ d m, mountPoint fs d = some m → ∃ j,
    (hit fs m (DirEntry.named [46, 46]) j).isSome ∧ j < (fs.inode d).size / 16 ∧
      j < (fs.inode m).size / 16) : MountsAgree t fs := by
  intro s names d m _ _ _ _ hm
  obtain ⟨j, hj, hd, hm⟩ := h d m hm
  rw [parentAmong, parentAmong, firstEntry_reach hj hd, firstEntry_reach hj hm]

/-- `namei` resolves every path as the walk does if and only if, wherever the walk comes over a
mount point, both directories have the entry for `..` in reach or neither has, and the inode table has
room for the first name that is found. -/
theorem namei_reference (R : Ready t fs) :
    (∀ path, 0 ∉ path → Resolves t fs path) ↔ MountsAgree t fs ∧ TableFits t fs := by
  constructor
  · intro h
    exact ⟨mountsAgree_of_resolves R h, tableFits_of_resolves R h⟩
  · rintro ⟨A, F⟩ path h0
    exact resolves_of_eq R h0 (F.not_stuck A h0) (A.resolveBy_eq h0)

/-! ## Two file systems -/

/-- An entry with a number and a name. -/
def entry (n : Inode.Num) (name : List Byte) : DirEntry := ⟨n, fun i => name.getD i 0⟩

/-- A directory of one block. -/
def directory (size : Nat) (block : Block) (mount : Bool) : MInode :=
  ⟨0o040755#16, 0, 0, 2, size, fun b => if b = 0 then block else 0, mount⟩

theorem directory_solid (size : Nat) (block : Block) (mount : Bool) :
    Solid (directory size block mount) := by
  intro h b
  show (if b = 0 then block else 0) = 0
  split
  · exact h
  · rfl

theorem directory_isDir (size : Nat) (block : Block) (mount : Bool) :
    (directory size block mount).isDir = true := decide_eq_true (by
  show (0o040755#16 &&& 0o170000#16 : BitVec 16) = 0o040000#16
  decide)

/-- The root of device 1 with a directory `m`, whose entries are `es`, and device 2 mounted on it. -/
def mountTree (es : List DirEntry) : State where
  inode i :=
    if i = ⟨1, 1⟩ then directory 48 10 false
    else if i = ⟨1, 2⟩ then directory (16 * es.length) 11 true
    else if i = ⟨2, 1⟩ then directory 32 5 false
    else .zero
  count := DFinsupp.single ⟨1, 1⟩ 4 + DFinsupp.single ⟨1, 2⟩ 2 + DFinsupp.single ⟨2, 1⟩ 1
  superBlock k := if k = 0 then ⟨1, some ⟨1, 1⟩⟩ else if k = 1 then ⟨2, some ⟨1, 2⟩⟩ else ⟨0, none⟩
  dirBlock _ block j :=
    let es := if block = 11 then es
      else if block = 10 then [entry 1 [46], entry 1 [46, 46], entry 2 [109]]
      else [entry 1 [46], entry 1 [46, 46]]
    es.getD j (entry 0 [])
  bcount _ _ := 0

/-- The superuser at the root. -/
def rootTask : Task := ⟨0, 0, ⟨1, 1⟩, ⟨1, 1⟩⟩

theorem mountTree_ready (es : List DirEntry) : Ready rootTask (mountTree es) := by
  have hroot : 0 < (mountTree es).count ⟨1, 1⟩ := by simp [mountTree]
  have hdir : 0 < (mountTree es).count ⟨1, 2⟩ := by simp [mountTree]
  have hrootDir : ((mountTree es).inode ⟨1, 1⟩).isDir = true := directory_isDir 48 10 false
  have hdirDir : ((mountTree es).inode ⟨1, 2⟩).isDir = true := directory_isDir _ 11 true
  refine ⟨fun i _ => ?_, fun i hi => ?_, fun k m hk => ?_, fun k m hk => ?_, ⟨by decide, hroot⟩,
    ⟨by decide, hroot⟩⟩
  · simp only [mountTree]
    split
    · exact directory_solid 48 10 false
    · split
      · exact directory_solid _ 11 true
      · split
        · exact directory_solid 32 5 false
        · exact fun _ _ => rfl
  · simp only [mountTree] at hi ⊢
    split at hi
    · cases hi
    · next h1 =>
      split at hi
      · next h2 =>
        rw [h2]
        exact ⟨by decide, hdir⟩
      · split at hi <;> cases hi
  · simp only [mountTree] at hk ⊢
    split at hk
    · next h0 => rw [if_pos h0]; exact (by decide : (1 : Dev) ≠ 0)
    · next h0 =>
      split at hk
      · next h1 => rw [if_neg h0, if_pos h1]; exact (by decide : (2 : Dev) ≠ 0)
      · cases hk
  · simp only [mountTree] at hk
    split at hk
    · cases hk
      exact ⟨by decide, hroot, hrootDir⟩
    · split at hk
      · cases hk
        exact ⟨by decide, hdir, hdirDir⟩
      · cases hk

/-- Three entries of the table are in use. -/
theorem mountTree_room (es : List DirEntry) : (mountTree es).room = true := by
  have hroom : (mountTree []).room = true := by decide +kernel
  exact hroom

/-- In the mounted-on directory `..` comes third; the mounted root has two entries. -/
theorem namei_misses : ¬ ∀ t fs path, Ready t fs → fs.room = true → 0 ∉ path → Resolves t fs path := by
  intro hclaim
  have hready := mountTree_ready [entry 2 [46], entry 3 [120], entry 1 [46, 46]]
  obtain ⟨r, g, hn, hr, -, -⟩ := hclaim rootTask _ [109, 47, 46, 46] hready (mountTree_room _) (by decide)
  have hcode : (namei rootTask (mountTree [entry 2 [46], entry 3 [120], entry 1 [46, 46]])
      [109, 47, 46, 46]).map Prod.fst = some none := by decide +kernel
  have hwalk : reference rootTask (mountTree [entry 2 [46], entry 3 [120], entry 1 [46, 46]])
      [109, 47, 46, 46] = some ⟨1, 1⟩ := by decide +kernel
  rw [hn, hr, hwalk] at hcode
  cases hcode

/-- Here `..` comes second, as it should. -/
theorem mountTree_agree : MountsAgree rootTask
    (mountTree [entry 2 [46], entry 1 [46, 46], entry 3 [120]]) := by
  refine mountsAgree_of_reach fun d m hm => ⟨1, ?_⟩
  obtain ⟨hnum, k, -, hdev, hk⟩ := mountPoint_spec hm
  obtain ⟨dev, num⟩ := d
  obtain rfl : num = 1 := hnum
  simp only [mountTree] at hdev hk
  split at hdev
  · next h0 =>
    rw [if_pos h0] at hk
    cases hk
    obtain rfl : 1 = dev := hdev
    exact ⟨by decide, by decide, by decide⟩
  · next h0 =>
    rw [if_neg h0] at hk
    split at hdev
    · next h1 =>
      rw [if_pos h1] at hk
      cases hk
      obtain rfl : 2 = dev := hdev
      exact ⟨by decide, by decide, by decide⟩
    · next h1 =>
      rw [if_neg h1] at hk
      cases hk

theorem namei_reference_mount : Resolves rootTask
    (mountTree [entry 2 [46], entry 1 [46, 46], entry 3 [120]]) [109, 47, 46, 46] :=
  (namei_reference (mountTree_ready _)).mpr ⟨mountTree_agree, fun _ _ _ _ _ _ => mountTree_room _⟩ _ (by decide)

end Linux011.Fs
