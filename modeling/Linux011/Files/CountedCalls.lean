import Linux011.Files.Counts

/-!
# Calls on files and tasks keep the counts

One lemma for each call: what it takes it puts into a table or gives back, on every path. `fork` counts each
descriptor of the new task, but takes only the inodes of the task itself; a pipe has two entries, and so its
inode two references from the start.
-/

namespace Linux011.Files

open Fs (Id Byte Block MInode DirEntry)
open Inode (Dev)

variable {k k' : Kernel} {cur : Fin 64} {t t' : Task} {f : Fin 64} {i j dir : Id} {r xs ys : Multiset Id}
  {fs fs' : Fs.State} {v v' : Volume} {me : Fs.Task} {res : Int ⊕ Id × Opened} {e : Int}

/-! ## `open_namei` -/

/-- The reference that `open_namei` returns. -/
def returned : Int ⊕ Id × Opened → Multiset Id
  | .inl _ => 0
  | .inr (i, _) => {i}

/-- What `open_namei` has done when it returns `res`. Only `w` may have other contents than before: a
directory with a new entry, or the file that it returns, if it was told to empty it. -/
structure Found (me : Fs.Task) (v v' : Volume) (flag : BitVec 32) (res : Int ⊕ Id × Opened)
    (w : Option Id) : Prop where
  shift : Shift w 0 (returned res) v v'
  writes : ∀ j, w = some j → v.Live 0 j → (v.fs.inode j).isDir = true ∨
    res = .inr (j, ⟨flag, false, some (accMode (effective flag))⟩) ∧ effective flag &&& oTrunc ≠ 0
  opened : ∀ i o, res = .inr (i, o) → o.flag = flag ∧
    ((v'.fs.inode i).isDir = false → o.created = true ∨ o.passed = some (accMode (effective flag)))
  fresh : ∀ i o, res = .inr (i, o) → o.created = true → ¬ v.Live 0 i
  granted : ∀ i o m, res = .inr (i, o) → o.passed = some m → Fs.permission me i (v'.fs.inode i) m = true

/-- What `sys_open` writes down. -/
theorem Found.recorded {w : Option Id} {flag : BitVec 32} {o : Opened}
    (F : Found me v v' flag (.inr (i, o)) w) {mode : BitVec 16} :
    (⟨mode, flag.setWidth 16, 1, some i, 0, some o⟩ : File).Recorded v'.fs.inode := by
  intro j hj
  cases hj
  obtain ⟨hflag, hpassed⟩ := F.opened i o rfl
  subst hflag
  exact .inr ⟨o, rfl, rfl, hpassed⟩

theorem Found.failed {w : Option Id} {flag : BitVec 32} (S : Shift w 0 0 v v')
    (hw : ∀ j, w = some j → v.Live 0 j → (v.fs.inode j).isDir = true) : Found me v v' flag (.inl e) w :=
  ⟨S, fun j hj hlive => .inl (hw j hj hlive), nofun, nofun, nofun⟩

theorem isDir_of_mode {h h' : MInode} (hmode : h'.mode = h.mode) (hdir : h.isDir = true) :
    h'.isDir = true := by
  unfold MInode.isDir at hdir ⊢
  rwa [hmode]

theorem newInode_shift {dev : Dev} {n : Inode.Num} {w : Option Id} {v₀ : Volume} (S : Shift w 0 r v₀ v)
    (h : newInode me v dev n = some (i, v')) : Shift w 0 ({i} + r) v₀ v' ∧ ¬ v₀.Live 0 i := by
  unfold newInode at h
  dsimp only at h
  split at h
  · cases h
  · next hfree =>
    cases h
    simp only [not_or, not_not] at hfree
    obtain ⟨-, -, hcount, hlinks⟩ := hfree
    have hlive : ¬ v₀.Live 0 ⟨dev, n⟩ := fun hlive => by
      obtain h | h := S.live hlive
      · exact h hlinks
      · omega
    refine ⟨?_, hlive⟩
    have S₁ : ∀ h data, Shift w 0 r v₀ ⟨{ v.fs with inode := Function.update v.fs.inode ⟨dev, n⟩ h },
        Function.update v.data ⟨dev, n⟩ data⟩ := fun h data =>
      S.unused hlive rfl rfl (fun j hj => Function.update_of_ne hj ..)
        fun j hj => Function.update_of_ne hj ..
    exact (S₁ _ _).hold ⟨dev, n⟩

theorem createFile_found {basename : List Byte} {flag : BitVec 32} {mode : BitVec 16} {room : Room}
    {v₀ : Volume} (S : Shift none 0 ({dir} + 0) v₀ v) (hdir : (v.fs.inode dir).isDir = true)
    (h : createFile me v dir basename flag mode room = some (res, v')) :
    ∃ w, Found me v₀ v' flag res w := by
  have hfail : ∀ e, Found me v₀ { v with fs := v.fs.iput dir } flag (.inl e) none :=
    fun e => .failed S.iput nofun
  have hdir₀ : ∀ j, some dir = some j → v₀.Live 0 j → (v₀.fs.inode j).isDir = true := by
    intro j hj hlive
    cases hj
    exact isDir_of_mode (S.kept dir hlive).1.symm hdir
  unfold createFile at h
  split at h
  · cases h
    exact ⟨none, hfail _⟩
  · split at h
    · cases h
      exact ⟨none, hfail _⟩
    · split at h
      · cases h
      cases hroom : room.inode with
      | none =>
        rw [hroom] at h
        cases h
        exact ⟨none, hfail _⟩
      | some n =>
        rw [hroom] at h
        obtain ⟨⟨i, v₁⟩, hnew, h⟩ := Option.bind_eq_some_iff.mp h
        obtain ⟨⟨place, fs₁⟩, hadd, h⟩ := Option.map_eq_some_iff.mp h
        obtain ⟨S₁, hi⟩ := newInode_shift S hnew
        have hset : ∀ {v : Volume} {r : Multiset Id} (h : MInode), Shift (some dir) 0 r v₀ v →
            Shift (some dir) 0 r v₀ (v.setInode i h) := fun h S =>
          S.unused hi rfl rfl (fun j hj => Function.update_of_ne hj ..) fun _ _ => rfl
        have S₂ := (hset { v₁.fs.inode i with uid := me.euid, mode := mode } (S₁.any (some dir))).entered
          (addEntry_entered hadd) rfl
        cases place with
        | none =>
          cases h
          have S₃ := hset { fs₁.inode i with nlinks := (fs₁.inode i).nlinks - 1 } S₂
          exact ⟨some dir, .failed S₃.iput.iput hdir₀⟩
        | some p =>
          obtain ⟨block, n⟩ := p
          cases h
          rw [add_left_comm] at S₂
          have S₃ : Shift (some dir) 0 ({dir} + ({i} + 0)) v₀ { v₁ with
              fs := (setEntry fs₁ dir.dev block n
                { fs₁.dirBlock dir.dev block n with inodenr := i.num }).brelse dir.dev block } :=
            S₂.blocks rfl rfl rfl
          refine ⟨some dir, ?_, fun j hj hlive => .inl (hdir₀ j hj hlive), fun j o ho => ?_,
            fun j o ho _ => ?_, fun j o m ho hm => ?_⟩
          · have S₄ := S₃.iput
            rwa [add_zero] at S₄
          · cases ho
            exact ⟨rfl, fun _ => .inl rfl⟩
          · cases ho
            exact hi
          · cases ho
            cases hm

theorem truncate_permission (v : Volume) (i : Id) (m : BitVec 32) :
    Fs.permission me i ((v.truncate i).fs.inode i) m = Fs.permission me i (v.fs.inode i) m := by
  unfold Volume.truncate
  dsimp only
  split
  · rfl
  · show Fs.permission me i (Function.update v.fs.inode i _ i) m = _
    rw [Function.update_self]
    rfl

theorem openFile_found {block : Block} {de : DirEntry} {flag : BitVec 32} {v₀ : Volume}
    (S : Shift none 0 ({dir} + 0) v₀ v) (h : openFile me v dir block de flag = some (res, v')) :
    ∃ w, Found me v₀ v' flag res w := by
  have S₀ : Shift none 0 ({dir} + 0) v₀ { v with fs := v.fs.brelse dir.dev block } := S.blocks rfl rfl rfl
  have S₁ : Shift none 0 0 v₀ { v with fs := (v.fs.brelse dir.dev block).iput dir } := S₀.iput
  unfold openFile at h
  dsimp only at h
  split at h
  · cases h
    exact ⟨none, .failed S₁ nofun⟩
  · obtain ⟨⟨i, fs₁⟩, hget, h⟩ := Option.map_eq_some_iff.mp h
    have S₂ : Shift none 0 ({i} + 0) v₀ { v with fs := fs₁ } := by
      rw [← add_zero (0 : Multiset Id)] at S₁
      exact S₁.trade (p := none) (q := some i) (Fs.iget_trade hget)
    dsimp only at h
    split at h
    · cases h
      exact ⟨none, .failed S₂.iput nofun⟩
    · next hperm =>
      have hperm := not_not.mp (not_or.mp hperm).2
      have S₃ : Shift (some i) 0 {i} v₀ ({ v with fs := fs₁ } : Volume) := by
        have S₃ := S₂.any (some i)
        rwa [add_zero] at S₃
      have htrunc : Shift (some i) 0 {i} v₀ (({ v with fs := fs₁ } : Volume).truncate i) := by
        have T := (truncate_shift { v with fs := fs₁ } i).take {i}
        rw [Multiset.zero_add] at T
        exact S₃.trans T
      split at h
      · next hflag =>
        cases h
        refine ⟨some i, htrunc, fun j hj _ => ?_, fun j o ho => ?_, fun j o ho hnew => ?_,
          fun j o m ho hm => ?_⟩
        · cases hj
          exact .inr ⟨rfl, hflag⟩
        · cases ho
          exact ⟨rfl, fun _ => .inr rfl⟩
        · cases ho
          cases hnew
        · cases ho
          cases hm
          rw [truncate_permission]
          exact hperm
      · cases h
        refine ⟨none, ?_, nofun, fun j o ho => ?_, fun j o ho hnew => ?_, fun j o m ho hm => ?_⟩
        · rw [add_zero] at S₂
          exact S₂
        · cases ho
          exact ⟨rfl, fun _ => .inr rfl⟩
        · cases ho
          cases hnew
        · cases ho
          cases hm
          exact hperm

/-- `get_dir_inode` returns a directory. -/
theorem getDirLoop_isDir {n : Nat} {inode : Id} {pathname : List Byte}
    (h : Fs.getDirLoop me n fs inode pathname = some (some dir, fs')) : (fs'.inode dir).isDir = true := by
  induction n generalizing fs inode pathname with
  | zero => cases h
  | succ n ih =>
    unfold Fs.getDirLoop at h
    split at h
    · cases h
    · next hperm =>
      dsimp only at h
      split at h
      · cases h
        exact not_not.mp (not_or.mp hperm).1
      · split at h
        · cases h
        · split at h
          · cases h
          · exact ih h

theorem dirNamei_isDir {pathname basename : List Byte}
    (h : Fs.dirNamei me fs pathname = some (some (dir, basename), fs')) : (fs'.inode dir).isDir = true := by
  obtain ⟨⟨node, fs₁⟩, hdir, heq⟩ := Option.map_eq_some_iff.mp h
  cases node with
  | none => cases heq
  | some d =>
    cases heq
    unfold Fs.getDirInode at hdir
    split at hdir
    · cases hdir
    cases pathname with
    | nil => cases hdir
    | cons c p =>
      dsimp only at hdir
      split at hdir
      · exact getDirLoop_isDir hdir
      · exact getDirLoop_isDir hdir

/-- What `..` leads to is a directory. -/
theorem Settled.dotdot (L : Settled (k.setFs fs) ({dir} + xs)) (hdir : (fs.inode dir).isDir = true)
    {name : List Byte} {len len' : Nat} (h : Fs.dotdot me fs dir name len = (i, len', fs')) :
    (fs'.inode i).isDir = true := by
  unfold Fs.dotdot at h
  split at h
  · split at h
    · cases h
      exact hdir
    · split at h
      · next m hmount =>
        cases h
        unfold Fs.mountPoint at hmount
        split at hmount
        · next hnum =>
          obtain ⟨sb, hsb, hm⟩ := Option.bind_eq_some_iff.mp hmount
          unfold Fs.checkInSuperb at hsb
          split at hsb
          · cases hsb
          · obtain ⟨s, hfind, rfl⟩ := Option.map_eq_some_iff.mp hsb
            have hs := List.mem_range.mp (List.mem_of_find?_eq_some hfind)
            have hdev := List.find?_some hfind
            have hdev : (fs.superBlock s).dev = dir.dev := of_decide_eq_true hdev
            have hrefs : 0 < (k.setFs fs).refs i := Settled.refs_mount hs hm
            have hcount := L.inode i
            have hone : ({dir} : Multiset Id).count i = Fs.one (some dir) i := count_held (some dir) i
            rw [Multiset.count_add, hone] at hcount
            have T : Fs.Trade (some dir) none fs (fs.iput dir) := .iput L.pos
            have hkept : (fs.iput dir).inode i = fs.inode i := T.inode i (.inr (by
              show Fs.one (some dir) i < (k.setFs fs).vol.fs.count i
              omega))
            show ((fs.iput dir).inode i).isDir = true
            rw [hkept]
            obtain h | h := L.mountDir s hs i hm
            · exact h
            · have hself : i = dir := h.trans (Id.mk.injEq .. ▸ ⟨hdev, hnum.symm⟩)
              rw [hself]
              exact hdir
        · cases hmount
      · cases h
        exact hdir
  · cases h
    exact hdir

theorem holding_same (g : Fs.State) (dev : Dev) (bh : Option Block) :
    (Fs.holding g dev bh).count = g.count ∧ (Fs.holding g dev bh).superBlock = g.superBlock ∧
      (Fs.holding g dev bh).inode = g.inode := by
  cases bh with
  | none => exact ⟨rfl, rfl, rfl⟩
  | some block => exact ⟨rfl, rfl, rfl⟩

theorem Settled.findEntry (L : Settled (k.setFs fs) ({dir} + xs)) (hdir : (fs.inode dir).isDir = true)
    {name : List Byte} {len : Nat} {found : Option (Block × DirEntry)}
    (h : Fs.findEntry me fs dir name len = (i, found, fs')) : (fs'.inode i).isDir = true := by
  unfold Fs.findEntry at h
  dsimp only at h
  generalize (if len > 14 then 14 else len) = len at h
  split at h
  · cases h
    exact hdir
  · cases hdot : Fs.dotdot me fs dir name len with
    | mk m p =>
      obtain ⟨len', fs₁⟩ := p
      rw [hdot] at h
      obtain ⟨rfl, hin⟩ := Prod.mk.inj h
      rw [Fs.findIn_holding hin]
      have hdir := L.dotdot hdir hdot
      cases found with
      | none => exact hdir
      | some e => exact hdir

theorem Settled.openNamei (L : Settled k xs) {umask mode : BitVec 16} {pathname : List Byte}
    {flag : BitVec 32} {room : Room} (h : Files.openNamei me umask k.vol pathname flag mode room = some (res, v')) :
    ∃ w, Found me k.vol v' flag res w := by
  unfold Files.openNamei at h
  split at h
  · cases h
  · next fs₁ hdir =>
    cases h
    exact ⟨none, .failed (Shift.ofTrade (p := none) (q := none) (Fs.dirNamei_trade hdir)) nofun⟩
  · next dir basename fs₁ hnamei =>
    have T : Fs.Trade none (some dir) k.vol.fs fs₁ := Fs.dirNamei_trade hnamei
    have hdir := dirNamei_isDir hnamei
    have S : Shift none 0 ({dir} + 0) k.vol { k.vol with fs := fs₁ } := by
      rw [add_zero]
      exact Shift.ofTrade T
    dsimp only at h
    split at h
    · split at h
      · cases h
        refine ⟨none, ?_, nofun, fun i o ho => ?_, fun i o ho hnew => ?_, fun i o m ho hm => ?_⟩
        · rw [add_zero] at S
          exact S
        · cases ho
          exact ⟨rfl, fun hno => absurd (hdir.symm.trans hno) (by decide)⟩
        · cases ho
          cases hnew
        · cases ho
          cases hm
      · cases h
        exact ⟨none, .failed S.iput nofun⟩
    · cases hfind : Fs.findEntry me fs₁ dir basename basename.length with
      | mk m p =>
        obtain ⟨found, fs₂⟩ := p
        rw [hfind] at h
        have L₁ : Settled (k.setFs fs₁) ({dir} + 0 + xs) := L.took S
        rw [add_zero] at L₁
        have hdir := L₁.findEntry hdir hfind
        obtain ⟨g, rfl, Tr⟩ := Fs.findEntry_trade hfind S.pos
        obtain ⟨hcount, hsuper, hinode⟩ := holding_same g m.dev (found.map Prod.fst)
        have S₁ : Shift none 0 ({m} + 0) k.vol { k.vol with fs := g } :=
          S.trade (p := some dir) (q := some m) Tr
        have S₂ := S₁.blocks hcount hsuper hinode
        cases found with
        | none => exact createFile_found S₂ hdir h
        | some p => exact openFile_found S₂ h

/-! ## Descriptors -/

/-- A free descriptor is not to be closed. -/
theorem Settled.exec_free (L : Settled k xs) (ht : k.task cur = some t) {fd : Fin 20}
    (hfd : t.filp fd = none) : ∀ n, t.closeOnExec n = true → n ≠ fd ∧ t.closeOnExec n = true := by
  intro n hn
  refine ⟨fun heq => ?_, hn⟩
  subst heq
  exact L.counts.closeOnExec cur t n ht hn hfd

/-- A free entry is opened for a free descriptor, and keeps the reference to the inode. -/
theorem Settled.opened (L : Settled k ({i} + xs)) (ht : k.task cur = some t) {fd : Fin 20} {new : File}
    (hfilp : t'.filp = Function.update t.filp fd (some f)) (hexec : t'.closeOnExec = t.closeOnExec)
    (hrefs : ∀ j, t'.refs j = t.refs j) (hfd : t.filp fd = none) (hf : (k.file f).count = 0)
    (hcount : new.count = 1) (hinode : new.inode = some i) (hrecorded : new.Recorded k.vol.fs.inode) :
    Settled ((k.setTask cur t').setFile f new) xs := by
  refine L.descriptor (o := some f) ht hfilp (.inl hfd) (.inr rfl) ?_ (fun n hn => ?_) (fun j => ?_)
    fun _ => hrecorded
  · rw [hfd, if_neg nofun, if_pos rfl, hcount, hf]
  · rw [hexec] at hn
    exact L.exec_free ht hfd n hn
  · have hone := count_held (some i) j
    rw [held_some] at hone
    rw [hrefs, File.refs_used (by omega), File.refs_free hf, hinode, Multiset.count_add, hone]
    omega

/-- What `openTty` returns has the descriptors and pointers of the task. -/
theorem openTty_same {dev : BitVec 16} (h : openTty t dev = some t') :
    t'.filp = t.filp ∧ t'.closeOnExec = t.closeOnExec ∧ ∀ j, t'.refs j = t.refs j := by
  unfold openTty at h
  split at h
  · cases h
    split
    · exact ⟨rfl, rfl, fun _ => rfl⟩
    · exact ⟨rfl, rfl, fun _ => rfl⟩
  · split at h
    · cases h
    · cases h
      exact ⟨rfl, rfl, fun _ => rfl⟩

/-- A reservation that is given up. -/
theorem reserve_giveUp (ht : k.task cur = some t) {fd : Fin 20} (hfd : t.filp fd = none)
    (hf : (k.file f).count = 0) : (k.reserve cur t fd f).giveUp cur t fd f = k := by
  have htask : t.setFilp fd none = t := by
    unfold Task.setFilp
    rw [← hfd, Function.update_eq_self]
  have hentry : ({ k.file f with count := 0 } : File) = k.file f := by rw [← hf]
  unfold Kernel.giveUp Kernel.reserve Kernel.setTask Kernel.setFile
  dsimp only
  rw [htask, Function.update_idem, Function.update_self, Function.update_idem, hentry, ← ht,
    Function.update_eq_self, Function.update_eq_self]

/-- A reservation that is filled in. -/
theorem reserve_filled (k : Kernel) (cur : Fin 64) (t t' : Task) (fd : Fin 20) (f : Fin 64) (new : File) :
    ((k.reserve cur t fd f).setTask cur t').setFile f new = (k.setTask cur t').setFile f new := by
  unfold Kernel.reserve Kernel.setTask Kernel.setFile
  dsimp only
  rw [Function.update_idem, Function.update_idem]

theorem setTask_over (k : Kernel) (cur : Fin 64) (t t' : Task) (f : Fin 64) (file : File) :
    ((k.setTask cur t).setFile f file).setTask cur t' = (k.setTask cur t').setFile f file := by
  unfold Kernel.setTask Kernel.setFile
  dsimp only
  rw [Function.update_idem]

/-- What `sys_open` can do: nothing, what `open_namei` has done before an error, or open the file. -/
inductive Opening (k : Kernel) (cur : Fin 64) (flag : BitVec 32) (e : Int) : Kernel → Prop
  | busy : Opening k cur flag e k
  | failed {me : Fs.Task} {v : Volume} {err : Int} {w : Option Id}
      (found : Found me k.vol v flag (.inl err) w) : Opening k cur flag e { k with vol := v }
  | noTty {me : Fs.Task} {v : Volume} {i : Id} {o : Opened} {w : Option Id}
      (found : Found me k.vol v flag (.inr (i, o)) w) (chr : isChr (v.fs.inode i) = true) :
      Opening k cur flag e ({ k with vol := v }.setFs (v.fs.iput i))
  | opened {me : Fs.Task} {t t₁ : Task} {fd : Fin 20} {f : Fin 64} {v : Volume} {i : Id} {o : Opened}
      {w : Option Id} (task : k.task cur = some t) (names : t.names = some me) (free : t.filp fd = none)
      (unused : (k.file f).count = 0) (found : Found me k.vol v flag (.inr (i, o)) w)
      (filp : t₁.filp = t.filp) (closeOnExec : t₁.closeOnExec = t.closeOnExec)
      (refs : ∀ j, t₁.refs j = t.refs j) (result : e = fd.val) :
      Opening k cur flag e (({ k with vol := v }.setTask cur (t₁.setFilp fd (some f))).setFile f
        ⟨(v.fs.inode i).mode, flag.setWidth 16, 1, some i, 0, some o⟩)

theorem Settled.opening (L : Settled k 0) {pathname : List Byte} {flag : BitVec 32} {mode : BitVec 16}
    {room : Room} (h : sysOpen k cur pathname flag mode room = some (e, k')) : Opening k cur flag e k' := by
  unfold Files.sysOpen at h
  obtain ⟨t, ht, h⟩ := Option.bind_eq_some_iff.mp h
  cases hfree : t.freeFd 0 with
  | none =>
    rw [hfree] at h
    cases h
    exact .busy
  | some fd =>
    obtain ⟨n, hn, -, hfd, -⟩ := freeFd_lowest hfree
    obtain rfl : fd = n := Fin.ext (Int.ofNat_inj.mp hn)
    rw [hfree] at h
    dsimp only at h
    rw [clearExec_self L.counts ht hfd, update_self_setTask ht] at h
    cases hfile : k.freeFiles.head? with
    | none =>
      rw [hfile] at h
      cases h
      exact .busy
    | some f =>
      rw [hfile] at h
      have hf : (k.file f).count = 0 := by
        simpa using (List.mem_filter.mp (List.mem_of_mem_head? hfile)).2
      obtain ⟨me, hme, h⟩ := Option.bind_eq_some_iff.mp h
      obtain ⟨⟨res, v⟩, hopen, h⟩ := Option.map_eq_some_iff.mp h
      obtain ⟨w, F⟩ := L.openNamei hopen
      have hgive : ∀ v : Volume, ({ k.reserve cur t fd f with vol := v } : Kernel).giveUp cur t fd f =
          { k with vol := v } := fun v => reserve_giveUp (k := { k with vol := v }) ht hfd hf
      cases res with
      | inl err =>
        cases h
        rw [hgive]
        exact .failed F
      | inr p =>
        obtain ⟨i, o⟩ := p
        dsimp only at h
        split at h
        · next htty =>
          cases h
          have hchr : isChr (v.fs.inode i) = true := by
            by_contra hno
            rw [if_neg hno] at htty
            cases htty
          rw [show ({ k.reserve cur t fd f with vol := v } : Kernel).setFs (v.fs.iput i) =
            { k.reserve cur t fd f with vol := { v with fs := v.fs.iput i } } from rfl, hgive]
          exact .noTty F hchr
        · next t₁ htty =>
          obtain ⟨hfilp, hexec, hrefs⟩ : t₁.filp = t.filp ∧ t₁.closeOnExec = t.closeOnExec ∧
              ∀ j, t₁.refs j = t.refs j := by
            split at htty
            · exact openTty_same htty
            · cases htty
              exact ⟨rfl, rfl, fun _ => rfl⟩
          cases h
          have hfill := reserve_filled { k with vol := v } cur t (t₁.setFilp fd (some f)) fd f
            ⟨(v.fs.inode i).mode, flag.setWidth 16, 1, some i, 0, some o⟩
          refine hfill ▸ ?_
          exact .opened ht hme hfd hf F hfilp hexec hrefs rfl

theorem Settled.sysOpen (L : Settled k 0) {pathname : List Byte} {flag : BitVec 32} {mode : BitVec 16}
    {room : Room} (h : sysOpen k cur pathname flag mode room = some (e, k')) : Settled k' 0 := by
  cases L.opening h with
  | busy => exact L
  | failed found => exact L.took found.shift
  | noTty found => exact Settled.iput (L.took found.shift)
  | @opened _ _ _ fd f _ _ _ _ task _ free unused found filp closeOnExec refs =>
    have hstep := congrArg (fun g => Function.update g fd (some f)) filp
    exact (L.took found.shift).opened task hstep closeOnExec refs free unused rfl rfl found.recorded

/-- A descriptor is closed; the caller has what the entry no longer points to. -/
theorem Settled.closed (L : Settled k xs) (ht : k.task cur = some t) {fd : Fin 20} (hfilp : t.filp fd = some f)
    {new : File} (hcount : new.count = (k.file f).count - 1)
    (hrefs : ∀ j, new.refs j + ys.count j = (k.file f).refs j + xs.count j)
    (hrecorded : new.Recorded k.vol.fs.inode) :
    Settled ((k.setTask cur ((t.clearExec fd).setFilp fd none)).setFile f new) ys := by
  have hpos := count_pos L.counts ht hfilp
  refine L.descriptor (o := none) ht rfl (.inr hfilp) (.inl rfl) ?_ (fun n hn => ?_) (fun j => ?_)
    fun _ => hrecorded
  · rw [hfilp, if_pos rfl, if_neg nofun, hcount]
    omega
  · have hbit : Function.update t.closeOnExec fd false n = true := hn
    by_cases hne : n = fd
    · rw [hne, Function.update_self] at hbit
      cases hbit
    · rw [Function.update_of_ne hne] at hbit
      exact ⟨hne, hbit⟩
  · have hj := hrefs j
    have htask : ((t.clearExec fd).setFilp fd none).refs j = t.refs j := rfl
    omega

theorem Settled.sysClose (L : Settled k xs) {fd : Nat} (h : Files.sysClose k cur fd = some (e, k')) :
    Settled k' xs := by
  unfold Files.sysClose at h
  obtain ⟨t, ht, h⟩ := Option.bind_eq_some_iff.mp h
  split at h
  · next hlt =>
    dsimp only at h
    cases hfilp : t.filp ⟨fd, hlt⟩ with
    | none =>
      rw [clearExec_self L.counts ht hfilp, hfilp, update_self_setTask ht] at h
      cases h
      exact L
    | some f =>
      have hpos := count_pos L.counts ht hfilp
      have hclear : (t.clearExec ⟨fd, hlt⟩).filp ⟨fd, hlt⟩ = some f := hfilp
      rw [hclear] at h
      dsimp only at h
      rw [if_neg hpos] at h
      split at h
      · next hmore =>
        cases h
        refine L.closed ht hfilp rfl (fun j => ?_) (L.recorded f hpos)
        rw [File.refs_used hpos, File.refs_used hmore]
      · next hlast =>
        cases h
        have hfree := not_not.mp hlast
        have L₁ : Settled ((k.setTask cur ((t.clearExec ⟨fd, hlt⟩).setFilp ⟨fd, hlt⟩ none)).setFile f
            { k.file f with count := (k.file f).count - 1 }) (held (k.file f).inode + xs) := by
          refine L.closed ht hfilp rfl (fun j => ?_) (L.recorded f hpos)
          rw [File.refs_used hpos, File.refs_free hfree, Multiset.count_add, count_held, Nat.zero_add]
        exact L₁.iputOpt
  · cases h
    exact L

theorem Settled.dupfd (L : Settled k xs) {fd arg : Nat} (h : Files.dupfd k cur fd arg = some (e, k')) :
    Settled k' xs := by
  unfold Files.dupfd at h
  obtain ⟨t, ht, h⟩ := Option.bind_eq_some_iff.mp h
  cases hfd : t.fd fd with
  | none =>
    rw [hfd] at h
    cases h
    exact L
  | some pf =>
    obtain ⟨p, f⟩ := pf
    obtain ⟨-, hp⟩ := fd_some.mp hfd
    have hpos := count_pos L.counts ht hp
    rw [hfd] at h
    dsimp only at h
    split at h
    · cases h
      exact L
    · cases hfree : t.freeFd arg with
      | none =>
        rw [hfree] at h
        cases h
        exact L
      | some n =>
        rw [hfree] at h
        obtain ⟨m, hm, -, hnone, -⟩ := freeFd_lowest hfree
        obtain rfl : n = m := Fin.ext (Int.ofNat_inj.mp hm)
        dsimp only at h
        rw [clearExec_self L.counts ht hnone] at h
        cases h
        refine L.descriptor (o := some f) ht rfl (.inl hnone) (.inr rfl) ?_ (L.exec_free ht hnone)
          (fun j => ?_) fun _ => L.recorded f hpos
        · rw [hnone, if_neg nofun, if_pos rfl]
        · rw [File.refs_used hpos, File.refs_used (Nat.succ_ne_zero _)]
          rfl

theorem Settled.sysDup2 (L : Settled k xs) {oldfd newfd : Nat}
    (h : Files.sysDup2 k cur oldfd newfd = some (e, k')) : Settled k' xs := by
  obtain ⟨⟨_, k₁⟩, hclose, hdup⟩ := Option.bind_eq_some_iff.mp h
  exact (L.sysClose hclose).dupfd hdup

/-- `F_SETFL` does not touch the mode. -/
theorem setfl_modeFlags (flags arg : BitVec 16) :
    (flags &&& ~~~(oAppend ||| oNonblock).setWidth 16 ||| arg &&& (oAppend ||| oNonblock).setWidth 16) &&&
      modeFlags = flags &&& modeFlags := by
  have hdisjoint : (oAppend ||| oNonblock).setWidth 16 &&& modeFlags = 0 := by decide
  generalize (oAppend ||| oNonblock).setWidth 16 = mask at hdisjoint ⊢
  apply BitVec.eq_of_getLsbD_eq
  intro i hi
  have hbit := congrArg (fun x => x.getLsbD i) hdisjoint
  simp only [BitVec.getLsbD_and, BitVec.getLsbD_or, BitVec.getLsbD_not] at hbit ⊢
  cases hmask : mask.getLsbD i <;> cases hmode : modeFlags.getLsbD i <;> simp_all

theorem Settled.sysFcntl (L : Settled k xs) {fd : Nat} {cmd : Cmd} {arg : BitVec 32}
    (h : Files.sysFcntl k cur fd cmd arg = some (e, k')) : Settled k' xs := by
  unfold Files.sysFcntl at h
  obtain ⟨t, ht, h⟩ := Option.bind_eq_some_iff.mp h
  cases hfd : t.fd fd with
  | none =>
    rw [hfd] at h
    cases h
    exact L
  | some nf =>
    obtain ⟨n, f⟩ := nf
    obtain ⟨-, hn⟩ := fd_some.mp hfd
    rw [hfd] at h
    cases cmd with
    | dupfd => exact L.dupfd h
    | getfd =>
      cases h
      exact L
    | setfd =>
      cases h
      refine L.task ht rfl (fun m hm => ?_) fun j => rfl
      by_cases hne : m = n
      · rw [hne, hn]
        exact .inr nofun
      · have hbit : Function.update t.closeOnExec n _ m = true := hm
        rw [Function.update_of_ne hne] at hbit
        exact .inl hbit
    | getfl =>
      cases h
      exact L
    | setfl =>
      cases h
      exact L.file rfl rfl (setfl_modeFlags _ _) rfl
    | other =>
      cases h
      exact L

/-- An entry that has become an end of pipe `i`. -/
def File.pipeEnd (file : File) (mode : BitVec 16) (i : Id) : File :=
  { file with mode := mode, count := 1, inode := some i, pos := 0, opened := none }

theorem pipeEnd_recorded (hi : isPipe i = true) (file : File) (mode : BitVec 16) (h : Id → MInode) :
    (file.pipeEnd mode i).Recorded h := by
  intro j hj
  cases hj
  exact .inl hi

/-- Two entries, for two descriptors. -/
theorem Settled.pipeEnds (L : Settled k ({i} + ({i} + xs))) (ht : k.task cur = some t) {fd0 fd1 : Fin 20}
    {f0 f1 : Fin 64} (hfd : fd0 ≠ fd1) (hfd0 : t.filp fd0 = none) (hfd1 : t.filp fd1 = none) (hf : f0 ≠ f1)
    (hf0 : (k.file f0).count = 0) (hf1 : (k.file f1).count = 0) (hi : isPipe i = true) :
    let k₁ := k.setTask cur ((t.setFilp fd0 (some f0)).setFilp fd1 (some f1))
    let k₂ := k₁.setFile f0 ((k₁.file f0).pipeEnd 1 i)
    Settled (k₂.setFile f1 ((k₂.file f1).pipeEnd 2 i)) xs := by
  have L₁ : Settled ((k.setTask cur (t.setFilp fd0 (some f0))).setFile f0 ((k.file f0).pipeEnd 1 i))
      ({i} + xs) := L.opened ht rfl rfl (fun _ => rfl) hfd0 hf0 rfl rfl (pipeEnd_recorded hi _ _ _)
  generalize hk : (k.setTask cur (t.setFilp fd0 (some f0))).setFile f0 ((k.file f0).pipeEnd 1 i) = k' at L₁
  have ht' : k'.task cur = some (t.setFilp fd0 (some f0)) := by
    rw [← hk]
    exact Function.update_self ..
  have hfd1' : (t.setFilp fd0 (some f0)).filp fd1 = none := (Function.update_of_ne hfd.symm ..).trans hfd1
  have hf1' : (k'.file f1).count = 0 := by
    rw [← hk]
    exact (congrArg File.count (Function.update_of_ne hf.symm ..)).trans hf1
  have L₂ : Settled ((k'.setTask cur ((t.setFilp fd0 (some f0)).setFilp fd1 (some f1))).setFile f1
      ((k'.file f1).pipeEnd 2 i)) xs :=
    L₁.opened ht' rfl rfl (fun _ => rfl) hfd1' hf1' rfl rfl (pipeEnd_recorded hi _ _ _)
  rw [← hk, setTask_over] at L₂
  exact L₂

/-- `get_pipe_inode` returns an inode that nobody points to, with two references. -/
theorem Settled.pipeInode (L : Settled k (0 + xs)) (hcount : k.vol.fs.count i = 0) :
    Settled { k with vol := { k.vol.setInode i .zero with
      fs := ((k.vol.setInode i .zero).fs.hold i).hold i } } ({i} + {i} + xs) := by
  refine L.volume (fun j => ?_) rfl fun j hj => ?_
  · have hone : Multiset.count j {i} = Fs.one (some i) j := count_held (some i) j
    have T := (Fs.Trade.hold (k.vol.setInode i .zero).fs i).count j
    have T' := (Fs.Trade.hold ((k.vol.setInode i .zero).fs.hold i) i).count j
    rw [Fs.one_none] at T T'
    rw [Multiset.count_add, hone, Multiset.count_zero]
    have hsame : (k.vol.setInode i .zero).fs.count j = k.vol.fs.count j := rfl
    dsimp only
    omega
  · have hne : j ≠ i := by
      rintro rfl
      have hrefs := L.inode j
      omega
    exact congrArg MInode.mode (Function.update_of_ne hne ..)

theorem Settled.sysPipe (L : Settled k xs) {inode : Option Inode.Num}
    (h : Files.sysPipe k cur inode = some (e, k')) : Settled k' xs := by
  unfold Files.sysPipe at h
  obtain ⟨t, ht, h⟩ := Option.bind_eq_some_iff.mp h
  split at h
  · next f0 f1 rest fd0 fd1 more hfiles hfds =>
    obtain ⟨hf, hf0, hf1⟩ := freeFiles_pair hfiles
    obtain ⟨hfd, hfd0, hfd1⟩ := freeFds_pair hfds
    split at h
    · cases h
    cases inode with
    | none =>
      cases h
      exact L
    | some n =>
      dsimp only at h
      split at h
      · cases h
      · next hcount =>
        cases h
        rw [← Multiset.zero_add xs] at L
        have L₁ := L.pipeInode (not_not.mp hcount)
        rw [add_assoc] at L₁
        exact L₁.pipeEnds ht hfd hfd0 hfd1 hf hf0 hf1 rfl
  · cases h
    exact L

/-! ## Tasks -/

/-- What `shareFiles` has done to an entry after some of the descriptors. -/
theorem share_entry (filp : Fin 20 → Option (Fin 64)) (f : Fin 64) (fds : List (Fin 20))
    (file : Fin 64 → File) :
    fds.foldl (fun file fd =>
      match filp fd with
      | some f => Function.update file f { file f with count := (file f).count + 1 }
      | none => file) file f =
      { file f with count := (file f).count + (fds.filter fun fd => filp fd = some f).length } := by
  induction fds generalizing file with
  | nil => rfl
  | cons fd fds ih =>
    rw [List.foldl_cons, ih]
    cases hfilp : filp fd with
    | none =>
      rw [List.filter_cons_of_neg (by simp [hfilp])]
    | some g =>
      dsimp only
      by_cases hg : g = f
      · subst hg
        rw [Function.update_self, List.filter_cons_of_pos (by simp [hfilp]), List.length_cons]
        simp only [Nat.add_assoc, Nat.add_comm 1]
      · rw [Function.update_of_ne (Ne.symm hg), List.filter_cons_of_neg (by simp [hfilp, hg])]

theorem shareFiles_entry (file : Fin 64 → File) (t : Task) (f : Fin 64) :
    shareFiles file t.filp f = { file f with count := (file f).count + t.fds f } := by
  have hcard : ((List.finRange 20).filter fun fd => t.filp fd = some f).length = t.fds f := by
    rw [← List.toFinset_card_of_nodup ((List.nodup_finRange 20).filter _), List.toFinset_filter,
      List.toFinset_finRange]
    simp only [decide_eq_true_eq]
    rfl
  rw [← hcard]
  exact share_entry t.filp f (List.finRange 20) file

/-- A descriptor points to an entry in use. -/
theorem fds_free (hk : k.Counts) (ht : k.task cur = some t) (hf : (k.file f).count = 0) : t.fds f = 0 := by
  rw [Task.fds, Lib.card_filter_zero]
  intro fd _ hfd
  exact count_pos hk ht hfd hf

theorem Settled.sysFork (L : Settled k xs) {pid : Nat} {memory : Bool}
    (h : Files.sysFork k cur pid memory = some (e, k')) : Settled k' xs := by
  unfold Files.sysFork at h
  obtain ⟨t, ht, h⟩ := Option.bind_eq_some_iff.mp h
  split at h
  · cases h
    exact L
  · next nr hfind =>
    have hnone : k.task nr = none := by
      have hp := List.find?_some hfind
      simpa using (of_decide_eq_true hp).2
    split at h
    · cases h
      exact L
    · cases h
      have S := (((Shift.refl none 0 k.vol).holdOpt t.pwd).holdOpt t.root).holdOpt t.executable
      have L₁ := L.took S
      refine L₁.change nr (some { t with leader := false }) (shareFiles k.file t.filp) (fun f => ?_)
        (fun t' ht' fd hfd => ?_) (fun j => ?_) fun f hf => ?_
      · rw [shareFiles_entry]
        show _ + slotFds (k.task nr) f = (k.file f).count + t.fds f
        rw [hnone]
        rfl
      · cases ht'
        exact L.counts.closeOnExec cur t fd ht hfd
      · have hsame : ∀ f, (shareFiles k.file t.filp f).refs j = (k.file f).refs j := by
          intro f
          rw [shareFiles_entry]
          by_cases hf : (k.file f).count = 0
          · rw [fds_free L.counts ht hf]
            rfl
          · rw [File.refs_used hf, File.refs_used (by dsimp only; omega)]
        simp only [hsame]
        show _ + t.refs j + _ = _ + slotRefs (k.task nr) j + _
        rw [hnone]
        unfold Task.refs
        simp only [Multiset.count_add, count_held, Multiset.count_zero]
        show _ = _ + 0 + _
        omega
      · rw [shareFiles_entry] at hf ⊢
        refine L₁.recorded f fun hzero => hf ?_
        show (k.file f).count + t.fds f = 0
        rw [fds_free L.counts ht hzero]
        exact hzero

theorem Settled.closeIf (L : Settled k xs) {p : Task → Fin 20 → Bool}
    (h : Files.closeIf p k cur = some k') : Settled k' xs := by
  unfold Files.closeIf at h
  generalize List.finRange 20 = fds at h
  induction fds generalizing k with
  | nil =>
    cases h
    exact L
  | cons fd fds ih =>
    rw [List.foldlM_cons] at h
    obtain ⟨k₁, hone, h⟩ := Option.bind_eq_some_iff.mp h
    obtain ⟨t, ht, hone⟩ := Option.bind_eq_some_iff.mp hone
    refine ih ?_ h
    split at hone
    · obtain ⟨⟨_, _⟩, hclose, rfl⟩ := Option.map_eq_some_iff.mp hone
      exact L.sysClose hclose
    · cases hone
      exact L

theorem Settled.namei (L : Settled k xs) {name : List Byte} {r : Option Id}
    (h : Fs.namei me k.vol.fs name = some (r, fs')) : Settled (k.setFs fs') (held r + xs) :=
  L.took (Shift.ofTrade (p := none) (Fs.namei_trade h))

theorem Settled.startProgram (L : Settled k ({i} + xs)) (ht : k.task cur = some t)
    (h : Files.startProgram k cur t i = some (e, k')) : Settled k' xs := by
  unfold Files.startProgram at h
  dsimp only at h
  obtain ⟨k₁, hclose, h⟩ := Option.bind_eq_some_iff.mp h
  obtain ⟨t₁, ht₁, h⟩ := Option.map_eq_some_iff.mp h
  cases h
  have L₁ : Settled (k.setTask cur { t with executable := some i }) (held t.executable + xs) := by
    refine L.task ht rfl (fun fd hfd => .inl hfd) fun j => ?_
    show Fs.one t.pwd j + Fs.one t.root j + Fs.one (some i) j + _ =
      Fs.one t.pwd j + Fs.one t.root j + Fs.one t.executable j + _
    have hone := count_held (some i) j
    rw [held_some] at hone
    rw [Multiset.count_add, Multiset.count_add, count_held, hone]
    omega
  exact (L₁.iputOpt.closeIf hclose).task ht₁ rfl nofun fun j => rfl

theorem Settled.execLoop {images : List Image} {filename : List Byte} (L : Settled k xs)
    (ht : k.task cur = some t) (h : Files.execLoop cur t me images k filename = some (e, k')) : Settled k' xs := by
  induction images generalizing k filename with
  | nil => cases h
  | cons image images ih =>
    unfold Files.execLoop at h
    obtain ⟨⟨r, fs⟩, hnamei, h⟩ := Option.bind_eq_some_iff.mp h
    have L₁ := L.namei hnamei
    cases r with
    | none =>
      cases h
      rwa [held_none, Multiset.zero_add] at L₁
    | some i =>
      have L₂ : Settled ((k.setFs fs).setFs (fs.iput i)) xs := L₁.iput
      dsimp only at h
      split at h
      · cases h
        exact L₂
      · cases image with
        | refused err =>
          cases h
          exact L₂
        | program => exact L₁.startProgram ht h
        | script interp =>
          dsimp only at h
          split at h
          · cases h
            exact L₂
          · cases interp with
            | error err =>
              cases h
              exact L₂
            | ok interp => exact ih L₂ ht h

theorem Settled.sysExecve (L : Settled k xs) {filename : List Byte} {image interp : Image}
    (h : Files.sysExecve k cur filename image interp = some (e, k')) : Settled k' xs := by
  obtain ⟨t, ht, h⟩ := Option.bind_eq_some_iff.mp h
  obtain ⟨me, -, h⟩ := Option.bind_eq_some_iff.mp h
  exact L.execLoop ht h

/-- `do_exit` closes every descriptor. -/
theorem closeIf_all (L : Settled k xs) (h : Files.closeIf (fun t fd => (t.filp fd).isSome) k cur = some k')
    (ht : k'.task cur = some t) (fd : Fin 20) : t.filp fd = none := by
  -- what is open is still in the list
  have hrest : ∀ (fds : List (Fin 20)) (k : Kernel), Settled k xs →
      (∀ t, k.task cur = some t → ∀ fd, fd ∈ fds ∨ t.filp fd = none) →
      fds.foldlM (fun k fd => (k.task cur).bind fun t =>
        if (t.filp fd).isSome then (Files.sysClose k cur fd).map Prod.snd else some k) k = some k' →
      t.filp fd = none := by
    intro fds
    induction fds with
    | nil =>
      intro k _ hall h
      cases h
      exact (hall t ht fd).resolve_left List.not_mem_nil
    | cons fd fds ih =>
      intro k L hall h
      rw [List.foldlM_cons] at h
      obtain ⟨k₁, hone, h⟩ := Option.bind_eq_some_iff.mp h
      obtain ⟨t₀, ht₀, hone⟩ := Option.bind_eq_some_iff.mp hone
      cases hfilp : t₀.filp fd with
      | none =>
        rw [hfilp, if_neg (show ¬ (none : Option (Fin 64)).isSome = true from Bool.false_ne_true)] at hone
        cases hone
        refine ih k L (fun t₁ ht₁ m => ?_) h
        obtain rfl := Option.some.inj (ht₀.symm.trans ht₁)
        obtain hm | hm := hall t₀ ht₀ m
        · obtain rfl | hm := List.mem_cons.mp hm
          · exact .inr hfilp
          · exact .inl hm
        · exact .inr hm
      | some f =>
        rw [hfilp, if_pos (show (some f).isSome = true from rfl)] at hone
        obtain ⟨⟨e, k₂⟩, hclose, rfl⟩ := Option.map_eq_some_iff.mp hone
        obtain ⟨k₃, hclose', htask⟩ := sysClose_some L.counts ht₀ (fd_some.mpr ⟨rfl, hfilp⟩)
        rw [hclose] at hclose'
        cases hclose'
        refine ih k₂ (L.sysClose hclose) (fun t₁ ht₁ m => ?_) h
        obtain rfl := Option.some.inj (htask.symm.trans ht₁)
        by_cases hm : m = fd
        · subst hm
          exact .inr (Function.update_self ..)
        · obtain hmem | hnone := hall t₀ ht₀ m
          · exact .inl ((List.mem_cons.mp hmem).resolve_left hm)
          · exact .inr ((Function.update_of_ne hm ..).trans hnone)
  exact hrest (List.finRange 20) k L (fun _ _ fd => .inl (List.mem_finRange fd)) h

theorem Settled.sysExit (L : Settled k xs) {orphan : Bool}
    (h : Files.sysExit k cur orphan = some (e, k')) : Settled k' xs := by
  unfold Files.sysExit at h
  obtain ⟨k₁, hclose, h⟩ := Option.bind_eq_some_iff.mp h
  obtain ⟨t₁, ht₁, h⟩ := Option.bind_eq_some_iff.mp h
  have L₁ := L.closeIf hclose
  have hnone := closeIf_all L hclose ht₁
  have hheld : ∀ j, (held t₁.pwd + (held t₁.root + (held t₁.executable + xs))).count j =
      t₁.refs j + xs.count j := by
    intro j
    simp only [Multiset.count_add, count_held, Task.refs, Nat.add_assoc]
  split at h
  · split at h
    · cases h
    · cases h
      have L₂ : Settled { k₁ with task := Function.update k₁.task cur none }
          (held t₁.pwd + (held t₁.root + (held t₁.executable + xs))) := by
        refine L₁.change cur none k₁.file (fun f => ?_) nofun (fun j => ?_) L₁.recorded
        · rw [ht₁]
          show _ + t₁.fds f = _ + 0
          rw [Task.fds, Lib.card_filter_zero.mpr fun fd _ hfd => ?_]
          rw [hnone] at hfd
          cases hfd
        · rw [ht₁, hheld]
          show _ + 0 + _ = _ + t₁.refs j + _
          omega
      exact L₂.iputOpt.iputOpt.iputOpt
  · cases h
    have L₂ : Settled
        (k₁.setTask cur { t₁ with pwd := none, root := none, executable := none, zombie := true })
        (held t₁.pwd + (held t₁.root + (held t₁.executable + xs))) := by
      refine L₁.task ht₁ rfl (fun fd hfd => .inl hfd) fun j => ?_
      rw [hheld]
      exact Nat.zero_add _
    exact L₂.iputOpt.iputOpt.iputOpt

/-! ## Directories -/

theorem Settled.changeDir (L : Settled k xs) {old : Task → Option Id} {change : Task → Id → Task}
    {filename : List Byte} (hfilp : ∀ t i, (change t i).filp = t.filp)
    (hexec : ∀ t i, (change t i).closeOnExec = t.closeOnExec)
    (hrefs : ∀ t i j, (change t i).refs j + Fs.one (old t) j = t.refs j + Fs.one (some i) j)
    (h : Files.changeDir old change k cur filename = some (e, k')) : Settled k' xs := by
  obtain ⟨t, ht, h⟩ := Option.bind_eq_some_iff.mp h
  obtain ⟨me, -, h⟩ := Option.bind_eq_some_iff.mp h
  obtain ⟨⟨r, fs⟩, hnamei, h⟩ := Option.map_eq_some_iff.mp h
  have L₁ := L.namei hnamei
  cases r with
  | none =>
    cases h
    rwa [held_none, Multiset.zero_add] at L₁
  | some i =>
    dsimp only at h
    split at h
    · cases h
      exact L₁.iput
    · cases h
      have L₂ : Settled ((k.setFs fs).setTask cur (change t i)) (held (old t) + xs) := by
        refine L₁.task ht (hfilp t i) (fun fd hfd => .inl (hexec t i ▸ hfd)) fun j => ?_
        have hj := hrefs t i j
        rw [Multiset.count_add, Multiset.count_add, count_held, count_held]
        omega
      exact L₂.iputOpt

theorem Settled.sysChdir (L : Settled k xs) {filename : List Byte}
    (h : Files.sysChdir k cur filename = some (e, k')) : Settled k' xs := by
  have h : Files.changeDir Task.pwd (fun t i => { t with pwd := some i }) k cur filename = some (e, k') := h
  refine L.changeDir ?_ ?_ ?_ h
  · exact fun _ _ => rfl
  · exact fun _ _ => rfl
  intro t i j
  show Fs.one (some i) j + Fs.one t.root j + Fs.one t.executable j + Fs.one t.pwd j =
    Fs.one t.pwd j + Fs.one t.root j + Fs.one t.executable j + Fs.one (some i) j
  omega

theorem Settled.sysChroot (L : Settled k xs) {filename : List Byte}
    (h : Files.sysChroot k cur filename = some (e, k')) : Settled k' xs := by
  have h : Files.changeDir Task.root (fun t i => { t with root := some i }) k cur filename = some (e, k') := h
  refine L.changeDir ?_ ?_ ?_ h
  · exact fun _ _ => rfl
  · exact fun _ _ => rfl
  intro t i j
  show Fs.one t.pwd j + Fs.one (some i) j + Fs.one t.executable j + Fs.one t.root j =
    Fs.one t.pwd j + Fs.one t.root j + Fs.one t.executable j + Fs.one (some i) j
  omega

end Linux011.Files
