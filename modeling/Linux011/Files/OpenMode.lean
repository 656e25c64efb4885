import Linux011.Files.CountedRuns

/-!
# What an open file may be used for

`sys_open` decides once what a descriptor is for, and `open_namei` asks `permission` once. `sys_read` and
`sys_write` look at the mode of a pipe, but at no flag of a file. A regular file changes only by a call on
a descriptor; while every call keeps to the flags of its descriptor, the file was opened for what is done
with it.

The bytes of a file are also those of the drive it is on. `block_read` and `block_write` go to a drive whether
or not a file system is in use there: what `block_write` does then is done behind the back of every file on
it.
-/

namespace Linux011.Files

open Fs (Id Byte MInode)
open Lib (Reach run)

variable {k k' : Kernel} {cur : Fin 64} {t : Task} {f : Fin 64} {i j : Id} {e : Int} {fd : Nat}
  {flag flag' m : BitVec 32} {call : Call} {file : File}

/-! ## Flags -/

/-- The flags ask for `m`, as `open_namei` takes them. -/
def asks (flag m : BitVec 32) : Prop := accMode (effective flag) &&& m ≠ 0

instance : Decidable (asks flag m) := inferInstanceAs (Decidable (_ ≠ _))

theorem accMode_congr (h : flag &&& oAccMode = flag' &&& oAccMode) : accMode flag = accMode flag' := by
  unfold accMode
  rw [h]

/-- The bits that `open_namei` looks at. -/
def modeBits : BitVec 32 := oAccMode ||| oTrunc

theorem accMode_effective (h : flag &&& modeBits = flag' &&& modeBits) :
    accMode (effective flag) = accMode (effective flag') := by
  have hacc : flag &&& oAccMode = flag' &&& oAccMode := by
    have hpart : modeBits &&& oAccMode = oAccMode := by decide
    rw [← hpart, ← BitVec.and_assoc, ← BitVec.and_assoc, h]
  have htrunc : flag &&& oTrunc = flag' &&& oTrunc := by
    have hpart : modeBits &&& oTrunc = oTrunc := by decide
    rw [← hpart, ← BitVec.and_assoc, ← BitVec.and_assoc, h]
  refine accMode_congr ?_
  unfold effective
  rw [hacc, htrunc]
  split
  · rw [BitVec.and_comm, BitVec.and_or_distrib_left, BitVec.and_comm, hacc,
      BitVec.and_comm (flag' ||| oWrOnly), BitVec.and_or_distrib_left, BitVec.and_comm oAccMode flag']
  · exact hacc

/-- `f_flags` has 16 bits. -/
theorem narrow_modeBits (flag : BitVec 32) :
    (flag.setWidth 16 &&& modeFlags).setWidth 32 = flag &&& modeBits := by
  have hwide : modeBits = modeFlags.setWidth 32 := by decide
  rw [hwide]
  apply BitVec.eq_of_getLsbD_eq
  intro n hn
  by_cases h16 : n < 16
  · simp [hn, h16]
  · have hno : modeFlags.getLsbD n = false := BitVec.getLsbD_of_ge _ _ (Nat.le_of_not_lt h16)
    simp [hno]

theorem wide_modeBits (flags : BitVec 16) :
    flags.setWidth 32 &&& modeBits = (flags &&& modeFlags).setWidth 32 := by
  have hwide : modeBits = modeFlags.setWidth 32 := by decide
  rw [hwide, BitVec.setWidth_and]

/-- Who empties a file asks for writing. -/
theorem asks_write_of_trunc (h : effective flag &&& oTrunc ≠ 0) : asks flag Fs.mayWrite := by
  have hacc : effective flag &&& oAccMode ≠ 0 := by
    unfold effective at h ⊢
    split
    · next hcond =>
      rw [BitVec.and_comm, BitVec.and_or_distrib_left, BitVec.and_comm, hcond.2]
      decide
    · next hcond =>
      rw [if_neg hcond] at h
      exact fun hzero => hcond ⟨h, hzero⟩
  unfold asks accMode
  rw [if_neg hacc]
  split
  · decide
  · split <;> decide

/-! ## The property -/

/-- The call that opened the entry asked for `m`; and it has asked `permission`, or has created the file. -/
def File.OpenedFor (file : File) (m : BitVec 32) : Prop :=
  ∃ o, file.opened = some o ∧ asks o.flag m ∧
    (o.created = true ∨ o.passed = some (accMode (effective o.flag)))

/-- Task `cur` has file `j` open for `m` as descriptor `fd`. -/
def Through (k : Kernel) (cur : Fin 64) (fd : Nat) (j : Id) (m : BitVec 32) : Prop :=
  ∃ t p f, k.task cur = some t ∧ t.fd fd = some (p, f) ∧ (k.file f).inode = some j ∧ (k.file f).OpenedFor m

/-- The device has a file system in use. -/
def isMounted (fs : Fs.State) (dev : Inode.Dev) : Bool := (superOf fs dev).isSome

/-- A regular file of a file system in use: it has links, or it is in use itself. -/
structure Kernel.IsFile (k : Kernel) (j : Id) : Prop where
  reg : (k.vol.fs.inode j).isReg = true
  live : k.vol.Live 0 j
  mounted : isMounted k.vol.fs j.dev = true

/-- A block special file of a drive with a file system in use. -/
structure Kernel.IsDisk (k : Kernel) (j : Id) : Prop where
  blk : isBlk (k.vol.fs.inode j) = true
  noPipe : isPipe j = false
  mounted : ∃ dev, isMounted k.vol.fs dev = true ∧ drive dev = drive ((k.vol.fs.inode j).zone 0)

/-- The calls on files and their descriptors. -/
def Call.onFile : Call → Bool
  | .open .. | .creat .. | .close .. | .dup .. | .lseek .. | .read .. | .write .. => true
  | _ => false

/-- The descriptor that the call works on, or that it returns. -/
def Call.descriptor (e : Int) : Call → Option Nat
  | .open .. | .creat .. => some e.toNat
  | .close fd | .dup fd | .lseek fd .. | .read fd .. | .write fd .. => some fd
  | _ => none

/-- The flags that a call opens a file with. -/
def Call.openFlag : Call → Option (BitVec 32)
  | .open _ flag _ _ => some flag
  | .creat .. => some (oCreat ||| oTrunc)
  | _ => none

/-- What is written down about an entry that `call` has opened has been so. -/
def Truthful (k : Kernel) (cur : Fin 64) (call : Call) (k' : Kernel) (file : File) : Prop :=
  ∃ i o t me, file.inode = some i ∧ file.opened = some o ∧ k.task cur = some t ∧ t.names = some me ∧
    call.openFlag = some o.flag ∧ (o.created = true → ¬ k.vol.Live 0 i) ∧
    ∀ m, o.passed = some m → Fs.permission me i (k'.vol.fs.inode i) m = true

/-- The call of task `cur` keeps to what the files were opened for. -/
structure Enforced (k : Kernel) (cur : Fin 64) (call : Call) (e : Int) (k' : Kernel) : Prop where
  writes : ∀ j, k.IsFile j → k'.IsFile j →
    (k'.vol.fs.inode j).size ≠ (k.vol.fs.inode j).size ∨ k'.vol.data j ≠ k.vol.data j →
    ∃ fd, call.descriptor e = some fd ∧ Through k' cur fd j Fs.mayWrite
  reads : ∀ fd count io bytes, call = .read fd count io →
    sysRead k cur fd count io = some (e, bytes, k') → bytes ≠ [] →
    ∀ t p f j, k.task cur = some t → t.fd fd = some (p, f) → (k.file f).inode = some j →
      k.IsFile j ∨ k.IsDisk j → Through k' cur fd j Fs.mayRead
  opens : ∀ f, (k.file f).count = 0 → (k'.file f).count ≠ 0 → Truthful k cur call k' (k'.file f)

/-- If descriptor `fd` is a regular file or a disk with files, its flags ask for `m`. -/
def Allows (k : Kernel) (cur : Fin 64) (fd : Nat) (m : BitVec 32) : Prop :=
  ∀ t p f j, k.task cur = some t → t.fd fd = some (p, f) → (k.file f).inode = some j →
    k.IsFile j ∨ k.IsDisk j → asks ((k.file f).flags.setWidth 32) m

/-- Descriptor `fd` is no disk with files. -/
def NoDisk (k : Kernel) (cur : Fin 64) (fd : Nat) : Prop :=
  ∀ t p f j, k.task cur = some t → t.fd fd = some (p, f) → (k.file f).inode = some j → ¬ k.IsDisk j

/-- The call keeps to the flags of its descriptor, and writes to no disk with files. -/
def Modest (k : Kernel) (cur : Fin 64) : Call → Prop
  | .read fd _ _ => Allows k cur fd Fs.mayRead
  | .write fd _ _ _ _ _ => Allows k cur fd Fs.mayWrite ∧ NoDisk k cur fd
  | _ => True

/-! ## Every call -/

theorem isReg_of_mode {h h' : MInode} (hmode : h'.mode = h.mode) (hreg : h.isReg = true) :
    h'.isReg = true := by
  unfold MInode.isReg at hreg ⊢
  rwa [hmode]

theorem isMounted_ne (h : isMounted k.vol.fs j.dev = true) : isPipe j = false := by
  unfold isMounted superOf at h
  unfold isPipe
  apply decide_eq_false
  intro hzero
  rw [if_pos hzero] at h
  cases h

/-- What has files in it is no pipe and no directory. -/
theorem notDir (h : k.IsFile j ∨ k.IsDisk j) : isPipe j = false ∧ (k.vol.fs.inode j).isDir = false := by
  rcases h with hfile | hdisk
  · refine ⟨isMounted_ne hfile.mounted, decide_eq_false fun hdir => ?_⟩
    exact absurd (hdir.symm.trans (of_decide_eq_true hfile.reg)) (by decide)
  · refine ⟨hdisk.noPipe, decide_eq_false fun hdir => ?_⟩
    exact absurd (hdir.symm.trans (of_decide_eq_true hdisk.blk)) (by decide)

/-- The flags of an entry are those of the call that opened it. -/
theorem File.Recorded.openedFor {h : Id → MInode} (R : file.Recorded h) (hi : file.inode = some i)
    (hpipe : isPipe i = false) (hdir : (h i).isDir = false) (hm : asks (file.flags.setWidth 32) m) :
    file.OpenedFor m := by
  obtain hp | ⟨o, ho, hflags, hpassed⟩ := R i hi
  · rw [hpipe] at hp
    cases hp
  · refine ⟨o, ho, ?_, hpassed hdir⟩
    have hsame : file.flags.setWidth 32 &&& modeBits = o.flag &&& modeBits := by
      rw [wide_modeBits, hflags, narrow_modeBits]
    unfold asks at hm ⊢
    rwa [accMode_effective hsame] at hm

/-- What the flags of a descriptor allow, the file was opened for. -/
theorem Settled.through (L : Settled k 0) (hallows : Allows k cur fd m) {p : Fin 20}
    (ht : k.task cur = some t) (hfd : t.fd fd = some (p, f)) (hj : (k.file f).inode = some j)
    (hfile : k.IsFile j ∨ k.IsDisk j) : Through k cur fd j m := by
  have hpos := count_pos L.counts ht (fd_some.mp hfd).2
  obtain ⟨hpipe, hdir⟩ := notDir hfile
  have hopen := (L.recorded f hpos).openedFor hj hpipe hdir (hallows t p f j ht hfd hj hfile)
  exact ⟨t, p, f, ht, hfd, hj, hopen⟩

/-- A call does not touch what it has not opened. -/
theorem Through.same {k' : Kernel} {j : Id} (h : Through k cur fd j m) (htask : k'.task = k.task)
    (hfile : ∀ f, (k'.file f).inode = (k.file f).inode ∧ (k'.file f).opened = (k.file f).opened) :
    Through k' cur fd j m := by
  obtain ⟨t, p, f, ht, hfd, hj, o, ho, hopen⟩ := h
  obtain ⟨hinode, hopened⟩ := hfile f
  exact ⟨t, p, f, by rw [htask, ht], hfd, hinode.trans hj, o, hopened.trans ho, hopen⟩

/-- A file that is still one was not changed. -/
theorem iput_file (fs : Fs.State) (i : Id) (h : ((fs.iput i).inode j).isReg = true) :
    (fs.iput i).inode j = fs.inode j := by
  unfold Fs.State.iput at h ⊢
  split
  · rfl
  · next hlast =>
    rw [if_neg hlast] at h
    split
    · next hlinks =>
      rw [if_pos hlinks] at h
      by_cases hj : j = i
      · subst hj
        have hzero : ((fs.destroy j).inode j) = .zero := Function.update_self ..
        rw [hzero] at h
        cases h
      · exact Function.update_of_ne hj ..
    · rfl

theorem iputOpt_inode (fs : Fs.State) (p : Option Id) (h : ((iputOpt fs p).inode j).isReg = true) :
    (iputOpt fs p).inode j = fs.inode j := by
  cases p with
  | none => rfl
  | some i => exact iput_file fs i h

/-- Nothing but entries in use has changed. -/
theorem Enforced.quiet (hvol : k'.vol = k.vol) (hfile : ∀ f, (k.file f).count = 0 → (k'.file f).count = 0)
    (hread : ∀ fd count io, call ≠ .read fd count io) : Enforced k cur call e k' where
  writes j _ _ hchange := by
    rw [hvol] at hchange
    exact (hchange.elim (· rfl) (· rfl)).elim
  reads fd count io _ hcall := absurd hcall (hread fd count io)
  opens f hfree hused := absurd (hfile f hfree) hused

/-! ## Call by call -/

/-- A regular file that `open_namei` has changed is the one that it returns, emptied. -/
theorem Found.changed {me : Fs.Task} {v v' : Volume} {res : Int ⊕ Id × Opened} {w : Option Id}
    (F : Found me v v' flag res w) (hreg : (v.fs.inode j).isReg = true) (hlive : v.Live 0 j)
    (hchange : (v'.fs.inode j).size ≠ (v.fs.inode j).size ∨ v'.data j ≠ v.data j) :
    res = .inr (j, ⟨flag, false, some (accMode (effective flag))⟩) ∧ effective flag &&& oTrunc ≠ 0 := by
  by_cases hw : w = some j
  · obtain hdir | h := F.writes j hw hlive
    · have hdir := of_decide_eq_true hdir
      have hreg := of_decide_eq_true hreg
      exact absurd (hdir.symm.trans hreg) (by decide)
    · exact h
  · obtain ⟨hsize, hdata⟩ := F.shift.contents j hlive hw
    exact (hchange.elim (· hsize) (· hdata)).elim

theorem Settled.open_enforced (L : Settled k 0) {pathname : List Fs.Byte} {mode : BitVec 16} {room : Room}
    (h : Files.sysOpen k cur pathname flag mode room = some (e, k')) (hflag : call.openFlag = some flag)
    (hdesc : call.descriptor e = some e.toNat) (hread : ∀ fd count io, call ≠ .read fd count io) :
    Enforced k cur call e k' := by
  cases L.opening h with
  | busy => exact .quiet rfl (fun _ hf => hf) hread
  | failed found =>
    refine ⟨fun j hj _ hchange => ?_, fun fd count io _ hcall => absurd hcall (hread fd count io),
      fun f hf hused => absurd hf hused⟩
    cases (found.changed hj.reg hj.live hchange).1
  | @noTty _ v i _ _ found chr =>
    refine ⟨fun j hj hj' hchange => ?_, fun fd count io _ hcall => absurd hcall (hread fd count io),
      fun f hf hused => absurd hf hused⟩
    have hsame : (v.fs.iput i).inode j = v.fs.inode j := iput_file v.fs i hj'.reg
    have hchange : (v.fs.inode j).size ≠ (k.vol.fs.inode j).size ∨ v.data j ≠ k.vol.data j := by
      rw [← hsame]
      exact hchange
    -- a terminal is no regular file
    cases (found.changed hj.reg hj.live hchange).1
    have hreg := of_decide_eq_true (isReg_of_mode (found.shift.kept i hj.live).1 hj.reg)
    have hchr := of_decide_eq_true chr
    exact absurd (hchr.symm.trans hreg) (by decide)
  | @opened me t t₁ n f v i o w task names free unused found filp closeOnExec refs result =>
    refine ⟨fun j hj _ hchange => ?_, fun fd count io _ hcall => absurd hcall (hread fd count io),
      fun g hg hused => ?_⟩
    · obtain ⟨hres, htrunc⟩ := found.changed hj.reg hj.live hchange
      cases hres
      refine ⟨n.val, by rw [hdesc, result]; rfl, t₁.setFilp n (some f), n, f, Function.update_self .., ?_,
        ?_, ?_⟩
      · exact fd_some.mpr ⟨rfl, Function.update_self ..⟩
      · exact congrArg File.inode (Function.update_self f _ k.file)
      · exact ⟨_, congrArg File.opened (Function.update_self f _ k.file), asks_write_of_trunc htrunc,
          .inr rfl⟩
    · by_cases hgf : g = f
      · subst hgf
        have hrecord : (Kernel.setFile (({ k with vol := v } : Kernel).setTask cur (t₁.setFilp n (some g))) g
            ⟨(v.fs.inode i).mode, flag.setWidth 16, 1, some i, 0, some o⟩).file g =
          ⟨(v.fs.inode i).mode, flag.setWidth 16, 1, some i, 0, some o⟩ := Function.update_self ..
        rw [hrecord]
        exact ⟨i, o, t, me, rfl, rfl, task, names,
          hflag.trans (congrArg some (found.opened i o rfl).1.symm), found.fresh i o rfl, fun m hm => found.granted i o m rfl hm⟩
      · have hother : (Kernel.setFile (({ k with vol := v } : Kernel).setTask cur (t₁.setFilp n (some f))) f
            ⟨(v.fs.inode i).mode, flag.setWidth 16, 1, some i, 0, some o⟩).file g = k.file g :=
          Function.update_of_ne hgf ..
        rw [hother] at hused
        exact absurd hg hused

/-- The last reference to a file with links does not change it. -/
theorem close_enforced (h : sysClose k cur fd = some (e, k')) :
    Enforced k cur (.close fd) e k' := by
  have hless : ∀ (file : Fin 64 → File) (f g : Fin 64), (file g).count = 0 →
      (Function.update file f { file f with count := (file f).count - 1 } g).count = 0 := by
    intro file f g hg
    by_cases hgf : g = f
    · subst hgf
      rw [Function.update_self]
      exact Nat.sub_eq_zero_of_le (Nat.le_trans (Nat.le_of_eq hg) (Nat.zero_le 1))
    · rw [Function.update_of_ne hgf]
      exact hg
  unfold Files.sysClose at h
  obtain ⟨t, ht, h⟩ := Option.bind_eq_some_iff.mp h
  split at h
  · next hlt =>
    dsimp only at h
    split at h
    · cases h
      exact .quiet rfl (fun _ hf => hf) nofun
    · next f hfilp =>
      split at h
      · cases h
      · split at h
        · cases h
          exact .quiet rfl (hless k.file f) nofun
        · cases h
          refine ⟨fun j _ hj' hchange => ?_, nofun, fun g hg hused => absurd (hless k.file f g hg) hused⟩
          have hsame := iputOpt_inode k.vol.fs (k.file f).inode hj'.reg
          exact (hchange.elim (· (congrArg MInode.size hsame)) (· rfl)).elim
  · cases h
    exact .quiet rfl (fun _ hf => hf) nofun

/-- A second descriptor is of an entry in use. -/
theorem Settled.dup_enforced (L : Settled k 0) (h : Files.sysDup k cur fd = some (e, k')) :
    Enforced k cur (.dup fd) e k' := by
  unfold Files.sysDup Files.dupfd at h
  obtain ⟨t, ht, h⟩ := Option.bind_eq_some_iff.mp h
  split at h
  · cases h
    exact .quiet rfl (fun _ hf => hf) nofun
  · next p f hfd =>
    have hpos := count_pos L.counts ht (fd_some.mp hfd).2
    split at h
    · cases h
      exact .quiet rfl (fun _ hf => hf) nofun
    · split at h
      · cases h
        exact .quiet rfl (fun _ hf => hf) nofun
      · cases h
        refine .quiet rfl (fun g hg => ?_) nofun
        have hgf : g ≠ f := fun heq => hpos (heq ▸ hg)
        exact (congrArg File.count (Function.update_of_ne hgf _ k.file)).trans hg

theorem Moved.same (M : Moved k k') : k'.vol = k.vol ∧ k'.task = k.task ∧ ∀ f,
    (k'.file f).count = (k.file f).count ∧ (k'.file f).inode = (k.file f).inode ∧
      (k'.file f).opened = (k.file f).opened := by
  cases M with
  | stay => exact ⟨rfl, rfl, fun _ => ⟨rfl, rfl, rfl⟩⟩
  | pos f pos =>
    refine ⟨rfl, rfl, fun g => ?_⟩
    show (Function.update k.file f _ g).count = _ ∧ (Function.update k.file f _ g).inode = _ ∧
      (Function.update k.file f _ g).opened = _
    by_cases hgf : g = f
    · rw [hgf, Function.update_self]
      exact ⟨rfl, rfl, rfl⟩
    · rw [Function.update_of_ne hgf]
      exact ⟨rfl, rfl, rfl⟩

theorem Moved.enforced (M : Moved k k') (hread : ∀ fd count io, call ≠ .read fd count io) :
    Enforced k cur call e k' := by
  obtain ⟨hvol, -, hfile⟩ := M.same
  exact .quiet hvol (fun f hf => (hfile f).1.trans hf) hread

/-- What is read is read through a descriptor that allows it. -/
theorem Settled.read_enforced (L : Settled k 0) {count : Int} {io : Int × List Fs.Byte × Nat}
    (hallows : Allows k cur fd Fs.mayRead) {bytes : List Fs.Byte}
    (h : Files.sysRead k cur fd count io = some (e, bytes, k')) :
    Enforced k cur (.read fd count io) e k' := by
  have M := sysRead_moved h
  obtain ⟨hvol, htask, hfile⟩ := M.same
  refine ⟨fun j _ _ hchange => ?_, fun fd' count' io' bytes' hcall _ _ t p f j ht hfd hj hreg => ?_,
    fun f hf hused => absurd ((hfile f).1.trans hf) hused⟩
  · rw [hvol] at hchange
    exact (hchange.elim (· rfl) (· rfl)).elim
  · cases hcall
    exact (L.through hallows ht hfd hj hreg).same htask fun f => (hfile f).2

/-- What is written is written through a descriptor that allows it. -/
theorem Settled.write_enforced (L : Settled k 0) {count : Int} {buf : Nat → Fs.Byte} {io : Int × Nat}
    {fit : Nat} {disk : Volume} (hallows : Allows k cur fd Fs.mayWrite) (hdisk : NoDisk k cur fd)
    (h : Files.sysWrite k cur fd count buf io fit disk = some (e, k')) :
    Enforced k cur (.write fd count buf io fit disk) e k' := by
  cases sysWrite_wrote h with
  | moved M => exact M.enforced nofun
  | @file buf' n t p f i task desc inode =>
    obtain ⟨⟨pos, hfile⟩, S⟩ := fileWrite_same k.vol i (k.file f) buf' n
    obtain ⟨-, -, hsame⟩ := (Moved.pos (k := k) f pos).same
    rw [← hfile] at hsame
    refine ⟨fun j hj _ hchange => ?_, nofun, fun g hg hused => absurd ((hsame g).1.trans hg) hused⟩
    by_cases hij : i = j
    · subst hij
      exact ⟨fd, rfl, (L.through hallows task desc inode (.inl hj)).same rfl fun g => (hsame g).2⟩
    · obtain ⟨hsize, hdata⟩ := S.contents j hj.live fun heq => hij (Option.some.inj heq)
      exact (hchange.elim (· hsize) (· hdata)).elim
  | @device pos disk' t p f i task desc inode noPipe blk =>
    obtain ⟨-, -, hsame⟩ := (Moved.pos (k := k) f pos).same
    refine ⟨fun j hj _ hchange => ?_, nofun, fun g hg hused => absurd ((hsame g).1.trans hg) hused⟩
    -- no file of a file system in use is on the drive
    have hdev : drive j.dev ≠ drive ((k.vol.fs.inode i).zone 0) := fun heq =>
      hdisk t p f i task desc inode ⟨blk, noPipe, j.dev, hj.mounted, heq⟩
    have hinode : (k.vol.overwrite ((k.vol.fs.inode i).zone 0) disk').fs.inode j = k.vol.fs.inode j :=
      if_neg fun h => hdev h.1
    have hdata : (k.vol.overwrite ((k.vol.fs.inode i).zone 0) disk').data j = k.vol.data j := if_neg hdev
    exact (hchange.elim (· (congrArg MInode.size hinode)) (· hdata)).elim

/-! ## Runs -/

theorem Settled.enforced (L : Settled k 0) (hcall : call.onFile = true) (hmodest : Modest k cur call)
    (h : call.act cur k = some (e, k')) : Enforced k cur call e k' := by
  cases call with
  | «open» pathname flag mode room => exact L.open_enforced h rfl rfl nofun
  | creat pathname mode room => exact L.open_enforced h rfl rfl nofun
  | close fd => exact close_enforced h
  | dup fd => exact L.dup_enforced h
  | lseek fd offset origin => exact (sysLseek_moved h).enforced nofun
  | read fd count io =>
    obtain ⟨⟨n, bytes, k₂⟩, hread, heq⟩ := Option.map_eq_some_iff.mp h
    cases heq
    exact L.read_enforced hmodest hread
  | write fd count buf io fit disk => exact L.write_enforced hmodest.1 hmodest.2 h
  | dup2 | fcntl | pipe | fork | execve | exit | chdir | chroot | mount | umount => cases hcall

/-- OPEN MODE. In every run whose calls keep to the flags of their descriptors, a file changes only through
a descriptor that was opened for writing, and its bytes are read only through one that was opened for
reading. The run may start from any settled state, such as those that `mount_root` leaves. -/
theorem open_mode_enforced
    (h : Reach step (fun k ev => Modest k ev.cur ev.call) (fun k => Settled k 0) k) {ev : Event}
    (hcall : ev.call.onFile = true) (hmodest : Modest k ev.cur ev.call)
    (hact : ev.call.act ev.cur k = some (e, k')) : Enforced k ev.cur ev.call e k' :=
  have L : Settled k 0 := h.invariant (fun _ hi => hi) fun _ _ _ hi _ => step_settled hi
  L.enforced hcall hmodest hact

/-- A disk with the file "d", which everybody may read and write, and the file "m", which everybody may read.
All tasks are those of user 5. -/
def twoFiles : Kernel where
  vol :=
    { fs :=
        { inode := fun i =>
            if i = ⟨0x301, 1⟩ then ⟨0o040755, 0, 0, 2, 32, fun b => if b = 0 then 10 else 0, false⟩
            else if i = ⟨0x301, 2⟩ then ⟨0o100666, 0, 0, 1, 1, fun _ => 0, false⟩
            else if i = ⟨0x301, 3⟩ then ⟨0o100444, 0, 0, 1, 1, fun _ => 0, false⟩
            else .zero
          count := 0
          superBlock := fun _ => ⟨0, none⟩
          dirBlock := fun _ _ n =>
            ⟨BitVec.ofNat 16 (n + 2), fun c => if c ≠ 0 then 0 else if n = 0 then 100 else 109⟩
          bcount := fun _ _ => 0 }
      data := fun _ _ => 0 }
  inodeSuper := fun _ => none
  file := fun _ => ⟨0, 0, 0, none, 0, none⟩
  task := fun _ =>
    some ⟨5, 5, 0, none, none, none, fun _ => none, fun _ => false, false, -1, false⟩
  rootDev := 0x301

theorem twoFiles_booted : Booted twoFiles := by
  refine ⟨fun _ => rfl, fun _ _ => rfl, fun _ => rfl, fun _ => ⟨rfl, rfl, rfl⟩, fun cur t ht => ?_⟩
  cases ht
  exact ⟨rfl, rfl, rfl, fun _ => rfl, fun _ => rfl⟩

/-- The kernel after `mount_root` and one call, which opens a file. -/
def openedBy (name : Fs.Byte) (flag : BitVec 32) : Option Kernel :=
  (mountRoot twoFiles 0).bind fun k => step k ⟨0, .open [name] flag 0 ⟨none, 0⟩⟩

/-- One byte is written to descriptor 0. -/
def writeByte : Call := .write 0 1 (fun _ => 88) (0, 0) 1 twoFiles.vol

/-- File `j` begins with `c`, and it is a regular file with one link. -/
def Kernel.startsWith (k : Kernel) (j : Id) (c : Fs.Byte) : Bool :=
  (k.vol.fs.inode j).isReg ∧ isMounted k.vol.fs j.dev = true ∧ (k.vol.fs.inode j).nlinks = 1 ∧
    k.vol.data j 0 = c

/-- Descriptor 0 of task 0 is the first entry of `file_table`, opened with `flag`, and no device. -/
def Kernel.firstOpen (k : Kernel) (flag : BitVec 32) : Bool :=
  (k.task 0).bind (fun t => t.filp 0) = some 0 ∧ (k.file 0).flags = flag.setWidth 16 ∧
    (k.file 0).opened.map Opened.flag = some flag ∧
    (k.file 0).inode.all fun i => isBlk (k.vol.fs.inode i) = false

theorem isFile_of_startsWith {c : Fs.Byte} (h : k.startsWith j c = true) : k.IsFile j := by
  obtain ⟨hreg, hmounted, hlinks, -⟩ := of_decide_eq_true h
  refine ⟨hreg, .inl ?_, hmounted⟩
  rw [hlinks]
  decide

theorem first_of_fd {p : Fin 20} (h : k.firstOpen flag = true) (ht : k.task 0 = some t)
    (hfd : t.fd 0 = some (p, f)) : f = 0 := by
  obtain ⟨hp, hf⟩ := fd_some.mp hfd
  obtain rfl : p = 0 := Fin.ext hp
  have hfirst := (of_decide_eq_true h).1
  rw [ht] at hfirst
  exact Option.some.inj (hf.symm.trans hfirst)

theorem noDisk_of_first (h : k.firstOpen flag = true) : NoDisk k 0 0 := by
  intro t p f j ht hfd hj hdisk
  obtain ⟨-, -, -, hblk⟩ := of_decide_eq_true h
  rw [first_of_fd h ht hfd] at hj
  rw [hj] at hblk
  exact absurd (hdisk.blk.symm.trans (of_decide_eq_true hblk)) (by decide)

/-- The byte changes from 0 to 88. -/
theorem changed_of_startsWith (h : k.startsWith j 0 = true) (h' : k'.startsWith j 88 = true) :
    k'.vol.data j ≠ k.vol.data j := by
  intro heq
  have hbyte := (of_decide_eq_true h).2.2.2
  have hbyte' := (of_decide_eq_true h').2.2.2
  rw [heq, hbyte] at hbyte'
  exact absurd hbyte' (by decide)

/-- "d" is opened for reading and writing, and written. -/
theorem open_mode_enforced_write : ∃ k : Kernel, Through k 0 0 ⟨0x301, 2⟩ Fs.mayWrite := by
  have hrun : ((openedBy 100 2).bind fun k => (writeByte.act 0 k).map fun r =>
      k.firstOpen 2 && (k.startsWith ⟨0x301, 2⟩ 0 && r.2.startsWith ⟨0x301, 2⟩ 88)) = some true := by
    decide +kernel
  obtain ⟨k, hopen, hact⟩ := Option.bind_eq_some_iff.mp hrun
  obtain ⟨⟨e, k'⟩, hact, hproj⟩ := Option.map_eq_some_iff.mp hact
  obtain ⟨hfirst, hbyte⟩ := Bool.and_eq_true_iff.mp hproj
  obtain ⟨hbyte, hbyte'⟩ := Bool.and_eq_true_iff.mp hbyte
  obtain ⟨k₀, hroot, hstep⟩ := Option.bind_eq_some_iff.mp hopen
  have hallows : Allows k 0 0 Fs.mayWrite := by
    intro t p f j ht hfd _ _
    rw [first_of_fd hfirst ht hfd, (of_decide_eq_true hfirst).2.1]
    decide
  have hreach : Reach step (fun k ev => Modest k ev.cur ev.call) (fun k => Settled k 0) k :=
    .next ⟨0, .open [100] 2 0 ⟨none, 0⟩⟩
      (.start (mounted_settled ⟨twoFiles, 0, twoFiles_booted, hroot⟩)) trivial hstep
  have henforced : Enforced k 0 writeByte e k' :=
    open_mode_enforced hreach (show (⟨0, writeByte⟩ : Event).call.onFile = true from rfl) ⟨hallows, noDisk_of_first hfirst⟩ hact
  obtain ⟨fd, hfd, h⟩ := henforced.writes ⟨0x301, 2⟩ (isFile_of_startsWith hbyte)
    (isFile_of_startsWith hbyte') (.inr (changed_of_startsWith hbyte hbyte'))
  cases hfd
  exact ⟨k', h⟩

/-- User 5 opens "m" for reading and writes to it. -/
theorem write_unchecked : ¬ ∀ (k k' : Kernel) (ev : Event) (e : Int),
    Reach step (fun _ _ => True) Mounted k → (∀ t, k.task ev.cur = some t → t.euid ≠ 0) →
    ev.call.onFile = true → ev.call.act ev.cur k = some (e, k') → Enforced k ev.cur ev.call e k' := by
  intro hall
  have hrun : ((openedBy 109 0).bind fun k => (writeByte.act 0 k).map fun r =>
      (k.task 0).all (fun t => t.euid ≠ 0) && (r.2.firstOpen 0 &&
        (k.startsWith ⟨0x301, 3⟩ 0 && r.2.startsWith ⟨0x301, 3⟩ 88))) = some true := by
    decide +kernel
  obtain ⟨k, hopen, hact⟩ := Option.bind_eq_some_iff.mp hrun
  obtain ⟨⟨e, k'⟩, hact, hproj⟩ := Option.map_eq_some_iff.mp hact
  obtain ⟨huser, hproj⟩ := Bool.and_eq_true_iff.mp hproj
  obtain ⟨hfirst, hbyte⟩ := Bool.and_eq_true_iff.mp hproj
  obtain ⟨hbyte, hbyte'⟩ := Bool.and_eq_true_iff.mp hbyte
  obtain ⟨k₀, hroot, hstep⟩ := Option.bind_eq_some_iff.mp hopen
  have hreach : Reach step (fun _ _ => True) Mounted k :=
    .next ⟨0, .open [109] 0 0 ⟨none, 0⟩⟩ (.start ⟨twoFiles, 0, twoFiles_booted, hroot⟩) trivial hstep
  have huser : ∀ t, k.task 0 = some t → t.euid ≠ 0 := by
    intro t ht
    rw [ht] at huser
    exact of_decide_eq_true huser
  obtain ⟨fd, hfd, t, p, f, ht, hdesc, -, o, ho, hasks, -⟩ :=
    (hall k k' ⟨0, writeByte⟩ e hreach huser rfl hact).writes ⟨0x301, 3⟩ (isFile_of_startsWith hbyte)
      (isFile_of_startsWith hbyte') (.inr (changed_of_startsWith hbyte hbyte'))
  cases hfd
  have hflag := (of_decide_eq_true hfirst).2.2.1
  rw [first_of_fd hfirst ht hdesc] at ho
  rw [ho] at hflag
  rw [show o.flag = 0 from Option.some.inj hflag] at hasks
  exact absurd hasks (by decide)

end Linux011.Files
