import Mathlib.Data.Fintype.Prod
import Linux011.Files.Calls
import Linux011.Lib.Count
import Linux011.Lib.Take

/-!
# Calls that return a descriptor

Each of these calls reserves descriptors and entries of `file_table` before it knows whether it succeeds,
and when it fails it should leave no trace. `sys_pipe` reserves two of each, one behind the other, and gives
back what it has. `sys_dup2` closes the new descriptor before it looks at the old one: when it fails then,
the new descriptor is gone.

`Kernel.Counts` is what the counters say between two calls.
-/

namespace Linux011.Files

open Fs (Id Byte)
open Lib (take)

/-! ## `sys_pipe`, step by step -/

/-- `f_count++` of a free entry. -/
def File.reserved (file : File) : File := { file with count := file.count + 1 }

/-- `f->f_count=0`. -/
def File.released (file : File) : File := { file with count := 0 }

/-- `sys_pipe` as it is written: two entries, then two descriptors, then the inode. -/
def pipeSteps (k : Kernel) (cur : Fin 64) (inode : Option Inode.Num) : Option (Int × Kernel) :=
  (k.task cur).bind fun t =>
    let (f, file) := take (fun file => file.count = 0) (fun _ file => file.reserved) 2 (List.finRange 64) []
      k.file
    match f with
    | [f0, f1] =>
      let (fd, filp) := take Option.isNone (fun j _ => [f0, f1][j]?) 2 (List.finRange 20) [] t.filp
      let k := { k with file := file }
      match fd with
      | [fd0, fd1] =>
        let t' := { t with filp := filp }
        if ¬ k.vol.fs.room then none
        else
          match inode with
          | none =>
            let k := k.setTask cur ((t'.setFilp fd0 none).setFilp fd1 none)
            let k := k.setFile f1 (k.file f1).released
            some (-1, k.setFile f0 (k.file f0).released)
          | some n =>
            let i : Id := ⟨0, n⟩
            if k.vol.fs.count i ≠ 0 then none
            else
              let v := k.vol.setInode i .zero
              let k := { k with vol := { v with fs := (v.fs.hold i).hold i } }
              let k := k.setTask cur t'
              let k := k.setFile f0 { k.file f0 with mode := 1, inode := some i, pos := 0, opened := none }
              some (0, k.setFile f1 { k.file f1 with mode := 2, inode := some i, pos := 0, opened := none })
      | [fd0] =>
        let k := k.setTask cur ({ t with filp := filp }.setFilp fd0 none)
        let k := k.setFile f1 (k.file f1).released
        some (-1, k.setFile f0 (k.file f0).released)
      | _ =>
        let k := k.setTask cur { t with filp := filp }
        let k := k.setFile f1 (k.file f1).released
        some (-1, k.setFile f0 (k.file f0).released)
    | [f0] => some (-1, { k with file := Function.update file f0 (file f0).released })
    | _ => some (-1, { k with file := file })

variable {k k' : Kernel} {cur : Fin 64} {t : Task}

theorem update_self_setTask (ht : k.task cur = some t) : k.setTask cur t = k := by
  unfold Kernel.setTask
  rw [← ht, Function.update_eq_self]

/-- What is reserved and released again is as it was. -/
theorem released_reserved {file : File} (h : file.count = 0) : file.reserved.released = file := by
  unfold File.reserved File.released
  rw [← h]

theorem freeFiles_eq (k : Kernel) :
    (List.finRange 64).filter (fun f => decide ((k.file f).count = 0)) = k.freeFiles := rfl

theorem isNone_filter (filp : Fin 20 → Option (Fin 64)) :
    (List.finRange 20).filter (fun fd => (filp fd).isNone) =
      (List.finRange 20).filter fun fd => filp fd = none := by
  refine List.filter_congr fun fd _ => ?_
  cases filp fd <;> rfl

theorem freeFiles_pair {f0 f1 : Fin 64} {rest : List (Fin 64)} (h : k.freeFiles = f0 :: f1 :: rest) :
    f0 ≠ f1 ∧ (k.file f0).count = 0 ∧ (k.file f1).count = 0 := by
  have hnodup : k.freeFiles.Nodup := (List.nodup_finRange 64).filter _
  have hfree : ∀ f ∈ k.freeFiles, (k.file f).count = 0 := fun f hf => by
    simpa using (List.mem_filter.mp hf).2
  rw [h] at hnodup hfree
  refine ⟨fun heq => ?_, hfree f0 List.mem_cons_self, hfree f1 (List.mem_cons_of_mem f0 List.mem_cons_self)⟩
  exact (List.nodup_cons.mp hnodup).1 (heq ▸ List.mem_cons_self)

theorem freeFds_pair {fd0 fd1 : Fin 20} {rest : List (Fin 20)} {filp : Fin 20 → Option (Fin 64)}
    (h : (List.finRange 20).filter (fun fd => filp fd = none) = fd0 :: fd1 :: rest) :
    fd0 ≠ fd1 ∧ filp fd0 = none ∧ filp fd1 = none := by
  have hnodup := (List.nodup_finRange 20).filter fun fd => decide (filp fd = none)
  have hfree : ∀ fd ∈ (List.finRange 20).filter (fun fd => filp fd = none), filp fd = none := fun fd hfd => by
    simpa using (List.mem_filter.mp hfd).2
  rw [h] at hnodup hfree
  refine ⟨fun heq => ?_, hfree fd0 List.mem_cons_self,
    hfree fd1 (List.mem_cons_of_mem fd0 List.mem_cons_self)⟩
  exact (List.nodup_cons.mp hnodup).1 (heq ▸ List.mem_cons_self)

/-- Two entries reserved and released. -/
theorem files_back {f0 f1 : Fin 64} (file : Fin 64 → File) (hne : f0 ≠ f1) (h0 : (file f0).count = 0)
    (h1 : (file f1).count = 0) :
    let file' := Function.update (Function.update file f0 (file f0).reserved) f1
      (Function.update file f0 (file f0).reserved f1).reserved
    Function.update (Function.update file' f1 (file' f1).released) f0
      (Function.update file' f1 (file' f1).released f0).released = file := by
  dsimp only
  rw [Function.update_self, Function.update_idem, Function.update_of_ne hne.symm, released_reserved h1,
    Function.update_of_ne hne, Function.update_self, released_reserved h0]
  funext f
  by_cases hf0 : f = f0
  · subst hf0
    rw [Function.update_self]
  · by_cases hf1 : f = f1
    · subst hf1
      rw [Function.update_of_ne hf0, Function.update_self]
    · rw [Function.update_of_ne hf0, Function.update_of_ne hf1, Function.update_of_ne hf0]

/-- Two descriptors reserved and given up. -/
theorem setFilp_undone {fd0 fd1 : Fin 20} (hne : fd0 ≠ fd1) (h0 : t.filp fd0 = none) (h1 : t.filp fd1 = none)
    (p0 p1 : Option (Fin 64)) :
    (((t.setFilp fd0 p0).setFilp fd1 p1).setFilp fd0 none).setFilp fd1 none = t := by
  unfold Task.setFilp
  dsimp only
  rw [Function.update_comm hne, Function.update_idem, Function.update_comm hne.symm, Function.update_idem,
    ← h0, Function.update_eq_self, h0, ← h1, Function.update_eq_self]

/-- The table with two entries reserved. -/
def Kernel.withPair (k : Kernel) (f0 f1 : Fin 64) : Kernel :=
  let file := Function.update k.file f0 (k.file f0).reserved
  { k with file := Function.update file f1 (file f1).reserved }

/-- A failure behind the reservation of the entries. -/
theorem withPair_undone {f0 f1 : Fin 64} (ht : k.task cur = some t) (hne : f0 ≠ f1)
    (h0 : (k.file f0).count = 0) (h1 : (k.file f1).count = 0) :
    let k₁ := (k.withPair f0 f1).setTask cur t
    let k₂ := k₁.setFile f1 (k₁.file f1).released
    k₂.setFile f0 (k₂.file f0).released = k := by
  have htask : Function.update k.task cur (some t) = k.task := by
    rw [← ht, Function.update_eq_self]
  have hfile := files_back k.file hne h0 h1
  unfold Kernel.withPair Kernel.setTask Kernel.setFile
  dsimp only at hfile ⊢
  rw [hfile, htask]

/-- The entries that are filled in. -/
theorem withPair_filled {f0 f1 : Fin 64} (hne : f0 ≠ f1) (h0 : (k.file f0).count = 0)
    (h1 : (k.file f1).count = 0) (mode0 mode1 : BitVec 16) (inode : Option Id) :
    let file := (k.withPair f0 f1).file
    let file₀ := Function.update file f0
      { file f0 with mode := mode0, inode := inode, pos := 0, opened := none }
    let filled := Function.update k.file f0
      { k.file f0 with mode := mode0, count := 1, inode := inode, pos := 0, opened := none }
    Function.update file₀ f1 { file₀ f1 with mode := mode1, inode := inode, pos := 0, opened := none } =
      Function.update filled f1
        { filled f1 with mode := mode1, count := 1, inode := inode, pos := 0, opened := none } := by
  have hzero : (k.withPair f0 f1).file f0 = (k.file f0).reserved := by
    simp [Kernel.withPair, Function.update_of_ne hne]
  have hone : (k.withPair f0 f1).file f1 = (k.file f1).reserved := by
    simp [Kernel.withPair, Function.update_of_ne hne.symm]
  dsimp only
  funext f
  by_cases hf1 : f = f1
  · subst hf1
    simp [Function.update_of_ne hne.symm, hone, File.reserved, h1]
  · by_cases hf0 : f = f0
    · subst hf0
      simp [Function.update_of_ne hne, hzero, File.reserved, h0]
    · simp [Function.update_of_ne hf1, Function.update_of_ne hf0, Kernel.withPair]

/-- Each failure gives back what was reserved: `sys_pipe` changes all or nothing. -/
theorem pipeSteps_eq (k : Kernel) (cur : Fin 64) (inode : Option Inode.Num) :
    pipeSteps k cur inode = sysPipe k cur inode := by
  unfold pipeSteps sysPipe
  cases ht : k.task cur with
  | none => rfl
  | some t =>
    simp only [Option.bind_some]
    rw [Lib.take_two _ _ (List.nodup_finRange 64), freeFiles_eq]
    cases hfiles : k.freeFiles with
    | nil => rfl
    | cons f0 rest =>
      cases rest with
      | nil =>
        have h0 : (k.file f0).count = 0 := by
          have hmem : f0 ∈ k.freeFiles := hfiles ▸ List.mem_cons_self
          simpa using (List.mem_filter.mp hmem).2
        simp only [Function.update_self, Function.update_idem, released_reserved h0, Function.update_eq_self]
      | cons f1 rest =>
        obtain ⟨hne, h0, h1⟩ := freeFiles_pair hfiles
        have hundone := withPair_undone ht hne h0 h1
        dsimp only
        rw [Lib.take_two _ _ (List.nodup_finRange 20), isNone_filter]
        cases hfds : (List.finRange 20).filter fun fd => decide (t.filp fd = none) with
        | nil => exact congrArg (fun k => some (-1, k)) hundone
        | cons fd0 more =>
          cases more with
          | nil =>
            have hfd0 : t.filp fd0 = none := by
              have hmem : fd0 ∈ (List.finRange 20).filter fun fd => decide (t.filp fd = none) :=
                hfds ▸ List.mem_cons_self
              simpa using (List.mem_filter.mp hmem).2
            have htask : (t.setFilp fd0 (some f0)).setFilp fd0 none = t := by
              unfold Task.setFilp
              rw [Function.update_idem, ← hfd0, Function.update_eq_self]
            rw [← htask] at hundone
            exact congrArg (fun k => some (-1, k)) hundone
          | cons fd1 more =>
            obtain ⟨hfd, hfd0, hfd1⟩ := freeFds_pair hfds
            dsimp only
            split
            · rfl
            · cases inode with
              | none =>
                have htask := setFilp_undone hfd hfd0 hfd1 (some f0) (some f1)
                rw [← htask] at hundone
                exact congrArg (fun k => some (-1, k)) hundone
              | some n =>
                have hfilled := withPair_filled hne h0 h1 1 2 (some ⟨0, n⟩)
                dsimp only
                split
                · rfl
                · exact congrArg (fun file => some ((0 : Int),
                    { (k.setFs (((k.vol.setInode ⟨0, n⟩ .zero).fs.hold ⟨0, n⟩).hold ⟨0, n⟩)).setTask cur
                        ((t.setFilp fd0 (some f0)).setFilp fd1 (some f1)) with file := file })) hfilled

/-! ## What the calls promise -/

/-- The descriptors that point to an entry. -/
def Kernel.pairs (k : Kernel) (f : Fin 64) : Nat :=
  ((Finset.univ : Finset (Fin 64 × Fin 20)).filter fun p =>
    (k.task p.1).bind (fun t => t.filp p.2) = some f).card

/-- The reference counts: `f_count` is the number of descriptors, and only descriptors in use are to be closed
by `execve`. -/
structure Kernel.Counts (k : Kernel) : Prop where
  count : ∀ f, (k.file f).count = k.pairs f
  closeOnExec : ∀ i t fd, k.task i = some t → t.closeOnExec fd = true → t.filp fd ≠ none

/-- Descriptors and counts are as before. -/
structure Untouched (k k' : Kernel) (cur : Fin 64) : Prop where
  task : (k'.task cur).map (fun t => (t.filp, t.closeOnExec)) =
    (k.task cur).map fun t => (t.filp, t.closeOnExec)
  count : ∀ f, (k'.file f).count = (k.file f).count

inductive DescriptorCall
  | openPath (pathname : List Byte) (flag : BitVec 32) (mode : BitVec 16) (room : Room)
  | pipe (inode : Option Inode.Num)
  | dup (fd : Nat)
  | dup2 (oldfd newfd : Nat)
  | fcntl (fd : Nat) (cmd : Cmd) (arg : BitVec 32)

def DescriptorCall.run (k : Kernel) (cur : Fin 64) : DescriptorCall → Option (Int × Kernel)
  | .openPath pathname flag mode room => sysOpen k cur pathname flag mode room
  | .pipe inode => pipeSteps k cur inode
  | .dup fd => sysDup k cur fd
  | .dup2 oldfd newfd => sysDup2 k cur oldfd newfd
  | .fcntl fd cmd arg => sysFcntl k cur fd cmd arg

/-- `r` is the lowest free descriptor from `arg` on. -/
def Lowest (t : Task) (arg : Nat) (r : Int) : Prop :=
  ∃ n : Fin 20, r = n.val ∧ arg ≤ n.val ∧ t.filp n = none ∧
    ∀ m : Fin 20, arg ≤ m.val → m < n → t.filp m ≠ none

/-- What a call that succeeds has done. -/
def Returned (t : Task) (k' : Kernel) (cur : Fin 64) (r : Int) : DescriptorCall → Prop
  | .dup _ => Lowest t 0 r
  | .dup2 oldfd newfd => r = newfd ∧ ∃ t', k'.task cur = some t' ∧
      (t'.fd newfd).map Prod.snd = (t.fd oldfd).map Prod.snd ∧ (t.fd oldfd).isSome = true ∧
      ∀ fd : Fin 20, fd.val ≠ newfd → t'.filp fd = t.filp fd
  | .fcntl _ .dupfd arg => Lowest t arg.toNat r
  | _ => True

/-- A call that fails leaves no trace, and one that succeeds does what it should. -/
def Proper (k : Kernel) (cur : Fin 64) (t : Task) (c : DescriptorCall) : Prop :=
  ∀ r k', c.run k cur = some (r, k') → (r < 0 → Untouched k k' cur) ∧ (0 ≤ r → Returned t k' cur r c)

/-! ## `dupfd` -/

variable {r : Int} {fd arg : Nat}

theorem freeFd_lowest {n : Fin 20} (h : t.freeFd arg = some n) : Lowest t arg n.val := by
  obtain ⟨hn, before, after, hsplit, hbefore⟩ := List.find?_eq_some_iff_append.mp h
  have hn' : arg ≤ n.val ∧ t.filp n = none := by simpa using hn
  refine ⟨n, rfl, hn'.1, hn'.2, fun m harg hlt hm => ?_⟩
  have hsorted : (before ++ n :: after).Pairwise (· < ·) := hsplit ▸ List.pairwise_lt_finRange 20
  have hmem : m ∈ before ++ n :: after := hsplit ▸ List.mem_finRange m
  obtain hm' | hm' := List.mem_append.mp hmem
  · have hno := hbefore m hm'
    simp [harg, hm] at hno
  · obtain rfl | hm' := List.mem_cons.mp hm'
    · exact absurd hlt (lt_irrefl m)
    · have hgt : n < m := (List.pairwise_cons.mp (List.pairwise_append.mp hsorted).2.1).1 m hm'
      exact absurd hlt (lt_asymm hgt)

theorem dupfd_cases (ht : k.task cur = some t) (h : dupfd k cur fd arg = some (r, k')) :
    (r < 0 ∧ k' = k) ∨ ∃ p f n, t.fd fd = some (p, f) ∧ t.freeFd arg = some n ∧ r = n.val ∧
      k'.task cur = some ((t.clearExec n).setFilp n (some f)) := by
  unfold dupfd at h
  rw [ht, Option.bind_some] at h
  cases hfd : t.fd fd with
  | none =>
    rw [hfd] at h
    cases h
    exact .inl ⟨by decide, rfl⟩
  | some pf =>
    obtain ⟨p, f⟩ := pf
    rw [hfd] at h
    dsimp only at h
    split at h
    · cases h
      exact .inl ⟨by decide, rfl⟩
    · cases hfree : t.freeFd arg with
      | none =>
        rw [hfree] at h
        cases h
        exact .inl ⟨by decide, rfl⟩
      | some n =>
        rw [hfree] at h
        cases h
        refine .inr ⟨p, f, n, rfl, rfl, rfl, ?_⟩
        simp [Kernel.setFile, Kernel.setTask]

theorem untouched_self (k : Kernel) (cur : Fin 64) : Untouched k k cur := ⟨rfl, fun _ => rfl⟩

theorem dupfd_proper (ht : k.task cur = some t) (h : dupfd k cur fd arg = some (r, k')) :
    (r < 0 → Untouched k k' cur) ∧ (0 ≤ r → Lowest t arg r) := by
  obtain ⟨hneg, rfl⟩ | ⟨p, f, n, -, hfree, rfl, -⟩ := dupfd_cases ht h
  · exact ⟨fun _ => untouched_self k' cur, fun hpos => absurd hneg (Int.not_lt.mpr hpos)⟩
  · exact ⟨fun hneg => absurd hneg (Int.not_lt.mpr (Int.natCast_nonneg _)), fun _ => freeFd_lowest hfree⟩

/-! ## `sys_fcntl` and `sys_pipe` -/

theorem fcntl_proper (ht : k.task cur = some t) (fd : Nat) (cmd : Cmd) (arg : BitVec 32) :
    Proper k cur t (.fcntl fd cmd arg) := by
  intro r k' h
  have hrun : sysFcntl k cur fd cmd arg = some (r, k') := h
  unfold sysFcntl at hrun
  rw [ht, Option.bind_some] at hrun
  cases hfd : t.fd fd with
  | none =>
    rw [hfd] at hrun
    cases hrun
    exact ⟨fun _ => untouched_self k cur, fun hpos => absurd hpos (by decide)⟩
  | some nf =>
    obtain ⟨n, f⟩ := nf
    rw [hfd] at hrun
    cases cmd with
    | dupfd => exact dupfd_proper ht hrun
    | getfd =>
      cases hrun
      exact ⟨fun _ => untouched_self k cur, fun _ => trivial⟩
    | getfl =>
      cases hrun
      exact ⟨fun _ => untouched_self k cur, fun _ => trivial⟩
    | setfd =>
      cases hrun
      exact ⟨nofun, fun _ => trivial⟩
    | setfl =>
      cases hrun
      exact ⟨nofun, fun _ => trivial⟩
    | other =>
      cases hrun
      exact ⟨fun _ => untouched_self k cur, fun _ => trivial⟩

theorem pipe_proper (t : Task) (inode : Option Inode.Num) : Proper k cur t (.pipe inode) := by
  intro r k' h
  refine ⟨fun hneg => ?_, fun _ => trivial⟩
  have hrun : pipeSteps k cur inode = some (r, k') := h
  rw [pipeSteps_eq] at hrun
  unfold sysPipe at hrun
  cases ht : k.task cur with
  | none =>
    rw [ht] at hrun
    cases hrun
  | some t =>
    rw [ht, Option.bind_some] at hrun
    split at hrun
    · split at hrun
      · cases hrun
      · cases inode with
        | none =>
          cases hrun
          exact untouched_self k cur
        | some n =>
          dsimp only at hrun
          split at hrun
          · cases hrun
          · cases hrun
            exact absurd hneg (by decide)
    · cases hrun
      exact untouched_self k cur

/-! ## `sys_open` -/

/-- A descriptor that is free is not to be closed. -/
theorem clearExec_self (hk : k.Counts) (ht : k.task cur = some t) {fd : Fin 20} (h : t.filp fd = none) :
    t.clearExec fd = t := by
  have hbit : t.closeOnExec fd = false := by
    cases hexec : t.closeOnExec fd with
    | false => rfl
    | true => exact absurd h (hk.closeOnExec cur t fd ht hexec)
  unfold Task.clearExec
  rw [← hbit, Function.update_eq_self]

/-- A reservation that is given up, whatever else has changed. -/
theorem giveUp_untouched {k₁ : Kernel} {fd : Fin 20} {f : Fin 64} (ht : k.task cur = some t)
    (hfd : t.filp fd = none) (hf : (k.file f).count = 0)
    (hcount : ∀ g, g ≠ f → (k₁.file g).count = (k.file g).count) :
    Untouched k (k₁.giveUp cur t fd f) cur := by
  have hfilp : Function.update t.filp fd none = t.filp := by
    rw [← hfd, Function.update_eq_self]
  constructor
  · simp [Kernel.giveUp, Kernel.setFile, Kernel.setTask, Task.setFilp, ht, hfilp]
  · intro g
    by_cases hg : g = f
    · subst hg
      simp [Kernel.giveUp, Kernel.setFile, hf]
    · rw [← hcount g hg]
      simp [Kernel.giveUp, Kernel.setFile, Kernel.setTask, hg]

theorem open_proper (hk : k.Counts) (ht : k.task cur = some t) (pathname : List Byte) (flag : BitVec 32)
    (mode : BitVec 16) (room : Room) : Proper k cur t (.openPath pathname flag mode room) := by
  intro r k' h
  refine ⟨fun hneg => ?_, fun _ => trivial⟩
  have hrun : sysOpen k cur pathname flag mode room = some (r, k') := h
  unfold sysOpen at hrun
  rw [ht, Option.bind_some] at hrun
  cases hfree : t.freeFd 0 with
  | none =>
    rw [hfree] at hrun
    cases hrun
    exact untouched_self k cur
  | some fd =>
    obtain ⟨n, hn, -, hfd, -⟩ := freeFd_lowest hfree
    have heq : fd = n := Fin.ext (Int.ofNat_inj.mp hn)
    subst heq
    rw [hfree] at hrun
    dsimp only at hrun
    rw [clearExec_self hk ht hfd, update_self_setTask ht] at hrun
    cases hfile : k.freeFiles.head? with
    | none =>
      rw [hfile] at hrun
      cases hrun
      exact untouched_self k cur
    | some f =>
      rw [hfile] at hrun
      have hf : (k.file f).count = 0 := by
        simpa using (List.mem_filter.mp (List.mem_of_mem_head? hfile)).2
      have hother : ∀ g, g ≠ f → ((k.reserve cur t fd f).file g).count = (k.file g).count := by
        intro g hg
        simp [Kernel.reserve, Kernel.setFile, Kernel.setTask, hg]
      obtain ⟨me, -, hrun⟩ := Option.bind_eq_some_iff.mp hrun
      obtain ⟨⟨res, v⟩, -, hrun⟩ := Option.map_eq_some_iff.mp hrun
      cases res with
      | inl e =>
        cases hrun
        exact giveUp_untouched ht hfd hf hother
      | inr opened =>
        obtain ⟨i, opened⟩ := opened
        dsimp only at hrun
        split at hrun
        · cases hrun
          exact giveUp_untouched ht hfd hf hother
        · cases hrun
          exact absurd hneg (Int.not_lt.mpr (Int.natCast_nonneg _))

/-! ## `sys_dup2` -/

theorem fd_some {p : Fin 20} {f : Fin 64} : t.fd fd = some (p, f) ↔ p.val = fd ∧ t.filp p = some f := by
  unfold Task.fd
  split
  · rename_i h
    rw [Option.map_eq_some_iff]
    constructor
    · rintro ⟨g, hg, heq⟩
      cases heq
      exact ⟨rfl, hg⟩
    · rintro ⟨rfl, hf⟩
      exact ⟨f, hf, rfl⟩
  · rename_i h
    refine iff_of_false nofun fun hp => h ?_
    rw [← hp.1]
    exact p.isLt

/-- An entry that a descriptor points to is counted. -/
theorem count_pos (hk : k.Counts) (ht : k.task cur = some t) {p : Fin 20} {f : Fin 64}
    (h : t.filp p = some f) : (k.file f).count ≠ 0 := by
  have hpoints : (k.task cur).bind (fun t => t.filp p) = some f := by
    rw [ht]
    exact h
  rw [hk.count]
  unfold Kernel.pairs
  rw [ne_eq, Lib.card_filter_zero]
  intro hnone
  have hno := hnone (cur, p) (by simp)
  exact hno hpoints

/-- Closing a descriptor that is not open changes nothing. -/
theorem sysClose_none (hk : k.Counts) (ht : k.task cur = some t) (h : t.fd fd = none) :
    sysClose k cur fd = some (-einval, k) := by
  unfold sysClose
  rw [ht, Option.bind_some]
  split
  · rename_i hlt
    have hfilp : t.filp ⟨fd, hlt⟩ = none := by
      unfold Task.fd at h
      rw [dif_pos hlt] at h
      exact Option.map_eq_none_iff.mp h
    have hclear := clearExec_self hk ht hfilp
    rw [hclear]
    dsimp only
    rw [hfilp]
    dsimp only
    rw [update_self_setTask ht]
  · rfl

/-- Closing an open descriptor takes it from the task. -/
theorem sysClose_some (hk : k.Counts) (ht : k.task cur = some t) {p : Fin 20} {f : Fin 64}
    (h : t.fd fd = some (p, f)) : ∃ k', sysClose k cur fd = some (0, k') ∧
      k'.task cur = some ((t.clearExec p).setFilp p none) := by
  obtain ⟨rfl, hf⟩ := fd_some.mp h
  have hcount := count_pos hk ht hf
  unfold sysClose
  rw [ht, Option.bind_some, dif_pos p.isLt]
  have hclear : (t.clearExec p).filp p = some f := hf
  dsimp only
  rw [hclear]
  dsimp only
  rw [if_neg hcount]
  split
  · exact ⟨_, rfl, by simp [Kernel.setFile, Kernel.setTask]⟩
  · exact ⟨_, rfl, by simp [Kernel.setFile, Kernel.setTask, Kernel.setFs]⟩

theorem freeFd_self {p : Fin 20} (h : t.filp p = none) : t.freeFd p.val = some p := by
  cases hfree : t.freeFd p.val with
  | none =>
    have hno := List.find?_eq_none.mp hfree p (List.mem_finRange p)
    simp [h] at hno
  | some n =>
    obtain ⟨m, hm, hle, -, hbelow⟩ := freeFd_lowest hfree
    have heq : n = m := Fin.ext (Int.ofNat_inj.mp hm)
    subst heq
    obtain hlt | heq := lt_or_eq_of_le (Fin.le_def.mpr hle)
    · exact absurd h (hbelow p (Nat.le_refl _) hlt)
    · rw [heq]

/-- `dupfd` to a descriptor that is free. -/
theorem dupfd_free (ht : k.task cur = some t) {p q : Fin 20} {f : Fin 64} (hfd : t.fd fd = some (q, f))
    (hp : t.filp p = none) : ∃ k' : Kernel, dupfd k cur fd p.val = some ((p.val : Int), k') ∧
      k'.task cur = some ((t.clearExec p).setFilp p (some f)) := by
  have harg : ¬ 20 ≤ p.val := Nat.not_le.mpr p.isLt
  unfold dupfd
  rw [ht, Option.bind_some, hfd]
  dsimp only
  rw [if_neg harg, freeFd_self hp]
  exact ⟨_, rfl, by simp [Kernel.setFile, Kernel.setTask]⟩

theorem dupfd_bad (ht : k.task cur = some t) (hfd : t.fd fd = none) (arg : Nat) :
    dupfd k cur fd arg = some (-ebadf, k) := by
  unfold dupfd
  rw [ht, Option.bind_some, hfd]

/-- The entry of one descriptor in another one. -/
theorem setFilp_fd {p q : Fin 20} {f : Fin 64} (hfd : t.fd fd = some (q, f)) (ts : Task)
    (hts : ∀ m, m ≠ p → ts.filp m = t.filp m) :
    let t' := (ts.clearExec p).setFilp p (some f)
    (t'.fd p.val).map Prod.snd = (t.fd fd).map Prod.snd ∧ (t.fd fd).isSome = true ∧
      ∀ m : Fin 20, m.val ≠ p.val → t'.filp m = t.filp m := by
  have hp : ((ts.clearExec p).setFilp p (some f)).fd p.val = some (p, f) :=
    fd_some.mpr ⟨rfl, Function.update_self ..⟩
  dsimp only
  rw [hp, hfd]
  refine ⟨rfl, rfl, fun m hm => ?_⟩
  have hne : m ≠ p := fun heq => hm (congrArg Fin.val heq)
  rw [← hts m hne]
  exact Function.update_of_ne hne ..

theorem dup2_iff (hk : k.Counts) (ht : k.task cur = some t) (oldfd newfd : Nat) :
    Proper k cur t (.dup2 oldfd newfd) ↔ t.fd newfd = none ∨ t.fd oldfd ≠ none ∧ oldfd ≠ newfd := by
  cases hnew : t.fd newfd with
  | none =>
    refine iff_of_true (fun r k' h => ?_) (.inl rfl)
    have hrun : dupfd k cur oldfd newfd = some (r, k') := by
      have hclose : sysDup2 k cur oldfd newfd = some (r, k') := h
      rw [sysDup2, sysClose_none hk ht hnew] at hclose
      exact hclose
    obtain ⟨hneg, rfl⟩ | ⟨q, f, n, hold, hfree, rfl, htask⟩ := dupfd_cases ht hrun
    · exact ⟨fun _ => untouched_self k' cur, fun hpos => absurd hneg (Int.not_lt.mpr hpos)⟩
    · refine ⟨fun hneg => absurd hneg (Int.not_lt.mpr (Int.natCast_nonneg _)), fun _ => ?_⟩
      obtain ⟨m, hm, hle, -, hbelow⟩ := freeFd_lowest hfree
      have heq : n = m := Fin.ext (Int.ofNat_inj.mp hm)
      subst heq
      have hlt : newfd < 20 := Nat.lt_of_le_of_lt hle n.isLt
      have hfilp : t.filp ⟨newfd, hlt⟩ = none := by
        unfold Task.fd at hnew
        rw [dif_pos hlt] at hnew
        exact Option.map_eq_none_iff.mp hnew
      have hn : n.val = newfd := by
        by_contra hne
        exact hbelow ⟨newfd, hlt⟩ (Nat.le_refl newfd) (Fin.lt_def.mpr (by simp; omega)) hfilp
      subst hn
      exact ⟨rfl, _, htask, setFilp_fd hold t fun _ _ => rfl⟩
  | some pf =>
    obtain ⟨p, f⟩ := pf
    obtain ⟨k₁, hclose, ht₁⟩ := sysClose_some hk ht hnew
    obtain ⟨rfl, hf⟩ := fd_some.mp hnew
    have hrun : (DescriptorCall.dup2 oldfd p.val).run k cur = dupfd k₁ cur oldfd p.val := by
      change sysDup2 k cur oldfd p.val = _
      rw [sysDup2, hclose]
      rfl
    have hclosed : ((t.clearExec p).setFilp p none).filp p = none := Function.update_self ..
    have hothers : ∀ m, m ≠ p → ((t.clearExec p).setFilp p none).filp m = t.filp m :=
      fun m hm => Function.update_of_ne hm ..
    -- a call that fails now has closed the new descriptor
    have hgone : ∀ e : Int, e < 0 → dupfd k₁ cur oldfd p.val = some (e, k₁) →
        ¬ Proper k cur t (.dup2 oldfd p.val) := by
      intro e he hfail hproper
      have huntouched := (hproper e k₁ (hrun.trans hfail)).1 he
      have htask := huntouched.task
      rw [ht₁, ht] at htask
      have hfilp := congrFun (congrArg Prod.fst (Option.some.inj htask)) p
      dsimp only at hfilp
      rw [hclosed, hf] at hfilp
      cases hfilp
    by_cases hsame : oldfd = p.val
    · have hbad : ((t.clearExec p).setFilp p none).fd oldfd = none := by
        rw [hsame]
        unfold Task.fd
        rw [dif_pos p.isLt]
        exact Option.map_eq_none_iff.mpr hclosed
      exact iff_of_false (hgone _ (by decide) (dupfd_bad ht₁ hbad p.val))
        fun h => (h.resolve_left nofun).2 hsame
    · cases hold : t.fd oldfd with
      | none =>
        have hbad : ((t.clearExec p).setFilp p none).fd oldfd = none := by
          cases hbad : ((t.clearExec p).setFilp p none).fd oldfd with
          | none => rfl
          | some qg =>
            obtain ⟨q, g⟩ := qg
            obtain ⟨rfl, hg⟩ := fd_some.mp hbad
            rw [hothers q fun heq => hsame (congrArg Fin.val heq)] at hg
            exact absurd (fd_some.mpr ⟨rfl, hg⟩) (hold ▸ nofun)
        exact iff_of_false (hgone _ (by decide) (dupfd_bad ht₁ hbad p.val))
          fun h => (h.resolve_left nofun).1 rfl
      | some qg =>
        obtain ⟨q, g⟩ := qg
        have hold₁ : ((t.clearExec p).setFilp p none).fd oldfd = some (q, g) := by
          obtain ⟨rfl, hg⟩ := fd_some.mp hold
          exact fd_some.mpr ⟨rfl, (hothers q fun heq => hsame (congrArg Fin.val heq)).trans hg⟩
        obtain ⟨k', hdup, htask⟩ := dupfd_free ht₁ hold₁ hclosed
        refine iff_of_true (fun r k'' h => ?_) (.inr ⟨nofun, hsame⟩)
        rw [hrun, hdup] at h
        cases h
        refine ⟨fun hneg => absurd hneg (Int.not_lt.mpr (Int.natCast_nonneg _)), fun _ => ?_⟩
        exact ⟨rfl, _, htask, setFilp_fd hold _ hothers⟩

/-! ## Calls that fail without a trace -/

/-- DESCRIPTORS. Every call that fails leaves descriptors and counts as they were, and every call that succeeds
does what it should, but for one: a `sys_dup2` to a descriptor in use, from one that is not in use or from the
same. -/
theorem descriptor_calls (k : Kernel) (cur : Fin 64) (t : Task) (hk : k.Counts) (ht : k.task cur = some t)
    (c : DescriptorCall) : Proper k cur t c ↔ ∀ oldfd newfd, c = .dup2 oldfd newfd →
      t.fd newfd = none ∨ t.fd oldfd ≠ none ∧ oldfd ≠ newfd := by
  cases c with
  | openPath pathname flag mode room => exact iff_of_true (open_proper hk ht pathname flag mode room) nofun
  | pipe inode => exact iff_of_true (pipe_proper t inode) nofun
  | dup fd => exact iff_of_true (fun r k' h => dupfd_proper ht h) nofun
  | dup2 oldfd newfd =>
    rw [dup2_iff hk ht]
    exact ⟨fun h o n heq => by cases heq; exact h, fun h => h oldfd newfd rfl⟩
  | fcntl fd cmd arg => exact iff_of_true (fcntl_proper ht fd cmd arg) nofun

/-- A task that has opened one file. -/
def oneFile : Task where
  euid := 0
  egid := 0
  umask := 0
  root := none
  pwd := none
  executable := none
  filp fd := if fd = 0 then some 0 else none
  closeOnExec _ := false
  leader := false
  tty := 0
  zombie := false

/-- A kernel with this task alone. -/
def oneTask : Kernel where
  vol := ⟨⟨fun _ => .zero, 0, fun _ => ⟨0, none⟩, fun _ _ _ => ⟨0, fun _ => 0⟩, fun _ _ => 0⟩,
    fun _ _ => 0⟩
  inodeSuper _ := none
  file f := ⟨0, 0, if f = 0 then 1 else 0, none, 0, none⟩
  task i := if i = 1 then some oneFile else none
  rootDev := 0

theorem oneTask_counts : oneTask.Counts := by
  have hpoints : ∀ (i : Fin 64) (fd : Fin 20) (f : Fin 64),
      (oneTask.task i).bind (fun t => t.filp fd) = some f ↔ i = 1 ∧ fd = 0 ∧ 0 = f := by
    intro i fd f
    by_cases hi : i = 1 <;> by_cases hfd : fd = 0 <;> simp [oneTask, oneFile, hi, hfd]
  constructor
  · intro f
    unfold Kernel.pairs
    by_cases hf : f = 0
    · subst hf
      refine (Lib.card_filter_one (a := (1, 0)) (Finset.mem_univ _)
        ((hpoints 1 0 0).mpr ⟨rfl, rfl, rfl⟩) ?_).symm
      rintro ⟨i, fd⟩ - h
      obtain ⟨rfl, rfl, -⟩ := (hpoints i fd 0).mp h
      rfl
    · have hcount : (oneTask.file f).count = 0 := if_neg hf
      rw [hcount]
      refine (Lib.card_filter_zero.mpr ?_).symm
      rintro ⟨i, fd⟩ - h
      exact hf ((hpoints i fd f).mp h).2.2.symm
  · intro i t fd ht
    by_cases hi : i = 1
    · simp only [oneTask, if_pos hi] at ht
      cases ht
      exact nofun
    · simp only [oneTask, if_neg hi] at ht
      cases ht

/-- The file is opened a second time. -/
theorem descriptor_calls_dup2 : Proper oneTask 1 oneFile (.dup2 0 1) :=
  (descriptor_calls oneTask 1 oneFile oneTask_counts rfl (.dup2 0 1)).mpr fun o n h => by
    cases h
    decide

/-- Descriptor 1 is not open, and `dup2(1, 0)` closes descriptor 0. -/
theorem dup2_closes : ¬ ∀ (k : Kernel) (cur : Fin 64) (t : Task), k.Counts → k.task cur = some t →
    ∀ c : DescriptorCall, Proper k cur t c := by
  intro h
  have hcond := (dup2_iff oneTask_counts rfl 1 0).mp (h oneTask 1 oneFile oneTask_counts rfl (.dup2 1 0))
  revert hcond
  decide

end Linux011.Files
