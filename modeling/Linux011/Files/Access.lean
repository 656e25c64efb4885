import Linux011.Files.Calls

/-!
# Three checks of a mode (`sys_access`, `permission`, `do_execve`)

`permission` and `do_execve` look at the effective ids, `sys_access` at the real ones; for a task whose ids
coincide they should agree. `sys_access` shifts by 6 for the group, too: a member of the group is given the
bits of the owner.
-/

namespace Linux011.Files

open Fs (Id Byte MInode)

/-! ## Code -/

/-- `int`. -/
abbrev Int32 := BitVec 32

/-- The test of `sys_access`, with what it has read of `i_mode` and the inode behind it. -/
def accessTest (uid gid : BitVec 16) (iMode mode : Int32) (h : MInode) : Bool :=
  let res :=
    if uid = h.uid then iMode >>> 6
    else if gid = h.gid.setWidth 16 then iMode >>> 6
    else iMode
  (res &&& 7) &&& mode = mode ∨ uid = 0 ∧ (mode &&& 1 = 0 ∨ iMode &&& 0o111 ≠ 0)

/-- `sys_access` for a task with these real ids. The inode is given back before its owner is looked at. -/
def sysAccess (uid gid : BitVec 16) (me : Fs.Task) (fs : Fs.State) (filename : List Byte) (mode : Int32) :
    Option (Int × Fs.State) :=
  (Fs.namei me fs filename).map fun (r, fs) =>
    match r with
    | none => (-eacces, fs)
    | some i =>
      let iMode := ((fs.inode i).mode &&& 0o777).setWidth 32
      let fs := fs.iput i
      (if accessTest uid gid iMode (mode &&& 7) (fs.inode i) then 0 else -eacces, fs)

/-! ## The bits of a class -/

/-- The bits of the owner (6), of the group (3) or of the others (0). -/
def classBits (mode : BitVec 16) (k : Nat) : Int32 := ((mode >>> k) &&& 7).setWidth 32

variable {mode : BitVec 16} {k : Nat} {m : Int32}

theorem seven_bit (i : Nat) : (7#16).getLsbD i = decide (i < 3) := by
  by_cases hi : i < 16
  · have hbits : ∀ i : Fin 16, (7#16).getLsbD i.val = decide (i.val < 3) := by decide
    exact hbits ⟨i, hi⟩
  · rw [BitVec.getLsbD_of_ge _ _ (by omega)]
    exact (decide_eq_false (by omega)).symm

theorem rwx_bit (i : Nat) : (0o777#16).getLsbD i = decide (i < 9) := by
  by_cases hi : i < 16
  · have hbits : ∀ i : Fin 16, (0o777#16).getLsbD i.val = decide (i.val < 9) := by decide
    exact hbits ⟨i, hi⟩
  · rw [BitVec.getLsbD_of_ge _ _ (by omega)]
    exact (decide_eq_false (by omega)).symm

theorem classBits_of_mode (mode : BitVec 16) (k : Nat) :
    ((mode.setWidth 32 : Int32) >>> k) &&& 7 = classBits mode k := by
  apply BitVec.eq_of_getLsbD_eq
  intro i hi
  simp [classBits]

/-- What `sys_access` cuts off is above the bits it looks at. -/
theorem classBits_masked (hk : k ≤ 6) : classBits (mode &&& 0o777) k = classBits mode k := by
  unfold classBits
  congr 1
  apply BitVec.eq_of_getLsbD_eq
  intro i hi
  simp only [BitVec.getLsbD_and, BitVec.getLsbD_ushiftRight, seven_bit, rwx_bit, BitVec.ofNat_eq_ofNat]
  grind

theorem widen_inj (x y : BitVec 16) : (x.setWidth 32 : Int32) = y.setWidth 32 ↔ x = y := by
  refine ⟨fun heq => ?_, fun heq => by rw [heq]⟩
  have hback := congrArg (BitVec.setWidth 16) heq
  simpa using hback

theorem shift_bit (mode : BitVec 16) (k : Nat) :
    mode >>> k &&& 1 = (BitVec.ofBool (mode.getLsbD k)).setWidth 16 := by
  have h := BitVec.and_one_eq_setWidth_ofBool_getLsbD (x := mode >>> k)
  rw [BitVec.getLsbD_ushiftRight, Nat.add_zero] at h
  exact h

theorem shift_and_one (mode : BitVec 16) (k : Nat) : mode >>> k &&& 1 = 0 ↔ mode.getLsbD k = false := by
  rw [shift_bit]
  cases mode.getLsbD k <;> decide

theorem shift_bit_inj (mode : BitVec 16) (k j : Nat) :
    mode.getLsbD k = mode.getLsbD j ↔ mode >>> k &&& 1 = mode >>> j &&& 1 := by
  rw [shift_bit, shift_bit]
  cases mode.getLsbD k <;> cases mode.getLsbD j <;> decide

theorem classBits_exec (mode : BitVec 16) (k : Nat) :
    classBits mode k &&& 1 = 1 ↔ mode.getLsbD k = true := by
  have h : classBits mode k &&& 1 = (mode >>> k &&& 1).setWidth 32 := by
    apply BitVec.eq_of_getLsbD_eq
    intro i hi
    by_cases hi : i = 0
    · subst hi
      simp [classBits]
    · simp [classBits, hi]
  rw [h, shift_bit]
  cases mode.getLsbD k <;> decide

theorem classBits_rw (mode : BitVec 16) (k j : Nat) :
    classBits mode k &&& 6 = classBits mode j &&& 6 ↔ mode >>> k &&& 6 = mode >>> j &&& 6 := by
  have h : ∀ k, classBits mode k &&& 6 = (mode >>> k &&& 6).setWidth 32 := by
    intro k
    have hsix : (7 : BitVec 16) &&& 6 = 6 := by decide
    have hwide : (6 : Int32) = (6 : BitVec 16).setWidth 32 := by decide
    rw [classBits, hwide, ← BitVec.setWidth_and, BitVec.and_assoc, hsix]
  rw [h, h, widen_inj]

/-- Any bit for execution is one of three. -/
theorem exec_of_bit (h : mode.getLsbD k = true) (hk : k = 0 ∨ k = 3 ∨ k = 6) : mode &&& 0o111 ≠ 0 := by
  intro hzero
  have hbit : (mode &&& 0o111).getLsbD k = true := by
    rw [BitVec.getLsbD_and, h]
    obtain rfl | rfl | rfl := hk <;> rfl
  rw [hzero] at hbit
  revert hbit
  simp

/-- Two sets of bits grant the same requests below `a` if they have the same members in `a`. -/
theorem grants_same {w : Nat} (x y a : BitVec w) :
    (∀ m, m &&& a = m → (x &&& m = m ↔ y &&& m = m)) ↔ x &&& a = y &&& a := by
  constructor
  · intro h
    have hx := (h (x &&& a) (by grind)).mp (by grind)
    have hy := (h (y &&& a) (by grind)).mpr (by grind)
    grind
  · intro h m hm
    have hx : x &&& m = x &&& a &&& m := by grind
    have hy : y &&& m = y &&& a &&& m := by grind
    rw [hx, hy, h]

/-! ## What each check grants -/

variable {t : Task} {me : Fs.Task} {h : MInode} {i : Id} {uid gid : BitVec 16}

/-- A request that `sys_access` is given is cut to three bits. -/
theorem request_small (hm : m &&& 6 = m) : m &&& 7 = m ∧ m &&& 1 = 0 := by
  have h6 : (6 : Int32) &&& 7 = 6 := by decide
  have h1 : (6 : Int32) &&& 1 = 0 := by decide
  constructor
  · rw [← hm, BitVec.and_assoc, h6]
  · rw [← hm, BitVec.and_assoc, h1]
    exact BitVec.and_zero

/-- The class that `sys_access` looks at. -/
def grantedClass (uid gid : BitVec 16) (h : MInode) : Nat :=
  if uid = h.uid ∨ gid = h.gid.setWidth 16 then 6 else 0

/-- The class that `permission` and `do_execve` look at. -/
def classOf (uid gid : BitVec 16) (h : MInode) : Nat :=
  if uid = h.uid then 6 else if gid = h.gid.setWidth 16 then 3 else 0

theorem grantedClass_mem (uid gid : BitVec 16) (h : MInode) :
    grantedClass uid gid h = 0 ∨ grantedClass uid gid h = 3 ∨ grantedClass uid gid h = 6 := by
  unfold grantedClass
  split <;> simp

theorem classOf_mem (uid gid : BitVec 16) (h : MInode) :
    classOf uid gid h = 0 ∨ classOf uid gid h = 3 ∨ classOf uid gid h = 6 := by
  unfold classOf
  split
  · simp
  · split <;> simp

/-- `sys_access` looks at the owner's bits for the group, too. -/
theorem accessTest_iff : accessTest uid gid ((h.mode &&& 0o777).setWidth 32) m h = true ↔
    classBits h.mode (grantedClass uid gid h) &&& m = m ∨
      uid = 0 ∧ (m &&& 1 = 0 ∨ h.mode &&& 0o111 ≠ 0) := by
  have hexec : ((h.mode &&& 0o777).setWidth 32 : Int32) &&& 0o111 ≠ 0 ↔ h.mode &&& 0o111 ≠ 0 := by
    have hwide : ((h.mode &&& 0o777).setWidth 32 : Int32) &&& 0o111 = (h.mode &&& 0o111).setWidth 32 := by
      have hnine : (0o777 : BitVec 16) &&& 0o111 = 0o111 := by decide
      have hconst : (0o111 : Int32) = (0o111 : BitVec 16).setWidth 32 := by decide
      rw [hconst, ← BitVec.setWidth_and, BitVec.and_assoc, hnine]
    rw [hwide]
    exact not_congr (widen_inj _ 0)
  have hres : (if uid = h.uid then ((h.mode &&& 0o777).setWidth 32 : Int32) >>> 6
      else if gid = h.gid.setWidth 16 then ((h.mode &&& 0o777).setWidth 32 : Int32) >>> 6
      else ((h.mode &&& 0o777).setWidth 32 : Int32)) &&& 7 =
      classBits h.mode (grantedClass uid gid h) := by
    unfold grantedClass
    have hsix := (classBits_of_mode (h.mode &&& 0o777) 6).trans (classBits_masked (Nat.le_refl 6))
    have hzero := (classBits_of_mode (h.mode &&& 0o777) 0).trans (classBits_masked (Nat.zero_le 6))
    rw [BitVec.ushiftRight_zero] at hzero
    by_cases hu : uid = h.uid
    · rw [if_pos hu, if_pos (.inl hu), hsix]
    · by_cases hg : gid = h.gid.setWidth 16
      · rw [if_neg hu, if_pos hg, if_pos (.inr hg), hsix]
      · rw [if_neg hu, if_neg hg, if_neg (not_or.mpr ⟨hu, hg⟩), hzero]
  simp only [accessTest, hres, hexec, decide_eq_true_eq]

theorem permission_iff (hlinks : h.nlinks ≠ 0) : Fs.permission me i h m = true ↔
    classBits h.mode (classOf me.euid me.egid h) &&& m = m ∨ me.euid = 0 := by
  have hno : ¬ (i.dev ≠ 0 ∧ h.nlinks = 0) := fun hdel => hlinks hdel.2
  have hclass : (if me.euid = h.uid then (h.mode.setWidth 32 : Int32) >>> 6
      else if me.egid = h.gid.setWidth 16 then (h.mode.setWidth 32 : Int32) >>> 3
      else h.mode.setWidth 32) &&& m &&& 7 = classBits h.mode (classOf me.euid me.egid h) &&& m := by
    have hzero := classBits_of_mode h.mode 0
    rw [BitVec.ushiftRight_zero] at hzero
    rw [← classBits_of_mode]
    unfold classOf
    split
    · grind
    · split <;> grind
  simp only [Fs.permission, if_neg hno, hclass, decide_eq_true_eq]

theorem execCheck_iff (hreg : h.isReg = true) : execCheck t h = none ↔
    h.mode.getLsbD (classOf t.euid t.egid h) = true ∨ h.mode &&& 0o111 ≠ 0 ∧ t.euid = 0 := by
  have hclass : (if t.euid = h.uid then h.mode >>> 6
      else if t.egid = h.gid.setWidth 16 then h.mode >>> 3 else h.mode) =
      h.mode >>> classOf t.euid t.egid h := by
    unfold classOf
    split
    · rfl
    · split
      · rfl
      · exact (BitVec.ushiftRight_zero _).symm
  have hbit := shift_and_one h.mode (classOf t.euid t.egid h)
  simp only [execCheck, hreg, not_true_eq_false, if_false, hclass, hbit]
  grind

/-! ## The checks agree -/

theorem iput_inode (fs : Fs.State) (i : Id) (hlinks : (fs.inode i).nlinks ≠ 0) :
    (fs.iput i).inode i = fs.inode i := by
  unfold Fs.State.iput
  split
  · rfl
  · rfl

theorem sysAccess_iff {fs fs' : Fs.State} {filename : List Byte} (hnamei : Fs.namei me fs filename =
    some (some i, fs')) (hlinks : (fs'.inode i).nlinks ≠ 0) (mode : Int32) :
    (sysAccess uid gid me fs filename mode).map Prod.fst = some 0 ↔
      accessTest uid gid (((fs'.inode i).mode &&& 0o777).setWidth 32) (mode &&& 7) (fs'.inode i) = true := by
  simp only [sysAccess, hnamei, Option.map_some, iput_inode fs' i hlinks]
  split
  · rename_i htest
    exact iff_of_true rfl htest
  · rename_i htest
    exact iff_of_false (by decide) htest

theorem names_ids (hme : t.names = some me) : me.euid = t.euid ∧ me.egid = t.egid := by
  unfold Task.names at hme
  split at hme
  · cases hme
    exact ⟨rfl, rfl⟩
  · cases hme

/-- Requests to read and write that two classes grant, with the exception for the superuser. -/
theorem requests_agree (mode : BitVec 16) (k j : Nat) (root exec : Prop) :
    (∀ m : Int32, m &&& 6 = m →
      ((classBits mode k &&& m = m ∨ root ∧ (m &&& 1 = 0 ∨ exec)) ↔ (classBits mode j &&& m = m ∨ root))) ↔
    root ∨ mode >>> k &&& 6 = mode >>> j &&& 6 := by
  rw [← classBits_rw, ← grants_same]
  constructor
  · intro h
    by_cases hroot : root
    · exact .inl hroot
    · refine .inr fun m hm => ?_
      have hagree := h m hm
      simpa only [hroot, false_and, or_false] using hagree
  · intro h m hm
    have hbit := (request_small hm).2
    by_cases hroot : root
    · simp only [hroot, hbit, true_or, and_self, or_true]
    · have hagree := (h.resolve_left hroot) m hm
      simpa only [hroot, false_and, or_false] using hagree

/-- Execution; the superuser needs a bit of some class. -/
theorem exec_agrees (mode : BitVec 16) (k j : Nat) (root : Prop) (hk : k = 0 ∨ k = 3 ∨ k = 6)
    (hj : j = 0 ∨ j = 3 ∨ j = 6) :
    ((classBits mode k &&& 1 = 1 ∨ root ∧ ((1 : Int32) &&& 1 = 0 ∨ mode &&& 0o111 ≠ 0)) ↔
      (mode.getLsbD j = true ∨ mode &&& 0o111 ≠ 0 ∧ root)) ↔
    root ∨ mode.getLsbD k = mode.getLsbD j := by
  have hone : ¬ (1 : Int32) &&& 1 = 0 := by decide
  rw [classBits_exec]
  have hxk : mode.getLsbD k = true → mode &&& 0o111 ≠ 0 := fun hbit => exec_of_bit hbit hk
  have hxj : mode.getLsbD j = true → mode &&& 0o111 ≠ 0 := fun hbit => exec_of_bit hbit hj
  by_cases hroot : root
  · simp only [hroot, true_and, and_true, true_or, iff_true, hone, false_or]
    exact (or_iff_right_of_imp hxk).trans (or_iff_right_of_imp hxj).symm
  · simp only [hroot, false_and, and_false, or_false, false_or]
    exact Bool.eq_iff_iff.symm

/-- ACCESS CHECKS. For a task whose ids coincide `sys_access` and the two other checks agree on an inode
exactly if the task is the owner, or not in the group, or the superuser, or if the mode gives the group what
it gives the owner, as far as the checks look. -/
theorem access_agrees (t : Task) (me : Fs.Task) (fs fs' : Fs.State) (filename : List Byte) (i : Id)
    (uid gid : BitVec 16) (hme : t.names = some me)
    (hnamei : Fs.namei me fs filename = some (some i, fs')) (hlinks : (fs'.inode i).nlinks ≠ 0)
    (huid : uid = t.euid) (hgid : gid = t.egid) :
    ((∀ m : Int32, m &&& 6 = m →
        ((sysAccess uid gid me fs filename m).map Prod.fst = some 0 ↔
          Fs.permission me i (fs'.inode i) m = true)) ∧
      ((fs'.inode i).isReg = true →
        ((sysAccess uid gid me fs filename 1).map Prod.fst = some 0 ↔
          execCheck t (fs'.inode i) = none))) ↔
    (uid = (fs'.inode i).uid ∨ gid ≠ (fs'.inode i).gid.setWidth 16 ∨ uid = 0 ∨
      ((fs'.inode i).mode >>> 6 &&& 6 = (fs'.inode i).mode >>> 3 &&& 6 ∧
        ((fs'.inode i).isReg = true →
          (fs'.inode i).mode >>> 6 &&& 1 = (fs'.inode i).mode >>> 3 &&& 1))) := by
  obtain ⟨heuid, hegid⟩ := names_ids hme
  subst huid hgid
  have hone : (1 : Int32) &&& 7 = 1 := by decide
  have hrequests : (∀ m : Int32, m &&& 6 = m →
      ((sysAccess t.euid t.egid me fs filename m).map Prod.fst = some 0 ↔
        Fs.permission me i (fs'.inode i) m = true)) ↔
      t.euid = 0 ∨ (fs'.inode i).mode >>> grantedClass t.euid t.egid (fs'.inode i) &&& 6 =
        (fs'.inode i).mode >>> classOf t.euid t.egid (fs'.inode i) &&& 6 := by
    rw [← requests_agree _ _ _ _ ((fs'.inode i).mode &&& 0o111 ≠ 0)]
    refine forall_congr' fun m => imp_congr_right fun hm => ?_
    rw [sysAccess_iff hnamei hlinks, accessTest_iff, permission_iff hlinks, (request_small hm).1, heuid,
      hegid]
  have hexec : ∀ hreg : (fs'.inode i).isReg = true,
      (((sysAccess t.euid t.egid me fs filename 1).map Prod.fst = some 0 ↔
        execCheck t (fs'.inode i) = none) ↔
      (t.euid = 0 ∨ (fs'.inode i).mode >>> grantedClass t.euid t.egid (fs'.inode i) &&& 1 =
        (fs'.inode i).mode >>> classOf t.euid t.egid (fs'.inode i) &&& 1)) := by
    intro hreg
    rw [sysAccess_iff hnamei hlinks, accessTest_iff, execCheck_iff hreg, hone,
      exec_agrees _ _ _ _ (grantedClass_mem _ _ _) (classOf_mem _ _ _), shift_bit_inj]
  rw [hrequests, forall_congr' hexec]
  unfold grantedClass classOf
  by_cases hu : t.euid = (fs'.inode i).uid
  · simp [hu]
  · by_cases hg : t.egid = (fs'.inode i).gid.setWidth 16
    · by_cases hroot : t.euid = 0#16
      · simp [hroot]
      · simp [hu, hg, hroot]
    · simp [hu, hg]

/-- A volume with nothing but a root directory, which belongs to user 5 and group 3. -/
def rootOnly (mode : BitVec 16) : Fs.State where
  inode _ := { MInode.zero with mode := mode, uid := 5, gid := 3, nlinks := 2 }
  count := DFinsupp.single ⟨1, 1⟩ 1
  superBlock _ := ⟨0, none⟩
  dirBlock _ _ _ := ⟨0, fun _ => 0⟩
  bcount _ _ := 0

/-- A task of user 9 and group 3, whose root and working directory is the root of the volume. -/
def groupMember : Task where
  euid := 9
  egid := 3
  umask := 0
  root := some ⟨1, 1⟩
  pwd := some ⟨1, 1⟩
  executable := none
  filp _ := none
  closeOnExec _ := false
  leader := false
  tty := 0
  zombie := false

/-- The root directory, for a member of its group that may do what the owner may. -/
theorem access_agrees_root :
    (sysAccess 9 3 ⟨9, 3, ⟨1, 1⟩, ⟨1, 1⟩⟩ (rootOnly 0o040770) [47] 4).map Prod.fst = some 0 ↔
      Fs.permission ⟨9, 3, ⟨1, 1⟩, ⟨1, 1⟩⟩ ⟨1, 1⟩ ((rootOnly 0o040770).inode ⟨1, 1⟩) 4 = true :=
  ((access_agrees groupMember ⟨9, 3, ⟨1, 1⟩, ⟨1, 1⟩⟩ (rootOnly 0o040770) ((rootOnly 0o040770).hold ⟨1, 1⟩)
    [47] ⟨1, 1⟩ 9 3 rfl rfl (by decide) rfl rfl).mpr (by decide)).1 4 (by decide)

/-- A member of the group may read a directory with mode 0710, `sys_access` says. -/
theorem access_grants_owner_bits : ¬ ∀ (t : Task) (me : Fs.Task) (fs fs' : Fs.State) (filename : List Byte)
    (i : Id) (uid gid : BitVec 16), t.names = some me →
    Fs.namei me fs filename = some (some i, fs') → (fs'.inode i).nlinks ≠ 0 → uid = t.euid → gid = t.egid →
    ((∀ m : Int32, m &&& 6 = m →
        ((sysAccess uid gid me fs filename m).map Prod.fst = some 0 ↔
          Fs.permission me i (fs'.inode i) m = true)) ∧
      ((fs'.inode i).isReg = true →
        ((sysAccess uid gid me fs filename 1).map Prod.fst = some 0 ↔
          execCheck t (fs'.inode i) = none))) := by
  intro h
  have hread := (h groupMember ⟨9, 3, ⟨1, 1⟩, ⟨1, 1⟩⟩ (rootOnly 0o040710)
    ((rootOnly 0o040710).hold ⟨1, 1⟩) [47] ⟨1, 1⟩ 9 3 rfl rfl (by decide) rfl rfl).1 4 (by decide)
  revert hread
  decide

end Linux011.Files
