import Linux011.FileSys.Calls

/-!
# A logic of the calls

Whoever calls `bread` or `getblk` has a reference to the buffer, until `brelse`. A judgement `Holds base
x after` is about a program `x` that begins with the references `base` and ends with `after`. A `Logic`
is a judgement with its rules: how programs are put together, and what is true of the functions that
change an inode or a buffer. From these follows what the calls do, whatever the judgement says of a
program; a program is `Balanced` if it may be called whatever references are held, and keeps none.
The functions that create a file are left to each logic, since a new inode is no inode yet.
-/

namespace Linux011.FileSys

/-- The counts with a buffer, if there is one. -/
def withBuffer (base : Bh → Nat) : Option Bh → Bh → Nat
  | none => base
  | some bh => incCount base bh

section

variable (C : Type) [Contents C]

/-- A judgement, and the rules that it obeys. -/
structure Logic where
  Holds : {α : Type} → (Bh → Nat) → Call C α → (α → Bh → Nat) → Prop
  pure : ∀ {α : Type} {base : Bh → Nat} {after : α → Bh → Nat} {a : α}, base = after a →
    Holds base (Pure.pure a) after
  bind : ∀ {α β : Type} {base : Bh → Nat} {mid : β → Bh → Nat} {after : α → Bh → Nat} {x : Call C β}
    {f : β → Call C α}, Holds base x mid → (∀ b, Holds (mid b) (f b) after) → Holds base (x >>= f) after
  stop : ∀ {α : Type} {base : Bh → Nat} {after : α → Bh → Nat} {e : Stop}, e ≠ .freeBuffer →
    Holds base (Lib.Prog.stop e) after
  read : ∀ {α : Type} {base : Bh → Nat} {f : State C → α}, Holds base (Lib.Prog.read f) fun _ => base
  editTask : ∀ f base, Holds base (editTask f) fun _ => base
  currentTime : ∀ base, Holds base currentTime fun _ => base
  superOf : ∀ dev base, Holds base (superOf dev) fun _ => base
  setBytes : ∀ bh data base, Holds base (setBytes bh data) fun _ => base
  getblk : ∀ dev block base, Holds base (getblk dev block) (incCount base)
  breada : ∀ dev block base, Holds base (breada dev block) (incCount base)
  brelse : ∀ {base : Bh → Nat} {bh : Bh}, Holds (incCount base bh) (brelse bh) fun _ => base
  mark : ∀ i f base, Holds base (editInode i (MInode.mark f)) fun _ => base
  addCount : ∀ i n base, Holds base (editInode i (MInode.addCount n)) fun _ => base
  setDirt : ∀ i base, Holds base (editInode i fun h => { h with dirt := true }) fun _ => base
  touch : ∀ i base, Holds base (touch i false) fun _ => base
  bmap : ∀ i n create base, Holds base (bmap i n create) fun _ => base
  truncate : ∀ i base, Holds base (truncate i) fun _ => base
  iput : ∀ i base, Holds base (iput i) fun _ => base
  iget : ∀ dev nr base, Holds base (iget dev nr) fun _ => base
  addEntry : ∀ dir name base, Holds base (addEntry dir name false) fun found =>
    withBuffer base (found.map Prod.fst)
  isEmptyDir : ∀ i base, Holds base (isEmptyDir i) fun _ => base

end

variable {C α : Type} [Contents C]

/-- No reference is kept. -/
def Logic.Balanced (L : Logic C) (x : Call C α) : Prop := ∀ base, L.Holds base x fun _ => base

/-- `open_namei` may create a file. -/
def Logic.Creates (L : Logic C) : Prop :=
  ∀ dir basename flag mode, L.Balanced (createFile dir basename flag mode)

namespace Logic.Holds

variable {L : Logic C} {base : Bh → Nat} {after : α → Bh → Nat} {x y : Call C α}

theorem pure {a : α} (h : base = after a) : L.Holds base (Pure.pure a) after := L.pure h

theorem bind {β : Type} {mid : β → Bh → Nat} {x : Call C β} {f : β → Call C α} (hx : L.Holds base x mid)
    (hf : ∀ b, L.Holds (mid b) (f b) after) : L.Holds base (x >>= f) after :=
  L.bind hx hf

theorem stop {e : Stop} (h : e ≠ .freeBuffer) : L.Holds base (Lib.Prog.stop e) after := L.stop h

theorem read {f : State C → α} : L.Holds base (Lib.Prog.read f) fun _ => base := L.read

theorem brelse {bh : Bh} : L.Holds (incCount base bh) (FileSys.brelse bh) fun _ => base := L.brelse

theorem ite {c : Prop} [Decidable c] (hx : L.Holds base x after) (hy : L.Holds base y after) :
    L.Holds base (if c then x else y) after := by
  split
  · exact hx
  · exact hy

theorem when {c : Prop} [Decidable c] {x : Call C Unit} (hx : L.Holds base x fun _ => base) :
    L.Holds base (Lib.Prog.when c x) fun _ => base :=
  ite hx (pure rfl)

end Logic.Holds

section

variable (L : Logic C) {base : Bh → Nat} (dir i : Nat) (bh : Bh) (e : Nat) (flag : BitVec 32)
  (mode : BitVec 16) (path name : List Byte) (len : Nat)

/-- Something is put, and there is an answer. -/
theorem put_return {answer : α} (i : Nat) : L.Balanced (do iput i; return answer) := fun base =>
  .bind (L.iput i base) fun _ => .pure rfl

theorem iputOpt_balanced (p : Option Nat) : L.Balanced (iputOpt p) :=
  match p with
  | none => fun _ => .pure rfl
  | some i => L.iput i

theorem brelseOpt_counts (found : Option Bh) :
    L.Holds (withBuffer base found) (brelseOpt found) fun _ => base :=
  match found with
  | none => .pure rfl
  | some _ => .brelse

theorem permission_balanced (mask : BitVec 32) : L.Balanced (permission dir mask) :=
  fun _ => .bind .read fun _ => .bind .read fun _ => .ite (.pure rfl) (.pure rfl)

theorem writeEntryInode_balanced (bh : Bh) (e : Nat) (nr : Num) :
    L.Balanced (writeEntryInode bh e nr) :=
  fun base => .bind .read fun _ => L.setBytes bh _ base

theorem suser_balanced : L.Balanced suser := fun _ => .bind .read fun _ => .pure rfl

/-! ## Names -/

/-- The search keeps the buffer of the entry it finds, and no other. -/
theorem scanEntries_counts (entries n i : Nat) (bh : Option Bh) :
    L.Holds (withBuffer base bh) (scanEntries dir name len entries n i bh) fun found =>
      withBuffer base (found.map Prod.fst) := by
  induction n generalizing i bh with
  | zero => exact .stop nofun
  | succ n ih =>
    refine .ite (.bind (brelseOpt_counts L bh) fun _ => .pure rfl) (.ite ?_ ?_)
    · refine .bind (brelseOpt_counts L bh) fun _ => .bind (L.bmap dir _ false base) fun block => ?_
      refine .ite (ih (i + 64) none) (.bind .read fun h => ?_)
      refine .bind (L.getblk _ _ _) fun bh => .bind .read fun data => ?_
      exact .ite (.pure rfl) (ih (i + 1) (some bh))
    · cases bh with
      | none => exact .stop nofun
      | some bh =>
        refine .bind .read fun data => ?_
        exact .ite (.pure rfl) (ih (i + 1) (some bh))

theorem dotdot_balanced : L.Balanced (dotdot dir name len) := by
  intro base
  refine .ite (.bind .read fun t => ?_) (.pure rfl)
  refine .bind .read fun h => .ite (.pure rfl) (.ite ?_ (.pure rfl))
  refine .bind (L.superOf h.dev base) fun sb => ?_
  split
  · exact .pure rfl
  · next m _ =>
    refine .bind (L.iput dir base) fun _ => .bind (L.addCount m 1 base) fun _ => ?_
    exact .pure rfl

/-- `find_entry` keeps the buffer of the entry it finds. -/
theorem findEntry_counts : L.Holds base (findEntry dir name len) fun r =>
    withBuffer base (r.2.map Prod.fst) := by
  refine .bind .read fun h => .ite (.pure rfl) ?_
  refine .bind (dotdot_balanced L dir name _ base) fun ⟨dir, len⟩ => ?_
  refine .bind .read fun h => .ite (.pure rfl) ?_
  refine .bind (L.getblk _ _ _) fun bh => ?_
  exact .bind (scanEntries_counts L dir name len _ _ 0 (some bh)) fun found => .pure rfl

theorem getDirLoop_balanced (n inode : Nat) (pathname : List Byte) :
    L.Balanced (getDirLoop n inode pathname) := by
  intro base
  induction n generalizing inode pathname with
  | zero => exact .stop nofun
  | succ n ih =>
    refine .bind .read fun h => ?_
    refine .bind (permission_balanced L inode mayExec base) fun may => .ite ?_ (.ite (.pure rfl) ?_)
    · exact put_return L inode base
    · refine .bind (findEntry_counts L inode pathname _) fun ⟨inode, found⟩ => ?_
      match found with
      | none => exact put_return L inode base
      | some (bh, e) =>
        refine .bind .read fun data => .bind .read fun h => ?_
        refine .bind .brelse fun _ => .bind (L.iput inode base) fun _ => ?_
        exact .bind (L.iget _ _ base) fun inode => ih inode _

theorem getDirInode_balanced (pathname : List Byte) : L.Balanced (getDirInode pathname) := by
  intro base
  refine .bind .read fun t => ?_
  split
  · next root pwd _ _ =>
    refine .bind .read fun r => .bind .read fun p => ?_
    refine .ite (.stop nofun) ?_
    split
    · exact .pure rfl
    · exact .bind (L.addCount _ 1 base) fun _ => getDirLoop_balanced L _ _ _ base
  · exact .stop nofun

theorem dirNamei_balanced (pathname : List Byte) : L.Balanced (dirNamei pathname) := fun base =>
  .bind (getDirInode_balanced L pathname base) fun dir =>
    match dir with
    | none => .pure rfl
    | some _ => .pure rfl

theorem namei_balanced (pathname : List Byte) : L.Balanced (namei pathname) := by
  intro base
  refine .bind (dirNamei_balanced L pathname base) fun res => ?_
  match res with
  | none => exact .pure rfl
  | some (dir, basename) =>
    refine .ite (.pure rfl) (.bind (findEntry_counts L dir basename _) fun ⟨dir, found⟩ => ?_)
    match found with
    | none => exact put_return L dir base
    | some (bh, e) =>
      refine .bind .read fun data => .bind .read fun h => ?_
      refine .bind .brelse fun _ => .bind (L.iput dir base) fun _ => ?_
      refine .bind (L.iget _ _ base) fun i => .bind (L.setDirt i base) fun _ => ?_
      exact .pure rfl

/-! ## Calls on names -/

theorem openFile_counts : L.Holds (incCount base bh) (openFile dir bh e flag) fun _ => base := by
  refine .bind .read fun data => .bind .read fun h => ?_
  refine .bind .brelse fun _ => .bind (L.iput dir base) fun _ => .ite (.pure rfl) ?_
  refine .bind (L.iget _ _ base) fun i => .bind .read fun h => ?_
  refine .bind (permission_balanced L i _ base) fun may => .ite (put_return L i base) ?_
  exact .bind (.when (L.truncate i base)) fun _ => .pure rfl

theorem openNamei_balanced (hcreate : L.Creates) : L.Balanced (openNamei path flag mode) := by
  intro base
  refine .bind .read fun t => .bind (dirNamei_balanced L path base) fun res => ?_
  match res with
  | none => exact .pure rfl
  | some (dir, basename) =>
    refine .ite (.ite (.pure rfl) (put_return L dir base)) ?_
    refine .bind (findEntry_counts L dir basename _) fun ⟨dir, found⟩ => ?_
    match found with
    | none => exact hcreate dir basename _ _ base
    | some (bh, e) => exact openFile_counts L dir bh e _

theorem sysOpen_balanced (hcreate : L.Creates) (free : Bool) : L.Balanced (sysOpen path flag mode free) := by
  intro base
  refine .ite (.pure rfl) (.bind .read fun t => ?_)
  refine .bind (openNamei_balanced L flag _ path hcreate base) fun res => ?_
  match res with
  | (e, none) => exact .pure rfl
  | (e, some i) =>
    refine .bind .read fun h => .ite ?_ (.ite (put_return L i base) (.pure rfl))
    exact .bind (.when (L.editTask _ base)) fun _ => .pure rfl

theorem makeIn_balanced : L.Balanced (makeIn path) := by
  intro base
  refine .bind (suser_balanced L base) fun su => .ite (.pure rfl) ?_
  refine .bind (dirNamei_balanced L path base) fun res => ?_
  match res with
  | none => exact .pure rfl
  | some (dir, basename) =>
    refine .ite (put_return L dir base) (.bind (permission_balanced L dir _ base) fun may => ?_)
    refine .ite (put_return L dir base) (.bind (findEntry_counts L dir basename _) fun ⟨dir, found⟩ => ?_)
    match found with
    | none => exact .pure rfl
    | some (bh, e) => exact .bind .brelse fun _ => put_return L dir base

theorem sysLink_balanced (newname : List Byte) : L.Balanced (sysLink path newname) := by
  intro base
  have hputs : ∀ (i j : Nat) (r : Int), L.Holds base (do iput i; iput j; return r)
      fun _ => base :=
    fun i j r => .bind (L.iput i base) fun _ => put_return L j base
  refine .bind (namei_balanced L path base) fun res => ?_
  match res with
  | none => exact .pure rfl
  | some old =>
    refine .bind .read fun h => .ite (put_return L old base) ?_
    refine .bind (dirNamei_balanced L newname base) fun res => ?_
    match res with
    | none => exact put_return L old base
    | some (dir, basename) =>
      refine .bind .read fun hdir => .ite (hputs _ _ _) (.ite (hputs _ _ _) ?_)
      refine .bind (permission_balanced L dir _ base) fun may => .ite (hputs _ _ _) ?_
      refine .bind (findEntry_counts L dir basename _) fun ⟨dir, found⟩ => ?_
      match found with
      | some (bh, _) => exact .bind .brelse fun _ => hputs _ _ _
      | none =>
        refine .bind (L.addEntry dir basename base) fun place => ?_
        match place with
        | none => exact hputs _ _ _
        | some (bh, e) =>
          refine .bind (writeEntryInode_balanced L bh e _ _) fun _ => .bind .brelse fun _ => ?_
          refine .bind (L.iput dir base) fun _ => .bind (L.mark old _ base) fun _ => ?_
          exact put_return L old base

/-- The inode, its directory and the buffer of its entry. -/
theorem removeFrom_counts : L.Holds base (removeFrom path) fun r =>
    withBuffer base (r.2.map fun p => p.2.2.1) := by
  refine .bind (dirNamei_balanced L path base) fun res => ?_
  match res with
  | none => exact .pure rfl
  | some (dir, basename) =>
    refine .ite (.bind (L.iput dir base) fun _ => .pure rfl) ?_
    refine .bind (permission_balanced L dir _ base) fun may => .ite ?_ ?_
    · exact .bind (L.iput dir base) fun _ => .pure rfl
    · refine .bind (findEntry_counts L dir basename _) fun ⟨dir, found⟩ => ?_
      match found with
      | none => exact .bind (L.iput dir base) fun _ => .pure rfl
      | some (bh, e) =>
        refine .bind .read fun data => .bind .read fun h => ?_
        exact .bind (L.iget _ _ _) fun i => .pure rfl

theorem giveUp_counts (r : Int) : L.Holds (incCount base bh) (giveUp dir i bh r) fun _ => base :=
  .bind (L.iput dir _) fun _ => .bind (L.iput i _) fun _ => .bind .brelse fun _ => .pure rfl

theorem sysRmdir_balanced : L.Balanced (sysRmdir path) := by
  intro base
  refine .bind (suser_balanced L base) fun su => .ite (.pure rfl) ?_
  refine .bind (removeFrom_counts L path) fun res => ?_
  match res with
  | (e, none) => exact .pure rfl
  | (_, some (dir, i, bh, e)) =>
    have hgive : ∀ (i j : Nat) (r : Int),
        L.Holds (incCount base bh) (giveUp i j bh r) fun _ => base := fun i j =>
      giveUp_counts L i j bh
    refine .bind .read fun t => .bind .read fun hdir => ?_
    refine .bind .read fun h => .ite (hgive _ _ _) (.ite (hgive _ _ _) ?_)
    refine .ite (hgive _ _ _) (.ite (hgive _ _ _) (.bind (L.isEmptyDir i _) fun empty => ?_))
    refine .ite (hgive _ _ _) (.bind (writeEntryInode_balanced L bh e 0 _)
      fun _ => .bind .brelse fun _ => ?_)
    refine .bind (L.mark i _ base) fun _ => .bind (L.currentTime base) fun t => ?_
    refine .bind (L.mark dir _ base) fun _ => .bind (L.iput dir base) fun _ => ?_
    exact put_return L i base

theorem sysUnlink_balanced : L.Balanced (sysUnlink path) := by
  intro base
  refine .bind (removeFrom_counts L path) fun res => ?_
  match res with
  | (e, none) => exact .pure rfl
  | (_, some (dir, i, bh, e)) =>
    refine .bind .read fun t => .bind .read fun hdir => ?_
    refine .bind .read fun h => .ite (giveUp_counts L _ _ bh _) ?_
    refine .ite (giveUp_counts L _ _ bh _) (.bind (writeEntryInode_balanced L bh e 0 _) fun _ => ?_)
    refine .bind .brelse fun _ => .bind (L.mark i _ base) fun _ => ?_
    exact .bind (L.iput i base) fun _ => put_return L dir base

theorem changeInode_balanced (check : Task → MInode → Option Int) (f : BitVec 32 → DInode → DInode) :
    L.Balanced (changeInode path check f) := by
  intro base
  refine .bind (namei_balanced L path base) fun res => ?_
  match res with
  | none => exact .pure rfl
  | some i =>
    refine .bind .read fun t => .bind .read fun h => ?_
    split
    · exact put_return L i base
    · refine .bind (L.currentTime base) fun now => .bind (L.mark i _ base) fun _ => ?_
      exact put_return L i base

theorem sysStat_balanced : L.Balanced (sysStat path) := by
  intro base
  refine .bind (namei_balanced L path base) fun res => ?_
  match res with
  | none => exact .pure rfl
  | some i => exact .bind .read fun h => put_return L i base

theorem sysChdir_balanced : L.Balanced (sysChdir path) := by
  intro base
  refine .bind (namei_balanced L path base) fun res => ?_
  match res with
  | none => exact .pure rfl
  | some i =>
    refine .bind .read fun h => .ite (put_return L i base) ?_
    refine .bind .read fun t => .bind (iputOpt_balanced L _ base) fun _ => ?_
    exact .bind (L.editTask _ base) fun _ => .pure rfl

/-! ## Programs, reading and writing -/

theorem openProgram_counts : L.Holds base (openProgram i) fun r =>
    withBuffer base (r.2.map Prod.snd) := by
  refine .bind .read fun t => .bind .read fun h => ?_
  split
  · exact .bind (L.iput i base) fun _ => .pure rfl
  · exact .bind (L.getblk _ _ _) fun bh => .pure rfl

theorem startProgram_counts (room : Bool) (h : MInode) :
    L.Holds (incCount base bh) (startProgram room i h bh) fun _ => base := by
  refine .bind .read fun data => .bind .brelse fun _ => .ite (put_return L i base) ?_
  refine .ite (put_return L i base) (.bind .read fun t => ?_)
  exact .bind (iputOpt_balanced L _ base) fun _ => .bind (L.editTask _ base) fun _ => .pure rfl

theorem execFile_balanced (room : Bool) (bangs : Nat) :
    L.Balanced (execFile room bangs i) := by
  intro base
  induction bangs generalizing i with
  | zero =>
    refine .bind (openProgram_counts L i) fun res => ?_
    match res with
    | (e, none) => exact .pure rfl
    | (_, some (h, bh)) => exact startProgram_counts L i bh room h
  | succ bangs ih =>
    refine .bind (openProgram_counts L i) fun res => ?_
    match res with
    | (e, none) => exact .pure rfl
    | (_, some (h, bh)) =>
      refine .bind .read fun data => .ite ?_ (startProgram_counts L i bh room h)
      refine .bind .brelse fun _ => .bind (L.iput i base) fun _ => ?_
      split
      · exact .pure rfl
      · refine .ite (.pure rfl) (.bind (namei_balanced L _ base) fun res => ?_)
        match res with
        | none => exact .pure rfl
        | some i => exact ih i

theorem execLookup_balanced (room : Bool) : L.Balanced (execLookup path room) := by
  intro base
  refine .bind (namei_balanced L path base) fun res => ?_
  match res with
  | none => exact .pure rfl
  | some i => exact execFile_balanced L i room 1 base

theorem readLoop_balanced (n pos left : Nat) : L.Balanced (readLoop i n pos left) := by
  intro base
  induction n generalizing pos left with
  | zero => exact .pure rfl
  | succ n ih =>
    refine .ite (.pure rfl) (.bind (L.bmap i _ false base) fun nr => .ite ?_ ?_)
    · exact .bind (ih _ _) fun rest => .pure rfl
    · refine .bind .read fun h => .bind (L.getblk _ _ _) fun bh => ?_
      refine .bind .read fun data => .bind .brelse fun _ => ?_
      exact .bind (ih _ _) fun rest => .pure rfl

theorem growFile_balanced (pos : Nat) : L.Balanced (growFile i pos) := fun base =>
  .bind .read fun _ => .when (L.mark i _ base)

theorem writeLoop_balanced (buf : Nat → Byte) (count n pos done : Nat) :
    L.Balanced (writeLoop i buf count n pos done) := by
  intro base
  induction n generalizing pos done with
  | zero => exact .pure rfl
  | succ n ih =>
    refine .ite (.pure rfl) (.bind (L.bmap i _ true base) fun block => .ite (.pure rfl) ?_)
    refine .bind .read fun h => .bind (L.getblk _ _ _) fun bh => ?_
    refine .bind (growFile_balanced L i _ _) fun _ => .bind .read fun data => ?_
    exact .bind (L.setBytes bh _ _) fun _ => .bind .brelse fun _ => ih _ _

theorem fileWrite_balanced (file : File) (buf : Nat → Byte) (count : Nat) :
    L.Balanced (fileWrite file buf count) := fun base =>
  .bind .read fun _ => .bind (writeLoop_balanced L _ buf count _ _ _ base) fun (_, _) =>
    .bind (L.touch _ base) fun _ => .pure rfl

theorem blockReadFrom_balanced (dev : Dev) (block : Block) (n offset count : Nat) :
    L.Balanced (blockReadFrom dev n block offset count) := by
  intro base
  induction n generalizing block offset count with
  | zero => exact .pure rfl
  | succ n ih =>
    refine .ite (.pure rfl) (.bind (L.breada dev _ _) fun bh => ?_)
    refine .bind .read fun data => .bind .brelse fun _ => ?_
    exact .bind (ih _ _ _) fun rest => .pure rfl

theorem blockWriteFrom_balanced (dev : Dev) (buf : Nat → Byte) (block : Block)
    (n offset count written : Nat) :
    L.Balanced (blockWriteFrom dev buf n block offset count written) := by
  intro base
  have hfor : ∀ block chars, L.Holds base (blockFor dev block chars) (incCount base) :=
    fun block _ => .ite (L.getblk dev block _) (L.breada dev block _)
  induction n generalizing block offset count written with
  | zero => exact .pure rfl
  | succ n ih =>
    refine .ite (.pure rfl) (.bind (hfor _ _) fun bh => ?_)
    refine .bind .read fun data => .bind (L.setBytes bh _ _) fun _ => ?_
    exact .bind .brelse fun _ => ih _ _ _ _

theorem sysRead_balanced (file : File) (count : Int) (io : Int × List Byte) :
    L.Balanced (sysRead file count io) := by
  intro base
  refine .ite (.pure rfl) (.ite (.pure rfl) (.bind .read fun h => .ite (.pure rfl) ?_))
  refine .ite (.bind (blockReadFrom_balanced L _ _ _ _ _ base) fun bytes => .pure rfl) (.ite ?_ (.pure rfl))
  exact .ite (.pure rfl) (.bind (readLoop_balanced L _ _ _ _ base) fun bytes => .pure rfl)

theorem sysWrite_balanced (file : File) (count : Int) (buf : Nat → Byte) (io : Int) :
    L.Balanced (sysWrite file count buf io) := by
  intro base
  refine .ite (.pure rfl) (.ite (.pure rfl) (.bind .read fun h => .ite (.pure rfl) ?_))
  refine .ite (.bind (blockWriteFrom_balanced L _ _ _ _ _ _ _ base) fun written => .pure rfl)
    (.ite ?_ (.pure rfl))
  exact fileWrite_balanced L file buf _ base

/-- Every call, if it is so of those that create a file. -/
theorem SysCall.balanced (hcreate : L.Creates)
    (hmkdir : ∀ pathname mode, L.Balanced (sysMkdir pathname mode))
    (hmknod : ∀ filename mode dev, L.Balanced (sysMknod filename mode dev)) (c : SysCall) :
    L.Balanced c.run := by
  have hforget : ∀ {α} {x : Call C α}, L.Balanced x → L.Balanced (forget x) := fun hx base =>
    .bind (hx base) fun _ => .pure rfl
  cases c with
  | «open» filename flag mode free => exact hforget (sysOpen_balanced L flag mode filename hcreate free)
  | creat filename mode free => exact hforget (sysOpen_balanced L _ mode filename hcreate free)
  | mkdir pathname mode => exact hforget (hmkdir pathname mode)
  | rmdir name => exact hforget (sysRmdir_balanced L name)
  | unlink name => exact hforget (sysUnlink_balanced L name)
  | link oldname newname => exact hforget (sysLink_balanced L oldname newname)
  | mknod filename mode dev => exact hforget (hmknod filename mode dev)
  | stat filename => exact hforget (sysStat_balanced L filename)
  | chdir filename => exact hforget (sysChdir_balanced L filename)
  | exec filename room => exact hforget (execLookup_balanced L filename room)
  | read file count io => exact hforget (sysRead_balanced L file count io)
  | write file count buf io => exact hforget (sysWrite_balanced L file count buf io)

end

end Linux011.FileSys
