import Linux011.Exec.Strings
import Linux011.Exec.Header
import Mathlib.Data.List.DropRight

/-!
# Programs that name their interpreter (`fs/exec.c`)

When the first block of a program begins with `#!`, `do_execve` takes the interpreter and one argument
from the first line, copies the strings of the caller, and splices in the name of the interpreter, its
argument and the name of the script in place of `argv[0]`. The pieces of the line stand on the kernel
stack, and the variables that point at them too. Then it goes on with the interpreter.

The count is kept by hand beside the strings: `--argc` for `argv[0]`, and one more for each string that
is spliced in. Without an `argv[0]` it is one too small, and the last of the new arguments becomes the
first string of the environment (`script_arguments_iff`).

What is left out: the inode of the file is a value that `files` finds under the path, with the error of
the checks on its mode and of `bread`; pages for page tables; what `do_execve` does to the task.
-/

namespace Linux011.Exec.Script

open Linux011.Lib Linux011.Lib.Paged Linux011.Exec.Strings

/-! ## The first line -/

/-- The first block of a file. -/
structure Block where
  bytes : List Byte
  length : bytes.length = 1024

/-- `strncpy`: after the terminator there are zeros only. -/
def strncpy : Nat → List Byte → List Byte
  | 0, _ => []
  | _ + 1, [] => []
  | n + 1, b :: src => if b = 0 then List.replicate (n + 1) 0 else b :: strncpy n src

/-- `strchr`, as an index. -/
def strchr : List Byte → Byte → Option Nat
  | [], _ => none
  | b :: s, c => if b = c then some 0 else if b = 0 then none else (strchr s c).map (· + 1)

def isBlank (b : Byte) : Bool := b = 32 || b = 9

/-- `for (cp = buf; (*cp == ' ') || (*cp == '\t'); cp++)`. -/
def pastBlanks : List Byte → Nat → Nat
  | [], cp => cp
  | b :: s, cp => if isBlank b then pastBlanks s (cp + 1) else cp

/-- The loop over the name of the interpreter: where it ends, and `i_name`. -/
def scanName : List Byte → Nat → Nat → Nat × Nat
  | [], cp, iName => (cp, iName)
  | b :: s, cp, iName =>
    if b ≠ 0 ∧ !isBlank b then scanName s (cp + 1) (if b = 47 then cp + 1 else iName) else (cp, iName)

/-- `buf` and the pointers into it. -/
structure Line where
  buf : List Byte
  interp : Nat
  iName : Nat
  iArg : Option Nat

/-- The name of the interpreter and its argument, or `-ENOEXEC`. -/
def parseLine (block : Block) : Option Line :=
  let buf := strncpy 1022 (block.bytes.drop 2) ++ [0]
  match strchr buf 10 with
  | none => none
  | some nl =>
    let buf := buf.set nl 0
    let cp := pastBlanks buf 0
    if buf.getD cp 0 = 0 then none
    else
      let (cp', iName) := scanName (buf.drop cp) cp cp
      if buf.getD cp' 0 = 0 then some ⟨buf, cp, iName, none⟩
      else some ⟨buf.set cp' 0, cp, iName, some (cp' + 1)⟩

/-! ## The kernel stack -/

/-- Where the variables of `do_execve` stand. -/
structure Frame where
  buf : Nat
  filename : Nat
  iArg : Nat
  iName : Nat
  apart : Apart [(buf, 1023), (filename, 4), (iArg, 4), (iName, 4)]
  pos : 0 < buf
  limit : ∀ r ∈ [(buf, 1023), (filename, 4), (iArg, 4), (iName, 4)], r.1 + r.2 ≤ dataLimit

/-- The data segment of the old program. -/
structure User where
  view : Nat → Option Byte
  limit : ∀ a, dataLimit ≤ a → view a = none

/-- The variables in memory; nothing else of the kernel is seen. -/
def Frame.view (K : Frame) (line : Line) (filename : Nat) (a : Nat) : Option Byte :=
  if K.buf ≤ a ∧ a < K.buf + 1023 then line.buf[a - K.buf]?
  else if K.filename ≤ a ∧ a < K.filename + 4 then (longBytes filename)[a - K.filename]?
  else if K.iArg ≤ a ∧ a < K.iArg + 4 then
    (longBytes (line.iArg.elim 0 (K.buf + ·)))[a - K.iArg]?
  else if K.iName ≤ a ∧ a < K.iName + 4 then (longBytes (K.buf + line.iName))[a - K.iName]?
  else none

def Frame.space (K : Frame) (user : User) (line : Line) (filename : Nat) : Space where
  view
    | .user => user.view
    | .kernel => K.view line filename
  limit s a h := by
    cases s with
    | user => exact user.limit a h
    | kernel =>
      have hlim := K.limit
      simp only [List.mem_cons, List.not_mem_nil, or_false, forall_eq_or_imp, forall_eq] at hlim
      obtain ⟨h1, h2, h3, h4⟩ := hlim
      show K.view line filename a = none
      unfold Frame.view
      rw [if_neg (by omega), if_neg (by omega), if_neg (by omega), if_neg (by omega)]

/-! ## `do_execve` -/

inductive Errno where
  | noent
  | acces
  | noexec
  | nomem

/-- What a path leads to. -/
structure File where
  /-- the error of the checks on the mode and of `bread` -/
  refused : Option Errno
  block : Block
  size : BitVec 32

inductive Failure where
  | errno (e : Errno)
  | halt (h : Halt)

def halts {α : Type} : Except Halt α → Except Failure α
  | .ok a => .ok a
  | .error h => .error (.halt h)

def stops {α : Type} (r : Except Stop α) : Except Failure α := halts (lift r)

/-- A string in memory. -/
def readString (v : Nat → Option Byte) : Nat → Nat → Except Stop (List Byte)
  | 0, _ => .error .trap
  | n + 1, a => do
    let b ← getFsByte v a
    if b = 0 then pure [] else return b :: (← readString v n (a + 1))

def namei (files : List Byte → Option File) (v : Nat → Option Byte) (name : Nat) :
    Except Failure File := do
  match files (← stops (readString v dataLimit name)) with
  | some inode => .ok inode
  | none => .error (.errno .noent)

/-- The checks from `restart_interp` to `bread`. -/
def firstBlock (inode : File) : Except Failure Block :=
  match inode.refused with
  | some e => .error (.errno e)
  | none => .ok inode.block

def Block.isScript (block : Block) : Bool := block.bytes[0]? = some 35 && block.bytes[1]? = some 33

def Block.long (block : Block) (a : Nat) : BitVec 32 :=
  block.bytes.getD (a + 3) 0 ++ block.bytes.getD (a + 2) 0 ++ block.bytes.getD (a + 1) 0 ++
    block.bytes.getD a 0

/-- `ex = *((struct exec *) bh->b_data)`. -/
def Block.header (block : Block) : Header where
  magic := block.long 0
  text := block.long 4
  data := block.long 8
  bss := block.long 12
  syms := block.long 16
  entry := block.long 20
  trsize := block.long 24
  drsize := block.long 28

section Code

variable (P : Pool) (demand : Nat → Nat → Byte) (files : List Byte → Option File) (K : Frame)
  (user : User)
  (filename argv envp : Nat)

/-- The copying of the `#!` section: the new `p`, `argc`, and the pages. -/
def splice (line : Line) (argc envc : Int) (p : Nat) (mem : Paged Byte) :
    Except Halt (Nat × Int × Paged Byte) := do
  let M := K.space user line filename
  let (p, mem, fs) ← Strings.copyStrings P M 0 .user envc envp p mem
  let argc := argc - 1
  let (p, mem, fs) ← Strings.copyStrings P M 0 fs argc (argv + 4) p mem
  let (p, mem, fs) ← Strings.copyStrings P M 1 fs 1 K.filename p mem
  let argc := argc + 1
  let (p, mem, fs, argc) ← if line.iArg.isSome then do
      let (p, mem, fs) ← Strings.copyStrings P M 2 fs 1 K.iArg p mem
      pure (p, mem, fs, argc + 1)
    else pure (p, mem, fs, argc)
  let (p, mem, _) ← Strings.copyStrings P M 2 fs 1 K.iName p mem
  return (p, argc + 1, mem)

/-- `while (i&0xfff) put_fs_byte(0,(char *) (i++))`; there are less than 4096 rounds. -/
def clearTail : Nat → Nat → Paged Byte → Except Stop (Paged Byte)
  | 0, _, m => .ok m
  | n + 1, i, m =>
    if i % pageSize = 0 then .ok m
    else if dataLimit ≤ i then .error .trap
    else clearTail n (i + 1) (m.store P.toSupply pageSize demand i 0)

/-- From `change_ldt` on: the stack pointer and the memory. `argc` is not negative here. -/
def enter (ex : Header) (p : Nat) (argc envc : Int) (mem : Paged Byte) :
    Except Stop (Nat × Paged Byte) := do
  let (limit, mem) := changeLdt mem
  let (sp, mem) ← createTables P.toSupply demand (p + limit - maxArgPages * pageSize)
    argc.toNat envc.toNat mem
  let mem ← clearTail P demand pageSize (ex.text + ex.data).toNat mem
  return (sp, mem)

/-- `do_execve` for a program with a header of its own. -/
def execProgram (inode : File) (block : Block) (argc envc : Int) (p : Nat) :
    Except Failure (Nat × Paged Byte) := do
  if block.header.accepted inode.size then
    -- no pointer of the kernel is looked at
    let M := K.space user ⟨[], 0, 0, none⟩ filename
    let (p, mem, fs) ← halts (Strings.copyStrings P M 0 .user envc envp p noPages)
    let (p, mem, _) ← halts (Strings.copyStrings P M 0 fs argc argv p mem)
    if p = 0 then .error (.errno .nomem)
    else stops (enter P demand block.header p argc envc mem)
  else .error (.errno .noexec)

/-- `do_execve` for a script: the `#!` section, and what follows for the interpreter. -/
def execScript (block : Block) (argc envc : Int) (p : Nat) : Except Failure (Nat × Paged Byte) := do
  match parseLine block with
  | none => .error (.errno .noexec)
  | some line =>
    let (p, argc, mem) ← halts (splice P K user filename argv envp line argc envc p noPages)
    if p = 0 then .error (.errno .nomem)
    else
      let inode ← namei files (K.view line filename) (K.buf + line.interp)
      let block ← firstBlock inode
      if block.header.accepted inode.size then
        stops (enter P demand block.header p argc envc mem)
      else .error (.errno .noexec)

def doExecve : Except Failure (Nat × Paged Byte) := do
  let inode ← namei files user.view filename
  let argc ← stops (count user.view argv)
  let envc ← stops (count user.view envp)
  let block ← firstBlock inode
  let p := pageSize * maxArgPages - 4
  if block.isScript then execScript P demand files K user filename argv envp block argc envc p
  else execProgram P demand K user filename argv envp inode block argc envc p

end Code

/-! ## What the line says -/

/-- The first word of the line. -/
def interpreter (line : CString) : CString where
  chars := (line.chars.dropWhile isBlank).takeWhile (!isBlank ·)
  proper h := line.proper (List.dropWhile_subset _ (List.takeWhile_subset _ h))

/-- What stands behind the first blank after the first word, if there is a blank. -/
def argument (line : CString) : Option CString :=
  match h : (line.chars.dropWhile isBlank).dropWhile (!isBlank ·) with
  | [] => none
  | b :: arg => some ⟨arg, fun h0 => line.proper (List.dropWhile_subset _ (List.dropWhile_subset _
      (h ▸ List.mem_cons_of_mem b h0)))⟩

/-- What stands behind the last slash. -/
def basename (path : CString) : CString where
  chars := path.chars.rtakeWhile (· ≠ 47)
  proper h := path.proper ((List.rtakeWhile_suffix _ _).subset h)

/-- The arguments of the interpreter. -/
def newArgs (line script : CString) (args : List CString) : List CString :=
  basename (interpreter line) :: ((argument line).toList ++ script :: args.tail)

section Parse

variable {line : CString} {text pad word rest : List Byte} {n cp : Nat} {b : Byte}

theorem strncpy_append (h : (0 : Byte) ∉ text) (hn : text.length ≤ n) :
    strncpy n (text ++ rest) = text ++ strncpy (n - text.length) rest := by
  induction text generalizing n with
  | nil => rfl
  | cons b text ih =>
    obtain ⟨n, rfl⟩ := Nat.exists_eq_add_one.mpr (Nat.lt_of_lt_of_le (Nat.succ_pos _) hn)
    have hb : b ≠ 0 := fun e => h (e ▸ List.mem_cons_self)
    have htail := ih (n := n) (fun e => h (List.mem_cons_of_mem _ e)) (Nat.le_of_succ_le_succ hn)
    show (if b = 0 then _ else b :: strncpy n (text ++ rest)) = _
    rw [if_neg hb, htail, List.length_cons, Nat.add_sub_add_right]
    rfl

theorem strncpy_length (h : n ≤ text.length) : (strncpy n text).length = n := by
  induction text generalizing n with
  | nil =>
    obtain rfl : n = 0 := Nat.le_zero.mp h
    rfl
  | cons b text ih =>
    cases n with
    | zero => rfl
    | succ n =>
      unfold strncpy
      split
      · exact List.length_replicate
      · exact congrArg (· + 1) (ih (Nat.le_of_succ_le_succ h))

theorem strchr_append {c : Byte} (h0 : (0 : Byte) ∉ text) (hc : c ∉ text) :
    strchr (text ++ c :: rest) c = some text.length := by
  induction text with
  | nil => exact if_pos rfl
  | cons b text ih =>
    have hbc : b ≠ c := fun e => hc (e ▸ List.mem_cons_self)
    have hb : b ≠ 0 := fun e => h0 (e ▸ List.mem_cons_self)
    show (if b = c then _ else if b = 0 then _ else (strchr (text ++ c :: rest) c).map (· + 1)) = _
    rw [if_neg hbc, if_neg hb, ih (fun e => h0 (List.mem_cons_of_mem _ e))
      (fun e => hc (List.mem_cons_of_mem _ e))]
    rfl

theorem pastBlanks_append (h : ∀ c ∈ text, isBlank c = true) (hb : isBlank b = false) :
    pastBlanks (text ++ b :: rest) cp = cp + text.length := by
  induction text generalizing cp with
  | nil =>
    show (if isBlank b then _ else _) = _
    rw [hb]
    rfl
  | cons c text ih =>
    show (if isBlank c then pastBlanks (text ++ b :: rest) (cp + 1) else cp) = _
    rw [if_pos (h c List.mem_cons_self), ih fun d hd => h d (List.mem_cons_of_mem _ hd),
      List.length_cons, Nat.add_assoc, Nat.add_comm 1]

/-- `i_name` behind the last slash of a word. -/
def lastName (word : List Byte) (cp iName : Nat) : Nat :=
  match word with
  | [] => iName
  | b :: word => lastName word (cp + 1) (if b = 47 then cp + 1 else iName)

theorem scanName_append {iName : Nat} (hw : ∀ c ∈ word, c ≠ 0 ∧ isBlank c = false)
    (hb : b = 0 ∨ isBlank b = true) :
    scanName (word ++ b :: rest) cp iName = (cp + word.length, lastName word cp iName) := by
  induction word generalizing cp iName with
  | nil =>
    show (if b ≠ 0 ∧ !isBlank b then _ else _) = _
    rw [if_neg]
    · rfl
    · rintro ⟨h1, h2⟩
      rcases hb with h | h
      · exact h1 h
      · rw [h] at h2
        cases h2
  | cons c word ih =>
    obtain ⟨h1, h2⟩ := hw c List.mem_cons_self
    show (if c ≠ 0 ∧ !isBlank c then scanName (word ++ b :: rest) (cp + 1)
      (if c = 47 then cp + 1 else iName) else _) = _
    rw [if_pos ⟨h1, by rw [h2]; rfl⟩, ih fun d hd => hw d (List.mem_cons_of_mem _ hd), List.length_cons,
      Nat.add_assoc, Nat.add_comm 1]
    rfl

theorem lastName_concat {iName : Nat} : lastName (word ++ [b]) cp iName =
    if b = 47 then cp + word.length + 1 else lastName word cp iName := by
  induction word generalizing cp iName with
  | nil => rfl
  | cons c word ih =>
    show lastName (word ++ [b]) (cp + 1) _ = _
    rw [ih, List.length_cons, Nat.add_assoc cp 1, Nat.add_comm 1]
    rfl

/-- The name that `i_name` points at. -/
theorem lastName_eq (word : List Byte) (cp : Nat) : lastName word cp cp +
    (word.rtakeWhile (· ≠ 47)).length = cp + word.length := by
  induction word using List.reverseRecOn with
  | nil => rfl
  | append_singleton word b ih =>
    rw [lastName_concat, List.length_append, List.length_singleton]
    by_cases hb : b = 47
    · rw [if_pos hb, List.rtakeWhile_concat, if_neg (by simpa using hb)]
      rfl
    · rw [if_neg hb, List.rtakeWhile_concat, if_pos (by simpa using hb), List.length_append,
        List.length_singleton]
      omega

theorem shows_append {pre post : List Byte} {i : Nat} (h : pre.length = i) :
    Shows ((pre ++ text ++ post)[·]?) i text := by
  intro j c hc
  have hj := (List.getElem?_eq_some_iff.mp hc).1
  show (pre ++ text ++ post)[i + j]? = some c
  rw [List.append_assoc, List.getElem?_append_right (by omega), List.getElem?_append_left (by omega),
    ← hc]
  congr 1
  omega

/-- `buf` after the parse, and what the pointers point at. -/
structure Reads (l : Line) (line : CString) : Prop where
  length : l.buf.length = 1023
  interp : Shows (l.buf[·]?) l.interp (interpreter line).stored
  iName : Shows (l.buf[·]?) l.iName (basename (interpreter line)).stored
  iArg : match argument line with
    | none => l.iArg = none
    | some arg => ∃ i, l.iArg = some i ∧ Shows (l.buf[·]?) i arg.stored

/-- The word and its last part, when the word is ended by a zero. -/
theorem word_reads {path : CString} {pre post : List Byte} :
    Shows ((pre ++ (path.chars ++ 0 :: post))[·]?) pre.length path.stored ∧
    Shows ((pre ++ (path.chars ++ 0 :: post))[·]?) (lastName path.chars pre.length pre.length)
      (basename path).stored := by
  obtain ⟨dir, hdir⟩ := List.rtakeWhile_suffix (fun b : Byte => decide (b ≠ 47)) path.chars
  have hlast := lastName_eq path.chars pre.length
  have hlen := congrArg List.length hdir
  rw [List.length_append] at hlen
  constructor
  · have heq : pre ++ (path.chars ++ 0 :: post) = pre ++ path.stored ++ post := by
      simp [CString.stored]
    rw [heq]
    exact shows_append rfl
  · have heq : pre ++ (path.chars ++ 0 :: post) = (pre ++ dir) ++ (basename path).stored ++ post := by
      have : path.chars = dir ++ (basename path).chars := hdir.symm
      rw [this]
      simp [CString.stored]
    rw [heq]
    apply shows_append
    rw [List.length_append]
    omega

theorem parseLine_spec {block : Block} (hb : block.bytes = 35 :: 33 :: (line.chars ++ 10 :: rest))
    (hnl : 10 ∉ line.chars) (hname : (interpreter line).chars ≠ []) :
    ∃ l, parseLine block = some l ∧ Reads l line := by
  have hlen : line.chars.length + rest.length + 1 = 1022 := by
    have := block.length
    rw [hb] at this
    simp only [List.length_cons, List.length_append] at this
    omega
  obtain ⟨pad, hpad, hbuf⟩ : ∃ pad, pad.length = 1022 - line.chars.length ∧
      strncpy 1022 (block.bytes.drop 2) ++ [0] = line.chars ++ 10 :: pad := by
    refine ⟨strncpy (1022 - line.chars.length - 1) rest ++ [0], ?_, ?_⟩
    · rw [List.length_append, strncpy_length (by omega), List.length_singleton]
      omega
    · have h10 : (10 : Byte) :: rest = [10] ++ rest := rfl
      rw [hb]
      show strncpy 1022 (line.chars ++ 10 :: rest) ++ [0] = _
      rw [h10, ← List.append_assoc, strncpy_append, List.append_assoc, List.length_append]
      · rw [List.append_assoc, Nat.sub_sub]
        rfl
      · intro h
        rcases List.mem_append.mp h with h | h
        · exact line.proper h
        · simp at h
      · rw [List.length_append, List.length_singleton]
        omega
  -- the line: blanks, the word, and what follows it
  obtain ⟨blanks, hblanks, hall⟩ : ∃ blanks, line.chars = blanks ++ line.chars.dropWhile isBlank ∧
      ∀ c ∈ blanks, isBlank c = true :=
    ⟨_, List.takeWhile_append_dropWhile.symm, fun c hc => List.mem_takeWhile_imp hc⟩
  have hw : ∀ c ∈ (interpreter line).chars, c ≠ 0 ∧ isBlank c = false := by
    intro c hc
    refine ⟨fun e => (interpreter line).proper (e ▸ hc), ?_⟩
    have : (!isBlank c) = true := List.mem_takeWhile_imp (p := (!isBlank ·)) hc
    simpa using this
  obtain ⟨c, word, hcons⟩ := List.exists_cons_of_ne_nil hname
  obtain ⟨hc0, hcb⟩ := hw c (by rw [hcons]; exact List.mem_cons_self)
  have hchr : strchr (line.chars ++ 10 :: pad) 10 = some line.chars.length := strchr_append
    line.proper hnl
  have hset : (line.chars ++ 10 :: pad).set line.chars.length 0 = line.chars ++ 0 :: pad := by simp
  -- `pastBlanks` stops at the word, whatever follows it
  have hpast (tail : List Byte) : pastBlanks (blanks ++ ((interpreter line).chars ++ tail))
    0 = blanks.length := by
    rw [hcons]
    exact (pastBlanks_append hall hcb).trans (Nat.zero_add _)
  have hfirst (tail : List Byte) :
      (blanks ++ ((interpreter line).chars ++ tail)).getD blanks.length 0 ≠ 0 := by
    rw [hcons]
    simpa using hc0
  have hscan (b : Byte) (tail : List Byte) (hb : b = 0 ∨ isBlank b = true) :
      scanName ((blanks ++ ((interpreter line).chars ++ b :: tail)).drop blanks.length) blanks.length
        blanks.length = (blanks.length + (interpreter line).chars.length,
          lastName (interpreter line).chars blanks.length blanks.length) := by
    rw [List.drop_left]
    exact scanName_append hw hb
  have hend (b : Byte) (tail : List Byte) : (blanks ++ ((interpreter line).chars ++ b :: tail)).getD
      (blanks.length + (interpreter line).chars.length) 0 = b := by
    simp
  unfold parseLine
  dsimp only
  rw [hbuf, hchr]
  dsimp only
  rw [hset]
  have hword : line.chars.dropWhile isBlank = (interpreter line).chars ++
      (line.chars.dropWhile isBlank).dropWhile (!isBlank ·) := List.takeWhile_append_dropWhile.symm
  have hlen' : (line.chars ++ 0 :: pad).length = 1023 := by
    rw [List.length_append, List.length_cons]
    omega
  cases htail : (line.chars.dropWhile isBlank).dropWhile (!isBlank ·) with
  | nil =>
    have hchars : line.chars ++ 0 :: pad = blanks ++ ((interpreter line).chars ++ 0 :: pad) := by
      conv_lhs => rw [hblanks, hword, htail, List.append_nil, List.append_assoc]
    have harg : argument line = none := by
      unfold argument
      split
      · rfl
      · next b arg h =>
        rw [htail] at h
        cases h
    rw [hchars] at hlen' ⊢
    rw [hpast, if_neg (hfirst _), hscan 0 pad (Or.inl rfl)]
    dsimp only
    rw [hend, if_pos rfl]
    refine ⟨_, rfl, hlen', word_reads.1, word_reads.2, ?_⟩
    rw [harg]
  | cons b arg =>
    have hbb : isBlank b = true := by
      have := List.head?_dropWhile_not (!isBlank ·) (line.chars.dropWhile isBlank)
      rw [htail] at this
      simpa using this
    have hb0 : b ≠ 0 := by
      intro e
      rw [e] at hbb
      cases hbb
    have hchars : line.chars ++ 0 :: pad = blanks ++ ((interpreter line).chars ++ b ::
      (arg ++ 0 :: pad)) := by
      conv_lhs => rw [hblanks, hword, htail, List.append_assoc, List.append_assoc]
      rfl
    rw [hchars] at hlen' ⊢
    rw [hpast, if_neg (hfirst _), hscan b _ (Or.inr hbb)]
    dsimp only
    rw [hend, if_neg hb0]
    have hset' : (blanks ++ ((interpreter line).chars ++ b :: (arg ++ 0 :: pad))).set
        (blanks.length + (interpreter line).chars.length) 0 =
          blanks ++ ((interpreter line).chars ++ 0 :: (arg ++ 0 :: pad)) := by simp
    rw [hset']
    refine ⟨_, rfl, ?_, word_reads.1, word_reads.2, ?_⟩
    · rw [← hset']
      exact List.length_set.trans hlen'
    · obtain ⟨a, ha, hchars⟩ : ∃ a, argument line = some a ∧ a.chars = arg := by
        unfold argument
        split
        · next h =>
          rw [htail] at h
          cases h
        · next b' arg' h =>
          rw [htail] at h
          cases h
          exact ⟨_, rfl, rfl⟩
      rw [ha]
      refine ⟨_, rfl, ?_⟩
      have heq : blanks ++ ((interpreter line).chars ++ 0 :: (arg ++ 0 :: pad)) =
          (blanks ++ ((interpreter line).chars ++ [0])) ++ a.stored ++ pad := by
        simp [CString.stored, hchars]
      rw [heq]
      apply shows_append
      simp [Nat.add_assoc]

end Parse

/-! ## The strings that are spliced in -/

section Splice

variable {P : Pool} {K : Frame} {user : User} {filename argv envp p n : Nat} {l : Line} {mem : Paged Byte}
  {args envs ss : List CString} {line script s : CString} {text : List Byte}

/-- A string in `buf`. -/
theorem Frame.buf_shows {i : Nat} (hl : l.buf.length = 1023) (h : Shows (l.buf[·]?) i text) :
    Shows (K.view l filename) (K.buf + i) text := by
  intro j b hj
  have hb : l.buf[i + j]? = some b := h j b hj
  have hlt := (List.getElem?_eq_some_iff.mp hb).1
  show K.view l filename (K.buf + i + j) = some b
  unfold Frame.view
  rw [if_pos (by omega), ← hb]
  congr 1
  omega

/-- The three variables. -/
theorem Frame.words (K : Frame) (l : Line) (filename : Nat) :
    Shows (K.view l filename) K.filename (longBytes filename) ∧
    Shows (K.view l filename) K.iArg (longBytes (l.iArg.elim 0 (K.buf + ·))) ∧
    Shows (K.view l filename) K.iName (longBytes (K.buf + l.iName)) := by
  have hapart := K.apart
  simp only [Apart, List.pairwise_cons, List.mem_cons, List.not_mem_nil, or_false, forall_eq_or_imp,
    forall_eq] at hapart
  obtain ⟨⟨h1, h2, h3⟩, ⟨h4, h5⟩, h6, _⟩ := hapart
  refine ⟨?_, ?_, ?_⟩
  · intro j b hj
    have hlt := (List.getElem?_eq_some_iff.mp hj).1
    rw [longBytes_length] at hlt
    unfold Frame.view
    rw [if_neg (by omega), if_pos (by omega), Nat.add_sub_cancel_left]
    exact hj
  · intro j b hj
    have hlt := (List.getElem?_eq_some_iff.mp hj).1
    rw [longBytes_length] at hlt
    unfold Frame.view
    rw [if_neg (by omega), if_neg (by omega), if_pos (by omega), Nat.add_sub_cancel_left]
    exact hj
  · intro j b hj
    have hlt := (List.getElem?_eq_some_iff.mp hj).1
    rw [longBytes_length] at hlt
    unfold Frame.view
    rw [if_neg (by omega), if_neg (by omega), if_neg (by omega), if_pos (by omega),
      Nat.add_sub_cancel_left]
    exact hj

/-- One pointer in one place. -/
theorem placed_single {array strings : Nat → Option Byte} {a q : Nat} (ha : readLong array a = some q)
    (hq : q ≠ 0) (hs : Shows strings q s.stored) : Placed array strings a [q] [s] := by
  refine ⟨rfl, ?_, ?_⟩
  · intro i r hr
    cases i with
    | zero =>
      cases hr
      exact ha
    | succ i => simp at hr
  · intro i r t hr ht
    cases i with
    | zero =>
      cases hr
      cases ht
      exact ⟨hq, hs⟩
    | succ i => simp at hr

theorem placed_nil {array strings : Nat → Option Byte} {a : Nat} : Placed array strings a [] [] :=
  ⟨rfl, fun i q h => by simp at h, fun i q s h => by simp at h⟩

/-- The array of a caller. -/
theorem placed_passed {v : Nat → Option Byte} {a : Nat} (h : Passed v a ss) :
    ∃ ps, Placed v v a ps ss := by
  unfold Passed at h
  split at h
  · rw [h]
    exact ⟨[], placed_nil⟩
  · obtain ⟨ps, A⟩ := h
    refine ⟨ps, A.length, fun i q hq => A.words i q ?_, A.strings⟩
    rw [List.getElem?_append_left (List.getElem?_eq_some_iff.mp hq).1]
    exact hq

/-- The array without its first element. -/
theorem placed_tail {v : Nat → Option Byte} {a : Nat} (h : Passed v a ss) :
    ∃ ps, Placed v v (a + 4) ps ss.tail := by
  obtain ⟨ps, A⟩ := placed_passed h
  refine ⟨ps.tail, ?_, ?_, ?_⟩
  · rw [List.length_tail, List.length_tail, A.length]
  · intro i q hq
    rw [List.getElem?_tail] at hq
    have := A.words (i + 1) q hq
    rwa [show a + 4 * (i + 1) = a + 4 + 4 * i by omega] at this
  · intro i q s hq hs
    rw [List.getElem?_tail] at hq hs
    exact A.strings (i + 1) q s hq hs

/-- A place where something is seen is inside of the segment. -/
theorem lt_limit (M : Space) {g : Seg} {a : Nat} (h : Shows (M.view g) a s.stored) : a < dataLimit := by
  by_contra hle
  have hpos : 0 < s.stored.length := by
    rw [s.length_stored]
    omega
  have := h 0 _ (List.getElem?_eq_getElem hpos)
  rw [M.limit g (a + 0) (by omega)] at this
  cases this

/-- A variable of the kernel that points at a string. -/
theorem placed_word (M : Space) {g : Seg} {a q : Nat} (ha : Shows (M.view .kernel) a (longBytes q))
    (hq : q ≠ 0) (hs : Shows (M.view g) q s.stored) :
    Placed (M.view .kernel) (M.view g) a [q] [s] := by
  have hlim : dataLimit = 67108864 := rfl
  have hlt := lt_limit M hs
  exact placed_single (readLong_of_shows ha (by omega)) hq hs

/-- The first two calls: the environment, and the arguments behind `argv[0]`. -/
theorem copy_old {k : Nat} (M : Space) (henvs : Passed (M.view .user) envp envs)
    (hargs : Passed (M.view .user) argv args)
    (hfit : (stored args.tail).length + (stored envs).length + k ≤ top) (hk : 0 < k)
    (he : Enough P noPages top ((stored args.tail).length + (stored envs).length + k)) :
    ∃ mem₁ mem₂, Strings.copyStrings P M 0 .user envs.length envp top noPages =
        .ok (top - (stored envs).length, mem₁, .user) ∧
      Strings.copyStrings P M 0 .user ((args.length : Int) - 1) (argv + 4)
        (top - (stored envs).length) mem₁ =
        .ok (top - (stored envs).length - (stored args.tail).length, mem₂, .user) ∧
      Stored P.toSupply mem₂ (top - (stored envs).length - (stored args.tail).length)
        (stored args.tail ++ stored envs) ∧
      Enough P mem₂ (top - (stored envs).length - (stored args.tail).length) k := by
  obtain ⟨ps, hps⟩ := placed_passed henvs
  obtain ⟨qs, hqs⟩ := placed_tail hargs
  have L : Stored P.toSupply noPages top [] := ⟨.empty fun _ => rfl, Nat.add_zero _, Shows.nil⟩
  obtain ⟨mem₁, h₁, L₁, E₁⟩ := copyStrings_stored (k := (stored args.tail).length + k) 0 envs.length .user
    hps (Int.toNat_natCast _) L (by omega) (by omega)
    (by rwa [← Nat.add_assoc, Nat.add_comm (stored envs).length])
  rw [List.append_nil] at L₁
  have hnum : ((args.length : Int) - 1).toNat = args.tail.length := by
    rw [List.length_tail]
    omega
  obtain ⟨mem₂, h₂, L₂, E₂⟩ := copyStrings_stored 0 _ .user hqs hnum L₁ (by omega) (by omega) E₁
  exact ⟨mem₁, mem₂, h₁, h₂, L₂, E₂⟩

/-- One string of the kernel in front of the others. -/
theorem copy_one {fromKmem : Int} {a q k : Nat} (M : Space) (hfk : fromKmem = 1 ∨ fromKmem = 2)
    (ha : Shows (M.view .kernel) a (longBytes q)) (hq : q ≠ 0)
    (hs : Shows (M.view (stringSeg fromKmem .user)) q s.stored) (L : Stored P.toSupply mem p text)
    (hfit : s.stored.length ≤ p) (he : Enough P mem p (s.stored.length + k)) :
    ∃ mem', Strings.copyStrings P M fromKmem .user 1 a p mem = .ok (p - s.stored.length, mem', .user) ∧
      Stored P.toSupply mem' (p - s.stored.length) (s.stored ++ text) ∧
      Enough P mem' (p - s.stored.length) k := by
  have hplaced : Placed (M.view (arraySeg fromKmem .user)) (M.view (stringSeg fromKmem .user))
    a [q] [s] := by
    rw [arraySeg, if_pos hfk]
    exact placed_word M ha hq hs
  have hpos := s.length_stored
  have hone : stored [s] = s.stored := stored_singleton
  rw [← hone] at hfit he ⊢
  exact copyStrings_stored fromKmem 1 .user hplaced rfl L (by rw [hone] at hfit; omega) hfit he

theorem newArgs_length : (stored (newArgs line script args)).length =
    (basename (interpreter line)).stored.length + ((stored (argument line).toList).length +
      (script.stored.length + (stored args.tail).length)) := by
  rw [newArgs, stored_cons, List.length_append, stored_append, List.length_append, stored_cons,
    List.length_append]

theorem splice_spec (hl : Reads l line) (henvs : Passed user.view envp envs)
    (hargs : Passed user.view argv args) (hscript : Shows user.view filename script.stored)
    (hf : filename ≠ 0) (hfit : (stored (newArgs line script args)).length + (stored envs).length ≤ top)
    (he : Enough P noPages top ((stored (newArgs line script args)).length + (stored envs).length)) :
    ∃ p mem, splice P K user filename argv envp l args.length envs.length top noPages =
        .ok (p, args.length + (argument line).toList.length + 1, mem) ∧
      Stored P.toSupply mem p (stored (newArgs line script args) ++ stored envs) := by
  have hM : (K.space user l filename).view .user = user.view := rfl
  have hpos := K.pos
  have hb := (basename (interpreter line)).length_stored
  have hs := script.length_stored
  obtain ⟨hwf, hwa, hwn⟩ := K.words l filename
  rw [newArgs_length] at hfit he
  obtain ⟨mem₁, mem₂, h₁, h₂, L₂, E₂⟩ := copy_old
    (k := script.stored.length + ((stored (argument line).toList).length +
      (basename (interpreter line)).stored.length))
    (K.space user l filename) henvs hargs (by omega) (by omega) (by
      convert he using 1
      omega)
  obtain ⟨mem₃, h₃, L₃, E₃⟩ := copy_one (K.space user l filename) (Or.inl rfl) hwf hf hscript L₂
    (by omega) E₂
  have hbase : Shows (K.view l filename) (K.buf + l.iName) (basename (interpreter line)).stored :=
    K.buf_shows hl.length hl.iName
  have harg := hl.iArg
  cases hopt : argument line with
  | none =>
    rw [hopt] at harg E₃ hfit
    have hzero : (stored (none : Option CString).toList).length = 0 := rfl
    rw [hzero] at hfit E₃
    have harg : l.iArg = none := harg
    obtain ⟨mem₄, h₄, L₄, _⟩ := copy_one (k := 0) (K.space user l filename) (Or.inr rfl) hwn (by omega)
      hbase L₃ (by omega) (by rwa [Nat.add_zero, ← Nat.zero_add (basename _).stored.length])
    have hnew : stored (newArgs line script args) ++ stored envs = (basename (interpreter line)).stored ++
        (script.stored ++ (stored args.tail ++ stored envs)) := by
      simp [newArgs, hopt, stored_cons]
    rw [← hnew] at L₄
    refine ⟨_, mem₄, ?_, L₄⟩
    have hcount : (args.length : Int) - 1 + 1 + 1 = args.length +
      (none : Option CString).toList.length + 1 := by
      simp
    simp only [splice, bind, Except.bind, h₁, h₂, h₃, harg, Option.isSome_none, Bool.false_eq_true,
      if_false, pure, Except.pure, h₄, hcount]
  | some arg =>
    rw [hopt] at harg E₃ hfit
    obtain ⟨i, hi, hshows⟩ : ∃ i, l.iArg = some i ∧ Shows (l.buf[·]?) i arg.stored := harg
    have hone : stored (some arg).toList = arg.stored := stored_singleton
    rw [hone] at hfit E₃
    rw [hi] at hwa
    obtain ⟨mem₄, h₄, L₄, E₄⟩ := copy_one (K.space user l filename) (Or.inr rfl) hwa
      (by show K.buf + i ≠ 0; omega) (K.buf_shows hl.length hshows) L₃ (by omega) E₃
    obtain ⟨mem₅, h₅, L₅, _⟩ := copy_one (k := 0) (K.space user l filename) (Or.inr rfl) hwn (by omega)
      hbase L₄ (by omega) E₄
    have hnew : stored (newArgs line script args) ++ stored envs = (basename (interpreter line)).stored ++
        (arg.stored ++ (script.stored ++ (stored args.tail ++ stored envs))) := by
      simp [newArgs, hopt, stored_cons]
    rw [← hnew] at L₅
    refine ⟨_, mem₅, ?_, L₅⟩
    have hcount : (args.length : Int) - 1 + 1 + 1 + 1 = args.length + (some arg).toList.length + 1 := by
      simp
    simp only [splice, bind, Except.bind, h₁, h₂, h₃, hi, Option.isSome_some, if_true, pure, Except.pure,
      h₄, h₅, hcount]

/-- A name at address 0 looks like the end of an array. -/
theorem splice_null (henvs : Passed user.view envp envs) (hargs : Passed user.view argv args)
    (hfit : (stored (newArgs line script args)).length + (stored envs).length ≤ top)
    (he : Enough P noPages top ((stored (newArgs line script args)).length + (stored envs).length)) :
    splice P K user 0 argv envp l args.length envs.length top noPages =
      .error (.stop (.panic "argc is wrong")) := by
  have hs := script.length_stored
  rw [newArgs_length] at hfit he
  obtain ⟨mem₁, mem₂, h₁, h₂, _, _⟩ := copy_old
    (k := script.stored.length + ((stored (argument line).toList).length +
      (basename (interpreter line)).stored.length))
    (K.space user l 0) henvs hargs (by omega) (by omega) (by
      convert he using 1
      omega)
  have hp : ¬ top - (stored envs).length - (stored args.tail).length = 0 := by omega
  have hw : readLong (K.view l 0) K.filename = some 0 :=
    readLong_of_shows (K.words l 0).1 (by decide)
  have h₃ : Strings.copyStrings P (K.space user l 0) 1 .user 1 K.filename
      (top - (stored envs).length - (stored args.tail).length) mem₂ =
        .error (.stop (.panic "argc is wrong")) := by
    have hview : (K.space user l 0).view .kernel = K.view l 0 := rfl
    have hone : (1 : Int).toNat = 1 := rfl
    unfold Strings.copyStrings
    rw [if_neg hp, hone]
    simp only [Strings.copyFrom, if_true, hview, getFsLong, Nat.mul_zero, Nat.add_zero, hw, found, lift,
      bind, Except.bind]
    rfl
  simp only [splice, bind, Except.bind, h₁, h₂, h₃]

end Splice

/-! ## The run -/

section Run

variable {P : Pool} {files : List Byte → Option File} {K : Frame} {user : User}
  {filename argv envp p n i : Nat} {l : Line} {m mem : Paged Byte} {args envs : List CString}
  {line script s : CString} {file interp : File} {ex : Header}

theorem readString_spec {v : Nat → Option Byte} {a : Nat} (h : Shows v a s.stored)
    (hn : s.chars.length < n) : readString v n a = .ok s.chars := by
  obtain ⟨s, hs⟩ := s
  induction s generalizing a n with
  | nil =>
    obtain ⟨n, rfl⟩ := Nat.exists_eq_add_one.mpr hn
    have h0 : v a = some 0 := h.head
    simp only [readString, getFsByte, h0, found]
    rfl
  | cons b s ih =>
    obtain ⟨n, rfl⟩ := Nat.exists_eq_add_one.mpr (Nat.lt_of_le_of_lt (Nat.zero_le _) hn)
    have h0 : v a = some b := h.head
    have hb : b ≠ 0 := fun e => hs (e ▸ List.mem_cons_self)
    have hrest := ih (fun e => hs (List.mem_cons_of_mem _ e)) (a := a + 1) (n := n) h.tail
      (by simp only [List.length_cons] at hn ⊢; omega)
    simp only [readString, getFsByte, h0, found]
    show (if b = 0 then _ else _) = _
    rw [if_neg hb, hrest]
    rfl

theorem namei_spec {v : Nat → Option Byte} {a : Nat} (h : Shows v a s.stored)
    (hn : s.chars.length < dataLimit) (hf : files s.chars = some file) : namei files v a = .ok file := by
  simp only [namei, stops, readString_spec h hn, lift, halts, bind, Except.bind, hf]

/-- The bytes behind the data of the program, up to the end of its page. -/
theorem clearTail_spec (demand : Nat → Nat → Byte) (M : m.Sound P.toSupply)
    (hn : (i + 4095) / 4096 * 4096 - i ≤ n) (hlim : (i + 4095) / 4096 * 4096 ≤ dataLimit) :
    ∃ m', clearTail P demand n i m = .ok m' ∧ Kept pageSize i ((i + 4095) / 4096 * 4096) m m' := by
  induction n generalizing i m with
  | zero => exact ⟨m, rfl, Kept.refl⟩
  | succ n ih =>
    unfold clearTail
    by_cases h0 : i % pageSize = 0
    · rw [if_pos h0]
      exact ⟨m, rfl, Kept.refl⟩
    · have hlt : ¬ dataLimit ≤ i := by
        unfold pageSize at h0
        omega
      have hend : (i + 1 + 4095) / 4096 * 4096 = (i + 4095) / 4096 * 4096 := by
        unfold pageSize at h0
        omega
      have hn' : (i + 1 + 4095) / 4096 * 4096 - (i + 1) ≤ n := by
        rw [hend]
        omega
      rw [← hend] at hlim
      have M' : (m.store P.toSupply pageSize demand i 0).Sound P.toSupply := M.store
      rw [if_neg h0, if_neg hlt]
      obtain ⟨m', hm', hk⟩ := ih M' hn' hlim
      rw [hend] at hk
      refine ⟨m', hm', ?_⟩
      have hfirst : Kept pageSize i (i + 1) m (m.store P.toSupply pageSize demand i 0) := Kept.store M
      exact (hfirst.mono (Nat.le_refl _) (by unfold pageSize at h0; omega)).trans
        (hk.mono (Nat.le_succ _) (Nat.le_refl _))

/-- The new program with `X` for arguments and `Y` for environment, if the strings begin with them. -/
theorem enter_spec {X Y : List CString} {rest : List Byte} (demand : Nat → Nat → Byte)
    (L : Stored P.toSupply mem p (stored X ++ stored Y ++ rest))
    (hsize : (ex.text + ex.data).toNat ≤ 0x3000000) :
    ∃ sp m, enter P demand ex p X.length Y.length mem = .ok (sp, m) ∧
      Layout (m.view pageSize) sp (sp + 12) (sp + 12 + 4 * (X.length + 1)) (addresses (base + p) X)
        (addresses (base + p + (stored X).length) Y) X Y := by
  have htop : top = 131068 := rfl
  have hbase : base = 66977792 := rfl
  have hlim : dataLimit = 67108864 := rfl
  have hL := L.size
  rw [List.length_append, List.length_append] at hL
  have hX := length_le_stored X
  have hY := length_le_stored Y
  obtain ⟨M, hsh⟩ := changeLdt_spec L
  obtain ⟨m₁, sp, h₁, hsp, hw, hst, M₁⟩ := createTables_spec demand M hsh.left (by omega) (by omega)
  obtain ⟨m₂, h₂, hk⟩ := clearTail_spec (n := pageSize) demand M₁ (i := (ex.text + ex.data).toNat)
    (by unfold pageSize; omega) (by omega)
  refine ⟨sp, m₂, ?_, layout_of_shows (by omega) (by omega) (hk.shows hw (Or.inr (by omega)))
    (hk.shows hst (Or.inr (by omega)))⟩
  have hp : p + (changeLdt mem).1 - maxArgPages * pageSize = base + p := by
    show p + 67108864 - 131072 = 66977792 + p
    omega
  simp only [enter, hp, Int.toNat_natCast, h₁, ok_bind, h₂]
  rfl

/-- A call of `execve` for a script: what the caller passes, the file, and the interpreter that its
first line names. Its text and data lie below the arguments. -/
structure Call (files : List Byte → Option File) (user : User) (filename argv envp : Nat)
    (args envs : List CString) (script line : CString) (file interp : File) : Prop where
  args : Passed user.view argv args
  envs : Passed user.view envp envs
  named : Shows user.view filename script.stored
  found : files script.chars = some file
  runs : file.refused = none
  block : ∃ rest, file.block.bytes = 35 :: 33 :: (line.chars ++ 10 :: rest)
  oneLine : 10 ∉ line.chars
  word : (interpreter line).chars ≠ []
  names : files (interpreter line).chars = some interp
  interpRuns : interp.refused = none
  accepted : interp.block.header.accepted interp.size = true
  sized : (interp.block.header.text + interp.block.header.data).toNat ≤ 0x3000000

/-- The call up to the copying, and what comes after it. -/
theorem doExecve_eq (C : Call files user filename argv envp args envs script line file interp)
    (demand : Nat → Nat → Byte)
    (hfit : (stored (newArgs line script args)).length + (stored envs).length ≤ top) :
    ∃ l, Reads l line ∧ doExecve P demand files K user filename argv envp = (do
      let (p, argc, mem) ← halts (splice P K user filename argv envp l args.length envs.length top
        noPages)
      if p = 0 then .error (.errno .nomem)
      else stops (enter P demand interp.block.header p argc envs.length mem)) := by
  have hlim : dataLimit = 67108864 := rfl
  have htop : top = 131068 := rfl
  obtain ⟨rest, hblock⟩ := C.block
  obtain ⟨l, hl, R⟩ := parseLine_spec hblock C.oneLine C.word
  refine ⟨l, R, ?_⟩
  have hnum := length_le_stored args.tail
  have hnum' := length_le_stored envs
  rw [newArgs_length] at hfit
  rw [List.length_tail] at hnum
  have hargc := count_spec C.args (by omega)
  have henvc := count_spec C.envs (by omega)
  have hname : namei files user.view filename = .ok file := by
    refine namei_spec C.named ?_ C.found
    have := script.length_stored
    omega
  have hsh : file.block.isScript = true := by
    unfold Block.isScript
    rw [hblock]
    rfl
  have hinterp : namei files (K.view l filename) (K.buf + l.interp) = .ok interp := by
    refine namei_spec (K.buf_shows R.length R.interp) ?_ C.names
    exact length_lt (K.space user l filename) (s := .kernel) (K.buf_shows R.length R.interp)
  have hfirst : firstBlock file = .ok file.block := by rw [firstBlock, C.runs]
  have hsecond : firstBlock interp = .ok interp.block := by rw [firstBlock, C.interpRuns]
  have hscript : doExecve P demand files K user filename argv envp =
      execScript P demand files K user filename argv envp file.block args.length envs.length top := by
    simp only [doExecve, hname, hargc, henvc, stops, lift, halts, bind, Except.bind, hfirst]
    exact if_pos hsh
  rw [hscript]
  simp only [execScript, hl, bind, Except.bind]
  cases splice P K user filename argv envp l args.length envs.length top noPages with
  | error e => rfl
  | ok r =>
    simp only [halts]
    by_cases h0 : r.1 = 0
    · simp only [if_pos h0]
    · simp only [if_neg h0, hinterp, hsecond, if_pos C.accepted]

/-- What the new program sees of the call. -/
def Sees (r : Except Failure (Nat × Paged Byte)) (args envs : List CString) : Prop :=
  ∃ sp m argv envp argAt envAt, r = .ok (sp, m) ∧ Layout (m.view pageSize)
    sp argv envp argAt envAt args envs

/-- The call as far as `enter`, when nothing stops it. -/
theorem doExecve_enter (C : Call files user filename argv envp args envs script line file interp)
    (demand : Nat → Nat → Byte) (hf : filename ≠ 0)
    (hfit : (stored (newArgs line script args)).length + (stored envs).length < top)
    (he : Enough P noPages top ((stored (newArgs line script args)).length + (stored envs).length)) :
    ∃ p mem, doExecve P demand files K user filename argv envp = stops
      (enter P demand interp.block.header p
        (args.length + (argument line).toList.length + 1) envs.length mem) ∧
      Stored P.toSupply mem p (stored (newArgs line script args) ++ stored envs) := by
  obtain ⟨l, R, hrun⟩ := doExecve_eq (P := P) (K := K) C demand hfit.le
  obtain ⟨p, mem, hsplice, L⟩ := splice_spec R C.envs C.args C.named hf hfit.le he
  have hL := L.size
  rw [List.length_append] at hL
  have hp : ¬ p = 0 := by omega
  refine ⟨p, mem, ?_, L⟩
  rw [hrun, hsplice]
  exact if_neg hp

/-- Without `argv[0]` the count misses the last string, and the environment begins with it. -/
theorem not_sees_nil (C : Call files user filename argv envp [] envs script line file interp)
    (demand : Nat → Nat → Byte) (hf : filename ≠ 0)
    (hfit : (stored (newArgs line script [])).length + (stored envs).length < top)
    (he : Enough P noPages top ((stored (newArgs line script [])).length + (stored envs).length)) :
    ¬ Sees (doExecve P demand files K user filename argv envp) (newArgs line script []) envs := by
  obtain ⟨p, mem, hrun, L⟩ := doExecve_enter (P := P) (K := K) C demand hf hfit he
  obtain ⟨Y, rest, hY, hnum⟩ : ∃ Y rest, script :: envs = Y ++ rest ∧ Y.length = envs.length :=
    ⟨_, _, (List.take_append_drop envs.length _).symm, List.length_take_of_le (Nat.le_succ _)⟩
  have hstored : stored (newArgs line script []) ++ stored envs =
      stored (basename (interpreter line) :: (argument line).toList) ++ stored Y ++ stored rest := by
    rw [List.append_assoc, ← stored_append, ← stored_append, ← stored_append, ← hY]
    simp [newArgs]
  have hargc : (((([] : List CString).length : Nat) : Int) + (argument line).toList.length + 1) =
      (((basename (interpreter line) :: (argument line).toList).length : Nat) : Int) := by
    simp
  rw [hstored] at L
  obtain ⟨sp, m, hm, hlayout⟩ := enter_spec demand L C.sized
  rw [hrun, hargc, ← hnum, hm]
  rintro ⟨sp', m', argv', envp', argAt, envAt, hok, hlayout'⟩
  cases hok
  have hcount := hlayout.count.symm.trans hlayout'.count
  simp [newArgs] at hcount

theorem sees_of_ne_nil (C : Call files user filename argv envp args envs script line file interp)
    (demand : Nat → Nat → Byte) (hargs : args ≠ []) (hf : filename ≠ 0)
    (hfit : (stored (newArgs line script args)).length + (stored envs).length < top)
    (he : Enough P noPages top ((stored (newArgs line script args)).length + (stored envs).length)) :
    Sees (doExecve P demand files K user filename argv envp) (newArgs line script args) envs := by
  obtain ⟨p, mem, hrun, L⟩ := doExecve_enter (P := P) (K := K) C demand hf hfit he
  have hargc : (args.length : Int) + (argument line).toList.length + 1 =
      ((newArgs line script args).length : Nat) := by
    have := List.length_pos_of_ne_nil hargs
    simp [newArgs]
    omega
  rw [← List.append_nil (_ ++ _)] at L
  obtain ⟨sp, m, hm, hlayout⟩ := enter_spec demand L C.sized
  rw [hrun, hargc, hm]
  exact ⟨sp, m, _, _, _, _, rfl, hlayout⟩

/-- The program sees the new arguments exactly if the caller passed an `argv[0]`, the name of the script
is not at address 0, and the strings leave a byte of the argument pages. -/
theorem script_arguments_iff (P : Pool) (demand : Nat → Nat → Byte) (files : List Byte → Option File)
    (K : Frame) (user : User) (filename argv envp : Nat) (args envs : List CString)
    (script line : CString) (file interp : File)
    (C : Call files user filename argv envp args envs script line file interp)
    (hfit : (stored (newArgs line script args)).length + (stored envs).length ≤ top)
    (he : Enough P noPages top ((stored (newArgs line script args)).length + (stored envs).length)) :
    Sees (doExecve P demand files K user filename argv envp) (newArgs line script args) envs ↔
      args ≠ [] ∧ filename ≠ 0 ∧
        (stored (newArgs line script args)).length + (stored envs).length ≠ top := by
  obtain ⟨l, R, hrun⟩ := doExecve_eq (P := P) (K := K) C demand hfit
  constructor
  · intro hsees
    have hf : filename ≠ 0 := by
      rintro rfl
      rw [hrun, splice_null C.envs C.args hfit he] at hsees
      obtain ⟨sp, m, _, _, _, _, h, _⟩ := hsees
      cases h
    have htop : (stored (newArgs line script args)).length + (stored envs).length ≠ top := by
      intro hfull
      obtain ⟨p, mem, hsplice, L⟩ := splice_spec R C.envs C.args C.named hf hfit he
      have hL := L.size
      rw [List.length_append] at hL
      rw [hrun, hsplice, show p = 0 by omega] at hsees
      obtain ⟨sp, m, _, _, _, _, h, _⟩ := hsees
      cases h
    refine ⟨?_, hf, htop⟩
    rintro rfl
    exact not_sees_nil C demand hf (Nat.lt_of_le_of_ne hfit htop) he hsees
  · rintro ⟨hargs, hf, htop⟩
    exact sees_of_ne_nil C demand hargs hf (Nat.lt_of_le_of_ne hfit htop) he

end Run

/-- `#!/i` and nothing else. -/
def tinyScript : Block := ⟨35 :: 33 :: 47 :: 105 :: 10 :: List.replicate 1019 0, by decide +kernel⟩

/-- The header of a program with one page of text. -/
def tinyHeader : Block := ⟨0x0b :: 1 :: 0 :: 0 :: 0 :: 0x10 :: List.replicate 1018 0, by decide +kernel⟩

/-- The script is `s`, and its interpreter `/i`. -/
def twoFiles (path : List Byte) : Option File :=
  if path = [115] then some ⟨none, tinyScript, 1024⟩
  else if path = [47, 105] then some ⟨none, tinyHeader, 5120⟩
  else none

def someFrame : Frame := ⟨4096, 8192, 8196, 8200, by unfold Apart; decide, by decide, by decide⟩

/-- The array of one argument at 16, the argument `a` at 32, the name of the script at 64. -/
def someUser : User where
  view a := if a < dataLimit then
    (if a = 16 then some 32 else if a = 32 then some 97 else if a = 64 then some 115 else some 0)
      else none
  limit _ h := if_neg (Nat.not_lt.mpr h)

theorem someCall {argv : Nat} {args : List CString} (hargs : Passed someUser.view argv args) :
    Call twoFiles someUser 64 argv 0 args [] ⟨[115], by decide⟩ ⟨[47, 105], by decide⟩
      ⟨none, tinyScript, 1024⟩ ⟨none, tinyHeader, 5120⟩ where
  args := hargs
  envs := rfl
  named := Shows.cons (by decide) (Shows.cons (by decide) Shows.nil)
  found := rfl
  runs := rfl
  block := ⟨List.replicate 1019 0, rfl⟩
  oneLine := by decide
  word := by decide
  names := rfl
  interpRuns := rfl
  accepted := by decide +kernel
  sized := by decide +kernel

/-- `s` with the argument `a` for `argv[0]`: the interpreter sees `i` and `s`. -/
theorem script_arguments_iff_tiny : Sees
    (doExecve somePages (fun _ _ => 0) twoFiles someFrame someUser 64 16 0)
    (newArgs ⟨[47, 105], by decide⟩ ⟨[115], by decide⟩ [⟨[97], by decide⟩]) [] := by
  refine (script_arguments_iff somePages (fun _ _ => 0) twoFiles someFrame someUser 64 16 0
    [⟨[97], by decide⟩] [] ⟨[115], by decide⟩ ⟨[47, 105], by decide⟩ _ _ (someCall ?_) (by decide)
    (absent_card_le (by decide))).mpr ⟨List.cons_ne_nil _ _, by decide, by decide⟩
  refine ⟨[32], ?_, rfl, ?_⟩
  · intro i q h
    match i, h with
    | 0, h => cases h; decide
    | 1, h => cases h; decide
  · intro i q s hq hs
    match i, hq, hs with
    | 0, hq, hs =>
      cases hq
      cases hs
      exact ⟨by decide, Shows.cons (by decide) (Shows.cons (by decide) Shows.nil)⟩

/-- Without arguments the count is 1, and `s` is the first string of the environment. -/
theorem script_arguments_shifted :
    Call twoFiles someUser 64 0 0 [] [] ⟨[115], by decide⟩ ⟨[47, 105], by decide⟩
      ⟨none, tinyScript, 1024⟩ ⟨none, tinyHeader, 5120⟩ ∧
    ¬ Sees (doExecve somePages (fun _ _ => 0) twoFiles someFrame someUser 64 0 0)
      (newArgs ⟨[47, 105], by decide⟩ ⟨[115], by decide⟩ []) [] :=
  have hpassed : Passed someUser.view 0 [] := rfl
  ⟨someCall hpassed, not_sees_nil (someCall hpassed) _ (by decide) (by decide)
    (absent_card_le (by decide))⟩

end Linux011.Exec.Script
