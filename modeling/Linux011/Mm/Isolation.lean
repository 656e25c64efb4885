import Linux011.Mm.ExecEvents
import Linux011.Mm.LowTables

/-!
# Copy-on-write isolation

The invariant of the task machine holds in every state that its events reach, and gives three facts
about the memory above `LOW_MEM`: a writable entry is the only reference to its page; a child starts
with the bytes of its parent; and a user-mode write, with all the faults it takes, changes no byte
that another task sees.

The one assumption is about executables: the sizes in a header do not wrap. `do_execve` adds them
in 32 bits, and a header that wraps gives a task a code limit beyond its own region.
-/

namespace Linux011.Mm

variable {file : Nat → Program} {lo hi : Nat} {s s' : Sys} {nr : Nat} {t : Task}

/-- No program whose sizes wrap is started. -/
def SaneStep (file : Nat → Program) (_ : Sys) (e : Event) : Prop :=
  ∀ nr ino, e = .execSet nr ino → (file ino).Sane

/-- What `withTask` asks for. -/
theorem withTask_some {cond : Task → Bool} {k : Task → Option Sys}
    (h : s.withTask nr cond k = some s') :
    ∃ t, s.task nr = some t ∧ 1 ≤ nr ∧ cond t = true ∧ k t = some s' := by
  unfold Sys.withTask at h
  split at h
  · next t ht =>
    split at h
    · next hc => exact ⟨t, ht, hc.1, hc.2, h⟩
    · cases h
  · cases h

theorem boot_inv (m : Mem) (h1 : lowMem ≤ lo) (h2 : lo ≤ hi) (h3 : hi ≤ lowMem + pagingPages) :
    Inv file lo hi (Sys.boot lo hi m) := by
  have S := boot_sound m h1 h2 h3
  have hnone : ∀ nr, 1 ≤ nr → (Sys.boot lo hi m).task nr = none := fun nr hnr =>
    if_neg (by omega)
  have hdir : ∀ d, present ((Sys.boot lo hi m).mem.dirv d) = false := by
    intro d
    unfold Mem.dirv
    split
    · have hd : ¬ d < 4 := by omega
      simp only [Sys.boot, boot, memInit, setupPaging, if_true, if_neg hd]
      rfl
    · rfl
  refine ⟨S, rfl, fun hnr ht => ?_, fun _ _ _ k _ => hdir _, fun hnr _ _ f hf => ?_⟩
  · rw [hnone _ hnr] at ht
    cases ht
  · rw [Sys.pages, hnone _ hnr] at hf
    cases hf

/-- Every event keeps the invariant. -/
theorem step_inv (I : Inv file lo hi s) {e : Event} (hg : SaneStep file s e)
    (h : step file s e = some s') : Inv file lo hi s' := by
  cases e with
  | fork parent child =>
    simp only [step] at h
    split at h
    · next t ht hc =>
      split at h
      · next hu => exact (fork_spec I ht hu.1 hu.2.1 hu.2.2 hc h).1
      · cases h
    · cases h
  | exit nr =>
    obtain ⟨t, ht, h1, -, h⟩ := withTask_some h
    exact (exit_of I h1 ht h).inv
  | release nr =>
    obtain ⟨t, ht, h1, hz, h⟩ := withTask_some h
    exact (release_spec I h1 ht (of_decide_eq_true hz) h).1
  | userWrite nr off w =>
    obtain ⟨t, ht, h1, hc, h⟩ := withTask_some h
    obtain ⟨hu, hoff, hp⟩ := of_decide_eq_true hc
    rcases userWrite_spec I h1 ht hu hoff hp h with E | ⟨I', -⟩
    · exact E.inv
    · exact I'
  | wpFault nr off =>
    obtain ⟨t, ht, h1, hc, h⟩ := withTask_some h
    obtain ⟨hu, hoff, hp, -⟩ := of_decide_eq_true hc
    rcases wpFault_spec I h1 ht hu hoff hp h with E | ⟨I', -⟩
    · exact E.inv
    · exact I'
  | verify nr address =>
    obtain ⟨t, ht, h1, -, h⟩ := withTask_some h
    rcases verify_spec I h1 ht h with E | rfl | ⟨I', -⟩
    · exact E.inv
    · exact I
    · exact I'
  | noPage nr off iCount =>
    obtain ⟨t, ht, h1, hc, h⟩ := withTask_some h
    obtain ⟨hf, hoff, hp⟩ := of_decide_eq_true hc
    rcases noPage_spec I h1 ht hf hoff hp h with E | ⟨I', -⟩
    · exact E.inv
    · exact I'
  | loaded nr =>
    obtain ⟨t, ht, h1, -, h⟩ := withTask_some h
    split at h
    · next hl hex =>
      rcases loaded_spec I h1 ht hl hex h with E | ⟨I', -⟩
      · exact E.inv
      · exact I'
    · cases h
  | execArg nr i content =>
    obtain ⟨t, ht, h1, hc, h⟩ := withTask_some h
    obtain ⟨-, hl, -⟩ := of_decide_eq_true hc
    cases h
    exact (execArg_spec I _ _ h1 ht (Option.isNone_iff_eq_none.mp hl)).1
  | execFail nr =>
    obtain ⟨t, ht, h1, hc, h⟩ := withTask_some h
    obtain ⟨-, hl⟩ := of_decide_eq_true hc
    exact (execFail_spec I h1 ht (Option.isNone_iff_eq_none.mp hl) h).1
  | execSet nr ino =>
    obtain ⟨t, ht, h1, hc, h⟩ := withTask_some h
    obtain ⟨-, hl, ha⟩ := of_decide_eq_true hc
    cases h
    exact (execSet_spec I h1 ht (Option.isNone_iff_eq_none.mp hl) ha (hg nr ino rfl)).1
  | execFinish nr stack =>
    obtain ⟨t, ht, h1, hc, h⟩ := withTask_some h
    obtain ⟨-, hl, hst⟩ := of_decide_eq_true hc
    obtain ⟨ino, hex, h⟩ := Option.bind_eq_some_iff.mp h
    rcases execFinish_spec I h1 ht (Option.isNone_iff_eq_none.mp hl) hex
      (fun x hx => ⟨(hst x hx).1, (hst x hx).2.1⟩) h with E | ⟨I', -⟩
    · exact E.inv
    · exact I'
  | zeroByte nr =>
    obtain ⟨t, ht, h1, -, h⟩ := withTask_some h
    split at h
    · next n hz =>
      split at h
      · next hc =>
        cases h
        exact (zeroByte_spec I h1 ht hz (Option.isNone_iff_eq_none.mp hc.1) hc.2.2.1 hc.2.2.2).1
      · cases h
    · cases h
  | execDone nr =>
    obtain ⟨t, ht, h1, -, h⟩ := withTask_some h
    split at h
    · next n hz =>
      split at h
      · next hc =>
        cases h
        exact (execDone_spec I h1 ht hz (Option.isNone_iff_eq_none.mp hc.1)).1
      · cases h
    · cases h

/-- The states that events reach from a system with task 0 alone, under a guard. -/
def SysReach (file : Nat → Program) (guard : Sys → Event → Prop) (lo hi : Nat) : Sys → Prop :=
  Lib.Reach (step file) guard fun s => ∃ m, s = Sys.boot lo hi m

theorem SysReach.inv {guard : Sys → Event → Prop} (hg : ∀ s e, guard s e → SaneStep file s e)
    (h1 : lowMem ≤ lo) (h2 : lo ≤ hi) (h3 : hi ≤ lowMem + pagingPages)
    (h : SysReach file guard lo hi s) : Inv file lo hi s := by
  refine Lib.Reach.invariant ?_ (fun s e s' I he hs => step_inv I (hg s e he) hs) h
  rintro _ ⟨m, rfl⟩
  exact boot_inv m h1 h2 h3

/-! ## The result -/

/-- The bytes a task sees at an entry of its region, for pages above `LOW_MEM`. -/
def shown (m : Mem) (nr k i : Nat) : Option (Nat → Word) := (slotView m nr k i).content

/-- The events a user-mode access is made of: the access itself, and the faults it takes. -/
def Event.isAccess (nr : Nat) : Event → Prop
  | .userWrite q _ _ => q = nr
  | .wpFault q _ => q = nr
  | .noPage q _ _ => q = nr
  | .loaded q => q = nr
  | _ => False

/-- An access of one task shows in no other task. -/
theorem access_local (I : Inv file lo hi s) {e : Event} (he : e.isAccess nr)
    (h : step file s e = some s') : Local s s' nr := by
  cases e with
  | userWrite q off w =>
    cases he
    obtain ⟨t, ht, h1, hc, h⟩ := withTask_some h
    obtain ⟨hu, hoff, hp⟩ := of_decide_eq_true hc
    rcases userWrite_spec I h1 ht hu hoff hp h with E | ⟨-, L, -⟩
    · exact E.only
    · exact L
  | wpFault q off =>
    cases he
    obtain ⟨t, ht, h1, hc, h⟩ := withTask_some h
    obtain ⟨hu, hoff, hp, -⟩ := of_decide_eq_true hc
    rcases wpFault_spec I h1 ht hu hoff hp h with E | ⟨-, L, -⟩
    · exact E.only
    · exact L
  | noPage q off iCount =>
    cases he
    obtain ⟨t, ht, h1, hc, h⟩ := withTask_some h
    obtain ⟨hf, hoff, hp⟩ := of_decide_eq_true hc
    rcases noPage_spec I h1 ht hf hoff hp h with E | ⟨-, L, -⟩
    · exact E.only
    · exact L
  | loaded q =>
    cases he
    obtain ⟨t, ht, h1, -, h⟩ := withTask_some h
    split at h
    · next hl hex =>
      rcases loaded_spec I h1 ht hl hex h with E | ⟨-, L, -⟩
      · exact E.only
      · exact L
    · cases h
  | _ => exact he.elim

/-- A writable entry names a page that is counted once. -/
theorem Sound.writable_count {m : Mem} {held : Nat → Bool} {d i : Nat} (S : Sound lo hi m held)
    (hp : present (m.pte d i) = true) (hw : writable (m.pte d i) = true) :
    m.memMap (mapNr (frame (m.pte d i))) = 1 := by
  have A := S.acct
  have hl : lowMem ≤ frame (m.pte d i) := by
    rcases A.page hp with h | h
    · rw [h.2] at hw
      cases hw
    · exact A.low.trans h.1
  have hcnt : m.cnt (frame (m.pte d i)) = m.memMap (mapNr (frame (m.pte d i))) :=
    if_neg (Nat.not_lt.mpr hl)
  rw [← hcnt, A.page_count hp hl]
  refine Lib.card_filter_one (a := (d, i)) (mem_cells.mpr (A.cell hp)) ⟨hp, rfl⟩ ?_
  rintro ⟨d', i'⟩ _ hpt
  have := A.alone hp hpt.1 hpt.2.symm hw
  exact Prod.ext this.1.symm this.2.symm

/-- COPY-ON-WRITE ISOLATION. In every state that forks, exits, accesses, faults, page sharing and
the other events of tasks reach: a writable entry names a page counted once; a child shows the bytes
of its parent at every mapped address, and the parent still does; and no access of a task changes a
byte that another task sees. -/
theorem copy_on_write_isolation (h1 : lowMem ≤ lo) (h2 : lo ≤ hi)
    (h3 : hi ≤ lowMem + pagingPages) (h : SysReach file (SaneStep file) lo hi s) :
    (∀ d i, present (s.mem.pte d i) = true → writable (s.mem.pte d i) = true →
      s.mem.memMap (mapNr (frame (s.mem.pte d i))) = 1) ∧
    (∀ parent child s', step file s (.fork parent child) = some s' → s'.task child ≠ none →
      ∀ k < 16, ∀ i, shown s'.mem child k i = shown s.mem parent k i ∧
        shown s'.mem parent k i = shown s.mem parent k i) ∧
    (∀ nr e s', e.isAccess nr → step file s e = some s' →
      ∀ q, q ≠ nr → ∀ k < 16, ∀ i, shown s'.mem q k i = shown s.mem q k i) := by
  have I := h.inv (fun _ _ h => h) h1 h2 h3
  -- what a slot shows depends on its entries only
  have other : ∀ {s s' : Sys} {nr q k i : Nat}, Local s s' nr → q ≠ nr → k < 16 →
      shown s'.mem q k i = shown s.mem q k i := by
    intro s s' nr q k i L hq hk
    unfold shown slotView
    split
    · rfl
    · rw [L.view _ i (by omega)]
  refine ⟨fun d i => I.sound.writable_count, fun parent child s' hs hne k hk i => ?_,
    fun nr e s' he hs q hq k hk i => other (access_local I he hs) hq hk⟩
  simp only [step] at hs
  split at hs
  · next t ht hc =>
    split at hs
    · next hu =>
      have hpc : parent ≠ child := by
        rintro rfl
        rw [ht] at hc
        cases hc
      obtain ⟨-, L, hsame | ⟨p, htask, hview⟩⟩ := fork_spec I ht hu.1 hu.2.1 hu.2.2 hc hs
      · rw [hsame, hc] at hne
        exact absurd rfl hne
      · refine ⟨?_, other L hpc hk⟩
        unfold shown
        rw [slotView, if_neg (by omega), hview k hk i]
    · cases hs
  · cases hs

/-- A system with ten paged pages, and the same after task 0 has forked once. -/
def tenPages : Sys := Sys.boot 4086 4096 ⟨fun _ _ => 0, fun _ => 0, 0⟩

/-- The memory of `tenPages` once the page of the `task_struct` is taken. -/
def onePageTaken : Mem := (tenPages.mem.setCount 3839 1).fill 4095 fun _ => 0

def firstChild : Sys :=
  ⟨(((onePageTaken.setCount 3838 1).fill 4094 fun _ => 0).poke 0 16 (userEntry 4094)).fill 4094
      fun i => if i < 0xA0 then userEntry i &&& ~~~2 else 0,
    Function.update (fun _ => false) 4095 true,
    Function.update tenPages.task 1 (some { initTask with page := 4095 })⟩

theorem tenPages_sound : Sound 4086 4096 tenPages.mem tenPages.held :=
  boot_sound _ (by decide) (by decide) (by decide)

theorem step_firstChild (file : Nat → Program) :
    step file tenPages (.fork 0 1) = some firstChild := by
  have h4095 : getFreePage tenPages.mem = some (4095, onePageTaken) := rfl
  have h4094 : getFreePage onePageTaken =
      some (4094, (onePageTaken.setCount 3838 1).fill 4094 fun _ => 0) := rfl
  exact step_fork_kernel tenPages_sound rfl (by decide) (by decide) rfl rfl h4095 h4094

/-- A file without text and data, in blocks of a single zero word. -/
def emptyProgram : Program := ⟨⟨zmagic, 0, 0, 0, 0, 0, 0⟩, 1024, fun _ _ => 0⟩

/-- The word that a task sees at the start of its region. -/
def firstWord (m : Mem) (nr : Nat) : Option Word := (shown m nr 0 0).map fun page => page 0

/-- Task 1 gets a page of its own, forks, and writes to the page that it shares with its child then. -/
theorem copy_on_write_isolation_shared : ∃ s s' s'' : Sys,
    SysReach (fun _ => emptyProgram) (SaneStep fun _ => emptyProgram) 4086 4096 s ∧
    step (fun _ => emptyProgram) s (.fork 1 2) = some s' ∧ s'.task 1 ≠ none ∧ s'.task 2 ≠ none ∧
    step (fun _ => emptyProgram) s' (.userWrite 1 0 9) = some s'' ∧
    (writable (s.mem.pte 16 0) = true ∧ lowMem ≤ frame (s.mem.pte 16 0) ∧
      s.mem.memMap (mapNr (frame (s.mem.pte 16 0))) = 1) ∧
    (firstWord s'.mem 2 = some 7 ∧ shown s'.mem 2 0 0 = shown s.mem 1 0 0 ∧
      frame (s'.mem.pte 32 0) = frame (s'.mem.pte 16 0) ∧
      s'.mem.memMap (mapNr (frame (s'.mem.pte 16 0))) = 2) ∧
    firstWord s''.mem 1 = some 9 ∧ shown s''.mem 2 0 0 = shown s'.mem 2 0 0 := by
  have hsane : ∀ s e, SaneStep (fun _ => emptyProgram) s e := fun _ _ _ _ _ =>
    (by decide : emptyProgram.Sane)
  have hrun : ((Lib.run (step fun _ => emptyProgram) firstChild [.userWrite 1 0 7]).bind fun s =>
      (step (fun _ => emptyProgram) s (.fork 1 2)).bind fun s' =>
        (step (fun _ => emptyProgram) s' (.userWrite 1 0 9)).map fun s'' =>
          present (s.mem.pte 16 0) && writable (s.mem.pte 16 0) &&
            decide (lowMem ≤ frame (s.mem.pte 16 0)) && (s'.task 1).isSome && (s'.task 2).isSome &&
            decide (firstWord s'.mem 2 = some 7) &&
            decide (frame (s'.mem.pte 32 0) = frame (s'.mem.pte 16 0)) &&
            decide (s'.mem.memMap (mapNr (frame (s'.mem.pte 16 0))) = 2) &&
            decide (firstWord s''.mem 1 = some 9)) = some true := by decide +kernel
  obtain ⟨s, hs, h⟩ := Option.bind_eq_some_iff.mp hrun
  obtain ⟨s', hs', h⟩ := Option.bind_eq_some_iff.mp h
  obtain ⟨s'', hs'', h⟩ := Option.map_eq_some_iff.mp h
  simp only [Bool.and_eq_true, decide_eq_true_eq] at h
  obtain ⟨⟨⟨⟨⟨⟨⟨⟨hp, hw⟩, hl⟩, h1⟩, h2⟩, h7⟩, hf⟩, hc⟩, h9⟩ := h
  have hfirst : SysReach (fun _ => emptyProgram) (SaneStep fun _ => emptyProgram) 4086 4096
      firstChild := .next _ (.start ⟨_, rfl⟩) (hsane _ _) (step_firstChild _)
  have hreach := Lib.Reach.ofRun hsane hfirst hs
  obtain ⟨halone, hfork, -⟩ := copy_on_write_isolation (by decide) (by decide) (by decide) hreach
  obtain ⟨-, -, hwrite⟩ := copy_on_write_isolation (by decide) (by decide) (by decide)
    (hreach.next _ (hsane _ _) hs')
  have hsome {o : Option Task} (h : o.isSome = true) : o ≠ none := by
    rintro rfl
    cases h
  exact ⟨s, s', s'', hreach, hs', hsome h1, hsome h2, hs'', ⟨hw, hl, halone 16 0 hp hw⟩,
    ⟨h7, (hfork 1 2 s' hs' (hsome h2) 0 (by decide) 0).1, hf, hc⟩, h9,
    hwrite 1 (.userWrite 1 0 9) s'' rfl hs'' 2 (by decide) 0 (by decide) 0⟩

end Linux011.Mm
