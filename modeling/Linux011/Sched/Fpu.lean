import Mathlib.Logic.Function.Basic
import Linux011.Lib.Machine
import Linux011.Lib.Slots

/-!
# Lazy FPU switching (`kernel/sched.c`, `kernel/fork.c`, `fs/exec.c`, `kernel/exit.c`)

A task switch leaves the FPU alone and sets TS. `last_task_used_math` is the task whose state the
registers hold; the next floating-point instruction of another task traps, and the trap saves the
registers for their owner and loads those of the current task. So the state of a task is in the
registers if it owns them, in its `tss.i387` if it has used the FPU, and otherwise is the initial one.

Two places do not keep to this. `fnsave` resets the registers, and `copy_process` uses it to copy the
state of the owner for the child without loading it again. `do_execve` takes the registers from their
owner and leaves TS clear, so the new program finds them as they are.

The contents of the FPU are of any type `β`, and an instruction is any function on them.
-/

namespace Linux011.Fpu

variable {ι β : Type*}

/-! ## State -/

/-- `struct task_struct`, as far as the FPU goes; `exiting` from the middle of `do_exit` on. -/
structure Task (β : Type*) where
  i387 : β
  usedMath : Bool
  exiting : Bool

structure Cpu (ι β : Type*) where
  /-- The registers. -/
  fpu : β
  ts : Bool
  lastTaskUsedMath : Option ι
  current : ι
  task : ι → Option (Task β)

/-- The current task, unless it is on its way out. -/
def Cpu.running (s : Cpu ι β) : Option (Task β) := (s.task s.current).filter fun t => !t.exiting

variable [DecidableEq ι]

def Cpu.modify (s : Cpu ι β) (i : ι) (f : Task β → Task β) : Cpu ι β :=
  { s with task := Function.update s.task i ((s.task i).map f) }

/-! ## Code

`fresh` is the state that `fninit` and `fnsave` leave. -/

section Code

variable (fresh : β)

/-- `fnsave last_task_used_math->tss.i387`. -/
def saveOwner (s : Cpu ι β) : Cpu ι β :=
  match s.lastTaskUsedMath with
  | none => s
  | some i => { s.modify i fun t => { t with i387 := s.fpu } with fpu := fresh }

/-- `frstor` or `fninit` for the current task. -/
def load (s : Cpu ι β) : Cpu ι β :=
  match s.task s.current with
  | none => s
  | some t =>
    if t.usedMath then { s with fpu := t.i387 }
    else { s.modify s.current fun t => { t with usedMath := true } with fpu := fresh }

/-- `math_state_restore`. -/
def mathStateRestore (s : Cpu ι β) : Cpu ι β :=
  if s.lastTaskUsedMath = some s.current then s
  else load fresh { saveOwner fresh s with lastTaskUsedMath := some s.current }

/-- The trap `device_not_available`: `clts` and `math_state_restore`. -/
def deviceNotAvailable (s : Cpu ι β) : Cpu ι β := mathStateRestore fresh { s with ts := false }

/-- A floating-point instruction is about to run: with TS set it traps first. -/
def ready (s : Cpu ι β) : Cpu ι β := if s.ts then deviceNotAvailable fresh s else s

/-- A floating-point instruction. -/
def instruction (f : β → β) (s : Cpu ι β) : Cpu ι β := { ready fresh s with fpu := f (ready fresh s).fpu }

/-- `copy_process` by a task `t`. Without memory for the page tables there is no child. -/
def copyProcess (child : ι) (memory : Bool) (t : Task β) (s : Cpu ι β) : Cpu ι β :=
  if s.lastTaskUsedMath = some s.current then
    { s with
      ts := false
      fpu := fresh
      task := if memory then Function.update s.task child (some { t with i387 := s.fpu }) else s.task }
  else { s with task := if memory then Function.update s.task child (some t) else s.task }

end Code

/-- `if (last_task_used_math == current) last_task_used_math = NULL`. -/
def disown (s : Cpu ι β) : Cpu ι β :=
  if s.lastTaskUsedMath = some s.current then { s with lastTaskUsedMath := none } else s

/-- `do_execve`. -/
def doExecve (s : Cpu ι β) : Cpu ι β :=
  (disown s).modify s.current fun t => { t with usedMath := false }

/-- `do_exit`. -/
def doExit (s : Cpu ι β) : Cpu ι β := (disown s).modify s.current fun t => { t with exiting := true }

/-- `switch_to`: the jump sets TS, and the owner of the registers clears it when it goes on. -/
def switchTo (n : ι) (s : Cpu ι β) : Cpu ι β :=
  if n = s.current then s
  else { s with current := n, ts := decide (s.lastTaskUsedMath ≠ some n) }

/-- `release` of a task that has exited. -/
def release (i : ι) (s : Cpu ι β) : Cpu ι β := { s with task := Function.update s.task i none }

/-! ## The system -/

inductive Event (ι β : Type*)
  | instruction (f : β → β)
  | switchTo (n : ι)
  /-- `memory`: there is a page for each table of the child. -/
  | fork (child : ι) (memory : Bool)
  | execve
  | exit
  | release (i : ι)

section System

variable (fresh : β)

def step (s : Cpu ι β) : Event ι β → Option (Cpu ι β)
  | .instruction f => s.running.map fun _ => instruction fresh f s
  | .switchTo n => if (s.task n).any fun t => !t.exiting then some (switchTo n s) else none
  | .fork child memory =>
    s.running.bind fun t => if s.task child = none then some (copyProcess fresh child memory t s) else none
  | .execve => s.running.map fun _ => doExecve s
  | .exit => s.running.map fun _ => doExit s
  | .release i =>
    if i ≠ s.current ∧ (s.task i).any Task.exiting then some (release i s) else none

/-- What each task's own FPU would hold: the effect of an event of task `i` on it. -/
def ownStep (i : ι) (own : ι → β) : Event ι β → ι → β
  | .instruction f => Function.update own i (f (own i))
  | .fork child true => Function.update own child (own i)
  | .execve => Function.update own i fresh
  | _ => own

/-- The code beside one FPU for each task. -/
def pairStep (s : Cpu ι β × (ι → β)) (e : Event ι β) : Option (Cpu ι β × (ι → β)) :=
  (step fresh s.1 e).map fun c => (c, ownStep fresh s.1.current s.2 e)

/-- The FPU state that the current task observes at a floating-point instruction. -/
def observed (s : Cpu ι β) : β := (ready fresh s).fpu

/-- Init is entered by a task switch, which set TS, and nobody has used the FPU. -/
structure Start (s : Cpu ι β × (ι → β)) : Prop where
  ts : s.1.ts = true
  owner : s.1.lastTaskUsedMath = none
  unused : ∀ i t, s.1.task i = some t → t.usedMath = false
  own : ∀ i, s.2 i = fresh

/-- The owner of the registers does not fork, unless they are in their initial state, and it does not
exec. -/
def Careful (s : Cpu ι β × (ι → β)) : Event ι β → Prop
  | .fork _ _ => s.1.lastTaskUsedMath = some s.1.current → s.1.fpu = fresh
  | .execve => s.1.lastTaskUsedMath ≠ some s.1.current
  | _ => True

end System

/-! ## Invariant -/

section Invariant

variable (fresh : β)

/-- The state of task `i` when it does not own the registers. -/
def Task.saved (t : Task β) : β := if t.usedMath then t.i387 else fresh

/-- The state of task `i`. -/
def Cpu.held (s : Cpu ι β) (i : ι) (t : Task β) : β :=
  if s.lastTaskUsedMath = some i then s.fpu else t.saved fresh

/-- Without TS, the task that runs owns the registers. -/
def Cpu.Armed (s : Cpu ι β) : Prop :=
  s.ts = false → s.running.isSome = true → s.lastTaskUsedMath = some s.current

/-- Every task's state is where the code keeps it. -/
structure Kept (s : Cpu ι β) (own : ι → β) : Prop where
  /-- The owner is there and has used the FPU. -/
  owner : ∀ i, s.lastTaskUsedMath = some i →
    ∃ t, s.task i = some t ∧ t.exiting = false ∧ t.usedMath = true
  held : ∀ i t, s.task i = some t → t.exiting = false → s.held fresh i t = own i

variable {fresh : β} {s s' : Cpu ι β} {own : ι → β} {i : ι} {t u : Task β}

omit [DecidableEq ι] in
theorem running_eq_some : s.running = some t ↔ s.task s.current = some t ∧ t.exiting = false := by
  rw [Cpu.running, Option.filter_eq_some_iff, Bool.not_eq_true']

theorem modify_self {f : Task β → Task β} (h : s.task i = some t) :
    (s.modify i f).task i = some (f t) := by
  unfold Cpu.modify
  dsimp only
  rw [Function.update_self, h, Option.map_some]

theorem modify_of_ne {f : Task β → Task β} {j : ι} (h : j ≠ i) : (s.modify i f).task j = s.task j :=
  Function.update_of_ne h _ _

theorem modify_task_eq {f : Task β → Task β} {j : ι} (h : (s.modify i f).task j = some u) :
    (j ≠ i ∧ s.task j = some u) ∨ ∃ t, j = i ∧ s.task i = some t ∧ f t = u := by
  by_cases hj : j = i
  · unfold Cpu.modify at h
    dsimp only at h
    rw [hj, Function.update_self] at h
    obtain ⟨t, ht, rfl⟩ := Option.map_eq_some_iff.mp h
    exact Or.inr ⟨t, hj, ht, rfl⟩
  · rw [modify_of_ne hj] at h
    exact Or.inl ⟨hj, h⟩

/-! ## The trap -/

/-- Once the registers are saved, each task has its state in its own table. -/
theorem saveOwner_saved (K : Kept fresh s own) (hu : (saveOwner fresh s).task i = some u)
    (hlive : u.exiting = false) : u.saved fresh = own i := by
  unfold saveOwner at hu
  split at hu
  · next howner =>
    have := K.held i u hu hlive
    rwa [Cpu.held, howner, if_neg (by simp)] at this
  · next j howner =>
    obtain ⟨hne, hu⟩ | ⟨t, rfl, ht, rfl⟩ := modify_task_eq hu
    · have := K.held i u hu hlive
      rwa [Cpu.held, howner, if_neg (fun h => hne (Option.some.inj h).symm)] at this
    · obtain ⟨t', ht', -, hused⟩ := K.owner i howner
      cases ht.symm.trans ht'
      have := K.held i t ht hlive
      rw [Cpu.held, if_pos howner] at this
      rw [Task.saved, if_pos hused]
      exact this

theorem saveOwner_current : (saveOwner fresh s).current = s.current := by
  unfold saveOwner
  split <;> rfl

theorem saveOwner_running (ht : s.task s.current = some t) (hlive : t.exiting = false) :
    ∃ u, (saveOwner fresh s).task s.current = some u ∧ u.exiting = false := by
  unfold saveOwner
  split
  · exact ⟨t, ht, hlive⟩
  · next j howner =>
    by_cases hj : s.current = j
    · subst hj
      exact ⟨_, modify_self ht, hlive⟩
    · exact ⟨t, (modify_of_ne hj).trans ht, hlive⟩

/-- Loading gives the current task its state, and makes it the owner. -/
theorem load_kept (ht : s.task s.current = some t) (hlive : t.exiting = false)
    (howner : s.lastTaskUsedMath = some s.current)
    (hsaved : ∀ i u, s.task i = some u → u.exiting = false → u.saved fresh = own i) :
    Kept fresh (load fresh s) own := by
  have hown : t.saved fresh = own s.current := hsaved s.current t ht hlive
  unfold load
  rw [ht]
  dsimp only
  unfold Task.saved at hown
  split at hown
  · next hused =>
    rw [if_pos hused]
    refine ⟨fun i hi => ?_, fun i u hu hu' => ?_⟩
    · cases howner.symm.trans hi
      exact ⟨t, ht, hlive, hused⟩
    · unfold Cpu.held
      dsimp only
      split
      · next hi =>
        cases howner.symm.trans hi
        exact hown
      · exact hsaved i u hu hu'
  · next hused =>
    rw [if_neg hused]
    refine ⟨fun i hi => ?_, fun i u hu hu' => ?_⟩
    · cases howner.symm.trans hi
      exact ⟨_, modify_self ht, hlive, rfl⟩
    · unfold Cpu.held
      split
      · next hi =>
        cases howner.symm.trans hi
        exact hown
      · next hi =>
        obtain ⟨-, hu⟩ | ⟨-, rfl, -, -⟩ := modify_task_eq hu
        · exact hsaved i u hu hu'
        · exact absurd howner hi

theorem load_owner : (load fresh s).lastTaskUsedMath = s.lastTaskUsedMath ∧
    (load fresh s).current = s.current := by
  unfold load
  split
  · exact ⟨rfl, rfl⟩
  · split <;> exact ⟨rfl, rfl⟩

theorem load_running (ht : s.task s.current = some t) (hlive : t.exiting = false) :
    ∃ u, (load fresh s).task s.current = some u ∧ u.exiting = false := by
  unfold load
  rw [ht]
  dsimp only
  split
  · exact ⟨t, ht, hlive⟩
  · exact ⟨_, modify_self ht, hlive⟩

/-- The current task owns the registers afterwards, and every state is kept. -/
theorem mathStateRestore_kept (K : Kept fresh s own) (ht : s.task s.current = some t)
    (hlive : t.exiting = false) :
    Kept fresh (mathStateRestore fresh s) own ∧
      (mathStateRestore fresh s).lastTaskUsedMath = some s.current ∧
        (mathStateRestore fresh s).current = s.current ∧
          ∃ u, (mathStateRestore fresh s).task s.current = some u ∧ u.exiting = false := by
  unfold mathStateRestore
  split
  · next howner => exact ⟨K, howner, rfl, t, ht, hlive⟩
  · have hsaved := fun i u => saveOwner_saved (i := i) (u := u) K
    obtain ⟨u, hu, hu'⟩ : ∃ u, (saveOwner fresh s).task s.current = some u ∧ u.exiting = false :=
      saveOwner_running ht hlive
    have hcur : (saveOwner fresh s).current = s.current := saveOwner_current
    generalize saveOwner fresh s = m at hsaved hu hcur
    rw [← hcur] at hu ⊢
    obtain ⟨howner', hcur'⟩ := load_owner (s := { m with lastTaskUsedMath := some m.current })
    exact ⟨load_kept hu hu' rfl hsaved, howner', hcur', load_running hu hu'⟩

/-- Before an instruction of the current task: it owns the registers. -/
theorem ready_kept (K : Kept fresh s own) (A : s.Armed) (ht : s.running = some t) :
    Kept fresh (ready fresh s) own ∧ (ready fresh s).lastTaskUsedMath = some s.current ∧
      (ready fresh s).current = s.current ∧
        ∃ u, (ready fresh s).task s.current = some u ∧ u.exiting = false := by
  have hsome : s.running.isSome = true := by rw [ht, Option.isSome_some]
  obtain ⟨ht, hlive⟩ := running_eq_some.mp ht
  unfold ready
  split
  · have K' : Kept fresh { s with ts := false } own := ⟨K.owner, K.held⟩
    exact mathStateRestore_kept K' ht hlive
  · next hts => exact ⟨K, A (Bool.eq_false_iff.mpr hts) hsome, rfl, t, ht, hlive⟩

/-- What the current task observes is its own state. -/
theorem observed_eq (K : Kept fresh s own) (A : s.Armed) (ht : s.running = some t) :
    observed fresh s = own s.current := by
  obtain ⟨K', howner, -, u, hu, hlive⟩ := ready_kept K A ht
  have := K'.held s.current u hu hlive
  rwa [Cpu.held, if_pos howner] at this

/-! ## Steps -/

theorem instruction_kept (K : Kept fresh s own) (A : s.Armed) (ht : s.running = some t) (f : β → β) :
    Kept fresh (instruction fresh f s) (Function.update own s.current (f (own s.current))) ∧
      (instruction fresh f s).Armed := by
  have hobserved := observed_eq K A ht
  obtain ⟨K', howner, hcur, u, hu, hlive⟩ := ready_kept K A ht
  refine ⟨⟨K'.owner, fun i v hv hv' => ?_⟩, fun _ _ => ?_⟩
  · by_cases hi : i = s.current
    · subst hi
      rw [Function.update_self]
      refine (if_pos howner).trans ?_
      rw [← hobserved]
      rfl
    · have hne : (ready fresh s).lastTaskUsedMath ≠ some i := fun h =>
        hi (Option.some.inj (h.symm.trans howner))
      have := K'.held i v hv hv'
      rw [Cpu.held, if_neg hne] at this
      rw [Function.update_of_ne hi]
      exact (if_neg hne).trans this
  · show (ready fresh s).lastTaskUsedMath = some (ready fresh s).current
    rw [howner, hcur]

theorem switchTo_kept (K : Kept fresh s own) (A : s.Armed) (n : ι) :
    Kept fresh (switchTo n s) own ∧ (switchTo n s).Armed := by
  unfold switchTo
  split
  · exact ⟨K, A⟩
  · refine ⟨⟨K.owner, K.held⟩, fun h _ => ?_⟩
    exact not_not.mp (of_decide_eq_false h)

/-- A free slot gets a task with the state `own` says. -/
theorem create_kept {child : ι} (K : Kept fresh s own) (hfree : s.task child = none)
    (hu : s.lastTaskUsedMath ≠ some child → u.saved fresh = own i) :
    Kept fresh { s with task := Function.update s.task child (some u) }
      (Function.update own child (own i)) := by
  have hne : s.lastTaskUsedMath ≠ some child := by
    intro h
    obtain ⟨v, hv, -⟩ := K.owner child h
    rw [hfree] at hv
    cases hv
  refine ⟨fun j hj => ?_, fun j v hv hlive => ?_⟩
  · obtain ⟨v, hv, h⟩ := K.owner j hj
    refine ⟨v, ?_, h⟩
    have hj' : j ≠ child := by
      rintro rfl
      exact hne hj
    exact (Function.update_of_ne hj' _ _).trans hv
  · by_cases hj : j = child
    · subst hj
      dsimp only at hv
      rw [Function.update_self] at hv ⊢
      cases hv
      exact (if_neg hne).trans (hu hne)
    · dsimp only at hv
      rw [Function.update_of_ne hj] at hv ⊢
      exact K.held j v hv hlive

theorem copyProcess_kept {child : ι} {memory : Bool} (K : Kept fresh s own) (A : s.Armed)
    (ht : s.running = some t) (hfree : s.task child = none)
    (hcareful : s.lastTaskUsedMath = some s.current → s.fpu = fresh) :
    Kept fresh (copyProcess fresh child memory t s)
        (ownStep fresh s.current own (.fork child memory)) ∧
      (copyProcess fresh child memory t s).Armed := by
  have hsome : s.running.isSome = true := by rw [ht, Option.isSome_some]
  obtain ⟨ht, hlive⟩ := running_eq_some.mp ht
  have hheld := K.held s.current t ht hlive
  obtain ⟨x, hx, hcopy⟩ : ∃ x : Task β, (s.lastTaskUsedMath ≠ some child → x.saved fresh = own s.current) ∧
      copyProcess fresh child memory t s =
        { s with
          ts := if s.lastTaskUsedMath = some s.current then false else s.ts
          task := if memory then Function.update s.task child (some x) else s.task } := by
    unfold copyProcess
    split
    · next howner =>
      rw [Cpu.held, if_pos howner] at hheld
      refine ⟨{ t with i387 := s.fpu }, fun _ => ?_, by rw [hcareful howner]⟩
      unfold Task.saved
      split
      · exact hheld
      · rw [← hcareful howner]
        exact hheld
    · next howner =>
      rw [Cpu.held, if_neg howner] at hheld
      exact ⟨t, fun _ => hheld, rfl⟩
  rw [hcopy]
  cases memory with
  | false =>
    refine ⟨⟨K.owner, K.held⟩, fun hts _ => ?_⟩
    dsimp only at hts ⊢
    split at hts
    · assumption
    · exact A hts hsome
  | true =>
    have C := create_kept K hfree hx
    refine ⟨⟨C.owner, C.held⟩, fun hts _ => ?_⟩
    dsimp only at hts ⊢
    split at hts
    · assumption
    · exact A hts hsome

theorem doExecve_kept (K : Kept fresh s own) (A : s.Armed) (ht : s.running = some t)
    (hcareful : s.lastTaskUsedMath ≠ some s.current) :
    Kept fresh (doExecve s) (Function.update own s.current fresh) ∧ (doExecve s).Armed := by
  have hsome : s.running.isSome = true := by rw [ht, Option.isSome_some]
  unfold doExecve disown
  rw [if_neg hcareful]
  refine ⟨⟨fun i hi => ?_, fun i v hv hlive => ?_⟩, fun hts _ => absurd (A hts hsome) hcareful⟩
  · obtain ⟨u, hu, h⟩ := K.owner i hi
    have hne : i ≠ s.current := fun h => hcareful (h ▸ hi)
    exact ⟨u, (modify_of_ne hne).trans hu, h⟩
  · obtain ⟨hne, hv⟩ | ⟨u, rfl, -, rfl⟩ := modify_task_eq hv
    · rw [Function.update_of_ne hne]
      exact K.held i v hv hlive
    · rw [Function.update_self]
      exact if_neg hcareful

theorem doExit_kept (K : Kept fresh s own) : Kept fresh (doExit s) own ∧ (doExit s).Armed := by
  have hcur : (disown s).current = s.current := by
    unfold disown
    split <;> rfl
  have htask : (disown s).task = s.task := by
    unfold disown
    split <;> rfl
  have hfpu : (disown s).fpu = s.fpu := by
    unfold disown
    split <;> rfl
  have howner : ∀ i, (disown s).lastTaskUsedMath = some i ↔ i ≠ s.current ∧ s.lastTaskUsedMath = some i := by
    intro i
    unfold disown
    split
    · next h =>
      constructor
      · intro h
        cases h
      · rintro ⟨hne, h'⟩
        exact absurd (Option.some.inj (h'.symm.trans h)) hne
    · next h =>
      refine ⟨fun h' => ⟨?_, h'⟩, And.right⟩
      rintro rfl
      exact h h'
  refine ⟨⟨fun i hi => ?_, fun i v hv hlive => ?_⟩, fun _ hrun => ?_⟩
  · obtain ⟨hne, hi⟩ := (howner i).mp hi
    obtain ⟨u, hu, h⟩ := K.owner i hi
    refine ⟨u, (modify_of_ne hne).trans ?_, h⟩
    rw [htask, hu]
  · obtain ⟨hne, hv⟩ | ⟨u, -, -, rfl⟩ := modify_task_eq hv
    · rw [htask] at hv
      rw [← K.held i v hv hlive]
      show (if (disown s).lastTaskUsedMath = some i then (disown s).fpu else v.saved fresh) = s.held fresh i v
      unfold Cpu.held
      rw [hfpu]
      exact if_congr ((howner i).trans (and_iff_right hne)) rfl rfl
    · cases hlive
  · exfalso
    obtain ⟨u, hu⟩ := Option.isSome_iff_exists.mp hrun
    obtain ⟨hu, hlive⟩ := running_eq_some.mp hu
    have hc : (doExit s).current = s.current := hcur
    rw [hc] at hu
    obtain ⟨hne, -⟩ | ⟨v, -, -, rfl⟩ := modify_task_eq hu
    · exact hne rfl
    · cases hlive

theorem release_kept (K : Kept fresh s own) (A : s.Armed) (hi : i ≠ s.current)
    (ht : s.task i = some t) (hexit : t.exiting = true) :
    Kept fresh (release i s) own ∧ (release i s).Armed := by
  have hne : s.lastTaskUsedMath ≠ some i := by
    intro h
    obtain ⟨u, hu, hlive, -⟩ := K.owner i h
    cases ht.symm.trans hu
    rw [hexit] at hlive
    cases hlive
  refine ⟨⟨fun j hj => ?_, fun j v hv hlive => ?_⟩, fun hts hrun => ?_⟩
  · have hji : j ≠ i := by
      rintro rfl
      exact hne hj
    obtain ⟨u, hu, h⟩ := K.owner j hj
    exact ⟨u, (Function.update_of_ne hji _ _).trans hu, h⟩
  · by_cases hji : j = i
    · subst hji
      unfold release at hv
      dsimp only at hv
      rw [Function.update_self] at hv
      cases hv
    · unfold release at hv
      dsimp only at hv
      rw [Function.update_of_ne hji] at hv
      exact K.held j v hv hlive
  · refine A hts ?_
    unfold Cpu.running release at hrun
    dsimp only at hrun
    rwa [Function.update_of_ne (Ne.symm hi)] at hrun

theorem pairStep_kept {s s' : Cpu ι β × (ι → β)} {e : Event ι β} (I : Kept fresh s.1 s.2 ∧ s.1.Armed)
    (hcareful : Careful fresh s e) (h : pairStep fresh s e = some s') :
    Kept fresh s'.1 s'.2 ∧ s'.1.Armed := by
  obtain ⟨K, A⟩ := I
  obtain ⟨c, hc, rfl⟩ := Option.map_eq_some_iff.mp h
  cases e with
  | instruction f =>
    obtain ⟨t, ht, rfl⟩ := Option.map_eq_some_iff.mp hc
    exact instruction_kept K A ht f
  | switchTo n =>
    obtain ⟨-, rfl⟩ := Lib.of_guard hc
    exact switchTo_kept K A n
  | fork child memory =>
    obtain ⟨t, ht, hc⟩ := Option.bind_eq_some_iff.mp hc
    obtain ⟨hfree, rfl⟩ := Lib.of_guard hc
    exact copyProcess_kept K A ht hfree hcareful
  | execve =>
    obtain ⟨t, ht, rfl⟩ := Option.map_eq_some_iff.mp hc
    exact doExecve_kept K A ht hcareful
  | exit =>
    obtain ⟨t, ht, rfl⟩ := Option.map_eq_some_iff.mp hc
    exact doExit_kept K
  | release i =>
    obtain ⟨⟨hne, hexit⟩, rfl⟩ := Lib.of_guard hc
    obtain ⟨t, ht, hexit⟩ := (Option.any_eq_true _ _).mp hexit
    exact release_kept K A hne ht hexit

/-- In every run in which no owner of the registers forks (unless they are in their initial state) or
execs, each task's state is its own, and that is what it observes. -/
theorem fpu_states_preserved {s : Cpu ι β × (ι → β)}
    (h : Lib.Reach (pairStep fresh) (Careful fresh) (Start fresh) s) :
    (∀ i t, s.1.task i = some t → t.exiting = false → s.1.held fresh i t = s.2 i) ∧
      (s.1.running.isSome = true → observed fresh s.1 = s.2 s.1.current) := by
  obtain ⟨K, A⟩ : Kept fresh s.1 s.2 ∧ s.1.Armed := by
    refine h.invariant (I := fun s => Kept fresh s.1 s.2 ∧ s.1.Armed) (fun s hs => ?_)
      fun s e s' I hcareful hstep => pairStep_kept I hcareful hstep
    refine ⟨⟨fun i hi => ?_, fun i t ht hlive => ?_⟩, fun hts => ?_⟩
    · rw [hs.owner] at hi
      cases hi
    · rw [Cpu.held, hs.owner, if_neg (by simp), Task.saved, hs.unused i t ht, hs.own i]
      rfl
    · rw [hs.ts] at hts
      cases hts
  refine ⟨K.held, fun hrun => ?_⟩
  obtain ⟨t, ht⟩ := Option.isSome_iff_exists.mp hrun
  exact observed_eq K A ht

end Invariant

/-! ## Runs -/

/-- Tasks 0 and 1 are there, task 1 runs, and nobody has used the FPU. -/
def boot : Cpu (Fin 3) Nat × (Fin 3 → Nat) :=
  (⟨0, true, none, 1, fun i => if i = 2 then none else some ⟨0, false, false⟩⟩, fun _ => 0)

theorem boot_start : Start 0 boot := by
  refine ⟨rfl, rfl, fun i t ht => ?_, fun _ => rfl⟩
  obtain ⟨-, ht⟩ := Option.ite_none_left_eq_some.mp ht
  cases ht
  rfl

/-- `Careful` is decided. -/
def isCareful (s : Cpu (Fin 3) Nat × (Fin 3 → Nat)) : Event (Fin 3) Nat → Bool
  | .fork _ _ => s.1.lastTaskUsedMath ≠ some s.1.current ∨ s.1.fpu = 0
  | .execve => s.1.lastTaskUsedMath ≠ some s.1.current
  | _ => true

theorem careful_of_isCareful {s : Cpu (Fin 3) Nat × (Fin 3 → Nat)} {e : Event (Fin 3) Nat}
    (h : isCareful s e = true) : Careful 0 s e := by
  cases e with
  | fork child memory => exact fun howner => (of_decide_eq_true h).resolve_left fun hne => hne howner
  | execve => exact (of_decide_eq_true h : s.1.lastTaskUsedMath ≠ some s.1.current)
  | _ => trivial

/-- Task 1 forks while task 0 has the registers; its child goes on from 5. -/
theorem fpu_states_preserved_child : ∃ s : Cpu (Fin 3) Nat × (Fin 3 → Nat),
    observed 0 s.1 = 5 ∧ s.1.current = 2 ∧
    (∀ i t, s.1.task i = some t → t.exiting = false → s.1.held 0 i t = s.2 i) ∧
      (s.1.running.isSome = true → observed 0 s.1 = s.2 s.1.current) := by
  obtain ⟨s, hs, hobserved, hcurrent⟩ : ∃ s,
      Lib.run (fun s e => (pairStep 0 s e).filter fun _ => isCareful s e) boot
        [.instruction (· + 5), .switchTo 0, .instruction (· + 7), .switchTo 1, .fork 2 true,
          .switchTo 2] = some s ∧ observed 0 s.1 = 5 ∧ s.1.current = 2 :=
    ⟨_, rfl, by decide +kernel, by decide +kernel⟩
  refine ⟨s, hobserved, hcurrent, ?_⟩
  exact fpu_states_preserved ((Lib.Reach.start boot_start).ofChecked
    (fun _ _ _ _ hc => careful_of_isCareful hc) hs)

/-- A task that has used the FPU forks, and finds its own registers reset. -/
theorem fork_resets : ¬ ∀ s : Cpu (Fin 3) Nat × (Fin 3 → Nat),
    Lib.Reach (pairStep 0) (fun _ _ => True) (Start 0) s →
    s.1.running.isSome = true → observed 0 s.1 = s.2 s.1.current := by
  intro h
  obtain ⟨s, hs, hrun, hobserved, hown⟩ : ∃ s,
      Lib.run (pairStep 0) boot [.instruction (· + 5), .fork 2 true] = some s ∧
        s.1.running.isSome = true ∧ observed 0 s.1 = 0 ∧ s.2 s.1.current = 5 :=
    ⟨_, rfl, by decide +kernel, by decide +kernel, by decide +kernel⟩
  have hreach : Lib.Reach (pairStep 0) (fun _ _ => True) (Start 0) s :=
    (Lib.Reach.start boot_start).ofRun (fun _ _ => trivial) hs
  have := h s hreach hrun
  rw [hobserved, hown] at this
  cases this

end Linux011.Fpu
