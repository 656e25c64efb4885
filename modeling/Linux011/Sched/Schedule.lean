import Mathlib.Data.Fintype.Basic
import Mathlib.Data.List.FinRange
import Linux011.Lib.Machine
import Mathlib.Algebra.Group.Nat.Defs
import Mathlib.Algebra.Group.Int.Defs
import Linux011.Lib.Slots

/-!
# The scheduler (`schedule`)

`schedule` gives the processor to a runnable task with the largest counter. When every runnable task
has used its counter up, it gives all of them new ones, and looks again.

`counter` and `priority` have 32 bits. `sys_nice` keeps the priority positive, but lets it grow without
a bound; then a counter overflows, the task looks worse than nothing, and task 0 runs in its place.
-/

namespace Linux011.Schedule

/-! ## Tasks -/

inductive TaskState
  | running
  | interruptible
  | uninterruptible
  | zombie
  | stopped
  deriving DecidableEq

/-- `struct task_struct`, as far as the scheduler reads it. -/
structure Task where
  state : TaskState
  counter : Int
  priority : Int
  signal : BitVec 32
  blocked : BitVec 32
  alarm : Int
  deriving DecidableEq

structure State where
  task : Fin 64 → Option Task
  current : Fin 64
  jiffies : Int

/-- A `long` of 32 bits. -/
def long (n : Int) : Int := n.bmod (2 ^ 32)

/-- Slots 63 to 1. -/
def slots : List (Fin 64) := ((List.finRange 64).drop 1).reverse

/-! ## `schedule` -/

/-- The signal of the alarm clock, `1<<(SIGALRM-1)`. -/
def sigalrm : BitVec 32 := 0x2000

/-- `_BLOCKABLE`. -/
def blockable : BitVec 32 := ~~~(0x100 ||| 0x40000)

/-- The alarm of a task, then the signals that wake it. -/
def checkSignals (jiffies : Int) (t : Task) : Task :=
  let t := if t.alarm ≠ 0 ∧ t.alarm < jiffies then
      { t with signal := t.signal ||| sigalrm, alarm := 0 }
    else t
  if t.signal &&& ~~~(blockable &&& t.blocked) ≠ 0 ∧ t.state = .interruptible then
    { t with state := .running }
  else t

/-- The tasks after the first loop of `schedule`. -/
def State.checked (s : State) (i : Fin 64) : Option Task :=
  if i = 0 then s.task i else (s.task i).map (checkSignals s.jiffies)

/-- The loop that looks for the largest counter; `c` and `next`. -/
def select (task : Fin 64 → Option Task) : List (Fin 64) → Int × Fin 64 → Int × Fin 64
  | [], best => best
  | i :: l, best =>
    match task i with
    | none => select task l best
    | some t =>
      select task l (if t.state = .running ∧ best.1 < t.counter then (t.counter, i) else best)

/-- The loop that gives new counters. -/
def recount (task : Fin 64 → Option Task) (i : Fin 64) : Option Task :=
  if i = 0 then task i
  else (task i).map fun t => { t with counter := long (t.counter / 2 + t.priority) }

/-- The endless loop of `schedule`; `n` bounds the rounds. -/
def choose : Nat → (Fin 64 → Option Task) → Option (Fin 64 × (Fin 64 → Option Task))
  | 0, _ => none
  | n + 1, task =>
    let best := select task slots (-1, 0)
    if best.1 ≠ 0 then some (best.2, task) else choose n (recount task)

/-- `schedule`, if two rounds of its loop are enough. -/
def schedule (s : State) : Option State :=
  (choose 2 s.checked).map fun r => { s with task := r.2, current := r.1 }

/-! ## The system -/

/-- Change a task. -/
def State.modify (s : State) (i : Fin 64) (f : Task → Task) : State :=
  { s with task := Function.update s.task i ((s.task i).map f) }

/-- `copy_process` into an empty slot. -/
def fork (s : State) (nr : Fin 64) : Option State :=
  if nr = 0 ∨ (s.task nr).isSome then none
  else
    (s.task s.current).map fun t =>
      let child := { t with state := .running, counter := t.priority, signal := 0, alarm := 0 }
      { s with task := Function.update s.task nr (some child) }

/-- `sys_nice`. -/
def nice (increment : Int) (t : Task) : Task :=
  if 0 < long (t.priority - increment) then { t with priority := long (t.priority - increment) } else t

/-- A tick, in user mode if `cpl`, up to the call of `schedule`. -/
def doTimer (s : State) : State :=
  { s with jiffies := s.jiffies + 1 }.modify s.current fun t =>
    { t with counter := if 0 < long (t.counter - 1) then long (t.counter - 1) else 0 }

/-- The current task has no time left. -/
def State.spent (s : State) : Bool := (s.task s.current).all fun t => t.counter = 0

inductive Event
  | fork (nr : Fin 64)
  | tick (cpl : Bool)
  /-- The current task goes to sleep, stops or exits. -/
  | leave (state : TaskState)
  | wake (i : Fin 64)
  | nice (increment : BitVec 32)
  /-- Signals come, are blocked or delivered; an alarm is set. -/
  | signal (i : Fin 64) (signal blocked : BitVec 32) (alarm : Int)
  | release (i : Fin 64)
  | schedule

def step (s : State) : Event → Option State
  | .fork nr => fork s nr
  | .tick cpl =>
    let s := doTimer s
    if s.spent ∧ cpl then schedule s else some s
  | .leave state => schedule (s.modify s.current fun t => { t with state := state })
  | .wake i => some (s.modify i fun t => { t with state := .running })
  | .nice increment => some (s.modify s.current (nice increment.toInt))
  | .signal i signal blocked alarm =>
    some (s.modify i fun t => { t with signal := signal, blocked := blocked, alarm := alarm })
  | .release i =>
    if i = 0 ∨ i = s.current then none
    else if (s.task i).any fun t => t.state = .zombie then
      some { s with task := Function.update s.task i none }
    else none
  | .schedule => schedule s

/-- `INIT_TASK`, and nothing else. -/
def State.Start (s : State) : Prop :=
  s.task = Function.update (fun _ => none) 0 (some ⟨.running, 15, 15, 0, 0, 0⟩) ∧ s.current = 0

/-- `sys_nice` leaves the priority at `2 ^ 30` at most. -/
def Modest (s : State) : Event → Prop
  | .nice increment => ∀ t, s.task s.current = some t → long (t.priority - increment.toInt) ≤ 2 ^ 30
  | _ => True

/-! ## Counters -/

/-- A counter that is a number of ticks, and a priority that keeps it so. -/
structure Task.Sane (t : Task) : Prop where
  counter : 0 ≤ t.counter ∧ t.counter < 2 ^ 31
  priority : 0 < t.priority ∧ t.priority ≤ 2 ^ 30

def Sane (task : Fin 64 → Option Task) : Prop := ∀ i t, task i = some t → t.Sane

theorem long_eq {n : Int} (h0 : 0 ≤ n) (h : n < 2 ^ 31) : long n = n := by
  unfold long
  exact Int.bmod_eq_of_le (by omega) (by omega)

variable {task task' : Fin 64 → Option Task} {s s' : State} {i : Fin 64} {t : Task}

/-- A task of slots 1 to 63 that is `TASK_RUNNING`. -/
def Runnable (task : Fin 64 → Option Task) (i : Fin 64) (t : Task) : Prop :=
  i ≠ 0 ∧ task i = some t ∧ t.state = .running

/-! ## The search -/

/-- The best of the slots seen. -/
structure Best (task : Fin 64 → Option Task) (seen : List (Fin 64)) (best : Int × Fin 64) : Prop where
  found : best = (-1, 0) ∨ ∃ t, best.2 ∈ seen ∧ task best.2 = some t ∧ t.state = .running ∧
    t.counter = best.1 ∧ -1 < best.1
  most : ∀ i ∈ seen, ∀ t, task i = some t → t.state = .running → t.counter ≤ best.1

theorem select_best {l : List (Fin 64)} {best : Int × Fin 64} (seen : List (Fin 64))
    (B : Best task seen best) :
    Best task (seen ++ l) (select task l best) := by
  induction l generalizing seen best with
  | nil =>
    rw [List.append_nil]
    exact B
  | cons i l ih =>
    rw [select, List.append_cons]
    cases hi : task i with
    | none =>
      refine ih _ ⟨B.found.imp_right fun ⟨t, hmem, h⟩ => ⟨t, List.mem_append_left _ hmem, h⟩, ?_⟩
      intro j hj t ht
      rcases List.mem_append.mp hj with hj | hj
      · exact B.most j hj t ht
      · rw [List.mem_singleton.mp hj, hi] at ht
        cases ht
    | some t =>
      refine ih _ ?_
      split
      · next hbetter =>
        obtain ⟨hrun, hlt⟩ := hbetter
        have hpos : -1 ≤ best.1 := by
          rcases B.found with rfl | ⟨-, -, -, -, -, h⟩
          · exact Int.le_refl _
          · exact h.le
        refine ⟨Or.inr ⟨t, List.mem_append_right _ (List.mem_singleton_self i), hi, hrun, rfl, ?_⟩, ?_⟩
        · exact Int.lt_of_le_of_lt hpos hlt
        · intro j hj u hu hurun
          rcases List.mem_append.mp hj with hj | hj
          · exact (B.most j hj u hu hurun).trans hlt.le
          · rw [List.mem_singleton.mp hj, hi] at hu
            rw [Option.some.inj hu]
      · next hworse =>
        refine ⟨B.found.imp_right fun ⟨t, hmem, h⟩ => ⟨t, List.mem_append_left _ hmem, h⟩, ?_⟩
        intro j hj u hu hurun
        rcases List.mem_append.mp hj with hj | hj
        · exact B.most j hj u hu hurun
        · rw [List.mem_singleton.mp hj, hi] at hu
          obtain rfl := Option.some.inj hu
          exact Int.not_lt.mp fun hlt => hworse ⟨hurun, hlt⟩

theorem mem_slots : i ∈ slots ↔ i ≠ 0 := by
  revert i
  decide

/-- The search over all slots: a runnable task with the largest counter, or none is runnable. -/
theorem select_spec (S : Sane task) {c : Int} {next : Fin 64}
    (h : select task slots (-1, 0) = (c, next)) :
    (c = -1 ∧ next = 0 ∧ ∀ i t, ¬ Runnable task i t) ∨
    ∃ t, Runnable task next t ∧ t.counter = c ∧ ∀ i u, Runnable task i u → u.counter ≤ c := by
  have B : Best task slots (c, next) := by
    rw [← h]
    exact select_best [] ⟨Or.inl rfl, fun i hi => nomatch hi⟩
  have hmost : ∀ i u, Runnable task i u → u.counter ≤ c := fun i u ⟨h0, hu, hrun⟩ =>
    B.most i (mem_slots.mpr h0) u hu hrun
  rcases B.found with hnone | ⟨t, hmem, ht, hrun, hc, -⟩
  · obtain ⟨rfl, rfl⟩ := Prod.mk.inj hnone
    refine Or.inl ⟨rfl, rfl, fun i t hr => ?_⟩
    have := hmost i t hr
    have := (S i t hr.2.1).counter
    omega
  · exact Or.inr ⟨t, ⟨mem_slots.mp hmem, ht, hrun⟩, hc, hmost⟩

theorem recount_some (h0 : i ≠ 0) : recount task i = some t ↔
    ∃ u, task i = some u ∧ t = { u with counter := long (u.counter / 2 + u.priority) } := by
  rw [recount, if_neg h0, Option.map_eq_some_iff]
  exact exists_congr fun u => and_congr_right fun _ => eq_comm

theorem recount_sane (S : Sane task) : Sane (recount task) := by
  intro i t ht
  by_cases h0 : i = 0
  · rw [recount, if_pos h0] at ht
    exact S i t ht
  · obtain ⟨u, hu, rfl⟩ := (recount_some h0).mp ht
    obtain ⟨⟨hc0, hc⟩, hp⟩ := S i u hu
    refine ⟨?_, hp⟩
    dsimp only
    rw [long_eq (by omega) (by omega)]
    omega

/-- The choice is made after two rounds at most, and it is right. -/
theorem choose_spec (S : Sane task) : ∃ next task', choose 2 task = some (next, task') ∧ Sane task' ∧
    (∀ i, (∃ t, Runnable task' i t) ↔ ∃ t, Runnable task i t) ∧
    ((next = 0 ∧ ∀ i t, ¬ Runnable task' i t) ∨
      ∃ t, Runnable task' next t ∧ ∀ i u, Runnable task' i u → u.counter ≤ t.counter) := by
  unfold choose
  cases hbest : select task slots (-1, 0) with
  | mk c next =>
    dsimp only
    by_cases hc : c = 0
    · subst hc
      rw [if_neg (by simp)]
      have S' := recount_sane S
      -- every runnable task has a new counter, and it is positive
      have hsame : ∀ i, (∃ t, Runnable (recount task) i t) ↔ ∃ t, Runnable task i t := by
        intro i
        constructor
        · rintro ⟨t, h0, ht, hrun⟩
          obtain ⟨u, hu, rfl⟩ := (recount_some h0).mp ht
          exact ⟨u, h0, hu, hrun⟩
        · rintro ⟨u, h0, hu, hrun⟩
          exact ⟨_, h0, (recount_some h0).mpr ⟨u, hu, rfl⟩, hrun⟩
      have hpos : ∀ i t, Runnable (recount task) i t → 0 < t.counter := by
        rintro i t ⟨h0, ht, -⟩
        obtain ⟨u, hu, rfl⟩ := (recount_some h0).mp ht
        obtain ⟨⟨hc0, hc⟩, hp⟩ := S i u hu
        dsimp only
        rw [long_eq (by omega) (by omega)]
        omega
      obtain ⟨u, hu⟩ : ∃ u, Runnable task next u := by
        rcases select_spec S hbest with ⟨h, -⟩ | ⟨u, hu, -⟩
        · cases h
        · exact ⟨u, hu⟩
      obtain ⟨v, hv⟩ := (hsame next).mpr ⟨u, hu⟩
      unfold choose
      cases hagain : select (recount task) slots (-1, 0) with
      | mk c' next' =>
        rcases select_spec S' hagain with ⟨-, -, hnone⟩ | ⟨t, ht, hcount, hmost⟩
        · exact absurd hv (hnone next v)
        · have hc' : c' ≠ 0 := by
            have := hpos next' t ht
            omega
          dsimp only
          rw [if_pos hc']
          exact ⟨next', _, rfl, S', hsame, Or.inr ⟨t, ht, hcount ▸ hmost⟩⟩
    · rw [if_pos hc]
      refine ⟨next, task, rfl, S, fun i => Iff.rfl, ?_⟩
      rcases select_spec S hbest with ⟨-, h0, hnone⟩ | ⟨t, ht, hcount, hmost⟩
      · exact Or.inl ⟨h0, hnone⟩
      · exact Or.inr ⟨t, ht, hcount ▸ hmost⟩

/-! ## Runs -/

theorem checkSignals_sane {jiffies : Int} (S : t.Sane) : (checkSignals jiffies t).Sane := by
  unfold checkSignals
  dsimp only
  split <;> split <;> exact ⟨S.counter, S.priority⟩

theorem checked_sane (S : Sane s.task) : Sane s.checked := by
  intro i t ht
  unfold State.checked at ht
  split at ht
  · exact S i t ht
  · obtain ⟨u, hu, rfl⟩ := Option.map_eq_some_iff.mp ht
    exact checkSignals_sane (S i u hu)

theorem update_sane {o : Option Task} (S : Sane task) (h : ∀ t, o = some t → t.Sane) :
    Sane (Function.update task i o) := by
  intro j t ht
  by_cases hj : j = i
  · rw [hj, Function.update_self] at ht
    exact h t ht
  · rw [Function.update_of_ne hj] at ht
    exact S j t ht

theorem modify_sane {f : Task → Task} (S : Sane s.task)
    (h : ∀ t, s.task i = some t → t.Sane → (f t).Sane) : Sane (s.modify i f).task := by
  refine update_sane S fun t ht => ?_
  obtain ⟨u, hu, rfl⟩ := Option.map_eq_some_iff.mp ht
  exact h u hu (S i u hu)

theorem schedule_sane (S : Sane s.task) (h : schedule s = some s') : Sane s'.task := by
  obtain ⟨⟨next, task'⟩, hchoose, rfl⟩ := Option.map_eq_some_iff.mp h
  obtain ⟨next', task'', hchoose', S', -⟩ := choose_spec (checked_sane S)
  rw [hchoose] at hchoose'
  obtain ⟨-, rfl⟩ := Prod.mk.inj (Option.some.inj hchoose')
  exact S'

theorem nice_sane {increment : Int} (S : t.Sane) (h : long (t.priority - increment) ≤ 2 ^ 30) :
    (nice increment t).Sane := by
  unfold nice
  split
  · next hpos => exact ⟨S.counter, hpos, h⟩
  · exact S

theorem doTimer_sane (S : Sane s.task) : Sane (doTimer s).task := by
  refine modify_sane (s := { s with jiffies := s.jiffies + 1 }) S fun t _ St => ⟨?_, St.priority⟩
  obtain ⟨h0, h⟩ := St.counter
  dsimp only
  split
  · next hpos =>
    by_cases hc : t.counter = 0
    · rw [hc] at hpos
      cases hpos
    · rw [long_eq (by omega) (by omega)]
      omega
  · omega

theorem step_sane (S : Sane s.task) {e : Event} (hmodest : Modest s e) (h : step s e = some s') :
    Sane s'.task := by
  cases e with
  | fork nr =>
    have h : fork s nr = some s' := h
    unfold fork at h
    split at h
    · cases h
    · obtain ⟨t, ht, rfl⟩ := Option.map_eq_some_iff.mp h
      refine update_sane S fun u hu => ?_
      cases hu
      have hp := (S _ t ht).priority
      exact ⟨⟨hp.1.le, hp.2.trans_lt (by decide)⟩, hp⟩
  | tick cpl =>
    have h : (if (doTimer s).spent ∧ cpl then schedule (doTimer s) else some (doTimer s)) = some s' := h
    split at h
    · exact schedule_sane (doTimer_sane S) h
    · cases h
      exact doTimer_sane S
  | leave state =>
    have S1 : Sane (s.modify s.current fun t => { t with state := state }).task :=
      modify_sane S fun t _ St => ⟨St.counter, St.priority⟩
    exact schedule_sane S1 h
  | wake i =>
    cases h
    exact modify_sane S fun t _ St => ⟨St.counter, St.priority⟩
  | nice increment =>
    cases h
    exact modify_sane S fun t ht St => nice_sane St (hmodest t ht)
  | signal i signal blocked alarm =>
    cases h
    exact modify_sane S fun t _ St => ⟨St.counter, St.priority⟩
  | release i =>
    have h : (if i = 0 ∨ i = s.current then none
      else if (s.task i).any fun t => t.state = .zombie then
        some { s with task := Function.update s.task i none }
      else none) = some s' := h
    split at h
    · cases h
    · split at h
      · cases h
        exact update_sane S nofun
      · cases h
  | schedule => exact schedule_sane S h

theorem start_sane (h : s.Start) : Sane s.task := by
  rw [h.1]
  refine update_sane (fun i t ht => by cases ht) fun t ht => ?_
  cases ht
  exact ⟨by decide, by decide⟩

/-- In every run whose `sys_nice` calls leave the priority at `2 ^ 30` at most, `schedule` returns. It
goes on with a runnable task whose counter no other runnable task exceeds, and with task 0 only if
no task is runnable. -/
theorem schedule_fair (h : Lib.Reach step Modest State.Start s) :
    ∃ next task', choose 2 s.checked = some (next, task') ∧
      (∀ i, (∃ t, Runnable task' i t) ↔ ∃ t, Runnable s.checked i t) ∧
      ((∃ i t, Runnable s.checked i t) → ∃ t, Runnable task' next t ∧
        ∀ i u, Runnable task' i u → u.counter ≤ t.counter) ∧
      (next = 0 → ∀ i t, ¬ Runnable s.checked i t) := by
  have S : Sane s.task := h.invariant (I := fun s => Sane s.task) (fun s => start_sane)
    fun s e s' S hmodest hstep => step_sane S hmodest hstep
  obtain ⟨next, task', hchoose, -, hsame, hbest⟩ := choose_spec (checked_sane S)
  refine ⟨next, task', hchoose, hsame, ?_, ?_⟩
  · rintro ⟨i, t, ht⟩
    obtain ⟨u, hu⟩ := (hsame i).mpr ⟨t, ht⟩
    exact hbest.resolve_left fun hnone => hnone.2 i u hu
  · rintro rfl i t ht
    obtain ⟨u, hu⟩ := (hsame i).mpr ⟨t, ht⟩
    rcases hbest with ⟨-, hnone⟩ | ⟨v, hv, -⟩
    · exact hnone i u hu
    · exact hv.1 rfl

/-! ## Two runs -/

/-- Task 0 alone. -/
def boot : State := ⟨Function.update (fun _ => none) 0 (some ⟨.running, 15, 15, 0, 0, 0⟩), 0, 0⟩

theorem boot_start : boot.Start := ⟨rfl, rfl⟩

/-- Two tasks; the first lowers its priority and uses its time up. -/
def fairRun : List Event :=
  [.fork 1, .schedule, .fork 2, .nice 5] ++ List.replicate 15 (.tick true)

/-- The check of `Modest` on closed runs. -/
def isModest (s : State) (e : Event) (_ : State) : Bool :=
  match e with
  | .nice increment => (s.task s.current).all fun t => long (t.priority - increment.toInt) ≤ 2 ^ 30
  | _ => true

theorem schedule_fair_run :
    (Lib.run (fun s e => (step s e).filter (isModest s e)) boot fairRun).isSome = true ∧
    ∀ s ∈ Lib.run (fun s e => (step s e).filter (isModest s e)) boot fairRun,
      ∃ next task', choose 2 s.checked = some (next, task') ∧
        (∀ i, (∃ t, Runnable task' i t) ↔ ∃ t, Runnable s.checked i t) ∧
        ((∃ i t, Runnable s.checked i t) → ∃ t, Runnable task' next t ∧
          ∀ i u, Runnable task' i u → u.counter ≤ t.counter) ∧
        (next = 0 → ∀ i t, ¬ Runnable s.checked i t) := by
  refine ⟨by decide +kernel, fun s hs => ?_⟩
  have hmodest : ∀ s e s', step s e = some s' → isModest s e s' = true → Modest s e := by
    intro s e s' _ h
    cases e with
    | nice increment =>
      intro t ht
      have h : (s.task s.current).all (fun t => long (t.priority - increment.toInt) ≤ 2 ^ 30) = true :=
        h
      rw [ht] at h
      exact of_decide_eq_true h
    | _ => trivial
  exact schedule_fair ((Lib.Reach.start boot_start).ofChecked hmodest hs)

/-- The first task asks for the largest priority and sleeps; the second uses its time up, then wakes
the first and exits. -/
def greedyRun : List Event :=
  [.fork 1, .schedule, .fork 2, .nice 0x80000010, .leave .uninterruptible] ++
    List.replicate 15 (.tick true) ++ [.wake 1, .leave .zombie]

/-- The counter of the first task has overflown: task 0 runs, and the first task is runnable. -/
theorem schedule_overflow : ¬ ∀ s, Lib.Reach step (fun _ _ => True) State.Start s →
    ∀ next task', choose 2 s.checked = some (next, task') → next = 0 →
      ∀ i t, ¬ Runnable s.checked i t := by
  intro hclaim
  obtain ⟨s, hs⟩ : ∃ s, Lib.run step boot greedyRun = some s :=
    Option.isSome_iff_exists.mp (by decide +kernel)
  have hrun : (Lib.run step boot greedyRun).map (fun s =>
      ((choose 2 s.checked).map Prod.fst, (s.checked 1).map Task.state)) =
        some (some 0, some .running) := by
    decide +kernel
  rw [hs, Option.map_some, Option.some.injEq, Prod.mk.injEq] at hrun
  obtain ⟨hchoose, hstate⟩ := hrun
  obtain ⟨⟨next, task'⟩, hchoose, rfl⟩ := Option.map_eq_some_iff.mp hchoose
  obtain ⟨t, ht, hrun⟩ := Option.map_eq_some_iff.mp hstate
  have hreach := (Lib.Reach.start boot_start).ofRun (fun _ _ => trivial) hs
  exact hclaim s hreach _ task' hchoose rfl 1 t ⟨by decide, ht, hrun⟩

end Linux011.Schedule
