import Mathlib.Algebra.Order.BigOperators.Group.Finset
import Linux011.Lib.Budget
import Linux011.Lib.Count
import Linux011.Sched.Schedule

/-!
# No task starves (`schedule`, `do_timer`)

`schedule` always takes the largest counter, so a task with a small one, or with none left, has to
wait. It does not wait for ever: a tick takes one from the counter of the task that runs, and no task
gets a new counter before every runnable task has used its own up. The sum of the counters is the
potential that pays for the ticks. A task without a counter waits for the next round of counters too,
and `fork` pays for the counter of the child.

Only ticks in user mode count. In kernel mode `do_timer` does not call `schedule`, so a task there goes
on as long as it likes.
-/

namespace Linux011.Schedule

variable {task task' : Fin 64 → Option Task} {s s' : State} {i : Fin 64} {t : Task} {p : Nat}

/-! ## Bounded priorities -/

/-- `sys_nice` leaves the priority at `p` at most. -/
def Limit (p : Nat) (s : State) : Event → Prop
  | .nice increment => ∀ t, s.task s.current = some t → long (t.priority - increment.toInt) ≤ p
  | _ => True

structure Task.Within (p : Nat) (t : Task) : Prop where
  counter : 0 ≤ t.counter ∧ t.counter < 2 * p
  priority : 0 < t.priority ∧ t.priority ≤ p

def Within (p : Nat) (task : Fin 64 → Option Task) : Prop := ∀ i t, task i = some t → t.Within p

theorem Within.sane (W : Within p task) (hp : p ≤ 2 ^ 30) : Sane task := by
  intro i t ht
  obtain ⟨hc, hpr⟩ := W i t ht
  exact ⟨by omega, by omega⟩

theorem Within.update (W : Within p task) {o : Option Task} (h : ∀ t, o = some t → t.Within p) :
    Within p (Function.update task i o) := by
  intro j t ht
  by_cases hj : j = i
  · rw [hj, Function.update_self] at ht
    exact h t ht
  · rw [Function.update_of_ne hj] at ht
    exact W j t ht

theorem Within.modify (W : Within p s.task) {f : Task → Task}
    (h : ∀ t, s.task i = some t → t.Within p → (f t).Within p) : Within p (s.modify i f).task := by
  refine W.update fun t ht => ?_
  obtain ⟨u, hu, rfl⟩ := Option.map_eq_some_iff.mp ht
  exact h u hu (W i u hu)

theorem checkSignals_counter (jiffies : Int) (t : Task) :
    (checkSignals jiffies t).counter = t.counter ∧ (checkSignals jiffies t).priority = t.priority := by
  unfold checkSignals
  dsimp only
  split <;> split <;> exact ⟨rfl, rfl⟩

theorem Within.checked (W : Within p s.task) : Within p s.checked := by
  intro i t ht
  unfold State.checked at ht
  split at ht
  · exact W i t ht
  · obtain ⟨u, hu, rfl⟩ := Option.map_eq_some_iff.mp ht
    obtain ⟨hc, hpr⟩ := checkSignals_counter s.jiffies u
    obtain ⟨hcu, hpu⟩ := W i u hu
    exact ⟨by rwa [hc], by rwa [hpr]⟩

/-- A new counter is positive, and less than twice the largest priority. -/
theorem Task.Within.fresh (hp : p ≤ 2 ^ 30) (T : t.Within p) :
    0 < long (t.counter / 2 + t.priority) ∧ long (t.counter / 2 + t.priority) < 2 * p := by
  obtain ⟨hc, hpr⟩ := T
  rw [long_eq (by omega) (by omega)]
  omega

theorem Within.recount (W : Within p task) (hp : p ≤ 2 ^ 30) : Within p (recount task) := by
  intro i t ht
  by_cases h0 : i = 0
  · rw [Schedule.recount, if_pos h0] at ht
    exact W i t ht
  · obtain ⟨u, hu, rfl⟩ := (recount_some h0).mp ht
    obtain ⟨hpos, hlt⟩ := (W i u hu).fresh hp
    exact ⟨⟨hpos.le, hlt⟩, (W i u hu).priority⟩

theorem Task.Within.nice {increment : Int} (T : t.Within p) (h : long (t.priority - increment) ≤ p) :
    (nice increment t).Within p := by
  unfold Schedule.nice
  split
  · next hpos => exact ⟨T.counter, hpos, h⟩
  · exact T

/-! ## The potential -/

/-- The ticks a task has left. -/
def ticksLeft (o : Option Task) : Nat := o.elim 0 fun t => t.counter.toNat

/-- One, if the task has no tick left. -/
def outOfTime (o : Option Task) : Nat := if o.all fun t => t.counter = 0 then 1 else 0

/-- What the ticks are paid from while task `i` waits. A task `i` without a counter waits for a round
of new ones, and these are `128 * p` at most. -/
def potential (p : Nat) (i : Fin 64) (s : State) : Nat :=
  ∑ j, ticksLeft (s.task j) + outOfTime (s.task s.current) + outOfTime (s.task i) * (128 * p)

/-- The counters are the same. -/
def SameCounters (task task' : Fin 64 → Option Task) : Prop :=
  ∀ j, (task' j).map Task.counter = (task j).map Task.counter

theorem ticksLeft_congr {o o' : Option Task} (h : o'.map Task.counter = o.map Task.counter) :
    ticksLeft o' = ticksLeft o ∧ outOfTime o' = outOfTime o := by
  cases o with
  | none =>
    rw [Option.map_eq_none_iff.mp h]
    exact ⟨rfl, rfl⟩
  | some t =>
    obtain ⟨t', rfl, ht⟩ := Option.map_eq_some_iff.mp h
    unfold ticksLeft outOfTime
    rw [Option.elim_some, Option.elim_some, Option.all_some, Option.all_some, ht]
    exact ⟨rfl, rfl⟩

theorem SameCounters.ticksLeft (h : SameCounters task task') :
    ∑ j, ticksLeft (task' j) = ∑ j, ticksLeft (task j) :=
  Finset.sum_congr rfl fun j _ => (ticksLeft_congr (h j)).1

theorem SameCounters.potential (h : SameCounters s.task s'.task) (hcur : s'.current = s.current) :
    potential p i s' = potential p i s := by
  unfold Schedule.potential
  rw [h.ticksLeft, hcur, (ticksLeft_congr (h s.current)).2, (ticksLeft_congr (h i)).2]

theorem modify_sameCounters {f : Task → Task} (j : Fin 64) (hf : ∀ t, (f t).counter = t.counter) :
    SameCounters s.task (s.modify j f).task := by
  intro k
  unfold State.modify
  dsimp only
  by_cases hk : k = j
  · rw [hk, Function.update_self, Option.map_map]
    cases s.task j with
    | none => rfl
    | some t => exact congrArg some (hf t)
  · rw [Function.update_of_ne hk]

theorem checked_sameCounters : SameCounters s.task s.checked := by
  intro k
  unfold State.checked
  split
  · rfl
  · rw [Option.map_map]
    cases s.task k with
    | none => rfl
    | some t => exact congrArg some (checkSignals_counter s.jiffies t).1

theorem outOfTime_some (ht : task i = some t) (hpos : 0 < t.counter) : outOfTime (task i) = 0 := by
  unfold outOfTime
  rw [ht, Option.all_some, if_neg]
  rw [decide_eq_true_iff]
  omega

/-! ## Choosing -/

/-- Every round of counters is for a runnable task; the loop makes one at most, and chooses a task that
has ticks left. -/
theorem choose_waits (hp : p ≤ 2 ^ 30) (W : Within p task) (hr : ∃ t, Runnable task i t) {next : Fin 64}
    (h : choose 2 task = some (next, task')) :
    (task' = task ∨ task' = recount task ∧ ∃ t, Runnable task i t ∧ t.counter = 0) ∧
    ∃ t, Runnable task' next t ∧ 0 < t.counter := by
  obtain ⟨t, hr⟩ := hr
  -- a search that finds a counter other than 0
  have found : ∀ {task : Fin 64 → Option Task} {c : Int} {next : Fin 64}, Within p task →
      (∃ t, Runnable task i t) → select task slots (-1, 0) = (c, next) → c ≠ 0 →
      ∃ t, Runnable task next t ∧ 0 < t.counter := by
    rintro task c next W ⟨t, hr⟩ hselect hc
    rcases select_spec (W.sane hp) hselect with ⟨-, -, hnone⟩ | ⟨u, hu, hcount, -⟩
    · exact absurd hr (hnone i t)
    · have hsane := (W next u hu.2.1).counter
      exact ⟨u, hu, by omega⟩
  unfold choose at h
  cases hbest : select task slots (-1, 0) with
  | mk c first =>
    rw [hbest] at h
    dsimp only at h
    by_cases hc : c = 0
    · subst hc
      rw [if_neg (by simp)] at h
      have hzero : t.counter = 0 := by
        rcases select_spec (W.sane hp) hbest with ⟨-, -, hnone⟩ | ⟨u, -, -, hmost⟩
        · exact absurd hr (hnone i t)
        · have hle := hmost i t hr
          have hsane := (W i t hr.2.1).counter
          omega
      have hr' : ∃ u, Runnable (recount task) i u :=
        ⟨_, hr.1, (recount_some hr.1).mpr ⟨t, hr.2.1, rfl⟩, hr.2.2⟩
      unfold choose at h
      cases hagain : select (recount task) slots (-1, 0) with
      | mk c' second =>
        rw [hagain] at h
        dsimp only at h
        by_cases hc' : c' = 0
        · rw [if_neg (not_not.mpr hc')] at h
          cases h
        · rw [if_pos hc'] at h
          cases h
          exact ⟨Or.inr ⟨rfl, t, hr, hzero⟩, found (W.recount hp) hr' hagain hc'⟩
    · rw [if_pos hc] at h
      cases h
      exact ⟨Or.inl rfl, found W ⟨t, hr⟩ hbest hc⟩

theorem Runnable.checked (h : Runnable s.task i t) : ∃ u, Runnable s.checked i u := by
  obtain ⟨h0, ht, hrun⟩ := h
  refine ⟨checkSignals s.jiffies t, h0, ?_, ?_⟩
  · rw [State.checked, if_neg h0, ht]
    rfl
  · unfold checkSignals
    dsimp only
    split <;> split <;> first | rfl | exact hrun

theorem Within.ticksLeft (W : Within p task) : ∑ j, ticksLeft (task j) ≤ 128 * p := by
  have hall : ∀ j ∈ Finset.univ, Schedule.ticksLeft (task j) ≤ 2 * p := by
    intro j _
    unfold Schedule.ticksLeft
    cases hj : task j with
    | none => exact Nat.zero_le _
    | some t =>
      have hc := (W j t hj).counter
      rw [Option.elim_some]
      omega
  refine (Finset.sum_le_sum hall).trans ?_
  rw [Finset.sum_const_nat fun _ _ => rfl, Finset.card_univ, Fintype.card_fin]
  omega

/-- After `schedule` the task that runs has ticks left, and the task that waits is still runnable. -/
theorem schedule_waits (hp : p ≤ 2 ^ 30) (W : Within p s.task) (hr : ∃ t, Runnable s.task i t)
    (h : schedule s = some s') : (∃ t, Runnable s'.task i t) ∧
      potential p i s' ≤ ∑ j, ticksLeft (s.task j) + outOfTime (s.task i) * (128 * p) := by
  obtain ⟨⟨next, task'⟩, hchoose, rfl⟩ := Option.map_eq_some_iff.mp h
  obtain ⟨t, hr⟩ := hr
  have W' := W.checked
  obtain ⟨hround, u, hu, hpos⟩ := choose_waits hp W' hr.checked hchoose
  have hcur : outOfTime (task' next) = 0 := outOfTime_some hu.2.1 hpos
  unfold potential
  dsimp only
  rw [hcur]
  rcases hround with rfl | ⟨rfl, v, hv, hzero⟩
  · refine ⟨hr.checked, ?_⟩
    rw [checked_sameCounters.ticksLeft, (ticksLeft_congr (checked_sameCounters i)).2]
    omega
  · have hnew : recount s.checked i = some { v with counter := long (v.counter / 2 + v.priority) } :=
      (recount_some hv.1).mpr ⟨v, hv.2.1, rfl⟩
    refine ⟨⟨_, hv.1, hnew, hv.2.2⟩, ?_⟩
    have hsum := (W'.recount hp).ticksLeft
    have hold : outOfTime (s.task i) = 1 := by
      rw [← (ticksLeft_congr (checked_sameCounters i)).2, hv.2.1]
      unfold outOfTime
      rw [Option.all_some, if_pos (decide_eq_true hzero)]
    rw [outOfTime_some hnew ((W' i v hv.2.1).fresh hp).1, hold]
    omega

/-! ## Ticks -/

/-- What a tick does to the counter. -/
def countDown (t : Task) : Task :=
  { t with counter := if 0 < long (t.counter - 1) then long (t.counter - 1) else 0 }

theorem doTimer_task (s : State) : (doTimer s).task =
    Function.update s.task s.current ((s.task s.current).map countDown) := rfl

theorem countDown_within (hp : p ≤ 2 ^ 30) (T : t.Within p) :
    (countDown t).Within p ∧ (countDown t).counter = max (t.counter - 1) 0 := by
  obtain ⟨⟨h0, h⟩, hpr⟩ := T
  have hcount : (countDown t).counter = max (t.counter - 1) 0 := by
    unfold countDown
    dsimp only
    by_cases hc : t.counter = 0
    · rw [hc, if_neg (by decide)]
      rfl
    · rw [long_eq (by omega) (by omega)]
      split <;> omega
  exact ⟨⟨by omega, hpr⟩, hcount⟩

/-- A tick takes one, unless there is none left to take. -/
theorem doTimer_ticks (hp : p ≤ 2 ^ 30) (W : Within p s.task) :
    ∑ j, ticksLeft ((doTimer s).task j) + 1 ≤
      ∑ j, ticksLeft (s.task j) + outOfTime (s.task s.current) ∧
    ∑ j, ticksLeft ((doTimer s).task j) + outOfTime ((doTimer s).task s.current) ≤
      ∑ j, ticksLeft (s.task j) + outOfTime (s.task s.current) := by
  have hsum := Lib.sum_update ticksLeft s.task s.current ((s.task s.current).map countDown)
  rw [← doTimer_task] at hsum
  have hself : (doTimer s).task s.current = (s.task s.current).map countDown :=
    Function.update_self ..
  have hone : ticksLeft ((s.task s.current).map countDown) + 1 ≤
        ticksLeft (s.task s.current) + outOfTime (s.task s.current) ∧
      ticksLeft ((s.task s.current).map countDown) + outOfTime ((s.task s.current).map countDown) ≤
        ticksLeft (s.task s.current) + outOfTime (s.task s.current) := by
    cases ht : s.task s.current with
    | none => exact ⟨Nat.le_refl _, Nat.le_refl _⟩
    | some t =>
      have hcount := (countDown_within hp (W _ t ht)).2
      have h0 := (W _ t ht).counter
      simp only [ticksLeft, outOfTime, Option.map_some, Option.elim_some, Option.all_some, hcount,
        decide_eq_true_eq]
      split <;> split <;> omega
  rw [hself]
  omega

/-- Ticks in user mode. -/
def userTicks : State → Event → Nat
  | _, .tick true => 1
  | _, _ => 0

theorem tick_waits (hp : p ≤ 2 ^ 30) (W : Within p s.task) (hr : ∃ t, Runnable s.task i t)
    (hne : s.current ≠ i) {cpl : Bool} (h : step s (.tick cpl) = some s') :
    (∃ t, Runnable s'.task i t) ∧
      potential p i s' + userTicks s (.tick cpl) ≤ potential p i s := by
  obtain ⟨hone, hsame⟩ := doTimer_ticks hp W
  have hi : (doTimer s).task i = s.task i := Function.update_of_ne hne.symm ..
  have W1 : Within p (doTimer s).task := W.modify (s := { s with jiffies := s.jiffies + 1 })
    fun t _ T => (countDown_within hp T).1
  have hr1 : ∃ t, Runnable (doTimer s).task i t := by
    obtain ⟨t, h0, ht, hrun⟩ := hr
    exact ⟨t, h0, hi.trans ht, hrun⟩
  have h : (if (doTimer s).spent ∧ cpl then schedule (doTimer s) else some (doTimer s)) = some s' := h
  have hcost : userTicks s (.tick cpl) ≤ 1 := by
    cases cpl
    · exact Nat.zero_le _
    · exact Nat.le_refl _
  split at h
  · obtain ⟨hr2, hle⟩ := schedule_waits hp W1 hr1 h
    refine ⟨hr2, ?_⟩
    rw [hi] at hle
    unfold potential at hle ⊢
    omega
  · next hstay =>
    cases h
    refine ⟨hr1, ?_⟩
    have hcur : (doTimer s).current = s.current := rfl
    unfold potential
    rw [hi, hcur]
    cases cpl with
    | false =>
      have hfree : userTicks s (.tick false) = 0 := rfl
      rw [hfree]
      omega
    | true =>
      have hleft : outOfTime ((doTimer s).task s.current) = 0 := if_neg fun hout => hstay ⟨hout, rfl⟩
      rw [hleft]
      omega

/-! ## The other events -/

/-- What does not touch the counters, and leaves task `i` runnable. -/
theorem modify_waits (hr : ∃ t, Runnable s.task i t) {j : Fin 64} {f : Task → Task}
    (hf : ∀ t, (f t).counter = t.counter)
    (hi : i = j → ∀ t, t.state = .running → (f t).state = .running) :
    (∃ t, Runnable (s.modify j f).task i t) ∧ potential p i (s.modify j f) ≤ potential p i s := by
  refine ⟨?_, ((modify_sameCounters j hf).potential rfl).le⟩
  obtain ⟨t, h0, ht, hrun⟩ := hr
  unfold State.modify
  dsimp only
  by_cases hij : i = j
  · refine ⟨f t, h0, ?_, hi hij t hrun⟩
    rw [← hij, Function.update_self, ht]
    rfl
  · exact ⟨t, h0, (Function.update_of_ne hij ..).trans ht, hrun⟩

/-- The counters of new tasks. -/
def forked (p : Nat) : State → Event → Nat
  | _, .fork _ => p
  | _, _ => 0

theorem fork_waits (W : Within p s.task) (hr : ∃ t, Runnable s.task i t) {nr : Fin 64}
    (h : fork s nr = some s') : (∃ t, Runnable s'.task i t) ∧
      potential p i s' ≤ potential p i s + p := by
  unfold fork at h
  split at h
  · cases h
  · next hfree =>
    rw [not_or, Option.not_isSome_iff_eq_none] at hfree
    obtain ⟨t, ht, rfl⟩ := Option.map_eq_some_iff.mp h
    obtain ⟨u, h0, hu, hrun⟩ := hr
    have hcur : s.current ≠ nr := fun he => by
      rw [he, hfree.2] at ht
      cases ht
    have hi : i ≠ nr := fun he => by
      rw [he, hfree.2] at hu
      cases hu
    refine ⟨⟨u, h0, (Function.update_of_ne hi ..).trans hu, hrun⟩, ?_⟩
    have hsum := Lib.sum_update ticksLeft s.task nr
      (some { t with state := .running, counter := t.priority, signal := 0, alarm := 0 })
    have hchild : ticksLeft (some { t with
        state := .running, counter := t.priority, signal := 0, alarm := 0 }) ≤ p :=
      Int.toNat_le.mpr (W _ t ht).priority.2
    unfold potential
    dsimp only
    rw [Function.update_of_ne hcur, Function.update_of_ne hi]
    omega

theorem release_waits (hr : ∃ t, Runnable s.task i t) {j : Fin 64} (hj : j ≠ s.current)
    (hzombie : (s.task j).any fun t => t.state = .zombie) :
    (∃ t, Runnable (Function.update s.task j none) i t) ∧
      potential p i { s with task := Function.update s.task j none } ≤ potential p i s := by
  obtain ⟨u, h0, hu, hrun⟩ := hr
  have hi : i ≠ j := fun he => by
    rw [← he, hu, Option.any_some, hrun] at hzombie
    cases hzombie
  refine ⟨⟨u, h0, (Function.update_of_ne hi ..).trans hu, hrun⟩, ?_⟩
  have hsum := Lib.sum_update ticksLeft s.task j none
  have hnone : ticksLeft none = 0 := rfl
  unfold potential
  dsimp only
  rw [Function.update_of_ne hj.symm, Function.update_of_ne hi]
  omega

theorem step_release {j : Fin 64} (h : step s (.release j) = some s') :
    j ≠ s.current ∧ (s.task j).any (fun t => t.state = .zombie) ∧
      s' = { s with task := Function.update s.task j none } := by
  have h : (if j = 0 ∨ j = s.current then none
    else if (s.task j).any fun t => t.state = .zombie then
      some { s with task := Function.update s.task j none }
    else none) = some s' := h
  split at h
  · cases h
  · next hother =>
    obtain ⟨hzombie, rfl⟩ := Lib.of_guard h
    exact ⟨fun he => hother (Or.inr he), hzombie, rfl⟩

/-- One event while task `i` does not run. -/
theorem step_waits (hp : p ≤ 2 ^ 30) (W : Within p s.task) (hr : ∃ t, Runnable s.task i t)
    (hne : s.current ≠ i) {e : Event} (h : step s e = some s') : (∃ t, Runnable s'.task i t) ∧
      potential p i s' + userTicks s e ≤ potential p i s + forked p s e := by
  -- everything but ticks and forks is free
  have free : ∀ {u : State}, (∃ t, Runnable u.task i t) ∧ potential p i u ≤ potential p i s →
      (∃ t, Runnable u.task i t) ∧ potential p i u + 0 ≤ potential p i s + 0 := by
    rintro u ⟨hr', hle⟩
    exact ⟨hr', by omega⟩
  have chosen : ∀ {u : State}, Within p u.task →
      (∃ t, Runnable u.task i t) ∧ potential p i u ≤ potential p i s → schedule u = some s' →
      (∃ t, Runnable s'.task i t) ∧ potential p i s' + 0 ≤ potential p i s + 0 := by
    rintro u Wu ⟨hr', hu⟩ hs
    obtain ⟨hr2, hle⟩ := schedule_waits hp Wu hr' hs
    refine ⟨hr2, ?_⟩
    unfold potential at hu hle ⊢
    omega
  cases e with
  | fork nr =>
    obtain ⟨hr', hle⟩ := fork_waits W hr h
    refine ⟨hr', ?_⟩
    show potential p i s' + 0 ≤ potential p i s + p
    omega
  | tick cpl =>
    obtain ⟨hr', hle⟩ := tick_waits hp W hr hne h
    refine ⟨hr', ?_⟩
    show potential p i s' + userTicks s (.tick cpl) ≤ potential p i s + 0
    omega
  | leave state =>
    refine chosen ?_ (modify_waits hr (f := fun t => { t with state := state }) (fun _ => rfl)
      fun he => absurd he.symm hne) h
    exact W.modify fun t _ T => ⟨T.counter, T.priority⟩
  | wake j =>
    cases h
    exact free (modify_waits hr (fun _ => rfl) fun _ t _ => rfl)
  | nice increment =>
    cases h
    have hcount : ∀ t, (nice increment.toInt t).counter = t.counter := fun t => by
      unfold nice
      split <;> rfl
    exact free (modify_waits hr hcount fun he => absurd he.symm hne)
  | signal j signal blocked alarm =>
    cases h
    exact free (modify_waits hr (fun _ => rfl) fun _ t hrun => hrun)
  | release j =>
    obtain ⟨hj, hzombie, rfl⟩ := step_release h
    exact free (release_waits hr hj hzombie)
  | schedule => exact chosen W ⟨hr, Nat.le_refl _⟩ h

/-! ## Runs -/

theorem choose_rounds {next : Fin 64} (h : choose 2 task = some (next, task')) :
    task' = task ∨ task' = recount task := by
  unfold choose at h
  dsimp only at h
  split at h
  · cases h
    exact Or.inl rfl
  · unfold choose at h
    dsimp only at h
    split at h
    · cases h
      exact Or.inr rfl
    · cases h

theorem Within.schedule (hp : p ≤ 2 ^ 30) (W : Within p s.task) (h : schedule s = some s') :
    Within p s'.task := by
  obtain ⟨⟨next, task'⟩, hchoose, rfl⟩ := Option.map_eq_some_iff.mp h
  rcases choose_rounds hchoose with rfl | rfl
  · exact W.checked
  · exact W.checked.recount hp

theorem step_within (hp : p ≤ 2 ^ 30) (W : Within p s.task) {e : Event} (hlimit : Limit p s e)
    (h : step s e = some s') : Within p s'.task := by
  cases e with
  | fork nr =>
    have h : fork s nr = some s' := h
    unfold fork at h
    split at h
    · cases h
    · obtain ⟨t, ht, rfl⟩ := Option.map_eq_some_iff.mp h
      refine W.update fun v hv => ?_
      cases hv
      have hpr := (W _ t ht).priority
      exact ⟨⟨hpr.1.le, by dsimp only; omega⟩, hpr⟩
  | tick cpl =>
    have W1 : Within p (doTimer s).task := W.modify (s := { s with jiffies := s.jiffies + 1 })
      fun t _ T => (countDown_within hp T).1
    have h : (if (doTimer s).spent ∧ cpl then Schedule.schedule (doTimer s) else some (doTimer s)) =
      some s' := h
    split at h
    · exact W1.schedule hp h
    · cases h
      exact W1
  | leave state =>
    have W1 : Within p (s.modify s.current fun t => { t with state := state }).task :=
      W.modify fun t _ T => ⟨T.counter, T.priority⟩
    exact W1.schedule hp h
  | wake i =>
    cases h
    exact W.modify fun t _ T => ⟨T.counter, T.priority⟩
  | nice increment =>
    cases h
    exact W.modify fun t ht T => T.nice (hlimit t ht)
  | signal i signal blocked alarm =>
    cases h
    exact W.modify fun t _ T => ⟨T.counter, T.priority⟩
  | release j =>
    obtain ⟨-, -, rfl⟩ := step_release h
    exact W.update fun v hv => by cases hv
  | schedule => exact W.schedule hp h

theorem start_within (hp : 15 ≤ p) (h : s.Start) : Within p s.task := by
  rw [h.1]
  refine Within.update (fun i t ht => by cases ht) fun t ht => ?_
  cases ht
  exact ⟨⟨by decide, by dsimp only; omega⟩, by decide, by dsimp only; omega⟩

theorem potential_le (W : Within p s.task) (i : Fin 64) : potential p i s ≤ 256 * p + 1 := by
  have one : ∀ o, outOfTime o ≤ 1 := fun o => by
    unfold outOfTime
    split <;> omega
  have hsum := W.ticksLeft
  have hcur := one (s.task s.current)
  have hround : outOfTime (s.task i) * (128 * p) ≤ 1 * (128 * p) :=
    Nat.mul_le_mul_right _ (one (s.task i))
  unfold potential
  omega

/-- NO STARVATION. As long as no priority is above `p`, a runnable task waits for `256 * p + 1` ticks in
user mode at most, and for `p` more with every task that is forked meanwhile, whatever the other tasks
do. `a` is where the run from `s` is, with the ticks and the forks; task `i` has not run in between. -/
theorem task_waits (hp : 15 ≤ p) (hp' : p ≤ 2 ^ 30) (h : Lib.Reach step (Limit p) State.Start s)
    (hr : Runnable s.task i t) {a : Lib.Account State}
    (ha : Lib.Reach (Lib.book step userTicks (forked p))
      (fun a e => Limit p a.state e ∧ a.state.current ≠ i) (fun a => a = ⟨s, 0, 0⟩) a) :
    (∃ t, Runnable a.state.task i t) ∧ a.spent ≤ 256 * p + 1 + a.given := by
  have W : Within p s.task := h.invariant (I := fun s => Within p s.task)
    (fun s => start_within hp) fun s e s' W hlimit hstep => step_within hp' W hlimit hstep
  obtain ⟨⟨-, hr'⟩, hpaid⟩ := Lib.Reach.budget (fun s e => Limit p s e ∧ s.current ≠ i)
    (fun s => Within p s.task ∧ ∃ t, Runnable s.task i t) (potential p i) ⟨W, t, hr⟩ (fun u e u' hI hg hstep => by
      obtain ⟨hr', hpays⟩ := step_waits hp' hI.1 hI.2 hg.2 hstep
      exact ⟨⟨step_within hp' hI.1 hg.1 hstep, hr'⟩, hpays⟩) ha
  have hle := potential_le W i
  exact ⟨hr', by omega⟩

/-- The check of `Limit` on closed runs. -/
def limitCheck (p : Nat) (s : State) (e : Event) (_ : State) : Bool :=
  match e with
  | .nice increment => (s.task s.current).all fun t => long (t.priority - increment.toInt) ≤ p
  | _ => true

theorem limit_of_check {e : Event} (h : limitCheck p s e s' = true) : Limit p s e := by
  cases e with
  | nice increment =>
    intro t ht
    have h : (s.task s.current).all (fun t => long (t.priority - increment.toInt) ≤ p) = true := h
    rw [ht] at h
    exact of_decide_eq_true h
  | _ => trivial

/-- The same while task `i` does not run. -/
def waitCheck (p : Nat) (i : Fin 64) (a : Lib.Account State) (e : Event) (_ : Lib.Account State) :
    Bool :=
  limitCheck p a.state e a.state && a.state.current ≠ i

theorem waits_of_check (a : Lib.Account State) (e : Event) (a' : Lib.Account State)
    (_ : Lib.book step userTicks (forked p) a e = some a') (h : waitCheck p i a e a' = true) :
    Limit p a.state e ∧ a.state.current ≠ i := by
  unfold waitCheck at h
  rw [Bool.and_eq_true, decide_eq_true_iff] at h
  exact ⟨limit_of_check h.1, h.2⟩

/-- The second task waits while the first lowers its priority, forks a third and runs for ten ticks. -/
theorem task_waits_ten : ∃ (s : State) (a : Lib.Account State), a.spent = 10 ∧ a.given = 15 ∧
    (∃ t, Runnable s.task 2 t) ∧ (∃ t, Runnable a.state.task 2 t) ∧
      a.spent ≤ 256 * 15 + 1 + a.given := by
  have hruns : (Lib.run (fun s e => (step s e).filter (limitCheck 15 s e)) boot
      [.fork 1, .schedule, .fork 2]).any (fun s => (s.task 2).any (·.state = .running) &&
        (Lib.run (fun a e => (Lib.book step userTicks (forked 15) a e).filter (waitCheck 15 2 a e))
          ⟨s, 0, 0⟩ ([.nice 5, .fork 3] ++ List.replicate 10 (.tick true))).any
            fun a => a.spent = 10 ∧ a.given = 15) = true := by
    decide +kernel
  obtain ⟨s, hs, h⟩ := Option.any_eq_true _ _ |>.mp hruns
  obtain ⟨hrun, h⟩ := Bool.and_eq_true _ _ |>.mp h
  obtain ⟨t, ht, hstate⟩ := Option.any_eq_true _ _ |>.mp hrun
  obtain ⟨a, ha, h⟩ := Option.any_eq_true _ _ |>.mp h
  obtain ⟨hspent, hgiven⟩ := of_decide_eq_true h
  have hr : Runnable s.task 2 t := ⟨by decide, ht, of_decide_eq_true hstate⟩
  obtain ⟨hr', hle⟩ := task_waits (by decide) (by decide)
    (.ofChecked (fun s e s' _ h => limit_of_check h) (.start boot_start) hs) hr
    (.ofChecked waits_of_check (.start rfl) ha)
  exact ⟨s, a, hspent, hgiven, ⟨t, hr⟩, hr', hle⟩

end Linux011.Schedule
