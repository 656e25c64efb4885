import Linux011.Lib.Machine
import Linux011.Lib.Covered
import Mathlib.Logic.Function.Basic

/-!
# Wait queues (`kernel/sched.c`)

A wait queue is one pointer `*p`. Its other elements are the local variables `tmp` of the calls that
sleep: each of them has the head of the queue at the time it came. `wake_up_last` makes the task at
the head runnable and forgets it; the others follow because a call that returns wakes its `tmp`.

A call of `sleep_on` or `interruptible_sleep_on` is cut at its `schedule()`, so a task is in one of
two positions: outside the queue, or inside a call with its `tmp`. Code outside the queue may change
the state of a task that is outside, and may make any task runnable.

The queue loses sleepers at one place. `interruptible_sleep_on` goes back to sleep when another task
is at the head, and does not enter the queue again. If the queue does not lead to it any more, only
a signal wakes it, and with it all the tasks behind it.
-/

namespace Linux011.Sched

open Relation

/-! ## The queue -/

/-- `TASK_RUNNING`, `TASK_INTERRUPTIBLE` and `TASK_UNINTERRUPTIBLE`. -/
inductive TaskState where
  | running
  | interruptible
  | uninterruptible
  deriving DecidableEq

/-- A call that sleeps: its `tmp`, and which of the two functions it is in. -/
structure Call (ι : Type*) where
  tmp : Option ι
  interruptible : Bool
  deriving DecidableEq

structure Queue (ι : Type*) where
  /-- `*p`. -/
  head : Option ι
  state : ι → TaskState
  call : ι → Option (Call ι)

/-- What can happen: a task calls one of the two functions, or comes back from `schedule()`; a task
or an interrupt calls `wake_up_last`; a signal comes; a task changes its state elsewhere. -/
inductive Event (ι : Type*) where
  | sleepOn (t : ι)
  | interruptibleSleepOn (t : ι)
  | resume (t : ι)
  | wakeUpLast
  | signal (t : ι)
  | elsewhere (t : ι) (state : TaskState)

section
variable {ι : Type*} [DecidableEq ι]

/-- `if (tmp) tmp->state=0`. -/
def Queue.wake (s : Queue ι) : Option ι → Queue ι
  | none => s
  | some t => { s with state := Function.update s.state t .running }

/-- `wake_up_last`. -/
def wakeUpLast (s : Queue ι) : Queue ι :=
  match s.head with
  | none => s
  | some t => { s.wake (some t) with head := none }

/-- A call of task `t` up to its `schedule()`; `init` must not sleep. -/
def sleepOn (init : ι) (s : Queue ι) (t : ι) (interruptible : Bool) : Option (Queue ι) :=
  if t = init ∨ s.state t ≠ .running ∨ (s.call t).isSome then none
  else some
    { head := some t
      state := Function.update s.state t (if interruptible then .interruptible else .uninterruptible)
      call := Function.update s.call t (some ⟨s.head, interruptible⟩) }

/-- The call of task `t` returns, and wakes its `tmp`. -/
def Queue.leave (s : Queue ι) (t : ι) (tmp : Option ι) : Queue ι :=
  Queue.wake { s with call := Function.update s.call t none } tmp

/-- Task `t` comes back from `schedule()`. -/
def resume (s : Queue ι) (t : ι) : Option (Queue ι) :=
  match s.call t with
  | none => none
  | some c =>
    if s.state t ≠ .running then none
    else if c.interruptible then
      match s.head with
      | none => some (s.leave t c.tmp)
      | some h =>
        if h ≠ t then
          -- goto repeat
          some { s with
            state := Function.update (Function.update s.state h .running) t .interruptible }
        else some ({ s with head := none }.leave t c.tmp)
    else some (s.leave t c.tmp)

/-- One event. -/
def step (init : ι) (s : Queue ι) : Event ι → Option (Queue ι)
  | .sleepOn t => sleepOn init s t false
  | .interruptibleSleepOn t => sleepOn init s t true
  | .resume t => resume s t
  | .wakeUpLast => some (wakeUpLast s)
  | .signal t =>
    if s.state t = .interruptible then some { s with state := Function.update s.state t .running }
    else none
  | .elsewhere t state =>
    if (s.call t).isNone ∨ state = .running then
      some { s with state := Function.update s.state t state }
    else none

end

/-! ## Sleepers and the way to them -/

section
variable {ι : Type*}

/-- The task is inside a call. -/
def Queue.Inside (s : Queue ι) (t : ι) : Prop := (s.call t).isSome = true

/-- The task sleeps inside a call. -/
def Queue.Asleep (s : Queue ι) (t : ι) : Prop := s.Inside t ∧ s.state t ≠ .running

/-- Where the way to the sleepers starts: at `*p`, and at the runnable tasks inside a call. A task
at `*p` that has left the queue leads nowhere. -/
def Queue.Root (s : Queue ι) (t : ι) : Prop :=
  s.Inside t ∧ (s.head = some t ∨ s.state t = .running)

/-- The call of `t` has saved `u` in its `tmp`. -/
def Queue.Saved (s : Queue ι) (t u : ι) : Prop := ∃ c, s.call t = some c ∧ c.tmp = some u

/-- Every task inside a call can be found. -/
def Queue.Found (s : Queue ι) : Prop := ∀ t, s.Inside t → Lib.Covered s.Root s.Saved t

/-- Nobody is in the queue. -/
def Queue.Start (s : Queue ι) : Prop := s.head = none ∧ ∀ t, s.call t = none

/-- A task goes back to sleep in `interruptible_sleep_on` only if `*p`, or another runnable task
inside a call, leads to it. -/
def Linked (s : Queue ι) (e : Event ι) : Prop :=
  ∀ t c h, e = .resume t → s.call t = some c → c.interruptible = true → s.head = some h → h ≠ t →
    Lib.Covered (fun r => s.Root r ∧ r ≠ t) s.Saved t

variable {s s' : Queue ι} {t : ι}

theorem Queue.Start.found (h : s.Start) : s.Found := by
  intro t ht
  rw [Queue.Inside, h.2 t] at ht
  cases ht

theorem Queue.Saved.inside {u : ι} (h : s.Saved t u) : s.Inside t := by
  obtain ⟨c, hc, -⟩ := h
  rw [Queue.Inside, hc]
  rfl

/-- The calls are as they were, and the old roots are covered. -/
theorem Queue.Found.same (F : s.Found) (hcall : s'.call = s.call)
    (hroot : ∀ r, s.Root r → Lib.Covered s'.Root s'.Saved r) : s'.Found := by
  intro t ht
  rw [Queue.Inside, hcall] at ht
  refine (F t ht).trans hroot fun a b h => ?_
  rw [Queue.Saved, hcall]
  exact h

/-! ## What an event does to the way -/

variable [DecidableEq ι]

/-- What a call does up to its `schedule()`. -/
theorem sleepOn_eq {init : ι} {interruptible : Bool} (h : sleepOn init s t interruptible = some s') :
    s.call t = none ∧ s'.head = some t ∧
      s'.call = Function.update s.call t (some ⟨s.head, interruptible⟩) ∧
      ∀ u, u ≠ t → s'.state u = s.state u := by
  unfold sleepOn at h
  split at h
  · cases h
  · next hcond =>
    cases h
    rw [not_or, not_or] at hcond
    exact ⟨Option.not_isSome_iff_eq_none.mp hcond.2.2, rfl, rfl, fun u hu =>
      Function.update_of_ne hu ..⟩

/-- A task comes: it is the head, and leads to the old head. -/
theorem sleepOn_found {init : ι} {interruptible : Bool} (F : s.Found)
    (h : sleepOn init s t interruptible = some s') : s'.Found := by
  obtain ⟨hnone, hhead, hcall, hstate⟩ := sleepOn_eq h
  have hother : ∀ u, u ≠ t → (s'.call u = s.call u) := fun u hu => by
    rw [hcall, Function.update_of_ne hu]
  have hself : s'.call t = some ⟨s.head, interruptible⟩ := by rw [hcall, Function.update_self]
  have hin : s'.Inside t := by
    rw [Queue.Inside, hself]
    rfl
  have hout : ∀ u, s.Inside u → u ≠ t := by
    rintro u hu rfl
    rw [Queue.Inside, hnone] at hu
    cases hu
  intro u hu
  by_cases hut : u = t
  · exact .root ⟨hu, Or.inl (by rw [hut, hhead])⟩
  · have hold : s.Inside u := by
      rw [Queue.Inside, hother u hut] at hu
      exact hu
    refine (F u hold).trans (fun r hr => ?_) fun a b hab => ?_
    · have hrt := hout r hr.1
      rcases hr.2 with hr' | hrun
      · -- the old head is the `tmp` of the new call
        exact .tail (.root ⟨hin, Or.inl hhead⟩) ⟨⟨s.head, interruptible⟩, hself, hr'⟩
      · refine .root ⟨?_, Or.inr ((hstate r hrt).trans hrun)⟩
        rw [Queue.Inside, hother r hrt]
        exact hr.1
    · obtain ⟨c, hc, htmp⟩ := hab
      have hat := hout a (by rw [Queue.Inside, hc]; rfl)
      exact ⟨c, (hother a hat).trans hc, htmp⟩

theorem wake_call (s : Queue ι) (tmp : Option ι) : (s.wake tmp).call = s.call := by
  cases tmp <;> rfl

theorem wake_head (s : Queue ι) (tmp : Option ι) : (s.wake tmp).head = s.head := by
  cases tmp <;> rfl

theorem wake_running {s : Queue ι} {tmp : Option ι} (h : s.state t = .running ∨ tmp = some t) :
    (s.wake tmp).state t = .running := by
  cases tmp with
  | none => exact h.resolve_right nofun
  | some u =>
    simp only [Queue.wake]
    by_cases hu : t = u
    · rw [hu, Function.update_self]
    · rw [Function.update_of_ne hu]
      exact h.resolve_right fun h => hu (Option.some.inj h).symm

/-- A call returns: its `tmp` is runnable now. -/
theorem leave_found {c : Call ι} (head : Option ι) (F : s.Found) (hc : s.call t = some c)
    (hhead : ∀ r, r ≠ t → s.head = some r → head = some r) :
    ({ s with head := head }.leave t c.tmp).Found := by
  have hcall : ({ s with head := head }.leave t c.tmp).call = Function.update s.call t none :=
    wake_call ..
  intro u hu
  rw [Queue.Inside, hcall] at hu
  have hut : u ≠ t := by
    rintro rfl
    rw [Function.update_self] at hu
    cases hu
  rw [Function.update_of_ne hut] at hu
  have hinside : ∀ r, r ≠ t → s.Inside r → ({ s with head := head }.leave t c.tmp).Inside r := by
    intro r hr hin
    rw [Queue.Inside, hcall, Function.update_of_ne hr]
    exact hin
  refine Lib.Covered.leave (P := s.Inside) t (F u hu) hut hu (fun a b hab => hab.inside)
    (fun a b hab ha => ?_) (fun r hr hrt hin => ?_) fun r hr hrt => ?_
  · obtain ⟨c', hc', htmp⟩ := hab
    refine ⟨c', ?_, htmp⟩
    rw [hcall, Function.update_of_ne ha]
    exact hc'
  · obtain ⟨c', hc', htmp⟩ := hr
    rw [hc] at hc'
    cases hc'
    exact .root ⟨hinside r hrt hin, Or.inr (wake_running (Or.inr htmp))⟩
  · refine .root ⟨hinside r hrt hr.1, ?_⟩
    rcases hr.2 with h | h
    · exact Or.inl ((wake_head ..).trans (hhead r hrt h))
    · exact Or.inr (wake_running (Or.inl h))

/-- `goto repeat`: the sleepers are found afterwards exactly when the
task that sleeps again is. -/
theorem repeat_found (F : s.Found) {h : ι} (hc : s.Inside t) (hhead : s.head = some h)
    (hne : h ≠ t) :
    Queue.Found { s with
      state := Function.update (Function.update s.state h .running) t .interruptible } ↔
      Lib.Covered (fun r => s.Root r ∧ r ≠ t) s.Saved t := by
  constructor
  · intro F'
    refine (F' t hc).trans (fun r hr => ?_) fun _ _ hab => hab
    have hrt : r ≠ t := by
      rintro rfl
      rcases hr.2 with h1 | h1
      · exact hne (Option.some.inj (hhead.symm.trans h1))
      · dsimp only at h1
        rw [Function.update_self] at h1
        cases h1
    by_cases hrh : r = h
    · exact .root ⟨⟨hr.1, Or.inl (hrh ▸ hhead)⟩, hrt⟩
    · refine .root ⟨⟨hr.1, hr.2.imp id fun h1 => ?_⟩, hrt⟩
      dsimp only at h1
      rw [Function.update_of_ne hrt, Function.update_of_ne hrh] at h1
      exact h1
  · intro hlinked
    have hroot : ∀ r, s.Root r → r ≠ t → Queue.Root { s with
        state := Function.update (Function.update s.state h .running) t .interruptible } r := by
      refine fun r hr hrt => ⟨hr.1, hr.2.imp id fun h1 => ?_⟩
      dsimp only
      rw [Function.update_of_ne hrt]
      by_cases hrh : r = h
      · rw [hrh, Function.update_self]
      · rw [Function.update_of_ne hrh]
        exact h1
    refine F.same rfl fun r hr => ?_
    by_cases hrt : r = t
    · rw [hrt]
      exact hlinked.trans (fun q hq => .root (hroot q hq.1 hq.2)) fun _ _ hab => hab
    · exact .root (hroot r hr hrt)

/-- Every event leaves the sleepers where they are found. -/
theorem step_found {init : ι} (F : s.Found) {e : Event ι} (hlinked : Linked s e)
    (h : step init s e = some s') : s'.Found := by
  cases e with
  | sleepOn t => exact sleepOn_found F h
  | interruptibleSleepOn t => exact sleepOn_found F h
  | resume t =>
    simp only [step, resume] at h
    cases hc : s.call t with
    | none =>
      rw [hc] at h
      cases h
    | some c =>
      rw [hc] at h
      have hin : s.Inside t := by
        rw [Queue.Inside, hc]
        rfl
      dsimp only at h
      split at h
      · cases h
      · split at h
        · next hi =>
          cases hhead : s.head with
          | none =>
            rw [hhead] at h
            cases h
            exact leave_found s.head F hc fun _ _ h => h
          | some q =>
            rw [hhead] at h
            dsimp only at h
            split at h
            · next hne =>
              cases h
              have := hlinked t c q rfl hc hi hhead hne
              rw [← hhead]
              exact (repeat_found F hin hhead hne).mpr this
            · next hq =>
              cases h
              refine leave_found none F hc fun r hr hr' => ?_
              rw [hhead] at hr'
              exact absurd ((Option.some.inj hr').symm.trans (not_not.mp hq)) hr
        · cases h
          exact leave_found s.head F hc fun _ _ h => h
  | wakeUpLast =>
    cases h
    unfold wakeUpLast
    cases hhead : s.head with
    | none => exact F
    | some q =>
      have F' : Queue.Found { s.wake (some q) with head := none } := F.same rfl fun r hr =>
        .root ⟨hr.1, Or.inr (wake_running (hr.2.symm.imp id fun h => hhead.symm.trans h))⟩
      exact F'
  | signal t =>
    simp only [step] at h
    split at h
    · cases h
      have F' : (s.wake (some t)).Found := F.same rfl fun r hr =>
        .root ⟨hr.1, hr.2.imp id fun h => wake_running (Or.inl h)⟩
      exact F'
    · cases h
  | elsewhere t state =>
    simp only [step] at h
    split at h
    · next hcond =>
      cases h
      refine F.same rfl fun r hr => .root ⟨hr.1, hr.2.imp id fun hrun => ?_⟩
      by_cases hrt : r = t
      · rcases hcond with hout | hst
        · have := hr.1
          rw [hrt, Queue.Inside, Option.isSome_iff_ne_none] at this
          exact absurd (Option.isNone_iff_eq_none.mp hout) this
        · exact hrt ▸ (Function.update_self ..).trans hst
      · exact (Function.update_of_ne hrt ..).trans hrun
    · cases h

/-! ## The result -/

/-- The states that runs from an empty queue reach. -/
def QueueReach (init : ι) (guard : Queue ι → Event ι → Prop) : Queue ι → Prop :=
  Lib.Reach (step init) guard Queue.Start

/-- NO SLEEPER IS LOST, as long as no task goes back to sleep in `interruptible_sleep_on` where
nothing leads to it: every task that sleeps on the queue is reached from `*p` or from a runnable
task inside a call, and so nobody sleeps when `*p` is `NULL` and no such task is left. -/
theorem no_sleeper_lost {init : ι} (h : QueueReach init Linked s) :
    (∀ t, s.Asleep t → Lib.Covered s.Root s.Saved t) ∧
      (s.head = none → (∀ t, s.Inside t → s.state t ≠ .running) → ∀ t, ¬ s.Asleep t) := by
  have F : s.Found := Lib.Reach.invariant (fun _ h0 => h0.found) (fun _ _ _ F hl hs =>
    step_found F hl hs) h
  refine ⟨fun t ht => F t ht.1, fun hhead hnone t ht => ?_⟩
  obtain ⟨r, hr, -⟩ := F t ht.1
  rcases hr.2 with h | h
  · rw [hhead] at h
    cases h
  · exact hnone r hr.1 h

end

/-- Four tasks; task 0 is the idle task. -/
def start : Queue (Fin 4) := ⟨none, fun _ => .running, fun _ => none⟩

/-- A signal for the task below the head: it wakes the head and sleeps again. -/
def signalBelow : List (Event (Fin 4)) :=
  [.interruptibleSleepOn 1, .interruptibleSleepOn 2, .signal 1, .resume 1]

/-- The check of a closed run: the head has the task that sleeps again as its `tmp`. -/
def linkedCheck (s : Queue (Fin 4)) : Event (Fin 4) → Bool
  | .resume t => s.head.all fun h => h = t || (s.call h).any fun c => c.tmp = some t
  | _ => true

theorem linked_of_check {s : Queue (Fin 4)} {e : Event (Fin 4)} (h : linkedCheck s e = true) :
    Linked s e := by
  rintro t c q rfl hc hi hhead hne
  rw [linkedCheck, hhead, Option.all_some, Bool.or_eq_true, decide_eq_true_eq] at h
  cases hq : s.call q with
  | none =>
    rw [hq] at h
    exact absurd (h.resolve_left hne) Bool.noConfusion
  | some d =>
    rw [hq] at h
    have htmp : d.tmp = some t := of_decide_eq_true (h.resolve_left hne)
    have hin : s.Inside q := by
      rw [Queue.Inside, hq]
      rfl
    exact .tail (.root ⟨⟨hin, Or.inl hhead⟩, hne⟩) ⟨d, hq, htmp⟩

theorem no_sleeper_lost_below : ∃ s : Queue (Fin 4), s.Asleep 1 ∧ Lib.Covered s.Root s.Saved 1 := by
  have hrun : (Lib.run (fun s e => (step 0 s e).filter fun _ => linkedCheck s e) start
      signalBelow).map (fun s => (s.call 1, s.state 1)) =
        some (some ⟨none, true⟩, .interruptible) := by decide
  obtain ⟨s, hs, heq⟩ := Option.map_eq_some_iff.mp hrun
  obtain ⟨hcall, hstate⟩ := Prod.mk.inj heq
  have hreach : QueueReach 0 Linked s :=
    Lib.Reach.ofChecked (fun _ _ _ _ hc => linked_of_check hc) (.start ⟨rfl, fun _ => rfl⟩) hs
  have hasleep : s.Asleep 1 := by
    rw [Queue.Asleep, Queue.Inside, hcall, hstate]
    decide
  exact ⟨s, hasleep, (no_sleeper_lost hreach).1 1 hasleep⟩

/-- Task 2 is woken; before it runs, task 3 takes the head. Task 2 wakes task 3 and sleeps again,
and task 3 leaves `NULL` behind. -/
def headTaken : List (Event (Fin 4)) :=
  [.interruptibleSleepOn 1, .interruptibleSleepOn 2, .wakeUpLast, .interruptibleSleepOn 3,
    .resume 2, .resume 3]

/-- Tasks 1 and 2 sleep on an empty queue. -/
theorem sleepers_lost : ¬ ∀ s : Queue (Fin 4), QueueReach 0 (fun _ _ => True) s →
    (∀ t, s.Asleep t → Lib.Covered s.Root s.Saved t) ∧
      (s.head = none → (∀ t, s.Inside t → s.state t ≠ .running) → ∀ t, ¬ s.Asleep t) := by
  intro hclaim
  have hrun : (Lib.run (step 0) start headTaken).map (fun s => decide (s.head = none ∧
      (∀ t, (s.call t).isSome = true → s.state t ≠ .running) ∧ (s.call 1).isSome = true ∧
        s.state 1 ≠ .running)) = some true := by decide
  obtain ⟨s, hs, heq⟩ := Option.map_eq_some_iff.mp hrun
  obtain ⟨hhead, hnone, hasleep⟩ := of_decide_eq_true heq
  have hreach : QueueReach 0 (fun _ _ => True) s :=
    Lib.Reach.ofRun (fun _ _ => trivial) (.start ⟨rfl, fun _ => rfl⟩) hs
  exact (hclaim s hreach).2 hhead hnone 1 hasleep

end Linux011.Sched
