import Linux011.Sched.TaskTable

/-!
# Fathers and pids

What the process table says at any moment, without its history: pids and numbers tell the slots
apart, and the father of a task is there, by pid and by number, and is not on its way out.

A table changes in five ways: a task is touched, a child is made, the children of a task are given to
init, a task goes on its way out, a task is removed. Each way has one lemma.
-/

namespace Linux011.TaskTable

/-! ## Tables that agree on who is who -/

theorem update_eq_some {α : Type*} {task : Slot → Option α} {i j : Slot} {o : Option α} {u : α}
    (h : Function.update task i o j = some u) : (j = i ∧ o = some u) ∨ (j ≠ i ∧ task j = some u) := by
  by_cases hj : j = i
  · subst hj
    rw [Function.update_self] at h
    exact Or.inl ⟨rfl, h⟩
  · rw [Function.update_of_ne hj] at h
    exact Or.inr ⟨hj, h⟩

/-- The two tables have tasks in the same slots, each one related to the other. -/
def Pointwise (R : Task → Task → Prop) (task task' : Slot → Option Task) : Prop :=
  (∀ i t', task' i = some t' → ∃ t, task i = some t ∧ R t t') ∧
    ∀ i t, task i = some t → ∃ t', task' i = some t' ∧ R t t'

variable {R : Task → Task → Prop} {task task' : Slot → Option Task} {i j : Slot} {t t' u : Task}

theorem pointwise_update (hrefl : ∀ t, R t t) (ht : task i = some t) (h : R t t') :
    Pointwise R task (Function.update task i (some t')) := by
  refine ⟨fun j u hu => ?_, fun j u hu => ?_⟩
  · obtain ⟨rfl, he⟩ | ⟨-, hu'⟩ := update_eq_some hu
    · cases he
      exact ⟨t, ht, h⟩
    · exact ⟨u, hu', hrefl u⟩
  · by_cases hj : j = i
    · subst hj
      cases ht.symm.trans hu
      exact ⟨t', Function.update_self _ _ _, h⟩
    · exact ⟨u, (Function.update_of_ne hj _ _).trans hu, hrefl u⟩

theorem pointwise_map {f : Task → Task} (h : ∀ i t, task i = some t → R t (f t)) :
    Pointwise R task fun i => (task i).map f := by
  refine ⟨fun i t' ht' => ?_, fun i t ht => ⟨f t, ?_, h i t ht⟩⟩
  · obtain ⟨t, ht, rfl⟩ := Option.map_eq_some_iff.mp ht'
    exact ⟨t, ht, h i t ht⟩
  · dsimp only
    rw [ht, Option.map_some]

/-! ## The family -/

/-- The task may get children and wait for them. -/
def Phase.isAlive : Phase → Bool
  | .exiting _ => false
  | .exited => false
  | _ => true

/-- What a task may be in. -/
structure Task.Ok (t : Task) : Prop where
  stopped : t.state ≠ .stopped
  zombie : t.state = .zombie ↔ t.phase = .exited

structure Family (task : Slot → Option Task) : Prop where
  idle : ∃ t, task 0 = some t ∧ t.pid = 0 ∧ t.phase.isAlive = true ∧ t.id = 0
  init : ∃ t, task 1 = some t ∧ t.pid = 1 ∧ t.phase.isAlive = true ∧ t.id = 1
  ok : ∀ i t, task i = some t → t.Ok
  pos : ∀ i t, i ≠ 0 → task i = some t → 0 < t.pid
  pid : ∀ i j t u, task i = some t → task j = some u → t.pid = u.pid → i = j
  id : ∀ i j t u, task i = some t → task j = some u → t.id = u.id → i = j
  father : ∀ i t, i ≠ 0 → task i = some t →
    ∃ j u, task j = some u ∧ u.pid = t.father ∧ u.id = t.parent ∧ u.phase.isAlive = true
  /-- Task 0 is the father of init only. -/
  named : ∀ i t, i ≠ 0 → i ≠ 1 → task i = some t → t.father ≠ 0

/-- A task touched: it is the same process. -/
structure Task.Kin (t t' : Task) : Prop where
  pid : t'.pid = t.pid
  id : t'.id = t.id
  father : t'.father = t.father
  parent : t'.parent = t.parent
  ok : t.Ok → t'.Ok
  alive : t.phase.isAlive = true → t'.phase.isAlive = true

theorem Task.Kin.refl (t : Task) : t.Kin t := ⟨rfl, rfl, rfl, rfl, fun h => h, fun h => h⟩

/-- A live task that stays alive. -/
theorem Task.Kin.of_alive (hpid : t'.pid = t.pid) (hid : t'.id = t.id) (hfather : t'.father = t.father)
    (hparent : t'.parent = t.parent) (halive : t.phase.isAlive = true) (halive' : t'.phase.isAlive = true)
    (hstate : t'.state = t.state ∨ t'.state = .running ∨ t'.state = .interruptible) : t.Kin t' := by
  have hne : ∀ {t : Task}, t.phase.isAlive = true → t.phase ≠ .exited := by
    intro t h he
    rw [he] at h
    cases h
  refine ⟨hpid, hid, hfather, hparent, fun O => ?_, fun _ => halive'⟩
  obtain h | h | h := hstate
  · refine ⟨?_, ?_⟩
    · rw [h]
      exact O.stopped
    · rw [h]
      exact iff_of_false (mt O.zombie.mp (hne halive)) (hne halive')
  · refine ⟨?_, iff_of_false ?_ (hne halive')⟩ <;> rw [h] <;> decide
  · refine ⟨?_, iff_of_false ?_ (hne halive')⟩ <;> rw [h] <;> decide

theorem Family.touch (F : Family task) (h : Pointwise Task.Kin task task') : Family task' := by
  obtain ⟨hback, hforth⟩ := h
  refine ⟨?_, ?_, fun i t ht => ?_, fun i t hi ht => ?_, fun i j t u ht hu he => ?_,
    fun i j t u ht hu he => ?_, fun i t hi ht => ?_, fun i t hi hi' ht => ?_⟩
  · obtain ⟨t, ht, hpid, halive, hid⟩ := F.idle
    obtain ⟨t', ht', K⟩ := hforth 0 t ht
    exact ⟨t', ht', K.pid.trans hpid, K.alive halive, K.id.trans hid⟩
  · obtain ⟨t, ht, hpid, halive, hid⟩ := F.init
    obtain ⟨t', ht', K⟩ := hforth 1 t ht
    exact ⟨t', ht', K.pid.trans hpid, K.alive halive, K.id.trans hid⟩
  · obtain ⟨t₀, ht₀, K⟩ := hback i t ht
    exact K.ok (F.ok i t₀ ht₀)
  · obtain ⟨t₀, ht₀, K⟩ := hback i t ht
    rw [K.pid]
    exact F.pos i t₀ hi ht₀
  · obtain ⟨t₀, ht₀, K⟩ := hback i t ht
    obtain ⟨u₀, hu₀, L⟩ := hback j u hu
    exact F.pid i j t₀ u₀ ht₀ hu₀ (by rw [← K.pid, he, L.pid])
  · obtain ⟨t₀, ht₀, K⟩ := hback i t ht
    obtain ⟨u₀, hu₀, L⟩ := hback j u hu
    exact F.id i j t₀ u₀ ht₀ hu₀ (by rw [← K.id, he, L.id])
  · obtain ⟨t₀, ht₀, K⟩ := hback i t ht
    obtain ⟨j, u, hu, hpid, hid, halive⟩ := F.father i t₀ hi ht₀
    obtain ⟨u', hu', L⟩ := hforth j u hu
    exact ⟨j, u', hu', by rw [L.pid, hpid, K.father], by rw [L.id, hid, K.parent], L.alive halive⟩
  · obtain ⟨t₀, ht₀, K⟩ := hback i t ht
    rw [K.father]
    exact F.named i t₀ hi hi' ht₀

/-! ## A child -/

theorem child_ok {pid : Int} {n : Nat} : (t.child pid n).Ok := by
  refine ⟨fun h => ?_, ⟨fun h => ?_, fun h => ?_⟩⟩ <;> cases h

theorem Family.create {nr : Slot} (F : Family task) (hi : i ≠ 0) (ht : task i = some t)
    (halive : t.phase.isAlive = true) (hfree : task nr = none) {pid : Int} {n : Nat} (hpos : 0 < pid)
    (hpid : ∀ j u, task j = some u → u.pid ≠ pid) (hid : ∀ j u, task j = some u → u.id ≠ n) :
    Family (Function.update task nr (some (t.child pid n))) := by
  have hold : ∀ {j u}, task j = some u →
      Function.update task nr (some (t.child pid n)) j = some u := by
    intro j u hu
    have hj : j ≠ nr := by
      rintro rfl
      rw [hfree] at hu
      cases hu
    exact (Function.update_of_ne hj _ _).trans hu
  have hnew : ∀ {j u}, Function.update task nr (some (t.child pid n)) j = some u →
      (j = nr ∧ u = t.child pid n) ∨ task j = some u := by
    intro j u hu
    obtain ⟨hj, he⟩ | ⟨-, hu⟩ := update_eq_some hu
    · exact Or.inl ⟨hj, (Option.some.inj he).symm⟩
    · exact Or.inr hu
  refine ⟨?_, ?_, fun j u hu => ?_, fun j u hj hu => ?_, fun j k u v hu hv he => ?_,
    fun j k u v hu hv he => ?_, fun j u hj hu => ?_, fun j u hj hj' hu => ?_⟩
  · obtain ⟨u, hu, h⟩ := F.idle
    exact ⟨u, hold hu, h⟩
  · obtain ⟨u, hu, h⟩ := F.init
    exact ⟨u, hold hu, h⟩
  · obtain ⟨-, rfl⟩ | hu := hnew hu
    · exact child_ok
    · exact F.ok j u hu
  · obtain ⟨-, rfl⟩ | hu := hnew hu
    · exact hpos
    · exact F.pos j u hj hu
  · obtain ⟨hj, rfl⟩ | hu' := hnew hu
    · obtain ⟨hk, -⟩ | hv' := hnew hv
      · rw [hj, hk]
      · exact absurd he.symm (hpid k v hv')
    · obtain ⟨-, rfl⟩ | hv' := hnew hv
      · exact absurd he (hpid j u hu')
      · exact F.pid j k u v hu' hv' he
  · obtain ⟨hj, rfl⟩ | hu' := hnew hu
    · obtain ⟨hk, -⟩ | hv' := hnew hv
      · rw [hj, hk]
      · exact absurd he.symm (hid k v hv')
    · obtain ⟨-, rfl⟩ | hv' := hnew hv
      · exact absurd he (hid j u hu')
      · exact F.id j k u v hu' hv' he
  · obtain ⟨-, rfl⟩ | hu := hnew hu
    · exact ⟨i, t, hold ht, rfl, rfl, halive⟩
    · obtain ⟨k, v, hv, h⟩ := F.father j u hj hu
      exact ⟨k, v, hold hv, h⟩
  · obtain ⟨-, rfl⟩ | hu := hnew hu
    · exact Int.ne_of_gt (F.pos i t hi ht)
    · exact F.named j u hj hj' hu

/-! ## Giving the children away -/

/-- A task of `current`, by pid and by number. -/
theorem Family.father_iff (F : Family task) (ht : task i = some t) (hj : j ≠ 0) (hu : task j = some u) :
    u.father = t.pid ↔ u.parent = t.id := by
  obtain ⟨k, v, hv, hpid, hid, -⟩ := F.father j u hj hu
  rw [← hpid, ← hid]
  constructor
  · intro he
    cases F.pid k i v t hv ht he
    cases hv.symm.trans ht
    rfl
  · intro he
    cases F.id k i v t hv ht he
    cases hv.symm.trans ht
    rfl

theorem Family.reparent (F : Family task) (ht : task i = some t) :
    Family fun j => (task j).map (TaskTable.reparent t 1) := by
  have hnew : ∀ {j u'}, (task j).map (TaskTable.reparent t 1) = some u' →
      ∃ u, task j = some u ∧ TaskTable.reparent t 1 u = u' := Option.map_eq_some_iff.mp
  have hold : ∀ {j u}, task j = some u →
      (task j).map (TaskTable.reparent t 1) = some (TaskTable.reparent t 1 u) := by
    intro j u hu
    rw [hu, Option.map_some]
  refine ⟨?_, ?_, fun j u hu => ?_, fun j u hj hu => ?_, fun j k u v hu hv he => ?_,
    fun j k u v hu hv he => ?_, fun j u hj hu => ?_, fun j u hj hj' hu => ?_⟩
  · obtain ⟨u, hu, h⟩ := F.idle
    exact ⟨_, hold hu, h⟩
  · obtain ⟨u, hu, h⟩ := F.init
    exact ⟨_, hold hu, h⟩
  · obtain ⟨u, hu', rfl⟩ := hnew hu
    exact ⟨(F.ok j u hu').stopped, (F.ok j u hu').zombie⟩
  · obtain ⟨u, hu', rfl⟩ := hnew hu
    exact F.pos j u hj hu'
  · obtain ⟨u, hu', rfl⟩ := hnew hu
    obtain ⟨v, hv', rfl⟩ := hnew hv
    exact F.pid j k u v hu' hv' he
  · obtain ⟨u, hu', rfl⟩ := hnew hu
    obtain ⟨v, hv', rfl⟩ := hnew hv
    exact F.id j k u v hu' hv' he
  · obtain ⟨u, hu', rfl⟩ := hnew hu
    have hiff := F.father_iff ht hj hu'
    unfold TaskTable.reparent
    dsimp only
    by_cases hfather : u.father = t.pid
    · obtain ⟨v, hv, hpid, halive, hid⟩ := F.init
      refine ⟨1, _, hold hv, ?_, ?_, halive⟩
      · rw [if_pos hfather]
        exact hpid
      · rw [if_pos (hiff.mp hfather)]
        exact hid
    · obtain ⟨k, v, hv, hpid, hid, halive⟩ := F.father j u hj hu'
      refine ⟨k, _, hold hv, ?_, ?_, halive⟩
      · rw [if_neg hfather]
        exact hpid
      · rw [if_neg (mt hiff.mpr hfather)]
        exact hid
  · obtain ⟨u, hu', rfl⟩ := hnew hu
    unfold TaskTable.reparent
    dsimp only
    split
    · decide
    · exact F.named j u hj hj' hu'

/-! ## Leaving -/

/-- A task without children goes on its way out. -/
theorem Family.leave (F : Family task) (ht : task i = some t) (hi : i ≠ 0 ∧ i ≠ 1)
    (hpid : t'.pid = t.pid) (hid : t'.id = t.id) (hfather : t'.father = t.father)
    (hparent : t'.parent = t.parent) (hok : t'.Ok)
    (hchildless : t.phase.isAlive = true → ∀ j u, j ≠ 0 → task j = some u → u.father ≠ t.pid) :
    Family (Function.update task i (some t')) := by
  have hold : ∀ {j u}, j ≠ i → task j = some u → Function.update task i (some t') j = some u :=
    fun hj hu => (Function.update_of_ne hj _ _).trans hu
  obtain ⟨hback, -⟩ : Pointwise (fun t t' => t'.pid = t.pid ∧ t'.id = t.id ∧ t'.father = t.father ∧
      t'.parent = t.parent ∧ (t.Ok → t'.Ok)) task (Function.update task i (some t')) :=
    pointwise_update (fun _ => ⟨rfl, rfl, rfl, rfl, fun h => h⟩) ht ⟨hpid, hid, hfather, hparent, fun _ => hok⟩
  refine ⟨?_, ?_, fun j u hu => ?_, fun j u hj hu => ?_, fun j k u v hu hv he => ?_,
    fun j k u v hu hv he => ?_, fun j u hj hu => ?_, fun j u hj hj' hu => ?_⟩
  · obtain ⟨u, hu, h⟩ := F.idle
    exact ⟨u, hold hi.1.symm hu, h⟩
  · obtain ⟨u, hu, h⟩ := F.init
    exact ⟨u, hold hi.2.symm hu, h⟩
  · obtain ⟨u₀, hu₀, -, -, -, -, hok⟩ := hback j u hu
    exact hok (F.ok j u₀ hu₀)
  · obtain ⟨u₀, hu₀, hp, -⟩ := hback j u hu
    rw [hp]
    exact F.pos j u₀ hj hu₀
  · obtain ⟨u₀, hu₀, hp, -⟩ := hback j u hu
    obtain ⟨v₀, hv₀, hq, -⟩ := hback k v hv
    exact F.pid j k u₀ v₀ hu₀ hv₀ (by rw [← hp, he, hq])
  · obtain ⟨u₀, hu₀, -, hp, -⟩ := hback j u hu
    obtain ⟨v₀, hv₀, -, hq, -⟩ := hback k v hv
    exact F.id j k u₀ v₀ hu₀ hv₀ (by rw [← hp, he, hq])
  · obtain ⟨u₀, hu₀, -, -, hf, hp, -⟩ := hback j u hu
    obtain ⟨k, v, hv, hvpid, hvid, halive⟩ := F.father j u₀ hj hu₀
    have hki : k ≠ i := by
      rintro rfl
      cases ht.symm.trans hv
      exact hchildless halive j u₀ hj hu₀ hvpid.symm
    exact ⟨k, v, hold hki hv, by rw [hvpid, hf], by rw [hvid, hp], halive⟩
  · obtain ⟨u₀, hu₀, -, -, hf, -⟩ := hback j u hu
    rw [hf]
    exact F.named j u₀ hj hj' hu₀

/-- A task that has exited is removed. -/
theorem Family.remove (F : Family task) (ht : task i = some t) (hdead : t.phase.isAlive = false) :
    Family (Function.update task i none) := by
  have hold : ∀ {j u}, task j = some u → u.phase.isAlive = true →
      Function.update task i none j = some u := by
    intro j u hu halive
    have hj : j ≠ i := by
      rintro rfl
      cases ht.symm.trans hu
      rw [hdead] at halive
      cases halive
    exact (Function.update_of_ne hj _ _).trans hu
  have hnew : ∀ {j u}, Function.update task i none j = some u → task j = some u := by
    intro j u hu
    obtain ⟨-, he⟩ | ⟨-, hu⟩ := update_eq_some hu
    · cases he
    · exact hu
  refine ⟨?_, ?_, fun j u hu => F.ok j u (hnew hu), fun j u hj hu => F.pos j u hj (hnew hu),
    fun j k u v hu hv he => F.pid j k u v (hnew hu) (hnew hv) he,
    fun j k u v hu hv he => F.id j k u v (hnew hu) (hnew hv) he, fun j u hj hu => ?_,
    fun j u hj hj' hu => F.named j u hj hj' (hnew hu)⟩
  · obtain ⟨u, hu, hpid, halive, hid⟩ := F.idle
    exact ⟨u, hold hu halive, hpid, halive, hid⟩
  · obtain ⟨u, hu, hpid, halive, hid⟩ := F.init
    exact ⟨u, hold hu halive, hpid, halive, hid⟩
  · obtain ⟨k, v, hv, hpid, hid, halive⟩ := F.father j u hj (hnew hu)
    exact ⟨k, v, hold hv halive, hpid, hid, halive⟩

end Linux011.TaskTable
