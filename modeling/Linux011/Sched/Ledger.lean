import Mathlib.Data.List.Nodup
import Linux011.Sched.Family

/-!
# The history of a process

What the numbers say: a process is in the table or has been released, and not both; what its code was
when it went to `do_exit` and that it became a zombie; and that of the released ones each is returned
at most once. As for the family, a lemma for each way the table changes.
-/

namespace Linux011.TaskTable

variable {task task' : Slot → Option Task} {h : History} {i nr : Slot} {t t' u : Task} {r : Return}

/-- The return is about a process that has been released, says with which code it exited, and goes to
its father. -/
structure Return.Good (h : History) (r : Return) : Prop where
  released : r.child ∈ h.released
  zombie : r.child ∈ h.zombies
  code : h.exit r.child = some r.code
  father : r.father = r.caller
  pid : h.pid r.child = r.pid

structure Ledger (task : Slot → Option Task) (h : History) : Prop where
  fresh : ∀ i t, task i = some t → t.id < h.next
  pid : ∀ i t, task i = some t → h.pid t.id = t.pid
  exiting : ∀ i t code, task i = some t → t.phase = .exiting code → h.exit t.id = some code
  exited : ∀ i t, task i = some t → t.phase = .exited →
    h.exit t.id = some t.exitCode ∧ t.id ∈ h.zombies
  nodup : h.released.Nodup
  gone : ∀ n ∈ h.released, n < h.next ∧ ∀ i t, task i = some t → t.id ≠ n
  complete : ∀ n < h.next, (∃ i t, task i = some t ∧ t.id = n) ∨ n ∈ h.released
  good : ∀ r ∈ h.returned, r.Good h
  pending : ∀ i t r, task i = some t → t.phase = .releasing r →
    r.Good h ∧ r.caller = t.id ∧ ∀ q ∈ h.returned, q.child ≠ r.child
  apart : ∀ i j t u r q, task i = some t → task j = some u → t.phase = .releasing r →
    u.phase = .releasing q → r.child = q.child → i = j
  once : (h.returned.map Return.child).Nodup

/-! ## A task touched -/

/-- The task is the same process, and it is where it was or in user mode or asleep. -/
structure Task.Same (t t' : Task) : Prop where
  id : t'.id = t.id
  pid : t'.pid = t.pid
  exitCode : t'.exitCode = t.exitCode
  phase : t'.phase = t.phase ∨ t'.phase = .user ∨ ∃ pid options, t'.phase = .waiting pid options

theorem Task.Same.refl (t : Task) : t.Same t := ⟨rfl, rfl, rfl, Or.inl rfl⟩

/-- Anything but user mode and sleep was there before. -/
theorem Task.Same.phase_eq (S : t.Same t') (huser : t'.phase ≠ .user)
    (hwaiting : ∀ pid options, t'.phase ≠ .waiting pid options) : t.phase = t'.phase := by
  obtain h | h | ⟨pid, options, h⟩ := S.phase
  · exact h.symm
  · exact absurd h huser
  · exact absurd h (hwaiting pid options)

theorem Ledger.touch (L : Ledger task h) (hsame : Pointwise Task.Same task task') : Ledger task' h := by
  obtain ⟨hback, hforth⟩ := hsame
  have hreleasing : ∀ {i t' r}, task' i = some t' → t'.phase = .releasing r →
      ∃ t, task i = some t ∧ t.phase = .releasing r ∧ t'.id = t.id := by
    intro i t' r ht' hphase
    obtain ⟨t, ht, S⟩ := hback i t' ht'
    refine ⟨t, ht, ?_, S.id⟩
    rw [S.phase_eq (by rw [hphase]; exact fun h => by cases h) (by rw [hphase]; exact fun _ _ h => by cases h),
      hphase]
  refine { L with
    fresh := fun i t ht => ?_
    pid := fun i t ht => ?_
    exiting := fun i t code ht hphase => ?_
    exited := fun i t ht hphase => ?_
    gone := fun n hn => ⟨(L.gone n hn).1, fun i t ht => ?_⟩
    complete := fun n hn => ?_
    pending := fun i t r ht hphase => ?_
    apart := fun i j t u r q ht hu hr hq he => ?_ }
  · obtain ⟨t₀, ht₀, S⟩ := hback i t ht
    rw [S.id]
    exact L.fresh i t₀ ht₀
  · obtain ⟨t₀, ht₀, S⟩ := hback i t ht
    rw [S.id, S.pid]
    exact L.pid i t₀ ht₀
  · obtain ⟨t₀, ht₀, S⟩ := hback i t ht
    rw [S.id]
    refine L.exiting i t₀ code ht₀ ?_
    rw [S.phase_eq (by rw [hphase]; exact fun h => by cases h) (by rw [hphase]; exact fun _ _ h => by cases h),
      hphase]
  · obtain ⟨t₀, ht₀, S⟩ := hback i t ht
    rw [S.id, S.exitCode]
    refine L.exited i t₀ ht₀ ?_
    rw [S.phase_eq (by rw [hphase]; exact fun h => by cases h) (by rw [hphase]; exact fun _ _ h => by cases h),
      hphase]
  · obtain ⟨t₀, ht₀, S⟩ := hback i t ht
    rw [S.id]
    exact (L.gone n hn).2 i t₀ ht₀
  · obtain ⟨i, t, ht, hid⟩ | hn := L.complete n hn
    · obtain ⟨t', ht', S⟩ := hforth i t ht
      exact Or.inl ⟨i, t', ht', S.id.trans hid⟩
    · exact Or.inr hn
  · obtain ⟨t₀, ht₀, hphase₀, hid⟩ := hreleasing ht hphase
    rw [hid]
    exact L.pending i t₀ r ht₀ hphase₀
  · obtain ⟨t₀, ht₀, hr₀, -⟩ := hreleasing ht hr
    obtain ⟨u₀, hu₀, hq₀, -⟩ := hreleasing hu hq
    exact L.apart i j t₀ u₀ r q ht₀ hu₀ hr₀ hq₀ he

/-! ## A fork -/

/-- The history after the fork of the next process, with this pid. -/
def History.fork (h : History) (pid : Int) : History :=
  { h with next := h.next + 1, pid := Function.update h.pid h.next pid }

theorem Ledger.create (L : Ledger task h) (hfree : task nr = none) {pid : Int} :
    Ledger (Function.update task nr (some (t.child pid h.next))) (h.fork pid) := by
  have hold : ∀ {n}, n < h.next → (h.fork pid).pid n = h.pid n :=
    fun hn => Function.update_of_ne (Nat.ne_of_lt hn) _ _
  have hnew : ∀ {j u}, Function.update task nr (some (t.child pid h.next)) j = some u →
      (j = nr ∧ u = t.child pid h.next) ∨ task j = some u := by
    intro j u hu
    obtain ⟨hj, he⟩ | ⟨-, hu⟩ := update_eq_some hu
    · exact Or.inl ⟨hj, (Option.some.inj he).symm⟩
    · exact Or.inr hu
  have hgood : ∀ {r : Return}, r.Good h → r.Good (h.fork pid) := by
    intro r G
    exact ⟨G.released, G.zombie, G.code, G.father, (hold (L.gone _ G.released).1).trans G.pid⟩
  refine { L with
    fresh := fun j u hu => ?_
    pid := fun j u hu => ?_
    exiting := fun j u code hu hphase => ?_
    exited := fun j u hu hphase => ?_
    gone := fun n hn => ⟨Nat.lt_succ_of_lt (L.gone n hn).1, fun j u hu => ?_⟩
    complete := fun n hn => ?_
    good := fun r hr => hgood (L.good r hr)
    pending := fun j u r hu hphase => ?_
    apart := fun j k u v r q hu hv hr hq he => ?_ }
  · obtain ⟨-, rfl⟩ | hu := hnew hu
    · exact Nat.lt_succ_self _
    · exact Nat.lt_succ_of_lt (L.fresh j u hu)
  · obtain ⟨-, rfl⟩ | hu := hnew hu
    · exact Function.update_self _ _ _
    · exact (hold (L.fresh j u hu)).trans (L.pid j u hu)
  · obtain ⟨-, rfl⟩ | hu := hnew hu
    · cases hphase
    · exact L.exiting j u code hu hphase
  · obtain ⟨-, rfl⟩ | hu := hnew hu
    · cases hphase
    · exact L.exited j u hu hphase
  · obtain ⟨-, rfl⟩ | hu := hnew hu
    · exact Nat.ne_of_gt (L.gone n hn).1
    · exact (L.gone n hn).2 j u hu
  · obtain rfl | hlt := Nat.eq_or_lt_of_le (Nat.lt_succ_iff.mp hn)
    · exact Or.inl ⟨nr, _, Function.update_self _ _ _, rfl⟩
    · obtain ⟨j, u, hu, hid⟩ | hrel := L.complete n hlt
      · refine Or.inl ⟨j, u, ?_, hid⟩
        have hj : j ≠ nr := by
          rintro rfl
          rw [hfree] at hu
          cases hu
        exact (Function.update_of_ne hj _ _).trans hu
      · exact Or.inr hrel
  · obtain ⟨-, rfl⟩ | hu := hnew hu
    · cases hphase
    · obtain ⟨G, hrest⟩ := L.pending j u r hu hphase
      exact ⟨hgood G, hrest⟩
  · obtain ⟨-, rfl⟩ | hu := hnew hu
    · cases hr
    · obtain ⟨-, rfl⟩ | hv := hnew hv
      · cases hq
      · exact L.apart j k u v r q hu hv hr hq he

/-! ## Leaving -/

/-- A task is put in the place of one that is the same process. -/
theorem Ledger.replace (L : Ledger task h) (ht : task i = some t) (hid : t'.id = t.id)
    (hpid : t'.pid = t.pid) : (∀ j u, Function.update task i (some t') j = some u →
      u.id < h.next ∧ h.pid u.id = u.pid ∧ ∀ n ∈ h.released, u.id ≠ n) ∧
    ∀ n < h.next, (∃ j u, Function.update task i (some t') j = some u ∧ u.id = n) ∨ n ∈ h.released := by
  refine ⟨fun j u hu => ?_, fun n hn => ?_⟩
  · obtain ⟨-, he⟩ | ⟨-, hu⟩ := update_eq_some hu
    · cases he
      rw [hid, hpid]
      exact ⟨L.fresh i t ht, L.pid i t ht, fun n hn => (L.gone n hn).2 i t ht⟩
    · exact ⟨L.fresh j u hu, L.pid j u hu, fun n hn => (L.gone n hn).2 j u hu⟩
  · obtain ⟨j, u, hu, hn⟩ | hn := L.complete n hn
    · by_cases hj : j = i
      · subst hj
        cases ht.symm.trans hu
        exact Or.inl ⟨j, t', Function.update_self _ _ _, hid.trans hn⟩
      · exact Or.inl ⟨j, u, (Function.update_of_ne hj _ _).trans hu, hn⟩
    · exact Or.inr hn

/-- A task goes on its way out, and the history says with which code or that it is a zombie. -/
theorem Ledger.leave (L : Ledger task h) (exit : Nat → Option Int) (zombies : List Nat) (F : Family task)
    (ht : task i = some t) (hid : t'.id = t.id) (hpid : t'.pid = t.pid)
    (hexit : ∀ n, n ≠ t.id → exit n = h.exit n) (hzombies : h.zombies ⊆ zombies)
    (hphase : (∃ code, t'.phase = .exiting code ∧ exit t.id = some code) ∨
      t'.phase = .exited ∧ exit t.id = some t'.exitCode ∧ t.id ∈ zombies) :
    Ledger (Function.update task i (some t')) { h with exit, zombies } := by
  have hnew : ∀ {j u}, Function.update task i (some t') j = some u →
      (j = i ∧ u = t') ∨ task j = some u ∧ u.id ≠ t.id := by
    intro j u hu
    obtain ⟨hj, he⟩ | ⟨hj, hu⟩ := update_eq_some hu
    · exact Or.inl ⟨hj, (Option.some.inj he).symm⟩
    · exact Or.inr ⟨hu, fun he => hj (F.id j i u t hu ht he)⟩
  have hgood : ∀ {r : Return}, r.Good h → r.Good { h with exit, zombies } := by
    intro r G
    have hne : r.child ≠ t.id := fun he => (L.gone _ G.released).2 i t ht he.symm
    exact ⟨G.released, hzombies G.zombie, (hexit _ hne).trans G.code, G.father, G.pid⟩
  have hreleasing : ∀ {j u r}, Function.update task i (some t') j = some u → u.phase = .releasing r →
      task j = some u := by
    intro j u r hu hr
    obtain ⟨-, rfl⟩ | ⟨hu, -⟩ := hnew hu
    · obtain ⟨code, he, -⟩ | ⟨he, -⟩ := hphase <;> cases he.symm.trans hr
    · exact hu
  obtain ⟨hlisted, hcomplete⟩ := L.replace ht hid hpid
  refine { L with
    fresh := fun j u hu => (hlisted j u hu).1
    pid := fun j u hu => (hlisted j u hu).2.1
    exiting := fun j u code hu hcode => ?_
    exited := fun j u hu hexited => ?_
    gone := fun n hn => ⟨(L.gone n hn).1, fun j u hu => (hlisted j u hu).2.2 n hn⟩
    complete := hcomplete
    good := fun r hr => hgood (L.good r hr)
    pending := fun j u r hu hr => ?_
    apart := fun j k u v r q hu hv hr hq he =>
      L.apart j k u v r q (hreleasing hu hr) (hreleasing hv hq) hr hq he }
  · obtain ⟨-, rfl⟩ | ⟨hu, hne⟩ := hnew hu
    · obtain ⟨code', he, hexit⟩ | ⟨he, -⟩ := hphase
      · cases he.symm.trans hcode
        rw [hid]
        exact hexit
      · cases he.symm.trans hcode
    · exact (hexit _ hne).trans (L.exiting j u code hu hcode)
  · obtain ⟨-, rfl⟩ | ⟨hu, hne⟩ := hnew hu
    · obtain ⟨code', he, -⟩ | ⟨-, hrest⟩ := hphase
      · cases he.symm.trans hexited
      · rw [hid]
        exact hrest
    · obtain ⟨he, hz⟩ := L.exited j u hu hexited
      exact ⟨(hexit _ hne).trans he, hzombies hz⟩
  · obtain ⟨G, hrest⟩ := L.pending j u r (hreleasing hu hr) hr
    exact ⟨hgood G, hrest⟩

/-! ## Release and return -/

/-- A zombie is released. -/
theorem Ledger.remove (L : Ledger task h) (F : Family task) (ht : task nr = some t) :
    Ledger (Function.update task nr none) { h with released := t.id :: h.released } := by
  have hnew : ∀ {j u}, Function.update task nr none j = some u → task j = some u ∧ u.id ≠ t.id := by
    intro j u hu
    obtain ⟨-, he⟩ | ⟨hj, hu⟩ := update_eq_some hu
    · cases he
    · exact ⟨hu, fun he => hj (F.id j nr u t hu ht he)⟩
  have hgood : ∀ {r : Return}, r.Good h → r.Good { h with released := t.id :: h.released } :=
    fun G => ⟨List.mem_cons_of_mem _ G.released, G.zombie, G.code, G.father, G.pid⟩
  refine { L with
    fresh := fun j u hu => L.fresh j u (hnew hu).1
    pid := fun j u hu => L.pid j u (hnew hu).1
    exiting := fun j u code hu => L.exiting j u code (hnew hu).1
    exited := fun j u hu => L.exited j u (hnew hu).1
    nodup := List.nodup_cons.mpr ⟨fun hmem => (L.gone _ hmem).2 nr t ht rfl, L.nodup⟩
    gone := fun n hn => ?_
    complete := fun n hn => ?_
    good := fun r hr => hgood (L.good r hr)
    pending := fun j u r hu hr => ?_
    apart := fun j k u v r q hu hv => L.apart j k u v r q (hnew hu).1 (hnew hv).1 }
  · obtain rfl | hn := List.mem_cons.mp hn
    · exact ⟨L.fresh nr t ht, fun j u hu => (hnew hu).2⟩
    · exact ⟨(L.gone n hn).1, fun j u hu => (L.gone n hn).2 j u (hnew hu).1⟩
  · obtain ⟨j, u, hu, hid⟩ | hn := L.complete n hn
    · by_cases hj : j = nr
      · subst hj
        cases ht.symm.trans hu
        exact Or.inr (List.mem_cons.mpr (Or.inl hid.symm))
      · exact Or.inl ⟨j, u, (Function.update_of_ne hj _ _).trans hu, hid⟩
    · exact Or.inr (List.mem_cons_of_mem _ hn)
  · obtain ⟨G, hrest⟩ := L.pending j u r (hnew hu).1 hr
    exact ⟨hgood G, hrest⟩

/-- A task in `waitpid` has something to return. -/
theorem Ledger.hold (L : Ledger task h) (ht : task i = some t) (hid : t'.id = t.id)
    (hpid : t'.pid = t.pid) (hphase : t'.phase = .releasing r) (G : r.Good h) (hcaller : r.caller = t.id)
    (hreturned : ∀ q ∈ h.returned, q.child ≠ r.child)
    (hpending : ∀ j u q, task j = some u → u.phase = .releasing q → q.child ≠ r.child) :
    Ledger (Function.update task i (some t')) h := by
  have hnew : ∀ {j u}, Function.update task i (some t') j = some u →
      (j = i ∧ u = t') ∨ task j = some u := by
    intro j u hu
    obtain ⟨hj, he⟩ | ⟨-, hu⟩ := update_eq_some hu
    · exact Or.inl ⟨hj, (Option.some.inj he).symm⟩
    · exact Or.inr hu
  obtain ⟨hlisted, hcomplete⟩ := L.replace ht hid hpid
  refine { L with
    fresh := fun j u hu => (hlisted j u hu).1
    pid := fun j u hu => (hlisted j u hu).2.1
    exiting := fun j u code hu hcode => ?_
    exited := fun j u hu hexited => ?_
    gone := fun n hn => ⟨(L.gone n hn).1, fun j u hu => (hlisted j u hu).2.2 n hn⟩
    complete := hcomplete
    pending := fun j u q hu hq => ?_
    apart := fun j k u v q p hu hv hq hp he => ?_ }
  · obtain ⟨-, rfl⟩ | hu := hnew hu
    · cases hphase.symm.trans hcode
    · exact L.exiting j u code hu hcode
  · obtain ⟨-, rfl⟩ | hu := hnew hu
    · cases hphase.symm.trans hexited
    · exact L.exited j u hu hexited
  · obtain ⟨-, rfl⟩ | hu := hnew hu
    · cases hphase.symm.trans hq
      exact ⟨G, hcaller.trans hid.symm, hreturned⟩
    · exact L.pending j u q hu hq
  · obtain ⟨hj, rfl⟩ | hu' := hnew hu
    · cases hphase.symm.trans hq
      obtain ⟨hk, -⟩ | hv' := hnew hv
      · rw [hj, hk]
      · exact absurd he.symm (hpending k v p hv' hp)
    · obtain ⟨-, rfl⟩ | hv' := hnew hv
      · cases hphase.symm.trans hp
        exact absurd he (hpending j u q hu' hq)
      · exact L.apart j k u v q p hu' hv' hq hp he

/-- `waitpid` returns. -/
theorem Ledger.log (L : Ledger task h) (G : r.Good h) (hreturned : ∀ q ∈ h.returned, q.child ≠ r.child)
    (hpending : ∀ j u q, task j = some u → u.phase = .releasing q → q.child ≠ r.child) :
    Ledger task { h with returned := r :: h.returned } := by
  have hgood : ∀ {q : Return}, q.Good h → q.Good { h with returned := r :: h.returned } :=
    fun G => ⟨G.released, G.zombie, G.code, G.father, G.pid⟩
  refine { L with
    good := fun q hq => ?_
    pending := fun j u q hu hq => ?_
    once := List.nodup_cons.mpr ⟨fun hmem => ?_, L.once⟩ }
  · obtain rfl | hq := List.mem_cons.mp hq
    · exact hgood G
    · exact hgood (L.good q hq)
  · obtain ⟨Gq, hcaller, hne⟩ := L.pending j u q hu hq
    refine ⟨hgood Gq, hcaller, fun p hp => ?_⟩
    obtain rfl | hp := List.mem_cons.mp hp
    · exact (hpending j u q hu hq).symm
    · exact hne p hp
  · obtain ⟨q, hq, he⟩ := List.mem_map.mp hmem
    exact hreturned q hq he

end Linux011.TaskTable
