import Mathlib.Algebra.Order.BigOperators.Group.Finset

/-!
# References of tasks

A task has a stack of frames and a list of things it holds; both refer to numbered objects. The
TALLY of an object is the number of references to it, over all tasks.

The rules are those that a reference count needs: one reference is among all of them, and when one
task changes its stack and what it holds, the tally changes by the difference.
-/

namespace Linux011.Lib

variable {ι F R : Type*} {refs : F → List Nat} {ref : R → Nat}

/-- The references of one task to object `i`. -/
def own (refs : F → List Nat) (ref : R → Nat) (fs : List F) (rs : List R) (i : Nat) : Nat :=
  (fs.flatMap refs).count i + (rs.map ref).count i

theorem own_append (fs gs : List F) (rs : List R) (i : Nat) :
    own refs ref (fs ++ gs) rs i = (fs.flatMap refs).count i + own refs ref gs rs i := by
  rw [own, List.flatMap_append, List.count_append, own, Nat.add_assoc]

theorem own_frame {f : F} {fs : List F} {rs : List R} {i : Nat} (hf : f ∈ fs) (hi : i ∈ refs f) :
    0 < own refs ref fs rs i :=
  Nat.add_pos_left (List.count_pos_iff.mpr (List.mem_flatMap.mpr ⟨f, hf, hi⟩)) _

theorem own_held {fs : List F} {r : R} {rs : List R} (hr : r ∈ rs) :
    0 < own refs ref fs rs (ref r) :=
  Nat.add_pos_right _ (List.count_pos_iff.mpr (List.mem_map_of_mem hr))

/-- Two frames of one task. -/
theorem two_le_own {f g : F} {fs : List F} {rs : List R} {i : Nat} (hne : f ≠ g) (hf : f ∈ fs)
    (hg : g ∈ fs) (hi : i ∈ refs f) (hj : i ∈ refs g) : 2 ≤ own refs ref fs rs i := by
  obtain ⟨as, bs, rfl⟩ := List.append_of_mem hf
  have h1 : 0 < (refs f).count i := List.count_pos_iff.mpr hi
  rw [own, List.flatMap_append, List.flatMap_cons, List.count_append, List.count_append]
  rcases List.mem_append.mp hg with hg | hg
  · have : 0 < (as.flatMap refs).count i := List.count_pos_iff.mpr (List.mem_flatMap.mpr ⟨g, hg, hj⟩)
    omega
  · rcases List.mem_cons.mp hg with rfl | hg
    · exact absurd rfl hne
    · have : 0 < (bs.flatMap refs).count i :=
        List.count_pos_iff.mpr (List.mem_flatMap.mpr ⟨g, hg, hj⟩)
      omega

variable [Fintype ι]

/-- The references of all tasks to object `i`. -/
def tally (refs : F → List Nat) (ref : R → Nat) (stack : ι → List F) (held : ι → List R)
    (i : Nat) : Nat := ∑ t, own refs ref (stack t) (held t) i

variable {stack : ι → List F} {held : ι → List R}

theorem own_le_tally (t : ι) (i : Nat) :
    own refs ref (stack t) (held t) i ≤ tally refs ref stack held i :=
  Finset.single_le_sum (f := fun t => own refs ref (stack t) (held t) i) (fun _ _ => Nat.zero_le _)
    (Finset.mem_univ t)

theorem tally_of_frame {t : ι} {f : F} {i : Nat} (hf : f ∈ stack t) (hi : i ∈ refs f) :
    tally refs ref stack held i ≠ 0 :=
  Nat.ne_of_gt (Nat.lt_of_lt_of_le (own_frame hf hi) (own_le_tally t i))

theorem tally_of_held {t : ι} {r : R} (hr : r ∈ held t) :
    tally refs ref stack held (ref r) ≠ 0 :=
  Nat.ne_of_gt (Nat.lt_of_lt_of_le (own_held hr) (own_le_tally t (ref r)))

variable [DecidableEq ι]

/-- Only the references of task `t` change. -/
theorem tally_update {stack' : ι → List F} {held' : ι → List R} (t : ι)
    (hs : ∀ u, u ≠ t → stack' u = stack u) (hh : ∀ u, u ≠ t → held' u = held u) (i : Nat) :
    tally refs ref stack' held' i + own refs ref (stack t) (held t) i =
      tally refs ref stack held i + own refs ref (stack' t) (held' t) i := by
  have hrest : ∀ u ∈ Finset.univ.erase t, own refs ref (stack' u) (held' u) i =
      own refs ref (stack u) (held u) i := by
    intro u hu
    have hne := Finset.ne_of_mem_erase hu
    rw [hs u hne, hh u hne]
  have h1 := Finset.add_sum_erase Finset.univ
    (fun u => own refs ref (stack' u) (held' u) i) (Finset.mem_univ t)
  have h2 := Finset.add_sum_erase Finset.univ
    (fun u => own refs ref (stack u) (held u) i) (Finset.mem_univ t)
  rw [Finset.sum_congr rfl hrest] at h1
  rw [tally, tally, ← h1, ← h2]
  omega

/-- The references of two tasks are among all of them. -/
theorem own_add_le_tally {t u : ι} (h : u ≠ t) (i : Nat) :
    own refs ref (stack t) (held t) i + own refs ref (stack u) (held u) i ≤
      tally refs ref stack held i := by
  have hu := Finset.single_le_sum (f := fun t => own refs ref (stack t) (held t) i)
    (fun _ _ => Nat.zero_le _) (Finset.mem_erase.mpr ⟨h, Finset.mem_univ u⟩)
  have ht := Finset.add_sum_erase Finset.univ
    (fun u => own refs ref (stack u) (held u) i) (Finset.mem_univ t)
  rw [tally, ← ht]
  exact Nat.add_le_add_left hu _

/-- Two different frames, of one task or of two. -/
theorem two_le_tally {t u : ι} {f g : F} {i : Nat} (hne : f ≠ g) (hf : f ∈ stack t)
    (hg : g ∈ stack u) (hi : i ∈ refs f) (hj : i ∈ refs g) : 2 ≤ tally refs ref stack held i := by
  by_cases hu : u = t
  · subst hu
    exact (two_le_own hne hf hg hi hj).trans (own_le_tally u i)
  · have h1 : 0 < own refs ref (stack t) (held t) i := own_frame hf hi
    have h2 : 0 < own refs ref (stack u) (held u) i := own_frame hg hj
    exact (Nat.add_le_add h1 h2).trans (own_add_le_tally hu i)

end Linux011.Lib
