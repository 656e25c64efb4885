import Mathlib.Data.List.Basic
import Mathlib.Data.List.Perm.Basic
import Mathlib.Data.Finset.Card

/-!
# Sweeps

A queue of an elevator is served from its first member on, which stays first while it is served. So a
new member that comes before the first one in the order has to wait for the next sweep, and the queue
is at most two ascending runs: the rest of this sweep, and the next one. A new member goes where it is
in order with both neighbours, or to the beginning of the second run, or to the end.

The order is strict. The new member has to be comparable with the old ones, but two equal members do
not come.
-/

namespace Linux011.Lib

variable {α : Type*} {lt : α → α → Bool} {r x : α} {l l' : List α}

/-- Put `r` behind the first member where it is in order. -/
def sweep (lt : α → α → Bool) (r : α) : List α → List α
  | [] => [r]
  | [x] => [x, r]
  | x :: y :: l => if (lt x r || !lt x y) && lt r y then x :: r :: y :: l else x :: sweep lt r (y :: l)

/-- At most two ascending runs. -/
def TwoRuns (lt : α → α → Bool) (l : List α) : Prop :=
  ∃ l₁ l₂, l = l₁ ++ l₂ ∧ l₁.Pairwise (lt · ·) ∧ l₂.Pairwise (lt · ·)

theorem TwoRuns.nil : TwoRuns lt [] := ⟨[], [], rfl, .nil, .nil⟩

/-- Only the order of the members matters. -/
theorem TwoRuns.congr {lt' : α → α → Bool} (h : TwoRuns lt l)
    (he : ∀ x ∈ l, ∀ y ∈ l, lt' x y = lt x y) : TwoRuns lt' l := by
  obtain ⟨l₁, l₂, rfl, h₁, h₂⟩ := h
  refine ⟨l₁, l₂, rfl, h₁.imp_of_mem fun hx hy hxy => ?_, h₂.imp_of_mem fun hx hy hxy => ?_⟩
  · rw [he _ (List.mem_append_left _ hx) _ (List.mem_append_left _ hy)]
    exact hxy
  · rw [he _ (List.mem_append_right _ hx) _ (List.mem_append_right _ hy)]
    exact hxy

/-- What is served first leaves the queue. -/
theorem TwoRuns.tail (h : TwoRuns lt (x :: l)) : TwoRuns lt l := by
  obtain ⟨l₁, l₂, he, h₁, h₂⟩ := h
  cases l₁ with
  | nil =>
    rw [List.nil_append] at he
    subst he
    exact ⟨[], l, rfl, .nil, h₂.of_cons⟩
  | cons y l₁ =>
    cases he
    exact ⟨l₁, l₂, rfl, h₁.of_cons, h₂⟩

/-- Some of the members. -/
theorem TwoRuns.sublist (h : TwoRuns lt l) (hl : l'.Sublist l) : TwoRuns lt l' := by
  obtain ⟨l₁, l₂, rfl, h₁, h₂⟩ := h
  obtain ⟨l₁', l₂', rfl, hl₁, hl₂⟩ := List.sublist_append_iff.mp hl
  exact ⟨l₁', l₂', rfl, h₁.sublist hl₁, h₂.sublist hl₂⟩

/-- The keys of the members. -/
theorem TwoRuns.map {κ : Type*} {key : α → κ} {klt : κ → κ → Bool} (h : TwoRuns lt l)
    (hlt : ∀ x y, lt x y = klt (key x) (key y)) : TwoRuns klt (l.map key) := by
  obtain ⟨l₁, l₂, rfl, h₁, h₂⟩ := h
  have one : ∀ run : List α, run.Pairwise (lt · ·) → (run.map key).Pairwise (klt · ·) :=
    fun run hrun => List.pairwise_map.mpr (hrun.imp fun {x y} hxy => (hlt x y).symm.trans hxy)
  exact ⟨_, _, List.map_append, one l₁ h₁, one l₂ h₂⟩

/-- Only one member can be out of order with the next. -/
theorem TwoRuns.turn (h : TwoRuns lt l) {i j : Nat} (hi : i + 1 < l.length) (hj : j + 1 < l.length)
    (hni : lt l[i] l[i + 1] = false) (hnj : lt l[j] l[j + 1] = false) : i = j := by
  obtain ⟨l₁, l₂, rfl, h₁, h₂⟩ := h
  have key : ∀ k (hk : k + 1 < (l₁ ++ l₂).length), lt (l₁ ++ l₂)[k] (l₁ ++ l₂)[k + 1] = false →
      k + 1 = l₁.length := by
    intro k hk hnk
    by_contra hne
    have htrue : lt (l₁ ++ l₂)[k] (l₁ ++ l₂)[k + 1] = true := by
      rcases Nat.lt_or_gt_of_ne hne with hlt | hgt
      · rw [List.getElem_append_left hlt, List.getElem_append_left (by omega)]
        exact List.pairwise_iff_getElem.mp h₁ k (k + 1) (by omega) hlt (Nat.lt_succ_self k)
      · rw [List.getElem_append_right (by omega), List.getElem_append_right (by omega)]
        exact List.pairwise_iff_getElem.mp h₂ _ _ _ _ (by omega)
    rw [htrue] at hnk
    cases hnk
  exact Nat.succ.inj ((key i hi hni).trans (key j hj hnj).symm)

/-- The old members stay in their order. -/
theorem sweep_split (lt : α → α → Bool) (r : α) (l : List α) :
    ∃ l₁ l₂, l = l₁ ++ l₂ ∧ sweep lt r l = l₁ ++ r :: l₂ := by
  induction l with
  | nil => exact ⟨[], [], rfl, rfl⟩
  | cons x l ih =>
    cases l with
    | nil => exact ⟨[x], [], rfl, rfl⟩
    | cons y l =>
      rw [sweep]
      split
      · exact ⟨[x], y :: l, rfl, rfl⟩
      · obtain ⟨l₁, l₂, he, hs⟩ := ih
        exact ⟨x :: l₁, l₂, by rw [he, List.cons_append], by rw [hs, List.cons_append]⟩

/-- The member that is served stays where it is. -/
theorem sweep_cons (lt : α → α → Bool) (r x : α) (l : List α) :
    ∃ l', sweep lt r (x :: l) = x :: l' := by
  cases l with
  | nil => exact ⟨[r], rfl⟩
  | cons y l =>
    rw [sweep]
    split
    · exact ⟨_, rfl⟩
    · exact ⟨_, rfl⟩

/-- What the insertion needs of the order. -/
structure Strict (lt : α → α → Bool) : Prop where
  trans : ∀ {x y z}, lt x y = true → lt y z = true → lt x z = true
  asymm : ∀ {x y}, lt x y = true → lt y x = false

/-- One more member before an ascending run. -/
theorem Strict.cons {y : α} (S : Strict lt) (h : (y :: l).Pairwise (lt · ·)) (hxy : lt x y = true) :
    (x :: y :: l).Pairwise (lt · ·) := by
  refine List.pairwise_cons.mpr ⟨fun z hz => ?_, h⟩
  rcases List.mem_cons.mp hz with rfl | hz
  · exact hxy
  · exact S.trans hxy (List.rel_of_pairwise_cons h hz)

/-- In an ascending queue the new member finds its place, if it does not come before the first. -/
theorem Strict.sweep_ascending (S : Strict lt) (h : (x :: l).Pairwise (lt · ·)) (hx : lt x r = true)
    (hr : ∀ z ∈ l, lt z r = true ∨ lt r z = true) : (sweep lt r (x :: l)).Pairwise (lt · ·) := by
  induction l generalizing x with
  | nil => exact S.cons (List.pairwise_singleton _ _) hx
  | cons y l ih =>
    have hxy : lt x y = true := List.rel_of_pairwise_cons h List.mem_cons_self
    have hrest := ih h.of_cons
    rw [sweep, hx, Bool.true_or, Bool.true_and]
    by_cases hry : lt r y = true
    · rw [if_pos hry]
      exact S.cons (S.cons h.of_cons hry) hx
    · rw [if_neg hry]
      have hyr : lt y r = true := (hr y List.mem_cons_self).resolve_right hry
      obtain ⟨l', hl'⟩ := sweep_cons lt r y l
      have hrun := hrest hyr fun z hz => hr z (List.mem_cons_of_mem _ hz)
      rw [hl'] at hrun ⊢
      exact S.cons hrun hxy

/-- Otherwise it goes to the end. -/
theorem Strict.sweep_last (S : Strict lt) (h : (x :: l).Pairwise (lt · ·)) (hx : lt r x = true) :
    sweep lt r (x :: l) = (x :: l) ++ [r] := by
  induction l generalizing x with
  | nil => rfl
  | cons y l ih =>
    have hxy : lt x y = true := List.rel_of_pairwise_cons h List.mem_cons_self
    rw [sweep, S.asymm hx, hxy, Bool.not_true, Bool.false_or, Bool.false_and,
      if_neg Bool.false_ne_true, ih h.of_cons (S.trans hx hxy)]
    rfl

/-- Two runs stay two. The first one still begins where it began. -/
theorem Strict.sweep_runs {l₁ l₂ : List α} (S : Strict lt) (h₁ : (x :: l₁).Pairwise (lt · ·))
    (h₂ : l₂.Pairwise (lt · ·)) (hr : ∀ z ∈ x :: l₁ ++ l₂, lt z r = true ∨ lt r z = true) :
    ∃ l₁' l₂', sweep lt r (x :: l₁ ++ l₂) = x :: l₁' ++ l₂' ∧ (x :: l₁').Pairwise (lt · ·) ∧
      l₂'.Pairwise (lt · ·) := by
  induction l₁ generalizing x with
  | nil =>
    cases l₂ with
    | nil =>
      refine ⟨[], [r], rfl, h₁, List.pairwise_singleton _ _⟩
    | cons y l₂ =>
      rw [List.cons_append, List.nil_append, sweep]
      split
      · -- the beginning of the second run
        next hc =>
        rw [Bool.and_eq_true] at hc
        exact ⟨[], r :: y :: l₂, rfl, h₁, S.cons h₂ hc.2⟩
      · next hc =>
        rcases hr y (List.mem_append_right _ List.mem_cons_self) with hyr | hry
        · have hrun := S.sweep_ascending h₂ hyr fun z hz =>
            hr z (List.mem_append_right _ (List.mem_cons_of_mem _ hz))
          exact ⟨[], _, rfl, h₁, hrun⟩
        · -- there is no second run yet
          rw [hry, Bool.and_true, Bool.or_eq_true, not_or, Bool.not_eq_true'] at hc
          have hxy : lt x y = true := by simpa using hc.2
          rw [S.sweep_last h₂ hry]
          exact ⟨y :: l₂, [r], rfl, S.cons h₂ hxy, List.pairwise_singleton _ _⟩
  | cons y l₁ ih =>
    have hxy : lt x y = true := List.rel_of_pairwise_cons h₁ List.mem_cons_self
    rw [List.cons_append, List.cons_append, sweep, hxy, Bool.not_true, Bool.or_false]
    split
    · next hc =>
      rw [Bool.and_eq_true] at hc
      exact ⟨r :: y :: l₁, l₂, rfl, S.cons (S.cons h₁.of_cons hc.2) hc.1, h₂⟩
    · obtain ⟨l₁', l₂', hs, hr₁, hr₂⟩ := ih h₁.of_cons fun z hz => hr z (List.mem_cons_of_mem _ hz)
      rw [List.cons_append] at hs
      rw [hs]
      exact ⟨y :: l₁', l₂', rfl, S.cons hr₁ hxy, hr₂⟩

theorem Strict.sweep_twoRuns (S : Strict lt) (h : TwoRuns lt l)
    (hr : ∀ z ∈ l, lt z r = true ∨ lt r z = true) : TwoRuns lt (sweep lt r l) := by
  obtain ⟨l₁, l₂, rfl, h₁, h₂⟩ := h
  -- the first run may be empty
  obtain ⟨x, l₁, l₂, he, h₁, h₂⟩ | he : (∃ x l₁' l₂', l₁ ++ l₂ = x :: l₁' ++ l₂' ∧
      (x :: l₁').Pairwise (lt · ·) ∧ l₂'.Pairwise (lt · ·)) ∨ l₁ ++ l₂ = [] := by
    cases l₁ with
    | cons x l₁ => exact Or.inl ⟨x, l₁, l₂, rfl, h₁, h₂⟩
    | nil =>
      cases l₂ with
      | cons x l₂ => exact Or.inl ⟨x, l₂, [], (List.append_nil _).symm, h₂, .nil⟩
      | nil => exact Or.inr rfl
  · rw [he] at hr ⊢
    obtain ⟨l₁', l₂', hs, hr₁, hr₂⟩ := S.sweep_runs h₁ h₂ hr
    exact ⟨_, _, hs, hr₁, hr₂⟩
  · rw [he]
    exact ⟨[r], [], rfl, List.pairwise_singleton _ _, .nil⟩

/-! ## Waiting for the turn -/

/-- A new member that has another one behind it is in order with both neighbours, or begins the second
run. -/
theorem sweep_place (lt : α → α → Bool) (r : α) (l : List α) :
    ∃ l₁ l₂, l = l₁ ++ l₂ ∧ sweep lt r l = l₁ ++ r :: l₂ ∧ ∀ y l₃, l₂ = y :: l₃ →
      ∃ l₀ x, l₁ = l₀ ++ [x] ∧ (lt x r = true ∨ lt x y = false) ∧ lt r y = true := by
  induction l with
  | nil => exact ⟨[], [], rfl, rfl, fun y l₃ h => by cases h⟩
  | cons x l ih =>
    cases l with
    | nil => exact ⟨[x], [], rfl, rfl, fun y l₃ h => by cases h⟩
    | cons y l =>
      rw [sweep]
      split
      · next hc =>
        rw [Bool.and_eq_true, Bool.or_eq_true, Bool.not_eq_true'] at hc
        refine ⟨[x], y :: l, rfl, rfl, fun z l₃ h => ?_⟩
        cases h
        exact ⟨[], x, rfl, hc⟩
      · obtain ⟨l₁, l₂, he, hs, hplace⟩ := ih
        refine ⟨x :: l₁, l₂, by rw [he, List.cons_append], by rw [hs, List.cons_append], ?_⟩
        intro z l₃ h
        obtain ⟨l₀, w, rfl, hw⟩ := hplace z l₃ h
        exact ⟨x :: l₀, w, rfl, hw⟩

/-- One more member between two neighbours of an ascending run. -/
theorem Strict.between {y : α} {l₁ l₂ : List α} (S : Strict lt)
    (h : (l₁ ++ x :: y :: l₂).Pairwise (lt · ·)) (hx : lt x r = true) (hy : lt r y = true) :
    (l₁ ++ x :: r :: y :: l₂).Pairwise (lt · ·) := by
  obtain ⟨h₁, h₂, hcross⟩ := List.pairwise_append.mp h
  refine List.pairwise_append.mpr ⟨h₁, S.cons (S.cons h₂.of_cons hy) hx, fun z hz w hw => ?_⟩
  have hzx : lt z x = true := hcross z hz x List.mem_cons_self
  rcases List.mem_cons.mp hw with rfl | hw
  · exact hzx
  rcases List.mem_cons.mp hw with rfl | hw
  · exact S.trans hzx hx
  · exact hcross z hz w (List.mem_cons_of_mem _ hw)

/-- The same in two runs; at the turn of the sweep the new member begins the second run. -/
theorem Strict.insert {y : α} {l₁ l₂ : List α} (S : Strict lt) (h : TwoRuns lt (l₁ ++ x :: y :: l₂))
    (hx : lt x r = true ∨ lt x y = false) (hy : lt r y = true) :
    TwoRuns lt (l₁ ++ x :: r :: y :: l₂) := by
  have next : lt x y = true → lt x r = true := fun hxy =>
    hx.resolve_right fun hno => by rw [hxy] at hno; cases hno
  obtain ⟨a, b, he, ha, hb⟩ := h
  rcases List.append_eq_append_iff.mp he with ⟨c, rfl, hc⟩ | ⟨c, rfl, hc⟩
  · cases c with
    | nil =>
      have hc : x :: y :: l₂ = b := hc
      subst hc
      have hxy : lt x y = true := List.rel_of_pairwise_cons hb List.mem_cons_self
      have hb' : ([] ++ x :: y :: l₂).Pairwise (lt · ·) := hb
      refine ⟨l₁, x :: r :: y :: l₂, rfl, ?_, S.between hb' (next hxy) hy⟩
      rw [List.append_nil] at ha
      exact ha
    | cons z c =>
      obtain ⟨rfl, htail⟩ := List.cons.inj hc
      cases c with
      | nil =>
        have htail : y :: l₂ = b := htail
        subst htail
        exact ⟨l₁ ++ [x], r :: y :: l₂, by rw [List.append_assoc]; rfl, ha, S.cons hb hy⟩
      | cons z c =>
        obtain ⟨rfl, rfl⟩ := List.cons.inj htail
        have hxy : lt x y = true :=
          List.rel_of_pairwise_cons (List.pairwise_append.mp ha).2.1 List.mem_cons_self
        exact ⟨l₁ ++ x :: r :: y :: c, b, by rw [List.append_assoc]; rfl, S.between ha (next hxy) hy, hb⟩
  · subst hc
    have hxy : lt x y = true :=
      List.rel_of_pairwise_cons (List.pairwise_append.mp hb).2.1 List.mem_cons_self
    exact ⟨a, c ++ x :: r :: y :: l₂, by rw [List.append_assoc], ha, S.between hb (next hxy) hy⟩

/-- WAITING. What was served, and what is still ahead of the waiting member, makes at most two runs up
to that member; a new member does not change that. The members have keys, and these are in order. -/
theorem Strict.sweep_waiting {κ : Type*} {key : α → κ} {klt : κ → κ → Bool} {served : List κ}
    {w : α} {pre post : List α} (S : Strict klt) (hlt : ∀ x y, lt x y = klt (key x) (key y))
    (h : TwoRuns klt (served ++ (pre ++ [w]).map key)) :
    ∃ pre' post', sweep lt r (pre ++ w :: post) = pre' ++ w :: post' ∧
      TwoRuns klt (served ++ (pre' ++ [w]).map key) := by
  obtain ⟨l₁, l₂, he, hs, hplace⟩ := sweep_place lt r (pre ++ w :: post)
  rw [hs]
  have ahead : ∀ c, pre = l₁ ++ c → l₂ = c ++ w :: post → ∃ pre' post',
      l₁ ++ r :: l₂ = pre' ++ w :: post' ∧ TwoRuns klt (served ++ (pre' ++ [w]).map key) := by
    rintro c rfl rfl
    obtain ⟨y, c', hc⟩ : ∃ y c', c ++ [w] = y :: c' :=
      List.exists_cons_of_ne_nil (List.append_ne_nil_of_right_ne_nil c (List.cons_ne_nil w []))
    have hrest : c ++ w :: post = y :: (c' ++ post) := by
      rw [← List.cons_append, ← hc, List.append_assoc, List.singleton_append]
    obtain ⟨l₀, x, rfl, hx, hy⟩ := hplace y (c' ++ post) hrest
    rw [hlt, hlt] at hx
    rw [hlt] at hy
    have h' : TwoRuns klt (served ++ l₀.map key ++ key x :: key y :: c'.map key) := by
      rw [← List.map_cons, ← hc]
      simpa only [List.map_append, List.append_assoc, List.map_cons, List.map_nil, List.cons_append,
        List.nil_append] using h
    have hnew := S.insert h' hx hy
    rw [← List.map_cons, ← hc] at hnew
    refine ⟨l₀ ++ [x] ++ r :: c, post, by rw [List.append_assoc _ (r :: c)]; rfl, ?_⟩
    simpa only [List.map_append, List.append_assoc, List.map_cons, List.map_nil, List.cons_append,
      List.nil_append] using hnew
  rcases List.append_eq_append_iff.mp he with ⟨c, rfl, hc⟩ | ⟨c, hpre, hl₂⟩
  · cases c with
    | nil => exact ahead [] (by rw [List.append_nil, List.append_nil]) hc.symm
    | cons z c =>
      obtain ⟨rfl, rfl⟩ := List.cons.inj hc
      exact ⟨pre, c ++ r :: l₂, by rw [List.append_assoc]; rfl, h⟩
  · exact ahead c hpre hl₂

/-- Two runs have each member twice at most. -/
theorem Strict.twoRuns_length [DecidableEq α] (S : Strict lt) (h : TwoRuns lt l) {members : Finset α}
    (hl : ∀ x ∈ l, x ∈ members) : l.length ≤ 2 * members.card := by
  have one : ∀ run : List α, run.Pairwise (lt · ·) → (∀ x ∈ run, x ∈ members) →
      run.length ≤ members.card := by
    intro run hrun hmem
    have hnodup : run.Nodup := hrun.imp fun {x y} hxy he => by
      have hyx := S.asymm hxy
      rw [he] at hxy hyx
      rw [hxy] at hyx
      cases hyx
    rw [← List.toFinset_card_of_nodup hnodup]
    exact Finset.card_le_card fun x hx => hmem x (List.mem_toFinset.mp hx)
  obtain ⟨l₁, l₂, rfl, h₁, h₂⟩ := h
  have hone := one l₁ h₁ fun x hx => hl x (List.mem_append_left _ hx)
  have htwo := one l₂ h₂ fun x hx => hl x (List.mem_append_right _ hx)
  rw [List.length_append]
  omega

end Linux011.Lib
