import Mathlib.Data.List.Basic

/-!
# Walks along a list of names

A walk follows a list of names from node to node. All names but the last are looked up on the way,
each in a node that admits a lookup (`ok`); the walk ends in the node where the last name belongs.

The rules: what a lookup keeps, a walk keeps; two lookups that agree where the walk comes give one
walk; and the last name does not matter. `afterLast` is the rest of a string behind the last
separator, which is the last of the names the string splits into.
-/

namespace Linux011.Lib

variable {σ κ α : Type*}

/-- The node in which the last name belongs. -/
def walkTo (ok : σ → Bool) (look : σ → κ → Option σ) : σ → List κ → Option σ
  | _, [] => none
  | s, [_] => if ok s then some s else none
  | s, k :: k' :: ks => if ok s then (look s k).bind fun s' => walkTo ok look s' (k' :: ks) else none

variable {ok : σ → Bool} {look look' : σ → κ → Option σ}

/-- The walk admits a lookup where it ends. -/
theorem walkTo_ok {s s' : σ} : ∀ {ks : List κ}, walkTo ok look s ks = some s' → ok s' = true
  | [], h => by cases h
  | [_], h => by
    simp only [walkTo] at h
    split at h
    · next hok => exact Option.some.inj h ▸ hok
    · cases h
  | k :: k' :: ks, h => by
    simp only [walkTo] at h
    split at h
    · obtain ⟨u, -, hu⟩ := Option.bind_eq_some_iff.mp h
      exact walkTo_ok hu
    · cases h

/-- The walk admits a lookup where it starts. -/
theorem walkTo_start {s s' : σ} : ∀ {ks : List κ}, walkTo ok look s ks = some s' → ok s = true
  | [], h => by cases h
  | [_], h => by
    simp only [walkTo] at h
    split at h
    · next hok => exact hok
    · cases h
  | _ :: _ :: _, h => by
    simp only [walkTo] at h
    split at h
    · next hok => exact hok
    · cases h

/-- What a lookup keeps, a walk keeps. -/
theorem walkTo_invariant {P : σ → Prop}
    (hlook : ∀ s k s', P s → ok s = true → look s k = some s' → P s') {s s' : σ} :
    ∀ {ks : List κ}, P s → walkTo ok look s ks = some s' → P s'
  | [], _, h => by cases h
  | [_], hs, h => by
    simp only [walkTo] at h
    split at h
    · exact Option.some.inj h ▸ hs
    · cases h
  | k :: k' :: ks, hs, h => by
    simp only [walkTo] at h
    split at h
    · next hok =>
      obtain ⟨u, hk, hu⟩ := Option.bind_eq_some_iff.mp h
      exact walkTo_invariant hlook (hlook s k u hs hok hk) hu
    · cases h

/-- The last name does not matter. -/
theorem walkTo_concat (s : σ) (k l : κ) :
    ∀ ks : List κ, walkTo ok look s (ks ++ [k]) = walkTo ok look s (ks ++ [l])
  | [] => rfl
  | [j] => rfl
  | j :: j' :: ks => by
    simp only [List.cons_append, walkTo]
    split
    · refine congrArg (Option.bind (look s j)) (funext fun s' => ?_)
      exact walkTo_concat s' k l (j' :: ks)
    · rfl

/-- A walk that starts with a lookup. -/
theorem walkTo_cons (s : σ) (k : κ) {ks : List κ} (hks : ks ≠ []) :
    walkTo ok look s (k :: ks) =
      if ok s then (look s k).bind fun s' => walkTo ok look s' ks else none := by
  cases ks with
  | nil => exact absurd rfl hks
  | cons k' ks => rfl

/-- Lookups that agree where the walk comes give one walk. -/
theorem walkTo_congr {s : σ} {ks : List κ}
    (h : ∀ pre k suf, ks = pre ++ k :: suf → suf ≠ [] → ∀ d,
      walkTo ok look s (pre ++ [k]) = some d → look d k = look' d k) :
    walkTo ok look s ks = walkTo ok look' s ks := by
  induction ks generalizing s with
  | nil => rfl
  | cons j ks ih =>
    by_cases hks : ks = []
    · rw [hks]
      rfl
    rw [walkTo_cons s j hks, walkTo_cons s j hks]
    cases hok : ok s with
    | false => rfl
    | true =>
      rw [if_pos rfl, if_pos rfl, ← h [] j ks rfl hks s (if_pos hok)]
      cases hj : look s j with
      | none => rfl
      | some u =>
        refine ih fun pre k suf hsuf hne d hd => h (j :: pre) k suf (hsuf ▸ rfl) hne d ?_
        rw [List.cons_append, walkTo_cons s j (List.concat_ne_nil _ _), hok, hj]
        exact hd

/-- What the lookups of a walk keep, where the walk comes to, holds at its end. -/
theorem walkTo_along {P : σ → Prop} {s s' : σ} {ks : List κ} (hs : P s)
    (hlook : ∀ pre k suf, ks = pre ++ k :: suf → ∀ d d', walkTo ok look s (pre ++ [k]) = some d → P d →
      look d k = some d' → P d')
    (h : walkTo ok look s ks = some s') : P s' := by
  induction ks generalizing s with
  | nil => cases h
  | cons j ks ih =>
    by_cases hks : ks = []
    · subst hks
      simp only [walkTo] at h
      split at h
      · exact Option.some.inj h ▸ hs
      · cases h
    · have hok := walkTo_start h
      rw [walkTo_cons s j hks, hok, if_pos rfl] at h
      obtain ⟨u, hj, hu⟩ := Option.bind_eq_some_iff.mp h
      refine ih (hlook [] j ks rfl s u (if_pos hok) hs hj) (fun pre k suf hsuf d d' hd => ?_) hu
      refine hlook (j :: pre) k suf (hsuf ▸ rfl) d d' ?_
      rw [List.cons_append, walkTo_cons s j (List.concat_ne_nil _ _), hok, hj]
      exact hd

/-! ## Strings -/

variable [DecidableEq α] (sep : α)

/-- The rest of the string behind the last separator, or `base` when there is none. -/
def afterLast : List α → List α → List α
  | [], base => base
  | c :: p, base => afterLast p (if c = sep then p else base)

theorem afterLast_of_not_mem {p : List α} (h : sep ∉ p) (base : List α) :
    afterLast sep p base = base := by
  induction p generalizing base with
  | nil => rfl
  | cons c p ih =>
    obtain ⟨hc, hp⟩ := not_or.mp (mt List.mem_cons.mpr h)
    rw [afterLast, if_neg (Ne.symm hc), ih hp]

theorem afterLast_append (a b base : List α) :
    afterLast sep (a ++ sep :: b) base = afterLast sep b b := by
  induction a generalizing base with
  | nil => rw [List.nil_append, afterLast, if_pos rfl]
  | cons c a ih => rw [List.cons_append, afterLast, ih]

theorem mem_afterLast {x : α} {p base : List α} (h : x ∈ afterLast sep p base) :
    x ∈ p ∨ x ∈ base := by
  induction p generalizing base with
  | nil => exact Or.inr h
  | cons c p ih =>
    rw [afterLast] at h
    rcases ih h with h | h
    · exact Or.inl (List.mem_cons_of_mem c h)
    · split at h
      · exact Or.inl (List.mem_cons_of_mem c h)
      · exact Or.inr h

/-- The last of the names that a string splits into. -/
theorem afterLast_eq_getLast (p : List α) :
    afterLast sep p p = (p.splitOn sep).getLast (List.splitOn_ne_nil sep p) := by
  by_cases h : sep ∈ p
  · obtain ⟨a, b, hp, ha⟩ := List.eq_append_cons_of_mem h
    have hlt : b.length < p.length := by
      rw [hp, List.length_append, List.length_cons]
      omega
    subst hp
    rw [afterLast_append, afterLast_eq_getLast b]
    simp only [List.splitOn_append_cons_self_of_not_mem ha]
    rw [List.getLast_cons]
  · rw [afterLast_of_not_mem sep h]
    simp only [List.splitOn_eq_singleton h, List.getLast_singleton]
termination_by p.length

/-- The names that a string splits into contain no separator, and only letters of the string. -/
theorem mem_splitOn {p k : List α} (hk : k ∈ p.splitOn sep) : sep ∉ k ∧ ∀ x ∈ k, x ∈ p := by
  by_cases h : sep ∈ p
  · obtain ⟨a, b, hp, ha⟩ := List.eq_append_cons_of_mem h
    have hlt : b.length < p.length := by
      rw [hp, List.length_append, List.length_cons]
      omega
    subst hp
    rw [List.splitOn_append_cons_self_of_not_mem ha] at hk
    rcases List.mem_cons.mp hk with rfl | hk
    · exact ⟨ha, fun x hx => List.mem_append_left _ hx⟩
    · obtain ⟨h1, h2⟩ := mem_splitOn hk
      exact ⟨h1, fun x hx => List.mem_append_right _ (List.mem_cons_of_mem _ (h2 x hx))⟩
  · rw [List.splitOn_eq_singleton h, List.mem_singleton] at hk
    subst hk
    exact ⟨h, fun _ hx => hx⟩
termination_by p.length

omit [DecidableEq α] in
theorem mem_intercalate {x : α} : ∀ {ks : List (List α)}, x ∈ [sep].intercalate ks →
    x = sep ∨ ∃ k ∈ ks, x ∈ k
  | [], h => by cases h
  | [k], h => by
    rw [List.intercalate_singleton] at h
    exact Or.inr ⟨k, List.mem_cons_self, h⟩
  | k :: k' :: ks, h => by
    rw [List.intercalate_cons_cons, List.append_assoc, List.mem_append, List.mem_append,
      List.mem_singleton] at h
    rcases h with h | h | h
    · exact Or.inr ⟨k, List.mem_cons_self, h⟩
    · exact Or.inl h
    · refine (mem_intercalate h).imp_right ?_
      rintro ⟨j, hj, hx⟩
      exact ⟨j, List.mem_cons_of_mem k hj, hx⟩

end Linux011.Lib
