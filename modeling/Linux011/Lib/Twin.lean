import Mathlib.Logic.Basic

/-!
# A program and its watched twin

A program that can fail, and the same program with a watch: where the watched one sees that things are
about to go wrong it stops with `flag`. Of the errors some are ENDS (`ends`), the others are ways to get
stuck. Two runs are TWINS when the watched one never gets stuck, and the plain one does the same, but
gets stuck where the watched one stops with the flag. So the plain program comes to an end exactly when
the watch sees nothing (`Twin.ends_iff`).
-/

namespace Linux011.Lib

variable {E α β σ ι : Type*} {flag : E} {ends : E → Prop} {Q R : α → Prop} {S : β → Prop}

/-- The run gets stuck. -/
def Stuck (ends : E → Prop) (x : Except E α) : Prop := ∃ e, x = .error e ∧ ¬ ends e

theorem Stuck.bind {x : Except E α} {f : α → Except E β} (h : Stuck ends x) : Stuck ends (x.bind f) := by
  obtain ⟨e, rfl, he⟩ := h
  exact ⟨e, rfl, he⟩

theorem Stuck.map {x : Except E α} {f : α → β} (h : Stuck ends x) : Stuck ends (x.map f) := by
  obtain ⟨e, rfl, he⟩ := h
  exact ⟨e, rfl, he⟩

/-- The run gets stuck, or it goes on with a result of which `Q` holds. -/
def StuckOr (ends : E → Prop) (Q : α → Prop) (x : Except E α) : Prop :=
  Stuck ends x ∨ ∃ a, x = .ok a ∧ Q a

theorem StuckOr.stuck {x : Except E α} {f : α → Except E β} (h : StuckOr ends Q x)
    (hf : ∀ a, Q a → Stuck ends (f a)) : Stuck ends (x.bind f) := by
  obtain h | ⟨a, rfl, ha⟩ := h
  · exact h.bind
  · exact hf a ha

/-- The watched run `w` and the plain run `u`. -/
def Twin (flag : E) (ends : E → Prop) (Q : α → Prop) (w u : Except E α) : Prop :=
  (∃ a, w = .ok a ∧ u = .ok a ∧ Q a) ∨ (∃ e, w = .error e ∧ u = .error e ∧ e ≠ flag ∧ ends e) ∨
    (w = .error flag ∧ Stuck ends u)

namespace Twin

variable {w u : Except E α} {f g : α → Except E β}

theorem ok {a : α} (h : Q a) : Twin flag ends Q (.ok a) (.ok a) := .inl ⟨a, rfl, rfl, h⟩

theorem error {e : E} (hf : e ≠ flag) (he : ends e) : Twin flag ends Q (.error e) (.error e) :=
  .inr (.inl ⟨e, rfl, rfl, hf, he⟩)

theorem flagged (h : Stuck ends u) : Twin flag ends Q (.error flag) u := .inr (.inr ⟨rfl, h⟩)

theorem mono (h : Twin flag ends Q w u) (hQ : ∀ a, Q a → R a) : Twin flag ends R w u := by
  obtain ⟨a, rfl, rfl, ha⟩ | h := h
  · exact ok (hQ a ha)
  · exact .inr h

theorem bind (h : Twin flag ends Q w u) (hf : ∀ a, Q a → Twin flag ends S (f a) (g a)) :
    Twin flag ends S (w.bind f) (u.bind g) := by
  obtain ⟨a, rfl, rfl, ha⟩ | ⟨e, rfl, rfl, hn, he⟩ | ⟨rfl, hs⟩ := h
  · exact hf a ha
  · exact error hn he
  · exact flagged hs.bind

theorem map {f : α → β} (h : Twin flag ends Q w u) (hf : ∀ a, Q a → S (f a)) :
    Twin flag ends S (w.map f) (u.map f) := by
  obtain ⟨a, rfl, rfl, ha⟩ | ⟨e, rfl, rfl, hn, he⟩ | ⟨rfl, hs⟩ := h
  · exact ok (hf a ha)
  · exact error hn he
  · exact flagged hs.map

/-- The plain run returns or ends. -/
def Ends (ends : E → Prop) (x : Except E α) : Prop := ∀ e, x = .error e → ends e

/-- The plain run comes to an end exactly when the watch sees nothing. -/
theorem ends_iff (h : Twin flag ends Q w u) : Ends ends u ↔ w ≠ .error flag := by
  obtain ⟨a, rfl, rfl, -⟩ | ⟨e, rfl, rfl, hn, he⟩ | ⟨rfl, e, rfl, he⟩ := h
  · exact ⟨fun _ => nofun, fun _ => nofun⟩
  · refine ⟨fun _ hw => hn (Except.error.inj hw), fun _ e' he' => ?_⟩
    cases he'
    exact he
  · exact ⟨fun hu => absurd (hu e rfl) he, fun hw => absurd rfl hw⟩

end Twin

/-! ## Loops over a list -/

/-- A loop over a table. -/
def forEach (f : ι → σ → Except E σ) : List ι → σ → Except E σ
  | [], s => .ok s
  | i :: is, s => (f i s).bind (forEach f is)

/-- A loop that changes nothing. -/
theorem forEach_fixed {f : ι → σ → Except E σ} {is : List ι} {s : σ} (h : ∀ i ∈ is, f i s = .ok s) :
    forEach f is s = .ok s := by
  induction is with
  | nil => rfl
  | cons i is ih =>
    rw [forEach, h i List.mem_cons_self]
    exact ih fun j hj => h j (List.mem_cons_of_mem _ hj)

theorem Twin.loop {I : σ → Prop} {f g : ι → σ → Except E σ} {is : List ι}
    (h : ∀ i ∈ is, ∀ s, I s → Twin flag ends I (f i s) (g i s)) :
    ∀ {s : σ}, I s → Twin flag ends I (forEach f is s) (forEach g is s) := by
  induction is with
  | nil => exact fun hs => .ok hs
  | cons i is ih =>
    intro s hs
    exact (h i List.mem_cons_self s hs).bind fun a ha =>
      ih (fun j hj => h j (List.mem_cons_of_mem _ hj)) ha

/-- A loop with what holds at each entry. -/
theorem Twin.loop_range {P : Nat → σ → Prop} {f g : Nat → σ → Except E σ} {n : Nat}
    (h : ∀ i < n, ∀ s, P i s → Twin flag ends (P (i + 1)) (f i s) (g i s)) {s : σ} (h0 : P 0 s) :
    Twin flag ends (P n) (forEach f (List.range n) s) (forEach g (List.range n) s) := by
  have hgen (m k : Nat) (hk : k + m = n) : ∀ s, P k s →
      Twin flag ends (P n) (forEach f (List.range' k m) s) (forEach g (List.range' k m) s) := by
    induction m generalizing k with
    | zero =>
      intro s hs
      rw [Nat.add_zero] at hk
      exact .ok (hk ▸ hs)
    | succ m ih =>
      intro s hs
      exact (h k (by omega) s hs).bind fun a ha => ih (k + 1) (by omega) a ha
  rw [List.range_eq_range']
  exact hgen n 0 (Nat.zero_add n) s h0

/-- The loop gets stuck at some entry. -/
theorem Stuck.loop {I : σ → Prop} {f : ι → σ → Except E σ} {is : List ι} {j : ι} (hj : j ∈ is)
    (h : ∀ i ∈ is, ∀ s, I s → StuckOr ends I (f i s)) (hstuck : ∀ s, I s → Stuck ends (f j s)) :
    ∀ {s : σ}, I s → Stuck ends (forEach f is s) := by
  induction is with
  | nil => cases hj
  | cons i is ih =>
    intro s hs
    obtain rfl | hj := List.mem_cons.mp hj
    · exact (hstuck s hs).bind
    · exact (h i List.mem_cons_self s hs).stuck fun a ha =>
        ih hj (fun k hk => h k (List.mem_cons_of_mem _ hk)) ha

end Linux011.Lib
