import Mathlib.Algebra.BigOperators.Group.List.Basic
import Mathlib.Algebra.Order.BigOperators.Group.List
import Mathlib.Algebra.Ring.Int.Defs

/-!
# Delta lists

A list of events in the order they are due, each with the time that passes between the one before it
and itself. The time an event is due is a PREFIX SUM of the list.

`place` moves a new event behind those that are due before it, and subtracts their deltas from its
own on the way. It leaves the delta of the next event alone, so the list stays right exactly when
there is none.
-/

namespace Linux011.Lib.Delta

variable {β : Type*} {due : β → Int} {t n : Int} {b : β} {l : List (Int × β)}

/-- From time `t` on, every event is due when the deltas say. -/
def Timed (due : β → Int) : Int → List (Int × β) → Prop
  | _, [] => True
  | t, (m, b) :: l => due b = t + m ∧ Timed due (t + m) l

/-- The time until the last event. -/
def total (l : List (Int × β)) : Int := (l.map Prod.fst).sum

/-- No event is due before the one before it. -/
def Forward (l : List (Int × β)) : Prop := ∀ e ∈ l, 0 ≤ e.1

/-- A new event is moved behind those that are due before it. -/
def place : Int → β → List (Int × β) → List (Int × β)
  | n, b, [] => [(n, b)]
  | n, b, (m, c) :: l => if m < n then (m, c) :: place (n - m) b l else (n, b) :: (m, c) :: l

@[simp] theorem total_nil : total ([] : List (Int × β)) = 0 := rfl

@[simp] theorem total_cons (m : Int) (b : β) (l : List (Int × β)) :
    total ((m, b) :: l) = m + total l := List.sum_cons

theorem Forward.tail {e : Int × β} (h : Forward (e :: l)) : Forward l :=
  fun x hx => h x (List.mem_cons_of_mem e hx)

theorem Forward.total_nonneg (h : Forward l) : 0 ≤ total l := by
  refine List.sum_nonneg fun m hm => ?_
  obtain ⟨e, he, rfl⟩ := List.mem_map.mp hm
  exact h e he

/-- Each event is due at its prefix sum. -/
theorem timed_iff : Timed due t l ↔ ∀ before m b after, l = before ++ (m, b) :: after →
    due b = t + total before + m := by
  induction l generalizing t with
  | nil =>
    refine ⟨fun _ before m b after h => ?_, fun _ => trivial⟩
    cases before <;> cases h
  | cons e l ih =>
    obtain ⟨m, b⟩ := e
    rw [Timed, ih]
    constructor
    · rintro ⟨hb, hl⟩ before m' b' after h
      cases before with
      | nil =>
        cases h
        rw [total_nil, add_zero]
        exact hb
      | cons e before =>
        cases h
        rw [total_cons, ← add_assoc]
        exact hl before m' b' after rfl
    · intro h
      refine ⟨?_, fun before m' b' after hl => ?_⟩
      · have := h [] m b l rfl
        rwa [total_nil, add_zero] at this
      · have := h ((m, b) :: before) m' b' after (by rw [hl]; rfl)
        rwa [total_cons, ← add_assoc] at this

/-- Time passes: the first delta gets smaller. -/
theorem Timed.tick {m : Int} (h : Timed due t ((m, b) :: l)) :
    Timed due (t + 1) ((m - 1, b) :: l) := by
  have hsum : t + 1 + (m - 1) = t + m := by omega
  rw [Timed, hsum]
  exact h

/-- An event that is due can be taken off. -/
theorem Timed.pop (h : Timed due t ((0, b) :: l)) : due b = t ∧ Timed due t l := by
  rw [Timed, add_zero] at h
  exact h

/-- No event is due before the list begins. -/
theorem Timed.le (h : Timed due t l) (hl : Forward l) : ∀ e ∈ l, t ≤ due e.2 := by
  induction l generalizing t with
  | nil => exact fun e he => nomatch he
  | cons e l ih =>
    obtain ⟨m, c⟩ := e
    obtain ⟨hc, htail⟩ := h
    have hm : 0 ≤ m := hl (m, c) List.mem_cons_self
    intro e he
    rcases List.mem_cons.mp he with rfl | he
    · dsimp only
      omega
    · have := ih htail hl.tail e he
      omega

/-- Where the first delta is positive, every event is due later. -/
theorem Timed.ahead (h : Timed due t l) (hl : Forward l) (hhead : ∀ e ∈ l.head?, 0 < e.1) :
    ∀ e ∈ l, t < due e.2 := by
  cases l with
  | nil => exact fun e he => nomatch he
  | cons e l =>
    obtain ⟨m, c⟩ := e
    obtain ⟨hc, htail⟩ := h
    have hm : 0 < m := hhead (m, c) rfl
    intro e he
    rcases List.mem_cons.mp he with rfl | he
    · dsimp only
      omega
    · have := htail.le hl.tail e he
      omega

theorem place_forward (h : Forward l) (hn : 0 < n) : Forward (place n b l) := by
  induction l generalizing n with
  | nil =>
    intro e he
    rw [List.mem_singleton.mp he]
    exact hn.le
  | cons e l ih =>
    obtain ⟨m, c⟩ := e
    have hm : 0 ≤ m := h (m, c) List.mem_cons_self
    rw [place]
    split
    · next hlt =>
      intro e he
      rcases List.mem_cons.mp he with rfl | he
      · exact hm
      · exact ih h.tail (by omega) e he
    · intro e he
      rcases List.mem_cons.mp he with rfl | he
      · exact hn.le
      · exact h e he

theorem place_perm (n : Int) (b : β) (l : List (Int × β)) :
    ((place n b l).map Prod.snd).Perm (b :: l.map Prod.snd) := by
  induction l generalizing n with
  | nil => exact .refl _
  | cons e l ih =>
    obtain ⟨m, c⟩ := e
    rw [place]
    split
    · exact ((ih (n - m)).cons c).trans (.swap b c _)
    · exact .refl _

/-- The first delta is positive if it was, and the new one is. -/
theorem place_head (hn : 0 < n) (h : ∀ e ∈ l.head?, 0 < e.1) : ∀ e ∈ (place n b l).head?, 0 < e.1 := by
  cases l with
  | nil =>
    rintro e he
    cases he
    exact hn
  | cons e l =>
    rw [place]
    split
    · exact h
    · rintro e he
      cases he
      exact hn

/-- A new event is in the right place, and every other one still is, if and only if the new one is
the last to be due. -/
theorem place_timed_iff (h : Timed due t l) (hl : Forward l) (hb : due b = t + n) (hn : 0 < n) :
    Timed due t (place n b l) ↔ total l < n := by
  induction l generalizing t n with
  | nil => exact iff_of_true ⟨hb, trivial⟩ hn
  | cons e l ih =>
    obtain ⟨m, c⟩ := e
    obtain ⟨hc, htail⟩ := h
    rw [place, total_cons]
    split
    · next hlt =>
      rw [Timed, ih htail hl.tail (by omega) (by omega), and_iff_right hc]
      omega
    · next hge =>
      have hnonneg := hl.tail.total_nonneg
      refine iff_of_false ?_ (by omega)
      rintro ⟨-, hlate, -⟩
      -- the next event would be due twice, `n` ticks apart
      omega

end Linux011.Lib.Delta
