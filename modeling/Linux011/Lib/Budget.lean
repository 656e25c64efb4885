import Linux011.Lib.Machine

/-!
# Budgets — what a run can cost

A step costs something, and something may be given for it. If a potential of the state pays for every
step, that is, if it goes down by what the step costs and up by no more than what the step is given,
then a run costs no more than the potential at its start and all it was given. That is how a bound on
a number of events, or on a waiting time, follows from one look at a step.
-/

namespace Linux011.Lib

variable {σ ε : Type*}

/-- A state of a run, with what the run has spent and what it was given. -/
structure Account (σ : Type*) where
  state : σ
  spent : Nat
  given : Nat

/-- A step that is booked. -/
def book (step : σ → ε → Option σ) (cost gain : σ → ε → Nat) (a : Account σ) (e : ε) :
    Option (Account σ) :=
  (step a.state e).map fun s => ⟨s, a.spent + cost a.state e, a.given + gain a.state e⟩

variable {step : σ → ε → Option σ} {cost gain : σ → ε → Nat}

/-- The rule of the potential. -/
theorem Reach.budget (guard : σ → ε → Prop) (I : σ → Prop) (potential : σ → Nat) {s : σ} (hI : I s)
    (hpays : ∀ u e u', I u → guard u e → step u e = some u' →
      I u' ∧ potential u' + cost u e ≤ potential u + gain u e) {a : Account σ}
    (h : Reach (book step cost gain) (fun a => guard a.state) (fun a => a = ⟨s, 0, 0⟩) a) :
    I a.state ∧ potential a.state + a.spent ≤ potential s + a.given := by
  refine h.invariant (I := fun a => I a.state ∧ potential a.state + a.spent ≤ potential s + a.given)
    ?_ ?_
  · rintro a rfl
    exact ⟨hI, Nat.le_refl _⟩
  · rintro a e a' ⟨hIa, hle⟩ hg hbook
    obtain ⟨u, hu, rfl⟩ := Option.map_eq_some_iff.mp hbook
    obtain ⟨hIu, hstep⟩ := hpays _ _ _ hIa hg hu
    refine ⟨hIu, ?_⟩
    dsimp only
    omega

end Linux011.Lib
