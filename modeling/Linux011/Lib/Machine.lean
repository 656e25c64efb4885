import Mathlib.Logic.Basic

/-!
# Machines — runs of a partial step function

Every transition system of this development is one partial function: a state and an event give
the next state, or nothing when the event is not possible there. A RUN is a list of events, so a
concrete run is a closed term that evaluates; a REACHABLE state is what some run reaches.

`Reach` carries a guard on the steps. The unguarded machine has the guard `fun _ _ => True`; a
result that holds only while some step is never taken names that step in the guard, and nothing
else about the machine changes. The two rules below are the only way the rest of the development
argues about whole runs: an invariant of the initial states that every admitted step keeps, and a
closed run as a witness of reachability.
-/

namespace Linux011.Lib

variable {σ ε : Type*}

/-- Follow a list of events; `none` as soon as one of them is not possible. -/
def run (step : σ → ε → Option σ) : σ → List ε → Option σ
  | s, [] => some s
  | s, e :: es => (step s e).bind fun s' => run step s' es

/-- An event with a condition is possible only if the condition holds. -/
theorem of_guard {p : Prop} [Decidable p] {s s' : σ} (h : (if p then some s else none) = some s') :
    p ∧ s = s' :=
  let ⟨hp, hs⟩ := Option.ite_none_right_eq_some.mp h
  ⟨hp, Option.some.inj hs⟩

/-- The states that runs from `init` reach when every step meets the guard. -/
inductive Reach (step : σ → ε → Option σ) (guard : σ → ε → Prop) (init : σ → Prop) : σ → Prop
  | start {s : σ} : init s → Reach step guard init s
  | next {s s' : σ} (e : ε) : Reach step guard init s → guard s e → step s e = some s' →
      Reach step guard init s'

variable {step : σ → ε → Option σ} {guard : σ → ε → Prop} {init : σ → Prop}

/-- The invariant rule: what holds initially and is kept by every admitted step holds of every
reachable state. -/
theorem Reach.invariant {I : σ → Prop} (h0 : ∀ s, init s → I s)
    (hs : ∀ s e s', I s → guard s e → step s e = some s' → I s') {s : σ}
    (h : Reach step guard init s) : I s := by
  induction h with
  | start hi => exact h0 _ hi
  | next e _ hg hstep ih => exact hs _ e _ ih hg hstep

/-- A stronger guard reaches fewer states. -/
theorem Reach.mono {guard' : σ → ε → Prop} (hg : ∀ s e, guard s e → guard' s e) {s : σ}
    (h : Reach step guard init s) : Reach step guard' init s := by
  induction h with
  | start hi => exact .start hi
  | next e _ he hstep ih => exact .next e ih (hg _ e he) hstep

/-- A run whose steps are all unguarded is a witness of reachability. -/
theorem Reach.ofRun {s s' : σ} (hg : ∀ s e, guard s e) (h : Reach step guard init s) :
    ∀ {es : List ε}, run step s es = some s' → Reach step guard init s' := by
  intro es
  induction es generalizing s with
  | nil =>
    intro hr
    cases hr
    exact h
  | cons e es ih =>
    intro hr
    obtain ⟨u, hu, hr⟩ := Option.bind_eq_some_iff.mp hr
    exact ih (.next e h (hg s e) hu) hr

/-- A closed run every step of which passes a check that implies the guard. -/
theorem Reach.ofChecked {check : σ → ε → σ → Bool}
    (hg : ∀ s e s', step s e = some s' → check s e s' = true → guard s e) {s s' : σ}
    (h : Reach step guard init s) : ∀ {es : List ε},
    run (fun s e => (step s e).filter (check s e)) s es = some s' → Reach step guard init s' := by
  intro es
  induction es generalizing s with
  | nil =>
    intro hr
    cases hr
    exact h
  | cons e es ih =>
    intro hr
    obtain ⟨u, hu, hr⟩ := Option.bind_eq_some_iff.mp hr
    obtain ⟨hu, hc⟩ := Option.filter_eq_some_iff.mp hu
    exact ih (.next e h (hg s e u hu hc) hu) hr

end Linux011.Lib
