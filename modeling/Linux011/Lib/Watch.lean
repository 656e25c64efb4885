import Mathlib.Logic.Basic

/-!
# Programs with alarms

A program works on a state, and may stop with an error. At some places it raises an alarm, and the
one who runs it decides which alarms are heard: an alarm that is heard stops the program, one that is
not heard does nothing. The program itself is what runs when none is heard. Where a watch hears
nothing, the run is that of the program, and of every watch that would hear less; `Prog` carries the
proof of it, so that it holds of whatever is composed from the constructions below.

`Triple` has the rules of pre- and postconditions for a watch: nothing is said of a run that stops, or
in which an alarm is heard. A program that does not depend on what is known of the state is described
by the predicates that it keeps, `Keeps`; the kind of the predicates says what steps it may take.
`Returns` has the rules for runs that do return, when nothing is heard.
-/

namespace Linux011.Lib

/-- `run` takes the alarms that are heard. -/
structure Prog (σ ε δ α : Type) where
  run : (δ → Bool) → σ → Except (ε ⊕ δ) (α × σ)
  heard : ∀ {watch s d}, run watch s = .error (.inr d) → watch d = true
  agrees : ∀ {watch watch' : δ → Bool}, (∀ d, watch d = true → watch' d = true) → ∀ s,
    (∃ d, run watch' s = .error (.inr d)) ∨ run watch' s = run watch s

variable {σ ε δ α β ι : Type}

namespace Prog

def pure (a : α) : Prog σ ε δ α where
  run _ s := .ok (a, s)
  heard := nofun
  agrees _ _ := .inr rfl

def bind (x : Prog σ ε δ α) (f : α → Prog σ ε δ β) : Prog σ ε δ β where
  run watch s :=
    match x.run watch s with
    | .ok (a, s) => (f a).run watch s
    | .error e => .error e
  heard {watch s d} h := by
    cases hx : x.run watch s with
    | ok p =>
      rw [hx] at h
      exact (f p.1).heard h
    | error e =>
      rw [hx] at h
      cases h
      exact x.heard hx
  agrees {watch watch'} h s := by
    obtain ⟨d, hx⟩ | hx := x.agrees h s
    · exact .inl ⟨d, by rw [hx]⟩
    · rw [← hx]
      cases x.run watch' s with
      | ok p => exact (f p.1).agrees h p.2
      | error e => exact .inr rfl

instance : Monad (Prog σ ε δ) where
  pure := Prog.pure
  bind := Prog.bind

/-- A part of the state. -/
def read (f : σ → α) : Prog σ ε δ α where
  run _ s := .ok (f s, s)
  heard := nofun
  agrees _ _ := .inr rfl

def modify (f : σ → σ) : Prog σ ε δ Unit where
  run _ s := .ok ((), f s)
  heard := nofun
  agrees _ _ := .inr rfl

def stop (e : ε) : Prog σ ε δ α where
  run _ _ := .error (.inl e)
  heard := nofun
  agrees _ _ := .inr rfl

def alarm (d : δ) : Prog σ ε δ Unit where
  run watch s := if watch d then .error (.inr d) else .ok ((), s)
  heard {watch s e} h := by
    split at h
    · next hd =>
      cases h
      exact hd
    · cases h
  agrees {watch watch'} h s := by
    cases hd' : watch' d with
    | true => exact .inl ⟨d, rfl⟩
    | false =>
      cases hd : watch d with
      | true => exact absurd (h d hd) (by rw [hd']; exact Bool.false_ne_true)
      | false => exact .inr rfl

def when (c : Prop) [Decidable c] (x : Prog σ ε δ Unit) : Prog σ ε δ Unit :=
  if c then x else pure ()

/-- A loop over a table. -/
def forEach (f : ι → Prog σ ε δ Unit) : List ι → Prog σ ε δ Unit
  | [] => pure ()
  | i :: is => f i >>= fun _ => forEach f is

/-- The run when nothing is heard. -/
def exec (x : Prog σ ε δ α) (s : σ) : Except (ε ⊕ δ) (α × σ) := x.run (fun _ => false) s

/-- No alarm is heard. -/
def Quiet (x : Prog σ ε δ α) (watch : δ → Bool) (s : σ) : Prop := ∀ d, x.run watch s ≠ .error (.inr d)

theorem quiet_pure (a : α) (watch : δ → Bool) (s : σ) : (Pure.pure a : Prog σ ε δ α).Quiet watch s :=
  nofun

theorem Quiet.run_eq {x : Prog σ ε δ α} {watch : δ → Bool} {s : σ} (h : x.Quiet watch s) :
    x.run watch s = x.exec s := by
  have hle : ∀ d : δ, (fun _ => false) d = true → watch d = true := fun _ hd => by cases hd
  exact (x.agrees hle s).resolve_left fun ⟨d, hd⟩ => h d hd

/-- Who hears less hears nothing either. -/
theorem Quiet.mono {x : Prog σ ε δ α} {watch watch' : δ → Bool} {s : σ} (h : x.Quiet watch' s)
    (hle : ∀ d, watch d = true → watch' d = true) : x.Quiet watch s := by
  have heq := (x.agrees hle s).resolve_left fun ⟨d, hd⟩ => h d hd
  exact fun d hd => h d (heq.trans hd)

theorem exec_bind (x : Prog σ ε δ α) (f : α → Prog σ ε δ β) (s : σ) :
    (x >>= f).exec s = match x.exec s with
      | .ok (a, s') => (f a).exec s'
      | .error e => .error e := rfl

/-- The run of a sequence goes on where its first part has ended. -/
theorem run_then {x : Prog σ ε δ α} {f : α → Prog σ ε δ β} {watch : δ → Bool} {s t : σ} {a : α}
    (h : x.run watch s = .ok (a, t)) : (x >>= f).run watch s = (f a).run watch t := by
  have hrun : (x >>= f).run watch s = match x.run watch s with
      | .ok (a, s') => (f a).run watch s'
      | .error e => .error e := rfl
  rw [hrun, h]

/-- A run that returns has not been stopped by an alarm. -/
theorem quiet_of_ok {x : Prog σ ε δ α} {watch : δ → Bool} {s : σ} {r : α × σ}
    (h : x.run watch s = .ok r) : x.Quiet watch s := by
  intro d hd
  rw [h] at hd
  cases hd

/-- A sequence is quiet if its first part is, and then its second. -/
theorem quiet_bind {x : Prog σ ε δ α} {f : α → Prog σ ε δ β} {watch : δ → Bool} {s : σ} :
    (x >>= f).Quiet watch s ↔
      x.Quiet watch s ∧ ∀ a s', x.exec s = .ok (a, s') → (f a).Quiet watch s' := by
  have hrun : (x >>= f).run watch s = match x.run watch s with
      | .ok (a, s') => (f a).run watch s'
      | .error e => .error e := rfl
  constructor
  · intro h
    have hx : x.Quiet watch s := by
      intro d hd
      rw [hd] at hrun
      exact h d hrun
    refine ⟨hx, fun a s' hs' d hd => ?_⟩
    rw [hx.run_eq, hs'] at hrun
    exact h d (hrun.trans hd)
  · rintro ⟨hx, hf⟩ d hd
    rw [hx.run_eq] at hrun
    cases hs' : x.exec s with
    | ok p =>
      rw [hs'] at hrun
      exact hf p.1 p.2 hs' d (hrun.symm.trans hd)
    | error e =>
      rw [hs'] at hrun
      have he : e = .inr d := Except.error.inj (hrun.symm.trans hd)
      exact hx d (by rw [hx.run_eq, hs', he])

instance (x : Prog σ ε δ α) (watch : δ → Bool) (s : σ) : Decidable (x.Quiet watch s) :=
  match h : x.run watch s with
  | .ok _ => .isTrue fun d hd => by rw [h] at hd; cases hd
  | .error (.inl _) => .isTrue fun d hd => by rw [h] at hd; cases hd
  | .error (.inr d) => .isFalse fun hq => hq d h

end Prog

/-! ## Pre- and postconditions -/

/-- A run from a state with `P` that returns ends in one with `Q`. -/
structure Triple (watch : δ → Bool) (P : σ → Prop) (x : Prog σ ε δ α) (Q : α → σ → Prop) : Prop where
  ends : ∀ {s a s'}, P s → x.run watch s = .ok (a, s') → Q a s'

namespace Triple

variable {watch : δ → Bool} {P P' : σ → Prop} {Q Q' : α → σ → Prop} {R : β → σ → Prop}
  {x y : Prog σ ε δ α} {f : α → Prog σ ε δ β}

theorem pure {a : α} (h : ∀ s, P s → Q a s) :
    Triple watch P (Pure.pure a : Prog σ ε δ α) Q := by
  refine ⟨fun {s b s'} hs hr => ?_⟩
  cases hr
  exact h s hs

theorem bind (hx : Triple watch P x Q) (hf : ∀ a, Triple watch (Q a) (f a) R) :
    Triple watch P (x >>= f) R := by
  refine ⟨fun {s b s'} hs hr => ?_⟩
  have hrun : (x >>= f).run watch s = match x.run watch s with
      | .ok (a, s') => (f a).run watch s'
      | .error e => .error e := rfl
  rw [hrun] at hr
  cases hq : x.run watch s with
  | ok p =>
    rw [hq] at hr
    exact (hf p.1).ends (hx.ends hs hq) hr
  | error e =>
    rw [hq] at hr
    cases hr

theorem mono (hx : Triple watch P' x Q') (hP : ∀ s, P s → P' s) (hQ : ∀ a s, Q' a s → Q a s) :
    Triple watch P x Q :=
  ⟨fun hs hr => hQ _ _ (hx.ends (hP _ hs) hr)⟩

theorem pre (hx : Triple watch P' x Q) (hP : ∀ s, P s → P' s) : Triple watch P x Q :=
  hx.mono hP fun _ _ h => h

theorem post (hx : Triple watch P x Q') (hQ : ∀ a s, Q' a s → Q a s) : Triple watch P x Q :=
  hx.mono (fun _ h => h) hQ

/-- A fact of the precondition that does not depend on the state. -/
theorem fact {p : Prop} (h : p → Triple watch P x Q) : Triple watch (fun s => p ∧ P s) x Q :=
  ⟨fun hs hr => (h hs.1).ends hs.2 hr⟩

/-- What is to be shown for every instance of a precondition. -/
theorem each {P : ι → σ → Prop} (h : ∀ i, Triple watch (P i) x Q) :
    Triple watch (fun s => ∃ i, P i s) x Q :=
  ⟨fun ⟨i, hs⟩ hr => (h i).ends hs hr⟩

theorem read {g : σ → α} : Triple watch P (Prog.read g : Prog σ ε δ α) fun a s => g s = a ∧ P s := by
  refine ⟨fun hs hr => ?_⟩
  cases hr
  exact ⟨rfl, hs⟩

theorem modify {g : σ → σ} {Q : Unit → σ → Prop} (h : ∀ s, P s → Q () (g s)) :
    Triple watch P (Prog.modify g : Prog σ ε δ Unit) Q := by
  refine ⟨fun {s a s'} hs hr => ?_⟩
  cases hr
  exact h s hs

theorem stop {e : ε} : Triple watch P (Prog.stop e : Prog σ ε δ α) Q := ⟨fun _ hr => nomatch hr⟩

/-- Behind an alarm that is heard, there is no run. -/
theorem alarm {d : δ} (h : watch d = true) {Q : Unit → σ → Prop} :
    Triple watch P (Prog.alarm d : Prog σ ε δ Unit) Q := by
  refine ⟨fun {s a s'} hs hr => ?_⟩
  have hrun : (Prog.alarm d : Prog σ ε δ Unit).run watch s =
      if watch d then .error (.inr d) else .ok ((), s) := rfl
  rw [hrun, if_pos h] at hr
  cases hr

theorem ite {c : Prop} [Decidable c] (hx : c → Triple watch P x Q)
    (hy : ¬ c → Triple watch P y Q) : Triple watch P (if c then x else y) Q := by
  split
  · next h => exact hx h
  · next h => exact hy h

theorem when {c : Prop} [Decidable c] {x : Prog σ ε δ Unit} {Q : Unit → σ → Prop}
    (hx : c → Triple watch P x Q) (h : ¬ c → ∀ s, P s → Q () s) :
    Triple watch P (Prog.when c x) Q :=
  ite hx fun hc => pure (h hc)

/-- A loop, by an invariant. -/
theorem forEach {g : ι → Prog σ ε δ Unit} {is : List ι}
    (h : ∀ i ∈ is, Triple watch P (g i) fun _ => P) :
    Triple watch P (Prog.forEach g is) fun _ => P := by
  induction is with
  | nil => exact pure fun _ hs => hs
  | cons i is ih =>
    exact bind (h i (List.mem_cons_self ..)) fun _ => ih fun j hj => h j (List.mem_cons_of_mem _ hj)

end Triple

/-! ## Programs that return -/

/-- When nothing is heard the program returns, and then `Q` holds. -/
def Returns (x : Prog σ ε δ α) (s : σ) (Q : α → σ → Prop) : Prop :=
  ∃ a s', x.exec s = .ok (a, s') ∧ Q a s'

namespace Returns

variable {s : σ} {Q Q' : α → σ → Prop} {R : β → σ → Prop} {x y : Prog σ ε δ α}
  {f : α → Prog σ ε δ β}

theorem mono (h : Returns x s Q') (hQ : ∀ a s', Q' a s' → Q a s') : Returns x s Q :=
  let ⟨a, s', hx, h⟩ := h
  ⟨a, s', hx, hQ a s' h⟩

theorem and (h : Returns x s Q) (h' : Returns x s Q') :
    Returns x s fun a s' => Q a s' ∧ Q' a s' := by
  obtain ⟨a, s₁, hx, hQ⟩ := h
  obtain ⟨b, s₂, hx', hQ'⟩ := h'
  rw [hx] at hx'
  cases hx'
  exact ⟨a, s₁, hx, hQ, hQ'⟩

@[simp] theorem pure_iff {a : α} : Returns (Pure.pure a : Prog σ ε δ α) s Q ↔ Q a s := by
  constructor
  · rintro ⟨b, s', hx, h⟩
    cases hx
    exact h
  · exact fun h => ⟨a, s, rfl, h⟩

@[simp] theorem bind_iff :
    Returns (x >>= f) s R ↔ Returns x s fun a s' => Returns (f a) s' R := by
  constructor
  · rintro ⟨b, s', hx, h⟩
    rw [Prog.exec_bind] at hx
    cases hq : x.exec s with
    | ok p =>
      rw [hq] at hx
      exact ⟨p.1, p.2, hq, b, s', hx, h⟩
    | error e =>
      rw [hq] at hx
      cases hx
  · rintro ⟨a, s₁, hx, b, s', hf, h⟩
    refine ⟨b, s', ?_, h⟩
    rw [Prog.exec_bind, hx]
    exact hf

theorem bind (h : Returns x s Q) (hf : ∀ a s', Q a s' → Returns (f a) s' R) :
    Returns (x >>= f) s R :=
  bind_iff.mpr (h.mono hf)

@[simp] theorem read_iff {g : σ → α} : Returns (Prog.read g : Prog σ ε δ α) s Q ↔ Q (g s) s := by
  constructor
  · rintro ⟨b, s', hx, h⟩
    cases hx
    exact h
  · exact fun h => ⟨_, s, rfl, h⟩

@[simp] theorem modify_iff {g : σ → σ} {Q : Unit → σ → Prop} :
    Returns (Prog.modify g : Prog σ ε δ Unit) s Q ↔ Q () (g s) := by
  constructor
  · rintro ⟨b, s', hx, h⟩
    cases hx
    exact h
  · exact fun h => ⟨_, _, rfl, h⟩

@[simp] theorem stop_iff {e : ε} : Returns (Prog.stop e : Prog σ ε δ α) s Q ↔ False :=
  iff_false_intro fun ⟨_, _, hx, _⟩ => by cases hx

@[simp] theorem alarm_iff {d : δ} {Q : Unit → σ → Prop} :
    Returns (Prog.alarm d : Prog σ ε δ Unit) s Q ↔ Q () s := by
  constructor
  · rintro ⟨b, s', hx, h⟩
    cases hx
    exact h
  · exact fun h => ⟨_, _, rfl, h⟩

theorem ite {c : Prop} [Decidable c] (hx : c → Returns x s Q) (hy : ¬ c → Returns y s Q) :
    Returns (if c then x else y) s Q := by
  split
  · next h => exact hx h
  · next h => exact hy h

theorem when {c : Prop} [Decidable c] {x : Prog σ ε δ Unit} {Q : Unit → σ → Prop}
    (hx : c → Returns x s Q) (h : ¬ c → Q () s) : Returns (Prog.when c x) s Q :=
  ite hx fun hc => pure_iff.mpr (h hc)

/-- An alarm that nobody hears. -/
theorem when_alarm_iff {c : Prop} [Decidable c] {d : δ} {Q : Unit → σ → Prop} :
    Returns (Prog.when c (Prog.alarm d) : Prog σ ε δ Unit) s Q ↔ Q () s := by
  unfold Prog.when
  split
  · exact alarm_iff
  · exact pure_iff

/-- A loop, by an invariant. -/
theorem forEach {g : ι → Prog σ ε δ Unit} {I : σ → Prop} {is : List ι}
    (h : ∀ i ∈ is, ∀ s, I s → Returns (g i) s fun _ => I) (hs : I s) :
    Returns (Prog.forEach g is) s fun _ => I := by
  induction is generalizing s with
  | nil => exact pure_iff.mpr hs
  | cons i is ih =>
    exact (h i (List.mem_cons_self ..) s hs).bind fun _ _ hs' =>
      ih (fun j hj => h j (List.mem_cons_of_mem _ hj)) hs'

end Returns

/-! ## Predicates that a program keeps -/

/-- The program keeps all predicates of a kind. -/
structure Keeps (watch : δ → Bool) (K : (σ → Prop) → Prop) (x : Prog σ ε δ α) : Prop where
  keeps : ∀ {P}, K P → Triple watch P x fun _ => P

namespace Keeps

variable {watch : δ → Bool} {K K' : (σ → Prop) → Prop} {x y : Prog σ ε δ α} {f : α → Prog σ ε δ β}

theorem pure {a : α} : Keeps watch K (Pure.pure a : Prog σ ε δ α) := ⟨fun _ => .pure fun _ h => h⟩

theorem bind (hx : Keeps watch K x) (hf : ∀ a, Keeps watch K (f a)) : Keeps watch K (x >>= f) :=
  ⟨fun hP => (hx.keeps hP).bind fun a => (hf a).keeps hP⟩

theorem mono (hx : Keeps watch K x) (h : ∀ P, K' P → K P) : Keeps watch K' x :=
  ⟨fun hP => hx.keeps (h _ hP)⟩

theorem read {g : σ → α} : Keeps watch K (Prog.read g : Prog σ ε δ α) :=
  ⟨fun _ => Triple.read.post fun _ _ h => h.2⟩

theorem modify {g : σ → σ} (h : ∀ P, K P → ∀ s, P s → P (g s)) :
    Keeps watch K (Prog.modify g : Prog σ ε δ Unit) :=
  ⟨fun hP => .modify (h _ hP)⟩

theorem stop {e : ε} : Keeps watch K (Prog.stop e : Prog σ ε δ α) := ⟨fun _ => .stop⟩

theorem alarm {d : δ} : Keeps watch K (Prog.alarm d : Prog σ ε δ Unit) := by
  refine ⟨fun {P} hP => ⟨fun {s a s'} hs hr => ?_⟩⟩
  have hrun : (Prog.alarm d : Prog σ ε δ Unit).run watch s =
      if watch d then .error (.inr d) else .ok ((), s) := rfl
  rw [hrun] at hr
  split at hr
  · cases hr
  · cases hr
    exact hs

theorem ite {c : Prop} [Decidable c] (hx : c → Keeps watch K x) (hy : ¬ c → Keeps watch K y) :
    Keeps watch K (if c then x else y) := by
  split
  · next h => exact hx h
  · next h => exact hy h

theorem when {c : Prop} [Decidable c] {x : Prog σ ε δ Unit} (hx : c → Keeps watch K x) :
    Keeps watch K (Prog.when c x) :=
  ite hx fun _ => pure

theorem forEach {g : ι → Prog σ ε δ Unit} (h : ∀ i, Keeps watch K (g i)) (is : List ι) :
    Keeps watch K (Prog.forEach g is) := by
  induction is with
  | nil => exact pure
  | cons i is ih => exact bind (h i) fun _ => ih

end Keeps

end Linux011.Lib
