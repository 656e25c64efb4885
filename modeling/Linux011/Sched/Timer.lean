import Mathlib.Data.Fintype.Card
import Mathlib.Data.Nat.Cast.Basic
import Linux011.Lib.Delta
import Linux011.Lib.Machine

/-!
# Kernel timers (`add_timer` and `do_timer`)

`timer_list` is a table of 64 entries, and `next_timer` the head of a list through those in use. The
list is a delta list: `do_timer` counts its first entry down and calls what is due.

A tick is two kinds of events: the clock, which counts down, and the rounds of the loop that follow.
Between two rounds the function just called may add timers, as a task may between two ticks.

`add_timer` does not adjust the entry behind the new one. A timer that is not the last to be due makes
those behind it late.
-/

namespace Linux011.Timer

open Lib.Delta (Timed total Forward place)

/-! ## The table -/

/-- A function to call, with the history of its timer: the number of the call that has added it, and
the tick it is due. -/
structure Fn (α : Type*) where
  routine : α
  id : Nat
  due : Int

/-- `struct timer_list`. -/
structure Entry (α : Type*) where
  jiffies : Int
  fn : Option (Fn α)
  next : Option (Fin 64)

structure State (α : Type*) where
  /-- `timer_list`. -/
  timer : Fin 64 → Entry α
  /-- `next_timer`. -/
  next : Option (Fin 64)
  /-- The ticks so far. -/
  now : Nat
  /-- `do_timer` is in its loop. -/
  expiring : Bool
  /-- How many timers have been added. -/
  added : Nat
  /-- The functions called, with the tick. -/
  fired : List (Fn α × Nat)

variable {α : Type*}

/-- The loop of `add_timer` from entry `p` on; `n` bounds the rounds. -/
def bubble : Nat → (Fin 64 → Entry α) → Fin 64 → Fin 64 → Entry α
  | 0, timer, _ => timer
  | n + 1, timer, p =>
    match (timer p).next with
    | none => timer
    | some q =>
      if (timer q).jiffies < (timer p).jiffies then
        let rest := (timer p).jiffies - (timer q).jiffies
        let front := Function.update timer p
          { timer p with jiffies := (timer q).jiffies, fn := (timer q).fn }
        bubble n (Function.update front q { timer q with jiffies := rest, fn := (timer p).fn }) q
      else timer

/-- The first entry without a function. -/
def State.free (s : State α) : Option (Fin 64) :=
  (List.finRange 64).find? fun p => (s.timer p).fn.isNone

/-- `add_timer`; it panics when the table is full. -/
def addTimer (s : State α) (jiffies : Int) (fn : Option α) : Option (State α) :=
  match fn with
  | none => some s
  | some routine =>
    if jiffies ≤ 0 then
      some { s with
        added := s.added + 1
        fired := s.fired ++ [(⟨routine, s.added, s.now⟩, s.now)] }
    else
      match s.free with
      | none => none
      | some p =>
        let fn : Fn α := ⟨routine, s.added, s.now + jiffies⟩
        let timer := Function.update s.timer p ⟨jiffies, some fn, s.next⟩
        some { s with timer := bubble 64 timer p, next := some p, added := s.added + 1 }

/-- `do_timer` up to its loop. -/
def tick (s : State α) : Option (State α) :=
  if s.expiring then none
  else
    let s := { s with now := s.now + 1, expiring := true }
    match s.next with
    | none => some s
    | some p =>
      some { s with
        timer := Function.update s.timer p { s.timer p with jiffies := (s.timer p).jiffies - 1 } }

/-- One round of the loop of `do_timer`, or its end. -/
def expire (s : State α) : Option (State α) :=
  if ¬ s.expiring then none
  else
    match s.next with
    | none => some { s with expiring := false }
    | some p =>
      if 0 < (s.timer p).jiffies then some { s with expiring := false }
      else
        match (s.timer p).fn with
        | none => none
        | some fn =>
          some { s with
            timer := Function.update s.timer p { s.timer p with fn := none }
            next := (s.timer p).next
            fired := s.fired ++ [(fn, s.now)] }

inductive Event (α : Type*)
  | add (jiffies : Int) (fn : Option α)
  | tick
  | expire

def step (s : State α) : Event α → Option (State α)
  | .add jiffies fn => addTimer s jiffies fn
  | .tick => tick s
  | .expire => expire s

/-- The list from an entry on; `n` bounds its length. -/
def walk (timer : Fin 64 → Entry α) : Nat → Option (Fin 64) → List (Int × Fn α)
  | 0, _ => []
  | _ + 1, none => []
  | n + 1, some p =>
    match (timer p).fn with
    | none => []
    | some fn => ((timer p).jiffies, fn) :: walk timer n (timer p).next

/-- The timers that wait, from `next_timer` on. -/
def State.pending (s : State α) : List (Int × Fn α) := walk s.timer 64 s.next

/-- No timer has been added yet. -/
def State.Start (s : State α) : Prop :=
  s.next = none ∧ (∀ p, (s.timer p).fn = none) ∧ s.expiring = false ∧ s.added = 0 ∧ s.fired = []

/-- A new timer is due after all that wait. -/
def Last (s : State α) : Event α → Prop
  | .add jiffies (some _) => jiffies ≤ 0 ∨ total s.pending < jiffies
  | _ => True

/-! ## The list in the table -/

/-- From `head` on, the list goes through entries `ps` and has contents `l`. -/
def Holds (timer : Fin 64 → Entry α) : Option (Fin 64) → List (Fin 64) → List (Int × Fn α) → Prop
  | head, [], [] => head = none
  | head, p :: ps, (m, fn) :: l =>
    head = some p ∧ (timer p).jiffies = m ∧ (timer p).fn = some fn ∧ Holds timer (timer p).next ps l
  | _, _, _ => False

variable {timer timer' : Fin 64 → Entry α} {head : Option (Fin 64)} {ps : List (Fin 64)}
  {l : List (Int × Fn α)} {s s' : State α} {p : Fin 64} {n : Int} {fn : Fn α}

theorem Holds.congr (h : Holds timer head ps l) (hsame : ∀ p ∈ ps, timer' p = timer p) :
    Holds timer' head ps l := by
  induction ps generalizing head l with
  | nil =>
    cases l with
    | nil => exact h
    | cons e l => exact h
  | cons p ps ih =>
    cases l with
    | nil => exact h
    | cons e l =>
      obtain ⟨hhead, hj, hfn, hrest⟩ := h
      rw [Holds, hsame p List.mem_cons_self]
      exact ⟨hhead, hj, hfn, ih hrest fun q hq => hsame q (List.mem_cons_of_mem p hq)⟩

theorem Holds.walk (h : Holds timer head ps l) {k : Nat} (hk : ps.length ≤ k) :
    walk timer k head = l := by
  induction ps generalizing head l k with
  | nil =>
    cases l with
    | nil =>
      obtain rfl : head = none := h
      cases k <;> rfl
    | cons e l => exact h.elim
  | cons p ps ih =>
    cases l with
    | nil => exact h.elim
    | cons e l =>
      obtain ⟨m, fn⟩ := e
      obtain ⟨rfl, hm, hfn, hrest⟩ := h
      obtain ⟨k, rfl⟩ : ∃ j, k = j + 1 := ⟨k - 1, by rw [List.length_cons] at hk; omega⟩
      rw [Timer.walk, hfn, hm]
      exact congrArg (List.cons _) (ih hrest (Nat.le_of_succ_le_succ hk))

theorem Holds.used (h : Holds timer head ps l) : ∀ p ∈ ps, (timer p).fn.isSome = true := by
  induction ps generalizing head l with
  | nil => exact fun p hp => nomatch hp
  | cons q ps ih =>
    cases l with
    | nil => exact h.elim
    | cons e l =>
      obtain ⟨-, -, hfn, hrest⟩ := h
      intro p hp
      rcases List.mem_cons.mp hp with rfl | hp
      · rw [hfn]
        rfl
      · exact ih hrest p hp

theorem Holds.of_none (h : Holds timer none ps l) : ps = [] ∧ l = [] := by
  cases ps with
  | nil =>
    cases l with
    | nil => exact ⟨rfl, rfl⟩
    | cons e l => exact h.elim
  | cons q ps =>
    cases l with
    | nil => exact h.elim
    | cons e l => cases h.1

/-- The first entry of the list. -/
theorem Holds.of_some (h : Holds timer (some p) ps l) : ∃ qs m fn l', ps = p :: qs ∧
    l = (m, fn) :: l' ∧ (timer p).jiffies = m ∧ (timer p).fn = some fn ∧
      Holds timer (timer p).next qs l' := by
  cases ps with
  | nil =>
    cases l with
    | nil => cases h
    | cons e l => exact h.elim
  | cons q qs =>
    cases l with
    | nil => exact h.elim
    | cons e l =>
      obtain ⟨m, fn⟩ := e
      obtain ⟨hq, hm, hfn, hrest⟩ := h
      obtain rfl : p = q := Option.some.inj hq
      exact ⟨qs, m, fn, l, rfl, rfl, hm, hfn, hrest⟩

/-- The loop of `add_timer` moves the entry to its place, and touches no other list. -/
theorem bubble_holds {k : Nat} (h : Holds timer (some p) (p :: ps) ((n, fn) :: l))
    (hnd : (p :: ps).Nodup) (hk : ps.length ≤ k) :
    Holds (bubble k timer p) (some p) (p :: ps) (place n fn l) ∧
      ∀ q, q ∉ p :: ps → bubble k timer p q = timer q := by
  induction ps generalizing timer p n l k with
  | nil =>
    cases l with
    | cons e l => exact h.2.2.2.elim
    | nil =>
      have hnext : (timer p).next = none := h.2.2.2
      have hsame : bubble k timer p = timer := by
        cases k with
        | zero => rfl
        | succ k =>
          rw [bubble, hnext]
      rw [hsame]
      exact ⟨h, fun _ _ => rfl⟩
  | cons q ps ih =>
    cases l with
    | nil => exact h.2.2.2.elim
    | cons e l =>
      obtain ⟨m, g⟩ := e
      obtain ⟨-, hn, hfn, hnext, hm, hg, hrest⟩ := h
      obtain ⟨k, rfl⟩ : ∃ j, k = j + 1 := ⟨k - 1, by rw [List.length_cons] at hk; omega⟩
      obtain ⟨hp, hnd⟩ := List.nodup_cons.mp hnd
      have hpq : p ≠ q := fun he => hp (he ▸ List.mem_cons_self)
      rw [bubble, hnext]
      dsimp only
      rw [hn, hm, place]
      split
      · next hlt =>
        -- the two entries exchange their contents, and the loop goes on at `q`
        generalize htimer : Function.update (Function.update timer p _) q _ = timer1
        have hq1 : timer1 q = { timer q with jiffies := n - m, fn := some fn } := by
          rw [← htimer, Function.update_self, hfn]
        have hp1 : timer1 p = { timer p with jiffies := m, fn := some g } := by
          rw [← htimer, Function.update_of_ne hpq, Function.update_self, hg]
        have hother : ∀ r, r ≠ p → r ≠ q → timer1 r = timer r := fun r hrp hrq => by
          rw [← htimer, Function.update_of_ne hrq, Function.update_of_ne hrp]
        have hps : ∀ r ∈ ps, timer1 r = timer r := fun r hr =>
          hother r (fun he => hp (he ▸ List.mem_cons_of_mem q hr))
            fun he => (List.nodup_cons.mp hnd).1 (he ▸ hr)
        have h1 : Holds timer1 (some q) (q :: ps) ((n - m, fn) :: l) := by
          rw [Holds, hq1]
          exact ⟨rfl, rfl, rfl, hrest.congr hps⟩
        obtain ⟨hlist, hkeep⟩ := ih h1 hnd (Nat.le_of_succ_le_succ hk)
        constructor
        · rw [Holds, hkeep p hp, hp1]
          exact ⟨rfl, rfl, rfl, hnext ▸ hlist⟩
        · intro r hr
          obtain ⟨hrp, hr⟩ := not_or.mp (mt List.mem_cons.mpr hr)
          rw [hkeep r hr]
          exact hother r hrp fun he => hr (he ▸ List.mem_cons_self)
      · refine ⟨⟨rfl, hn, hfn, ?_⟩, fun _ _ => rfl⟩
        exact ⟨hnext, hm, hg, hrest⟩

/-! ## Invariant -/

/-- The list goes through the entries in use, every timer is due when it says, and every call of
`add_timer` has made one timer. -/
structure Good (s : State α) (ps : List (Fin 64)) (l : List (Int × Fn α)) : Prop where
  holds : Holds s.timer s.next ps l
  nodup : ps.Nodup
  used : ∀ p, (s.timer p).fn.isSome = true → p ∈ ps
  timed : Timed Fn.due s.now l
  forward : Forward l
  ahead : s.expiring = false → ∀ e ∈ l.head?, 0 < e.1
  fired : ∀ e ∈ s.fired, e.1.due = e.2
  ids : ((l.map fun e => e.2.id) ++ s.fired.map fun e => e.1.id).Perm (List.range s.added)

theorem Good.pending (G : Good s ps l) : s.pending = l :=
  G.holds.walk (by simpa using G.nodup.length_le_card)

theorem start_good (h : s.Start) : Good s [] [] := by
  obtain ⟨hnext, hfn, -, hadded, hfired⟩ := h
  refine ⟨hnext, List.nodup_nil, fun p hp => ?_, trivial, nofun, nofun, ?_, ?_⟩
  · rw [hfn p] at hp
    cases hp
  · rw [hfired]
    exact nofun
  · rw [hfired, hadded]
    exact .refl _

/-- What `add_timer` does to the list. -/
theorem addTimer_holds {routine : α} (G : Good s ps l) (hpos : 0 < n)
    (h : addTimer s n (some routine) = some s') : ∃ p timer,
      s' = { s with timer := timer, next := some p, added := s.added + 1 } ∧ p ∉ ps ∧
      Holds timer (some p) (p :: ps) (place n ⟨routine, s.added, s.now + n⟩ l) ∧
      ∀ q, q ∉ p :: ps → timer q = s.timer q := by
  unfold addTimer at h
  dsimp only at h
  split at h
  · next hn => omega
  · split at h
    · cases h
    · next p hfree =>
      cases h
      have hnone : (s.timer p).fn = none := by
        simpa using List.find?_some hfree
      have hp : p ∉ ps := fun hmem => by
        have := G.holds.used p hmem
        rw [hnone] at this
        cases this
      generalize (⟨routine, s.added, s.now + n⟩ : Fn α) = f
      -- the new entry in front, then in its place
      have hfront : Holds (Function.update s.timer p ⟨n, some f, s.next⟩) (some p) (p :: ps)
          ((n, f) :: l) := by
        rw [Holds, Function.update_self]
        refine ⟨rfl, rfl, rfl, G.holds.congr fun q hq => Function.update_of_ne ?_ ..⟩
        rintro rfl
        exact hp hq
      have hnd : (p :: ps).Nodup := List.nodup_cons.mpr ⟨hp, G.nodup⟩
      have hlen : ps.length ≤ 64 := by simpa using G.nodup.length_le_card
      obtain ⟨hholds, hkeep⟩ := bubble_holds hfront hnd hlen
      refine ⟨p, _, rfl, hp, hholds, fun q hq => ?_⟩
      have hqp : q ≠ p := fun he => hq (he ▸ List.mem_cons_self)
      rw [hkeep q hq, Function.update_of_ne hqp]

theorem addTimer_good {routine : α} (G : Good s ps l) (hlast : n ≤ 0 ∨ total l < n)
    (h : addTimer s n (some routine) = some s') : ∃ ps' l', Good s' ps' l' := by
  by_cases hn : n ≤ 0
  · unfold addTimer at h
    dsimp only at h
    rw [if_pos hn] at h
    cases h
    refine ⟨ps, l, G.holds, G.nodup, G.used, G.timed, G.forward, G.ahead, fun e he => ?_, ?_⟩
    · rcases List.mem_append.mp he with he | he
      · exact G.fired e he
      · rw [List.mem_singleton.mp he]
    · rw [List.map_append, ← List.append_assoc, List.range_succ]
      exact G.ids.append_right _
  · have hpos : 0 < n := by omega
    obtain ⟨p, timer, rfl, hp, hholds, hkeep⟩ := addTimer_holds G hpos h
    refine ⟨p :: ps, _, hholds, List.nodup_cons.mpr ⟨hp, G.nodup⟩, fun q hq => ?_, ?_,
      Lib.Delta.place_forward G.forward hpos, fun he => Lib.Delta.place_head hpos (G.ahead he),
      G.fired, ?_⟩
    · by_contra hmem
      have hq : (timer q).fn.isSome = true := hq
      rw [hkeep q hmem] at hq
      exact hmem (List.mem_cons_of_mem p (G.used q hq))
    · exact (Lib.Delta.place_timed_iff G.timed G.forward rfl hpos).mpr (hlast.resolve_left hn)
    · have hperm := (Lib.Delta.place_perm n (⟨routine, s.added, s.now + n⟩ : Fn α) l).map Fn.id
      rw [List.map_cons, List.map_map, List.map_map] at hperm
      rw [List.range_succ]
      exact ((hperm.append_right _).trans (List.perm_append_singleton _ _).symm).trans
        (G.ids.append_right _)

theorem tick_good (G : Good s ps l) (h : tick s = some s') : ∃ ps' l', Good s' ps' l' := by
  unfold tick at h
  split at h
  · cases h
  · next hexp =>
    have hahead := G.ahead (Bool.eq_false_iff.mpr hexp)
    have hholds := G.holds
    dsimp only at h
    split at h
    · next hnext =>
      cases h
      rw [hnext] at hholds
      obtain ⟨rfl, rfl⟩ := hholds.of_none
      exact ⟨[], [], hnext, G.nodup, G.used, trivial, G.forward, nofun, G.fired, G.ids⟩
    · next p hnext =>
      cases h
      rw [hnext] at hholds
      obtain ⟨qs, m, f, l, rfl, rfl, hm, hfn, hrest⟩ := hholds.of_some
      have hpos : 0 < m := hahead (m, f) rfl
      obtain ⟨hp, -⟩ := List.nodup_cons.mp G.nodup
      generalize htimer : Function.update s.timer p _ = timer
      have hself : timer p = { s.timer p with jiffies := m - 1 } := by
        rw [← htimer, Function.update_self, hm]
      have hother : ∀ q, q ≠ p → timer q = s.timer q := fun q hq => by
        rw [← htimer, Function.update_of_ne hq]
      refine ⟨p :: qs, (m - 1, f) :: l, ?_, G.nodup, fun q hq => ?_, ?_, ?_, nofun, G.fired, G.ids⟩
      · show Holds timer s.next _ _
        rw [hnext, Holds, hself]
        refine ⟨rfl, rfl, hfn, hrest.congr fun q hq => hother q ?_⟩
        rintro rfl
        exact hp hq
      · by_cases hqp : q = p
        · exact hqp ▸ List.mem_cons_self
        · refine G.used q ?_
          rw [← hother q hqp]
          exact hq
      · show Timed Fn.due ((s.now + 1 : Nat) : Int) _
        rw [Int.natCast_succ]
        exact G.timed.tick
      · intro e he
        rcases List.mem_cons.mp he with rfl | he
        · show 0 ≤ m - 1
          omega
        · exact G.forward.tail e he

theorem expire_good (G : Good s ps l) (h : expire s = some s') : ∃ ps' l', Good s' ps' l' := by
  unfold expire at h
  split at h
  · cases h
  · next hexp =>
    have hholds := G.holds
    split at h
    · next hnext =>
      cases h
      rw [hnext] at hholds
      obtain ⟨rfl, rfl⟩ := hholds.of_none
      exact ⟨[], [], G.holds, G.nodup, G.used, G.timed, G.forward, nofun, G.fired, G.ids⟩
    · next p hnext =>
      rw [hnext] at hholds
      obtain ⟨qs, m, f, l, rfl, rfl, hm, hfn, hrest⟩ := hholds.of_some
      split at h
      · next hpos =>
        cases h
        refine ⟨p :: qs, (m, f) :: l, G.holds, G.nodup, G.used, G.timed, G.forward, ?_, G.fired,
          G.ids⟩
        rintro - e he
        cases he
        rwa [hm] at hpos
      · next hdue =>
        rw [hfn] at h
        cases h
        -- the first timer is due, not late
        obtain rfl : m = 0 := by
          have hnonneg : 0 ≤ m := G.forward (m, f) List.mem_cons_self
          rw [hm] at hdue
          omega
        obtain ⟨hnow, htimed⟩ := G.timed.pop
        obtain ⟨hp, hnd⟩ := List.nodup_cons.mp G.nodup
        generalize htimer : Function.update s.timer p _ = timer
        have hself : (timer p).fn = none := by rw [← htimer, Function.update_self]
        have hother : ∀ q, q ≠ p → timer q = s.timer q := fun q hq => by
          rw [← htimer, Function.update_of_ne hq]
        refine ⟨qs, l, hrest.congr fun q hq => hother q ?_, hnd, fun q hq => ?_, htimed,
          G.forward.tail, fun he => absurd he (by simpa using hexp), fun e he => ?_, ?_⟩
        · rintro rfl
          exact hp hq
        · have hq : (timer q).fn.isSome = true := hq
          by_cases hqp : q = p
          · rw [hqp, hself] at hq
            cases hq
          · rw [hother q hqp] at hq
            exact (List.mem_cons.mp (G.used q hq)).resolve_left hqp
        · rcases List.mem_append.mp he with he | he
          · exact G.fired e he
          · rw [List.mem_singleton.mp he]
            exact hnow
        · have hids := G.ids
          rw [List.map_cons, List.cons_append] at hids
          rw [List.map_append, ← List.append_assoc]
          exact (List.perm_append_singleton _ _).trans hids

theorem step_good (G : Good s ps l) {e : Event α} (hlast : Last s e) (h : step s e = some s') :
    ∃ ps' l', Good s' ps' l' := by
  cases e with
  | add n fn =>
    cases fn with
    | none =>
      cases h
      exact ⟨ps, l, G⟩
    | some routine =>
      rw [Last, G.pending] at hlast
      exact addTimer_good G hlast h
  | tick => exact tick_good G h
  | expire => exact expire_good G h

/-- In every run in which each timer added is the last to be due, every timer that waits is due when
the deltas up to it have passed; every timer that has fired has fired at its tick, and between ticks
none that waits is due; and every call of `add_timer` has made one timer, which waits or has fired,
once. -/
theorem timers_on_time (h : Lib.Reach step Last State.Start s) :
    (∀ before m fn after, s.pending = before ++ (m, fn) :: after →
      fn.due = s.now + total before + m) ∧
    (∀ e ∈ s.fired, e.1.due = e.2) ∧
    (s.expiring = false → ∀ e ∈ s.pending, (s.now : Int) < e.2.due) ∧
    ((s.pending.map fun e => e.2.id) ++ s.fired.map fun e => e.1.id).Perm (List.range s.added) := by
  obtain ⟨ps, l, G⟩ : ∃ ps l, Good s ps l := by
    refine h.invariant (I := fun s => ∃ ps l, Good s ps l) (fun s hs => ⟨[], [], start_good hs⟩) ?_
    rintro s e s' ⟨ps, l, G⟩ hlast hstep
    exact step_good G hlast hstep
  rw [G.pending]
  exact ⟨Lib.Delta.timed_iff.mp G.timed, G.fired,
    fun he => G.timed.ahead G.forward (G.ahead he), G.ids⟩

/-- No timer yet, at tick 0. -/
def empty : State Nat := ⟨fun _ => ⟨0, none, none⟩, none, 0, false, 0, []⟩

theorem empty_start : empty.Start := ⟨rfl, fun _ => rfl, rfl, rfl, rfl⟩

/-- The check that a new timer is the last to be due. -/
def isLast (s : State Nat) (e : Event Nat) (_ : State Nat) : Bool :=
  match e with
  | .add jiffies (some _) => total s.pending < jiffies
  | _ => true

/-- A timer for three ticks, then one for five; the first one fires. -/
def inOrder : Option (State Nat) :=
  Lib.run (fun s e => (step s e).filter (isLast s e)) empty
    [.add 3 (some 0), .add 5 (some 1), .tick, .expire, .tick, .expire, .tick, .expire, .expire]

theorem timers_on_time_inOrder : inOrder.isSome = true ∧ ∀ s ∈ inOrder,
    (∀ before m fn after, s.pending = before ++ (m, fn) :: after →
      fn.due = s.now + total before + m) ∧
    (∀ e ∈ s.fired, e.1.due = e.2) ∧
    (s.expiring = false → ∀ e ∈ s.pending, (s.now : Int) < e.2.due) ∧
    ((s.pending.map fun e => e.2.id) ++ s.fired.map fun e => e.1.id).Perm (List.range s.added) := by
  refine ⟨by decide +kernel, fun s hs => ?_⟩
  have hlast : ∀ s e s', step s e = some s' → isLast s e s' = true → Last s e := by
    intro s e s' _ h
    match e with
    | .add n (some _) => exact Or.inr (of_decide_eq_true h)
    | .add n none => trivial
    | .tick => trivial
    | .expire => trivial
  exact timers_on_time ((Lib.Reach.start empty_start).ofChecked hlast hs)

/-- A timer for five ticks, then one for three: the first one is now three ticks late. -/
theorem timers_late : ¬ ∀ s : State Nat, Lib.Reach step (fun _ _ => True) State.Start s →
    ∀ before m fn after, s.pending = before ++ (m, fn) :: after →
      fn.due = s.now + total before + m := by
  intro hclaim
  obtain ⟨s, hs⟩ : ∃ s, Lib.run step empty [.add 5 (some 0), .add 3 (some 1)] = some s :=
    Option.isSome_iff_exists.mp (by decide +kernel)
  have hpending : (Lib.run step empty [.add 5 (some 0), .add 3 (some 1)]).map
      (fun s => (s.now, s.pending.map fun e => (e.1, e.2.due))) = some (0, [(3, 3), (5, 5)]) := by
    decide +kernel
  rw [hs, Option.map_some, Option.some.injEq, Prod.mk.injEq] at hpending
  obtain ⟨hnow, hlist⟩ := hpending
  have hreach := (Lib.Reach.start empty_start).ofRun (fun _ _ => trivial) hs
  have h := Lib.Delta.timed_iff.mpr (hclaim s hreach)
  match s.pending, hlist, h with
  | [], hlist, _ => exact absurd (congrArg List.length hlist) (by decide)
  | [_], hlist, _ => exact absurd (congrArg List.length hlist) (show (1 : Nat) ≠ 2 by decide)
  | e :: e' :: l, hlist, h =>
    simp only [List.map_cons, List.cons.injEq, Prod.mk.injEq] at hlist
    obtain ⟨⟨h1, -⟩, ⟨h2, h3⟩, -⟩ := hlist
    obtain ⟨-, hlate, -⟩ := h
    omega

end Linux011.Timer
