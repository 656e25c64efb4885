import Mathlib.Data.List.FinRange
import Mathlib.Logic.Function.Basic
import Linux011.Lib.Slots

/-!
# Sending signals (`sys_kill` of `kernel/exit.c`)

`sys_kill` has a loop for each kind of pid, and each goes from the last slot down to the second. For the
caller's own group it compares with the caller's pid, not with its group, and asks for no permission; for
all tasks it does not look whether there is one in the slot. An error does not end the loop: what is
returned is the last one, which is that of the lowest slot.
-/

namespace Linux011.Kill

/-- `long` and `int`. -/
abbrev Word := BitVec 32

/-! ## Code -/

/-- `struct task_struct`, as far as signals are sent. -/
structure Task where
  signal : Word
  pid : Word
  pgrp : Word
  euid : BitVec 16
  deriving DecidableEq

/-- `task`. -/
abbrev Table := Fin 64 → Option Task

def eperm : Int := 1
def einval : Int := 22

/-- `suser`. -/
def Task.suser (t : Task) : Bool := t.euid = 0

/-- `p->signal |= (1<<(sig-1))`. -/
def Task.post (sig : Int) (t : Task) : Task :=
  { t with signal := t.signal ||| (1 : Word) <<< (sig - 1).toNat }

variable (me : Task) (sig : Int)

/-- `send_sig`, with what it leaves in the slot. -/
def sendSig (p : Option Task) (priv : Bool) : Int × Option Task :=
  match p with
  | none => (-einval, none)
  | some t =>
    if sig < 1 ∨ 32 < sig then (-einval, some t)
    else if priv ∨ me.euid = t.euid ∨ me.suser then (0, some (t.post sig))
    else (-eperm, some t)

/-- A loop of `sys_kill` over the slots, with the test for the slot and the privilege. -/
def killLoop (test : Option Task → Bool) (priv : Bool) : List (Fin 64) → Int × Table → Int × Table
  | [], s => s
  | p :: l, (retval, task) =>
    if test (task p) then
      let (err, t) := sendSig me sig (task p) priv
      killLoop test priv l (if err ≠ 0 then err else retval, Function.update task p t)
    else killLoop test priv l (retval, task)

/-- The slots behind the first one, from the last on. -/
def slots : List (Fin 64) := (List.finRange 64).tail.reverse

/-- `sys_kill`. -/
def sysKill (pid : Word) (task : Table) : Int × Table :=
  if pid = 0 then killLoop me sig (fun p => p.any fun t => t.pgrp = me.pid) true slots (0, task)
  else if 0 < pid.toInt then killLoop me sig (fun p => p.any fun t => t.pid = pid) false slots (0, task)
  else if pid = -1 then killLoop me sig (fun _ => true) false slots (0, task)
  else killLoop me sig (fun p => p.any fun t => t.pgrp = -pid) false slots (0, task)

/-! ## A loop -/

/-- The error for a slot. -/
def slotError (test : Option Task → Bool) (priv : Bool) (p : Option Task) : Int :=
  if test p then (sendSig me sig p priv).1 else 0

/-- What is left in a slot. -/
def slotAfter (test : Option Task → Bool) (priv : Bool) (p : Option Task) : Option Task :=
  if test p then (sendSig me sig p priv).2 else p

variable {me : Task} {sig : Int} {test : Option Task → Bool} {priv : Bool} {task : Table}

/-- A loop that goes down changes each slot once, by what is in it, and its result is the last error. -/
theorem killLoop_spec (me : Task) (sig : Int) (test : Option Task → Bool) (priv : Bool) :
    ∀ (l : List (Fin 64)) (r : Int) (task : Table), l.Pairwise (· > ·) →
    ((killLoop me sig test priv l (r, task)).2 =
      fun j => if j ∈ l then slotAfter me sig test priv (task j) else task j) ∧
    (((killLoop me sig test priv l (r, task)).1 = r ∧ ∀ j ∈ l, slotError me sig test priv (task j) = 0) ∨
      ∃ i ∈ l, (killLoop me sig test priv l (r, task)).1 = slotError me sig test priv (task i) ∧
        slotError me sig test priv (task i) ≠ 0 ∧
        ∀ j ∈ l, j < i → slotError me sig test priv (task j) = 0) := by
  intro l
  induction l with
  | nil =>
    intro r task _
    exact ⟨by funext j; simp [killLoop], .inl ⟨rfl, nofun⟩⟩
  | cons p l ih =>
    intro r task hpair
    obtain ⟨hp, hl⟩ := List.pairwise_cons.mp hpair
    have hnot : p ∉ l := fun hmem => absurd (hp p hmem) (lt_irrefl p)
    have hstep : killLoop me sig test priv (p :: l) (r, task) =
        killLoop me sig test priv l
          (if slotError me sig test priv (task p) ≠ 0 then slotError me sig test priv (task p) else r,
            Function.update task p (slotAfter me sig test priv (task p))) := by
      by_cases htest : test (task p) = true
      · rw [killLoop, if_pos htest, slotError, if_pos htest, slotAfter, if_pos htest]
      · rw [killLoop, if_neg htest, slotError, if_neg htest, slotAfter, if_neg htest,
          Function.update_eq_self, if_neg (not_not_intro rfl)]
    obtain ⟨htable, hresult⟩ := ih (if slotError me sig test priv (task p) ≠ 0 then
      slotError me sig test priv (task p) else r)
      (Function.update task p (slotAfter me sig test priv (task p))) hl
    have hother : ∀ j ∈ l, Function.update task p (slotAfter me sig test priv (task p)) j = task j :=
      fun j hj => Function.update_of_ne (ne_of_mem_of_not_mem hj hnot) _ _
    rw [hstep]
    refine ⟨?_, ?_⟩
    · rw [htable]
      funext j
      by_cases hj : j = p
      · subst hj
        simp [hnot]
      · simp [hj]
    · obtain ⟨hr, hnone⟩ | ⟨i, hi, hr, hne, hbelow⟩ := hresult
      · have hrest : ∀ j ∈ l, slotError me sig test priv (task j) = 0 :=
          fun j hj => hother j hj ▸ hnone j hj
        by_cases herr : slotError me sig test priv (task p) = 0
        · refine .inl ⟨by rw [hr, if_neg (not_not_intro herr)], fun j hj => ?_⟩
          obtain rfl | hj := List.mem_cons.mp hj
          · exact herr
          · exact hrest j hj
        · refine .inr ⟨p, List.mem_cons_self, by rw [hr, if_pos herr], herr, fun j hj hlt => ?_⟩
          obtain rfl | hj := List.mem_cons.mp hj
          · exact absurd hlt (lt_irrefl j)
          · exact hrest j hj
      · rw [hother i hi] at hr hne
        refine .inr ⟨i, List.mem_cons_of_mem p hi, hr, hne, fun j hj hlt => ?_⟩
        obtain rfl | hj := List.mem_cons.mp hj
        · exact absurd (hp i hi) (lt_asymm hlt)
        · exact hother j hj ▸ hbelow j hj hlt

theorem slots_descend : slots.Pairwise (· > ·) := by decide

theorem mem_slots : ∀ j : Fin 64, j ∈ slots ↔ j ≠ 0 := by decide

variable (me sig test priv task)

theorem killLoop_slots :
    ((killLoop me sig test priv slots (0, task)).2 =
      fun j => if j ≠ 0 then slotAfter me sig test priv (task j) else task j) ∧
    (((killLoop me sig test priv slots (0, task)).1 = 0 ∧
        ∀ j, j ≠ 0 → slotError me sig test priv (task j) = 0) ∨
      ∃ i, i ≠ 0 ∧ (killLoop me sig test priv slots (0, task)).1 = slotError me sig test priv (task i) ∧
        slotError me sig test priv (task i) ≠ 0 ∧
        ∀ j, j ≠ 0 → j < i → slotError me sig test priv (task j) = 0) := by
  have h := killLoop_spec me sig test priv slots 0 task slots_descend
  simpa only [mem_slots] using h

/-! ## What a call should do -/

/-- The tasks that a pid names. -/
def Targeted (me : Task) (pid : Word) (t : Task) : Prop :=
  if pid = 0 then t.pgrp = me.pgrp
  else if 0 < pid.toInt then t.pid = pid
  else if pid = -1 then True
  else t.pgrp = -pid

instance (me : Task) (pid : Word) (t : Task) : Decidable (Targeted me pid t) := by
  unfold Targeted
  infer_instance

/-- The tasks that the caller may signal. -/
def Permitted (me t : Task) : Prop := me.euid = t.euid ∨ me.suser = true

instance (me t : Task) : Decidable (Permitted me t) := by
  unfold Permitted
  infer_instance

/-- The slots after the signal is sent to the targets that may be signalled. -/
def delivered (me : Task) (sig : Int) (pid : Word) (task : Table) : Table := fun j =>
  (task j).map fun t => if j ≠ 0 ∧ Targeted me pid t ∧ Permitted me t then t.post sig else t

/-- Every target may be signalled. -/
def Reached (me : Task) (pid : Word) (task : Table) : Prop :=
  ∀ j t, j ≠ 0 → task j = some t → Targeted me pid t → Permitted me t

/-- The call addresses the right tasks. -/
def Addresses (me : Task) (sig : Int) (pid : Word) (task : Table) : Prop :=
  (sysKill me sig pid task).2 = delivered me sig pid task ∧
    (Reached me pid task → (sysKill me sig pid task).1 = 0) ∧
    (¬ Reached me pid task → (sysKill me sig pid task).1 = -eperm)

variable {me sig test priv task} {pid : Word} {t : Task}

theorem sendSig_some (hsig : 1 ≤ sig ∧ sig ≤ 32) (t : Task) (priv : Bool) :
    sendSig me sig (some t) priv =
      if priv = true ∨ Permitted me t then (0, some (t.post sig)) else (-eperm, some t) := by
  have hrange : ¬ (sig < 1 ∨ 32 < sig) := by omega
  unfold sendSig Permitted
  dsimp only
  rw [if_neg hrange]

theorem slotError_some (hsig : 1 ≤ sig ∧ sig ≤ 32) : slotError me sig test priv (some t) =
    if test (some t) = true ∧ priv = false ∧ ¬ Permitted me t then -eperm else 0 := by
  unfold slotError
  rw [sendSig_some hsig]
  cases test (some t) <;> cases priv <;> by_cases hp : Permitted me t <;> simp [hp]

theorem slotAfter_some (hsig : 1 ≤ sig ∧ sig ≤ 32) : slotAfter me sig test priv (some t) =
    some (if test (some t) = true ∧ (priv = true ∨ Permitted me t) then t.post sig else t) := by
  unfold slotAfter
  rw [sendSig_some hsig]
  cases test (some t) <;> cases priv <;> by_cases hp : Permitted me t <;> simp [hp]

theorem sendSig_none (priv : Bool) : sendSig me sig none priv = (-einval, none) := rfl

theorem slotAfter_none : slotAfter me sig test priv none = none := by
  unfold slotAfter
  rw [sendSig_none]
  split <;> rfl

/-- A loop without privilege that looks for the targets. -/
theorem killLoop_table (hsig : 1 ≤ sig ∧ sig ≤ 32)
    (htest : ∀ t, test (some t) = true ↔ Targeted me pid t) :
    (killLoop me sig test false slots (0, task)).2 = delivered me sig pid task := by
  rw [(killLoop_slots me sig test false task).1]
  funext j
  unfold delivered
  cases htask : task j with
  | none =>
    rw [slotAfter_none]
    split <;> rfl
  | some t =>
    rw [slotAfter_some hsig, Option.map_some]
    by_cases hj : j = 0 <;> simp [hj, htest]

/-- The error for a task is that for a target that may not be signalled. -/
theorem slotError_task (hsig : 1 ≤ sig ∧ sig ≤ 32) (htest : ∀ t, test (some t) = true ↔ Targeted me pid t) :
    slotError me sig test false (some t) = if Targeted me pid t ∧ ¬ Permitted me t then -eperm else 0 := by
  rw [slotError_some hsig]
  simp only [htest, true_and]

/-- A loop without privilege that passes empty slots. -/
theorem killLoop_result (hsig : 1 ≤ sig ∧ sig ≤ 32)
    (htest : ∀ t, test (some t) = true ↔ Targeted me pid t) (hnone : test none = false) :
    (Reached me pid task → (killLoop me sig test false slots (0, task)).1 = 0) ∧
      (¬ Reached me pid task → (killLoop me sig test false slots (0, task)).1 = -eperm) := by
  obtain ⟨hr, hzero⟩ | ⟨i, hi, hr, hne, -⟩ := (killLoop_slots me sig test false task).2
  · refine ⟨fun _ => hr, fun hno => (hno fun j t hj htask htarget => ?_).elim⟩
    have herr := hzero j hj
    rw [htask, slotError_task hsig htest] at herr
    by_contra hp
    rw [if_pos ⟨htarget, hp⟩] at herr
    cases herr
  · cases htask : task i with
    | none =>
      rw [htask] at hne
      exact absurd (if_neg (by simp [hnone])) hne
    | some t =>
      rw [htask, slotError_task hsig htest] at hr hne
      by_cases hrefused : Targeted me pid t ∧ ¬ Permitted me t
      · rw [if_pos hrefused] at hr
        exact ⟨fun hreached => absurd (hreached i t hi htask hrefused.1) hrefused.2, fun _ => hr⟩
      · rw [if_neg hrefused] at hne
        exact absurd rfl hne

/-- The loop over all tasks takes an empty slot for an error. -/
theorem killLoop_all (hsig : 1 ≤ sig ∧ sig ≤ 32) (hpid : ∀ t, Targeted me pid t) :
    ((Reached me pid task → (killLoop me sig (fun _ => true) false slots (0, task)).1 = 0) ∧
      (¬ Reached me pid task → (killLoop me sig (fun _ => true) false slots (0, task)).1 = -eperm)) ↔
    ∀ j, j ≠ 0 → task j = none → ∃ i t, i ≠ 0 ∧ i < j ∧ task i = some t ∧ ¬ Permitted me t := by
  have htest : ∀ t, (fun _ : Option Task => true) (some t) = true ↔ Targeted me pid t :=
    fun t => iff_of_true rfl (hpid t)
  have hempty : slotError me sig (fun _ => true) false none = -einval := rfl
  have htask : ∀ {j t}, task j = some t → (slotError me sig (fun _ => true) false (task j) ≠ 0 ↔
      ¬ Permitted me t) := by
    intro j t hj
    rw [hj, slotError_task hsig htest]
    by_cases hp : Permitted me t
    · rw [if_neg fun h => h.2 hp]
      exact iff_of_false (not_not_intro rfl) (not_not_intro hp)
    · rw [if_pos ⟨hpid t, hp⟩]
      exact iff_of_true (by decide) hp
  obtain ⟨hr, hzero⟩ | ⟨i, hi, hr, hne, hbelow⟩ := (killLoop_slots me sig (fun _ => true) false task).2
  · have hfull : ∀ j, j ≠ 0 → task j ≠ none := by
      intro j hj hnone
      have herr := hzero j hj
      rw [hnone, hempty] at herr
      cases herr
    refine iff_of_true ⟨fun _ => hr, fun hno => (hno fun j t hj hjt _ => ?_).elim⟩
      fun j hj hnone => absurd hnone (hfull j hj)
    by_contra hp
    exact (htask hjt).mpr hp (hzero j hj)
  · cases hit : task i with
    | none =>
      rw [hit, hempty] at hr
      refine iff_of_false (fun h => ?_) fun h => ?_
      · by_cases hreached : Reached me pid task
        · rw [h.1 hreached] at hr
          cases hr
        · rw [h.2 hreached] at hr
          revert hr
          decide
      · obtain ⟨k, t, hk, hlt, hkt, hp⟩ := h i hi hit
        exact (htask hkt).mpr hp (hbelow k hk hlt)
    | some t =>
      have hp : ¬ Permitted me t := (htask hit).mp hne
      have hrefused : ¬ Reached me pid task := fun hreached => hp (hreached i t hi hit (hpid t))
      rw [hit, slotError_task hsig htest, if_pos ⟨hpid t, hp⟩] at hr
      refine iff_of_true ⟨fun hreached => absurd hreached hrefused, fun _ => hr⟩ fun j hj hnone => ?_
      refine ⟨i, t, hi, ?_, hit, hp⟩
      by_contra hle
      obtain hlt | heq := lt_or_eq_of_le (not_lt.mp hle)
      · have herr := hbelow j hj hlt
        rw [hnone, hempty] at herr
        cases herr
      · rw [heq, hit] at hnone
        cases hnone

/-- The loop for the caller's group signals the group with the caller's pid, whatever the permissions. -/
theorem killLoop_group (me : Task) (task : Table) (hsig : 1 ≤ sig ∧ sig ≤ 32) :
    (killLoop me sig (fun p => p.any fun t => t.pgrp = me.pid) true slots (0, task)).1 = 0 ∧
    (killLoop me sig (fun p => p.any fun t => t.pgrp = me.pid) true slots (0, task)).2 = fun j =>
      (task j).map fun t => if j ≠ 0 ∧ t.pgrp = me.pid then t.post sig else t := by
  obtain ⟨htable, hresult⟩ := killLoop_slots me sig (fun p => p.any fun t => t.pgrp = me.pid) true task
  have herror : ∀ p, slotError me sig (fun p => p.any fun t => t.pgrp = me.pid) true p = 0 := by
    intro p
    cases p with
    | none => rfl
    | some t =>
      rw [slotError_some hsig]
      exact if_neg (by simp)
  constructor
  · obtain ⟨hr, -⟩ | ⟨i, -, -, hne, -⟩ := hresult
    · exact hr
    · exact absurd (herror _) hne
  · rw [htable]
    funext j
    cases htask : task j with
    | none =>
      rw [slotAfter_none]
      split <;> rfl
    | some t =>
      rw [slotAfter_some hsig, Option.map_some]
      by_cases hj : j = 0 <;> simp [hj]

/-! ## The right tasks -/

/-- The signal is pending. -/
def Task.pending (sig : Int) (t : Task) : Bool := t.signal.getLsbD (sig - 1).toNat

theorem or_bit_eq_self {k : Nat} (hk : k < 32) (x : Word) :
    x ||| (1 : Word) <<< k = x ↔ x.getLsbD k = true := by
  have hbit : ∀ i, ((1 : Word) <<< k).getLsbD i = (decide (k < 32) && decide (k = i)) := fun i =>
    BitVec.getLsbD_twoPow k i
  constructor
  · intro h
    rw [← h, BitVec.getLsbD_or, hbit]
    simp [hk]
  · intro h
    apply BitVec.eq_of_getLsbD_eq
    intro i _
    rw [BitVec.getLsbD_or, hbit]
    by_cases hi : k = i
    · subst hi
      simp [h]
    · simp [hi]

theorem post_eq_self (hsig : 1 ≤ sig ∧ sig ≤ 32) (t : Task) : t.post sig = t ↔ t.pending sig = true := by
  unfold Task.pending
  rw [← or_bit_eq_self (by omega) t.signal]
  exact ⟨fun h => congrArg Task.signal h, fun h => by rw [Task.post, h]⟩

/-- Two conditions for a signal come to the same if they are equivalent, or if it is pending anyway. -/
theorem post_if_eq (hsig : 1 ≤ sig ∧ sig ≤ 32) (t : Task) (p q : Prop) [Decidable p] [Decidable q] :
    (if p then t.post sig else t) = (if q then t.post sig else t) ↔ (p ↔ q) ∨ t.pending sig = true := by
  rw [← post_eq_self hsig]
  by_cases hp : p <;> by_cases hq : q
  · simp [hp, hq]
  · simp [hp, hq]
  · rw [if_neg hp, if_pos hq, eq_comm]
    simp [hp, hq]
  · simp [hp, hq]

/-- The group with the caller's pid is signalled in place of the caller's group. -/
theorem group_delivered (hsig : 1 ≤ sig ∧ sig ≤ 32) (hreached : Reached me 0 task) :
    ((fun j => (task j).map fun t => if j ≠ 0 ∧ t.pgrp = me.pid then t.post sig else t) =
      delivered me sig 0 task) ↔
    ∀ j t, j ≠ 0 → task j = some t → (t.pgrp = me.pid ↔ t.pgrp = me.pgrp) ∨ t.pending sig = true := by
  rw [funext_iff]
  refine forall_congr' fun j => ?_
  unfold delivered
  cases htask : task j with
  | none => simp
  | some t =>
    have htarget : Targeted me 0 t ↔ t.pgrp = me.pgrp := Iff.rfl
    simp only [Option.map_some, Option.some.injEq, post_if_eq hsig, htarget]
    by_cases hj : j = 0
    · simp [hj]
    · have hpermitted : t.pgrp = me.pgrp ∧ Permitted me t ↔ t.pgrp = me.pgrp :=
        and_iff_left_of_imp fun h => hreached j t hj htask h
      simp only [hj, ne_eq, not_false_eq_true, true_and, forall_const, forall_eq', hpermitted]

/-- SIGNALS. A call addresses the right tasks exactly if this holds: for the caller's group, that all its
members may be signalled and that it has the caller's pid, as far as the signal is not pending anyway; for
all tasks, that below every empty slot there is a task that may not be signalled. -/
theorem sys_kill_addresses (me : Task) (sig : Int) (pid : Word) (task : Table) (hsig : 1 ≤ sig ∧ sig ≤ 32) :
    Addresses me sig pid task ↔
      (pid = 0 → Reached me 0 task ∧ ∀ j t, j ≠ 0 → task j = some t →
        (t.pgrp = me.pid ↔ t.pgrp = me.pgrp) ∨ t.pending sig = true) ∧
      (pid = -1 → ∀ j, j ≠ 0 → task j = none →
        ∃ i t, i ≠ 0 ∧ i < j ∧ task i = some t ∧ ¬ Permitted me t) := by
  have hminus : (-1 : Word) ≠ 0 := by decide
  have hneg : ¬ 0 < (-1 : Word).toInt := by decide
  unfold Addresses
  by_cases hzero : pid = 0
  · subst hzero
    obtain ⟨hresult, htable⟩ := killLoop_group me task hsig
    have hcall : sysKill me sig 0 task =
        killLoop me sig (fun p => p.any fun t => t.pgrp = me.pid) true slots (0, task) := if_pos rfl
    rw [hcall, hresult, htable]
    constructor
    · rintro ⟨hdelivered, -, hrefused⟩
      have hreached : Reached me 0 task := by
        by_contra hno
        exact absurd (hrefused hno) (by decide)
      exact ⟨fun _ => ⟨hreached, (group_delivered hsig hreached).mp hdelivered⟩,
        fun h => absurd h.symm hminus⟩
    · rintro ⟨hgroup, -⟩
      obtain ⟨hreached, hpending⟩ := hgroup rfl
      exact ⟨(group_delivered hsig hreached).mpr hpending, fun _ => rfl, fun hno => absurd hreached hno⟩
  · by_cases hpos : 0 < pid.toInt
    · have htest : ∀ t : Task, (some t).any (fun t => t.pid = pid) = true ↔ Targeted me pid t := by
        intro t
        rw [Targeted, if_neg hzero, if_pos hpos]
        exact decide_eq_true_iff
      have hall : pid ≠ -1 := fun h => hneg (h ▸ hpos)
      rw [sysKill, if_neg hzero, if_pos hpos, killLoop_table hsig htest]
      exact iff_of_true ⟨rfl, killLoop_result hsig htest rfl⟩
        ⟨fun h => absurd h hzero, fun h => absurd h hall⟩
    · by_cases hall : pid = -1
      · have htarget : ∀ t, Targeted me pid t := by
          intro t
          rw [Targeted, if_neg hzero, if_neg hpos, if_pos hall]
          trivial
        rw [sysKill, if_neg hzero, if_neg hpos, if_pos hall,
          killLoop_table hsig (fun t => iff_of_true rfl (htarget t)), killLoop_all hsig htarget]
        exact ⟨fun h => ⟨fun h0 => absurd h0 hzero, fun _ => h.2⟩, fun h => ⟨rfl, h.2 hall⟩⟩
      · have htest : ∀ t : Task, (some t).any (fun t => t.pgrp = -pid) = true ↔ Targeted me pid t := by
          intro t
          rw [Targeted, if_neg hzero, if_neg hpos, if_neg hall]
          exact decide_eq_true_iff
        rw [sysKill, if_neg hzero, if_neg hpos, if_neg hall, killLoop_table hsig htest]
        exact iff_of_true ⟨rfl, killLoop_result hsig htest rfl⟩
          ⟨fun h => absurd h hzero, fun h => absurd h hall⟩

/-- Init, a shell that leads a group, and a task that it has forked. -/
def family : Table := fun j =>
  if j = 1 then some ⟨0, 1, 0, 0⟩ else if j = 2 then some ⟨0, 5, 5, 7⟩
  else if j = 3 then some ⟨0, 6, 5, 7⟩ else none

/-- The leader signals its group. -/
theorem sys_kill_addresses_leader : Addresses ⟨0, 5, 5, 7⟩ 15 0 family := by
  have hreached : ∀ j, ∀ t ∈ family j, j ≠ 0 → t.pgrp = 5 → Permitted ⟨0, 5, 5, 7⟩ t := by decide
  have hleader : ∀ j, ∀ t ∈ family j, j ≠ 0 → (t.pgrp = 5 ↔ t.pgrp = 5) ∨ t.pending 15 = true := by decide
  exact (sys_kill_addresses ⟨0, 5, 5, 7⟩ 15 0 family (by decide)).mpr
    ⟨fun _ => ⟨fun j t hj htask => hreached j t htask hj, fun j t hj htask => hleader j t htask hj⟩,
      fun h => absurd h (by decide)⟩

/-- The task that was forked does not reach its group. -/
theorem kill_misses_group : ¬ ∀ (me : Task) (sig : Int) (pid : Word) (task : Table),
    1 ≤ sig ∧ sig ≤ 32 → Addresses me sig pid task := by
  intro h
  have hleader := congrFun (h ⟨0, 6, 5, 7⟩ 15 0 family (by decide)).1 2
  revert hleader
  decide

end Linux011.Kill
