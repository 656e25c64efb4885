import Mathlib.Data.List.FinRange
import Mathlib.Logic.Function.Basic
import Linux011.Lib.Machine

/-!
# Signals and their masks (`kernel/signal.c`)

`blocked` is a mask of 32 signals. Two places read it: `schedule`, to wake a task that waits for a
signal, and `ret_from_sys_call`, to deliver one. `schedule` takes it that SIGKILL and SIGSTOP are
never blocked; `ret_from_sys_call` looks at the mask as it is.

`sys_ssetmask` keeps SIGKILL out of the mask, and nothing keeps SIGSTOP out. The mask that a handler
is entered with comes from the user and is taken over whole.
-/

namespace Linux011.Signal

/-! ## Tasks -/

abbrev Mask := BitVec 32

/-- `struct sigaction`. -/
structure SigAction where
  handler : BitVec 32
  mask : Mask
  flags : BitVec 32
  restorer : BitVec 32

/-- `struct task_struct`, as far as signals go; signal `n` has index `n - 1`. -/
structure Task where
  signal : Mask
  blocked : Mask
  sigaction : Fin 32 → SigAction

/-- `_S(SIGKILL)` and `_S(SIGSTOP)`. -/
def kill : Mask := 0x100
def stop : Mask := 0x40000

/-- `_BLOCKABLE`. -/
def blockable : Mask := ~~~(kill ||| stop)

/-- `SIG_DFL` and `SIG_IGN`. -/
def sigDfl : BitVec 32 := 0
def sigIgn : BitVec 32 := 1

def saNoMask : BitVec 32 := 0x40000000
def saOneShot : BitVec 32 := 0x80000000

/-- `SIGCHLD`. -/
def sigchld : Fin 32 := 16

/-- The index of a signal for which a handler may be set: `signum` is none of those refused. -/
def index (signum : Int) : Option (Fin 32) :=
  if h : 1 ≤ signum ∧ signum ≤ 32 ∧ signum ≠ 9 then some ⟨(signum - 1).toNat, by omega⟩ else none

def Task.setAction (t : Task) (n : Fin 32) (sa : SigAction) : Task :=
  { t with sigaction := Function.update t.sigaction n sa }

/-! ## Calls -/

/-- `sys_ssetmask`. -/
def ssetmask (newmask : Mask) (t : Task) : Task := { t with blocked := newmask &&& ~~~kill }

/-- `sys_signal`. -/
def sysSignal (signum : Int) (handler restorer : BitVec 32) (t : Task) : Task :=
  match index signum with
  | none => t
  | some n => t.setAction n ⟨handler, 0, saOneShot ||| saNoMask, restorer⟩

/-- `sys_sigaction` with the contents of `action`. -/
def sysSigaction (signum : Int) (action : SigAction) (t : Task) : Task :=
  match index signum with
  | none => t
  | some n =>
    if action.flags &&& saNoMask ≠ 0 then t.setAction n { action with mask := 0 }
    else t.setAction n { action with mask := action.mask ||| (1 : Mask) <<< n.val }

/-- `do_execve`: handlers do not outlive the program. -/
def execve (t : Task) : Task :=
  { t with sigaction := fun n => { t.sigaction n with handler := sigDfl } }

/-- `copy_process`. -/
def fork (t : Task) : Task := { t with signal := 0 }

/-! ## Delivery -/

/-- The test of `schedule` that wakes an interruptible task. -/
def wakes (signal blocked : Mask) : Bool := signal &&& ~~~(blockable &&& blocked) ≠ 0#32

/-- The test of `ret_from_sys_call`, and the signal it finds. -/
def deliverable (signal blocked : Mask) : Option (Fin 32) :=
  (List.finRange 32).find? fun n => (signal &&& ~~~blocked).getLsbD n

/-- `do_signal`; `none` if the task exits. -/
def doSignal (n : Fin 32) (t : Task) : Option Task :=
  let sa := t.sigaction n
  if sa.handler = sigIgn then some t
  else if sa.handler = sigDfl then
    if n = sigchld then some t else none
  else
    let t := if sa.flags &&& saOneShot ≠ 0 then t.setAction n { sa with handler := sigDfl } else t
    some { t with blocked := t.blocked ||| sa.mask }

/-- The end of `ret_from_sys_call`. -/
def deliver (t : Task) : Option Task :=
  match deliverable t.signal t.blocked with
  | none => some t
  | some n => doSignal n { t with signal := t.signal &&& ~~~((1 : Mask) <<< n.val) }

/-! ## The system -/

variable {ι : Type*} [DecidableEq ι]

inductive Event (ι : Type*)
  | ssetmask (i : ι) (newmask : Mask)
  | signal (i : ι) (signum : Int) (handler restorer : BitVec 32)
  | sigaction (i : ι) (signum : Int) (action : SigAction)
  | execve (i : ι)
  /-- A signal comes. -/
  | post (i : ι) (bits : Mask)
  /-- A task returns to user mode. -/
  | deliver (i : ι)
  | fork (i child : ι)

/-- A change of task `i`; it may exit. -/
def change (s : ι → Option Task) (i : ι) (f : Task → Option Task) : Option (ι → Option Task) :=
  (s i).map fun t => Function.update s i (f t)

/-- Task `i` makes a child. -/
def spawn (s : ι → Option Task) (i child : ι) : Option (ι → Option Task) :=
  match s i, s child with
  | some t, none => some (Function.update s child (some (fork t)))
  | _, _ => none

def step (s : ι → Option Task) : Event ι → Option (ι → Option Task)
  | .ssetmask i newmask => change s i fun t => some (ssetmask newmask t)
  | .signal i signum handler restorer => change s i fun t => some (sysSignal signum handler restorer t)
  | .sigaction i signum action => change s i fun t => some (sysSigaction signum action t)
  | .execve i => change s i fun t => some (execve t)
  | .post i bits => change s i fun t => some { t with signal := t.signal ||| bits }
  | .deliver i => change s i deliver
  | .fork i child => spawn s i child

/-- Every task is as `INIT_TASK`: no signal blocked, and no handler. -/
def Start (s : ι → Option Task) : Prop :=
  ∀ i t, s i = some t → t.blocked = 0 ∧ ∀ n, (t.sigaction n).handler = sigDfl

/-- If `sa` is a handler of the user, its mask has neither SIGKILL nor SIGSTOP. -/
def SigAction.Spares (sa : SigAction) : Prop :=
  sa.handler = sigIgn ∨ sa.handler = sigDfl ∨ sa.mask &&& (kill ||| stop) = 0#32

instance (sa : SigAction) : Decidable sa.Spares :=
  inferInstanceAs (Decidable (_ ∨ _ ∨ _))

/-- The step blocks neither SIGKILL nor SIGSTOP: `sys_ssetmask` is not asked to block SIGSTOP, and the
handler of a signal that is delivered blocks neither. -/
def Spares (s : ι → Option Task) : Event ι → Prop
  | .ssetmask _ newmask => newmask &&& stop = 0#32
  | .deliver i => ∀ t n, s i = some t → deliverable t.signal t.blocked = some n →
      (t.sigaction n).Spares
  | _ => True

/-! ## The two tests -/

variable {signal blocked : Mask} {s s' : ι → Option Task} {t t' : Task} {n : Fin 32}

theorem deliverable_isSome : (deliverable signal blocked).isSome = true ↔ signal &&& ~~~blocked ≠ 0#32 := by
  rw [deliverable, List.find?_isSome]
  constructor
  · rintro ⟨n, -, hn⟩ h
    rw [h] at hn
    simp at hn
  · intro h
    by_contra hnone
    refine h (BitVec.eq_of_getLsbD_eq fun j hj => ?_)
    have := mt (fun hbit => ⟨⟨j, hj⟩, List.mem_finRange _, hbit⟩) hnone
    simpa using this

/-- Where neither is blocked, `schedule` does not change the mask. -/
theorem blockable_and (h : blocked &&& (kill ||| stop) = 0#32) : blockable &&& blocked = blocked := by
  have hall : blocked = blocked &&& ((kill ||| stop) ||| blockable) := by
    rw [show (kill ||| stop) ||| blockable = BitVec.allOnes 32 by decide, BitVec.and_allOnes]
  calc blockable &&& blocked
      = 0#32 ||| (blocked &&& blockable) := by rw [BitVec.zero_or, BitVec.and_comm]
    _ = (blocked &&& (kill ||| stop)) ||| (blocked &&& blockable) := by rw [h]
    _ = blocked &&& ((kill ||| stop) ||| blockable) := BitVec.and_or_distrib_left.symm
    _ = blocked := hall.symm

/-- The two tests agree on every set of signals if and only if neither is blocked. -/
theorem wakes_iff : (∀ signal, wakes signal blocked = (deliverable signal blocked).isSome) ↔
    blocked &&& (kill ||| stop) = 0#32 := by
  constructor
  · intro h
    have htest := h (blocked &&& (kill ||| stop))
    have hnone : (deliverable (blocked &&& (kill ||| stop)) blocked).isSome = false := by
      rw [← Bool.not_eq_true, deliverable_isSome, not_not, BitVec.and_assoc, BitVec.and_comm,
        BitVec.and_assoc, BitVec.not_and_self]
      exact BitVec.and_zero
    rw [hnone, wakes, decide_eq_false_iff_not, not_not, BitVec.not_and, BitVec.and_or_distrib_left] at htest
    have hkeep : blocked &&& (kill ||| stop) &&& ~~~blockable = blocked &&& (kill ||| stop) := by
      rw [BitVec.and_assoc, show (kill ||| stop) &&& ~~~blockable = kill ||| stop by decide]
    rw [hkeep, BitVec.or_eq_zero_iff] at htest
    exact htest.1
  · intro h signal
    rw [Bool.eq_iff_iff, deliverable_isSome, wakes, decide_eq_true_iff, blockable_and h]

/-! ## Invariant -/

/-- SIGKILL and SIGSTOP are not blocked, and SIGKILL has no handler. -/
structure Task.Open (t : Task) : Prop where
  blocked : t.blocked &&& (kill ||| stop) = 0#32
  kill : (t.sigaction 8).handler = sigDfl

theorem index_ne {signum : Int} (h : index signum = some n) : n ≠ 8 := by
  unfold index at h
  split at h
  · next hn =>
    cases h
    intro he
    have := congrArg Fin.val he
    have h8 : ((8 : Fin 32) : Nat) = 8 := rfl
    rw [h8] at this
    dsimp only at this
    omega
  · cases h

theorem setAction_open {sa : SigAction} (O : t.Open) (h : n ≠ 8 ∨ sa.handler = sigDfl) :
    (t.setAction n sa).Open := by
  refine ⟨O.blocked, ?_⟩
  show (Function.update t.sigaction n sa 8).handler = sigDfl
  by_cases hn : n = 8
  · subst hn
    rw [Function.update_self]
    exact h.resolve_left fun h => h rfl
  · rw [Function.update_of_ne (Ne.symm hn)]
    exact O.kill

theorem ssetmask_open {newmask : Mask} (O : t.Open) (h : newmask &&& stop = 0#32) :
    (ssetmask newmask t).Open := by
  refine ⟨?_, O.kill⟩
  show newmask &&& ~~~kill &&& (kill ||| stop) = 0#32
  rw [BitVec.and_assoc, show ~~~kill &&& (kill ||| stop) = stop by decide, h]

theorem doSignal_open (O : t.Open) (h : (t.sigaction n).Spares)
    (hdo : doSignal n t = some t') : t'.Open := by
  unfold doSignal at hdo
  dsimp only at hdo
  split at hdo
  · cases hdo
    exact O
  · next hign =>
    split at hdo
    · split at hdo
      · cases hdo
        exact O
      · cases hdo
    · next hdfl =>
      cases hdo
      have O' : (if (t.sigaction n).flags &&& saOneShot ≠ 0 then
          t.setAction n { t.sigaction n with handler := sigDfl } else t).Open := by
        split
        · exact setAction_open O (Or.inr rfl)
        · exact O
      refine ⟨?_, O'.kill⟩
      dsimp only
      rw [BitVec.and_or_distrib_right, O'.blocked, (h.resolve_left hign).resolve_left hdfl]
      rfl

theorem deliver_open (O : t.Open)
    (h : ∀ n, deliverable t.signal t.blocked = some n → (t.sigaction n).Spares)
    (hdo : deliver t = some t') : t'.Open := by
  unfold deliver at hdo
  split at hdo
  · cases hdo
    exact O
  · next n hn =>
    have O' : ({ t with signal := t.signal &&& ~~~((1 : Mask) <<< n.val) } : Task).Open :=
      ⟨O.blocked, O.kill⟩
    exact doSignal_open O' (h n hn) hdo

theorem change_open {i : ι} {f : Task → Option Task} (O : ∀ j t, s j = some t → t.Open)
    (hf : ∀ t t', s i = some t → t.Open → f t = some t' → t'.Open) (h : change s i f = some s') :
    ∀ j t, s' j = some t → t.Open := by
  obtain ⟨t, ht, rfl⟩ := Option.map_eq_some_iff.mp h
  intro j u hu
  by_cases hj : j = i
  · rw [hj, Function.update_self] at hu
    exact hf t u ht (O i t ht) hu
  · rw [Function.update_of_ne hj] at hu
    exact O j u hu

theorem step_open {e : Event ι} (O : ∀ j t, s j = some t → t.Open) (hspares : Spares s e)
    (h : step s e = some s') : ∀ j t, s' j = some t → t.Open := by
  cases e with
  | ssetmask i newmask =>
    refine change_open O (fun t t' _ Ot he => ?_) h
    cases he
    exact ssetmask_open Ot hspares
  | signal i signum handler restorer =>
    refine change_open O (fun t t' _ Ot he => ?_) h
    cases he
    unfold sysSignal
    split
    · exact Ot
    · next n hn => exact setAction_open Ot (Or.inl (index_ne hn))
  | sigaction i signum action =>
    refine change_open O (fun t t' _ Ot he => ?_) h
    cases he
    unfold sysSigaction
    split
    · exact Ot
    · next n hn =>
      split
      · exact setAction_open Ot (Or.inl (index_ne hn))
      · exact setAction_open Ot (Or.inl (index_ne hn))
  | execve i =>
    refine change_open O (fun t t' _ Ot he => ?_) h
    cases he
    exact ⟨Ot.blocked, rfl⟩
  | post i bits =>
    refine change_open O (fun t t' _ Ot he => ?_) h
    cases he
    exact ⟨Ot.blocked, Ot.kill⟩
  | deliver i => exact change_open O (fun t t' ht Ot he => deliver_open Ot (hspares t · ht) he) h
  | fork i child =>
    have h : spawn s i child = some s' := h
    unfold spawn at h
    split at h
    · next t ht hchild =>
      cases h
      intro j u hu
      by_cases hj : j = child
      · rw [hj, Function.update_self] at hu
        cases hu
        exact ⟨(O i t ht).blocked, (O i t ht).kill⟩
      · rw [Function.update_of_ne hj] at hu
        exact O j u hu
    · cases h

/-- In every run no step of which blocks SIGKILL or SIGSTOP, SIGKILL is not blocked and has its default
action, and `schedule` wakes a task for a signal if and only if one is then delivered. -/
theorem delivery_agrees (h : Lib.Reach step Spares Start s) {i : ι} (hi : s i = some t) :
    t.blocked &&& kill = 0#32 ∧ (t.sigaction 8).handler = sigDfl ∧
      ∀ signal, wakes signal t.blocked = (deliverable signal t.blocked).isSome := by
  have O : ∀ j t, s j = some t → t.Open := by
    refine h.invariant (I := fun s => ∀ j t, s j = some t → t.Open) (fun s hs j t ht => ?_)
      fun s e s' O hspares hstep => step_open O hspares hstep
    obtain ⟨hblocked, hact⟩ := hs j t ht
    refine ⟨?_, hact 8⟩
    rw [hblocked]
    rfl
  obtain ⟨hblocked, hkill⟩ := O i t hi
  refine ⟨?_, hkill, wakes_iff.mpr hblocked⟩
  rw [BitVec.and_or_distrib_left, BitVec.or_eq_zero_iff] at hblocked
  exact hblocked.1

/-- `Spares`, decided for the tables of one task. -/
def isSpare (s : Unit → Option Task) : Event Unit → Bool
  | .ssetmask _ newmask => newmask &&& stop = 0#32
  | .deliver _ =>
    match s () with
    | none => true
    | some t => (deliverable t.signal t.blocked).all fun n => (t.sigaction n).Spares
  | _ => true

theorem spares_of_isSpare {s : Unit → Option Task} {e : Event Unit} (h : isSpare s e = true) :
    Spares s e := by
  cases e with
  | ssetmask i newmask => exact (of_decide_eq_true h : newmask &&& stop = 0#32)
  | deliver i =>
    intro t n ht hn
    have h : (match s () with
      | none => true
      | some t => (deliverable t.signal t.blocked).all fun n => (t.sigaction n).Spares) = true := h
    have ht : s () = some t := ht
    rw [ht] at h
    dsimp only at h
    rw [hn] at h
    exact of_decide_eq_true h
  | _ => trivial

/-- `INIT_TASK`. -/
def initTask : Task := ⟨0, 0, fun _ => ⟨sigDfl, 0, 0, 0⟩⟩

/-- A handler for SIGUSR1 that blocks the signals of `mask` is set and entered. -/
def usr1 (mask : Mask) : List (Event Unit) :=
  [.sigaction () 10 ⟨0x1000, mask, 0, 0x2000⟩, .post () 0x200, .deliver ()]

theorem initTask_start : Start fun _ : Unit => some initTask := by
  intro i t ht
  cases ht
  exact ⟨rfl, fun n => rfl⟩

/-- A handler that blocks SIGINT. -/
theorem delivery_agrees_usr1 : ∃ t : Task, t.blocked = 0x202 ∧
    t.blocked &&& kill = 0#32 ∧ (t.sigaction 8).handler = sigDfl ∧
      ∀ signal, wakes signal t.blocked = (deliverable signal t.blocked).isSome := by
  obtain ⟨s, t, hs, ht, hblocked⟩ : ∃ s t,
      Lib.run (fun s e => (step s e).filter fun _ => isSpare s e) (fun _ => some initTask) (usr1 2) =
        some s ∧ s () = some t ∧ t.blocked = 0x202 :=
    ⟨_, _, rfl, rfl, by decide +kernel⟩
  refine ⟨t, hblocked, ?_⟩
  exact delivery_agrees ((Lib.Reach.start initTask_start).ofChecked
    (fun _ _ _ _ hc => spares_of_isSpare hc) hs) ht

/-- A handler whose mask has SIGKILL: it is blocked, `schedule` wakes the task for it, and it is not
delivered. -/
theorem delivery_disagrees_kill : ¬ ∀ (s : Unit → Option Task) (t : Task),
    Lib.Reach step (fun _ _ => True) Start s → s () = some t →
    t.blocked &&& kill = 0#32 ∧ (t.sigaction 8).handler = sigDfl ∧
      ∀ signal, wakes signal t.blocked = (deliverable signal t.blocked).isSome := by
  intro h
  obtain ⟨s, t, hs, ht, hblocked⟩ : ∃ s t,
      Lib.run step (fun _ => some initTask) (usr1 kill) = some s ∧ s () = some t ∧
        t.blocked = 0x300 :=
    ⟨_, _, rfl, rfl, by decide +kernel⟩
  have hreach : Lib.Reach step (fun _ _ => True) Start s :=
    (Lib.Reach.start initTask_start).ofRun (fun _ _ => trivial) hs
  have hkill := (h s t hreach ht).1
  rw [hblocked] at hkill
  exact absurd hkill (by decide)

end Linux011.Signal
