import Mathlib.Data.Fintype.Pigeonhole
import Linux011.Sched.Ledger

/-!
# Processes are forked and reaped one by one

The invariant of the process table over whole runs: the family and the ledger, kept by each event.
`find_empty_process` finds a pid because 65 pids in a row are distinct and at most 64 are taken.
-/

namespace Linux011.TaskTable

variable {s s' : Table} {task task' : Slot → Option Task} {i j nr : Slot} {t t' u : Task}

/-! ## A pid -/

theorem nextPid_eq {p : Int} (h0 : 0 ≤ p) (h1 : p < 2 ^ 31) : nextPid p = p % (2 ^ 31 - 1) + 1 := by
  have hbmod : (p + 1).bmod (2 ^ 32) = if p + 1 < 2 ^ 31 then p + 1 else p + 1 - 2 ^ 32 := by
    rw [Int.bmod_def]
    omega
  unfold nextPid
  dsimp only
  rw [hbmod]
  omega

theorem taken_iff {pid : Int} : taken task pid = true ↔ ∃ i t, task i = some t ∧ t.pid = pid := by
  unfold taken
  rw [List.any_eq_true]
  constructor
  · rintro ⟨i, -, h⟩
    obtain ⟨t, ht, h⟩ := (Option.any_eq_true _ _).mp h
    exact ⟨i, t, ht, of_decide_eq_true h⟩
  · rintro ⟨i, t, ht, h⟩
    exact ⟨i, List.mem_finRange i, (Option.any_eq_true _ _).mpr ⟨t, ht, decide_eq_true h⟩⟩

theorem unusedPid_spec {fuel : Nat} {p q : Int} (h0 : 0 ≤ p) (h1 : p < 2 ^ 31)
    (h : unusedPid task fuel p = some q) : taken task q = false ∧ 0 < q ∧ q < 2 ^ 31 := by
  induction fuel generalizing p with
  | zero => cases h
  | succ fuel ih =>
    have hnext := nextPid_eq h0 h1
    unfold unusedPid at h
    split at h
    · exact ih (by omega) (by omega) h
    · next hfree =>
      cases h
      exact ⟨Bool.eq_false_iff.mpr hfree, by omega, by omega⟩

/-- Where the loop has found nothing, all it has tried are taken. -/
theorem taken_of_unusedPid_eq_none {fuel : Nat} {p : Int} (h0 : 0 ≤ p) (h1 : p < 2 ^ 31)
    (h : unusedPid task fuel p = none) {k : Nat} (hk : k < fuel) :
    taken task ((p + k) % (2 ^ 31 - 1) + 1) = true := by
  induction fuel generalizing p k with
  | zero => exact absurd hk (Nat.not_lt_zero k)
  | succ fuel ih =>
    have hnext := nextPid_eq h0 h1
    unfold unusedPid at h
    split at h
    · next htaken =>
      cases k with
      | zero =>
        rw [hnext] at htaken
        rwa [Int.natCast_zero, Int.add_zero]
      | succ k =>
        have := ih (by omega) (by omega) h (Nat.lt_of_succ_lt_succ hk)
        rwa [hnext, show (p % (2 ^ 31 - 1) + 1 + (k : Int)) % (2 ^ 31 - 1) =
          (p + ((k + 1 : Nat) : Int)) % (2 ^ 31 - 1) by omega] at this
    · cases h

/-- The loop of `find_empty_process` ends. -/
theorem unusedPid_isSome {p : Int} (h0 : 0 ≤ p) (h1 : p < 2 ^ 31) :
    (unusedPid task (nrTasks + 1) p).isSome = true := by
  rw [Option.isSome_iff_ne_none]
  intro hnone
  have htaken : ∀ k : Fin (nrTasks + 1), ∃ i t, task i = some t ∧
      t.pid = (p + (k.val : Int)) % (2 ^ 31 - 1) + 1 :=
    fun k => taken_iff.mp (taken_of_unusedPid_eq_none h0 h1 hnone k.isLt)
  choose slot holder hslot hpid using htaken
  obtain ⟨k, l, hne, heq⟩ := Fintype.exists_ne_map_eq_of_card_lt slot (by
    rw [Fintype.card_fin, Fintype.card_fin]
    exact Nat.lt_succ_self _)
  have hholder : holder k = holder l := by
    have := hslot k
    rw [heq, hslot l] at this
    exact (Option.some.inj this).symm
  have hpids := hpid k
  rw [hholder, hpid l] at hpids
  have hk : k.val < 65 := k.isLt
  have hl : l.val < 65 := l.isLt
  exact hne (Fin.ext (by omega))

/-! ## Invariant -/

structure Inv (s : Table) : Prop where
  family : Family s.task
  ledger : Ledger s.task s.hist
  lastPid : 0 ≤ s.lastPid ∧ s.lastPid < 2 ^ 31

/-- A task touched, in a way that neither its family nor its history can tell. -/
structure Task.Touch (t t' : Task) : Prop where
  kin : t.Kin t'
  same : t.Same t'

theorem Task.Touch.refl (t : Task) : t.Touch t := ⟨.refl t, .refl t⟩

theorem Pointwise.mono {R Q : Task → Task → Prop} (h : Pointwise R task task')
    (hmono : ∀ t t', R t t' → Q t t') : Pointwise Q task task' := by
  refine ⟨fun i t' ht' => ?_, fun i t ht => ?_⟩
  · obtain ⟨t, ht, hR⟩ := h.1 i t' ht'
    exact ⟨t, ht, hmono t t' hR⟩
  · obtain ⟨t', ht', hR⟩ := h.2 i t ht
    exact ⟨t', ht', hmono t t' hR⟩

theorem Inv.touch (I : Inv s) (h : Pointwise Task.Touch s.task task) : Inv { s with task } :=
  ⟨I.family.touch (h.mono fun _ _ T => T.kin), I.ledger.touch (h.mono fun _ _ T => T.same), I.lastPid⟩

theorem Inv.put (I : Inv s) (ht : s.task i = some t) (T : t.Touch t') : Inv (s.put i t') :=
  I.touch (pointwise_update Task.Touch.refl ht T)

/-- A task of the same identity, state and place. -/
theorem Task.Touch.of_place (hpid : t'.pid = t.pid) (hid : t'.id = t.id) (hfather : t'.father = t.father)
    (hparent : t'.parent = t.parent) (hcode : t'.exitCode = t.exitCode) (hstate : t'.state = t.state)
    (hphase : t'.phase = t.phase) : t.Touch t' := by
  refine ⟨⟨hpid, hid, hfather, hparent, fun O => ⟨?_, ?_⟩, fun h => hphase ▸ h⟩,
    ⟨hid, hpid, hcode, Or.inl hphase⟩⟩
  · rw [hstate]
    exact O.stopped
  · rw [hstate, hphase]
    exact O.zombie

/-- A live task that goes to user mode or to sleep. -/
theorem Task.Touch.of_alive (hpid : t'.pid = t.pid) (hid : t'.id = t.id) (hfather : t'.father = t.father)
    (hparent : t'.parent = t.parent) (hcode : t'.exitCode = t.exitCode)
    (halive : t.phase.isAlive = true)
    (hphase : t'.phase = .user ∨ ∃ pid options, t'.phase = .waiting pid options)
    (hstate : t'.state = t.state ∨ t'.state = .running ∨ t'.state = .interruptible) : t.Touch t' := by
  have halive' : t'.phase.isAlive = true := by
    obtain h | ⟨pid, options, h⟩ := hphase <;> rw [h] <;> rfl
  exact ⟨.of_alive hpid hid hfather hparent halive halive' hstate, hid, hpid, hcode, Or.inr hphase⟩

theorem modify_touch {f : Task → Task} (hf : ∀ t : Task, t.Touch (f t)) :
    Pointwise Task.Touch task (Function.update task i ((task i).map f)) := by
  cases ht : task i with
  | none =>
    rw [Option.map_none, ← ht, Function.update_eq_self]
    exact ⟨fun j t h => ⟨t, h, .refl t⟩, fun j t h => ⟨t, h, .refl t⟩⟩
  | some t => exact pointwise_update Task.Touch.refl ht (hf t)

theorem tell_touch : Pointwise Task.Touch task (tell i task) :=
  modify_touch fun _ => .of_place rfl rfl rfl rfl rfl rfl rfl

/-! ## Fork -/

theorem emptySlot_spec (h : emptySlot task = some nr) : nr ≠ 0 ∧ task nr = none := by
  have := List.find?_some h
  rw [decide_eq_true_iff] at this
  exact ⟨this.1, Option.isNone_iff_eq_none.mp this.2⟩

theorem sysFork_inv {memory : Bool} (I : Inv s) (hi : i ≠ 0) (ht : s.task i = some t) (huser : t.phase = .user)
    (h : sysFork i t memory s = some s') : Inv s' := by
  obtain ⟨q, hq, rfl⟩ := Option.map_eq_some_iff.mp h
  obtain ⟨hfree, hpos, hlt⟩ := unusedPid_spec I.lastPid.1 I.lastPid.2 hq
  have I' : Inv { s with lastPid := q } := ⟨I.family, I.ledger, Int.le_of_lt hpos, hlt⟩
  have T : ∀ x, t.Touch { t with eax := x } := fun x => .of_place rfl rfl rfl rfl rfl rfl rfl
  dsimp only
  split
  · exact I'.put ht (T _)
  · next nr hnr =>
    obtain ⟨-, hempty⟩ := emptySlot_spec hnr
    unfold copyProcess
    split
    · have hne : i ≠ nr := by
        rintro rfl
        rw [hempty] at ht
        cases ht
      have halive : t.phase.isAlive = true := by
        rw [huser]
        rfl
      have C : Inv { s with
          lastPid := q
          task := Function.update s.task nr (some (t.child q s.hist.next))
          hist := s.hist.fork q } := by
        refine ⟨I.family.create hi ht halive hempty hpos (fun j u hu he => ?_) (fun j u hu he => ?_),
          I.ledger.create hempty, Int.le_of_lt hpos, hlt⟩
        · rw [taken_iff.mpr ⟨j, u, hu, he⟩] at hfree
          cases hfree
        · exact Nat.lt_irrefl _ (he ▸ I.ledger.fresh j u hu)
      exact C.put ((Function.update_of_ne hne _ _).trans ht) (T _)
    · exact I'.put ht (T _)

/-! ## Exit -/

theorem adopt_touch (F : Family task) :
    Pointwise Task.Touch (fun i => (task i).map (reparent t 1)) (adopt t task) := by
  obtain ⟨u, hu, -, -, hid⟩ := F.init
  unfold adopt
  rw [hu, Option.map_some, Option.getD_some, hid]
  dsimp only
  split
  · exact tell_touch
  · exact ⟨fun j t h => ⟨t, h, .refl t⟩, fun j t h => ⟨t, h, .refl t⟩⟩

/-- Nobody is left with a father of this pid. -/
theorem adopt_father (F : Family task) (hpid : t.pid ≠ 1) (h : adopt t task j = some u) :
    u.father ≠ t.pid := by
  obtain ⟨v, hv, T⟩ := (adopt_touch F).1 j u h
  obtain ⟨w, -, rfl⟩ := Option.map_eq_some_iff.mp hv
  rw [T.kin.father]
  unfold reparent
  dsimp only
  split
  · exact hpid.symm
  · assumption

theorem doExit_inv {code : Int} (I : Inv s) (ht : s.task i = some t) (huser : t.phase = .user)
    (hi : i ≠ 0 ∧ i ≠ 1) : Inv (doExit i t code s) := by
  obtain ⟨F, L, hlast⟩ := I
  have hpid : t.pid ≠ 1 := by
    obtain ⟨u, hu, hone, -⟩ := F.init
    intro he
    exact hi.2 (F.pid i 1 t u ht hu (he.trans hone.symm))
  have F' : Family (adopt t s.task) := (F.reparent ht).touch ((adopt_touch F).mono fun _ _ T => T.kin)
  have hsame : Pointwise Task.Same s.task fun i => (s.task i).map (reparent t 1) :=
    pointwise_map fun _ _ _ => ⟨rfl, rfl, rfl, Or.inl rfl⟩
  have L' : Ledger (adopt t s.task) s.hist :=
    (L.touch hsame).touch ((adopt_touch F).mono fun _ _ T => T.same)
  -- the task itself is still there and alive
  obtain ⟨t', ht', T⟩ := (adopt_touch F).2 i (reparent t 1 t) (by dsimp only; rw [ht, Option.map_some])
  have halive : t'.phase.isAlive = true := by
    refine T.kin.alive ?_
    show t.phase.isAlive = true
    rw [huser]
    rfl
  have hstate : t'.state ≠ .zombie := by
    intro h
    rw [(F'.ok i t' ht').zombie.mp h] at halive
    cases halive
  have hgone : ∀ j u, j ≠ 0 → adopt t s.task j = some u → u.father ≠ t'.pid := by
    intro j u _ hu
    rw [T.kin.pid]
    exact adopt_father F hpid hu
  unfold doExit
  dsimp only
  rw [ht', Option.map_some]
  refine ⟨F'.leave ht' hi rfl rfl rfl rfl ⟨(F'.ok i t' ht').stopped, iff_of_false hstate fun h => by cases h⟩
    fun _ => hgone, ?_, hlast⟩
  have hid : t'.id = t.id := T.kin.id
  rw [← hid]
  exact L'.leave _ s.hist.zombies F' ht' rfl rfl
    (fun n hn => Function.update_of_ne hn _ _) (List.Subset.refl _)
    (Or.inl ⟨code, rfl, Function.update_self _ _ _⟩)

theorem fatherSlot_isSome {pid : Int} (hpid : pid ≠ 0) (hu : task j = some u) (he : u.pid = pid) :
    (fatherSlot task pid).isSome = true := by
  unfold fatherSlot
  rw [if_neg hpid, List.find?_isSome]
  exact ⟨j, List.mem_finRange j, (Option.any_eq_true _ _).mpr ⟨u, hu, decide_eq_true he⟩⟩

theorem becomeZombie_inv {code : Int} (I : Inv s) (ht : s.task i = some t)
    (hexiting : t.phase = .exiting code) : Inv (becomeZombie i t code s) := by
  obtain ⟨F, L, hlast⟩ := I
  have hdead : t.phase.isAlive = false := by
    rw [hexiting]
    rfl
  have hi : i ≠ 0 ∧ i ≠ 1 := by
    constructor
    · rintro rfl
      obtain ⟨u, hu, -, halive, -⟩ := F.idle
      cases ht.symm.trans hu
      rw [hdead] at halive
      cases halive
    · rintro rfl
      obtain ⟨u, hu, -, halive, -⟩ := F.init
      cases ht.symm.trans hu
      rw [hdead] at halive
      cases halive
  have Z : Inv { s.put i { t with state := .zombie, exitCode := code, phase := .exited } with
      hist := { s.hist with zombies := t.id :: s.hist.zombies } } := by
    refine ⟨?_, ?_, hlast⟩
    · refine F.leave ht hi rfl rfl rfl rfl ⟨State.noConfusion, iff_of_true rfl rfl⟩ fun halive => ?_
      rw [hdead] at halive
      cases halive
    · exact L.leave s.hist.exit _ F ht rfl rfl (fun _ _ => rfl) (List.subset_cons_self _ _)
        (Or.inr ⟨rfl, L.exiting i t code ht hexiting, List.mem_cons_self⟩)
  -- its father is there
  obtain ⟨k, u, hu, hpid, -⟩ := Z.family.father i _ hi.1 (Function.update_self _ _ _)
  have hnamed := F.named i t hi.1 hi.2 ht
  obtain ⟨j, hj⟩ := Option.isSome_iff_exists.mp (fatherSlot_isSome hnamed hu hpid)
  unfold becomeZombie
  dsimp only
  rw [hj]
  exact Z.touch tell_touch

/-! ## Wait -/

/-- What a scan that finds something has found. -/
def Found.Sound (s : Table) (i : Slot) (t : Task) (nrs : List Slot) : Found → Prop
  | .stopped u => ∃ nr, s.task nr = some u ∧ u.state = .stopped
  | .zombie nr u => nr ∈ nrs ∧ nr ≠ i ∧ s.task nr = some u ∧ u.father = t.pid ∧ u.state = .zombie
  | .none _ => True

theorem Found.Sound.cons {nrs : List Slot} {f : Found} (h : f.Sound s i t nrs) : f.Sound s i t (nr :: nrs) := by
  cases f with
  | zombie nr' u => exact ⟨List.mem_cons_of_mem _ h.1, h.2⟩
  | _ => exact h

theorem scan_sound {pid options : Int} (nrs : List Slot) (flag : Bool) :
    (scan s i t pid options nrs flag).Sound s i t nrs := by
  induction nrs generalizing flag with
  | nil => trivial
  | cons nr nrs ih =>
    unfold scan
    split
    · exact (ih flag).cons
    · next u hu =>
      split
      · exact (ih flag).cons
      · next hwanted =>
        push Not at hwanted
        split
        · next hstate =>
          split
          · exact ⟨nr, hu, hstate⟩
          · exact (ih flag).cons
        · next hstate => exact ⟨List.mem_cons_self, hwanted.1, hu, hwanted.2.1, hstate⟩
        · exact (ih true).cons

/-- A zombie goes to the father that waits for it. -/
theorem collect_inv (I : Inv s) (ht : s.task i = some t) (halive : t.phase.isAlive = true)
    (hnr : nr ≠ 0) (hne : nr ≠ i) (hu : s.task nr = some u) (hfather : u.father = t.pid)
    (hzombie : u.state = .zombie) :
    Inv ((release nr s).put i { t with phase := .releasing ⟨u.id, t.id, u.parent, u.pid, u.exitCode⟩ }) := by
  obtain ⟨F, L, hlast⟩ := I
  have hexited : u.phase = .exited := (F.ok nr u hu).zombie.mp hzombie
  have hparent : u.parent = t.id := (F.father_iff ht hnr hu).mp hfather
  have hdead : u.phase.isAlive = false := by
    rw [hexited]
    rfl
  have ht' : Function.update s.task nr none i = some t := (Function.update_of_ne hne.symm _ _).trans ht
  have K : t.Kin { t with phase := .releasing ⟨u.id, t.id, u.parent, u.pid, u.exitCode⟩ } :=
    .of_alive rfl rfl rfl rfl halive rfl (Or.inl rfl)
  unfold release Table.put
  rw [hu]
  dsimp only
  refine ⟨(F.remove hu hdead).touch (pointwise_update Task.Kin.refl ht' K), ?_, hlast⟩
  obtain ⟨hcode, hz⟩ := L.exited nr u hu hexited
  -- the number of the child is new among the released ones
  have hnew : ∀ {q : Return}, q.Good s.hist → q.child ≠ u.id :=
    fun G he => (L.gone _ G.released).2 nr u hu he.symm
  refine (L.remove F hu).hold ht' rfl rfl rfl ⟨List.mem_cons_self, hz, hcode, hparent, L.pid nr u hu⟩ rfl
    (fun q hq => hnew (L.good q hq)) fun j v q hv hq => ?_
  obtain ⟨-, he⟩ | ⟨-, hv⟩ := update_eq_some hv
  · cases he
  · exact hnew (L.pending j v q hv hq).1

theorem slots_ne (h : nr ∈ slots) : nr ≠ 0 := by
  unfold slots at h
  rw [List.mem_reverse, List.mem_filter] at h
  exact of_decide_eq_true h.2

theorem waitpid_inv {pid options : Int} (I : Inv s) (ht : s.task i = some t)
    (halive : t.phase.isAlive = true) : Inv (waitpid i t pid options s) := by
  have hsound : (scan s i t pid options slots false).Sound s i t slots := scan_sound slots false
  have T : ∀ x, t.Touch { t with eax := x, phase := .user } :=
    fun x => .of_alive rfl rfl rfl rfl rfl halive (Or.inl rfl) (Or.inl rfl)
  unfold waitpid
  split
  · next u hscan =>
    rw [hscan] at hsound
    obtain ⟨nr, hu, hstopped⟩ := hsound
    exact absurd hstopped (I.family.ok nr u hu).stopped
  · next nr u hscan =>
    rw [hscan] at hsound
    obtain ⟨hnr, hne, hu, hfather, hzombie⟩ := hsound
    exact collect_inv I ht halive (slots_ne hnr) hne hu hfather hzombie
  · split
    · exact I.put ht (T _)
    · exact I.put ht (.of_alive rfl rfl rfl rfl rfl halive (Or.inr ⟨pid, options, rfl⟩)
        (Or.inr (Or.inr rfl)))
  · exact I.put ht (T _)

theorem wake_inv {pid options : Int} (I : Inv s) (ht : s.task i = some t)
    (hwaiting : t.phase = .waiting pid options) : Inv (wake i t pid options s) := by
  have halive : t.phase.isAlive = true := by
    rw [hwaiting]
    rfl
  have W : Inv (s.put i { t with state := .running, signal := t.signal &&& ~~~sigchld }) :=
    I.put ht (.of_alive rfl rfl rfl rfl rfl halive (Or.inr ⟨pid, options, hwaiting⟩) (Or.inr (Or.inl rfl)))
  unfold wake
  dsimp only
  split
  · exact waitpid_inv W (Function.update_self _ _ _) halive
  · exact W.put (Function.update_self _ _ _)
      (.of_alive rfl rfl rfl rfl rfl halive (Or.inl rfl) (Or.inl rfl))

theorem finish_inv {r : Return} (I : Inv s) (ht : s.task i = some t) (hphase : t.phase = .releasing r) :
    Inv (finish i t r s) := by
  have halive : t.phase.isAlive = true := by
    rw [hphase]
    rfl
  obtain ⟨G, -, hreturned⟩ := I.ledger.pending i t r ht hphase
  have P : Inv (s.put i { t with eax := r.pid, phase := .user }) :=
    I.put ht (.of_alive rfl rfl rfl rfl rfl halive (Or.inl rfl) (Or.inl rfl))
  refine ⟨P.family, P.ledger.log G hreturned fun j u q hu hq => ?_, P.lastPid⟩
  obtain ⟨-, he⟩ | ⟨hj, hu⟩ := update_eq_some hu
  · cases he
    cases hq
  · exact fun he => hj (I.ledger.apart j i u t q r hu ht hq hphase he)

/-! ## Groups -/

theorem setpgid_inv {pid pgid : Int} (I : Inv s) (ht : s.task i = some t) :
    Inv (setpgid i t pid pgid s) := by
  have T : ∀ x, t.Touch { t with eax := x } := fun x => .of_place rfl rfl rfl rfl rfl rfl rfl
  unfold setpgid
  dsimp only
  split
  · exact I.put ht (T _)
  · split
    · exact I
    · next j _ _ u hu =>
      split
      · exact I.put ht (T _)
      · have P : Inv (s.put j { u with pgrp := if pgid = 0 then t.pid else pgid }) :=
          I.put hu (.of_place rfl rfl rfl rfl rfl rfl rfl)
        exact P.touch (modify_touch fun _ => .of_place rfl rfl rfl rfl rfl rfl rfl)

theorem setsid_inv {suser : Bool} (I : Inv s) (ht : s.task i = some t) : Inv (setsid i t suser s) := by
  unfold setsid
  split
  · exact I.put ht (.of_place rfl rfl rfl rfl rfl rfl rfl)
  · exact I.put ht (.of_place rfl rfl rfl rfl rfl rfl rfl)

/-! ## Runs -/

theorem call_eq_some {f : Task → Option Table} (h : call s i f = some s') :
    i ≠ 0 ∧ ∃ t, s.task i = some t ∧ t.phase = .user ∧ f t = some s' := by
  unfold call at h
  split at h
  · cases h
  · next hi =>
    obtain ⟨t, ht, h⟩ := Option.bind_eq_some_iff.mp h
    obtain ⟨huser, h⟩ := Option.ite_none_right_eq_some.mp h
    exact ⟨hi, t, ht, huser, h⟩

theorem step_inv {e : Event} (I : Inv s) (h : step s e = some s') : Inv s' := by
  cases e with
  | fork i memory =>
    obtain ⟨hi, t, ht, huser, h⟩ := call_eq_some h
    exact sysFork_inv I hi ht huser h
  | exit i code =>
    obtain ⟨hi, h⟩ := Option.ite_none_left_eq_some.mp h
    obtain ⟨hi', t, ht, huser, h⟩ := call_eq_some h
    cases h
    exact doExit_inv I ht huser ⟨hi', hi⟩
  | zombie i =>
    have h : die s i = some s' := h
    unfold die at h
    obtain ⟨t, ht, h⟩ := Option.bind_eq_some_iff.mp h
    split at h
    · next code hphase =>
      cases h
      exact becomeZombie_inv I ht hphase
    · cases h
  | waitpid i pid options =>
    obtain ⟨-, t, ht, huser, h⟩ := call_eq_some h
    cases h
    exact waitpid_inv I ht (by rw [huser]; rfl)
  | wake i =>
    have h : resume s i = some s' := h
    unfold resume at h
    obtain ⟨t, ht, h⟩ := Option.bind_eq_some_iff.mp h
    split at h
    · next pid options hphase =>
      cases h
      exact wake_inv I ht hphase
    · next r hphase =>
      cases h
      exact finish_inv I ht hphase
    · cases h
  | setpgid i pid pgid =>
    obtain ⟨-, t, ht, -, h⟩ := call_eq_some h
    cases h
    exact setpgid_inv I ht
  | setsid i suser =>
    obtain ⟨-, t, ht, -, h⟩ := call_eq_some h
    cases h
    exact setsid_inv I ht
  | post i bits =>
    obtain ⟨t, ht, h⟩ := Option.map_eq_some_iff.mp h
    cases h
    exact I.put ht (.of_place rfl rfl rfl rfl rfl rfl rfl)

/-- The tasks of `boot`. -/
theorem boot_task (h : boot.task i = some t) :
    (i = 0 ∧ t = { initTask with eax := 1 }) ∨ i = 1 ∧ t = initTask.child 1 1 := by
  obtain ⟨hi, he⟩ | ⟨-, h⟩ := ite_eq_iff.mp h
  · exact Or.inl ⟨hi, (Option.some.inj he).symm⟩
  · obtain ⟨hi, he⟩ := Option.ite_none_right_eq_some.mp h
    exact Or.inr ⟨hi, (Option.some.inj he).symm⟩

theorem boot_inv : Inv boot := by
  refine ⟨?_, ?_, by decide, by decide⟩
  · refine ⟨⟨_, rfl, rfl, rfl, rfl⟩, ⟨_, rfl, rfl, rfl, rfl⟩, fun i t ht => ?_, fun i t hi ht => ?_,
      fun i j t u ht hu he => ?_, fun i j t u ht hu he => ?_, fun i t hi ht => ?_, fun i t hi hi' ht => ?_⟩
    · obtain ⟨-, rfl⟩ | ⟨-, rfl⟩ := boot_task ht
      · exact ⟨State.noConfusion, iff_of_false State.noConfusion Phase.noConfusion⟩
      · exact child_ok
    · obtain ⟨rfl, -⟩ | ⟨-, rfl⟩ := boot_task ht
      · exact absurd rfl hi
      · decide
    · obtain ⟨rfl, rfl⟩ | ⟨rfl, rfl⟩ := boot_task ht
      · obtain ⟨rfl, rfl⟩ | ⟨rfl, rfl⟩ := boot_task hu
        · rfl
        · cases he
      · obtain ⟨rfl, rfl⟩ | ⟨rfl, rfl⟩ := boot_task hu
        · cases he
        · rfl
    · obtain ⟨rfl, rfl⟩ | ⟨rfl, rfl⟩ := boot_task ht
      · obtain ⟨rfl, rfl⟩ | ⟨rfl, rfl⟩ := boot_task hu
        · rfl
        · cases he
      · obtain ⟨rfl, rfl⟩ | ⟨rfl, rfl⟩ := boot_task hu
        · cases he
        · rfl
    · obtain ⟨rfl, -⟩ | ⟨-, rfl⟩ := boot_task ht
      · exact absurd rfl hi
      · exact ⟨0, _, rfl, rfl, rfl, rfl⟩
    · obtain ⟨rfl, -⟩ | ⟨rfl, -⟩ := boot_task ht
      · exact absurd rfl hi
      · exact absurd rfl hi'
  · refine ⟨fun i t ht => ?_, fun i t ht => ?_, fun i t code ht hphase => ?_, fun i t ht hphase => ?_,
      List.nodup_nil, fun n hn => ?_, fun n hn => ?_, fun r hr => ?_, fun i t r ht hphase => ?_,
      fun i j t u r q ht hu hr => ?_, List.nodup_nil⟩
    · obtain ⟨-, rfl⟩ | ⟨-, rfl⟩ := boot_task ht <;> decide
    · obtain ⟨-, rfl⟩ | ⟨-, rfl⟩ := boot_task ht <;> rfl
    · obtain ⟨-, rfl⟩ | ⟨-, rfl⟩ := boot_task ht <;> cases hphase
    · obtain ⟨-, rfl⟩ | ⟨-, rfl⟩ := boot_task ht <;> cases hphase
    · cases hn
    · have hn : n < 2 := hn
      obtain rfl | rfl : n = 0 ∨ n = 1 := by omega
      · exact Or.inl ⟨0, _, rfl, rfl⟩
      · exact Or.inl ⟨1, _, rfl, rfl⟩
    · cases hr
    · obtain ⟨-, rfl⟩ | ⟨-, rfl⟩ := boot_task ht <;> cases hphase
    · obtain ⟨-, rfl⟩ | ⟨-, rfl⟩ := boot_task ht <;> cases hr

/-- In every reachable table: pids tell the tasks apart and are positive outside slot 0; the father of
every task from slot 2 on is init or has a pid of a task that is no zombie; `find_empty_process` finds
a pid; a process is in the table or was released, once; and `waitpid` has returned each child at most
once, released, as a zombie, to its father, with its pid and the code it passed to `do_exit`. -/
theorem process_table (h : Lib.Reach step (fun _ _ => True) (· = boot) s) :
    (∀ i j t u, s.task i = some t → s.task j = some u → t.pid = u.pid → i = j) ∧
      (∀ i t, i ≠ 0 → s.task i = some t → 0 < t.pid) ∧
      (∀ i t, i ≠ 0 → i ≠ 1 → s.task i = some t →
        t.father = 1 ∨ ∃ j u, s.task j = some u ∧ u.pid = t.father ∧ u.state ≠ .zombie) ∧
      (unusedPid s.task (nrTasks + 1) s.lastPid).isSome = true ∧
      (s.hist.released.Nodup ∧
        (∀ i j t u, s.task i = some t → s.task j = some u → t.id = u.id → i = j) ∧
        ∀ n, (∃ i t, s.task i = some t ∧ t.id = n) ↔ n < s.hist.next ∧ n ∉ s.hist.released) ∧
      (s.hist.returned.map Return.child).Nodup ∧
      ∀ r ∈ s.hist.returned, r.child ∈ s.hist.released ∧ r.child ∈ s.hist.zombies ∧
        s.hist.exit r.child = some r.code ∧ r.father = r.caller ∧ s.hist.pid r.child = r.pid := by
  obtain ⟨F, L, hlast⟩ : Inv s :=
    h.invariant (fun s hs => hs ▸ boot_inv) fun s e s' I _ hstep => step_inv I hstep
  refine ⟨F.pid, F.pos, fun i t hi _ ht => Or.inr ?_, unusedPid_isSome hlast.1 hlast.2,
    ⟨L.nodup, F.id, fun n => ⟨?_, fun hn => (L.complete n hn.1).resolve_right hn.2⟩⟩, L.once,
    fun r hr => ?_⟩
  · obtain ⟨j, u, hu, hpid, -, halive⟩ := F.father i t hi ht
    refine ⟨j, u, hu, hpid, fun hz => ?_⟩
    rw [(F.ok j u hu).zombie.mp hz] at halive
    cases halive
  · rintro ⟨i, t, ht, rfl⟩
    exact ⟨L.fresh i t ht, fun hmem => (L.gone _ hmem).2 i t ht rfl⟩
  · have G := L.good r hr
    exact ⟨G.released, G.zombie, G.code, G.father, G.pid⟩

/-- Init makes a child and waits; the child makes one of its own and exits, and then that one does.
Both are returned to init. -/
theorem process_table_orphan : ∃ s : Table,
    s.hist.returned = [⟨3, 1, 1, 3, 512⟩, ⟨2, 1, 1, 2, 256⟩] ∧
      (s.hist.returned.map Return.child).Nodup ∧
      ∀ r ∈ s.hist.returned, r.child ∈ s.hist.released ∧ r.child ∈ s.hist.zombies ∧
        s.hist.exit r.child = some r.code ∧ r.father = r.caller ∧ s.hist.pid r.child = r.pid := by
  obtain ⟨s, hs, hreturned⟩ : ∃ s, Lib.run step boot
      [.fork 1 true, .waitpid 1 (-1) 0, .fork 2 true, .exit 2 256, .zombie 2, .wake 1, .wake 1,
        .exit 3 512, .zombie 3, .waitpid 1 3 0, .wake 1] = some s ∧
        s.hist.returned = [⟨3, 1, 1, 3, 512⟩, ⟨2, 1, 1, 2, 256⟩] :=
    ⟨_, rfl, by decide +kernel⟩
  refine ⟨s, hreturned, ?_⟩
  have hstart : Lib.Reach step (fun _ _ => True) (· = boot) boot := .start rfl
  exact (process_table (hstart.ofRun (fun _ _ => trivial) hs)).2.2.2.2.2

end Linux011.TaskTable
