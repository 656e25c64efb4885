import Linux011.Drivers.Floppy

/-!
# The errors of the floppy driver

`bad_flp_intr` looks at `CURRENT` behind the request it has given up, as `bad_rw_intr` does. There is a
second way to an empty queue: `do_fd_request` resets and recalibrates before it looks at the queue. If it
does that for no request, the handler is still waiting when the next request comes and sets its timer, and
when the handler is called it sets a second one. The second timer then transfers for a request that is
over.

As long as neither happens there is at each time one handler or one timer, and then there is a request.
-/

namespace Linux011.Drivers.Fd

/-- What comes from outside, with what the controller and the motor do meanwhile. -/
inductive Input
  | interrupt (reply : Reply) (takes : List Bool) (motor : Nat)
  | timer (i : Nat) (takes : List Bool) (motor : Nat)
  | arrive (id dev : Nat) (cmd : Rw) (block place : Nat) (takes : List Bool) (motor : Nat)

/-- A run ends with its first fault. -/
def step (s : Fd) : Input → Option Fd
  | .interrupt reply takes motor =>
    if s.fault = false then some (interrupt reply { s with takes := takes, motor := motor }) else none
  | .timer i takes motor =>
    if s.fault = false then
      s.timers[i]?.map (expire { s with timers := s.timers.eraseIdx i, takes := takes, motor := motor })
    else none
  | .arrive id dev cmd block place takes motor =>
    if s.fault = false then
      match s.queue with
      | [] =>
        some (doFdRequest { s with
          queue := [Request.make id dev cmd block], takes := takes, motor := motor })
      | r :: q =>
        if place ≤ q.length then
          some { s with queue := r :: q.insertIdx place (Request.make id dev cmd block) }
        else none
    else none

/-- The handler does not give up its request, and when it ends it neither `reset` nor `recalibrate` is
set. -/
def Spares (reply : Reply) (s : Fd) (r : Request) : Handler → Prop
  | .rwInterrupt =>
    let (n, t) := result reply s
    if rwFails n t ∧ writeProtected t = false then r.errors + 1 ≤ maxErrors
    else t.reset = false ∧ t.recalibrate = false
  | .seekInterrupt =>
    let (n, t) := result reply (s.outputByte 0x08)
    seekFails n t → r.errors + 1 ≤ maxErrors
  | _ => True

/-- A request that is given up has another one behind it, and when the last one ends otherwise neither
`reset` nor `recalibrate` is set. -/
def Followed (s : Fd) : Input → Prop
  | .interrupt reply takes motor => ∀ h r, s.doFloppy = some h → s.queue = [r] →
    Spares reply { s with doFloppy := none, takes := takes, motor := motor } r h
  | _ => True

/-- `CURRENT` has not been looked up in vain, and each error is counted in the request it belongs to. -/
structure Right (s : Fd) : Prop where
  fault : s.fault = false
  charged : ∀ owner charged, .error owner charged ∈ s.log → owner = charged

/-- The driver has nothing under way. -/
structure Idle (s : Fd) : Prop extends Right s where
  doFloppy : s.doFloppy = none
  timers : s.timers = []

/-- The driver has at most one thing under way, and then it is for the first request. -/
inductive Sound (s : Fd) : Prop
  | idle (h : Idle s)
  | handler (h : Right s) (ht : s.timers = []) {r : Request} {q : List Request} (hq : s.queue = r :: q)
    (ho : s.doFloppy = some .rwInterrupt ∨ s.doFloppy = some .seekInterrupt → s.owner = r.id)
  | timer (h : Right s) (hd : s.doFloppy = none) {t : Timer} (ht : s.timers = [t]) {r : Request}
    {q : List Request} (hq : s.queue = r :: q) (ho : s.owner = r.id)

variable {s : Fd} {r : Request} {q : List Request}

/-! ## What the controller changes -/

/-- `s'` is `s` after the controller was told something or asked: nothing else is changed. -/
structure Asked (s s' : Fd) : Prop where
  queue : s'.queue = s.queue
  doFloppy : s'.doFloppy = s.doFloppy
  timers : s'.timers = s.timers
  owner : s'.owner = s.owner
  fault : s'.fault = s.fault
  log : s'.log = s.log

theorem Asked.refl (s : Fd) : Asked s s := ⟨rfl, rfl, rfl, rfl, rfl, rfl⟩

theorem Asked.trans {s₁ s₂ s₃ : Fd} (h : Asked s₁ s₂) (h' : Asked s₂ s₃) : Asked s₁ s₃ :=
  ⟨h'.queue.trans h.queue, h'.doFloppy.trans h.doFloppy, h'.timers.trans h.timers, h'.owner.trans h.owner,
    h'.fault.trans h.fault, h'.log.trans h.log⟩

theorem Asked.right {s' : Fd} (h : Asked s s') (hs : Right s) : Right s' :=
  ⟨h.fault.trans hs.fault, by rw [h.log]; exact hs.charged⟩

theorem Asked.idle {s' : Fd} (h : Asked s s') (hs : Idle s) : Idle s' :=
  ⟨h.right hs.toRight, h.doFloppy.trans hs.doFloppy, h.timers.trans hs.timers⟩

theorem Asked.sound {s' : Fd} (h : Asked s s') (hs : Sound s) : Sound s' := by
  cases hs with
  | idle hi => exact .idle (h.idle hi)
  | handler hr ht hq ho =>
    refine .handler (h.right hr) (h.timers.trans ht) (h.queue.trans hq) fun hd => ?_
    rw [h.doFloppy] at hd
    exact h.owner.trans (ho hd)
  | timer hr hd ht hq ho =>
    exact .timer (h.right hr) (h.doFloppy.trans hd) (h.timers.trans ht) (h.queue.trans hq)
      (h.owner.trans ho)

theorem outputByte_asked (s : Fd) (byte : Byte) : Asked s (s.outputByte byte) := by
  unfold outputByte
  split
  · exact .refl s
  · split
    · exact ⟨rfl, rfl, rfl, rfl, rfl, rfl⟩
    · exact ⟨rfl, rfl, rfl, rfl, rfl, rfl⟩

theorem outputBytes_asked : ∀ (bytes : List Byte) (s : Fd), Asked s (s.outputBytes bytes)
  | [], s => .refl s
  | b :: bytes, s => (outputByte_asked s b).trans (outputBytes_asked bytes _)

theorem result_asked (reply : Reply) (s : Fd) : Asked s (result reply s).2 := by
  unfold result
  split
  · exact .refl s
  · dsimp only
    split
    · exact ⟨rfl, rfl, rfl, rfl, rfl, rfl⟩
    · exact ⟨rfl, rfl, rfl, rfl, rfl, rfl⟩

/-! ## Starting something -/

theorem restart_sound (hs : Right s) (ht : s.timers = []) (hq : s.queue = r :: q) : Sound s.restart := by
  refine .handler (s := s.restart) ⟨hs.fault, hs.charged⟩ ht hq fun ho => ?_
  rcases ho with ho | ho <;> cases ho

theorem unlessReset_sound (hs : Right s) (ht : s.timers = []) (hq : s.queue = r :: q)
    (h : s.reset = false → Sound s) :
    Sound s.unlessReset := by
  unfold unlessReset
  split
  · exact restart_sound hs ht hq
  · rename_i hr
    exact h (by simpa using hr)

/-- With a handler in place, the controller is told what to do. -/
theorem outputBytes_sound (bytes : List Byte) (hs : Right s) (ht : s.timers = []) (hq : s.queue = r :: q)
    (ho : s.doFloppy = some .rwInterrupt ∨ s.doFloppy = some .seekInterrupt → s.owner = r.id) :
    Sound (s.outputBytes bytes).unlessReset := by
  have hasked := outputBytes_asked bytes s
  have hright := hasked.right hs
  exact unlessReset_sound hright (hasked.timers.trans ht) (hasked.queue.trans hq) fun _ =>
    hasked.sound (.handler hs ht hq ho)

theorem recalibrateFloppy_sound (hs : Right s) (ht : s.timers = []) (hq : s.queue = r :: q) :
    Sound s.recalibrateFloppy := by
  refine outputBytes_sound _ ⟨hs.fault, hs.charged⟩ ht hq fun ho => ?_
  rcases ho with ho | ho <;> cases ho

theorem setupRwFloppy_sound (hs : Right s) (ht : s.timers = []) (hq : s.queue = r :: q)
    (ho : s.owner = r.id) :
    Sound s.setupRwFloppy := by
  have hdma : s.setupDma = s := by simp [setupDma, current, hq]
  unfold setupRwFloppy
  rw [hdma]
  exact outputBytes_sound _ ⟨hs.fault, hs.charged⟩ ht hq fun _ => ho

theorem transfer_sound (hs : Right s) (ht : s.timers = []) (hq : s.queue = r :: q) (ho : s.owner = r.id) :
    Sound s.transfer := by
  unfold transfer
  generalize hspec : (if s.curSpec1 ≠ some s.floppy.spec1 then
    { s with curSpec1 := some s.floppy.spec1 }.outputBytes [0x03, s.floppy.spec1, 6] else s) = s'
  have hasked : Asked s s' := by
    rw [← hspec]
    split
    · have hset : Asked s { s with curSpec1 := some s.floppy.spec1 } := ⟨rfl, rfl, rfl, rfl, rfl, rfl⟩
      exact hset.trans (outputBytes_asked _ _)
    · exact .refl s
  have hright := hasked.right hs
  have hq' := hasked.queue.trans hq
  have ht' := hasked.timers.trans ht
  have ho' := hasked.owner.trans ho
  dsimp only
  split
  · exact restart_sound (s := { s' with curRate := _ }) ⟨hright.fault, hright.charged⟩ ht' hq'
  · split
    · exact setupRwFloppy_sound (s := { s' with curRate := _ }) ⟨hright.fault, hright.charged⟩ ht' hq' ho'
    · exact outputBytes_sound _ ⟨hright.fault, hright.charged⟩ ht' hq' fun _ => ho'

theorem floppyOnInterrupt_sound (hs : Idle s) (hq : s.queue = r :: q) (ho : s.owner = r.id) :
    Sound s.floppyOnInterrupt := by
  unfold floppyOnInterrupt
  dsimp only
  split
  · exact .timer ⟨hs.fault, hs.charged⟩ hs.doFloppy (congrArg _ hs.timers) hq ho
  · exact transfer_sound (s := { s with selected := true }) ⟨hs.fault, hs.charged⟩ hs.timers hq ho

theorem floppyOn_sound (hs : Idle s) (hq : s.queue = r :: q) (ho : s.owner = r.id) :
    Sound s.floppyOn := by
  unfold floppyOn
  generalize hdor : (if s.selected = true then s else { s with dorDrive := s.currentDrive }) = s'
  have hasked : Asked s s' := by
    rw [← hdor]
    split
    · exact .refl s
    · exact ⟨rfl, rfl, rfl, rfl, rfl, rfl⟩
  have hidle := hasked.idle hs
  dsimp only
  split
  · exact floppyOnInterrupt_sound hidle (hasked.queue.trans hq) (hasked.owner.trans ho)
  · exact .timer ⟨hidle.fault, hidle.charged⟩ hidle.doFloppy (congrArg _ hidle.timers)
      (hasked.queue.trans hq)
      (hasked.owner.trans ho)

/-- `do_fd_request` takes up the first request it accepts. -/
theorem request_sound : ∀ (q : List Request) {s : Fd}, Idle s → Sound (request q s)
  | [], _, hs => .idle ⟨⟨hs.fault, hs.charged⟩, hs.doFloppy, hs.timers⟩
  | r :: q, s, hs => by
    unfold request
    dsimp only
    split
    · refine request_sound q ⟨⟨hs.fault, fun owner charged hmem => ?_⟩, hs.doFloppy, hs.timers⟩
      rcases List.mem_cons.1 hmem with heq | hmem
      · cases heq
      · exact hs.charged owner charged hmem
    · unfold serve
      exact floppyOn_sound ⟨⟨hs.fault, hs.charged⟩, hs.doFloppy, hs.timers⟩ rfl rfl

theorem doFdRequest_sound (hs : Idle s) (h : s.queue = [] → s.reset = false ∧ s.recalibrate = false) :
    Sound s.doFdRequest := by
  have hcons : s.reset = true ∨ s.recalibrate = true → ∃ r q, s.queue = r :: q := by
    intro hset
    cases hq : s.queue with
    | nil =>
      obtain ⟨hreset, hrecal⟩ := h hq
      simp [hreset, hrecal] at hset
    | cons r q => exact ⟨r, q, rfl⟩
  unfold doFdRequest
  split
  · rename_i hreset
    obtain ⟨r, q, hq⟩ := hcons (.inl hreset)
    exact restart_sound hs.toRight hs.timers hq
  · split
    · rename_i hrecal
      obtain ⟨r, q, hq⟩ := hcons (.inr hrecal)
      exact recalibrateFloppy_sound (s := { s with seek := false }) ⟨hs.fault, hs.charged⟩ hs.timers hq
    · exact request_sound _ (s := { s with seek := false }) ⟨⟨hs.fault, hs.charged⟩, hs.doFloppy,
        hs.timers⟩

/-! ## Errors and ends -/

theorem endRequest_idle (uptodate : Bool) (hs : Idle s) (hq : s.queue = r :: q) :
    Idle (s.endRequest uptodate) ∧ (s.endRequest uptodate).queue = q ∧
      (s.endRequest uptodate).reset = s.reset ∧ (s.endRequest uptodate).recalibrate = s.recalibrate := by
  simp only [endRequest, current, hq]
  refine ⟨⟨⟨hs.fault, fun owner charged hmem => ?_⟩, hs.doFloppy, hs.timers⟩, rfl, rfl, rfl⟩
  rcases List.mem_cons.1 hmem with heq | hmem
  · cases heq
  · exact hs.charged owner charged hmem

/-- An error is counted in the first request, and a request is left. -/
theorem badFlpIntr_idle (hs : Idle s) (hq : s.queue = r :: q) (ho : s.owner = r.id)
    (hfollowed : maxErrors < r.errors + 1 → q ≠ []) :
    Idle s.badFlpIntr ∧ s.badFlpIntr.queue ≠ [] := by
  have hcounted : Idle
      (say { s with queue := { r with errors := r.errors + 1 } :: q } (.error s.owner r.id)) := by
    refine ⟨⟨hs.fault, fun owner charged hmem => ?_⟩, hs.doFloppy, hs.timers⟩
    rcases List.mem_cons.1 hmem with heq | hmem
    · cases heq
      exact ho
    · exact hs.charged owner charged hmem
  have key : ∀ s' : Fd, Idle s' → s'.queue ≠ [] →
      let t := s'.current fun r _ =>
        if maxErrors / 2 < r.errors then { s' with reset := true } else { s' with recalibrate := true }
      Idle t ∧ t.queue ≠ [] := by
    intro s' hs' hne
    obtain ⟨r', q', hq'⟩ := List.exists_cons_of_ne_nil hne
    simp only [current, hq']
    split
    · exact ⟨⟨⟨hs'.fault, hs'.charged⟩, hs'.doFloppy, hs'.timers⟩, by simp⟩
    · exact ⟨⟨⟨hs'.fault, hs'.charged⟩, hs'.doFloppy, hs'.timers⟩, by simp⟩
  by_cases hmax : maxErrors < r.errors + 1
  · obtain ⟨hended, hqueue, _⟩ := endRequest_idle false (s := floppyDeselect (say { s with
      queue := { r with errors := r.errors + 1 } :: q } (.error s.owner r.id))) (q := q)
      ⟨⟨hcounted.fault, hcounted.charged⟩, hcounted.doFloppy, hcounted.timers⟩ rfl
    have := key _ hended (by rw [hqueue]; exact hfollowed hmax)
    simpa only [badFlpIntr, current, hq, if_pos hmax] using this
  · have := key _ hcounted (by simp [say])
    simpa only [badFlpIntr, current, hq, if_neg hmax] using this

/-! ## Interrupts -/

/-- A handler finds its request, and nothing else under way. -/
structure Called (s : Fd) (r : Request) (q : List Request) : Prop extends Idle s where
  queue : s.queue = r :: q

theorem Asked.called {s' : Fd} (h : Asked s s') (hs : Called s r q) : Called s' r q :=
  ⟨h.idle hs.toIdle, h.queue.trans hs.queue⟩

theorem ended_sound {uptodate : Bool} (hs : Called s r q)
    (hlast : q = [] → s.reset = false ∧ s.recalibrate = false) :
    Sound (s.floppyDeselect.endRequest uptodate).doFdRequest := by
  obtain ⟨hidle, hqueue, hreset, hrecal⟩ := endRequest_idle _ (s := s.floppyDeselect) (r := r) (q := q)
    ⟨⟨hs.fault, hs.charged⟩, hs.doFloppy, hs.timers⟩ hs.queue
  refine doFdRequest_sound hidle fun hnil => ?_
  rw [hreset, hrecal]
  exact hlast (hqueue.symm.trans hnil)

theorem bad_sound (hs : Called s r q) (ho : s.owner = r.id)
    (hfollowed : maxErrors < r.errors + 1 → q ≠ []) :
    Sound s.badFlpIntr.doFdRequest := by
  obtain ⟨hidle, hne⟩ := badFlpIntr_idle hs.toIdle hs.queue ho hfollowed
  exact doFdRequest_sound hidle fun hnil => absurd hnil hne

theorem rwInterrupt_sound (reply : Reply) (hs : Called s r q) (ho : s.owner = r.id)
    (hlast : q = [] → Spares reply s r .rwInterrupt) : Sound (rwInterrupt reply s) := by
  have hasked := result_asked reply s
  have hcalled := hasked.called hs
  unfold rwInterrupt
  dsimp only [Spares] at hlast ⊢
  split
  · rename_i hfails
    split
    · rename_i hprotected
      refine ended_sound hcalled fun hq => ?_
      have := hlast hq
      rwa [if_neg (by simp [hprotected])] at this
    · rename_i hprotected
      refine bad_sound hcalled (hasked.owner.trans ho) fun hmax hq => ?_
      have := hlast hq
      rw [if_pos ⟨hfails, by simpa using hprotected⟩] at this
      exact Nat.not_le.2 hmax this
  · rename_i hfails
    have hbuffer : (if (result reply s).2.command = commandOf .read then
        (result reply s).2.current fun _ _ => (result reply s).2 else (result reply s).2)
          = (result reply s).2 := by
      split
      · simp [current, hcalled.queue]
      · rfl
    rw [hbuffer]
    refine ended_sound hcalled fun hq => ?_
    have := hlast hq
    rwa [if_neg fun h => hfails h.1] at this

theorem seekInterrupt_sound (reply : Reply) (hs : Called s r q) (ho : s.owner = r.id)
    (hlast : q = [] → Spares reply s r .seekInterrupt) : Sound (seekInterrupt reply s) := by
  have hasked := (outputByte_asked s 0x08).trans (result_asked reply _)
  have hcalled := hasked.called hs
  unfold seekInterrupt
  dsimp only [Spares] at hlast ⊢
  split
  · rename_i hfails
    exact bad_sound hcalled (hasked.owner.trans ho) fun hmax hq => Nat.not_le.2 hmax (hlast hq hfails)
  · exact setupRwFloppy_sound (s := { (result reply (s.outputByte 0x08)).2 with currentTrack := _ })
      ⟨hcalled.fault, hcalled.charged⟩ hcalled.timers hcalled.queue (hasked.owner.trans ho)

theorem recalInterrupt_sound (reply : Reply) (hs : Called s r q) : Sound (recalInterrupt reply s) := by
  have hasked := (outputByte_asked s 0x08).trans (result_asked reply _)
  have hcalled := hasked.called hs
  have hne : (result reply (s.outputByte 0x08)).2.queue ≠ [] := by
    rw [hcalled.queue]
    exact List.cons_ne_nil r q
  unfold recalInterrupt
  dsimp only
  split
  · exact doFdRequest_sound (s := { (result reply (s.outputByte 0x08)).2 with reset := true })
      ⟨⟨hcalled.fault, hcalled.charged⟩, hcalled.doFloppy, hcalled.timers⟩ fun hnil => absurd hnil hne
  · exact doFdRequest_sound (s := { (result reply (s.outputByte 0x08)).2 with recalibrate := false })
      ⟨⟨hcalled.fault, hcalled.charged⟩, hcalled.doFloppy, hcalled.timers⟩ fun hnil => absurd hnil hne

theorem resetInterrupt_sound (reply : Reply) (hs : Called s r q) : Sound (resetInterrupt reply s) := by
  have hasked := (outputByte_asked s 0x08).trans (result_asked reply _)
  unfold resetInterrupt
  dsimp only
  have hcalled := (hasked.trans (outputBytes_asked
    [0x03, (result reply (s.outputByte 0x08)).2.curSpec1.getD 0xFF, 6] _)).called hs
  exact doFdRequest_sound hcalled.toIdle fun hnil => absurd (hcalled.queue.symm.trans hnil)
    (List.cons_ne_nil r q)

theorem unexpectedFloppyInterrupt_asked (reply : Reply) (s : Fd) :
    Asked s (unexpectedFloppyInterrupt reply s) := by
  have hasked := (outputByte_asked s 0x08).trans (result_asked reply _)
  unfold unexpectedFloppyInterrupt
  dsimp only
  split
  · exact hasked.trans ⟨rfl, rfl, rfl, rfl, rfl, rfl⟩
  · exact hasked.trans ⟨rfl, rfl, rfl, rfl, rfl, rfl⟩

/-! ## Steps -/

theorem Sound.right (h : Sound s) : Right s := by
  cases h with
  | idle h => exact h.toRight
  | handler h => exact h
  | timer h => exact h

theorem Sound.interrupt {reply : Reply} {takes : List Bool} {motor : Nat} (h : Sound s)
    (hf : Followed s (.interrupt reply takes motor)) :
    Sound (interrupt reply { s with takes := takes, motor := motor }) := by
  have hset : Asked s { s with takes := takes, motor := motor } := ⟨rfl, rfl, rfl, rfl, rfl, rfl⟩
  by_cases hd : s.doFloppy = none
  · rw [interrupt_none (s := { s with takes := takes, motor := motor }) hd]
    exact (hset.trans (unexpectedFloppyInterrupt_asked reply _)).sound h
  · obtain ⟨handler, hd⟩ := Option.ne_none_iff_exists'.1 hd
    rw [interrupt_some (s := { s with takes := takes, motor := motor }) hd]
    cases h with
    | idle h => simp [h.doFloppy] at hd
    | timer _ hd' => simp [hd'] at hd
    | handler hr ht hq ho =>
      rename_i r q
      have hcalled : Called { s with doFloppy := none, takes := takes, motor := motor } r q :=
        ⟨⟨⟨hr.fault, hr.charged⟩, rfl, ht⟩, hq⟩
      have hspares : q = [] →
          Spares reply { s with doFloppy := none, takes := takes, motor := motor } r handler :=
        fun hnil => hf handler r hd (hnil ▸ hq)
      cases handler with
      | rwInterrupt => exact rwInterrupt_sound reply hcalled (ho (.inl hd)) hspares
      | seekInterrupt => exact seekInterrupt_sound reply hcalled (ho (.inr hd)) hspares
      | recalInterrupt => exact recalInterrupt_sound reply hcalled
      | resetInterrupt => exact resetInterrupt_sound reply hcalled

theorem Sound.expire {i : Nat} {t : Timer} {takes : List Bool} {motor : Nat} (h : Sound s)
    (ht : s.timers[i]? = some t) :
    Sound (expire { s with timers := s.timers.eraseIdx i, takes := takes, motor := motor } t) := by
  cases h with
  | idle h => simp [h.timers] at ht
  | handler _ ht' => simp [ht'] at ht
  | timer hr hd ht' hq ho =>
    have hi : i = 0 := by
      rw [ht'] at ht
      cases i with
      | zero => rfl
      | succ i => simp at ht
    subst hi
    have hidle : Idle { s with timers := s.timers.eraseIdx 0, takes := takes, motor := motor } :=
      ⟨⟨hr.fault, hr.charged⟩, hd, by simp [ht']⟩
    cases t with
    | floppyOn => exact floppyOnInterrupt_sound hidle hq ho
    | transfer => exact transfer_sound hidle.toRight hidle.timers hq ho

/-- A request behind the first one. -/
theorem Sound.insert {q' : List Request} (h : Sound s) (hq : s.queue = r :: q) :
    Sound { s with queue := r :: q' } := by
  cases h with
  | idle h => exact .idle ⟨⟨h.fault, h.charged⟩, h.doFloppy, h.timers⟩
  | handler hr ht hq' ho =>
    rw [hq] at hq'
    cases hq'
    exact .handler ⟨hr.fault, hr.charged⟩ ht rfl ho
  | timer hr hd ht hq' ho =>
    rw [hq] at hq'
    cases hq'
    exact .timer ⟨hr.fault, hr.charged⟩ hd ht rfl ho

theorem step_sound {e : Input} {s' : Fd} (h : Sound s) (hf : Followed s e)
    (hstep : step s e = some s') : Sound s' := by
  cases e with
  | interrupt reply takes motor =>
    rw [step, if_pos h.right.fault] at hstep
    cases hstep
    exact h.interrupt hf
  | timer i takes motor =>
    rw [step, if_pos h.right.fault] at hstep
    obtain ⟨t, ht, rfl⟩ := Option.map_eq_some_iff.1 hstep
    exact h.expire ht
  | arrive id dev cmd block place takes motor =>
    rw [step, if_pos h.right.fault] at hstep
    cases hq : s.queue with
    | nil =>
      have hidle : Idle s := by
        cases h with
        | idle h => exact h
        | handler _ _ hq' => simp [hq] at hq'
        | timer _ _ _ hq' => simp [hq] at hq'
      simp only [hq, Option.some.injEq] at hstep
      subst hstep
      exact doFdRequest_sound ⟨⟨hidle.fault, hidle.charged⟩, hidle.doFloppy, hidle.timers⟩ fun hnil =>
        absurd hnil (List.cons_ne_nil _ _)
    | cons r q =>
      simp only [hq] at hstep
      obtain ⟨_, hstep⟩ := Lib.of_guard hstep
      subst hstep
      exact h.insert hq

/-- Before the first request. -/
def Start (s : Fd) : Prop :=
  s.queue = [] ∧ s.doFloppy = none ∧ s.timers = [] ∧ s.fault = false ∧ s.log = []

theorem start_sound (h : Start s) : Sound s := by
  obtain ⟨_, hd, ht, hfault, hlog⟩ := h
  refine .idle ⟨⟨hfault, fun _ _ hmem => ?_⟩, hd, ht⟩
  rw [hlog] at hmem
  cases hmem

theorem reach_right (h : Lib.Reach step Followed Start s) : Right s :=
  (h.invariant (fun _ => start_sound) fun _ _ _ => step_sound).right

end Linux011.Drivers.Fd
