import Linux011.Drivers.Hd

/-!
# The errors of the hard disk driver

`bad_rw_intr` ends a request with its seventh error, and then looks at the errors of `CURRENT`, which is
the next request, or NULL. A write that waits for the controller leaves `write_intr` in `do_hd`; if it is
given up there and no other command follows, the next interrupt finds the handler, and no request.

`add_request` turns interrupts on before it calls `do_hd_request`, and so does the message about a request
that has failed, also inside an interrupt. While a call waits for the controller, `write_intr` may come and
end the request that the call is about to count an error in. So a call of `do_hd_request` takes several
steps here, one for each look at `CURRENT` that an interrupt could make a vain one; interrupts come between
them, and make calls of their own.

As long as another request comes behind one that is given up, and no interrupt ends the request that a call
waits for, a handler in `do_hd` is always that of the first request of the queue, and its errors are counted
there.
-/

namespace Linux011.Drivers.Hd

/-- Where a call of `do_hd_request` is, or `bad_rw_intr` before it. -/
inductive Place
  /-- The write of this request waits for the controller. -/
  | waiting (id : Nat)
  /-- The seventh error is counted. -/
  | ending
  /-- An error is counted, and the request has been ended if it was the seventh. -/
  | counted
  /-- At `repeat`. -/
  | again
  /-- `CURRENT` is not NULL. -/
  | chosen
  deriving DecidableEq

/-- The driver with the calls that are under way, the last one first. -/
structure Calls where
  hd : Hd
  stack : List Place

/-- The first half of `bad_rw_intr`, after a command for request `id`. -/
def countError (id : Nat) (s : Hd) : Hd × Option Place :=
  match s.queue with
  | [] => ({ s with fault := some .null }, none)
  | r :: q =>
    ({ s with queue := { r with errors := r.errors + 1 } :: q }.say (.error id r.id (r.errors + 1)),
      some (if maxErrors ≤ r.errors + 1 then .ending else .counted))

/-- The second half. -/
def lookAgain (s : Hd) : Hd :=
  s.current fun r _ => if maxErrors / 2 < r.errors then { s with reset := true } else s

/-- `do_hd_request` from the look at the request to the command. -/
def choose (d : Disks) (s : Hd) : Hd × Option Place :=
  match s.queue with
  | [] => ({ s with fault := some .null }, none)
  | r :: _ =>
    if accepts d r then
      let s := serve d r s
      ({ s with polling := false }, if s.polling then some (.waiting r.id) else none)
    else (s.endRequest false, some .again)

/-- A call goes on, unless it waits. -/
def go (d : Disks) (s : Hd) : Place → Option (Hd × Option Place)
  | .waiting _ => none
  | .ending => some (s.endRequest false, some .counted)
  | .counted => some (lookAgain s, some .again)
  | .again => some (s, if s.queue = [] then none else some .chosen)
  | .chosen => some (choose d s)

/-- The handlers, up to their calls. -/
def handle (ok : Bool) (s : Hd) : Handler → Hd × Option Place
  | .readIntr =>
    if ok then
      match s.queue with
      | [] => ({ s with fault := some .null }, none)
      | r :: q =>
        let r' := { r with
          errors := 0, buffer := r.buffer + 512, sector := r.sector + 1, nrSectors := r.nrSectors - 1 }
        let s := { s with queue := r' :: q, pos := s.pos + 1 }.say (.moved r.id s.drive s.pos r.buffer)
        if r'.nrSectors ≠ 0 then ({ s with doHd := some .readIntr }, none)
        else (s.endRequest true, some .again)
    else countError s.owner s
  | .writeIntr =>
    if ok then
      match s.queue with
      | [] => ({ s with fault := some .null }, none)
      | r :: q =>
        let s := { s with pos := s.pos + 1 }.say (.moved r.id s.drive s.pos r.buffer)
        if r.nrSectors - 1 ≠ 0 then
          let r' := { r with
            buffer := r.buffer + 512, sector := r.sector + 1, nrSectors := r.nrSectors - 1 }
          ({ s with queue := r' :: q, doHd := some .writeIntr }.portWrite, none)
        else ({ s with queue := { r with nrSectors := 0 } :: q }.endRequest true, some .again)
    else countError s.owner s
  | .recalIntr => if ok then (s, some .again) else countError s.owner s

/-- What comes from outside: an interrupt with the result of the last command, the end of the wait of a call,
a step of a call, or a request that `add_request` puts into the queue, at once or behind the first one. -/
inductive Input
  | interrupt (ok : Bool)
  | drq (ok : Bool)
  | go
  | arrive (id dev : Nat) (cmd : Rw) (block place : Nat)

/-- The last call has gone on to another place, or is over. -/
def Calls.next (rest : List Place) (r : Hd × Option Place) : Calls := ⟨r.1, r.2.toList ++ rest⟩

/-- A run ends with its first fault. No request arrives while a call is under way. -/
def step (d : Disks) (c : Calls) (e : Input) : Option Calls :=
  if c.hd.fault ≠ none then none
  else
    match e with
    | .interrupt ok =>
      match c.hd.doHd with
      | none => some c
      | some h => some (.next c.stack (handle ok { c.hd with doHd := none } h))
    | .drq ok =>
      match c.stack with
      | .waiting id :: rest => some (.next rest (if ok then (c.hd.portWrite, none) else countError id c.hd))
      | _ => none
    | .go =>
      match c.stack with
      | p :: rest => (go d c.hd p).map (.next rest)
      | [] => none
    | .arrive id dev cmd block place =>
      if c.stack = [] then
        match c.hd.queue with
        | [] => some ⟨{ c.hd with queue := [Request.make id dev cmd block] }, [.again]⟩
        | r :: q =>
          if place ≤ q.length then
            some ⟨{ c.hd with queue := r :: q.insertIdx place (Request.make id dev cmd block) }, []⟩
          else none
      else none

/-- The queue when an error has been counted in its first request. -/
def remaining (r : Request) (q : List Request) : List Request :=
  if maxErrors ≤ r.errors + 1 then q else { r with errors := r.errors + 1 } :: q

/-- A handler in `do_hd` has a request that `do_hd_request` can send a command for. -/
def Served (d : Disks) (s : Hd) (q : List Request) : Prop := s.doHd = none ∨ ∃ x ∈ q, accepts d x = true

/-- When an error is counted there is a request left to look at; and when a wait for the controller fails, one
that `do_hd_request` accepts, unless `do_hd` is NULL. When a wait is over its request has not been ended, and
after a failure no handler is called before the next command. -/
def Followed (d : Disks) (c : Calls) : Input → Prop
  | .interrupt ok =>
    match c.stack with
    | [] | .waiting _ :: _ =>
      ok = false → c.hd.doHd ≠ none → ∀ r q, c.hd.queue = r :: q → remaining r q ≠ []
    | _ => c.hd.doHd = none
  | .drq true => c.hd.queue ≠ []
  | .drq false => ∀ id rest, c.stack = .waiting id :: rest →
    ∃ r q, c.hd.queue = r :: q ∧ r.id = id ∧ remaining r q ≠ [] ∧ Served d c.hd (remaining r q)
  | _ => True

/-- `CURRENT` has not been looked up in vain, and each error is counted in the request it belongs to. -/
structure Right (s : Hd) : Prop where
  fault : s.fault = none
  charged : ∀ owner charged n, .error owner charged n ∈ s.log → owner = charged

/-- The handler in `do_hd` is that of the first request. -/
structure Sound (s : Hd) : Prop extends Right s where
  first : s.doHd ≠ none → ∃ r q, s.queue = r :: q ∧ s.owner = r.id

/-- What is true when the last call is at a place, or none is under way. Behind a failed wait `do_hd` may hold
the handler of a request that has been ended; then another one follows. -/
def At (d : Disks) (s : Hd) : Option Place → Prop
  | none | some (.waiting _) => Sound s
  | some .ending => Right s ∧ ∃ r q, s.queue = r :: q ∧ q ≠ [] ∧ Served d s q
  | some .counted | some .chosen => Right s ∧ s.queue ≠ [] ∧ Served d s s.queue
  | some .again => Right s ∧ Served d s s.queue

/-- Every call but the last one waits. -/
structure Placed (d : Disks) (c : Calls) : Prop where
  last : At d c.hd c.stack.head?
  waiting : ∀ p ∈ c.stack.tail, ∃ id, p = .waiting id

variable {d : Disks} {s s' : Hd} {r : Request} {q : List Request} {c c' : Calls} {p : Option Place}

/-! ## Steps of a call -/

theorem Right.say (h : Right s) {e : Event}
    (he : ∀ owner charged n, e = .error owner charged n → owner = charged) :
    Right (s.say e) := by
  refine ⟨h.fault, fun owner charged n hmem => ?_⟩
  rcases List.mem_cons.1 hmem with heq | hmem
  · exact he owner charged n heq.symm
  · exact h.charged owner charged n hmem

/-- Whether the driver is right shows in the log. -/
theorem Right.same (h : Right s) (hfault : s'.fault = s.fault) (hlog : s'.log = s.log) : Right s' := by
  refine ⟨hfault.trans h.fault, fun owner charged n hmem => h.charged owner charged n ?_⟩
  rwa [hlog] at hmem

theorem hdOut_right {id drive nsect sect head cyl : Nat} {c : Command} {h : Handler} (hs : Right s)
    (hdrive : drive ≤ 1) (hhead : head ≤ 15) : Right (hdOut d id drive nsect sect head cyl c h s) ∧
      (hdOut d id drive nsect sect head cyl c h s).queue = s.queue ∧
      (hdOut d id drive nsect sect head cyl c h s).owner = id := by
  have hno : ¬ (1 < drive ∨ 15 < head) := by omega
  unfold hdOut
  rw [if_neg hno]
  refine ⟨⟨hs.fault, fun owner charged n hmem => ?_⟩, rfl, rfl⟩
  rcases List.mem_cons.1 hmem with heq | hmem
  · cases heq
  · exact hs.charged owner charged n hmem

/-- A command is sent for a request that is accepted. -/
theorem serve_sound (hs : Right s) (hqueue : s.queue = r :: q) (hacc : accepts d r = true) :
    Sound (serve d r s) := by
  have hdev : r.dev / 5 ≤ 1 := by
    have h := (of_decide_eq_true hacc).1
    have := d.nrHd_le
    omega
  have key : ∀ {nsect sect head cyl c h} {s' : Hd}, Right s' → s'.queue = r :: q → head ≤ 15 →
      Sound (hdOut d r.id (r.dev / 5) nsect sect head cyl c h s') := by
    intro nsect sect head cyl c h s' hs' hq' hhead
    obtain ⟨hright, hq, ho⟩ := @hdOut_right d s' r.id (r.dev / 5) nsect sect head cyl c h hs' hdev hhead
    rw [hq'] at hq
    exact ⟨hright, fun _ => ⟨r, q, hq, ho⟩⟩
  have hmod : ∀ n, n % (d.info (r.dev / 5)).head ≤ 15 := by
    intro n
    have hlt := Nat.mod_lt n (d.info (r.dev / 5)).head_pos
    have := (d.info (r.dev / 5)).head_le
    omega
  unfold serve
  dsimp only
  split
  · refine key ⟨hs.fault, hs.charged⟩ hqueue ?_
    have := (d.info (r.dev / 5)).head_le
    omega
  · split
    · exact key ⟨hs.fault, hs.charged⟩ hqueue (Nat.zero_le _)
    · split
      · exact key ⟨hs.fault, hs.charged⟩ hqueue (hmod _)
      · exact key hs hqueue (hmod _)

theorem endRequest_right (hs : Right s) (hqueue : s.queue = r :: q) (uptodate : Bool) :
    Right (s.endRequest uptodate) ∧ (s.endRequest uptodate).queue = q ∧
      (s.endRequest uptodate).doHd = s.doHd := by
  have hended := hs.say (e := .ended r.id uptodate) fun _ _ _ he => by cases he
  rw [endRequest, current, hqueue]
  exact ⟨hended.same rfl rfl, rfl, rfl⟩

theorem portWrite_right (hs : Right s) (hqueue : s.queue = r :: q) :
    Right s.portWrite ∧ s.portWrite.queue = s.queue ∧ s.portWrite.owner = s.owner ∧
      s.portWrite.doHd = s.doHd := by
  have hrun : s.portWrite = s.say (.sent r.id s.drive s.pos r.buffer) := by
    simp only [portWrite, current, hqueue]
  rw [hrun]
  exact ⟨hs.say fun _ _ _ => nofun, rfl, rfl, rfl⟩

/-- An error is counted in the first request, which is the one it belongs to. -/
theorem Right.countError (h : Right s) (hqueue : s.queue = r :: q) (hrest : remaining r q ≠ [])
    (hserved : Served d s (remaining r q)) : At d (countError r.id s).1 (countError r.id s).2 := by
  have hcharged : Right (s.say (.error r.id r.id (r.errors + 1))) :=
    h.say fun owner charged n he => by
      cases he
      rfl
  unfold remaining at hrest hserved
  rw [Hd.countError, hqueue]
  dsimp only
  by_cases hmax : maxErrors ≤ r.errors + 1
  · rw [if_pos hmax] at hrest hserved
    rw [if_pos hmax]
    exact ⟨hcharged.same rfl rfl, _, q, rfl, hrest, hserved⟩
  · rw [if_neg hmax] at hserved
    rw [if_neg hmax]
    exact ⟨hcharged.same rfl rfl, List.cons_ne_nil _ _, hserved⟩

theorem Right.lookAgain (h : Right s) (hne : s.queue ≠ []) :
    Right (lookAgain s) ∧ (lookAgain s).queue = s.queue ∧ (lookAgain s).doHd = s.doHd := by
  obtain ⟨r, q, hqueue⟩ := List.exists_cons_of_ne_nil hne
  rw [Hd.lookAgain, current, hqueue]
  dsimp only
  split
  · exact ⟨h.same rfl rfl, rfl, rfl⟩
  · exact ⟨h, hqueue, rfl⟩

/-- The first request is sent a command for, or is refused. -/
theorem Right.choose (h : Right s) (hqueue : s.queue = r :: q) (hserved : Served d s (r :: q)) :
    At d (choose d s).1 (choose d s).2 := by
  rw [Hd.choose, hqueue]
  dsimp only
  by_cases hacc : accepts d r = true
  · have hserve := serve_sound h hqueue hacc
    have hsame : Sound { serve d r s with polling := false } :=
      ⟨hserve.toRight.same rfl rfl, fun hne => hserve.first hne⟩
    rw [if_pos hacc]
    split
    · exact hsame
    · exact hsame
  · obtain ⟨hright, hq, hdo⟩ := endRequest_right h hqueue false
    rw [if_neg hacc]
    refine ⟨hright, ?_⟩
    unfold Served
    rw [hq, hdo]
    refine hserved.imp_right fun ⟨x, hx, hxa⟩ => ?_
    rcases List.mem_cons.1 hx with rfl | hx
    · exact absurd hxa hacc
    · exact ⟨x, hx, hxa⟩

/-- One case for each place. -/
theorem At.go {place : Place} (h : At d s (some place)) {r : Hd × Option Place}
    (hgo : go d s place = some r) : At d r.1 r.2 := by
  cases place with
  | waiting id => cases hgo
  | ending =>
    cases hgo
    obtain ⟨hright, x, q, hqueue, hne, hserved⟩ := h
    obtain ⟨hright', hq, hdo⟩ := endRequest_right hright hqueue false
    refine ⟨hright', by rwa [hq], ?_⟩
    unfold Served
    rwa [hq, hdo]
  | counted =>
    cases hgo
    obtain ⟨hright, hne, hserved⟩ := h
    obtain ⟨hright', hq, hdo⟩ := hright.lookAgain hne
    refine ⟨hright', ?_⟩
    unfold Served
    rwa [hq, hdo]
  | again =>
    cases hgo
    obtain ⟨hright, hserved⟩ := h
    by_cases hqueue : s.queue = []
    · rw [if_pos hqueue]
      rw [hqueue] at hserved
      exact ⟨hright, fun hne => absurd (hserved.resolve_right nofun) hne⟩
    · rw [if_neg hqueue]
      exact ⟨hright, hqueue, hserved⟩
  | chosen =>
    cases hgo
    obtain ⟨hright, hne, hserved⟩ := h
    obtain ⟨x, q, hqueue⟩ := List.exists_cons_of_ne_nil hne
    rw [hqueue] at hserved
    exact hright.choose hqueue hserved

/-! ## Interrupts -/

/-- A handler that reports no error. -/
theorem Sound.handled (h : Sound s) {handler : Handler} (hdo : s.doHd = some handler) :
    At d (handle true { s with doHd := none } handler).1 (handle true { s with doHd := none } handler).2 := by
  obtain ⟨r, q, hqueue, howner⟩ := h.first (by simp [hdo])
  have hmoved : Right (s.say (.moved r.id s.drive s.pos r.buffer)) := h.toRight.say fun _ _ _ => nofun
  cases handler with
  | recalIntr => exact ⟨h.toRight.same rfl rfl, .inl rfl⟩
  | readIntr =>
    simp only [handle, if_true, hqueue]
    split
    · exact ⟨hmoved.same rfl rfl, fun _ => ⟨_, _, rfl, howner⟩⟩
    · have hended := hmoved.say (e := .ended r.id true) fun _ _ _ => nofun
      exact ⟨hended.same rfl rfl, .inl rfl⟩
  | writeIntr =>
    simp only [handle, if_true, hqueue]
    split
    · obtain ⟨hright, hq, ho, -⟩ := portWrite_right (q := q) (s := { s with
          queue := { r with
            sector := r.sector + 1, buffer := r.buffer + 512, nrSectors := r.nrSectors - 1 } :: q
          doHd := some .writeIntr
          pos := s.pos + 1
          log := .moved r.id s.drive s.pos r.buffer :: s.log }) (hmoved.same rfl rfl) rfl
      exact ⟨hright, fun _ => ⟨_, _, hq, ho.trans howner⟩⟩
    · have hended := hmoved.say (e := .ended r.id true) fun _ _ _ => nofun
      exact ⟨hended.same rfl rfl, .inl rfl⟩

/-- Every handler counts its errors in the same way. -/
theorem handle_error (handler : Handler) : handle false s handler = countError s.owner s := by
  cases handler with
  | readIntr => rfl
  | writeIntr => rfl
  | recalIntr => rfl

theorem Sound.failed (h : Sound s) {handler : Handler} (hdo : s.doHd = some handler)
    (hrest : ∀ r q, s.queue = r :: q → remaining r q ≠ []) :
    At d (handle false { s with doHd := none } handler).1
      (handle false { s with doHd := none } handler).2 := by
  obtain ⟨r, q, hqueue, howner⟩ := h.first (by simp [hdo])
  have hright : Right { s with doHd := none } := h.toRight.same rfl rfl
  rw [handle_error]
  have hcount := hright.countError (d := d) hqueue (hrest r q hqueue) (.inl rfl)
  rwa [← howner] at hcount

/-! ## Calls that nothing interrupts -/

/-- A call goes on to its end, or to its wait. -/
def finish (d : Disks) : Hd × Option Place → Hd
  | (s, none) => s
  | (s, some (.waiting _)) => { s with polling := true }
  | (s, some .ending) => doHdRequest d (lookAgain (s.endRequest false))
  | (s, some .counted) => doHdRequest d (lookAgain s)
  | (s, some .again) | (s, some .chosen) => doHdRequest d s

theorem request_restored (q q' : List Request) (s : Hd) : request d q { s with queue := q' } = request d q s := by
  induction q generalizing s with
  | nil => rfl
  | cons r q ih =>
    unfold request
    split
    · rfl
    · exact ih (s.say (.ended r.id false))

/-- Each step goes towards that end. -/
theorem finish_go {place : Place} {x : Hd × Option Place} (hgo : go d s place = some x)
    (hchosen : place = .chosen → s.queue ≠ []) : finish d x = finish d (s, some place) := by
  cases place with
  | waiting id => cases hgo
  | ending =>
    cases hgo
    rfl
  | counted =>
    cases hgo
    rfl
  | again =>
    cases hgo
    by_cases hqueue : s.queue = []
    · rw [if_pos hqueue]
      show s = request d s.queue s
      rw [hqueue, request, ← hqueue]
    · rw [if_neg hqueue]
      rfl
  | chosen =>
    cases hgo
    obtain ⟨r, q, hqueue⟩ := List.exists_cons_of_ne_nil (hchosen rfl)
    show finish d (choose d s) = request d s.queue s
    have hsame : { s with queue := r :: q } = s := by rw [← hqueue]
    rw [choose, hqueue, request, hsame]
    dsimp only
    by_cases hacc : accepts d r = true
    · rw [if_pos hacc, if_pos hacc]
      cases hp : (serve d r s).polling with
      | true =>
        rw [if_pos rfl]
        show { serve d r s with polling := true } = serve d r s
        rw [← hp]
      | false =>
        rw [if_neg Bool.false_ne_true]
        show { serve d r s with polling := false } = serve d r s
        rw [← hp]
    · rw [if_neg hacc, if_neg hacc]
      show request d (s.endRequest false).queue (s.endRequest false) = _
      rw [endRequest, current, hqueue]
      exact request_restored q q (s.say (.ended r.id false))

theorem finish_countError : finish d (countError s.owner s) = doHdRequest d (badRwIntr s) := by
  cases hqueue : s.queue with
  | nil =>
    rw [countError, badRwIntr, current, hqueue]
    rfl
  | cons r q =>
    rw [countError, badRwIntr, current, hqueue]
    dsimp only
    by_cases hmax : maxErrors ≤ r.errors + 1
    · rw [if_pos hmax, if_pos hmax]
      rfl
    · rw [if_neg hmax, if_neg hmax]
      rfl

/-- An interrupt that is not interrupted does what `call` does. -/
theorem finish_handle (ok : Bool) (handler : Handler) : finish d (handle ok s handler) = call d ok s handler := by
  cases ok with
  | false =>
    rw [handle_error, finish_countError]
    cases handler with
    | readIntr => rfl
    | writeIntr => rfl
    | recalIntr => rfl
  | true =>
    cases handler with
    | recalIntr => rfl
    | readIntr =>
      cases hqueue : s.queue with
      | nil => simp only [handle, call, readIntr, if_true, current, hqueue, finish]
      | cons r q =>
        simp only [handle, call, readIntr, if_true, current, hqueue]
        split
        · rfl
        · rfl
    | writeIntr =>
      cases hqueue : s.queue with
      | nil => simp only [handle, call, writeIntr, if_true, current, hqueue, finish]
      | cons r q =>
        simp only [handle, call, writeIntr, if_true, current, hqueue]
        split
        · rfl
        · rfl

/-! ## Runs -/

theorem At.right (h : At d s p) : Right s := by
  cases p with
  | none => exact Sound.toRight h
  | some place =>
    cases place with
    | waiting id => exact Sound.toRight h
    | ending => exact h.1
    | counted => exact h.1
    | again => exact h.1
    | chosen => exact h.1

/-- Where the last call is over, another one waits or none is under way. -/
theorem At.next {rest : List Place} (h : At d s p) (hrest : ∀ p ∈ rest, ∃ id, p = .waiting id) :
    Placed d (.next rest (s, p)) := by
  cases p with
  | some place => exact ⟨h, hrest⟩
  | none =>
    refine ⟨?_, fun p hp => hrest p (List.mem_of_mem_tail hp)⟩
    cases rest with
    | nil => exact h
    | cons p rest =>
      obtain ⟨id, rfl⟩ := hrest p List.mem_cons_self
      exact h

theorem Placed.interrupt (h : Placed d c) {ok : Bool} (hf : Followed d c (.interrupt ok)) {handler : Handler}
    (hdo : c.hd.doHd = some handler) :
    Placed d (.next c.stack (handle ok { c.hd with doHd := none } handler)) := by
  obtain ⟨s, stack⟩ := c
  have hne : s.doHd ≠ none := fun hnone => Option.some_ne_none handler (hdo.symm.trans hnone)
  have key : Sound s → (∀ p ∈ stack, ∃ id, p = .waiting id) →
      (ok = false → s.doHd ≠ none → ∀ r q, s.queue = r :: q → remaining r q ≠ []) →
      Placed d (.next stack (handle ok { s with doHd := none } handler)) := by
    intro hs hstack hrest
    apply At.next _ hstack
    cases ok with
    | true => exact hs.handled hdo
    | false => exact hs.failed hdo (hrest rfl hne)
  cases stack with
  | nil => exact key h.last nofun hf
  | cons place rest =>
    cases place with
    | waiting id =>
      refine key h.last (fun p hp => ?_) hf
      rcases List.mem_cons.1 hp with rfl | hp
      · exact ⟨id, rfl⟩
      · exact h.waiting p hp
    | ending | counted | again | chosen => cases hf.symm.trans hdo

theorem Placed.drq (h : Placed d c) {ok : Bool} (hf : Followed d c (.drq ok)) {id : Nat}
    {rest : List Place} (hstack : c.stack = .waiting id :: rest) :
    Placed d (.next rest (if ok then (c.hd.portWrite, none) else countError id c.hd)) := by
  obtain ⟨hlast, hwaiting⟩ := h
  rw [hstack] at hlast hwaiting
  cases ok with
  | true =>
    obtain ⟨r, q, hqueue⟩ := List.exists_cons_of_ne_nil hf
    obtain ⟨hright, hq, ho, hd⟩ := portWrite_right hlast.right hqueue
    refine At.next (p := none) ⟨hright, fun hne => ?_⟩ hwaiting
    rw [hd] at hne
    obtain ⟨r', q', heq, howner⟩ := Sound.first hlast hne
    exact ⟨r', q', hq.trans heq, ho.trans howner⟩
  | false =>
    obtain ⟨r, q, hqueue, rfl, hrest, hserved⟩ := hf id rest hstack
    exact At.next (hlast.right.countError hqueue hrest hserved) hwaiting

theorem Placed.arrive (h : Placed d c) {id dev block place : Nat} {cmd : Rw}
    (hstep : step d c (.arrive id dev cmd block place) = some c') : Placed d c' := by
  obtain ⟨s, stack⟩ := c
  rw [step, if_neg (not_not.mpr h.last.right.fault)] at hstep
  obtain ⟨rfl, hstep⟩ := Option.ite_none_right_eq_some.1 hstep
  have hs : Sound s := h.last
  cases hqueue : s.queue with
  | nil =>
    have hdo : s.doHd = none := by
      refine Decidable.byContradiction fun hne => ?_
      obtain ⟨r, q, heq, _⟩ := hs.first hne
      rw [hqueue] at heq
      cases heq
    simp only [hqueue, Option.some.injEq] at hstep
    subst hstep
    exact ⟨⟨hs.toRight.same rfl rfl, .inl hdo⟩, nofun⟩
  | cons r q =>
    simp only [hqueue] at hstep
    obtain ⟨_, hstep⟩ := Lib.of_guard hstep
    subst hstep
    refine ⟨⟨hs.toRight.same rfl rfl, fun hne => ?_⟩, nofun⟩
    obtain ⟨r', q', heq, ho⟩ := hs.first hne
    rw [hqueue] at heq
    cases heq
    exact ⟨r, _, rfl, ho⟩

theorem step_placed {e : Input} (h : Placed d c) (hf : Followed d c e) (hstep : step d c e = some c') :
    Placed d c' := by
  cases e with
  | arrive id dev cmd block place => exact h.arrive hstep
  | interrupt ok =>
    rw [step, if_neg (not_not.mpr h.last.right.fault)] at hstep
    cases hdo : c.hd.doHd with
    | none =>
      simp only [hdo, Option.some.injEq] at hstep
      subst hstep
      exact h
    | some handler =>
      simp only [hdo, Option.some.injEq] at hstep
      subst hstep
      exact h.interrupt hf hdo
  | drq ok =>
    rw [step, if_neg (not_not.mpr h.last.right.fault)] at hstep
    split at hstep
    · next id rest hstack =>
      cases hstep
      exact h.drq hf hstack
    · cases hstep
  | go =>
    rw [step, if_neg (not_not.mpr h.last.right.fault)] at hstep
    obtain ⟨s, stack⟩ := c
    cases stack with
    | nil => cases hstep
    | cons place rest =>
      obtain ⟨r, hgo, rfl⟩ := Option.map_eq_some_iff.1 hstep
      exact At.next (h.last.go hgo) h.waiting

/-- Before the first request. -/
def Start (c : Calls) : Prop :=
  c.hd.queue = [] ∧ c.hd.doHd = none ∧ c.hd.fault = none ∧ c.hd.log = [] ∧ c.stack = []

theorem start_placed (h : Start c) : Placed d c := by
  obtain ⟨s, stack⟩ := c
  obtain ⟨_, hdo, hfault, hlog, rfl⟩ := h
  refine ⟨⟨⟨hfault, fun _ _ _ hmem => ?_⟩, fun hne => absurd hdo hne⟩, nofun⟩
  rw [hlog] at hmem
  cases hmem

theorem reach_right (h : Lib.Reach (step d) (Followed d) Start c) : Right c.hd :=
  (h.invariant (fun _ => start_placed) fun _ _ _ => step_placed).last.right

end Linux011.Drivers.Hd
