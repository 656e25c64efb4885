import Linux011.Drivers.HdErrors
import Linux011.Drivers.FloppyErrors

/-!
# Error handlers and the queue

Both drivers end a request inside the function that counts its errors, and look at `CURRENT` after that. The
hard disk driver also waits for the controller with interrupts on, and an interrupt may end the request that
it waits for.
-/

namespace Linux011.Drivers

/-- In runs where a request that is given up is followed by another one, and none is ended while the call that
has sent it waits, both drivers look at `CURRENT` only when there is a request, and count an error in the
request it belongs to. -/
theorem error_handlers (d : Hd.Disks) :
    (∀ c, Lib.Reach (Hd.step d) (Hd.Followed d) Hd.Start c → Hd.Right c.hd) ∧
      ∀ s, Lib.Reach Fd.step Fd.Followed Fd.Start s → Fd.Right s :=
  ⟨fun _ => Hd.reach_right, fun _ => Fd.reach_right⟩

/-- One drive without partitions. -/
def oneDrive : Hd.Disks :=
  .single (fun dev => if dev = 0 then ⟨0, 41820⟩ else ⟨0, 0⟩) (by decide)

def Hd.quiet : Hd.Calls := ⟨⟨[], false, false, none, false, 0, 0, 0, none, []⟩, []⟩

def Fd.quiet : Fd where
  queue := []
  recalibrate := false
  reset := false
  seek := false
  curSpec1 := none
  curRate := none
  floppy := Fd.noTesting
  currentDrive := 0
  sector := 0
  head := 0
  track := 0
  seekTrack := 0
  currentTrack := 255
  command := 0
  selected := false
  dorDrive := 0
  doFloppy := none
  timers := []
  reply := fun _ => 0
  owner := 0
  fault := false
  log := []
  sent := []
  takes := []
  motor := 0

/-- While the hard disk waits, an interrupt reports an error: the write is tried again inside of it. -/
theorem error_handlers_two :
    (∃ c, Lib.run (Hd.step oneDrive) Hd.quiet [.arrive 0 0 .write 3 0, .go, .go, .interrupt false, .go, .go,
        .go, .drq true, .drq true] = some c ∧ Hd.Right c.hd) ∧
      ∃ s, Lib.run Fd.step Fd.quiet [.arrive 0 28 .read 3 0 [] 1, .timer 0 [] 0] = some s ∧
        Fd.Right s := by
  obtain ⟨hhd, hfd⟩ := error_handlers oneDrive
  constructor
  · have h₀ : Lib.Reach (Hd.step oneDrive) (Hd.Followed oneDrive) Hd.Start Hd.quiet :=
      .start ⟨rfl, rfl, rfl, rfl, rfl⟩
    have h₁ := Lib.Reach.next (Hd.Input.arrive 0 0 .write 3 0) h₀ trivial rfl
    have h₂ := Lib.Reach.next Hd.Input.go h₁ trivial rfl
    have h₃ := Lib.Reach.next Hd.Input.go h₂ trivial rfl
    have h₄ := Lib.Reach.next (Hd.Input.interrupt false) h₃ (fun _ _ r q hq => by cases hq; decide) rfl
    have h₅ := Lib.Reach.next Hd.Input.go h₄ trivial rfl
    have h₆ := Lib.Reach.next Hd.Input.go h₅ trivial rfl
    have h₇ := Lib.Reach.next Hd.Input.go h₆ trivial rfl
    have h₈ := Lib.Reach.next (Hd.Input.drq true) h₇ (fun h => nomatch h) rfl
    have h₉ := Lib.Reach.next (Hd.Input.drq true) h₈ (fun h => nomatch h) rfl
    exact ⟨_, rfl, hhd _ h₉⟩
  · have h₀ : Lib.Reach Fd.step Fd.Followed Fd.Start Fd.quiet := .start ⟨rfl, rfl, rfl, rfl, rfl⟩
    have h₁ := Lib.Reach.next (Fd.Input.arrive 0 28 .read 3 0 [] 1) h₀ trivial rfl
    have h₂ := Lib.Reach.next (Fd.Input.timer 0 [] 0) h₁ trivial rfl
    exact ⟨_, rfl, hfd _ h₂⟩

/-- An interrupt with two bytes that report the end of a seek to track 0. -/
def Fd.arrived : Fd.Input := .interrupt ⟨[0x20, 0x00], true⟩ [] 0

/-- An interrupt that brings no result. -/
def Fd.failed : Fd.Input := .interrupt ⟨[], true⟩ [] 0

/-- An interrupt at the end of a transfer. -/
def Fd.transferred : Fd.Input := .interrupt ⟨[0, 0, 0, 0, 0, 0, 2], true⟩ [] 0

theorem Hd.faulty {o : Option Hd.Calls} (h : o.map (fun c => decide (c.hd.fault = some .null)) = some true) :
    ∃ c, o = some c ∧ ¬ Hd.Right c.hd := by
  obtain ⟨s, hs, hfault⟩ := Option.map_eq_some_iff.1 h
  refine ⟨s, hs, fun hright => ?_⟩
  have hnone := hright.fault
  rw [of_decide_eq_true hfault] at hnone
  cases hnone

theorem Fd.faulty {o : Option Fd} (h : o.map (·.fault) = some true) : ∃ s, o = some s ∧ ¬ Fd.Right s := by
  obtain ⟨s, hs, hfault⟩ := Option.map_eq_some_iff.1 h
  refine ⟨s, hs, fun hright => ?_⟩
  have hno := hright.fault
  rw [hfault] at hno
  cases hno

/-- The seventh error of the only request of the hard disk; a write of the last block, whose second sector
fails while the call that sent it still waits, so that the retry is refused; the ninth error of the only request of the
floppy; and a floppy that recalibrates for no request, and is busy with that when the next one comes. -/
theorem handlers_look_up_null :
    (∃ c, Lib.run (Hd.step oneDrive) Hd.quiet
      ([.arrive 0 0 .read 3 0, .go, .go] ++ (List.replicate 6 [.interrupt false, .go, .go, .go]).flatten ++
        [.interrupt false, .go, .go]) = some c ∧ ¬ Hd.Right c.hd) ∧
    (∃ c, Lib.run (Hd.step oneDrive) Hd.quiet
      [.arrive 0 0 .write 20909 0, .go, .go, .interrupt true, .interrupt false, .go, .go, .go, .go, .drq false]
        = some c ∧ ¬ Hd.Right c.hd) ∧
    (∃ s, Lib.run Fd.step Fd.quiet (.arrive 0 28 .read 0 0 [] 0 ::
      (List.replicate 4 [Fd.failed, Fd.arrived]).flatten ++
      (List.replicate 4 [Fd.failed, Fd.arrived, Fd.arrived]).flatten ++ [Fd.failed])
        = some s ∧ ¬ Fd.Right s) ∧
    ∃ s, Lib.run Fd.step Fd.quiet [.arrive 0 28 .read 0 0 [] 1, Fd.arrived, .timer 0 [] 0, Fd.arrived,
      Fd.transferred,
      .arrive 1 28 .read 0 0 [] 1, .interrupt ⟨[0x20, 0x00], true⟩ [] 1, .timer 0 [] 0, Fd.transferred,
      .timer 0 [] 0] = some s ∧ ¬ Fd.Right s := by
  refine ⟨?_, ?_, ?_, ?_⟩
  · exact Hd.faulty (by decide +kernel)
  · exact Hd.faulty (by decide +kernel)
  · exact Fd.faulty (by decide +kernel)
  · exact Fd.faulty (by decide +kernel)

end Linux011.Drivers
