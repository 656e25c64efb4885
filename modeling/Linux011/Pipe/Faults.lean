import Linux011.Pipe.Fifo

/-!
# Pipes and page faults

`get_fs_byte` and `put_fs_byte` can meet a page that is not there, and then the task sleeps in the
middle of a chunk. The head or the tail has moved before the first byte of the chunk is copied, so
at such a moment the ring does not say what it holds: behind a sleeping writer there are bytes that
nobody has stored, and a sleeping reader has given its slots away to the writers before it has read
them. (`tty_read` and `tty_write` take the byte out of the queue, or out of user memory, before they
go on.)

The order is kept when neither happens: no writer sleeps in a chunk, and no writer claims slots that
a sleeping reader has still to read.
-/

namespace Linux011.Pipe

/-! ## The machine -/

/-- The pipe, the calls under way, and the task that has the processor. -/
structure Faults (ι : Type*) where
  ring : Ring
  call : ι → Option Call
  current : Option ι

/-- A task gets the processor, gives it away in user mode, calls `read_pipe` or `write_pipe`, or
goes on in its call: one round of a loop, which may be a page fault; or the number of open ends
changes. -/
inductive FaultEvent (ι : Type*) where
  | resume (t : ι)
  | leave (t : ι)
  | readPipe (t : ι) (count : Int)
  | writePipe (t : ι) (buf : Nat → Byte) (count : Int)
  | run (t : ι) (fault : Bool)
  | iCount (n : Nat)

section
variable {ι : Type*} [DecidableEq ι]

def Faults.goto (s : Faults ι) (t : ι) (p : Ring) (c : Option Call) : Faults ι :=
  { s with ring := p, call := Function.update s.call t c }

/-- Task `t` goes on in its call. -/
def runCall (s : Faults ι) (t : ι) (c : Call) (fault : Bool) : Faults ι :=
  if c.chars = 0 then
    match top s.ring c with
    | .ret _ _ => s.goto t s.ring none
    | .sleep => { s with current := none }
    | .chunk p c => s.goto t p (some c)
  else if fault then { s with current := none }
  else s.goto t (copyByte s.ring c).1 (some (copyByte s.ring c).2)

def faultStep (s : Faults ι) : FaultEvent ι → Option (Faults ι)
  | .resume t => if s.current = none then some { s with current := some t } else none
  | .leave t =>
    if s.current = some t ∧ (s.call t).isNone then some { s with current := none } else none
  | .readPipe t count =>
    if s.current = some t ∧ (s.call t).isNone then
      some (s.goto t s.ring (some (.start false (fun _ => 0) count)))
    else none
  | .writePipe t buf count =>
    if s.current = some t ∧ (s.call t).isNone then
      some (s.goto t s.ring (some (.start true buf count)))
    else none
  | .run t fault =>
    if s.current = some t then (s.call t).map fun c => runCall s t c fault else none
  | .iCount n => some { s with ring := { s.ring with iCount := n } }

end

/-! ## Order at a sleep point -/

section
variable {ι : Type*}

/-- The bytes from the tail to the head have been stored, in order, and not delivered; what has been
delivered was the byte that was claimed, stored before; and what a reader has claimed and not yet
delivered is still there. -/
structure InOrder (s : Faults ι) : Prop where
  stored : ∀ i < pipeSize s.ring,
    s.ring.stamp ((s.ring.tail + i) % 4096) = some (s.ring.taken + i) ∧
      s.ring.accepted[s.ring.taken + i]? = some (s.ring.page ((s.ring.tail + i) % 4096))
  delivered : ∀ d ∈ s.ring.delivered, d.stamp = some d.number ∧ d.number < s.ring.taken ∧
    s.ring.accepted[d.number]? = some d.byte
  kept : ∀ t c, s.call t = some c → c.write = false → ∀ i < c.chars,
    s.ring.stamp (c.size + i) = some (c.number + i)

/-- No writer sleeps in a chunk, and no writer claims a slot that a reader has still to read. -/
def Resident (s : Faults ι) (e : FaultEvent ι) : Prop :=
  ∀ t fault c, e = .run t fault → s.call t = some c → c.write = true →
    (c.chars ≠ 0 → fault = false) ∧
    (c.chars = 0 → ∀ u d, s.call u = some d → d.write = false → ∀ i < chunkSize s.ring c,
      ∀ j < d.chars, s.ring.head + i ≠ d.size + j)

/-- The bytes that the running writer has claimed and not stored. -/
def Faults.pending (s : Faults ι) : Nat :=
  match s.current with
  | none => 0
  | some t =>
    match s.call t with
    | none => 0
    | some c => if c.write then c.chars else 0

/-- A writer inside a chunk. -/
structure Storing (s : Faults ι) (t : ι) (c : Call) : Prop where
  running : s.current = some t
  number : c.number = s.ring.accepted.length
  slot : c.number % 4096 = c.size
  page : c.size + c.chars ≤ 4096

/-- A reader inside a chunk. -/
structure Loading (p : Ring) (c : Call) : Prop where
  number : c.number + c.chars ≤ p.taken
  kept : ∀ i < c.chars, p.stamp (c.size + i) = some (c.number + i)

/-- THE INVARIANT. -/
structure Order (s : Faults ι) : Prop where
  head : s.ring.head = s.ring.written % 4096
  tail : s.ring.tail = s.ring.taken % 4096
  taken : s.ring.taken ≤ s.ring.written
  written : s.ring.written ≤ s.ring.taken + 4095
  length : s.ring.accepted.length + s.pending = s.ring.written
  text : ∀ q n, s.ring.stamp q = some n → s.ring.accepted[n]? = some (s.ring.page q)
  stored : ∀ n, s.ring.taken ≤ n → n < s.ring.accepted.length → s.ring.stamp (n % 4096) = some n
  writer : ∀ t c, s.call t = some c → c.write = true → c.chars ≠ 0 → Storing s t c
  reader : ∀ t c, s.call t = some c → c.write = false → c.chars ≠ 0 → Loading s.ring c
  apart : ∀ t c u d, s.call t = some c → c.write = true → s.call u = some d → d.write = false →
    ∀ i < c.chars, ∀ j < d.chars, c.size + i ≠ d.size + j
  delivered : ∀ d ∈ s.ring.delivered, d.stamp = some d.number ∧ d.number < s.ring.taken ∧
    s.ring.accepted[d.number]? = some d.byte

variable {s s' : Faults ι} {t : ι} {c c' : Call} {p p' : Ring}

theorem Order.size_eq (O : Order s) : pipeSize s.ring = s.ring.written - s.ring.taken := by
  have h1 := O.head
  have h2 := O.tail
  have h3 := O.taken
  have h4 := O.written
  unfold pipeSize
  omega

theorem pending_none (h : s.current = none) : s.pending = 0 := by
  rw [Faults.pending, h]

theorem pending_some (h : s.current = some t) (hc : s.call t = some c) :
    s.pending = if c.write then c.chars else 0 := by
  rw [Faults.pending, h]
  dsimp only
  rw [hc]

theorem pending_idle (h : s.current = some t) (hc : s.call t = none) : s.pending = 0 := by
  rw [Faults.pending, h]
  dsimp only
  rw [hc]

/-- At a sleep point the invariant says that the bytes are in order. -/
theorem Order.inOrder (O : Order s) (h : s.current = none) : InOrder s := by
  have hlength := O.length
  rw [pending_none h] at hlength
  refine ⟨fun i hi => ?_, O.delivered, fun t c hc hw i hi => ?_⟩
  · rw [O.size_eq] at hi
    have hslot : (s.ring.taken + i) % 4096 = (s.ring.tail + i) % 4096 := by
      rw [O.tail]
      omega
    have hstored := O.stored (s.ring.taken + i) (by omega) (by omega)
    rw [hslot] at hstored
    exact ⟨hstored, O.text _ _ hstored⟩
  · exact (O.reader t c hc hw (by omega)).kept i hi

end

/-! ## Steps -/

variable {ι : Type*} [DecidableEq ι] {s s' : Faults ι} {t : ι} {c c' : Call} {p p' : Ring}

theorem goto_call {o : Option Call} {u : ι} {d : Call} (h : (s.goto t p o).call u = some d) :
    (u = t ∧ o = some d) ∨ (u ≠ t ∧ s.call u = some d) := by
  simp only [Faults.goto] at h
  by_cases hu : u = t
  · rw [hu, Function.update_self] at h
    exact Or.inl ⟨hu, h⟩
  · rw [Function.update_of_ne hu] at h
    exact Or.inr ⟨hu, h⟩

omit [DecidableEq ι] in
/-- The processor changes hands, and no writer is in a chunk. -/
theorem Order.idle (O : Order s) {cur : Option ι}
    (hnone : ∀ u d, s.call u = some d → d.write = true → d.chars = 0) :
    Order { s with current := cur } := by
  have hzero : ∀ cur : Option ι, Faults.pending { s with current := cur } = 0 := by
    intro cur
    unfold Faults.pending
    cases cur with
    | none => rfl
    | some u =>
      dsimp only
      cases hu : s.call u with
      | none => rfl
      | some d =>
        dsimp only
        split
        · next hw => exact hnone u d hu hw
        · rfl
  refine ⟨O.head, O.tail, O.taken, O.written, ?_, O.text, O.stored, fun u d hd hw h0 => ?_, O.reader,
    O.apart, O.delivered⟩
  · have := O.length
    rw [show s.pending = 0 from hzero s.current] at this
    rw [hzero cur]
    exact this
  · exact absurd (hnone u d hd hw) h0

omit [DecidableEq ι] in
/-- When the running task is not a writer in a chunk, nobody is. -/
theorem Order.quiet (O : Order s) (hrun : s.current = some t)
    (hc : ∀ c, s.call t = some c → c.write = true → c.chars = 0) :
    ∀ u d, s.call u = some d → d.write = true → d.chars = 0 := by
  intro u d hd hw
  by_contra h0
  have := (O.writer u d hd hw h0).running
  rw [hrun] at this
  cases this
  exact h0 (hc d hd hw)

omit [DecidableEq ι] in
theorem pending_quiet (h : ∀ u d, s.call u = some d → d.write = true → d.chars = 0) :
    s.pending = 0 := by
  cases hrun : s.current with
  | none => exact pending_none hrun
  | some t =>
    cases hc : s.call t with
    | none => exact pending_idle hrun hc
    | some c =>
      rw [pending_some hrun hc]
      split
      · next hw => exact h t c hc hw
      · rfl

/-- A call begins, or returns. -/
theorem Order.enter (O : Order s) (hrun : s.current = some t)
    (hc : ∀ c, s.call t = some c → c.write = true → c.chars = 0) {o : Option Call}
    (ho : ∀ d, o = some d → d.chars = 0) : Order (s.goto t s.ring o) := by
  have hquiet := O.quiet hrun hc
  have hquiet' : ∀ u d, (s.goto t s.ring o).call u = some d → d.write = true → d.chars = 0 := by
    intro u d hd hw
    rcases goto_call hd with ⟨-, h⟩ | ⟨-, h⟩
    · exact ho d h
    · exact hquiet u d h hw
  refine ⟨O.head, O.tail, O.taken, O.written, ?_, O.text, O.stored, fun u d hd hw h0 => ?_,
    fun u d hd hw h0 => ?_, fun u d v e hd hw _ _ i hi => ?_, O.delivered⟩
  · have := O.length
    rw [pending_quiet hquiet] at this
    rw [pending_quiet hquiet']
    exact this
  · exact absurd (hquiet' u d hd hw) h0
  · rcases goto_call hd with ⟨-, h⟩ | ⟨-, h⟩
    · exact absurd (ho d h) h0
    · exact O.reader u d h hw h0
  · rw [hquiet' u d hd hw] at hi
    exact absurd hi (Nat.not_lt_zero i)

/-- A reader claims a chunk: its bytes are in the ring, and leave it. -/
theorem Order.take (O : Order s) (hrun : s.current = some t) (hc : s.call t = some c)
    (hw : c.write = false) {chars : Nat} (hsize : chars ≤ pipeSize s.ring)
    (hpage : s.ring.tail + chars ≤ 4096)
    (hp : p = { s.ring with tail := (s.ring.tail + chars) % 65536 % 4096
                            taken := s.ring.taken + chars })
    (hc' : c'.write = false ∧ c'.chars = chars ∧ c'.size = s.ring.tail ∧ c'.number = s.ring.taken) :
    Order (s.goto t p (some c')) := by
  obtain ⟨hw', hchars, hslot, hnumber⟩ := hc'
  have hreader : ∀ d, s.call t = some d → d.write = true → d.chars = 0 := by
    intro d hd hdw
    rw [hc] at hd
    cases hd
    rw [hw] at hdw
    cases hdw
  have hquiet := O.quiet hrun hreader
  have hquiet' : ∀ u d, (s.goto t p (some c')).call u = some d → d.write = true →
      d.chars = 0 := by
    intro u d hd hdw
    rcases goto_call hd with ⟨-, h⟩ | ⟨-, h⟩
    · cases h
      rw [hw'] at hdw
      cases hdw
    · exact hquiet u d h hdw
  have hlength := O.length
  rw [pending_quiet hquiet] at hlength
  have htail := O.tail
  rw [O.size_eq] at hsize
  have hbound := O.taken
  have hwritten := O.written
  subst hp
  refine ⟨O.head, ?_, ?_, ?_, ?_, O.text, fun n hn => O.stored n (by dsimp only [Faults.goto] at hn; omega),
    fun u d hd hdw h0 => absurd (hquiet' u d hd hdw) h0, fun u d hd hdw h0 => ?_,
    fun u d v e hd hdw _ _ i hi => ?_, fun d hd => ?_⟩
  · show (s.ring.tail + chars) % 65536 % 4096 = (s.ring.taken + chars) % 4096
    omega
  · show s.ring.taken + chars ≤ s.ring.written
    omega
  · show s.ring.written ≤ s.ring.taken + chars + 4095
    omega
  · rw [pending_quiet hquiet']
    exact hlength
  · rcases goto_call hd with ⟨-, h⟩ | ⟨-, h⟩
    · cases h
      refine ⟨?_, fun i hi => ?_⟩
      · show c'.number + c'.chars ≤ s.ring.taken + chars
        omega
      · have hstored := O.stored (s.ring.taken + i) (by omega) (by omega)
        have : (s.ring.taken + i) % 4096 = c'.size + i := by omega
        rw [this] at hstored
        rw [hnumber]
        exact hstored
    · have L := O.reader u d h hdw h0
      exact ⟨Nat.le_trans L.number (Nat.le_add_right _ _), L.kept⟩
  · rw [hquiet' u d hd hdw] at hi
    exact absurd hi (Nat.not_lt_zero i)
  · obtain ⟨h1, h2, h3⟩ := O.delivered d hd
    exact ⟨h1, Nat.lt_of_lt_of_le h2 (Nat.le_add_right _ _), h3⟩

/-- A writer claims a chunk of slots in which no reader has anything left. -/
theorem Order.put (O : Order s) (hrun : s.current = some t) (hc : s.call t = some c)
    (hzero : c.chars = 0) {chars : Nat} (hsize : pipeSize s.ring + chars ≤ 4095)
    (hpage : s.ring.head + chars ≤ 4096)
    (hfree : ∀ u d, s.call u = some d → d.write = false → ∀ i < chars, ∀ j < d.chars,
      s.ring.head + i ≠ d.size + j)
    (hp : p = { s.ring with head := (s.ring.head + chars) % 65536 % 4096
                            written := s.ring.written + chars })
    (hc' : c'.write = true ∧ c'.chars = chars ∧ c'.size = s.ring.head ∧
      c'.number = s.ring.written) : Order (s.goto t p (some c')) := by
  obtain ⟨hw', hchars, hslot, hnumber⟩ := hc'
  have hquiet := O.quiet hrun fun d hd _ => by
    rw [hc] at hd
    cases hd
    exact hzero
  have hlength := O.length
  rw [pending_quiet hquiet] at hlength
  have hhead := O.head
  rw [O.size_eq] at hsize
  have hbound := O.taken
  subst hp
  have hpending : (s.goto t { s.ring with
      head := (s.ring.head + chars) % 65536 % 4096, written := s.ring.written + chars }
        (some c')).pending = chars := by
    unfold Faults.pending
    rw [show (s.goto t _ (some c')).current = some t from hrun]
    dsimp only [Faults.goto]
    rw [Function.update_self]
    dsimp only
    rw [if_pos hw', hchars]
  refine ⟨?_, O.tail, ?_, ?_, ?_, O.text, O.stored, fun u d hd hdw h0 => ?_,
    fun u d hd hdw h0 => ?_, fun u d v e hd hdw he hew i hi j hj => ?_, O.delivered⟩
  · show (s.ring.head + chars) % 65536 % 4096 = (s.ring.written + chars) % 4096
    omega
  · show s.ring.taken ≤ s.ring.written + chars
    omega
  · show s.ring.written + chars ≤ s.ring.taken + 4095
    omega
  · rw [hpending]
    show s.ring.accepted.length + chars = s.ring.written + chars
    omega
  · rcases goto_call hd with ⟨hu, h⟩ | ⟨-, h⟩
    · cases h
      refine ⟨by rw [hu]; exact hrun, ?_, ?_, ?_⟩
      · show c'.number = s.ring.accepted.length
        omega
      · omega
      · omega
    · exact absurd (hquiet u d h hdw) h0
  · rcases goto_call hd with ⟨-, h⟩ | ⟨-, h⟩
    · cases h
      rw [hw'] at hdw
      cases hdw
    · exact ⟨(O.reader u d h hdw h0).number, (O.reader u d h hdw h0).kept⟩
  · have he' : s.call v = some e := by
      rcases goto_call he with ⟨-, h⟩ | ⟨-, h⟩
      · cases h
        rw [hw'] at hew
        cases hew
      · exact h
    rcases goto_call hd with ⟨-, h⟩ | ⟨-, h⟩
    · cases h
      rw [hslot]
      exact hfree v e he' hew i (hchars ▸ hi) j hj
    · exact O.apart u d v e h hdw he' hew i hi j hj

/-- A reader delivers a byte of its chunk. -/
theorem Order.load (O : Order s) (hrun : s.current = some t) (hc : s.call t = some c)
    (hw : c.write = false) (h0 : c.chars ≠ 0) (byte : Byte) :
    Order (s.goto t (putByte s.ring c) (some (c.next byte))) := by
  have hreader : ∀ d, s.call t = some d → d.write = true → d.chars = 0 := by
    intro d hd hdw
    rw [hc] at hd
    cases hd
    rw [hw] at hdw
    cases hdw
  have hquiet := O.quiet hrun hreader
  have hquiet' : ∀ u d, (s.goto t (putByte s.ring c) (some (c.next byte))).call u = some d →
      d.write = true → d.chars = 0 := by
    intro u d hd hdw
    rcases goto_call hd with ⟨-, h⟩ | ⟨-, h⟩
    · cases h
      have : c.write = true := hdw
      rw [hw] at this
      cases this
    · exact hquiet u d h hdw
  have L := O.reader t c hc hw h0
  have hfirst : s.ring.stamp c.size = some c.number := L.kept 0 (Nat.pos_of_ne_zero h0)
  have hnumber := L.number
  refine ⟨O.head, O.tail, O.taken, O.written, ?_, O.text, O.stored,
    fun u d hd hdw h1 => absurd (hquiet' u d hd hdw) h1, fun u d hd hdw h1 => ?_,
    fun u d v e hd hdw _ _ i hi => ?_, fun d hd => ?_⟩
  · have := O.length
    rw [pending_quiet hquiet] at this
    rw [pending_quiet hquiet']
    exact this
  · rcases goto_call hd with ⟨-, h⟩ | ⟨-, h⟩
    · cases h
      refine ⟨?_, fun i hi => ?_⟩
      · show c.number + 1 + (c.chars - 1) ≤ s.ring.taken
        omega
      · have hi' : i < c.chars - 1 := hi
        have := L.kept (i + 1) (by omega)
        show s.ring.stamp (c.size + 1 + i) = some (c.number + 1 + i)
        rw [Nat.add_right_comm, Nat.add_right_comm c.number]
        exact this
    · exact ⟨(O.reader u d h hdw h1).number, (O.reader u d h hdw h1).kept⟩
  · rw [hquiet' u d hd hdw] at hi
    exact absurd hi (Nat.not_lt_zero i)
  · rcases List.mem_append.mp hd with hd | hd
    · exact O.delivered d hd
    · rw [List.mem_singleton.mp hd]
      exact ⟨hfirst, by dsimp only [Faults.goto, putByte]; omega, O.text _ _ hfirst⟩

/-- A writer stores a byte of its chunk. -/
theorem Order.store (O : Order s) (hc : s.call t = some c)
    (hw : c.write = true) (h0 : c.chars ≠ 0) (byte : Byte) :
    Order (s.goto t (getByte s.ring c) (some (c.next byte))) := by
  obtain ⟨hrun, hnumber, hslot, hpage⟩ := O.writer t c hc hw h0
  have hlength := O.length
  rw [pending_some hrun hc, if_pos hw] at hlength
  have hbound := O.taken
  have hwritten := O.written
  have hother : ∀ u d, u ≠ t → s.call u = some d → d.write = true → d.chars = 0 := by
    intro u d hu hd hdw
    by_contra h1
    have := (O.writer u d hd hdw h1).running
    rw [hrun] at this
    exact hu (Option.some.inj this).symm
  have hcall : (s.goto t (getByte s.ring c) (some (c.next byte))).call t = some (c.next byte) :=
    Function.update_self ..
  have hstamp : ∀ q, q ≠ c.size → (getByte s.ring c).stamp q = s.ring.stamp q := fun q hq =>
    Function.update_of_ne hq ..
  have hbyte : ∀ q, q ≠ c.size → (getByte s.ring c).page q = s.ring.page q := fun q hq =>
    Function.update_of_ne hq ..
  have hself : (getByte s.ring c).stamp c.size = some c.number := Function.update_self ..
  have hold : ∀ (n : Nat) (b : Byte), s.ring.accepted[n]? = some b →
      (getByte s.ring c).accepted[n]? = some b := fun n b hn => by
    have hlt := (List.getElem?_eq_some_iff.mp hn).1
    exact (List.getElem?_append_left hlt).trans hn
  refine ⟨O.head, O.tail, O.taken, O.written, ?_, fun q n hq => ?_, fun n hn hn' => ?_,
    fun u d hd hdw h1 => ?_, fun u d hd hdw h1 => ?_,
    fun u d v e hd hdw he hew i hi j hj => ?_, fun d hd => ?_⟩
  · have hrun' : (s.goto t (getByte s.ring c) (some (c.next byte))).current = some t := hrun
    rw [pending_some hrun' hcall]
    show (s.ring.accepted ++ [_]).length + (if c.write then c.chars - 1 else 0) = s.ring.written
    rw [if_pos hw, List.length_append, List.length_singleton]
    omega
  · by_cases hqs : q = c.size
    · rw [hqs] at hq ⊢
      have hq : (getByte s.ring c).stamp c.size = some n := hq
      rw [hself, hnumber] at hq
      cases hq
      show (s.ring.accepted ++ [_])[s.ring.accepted.length]? = some (Function.update s.ring.page
        c.size _ c.size)
      rw [List.getElem?_concat_length, Function.update_self]
    · have hq : (getByte s.ring c).stamp q = some n := hq
      rw [hstamp q hqs] at hq
      show (getByte s.ring c).accepted[n]? = some ((getByte s.ring c).page q)
      rw [hbyte q hqs]
      exact hold n _ (O.text q n hq)
  · have hn : s.ring.taken ≤ n := hn
    have hn' : n < (s.ring.accepted ++ [_]).length := hn'
    rw [List.length_append, List.length_singleton] at hn'
    by_cases hlast : n = s.ring.accepted.length
    · have : n % 4096 = c.size := by omega
      show (getByte s.ring c).stamp (n % 4096) = some n
      rw [this, hself]
      congr 1
      omega
    · have : n % 4096 ≠ c.size := by omega
      show (getByte s.ring c).stamp (n % 4096) = some n
      rw [hstamp _ this]
      exact O.stored n hn (by omega)
  · rcases goto_call hd with ⟨hu, h⟩ | ⟨hu, h⟩
    · cases h
      have h1 : c.chars - 1 ≠ 0 := h1
      refine ⟨by rw [hu]; exact hrun, ?_, ?_, ?_⟩
      · show c.number + 1 = (s.ring.accepted ++ [_]).length
        rw [List.length_append, List.length_singleton, hnumber]
      · show (c.number + 1) % 4096 = c.size + 1
        omega
      · show c.size + 1 + (c.chars - 1) ≤ 4096
        omega
    · exact absurd (hother u d hu h hdw) h1
  · rcases goto_call hd with ⟨-, h⟩ | ⟨-, h⟩
    · cases h
      have : c.write = false := hdw
      rw [hw] at this
      cases this
    · have L := O.reader u d h hdw h1
      refine ⟨L.number, fun i hi => ?_⟩
      have hne := O.apart t c u d hc hw h hdw 0 (Nat.pos_of_ne_zero h0) i hi
      show (getByte s.ring c).stamp (d.size + i) = some (d.number + i)
      rw [hstamp _ hne.symm]
      exact L.kept i hi
  · have he' : s.call v = some e := by
      rcases goto_call he with ⟨-, h⟩ | ⟨-, h⟩
      · cases h
        have : c.write = false := hew
        rw [hw] at this
        cases this
      · exact h
    rcases goto_call hd with ⟨-, h⟩ | ⟨hu, h⟩
    · cases h
      have hi : i < c.chars - 1 := hi
      have := O.apart t c v e hc hw he' hew (i + 1) (by omega) j hj
      show c.size + 1 + i ≠ e.size + j
      omega
    · rw [hother u d hu h hdw] at hi
      exact absurd hi (Nat.not_lt_zero i)
  · obtain ⟨h1, h2, h3⟩ := O.delivered d hd
    exact ⟨h1, h2, hold _ _ h3⟩

/-- A round of a loop keeps the order. -/
theorem runCall_order (O : Order s) (hrun : s.current = some t) (hc : s.call t = some c)
    {fault : Bool} (hres : Resident s (.run t fault)) : Order (runCall s t c fault) := by
  have hhead : s.ring.head < 4096 := by
    rw [O.head]
    omega
  have htail : s.ring.tail < 4096 := by
    rw [O.tail]
    omega
  obtain ⟨hpage, -, hroom⟩ := chunkSize_le s.ring c hhead htail
  have hsize := pipeSize_lt s.ring
  unfold runCall
  split
  · next h0 =>
    have hzero : ∀ d, s.call t = some d → d.write = true → d.chars = 0 := by
      intro d hd _
      rw [hc] at hd
      cases hd
      exact h0
    cases hw : c.write with
    | false =>
      have htop : top s.ring c = readTop s.ring c := by rw [top, hw]; rfl
      rw [htop]
      rw [hw] at hpage hroom
      rcases readTop_cases s.ring hw with ⟨value, sigpipe, h, -⟩ | h | ⟨-, h⟩
      · rw [h]
        exact O.enter hrun hzero (by rintro _ ⟨⟩)
      · rw [h]
        exact O.idle (O.quiet hrun hzero)
      · rw [h]
        exact O.take hrun hc hw hroom hpage rfl ⟨hw, rfl, rfl, rfl⟩
    | true =>
      have htop : top s.ring c = writeTop s.ring c := by rw [top, hw]; rfl
      rw [htop]
      rw [hw, if_pos rfl] at hpage
      rw [hw, room, if_pos rfl] at hroom
      rcases writeTop_cases s.ring hw with ⟨value, sigpipe, h, -⟩ | h | ⟨-, h⟩
      · rw [h]
        exact O.enter hrun hzero (by rintro _ ⟨⟩)
      · rw [h]
        exact O.idle (O.quiet hrun hzero)
      · rw [h]
        exact O.put hrun hc h0 (by omega) hpage ((hres t fault c rfl hc hw).2 h0) rfl
          ⟨hw, rfl, rfl, rfl⟩
  · next h0 =>
    cases hw : c.write with
    | false =>
      split
      · refine O.idle (O.quiet hrun fun d hd hdw => ?_)
        rw [hc] at hd
        cases hd
        rw [hw] at hdw
        cases hdw
      · have hcopy : copyByte s.ring c = (putByte s.ring c, c.next (s.ring.page c.size)) := by
          rw [copyByte, hw]
          rfl
        rw [hcopy]
        exact O.load hrun hc hw h0 _
    | true =>
      have hcopy : copyByte s.ring c = (getByte s.ring c, c.next (c.buf (c.done - c.chars))) := by
        rw [copyByte, hw]
        rfl
      rw [(hres t fault c rfl hc hw).1 h0, hcopy]
      exact O.store hc hw h0 _

/-- Every event keeps the order. -/
theorem faultStep_order (O : Order s) {e : FaultEvent ι} (hres : Resident s e)
    (h : faultStep s e = some s') : Order s' := by
  have hcaller : ∀ {t}, (s.call t).isNone = true → ∀ c, s.call t = some c → c.write = true →
      c.chars = 0 := by
    intro t ht c hc
    rw [hc] at ht
    cases ht
  cases e with
  | resume t =>
    simp only [faultStep] at h
    split at h
    · next hnone =>
      cases h
      refine O.idle fun u d hd hw => ?_
      by_contra h0
      have := (O.writer u d hd hw h0).running
      rw [hnone] at this
      cases this
    · cases h
  | leave t =>
    simp only [faultStep] at h
    split at h
    · next hcond =>
      cases h
      exact O.idle (O.quiet hcond.1 (hcaller hcond.2))
    · cases h
  | readPipe t count =>
    simp only [faultStep] at h
    split at h
    · next hcond =>
      cases h
      refine O.enter hcond.1 (hcaller hcond.2) fun d hd => ?_
      cases hd
      rfl
    · cases h
  | writePipe t buf count =>
    simp only [faultStep] at h
    split at h
    · next hcond =>
      cases h
      refine O.enter hcond.1 (hcaller hcond.2) fun d hd => ?_
      cases hd
      rfl
    · cases h
  | run t fault =>
    simp only [faultStep] at h
    split at h
    · next hrun =>
      obtain ⟨c, hc, rfl⟩ := Option.map_eq_some_iff.mp h
      exact runCall_order O hrun hc hres
    · cases h
  | iCount n =>
    cases h
    exact ⟨O.head, O.tail, O.taken, O.written, O.length, O.text, O.stored,
      fun u d hd hw h0 => ⟨(O.writer u d hd hw h0).running, (O.writer u d hd hw h0).number,
        (O.writer u d hd hw h0).slot, (O.writer u d hd hw h0).page⟩,
      fun u d hd hw h0 => ⟨(O.reader u d hd hw h0).number, (O.reader u d hd hw h0).kept⟩, O.apart,
      O.delivered⟩

/-! ## The result -/

/-- A fresh pipe that nobody uses yet. -/
def Faults.Start (s : Faults ι) : Prop :=
  s.ring.Fresh ∧ (∀ q, s.ring.stamp q = none) ∧ (∀ t, s.call t = none) ∧ s.current = none

omit [DecidableEq ι] in
theorem Faults.Start.order (h : s.Start) : Order s := by
  obtain ⟨⟨hhead, htail, -, hwritten, htaken, hacc, hdel⟩, hstamp, hcall, hcur⟩ := h
  have hno : ∀ {t c}, s.call t ≠ some c := fun {t c} hc => by
    rw [hcall t] at hc
    cases hc
  refine ⟨?_, ?_, ?_, ?_, ?_, fun q n hq => ?_, fun n _ hn => ?_, fun _ _ hc => absurd hc hno,
    fun _ _ hc => absurd hc hno, fun _ _ _ _ hc => absurd hc hno, fun d hd => ?_⟩
  · rw [hhead, hwritten]
  · rw [htail, htaken]
  · exact Nat.le_of_eq (htaken.trans hwritten.symm)
  · omega
  · rw [pending_none hcur, hacc, hwritten]
    rfl
  · rw [hstamp q] at hq
    cases hq
  · rw [hacc] at hn
    exact absurd hn (Nat.not_lt_zero n)
  · rw [hdel] at hd
    cases hd

/-- PIPES AND PAGE FAULTS. As long as no writer sleeps inside a chunk, and no writer claims slots
that a sleeping reader has still to read, the bytes are in order at every sleep point. -/
theorem pipe_in_order (h : Lib.Reach faultStep Resident Faults.Start s)
    (hsleep : s.current = none) : InOrder s :=
  (Lib.Reach.invariant (I := Order) (fun _ h0 => h0.order) (fun _ _ _ O hr hs =>
    faultStep_order O hr hs) h).inOrder hsleep

/-- A fresh pipe of two tasks. -/
def freshFaults : Faults (Fin 2) :=
  ⟨⟨0, 0, fun _ => 0, 2, fun _ => none, 0, 0, [], []⟩, fun _ => none, none⟩

theorem freshFaults_start : freshFaults.Start :=
  ⟨⟨rfl, rfl, rfl, rfl, rfl, rfl, rfl⟩, fun _ => rfl, fun _ => rfl, rfl⟩

/-- Task 0 writes two bytes; task 1 takes them and sleeps before the second one. -/
def readerFaults : List (FaultEvent (Fin 2)) :=
  [.resume 0, .writePipe 0 (fun _ => 7) 2, .run 0 false, .run 0 false, .run 0 false, .run 0 false,
    .leave 0, .resume 1, .readPipe 1 2, .run 1 false, .run 1 false, .run 1 true]

/-- The check of a closed run: writers do not fault, and run only when no reader is in a chunk. -/
def residentCheck (s : Faults (Fin 2)) : FaultEvent (Fin 2) → Bool
  | .run t fault => (s.call t).all fun c => !c.write || (!fault &&
      decide (∀ u, (s.call u).all fun d => d.write || d.chars = 0))
  | _ => true

theorem resident_of_check {s : Faults (Fin 2)} {e : FaultEvent (Fin 2)}
    (h : residentCheck s e = true) : Resident s e := by
  rintro t fault c rfl hc hw
  rw [residentCheck, hc, Option.all_some, hw, Bool.not_true, Bool.false_or, Bool.and_eq_true,
    Bool.not_eq_true', decide_eq_true_eq] at h
  refine ⟨fun _ => h.1, fun _ u d hd hdw i _ j hj => ?_⟩
  have := h.2 u
  rw [hd, Option.all_some, hdw, Bool.false_or, decide_eq_true_eq] at this
  omega

theorem pipe_in_order_readerFaults : ∃ s : Faults (Fin 2), InOrder s ∧
    s.ring.delivered.map Delivery.number = [0] := by
  have hrun : (Lib.run (fun s e => (faultStep s e).filter fun _ => residentCheck s e) freshFaults
      readerFaults).map (fun s => (s.current, s.ring.delivered.map Delivery.number)) =
        some (none, [0]) := by decide
  obtain ⟨s, hs, heq⟩ := Option.map_eq_some_iff.mp hrun
  obtain ⟨hcur, hdel⟩ := Prod.mk.inj heq
  have hreach : Lib.Reach faultStep Resident Faults.Start s :=
    Lib.Reach.ofChecked (fun _ _ _ _ hc => resident_of_check hc) (.start freshFaults_start) hs
  exact ⟨s, pipe_in_order hreach hcur, hdel⟩

/-- Task 0 writes two bytes and sleeps before the first one; task 1 reads them. -/
def writerFaults : List (FaultEvent (Fin 2)) :=
  [.resume 0, .writePipe 0 (fun _ => 7) 2, .run 0 false, .run 0 true, .resume 1, .readPipe 1 2,
    .run 1 false, .run 1 false, .run 1 false, .run 1 false, .leave 1]

/-- The reader has got bytes that nobody has stored. -/
theorem pipe_delivers_unstored : ¬ ∀ s : Faults (Fin 2),
    Lib.Reach faultStep (fun _ _ => True) Faults.Start s → s.current = none → InOrder s := by
  intro hclaim
  have hrun : (Lib.run faultStep freshFaults writerFaults).map
      (fun s => (s.current, s.ring.delivered.map fun d => (d.number, d.stamp))) =
        some (none, [(0, none), (1, none)]) := by decide
  obtain ⟨s, hs, heq⟩ := Option.map_eq_some_iff.mp hrun
  obtain ⟨hcur, hdel⟩ := Prod.mk.inj heq
  have hreach : Lib.Reach faultStep (fun _ _ => True) Faults.Start s :=
    Lib.Reach.ofRun (fun _ _ => trivial) (.start freshFaults_start) hs
  have hmem : ((0, none) : Nat × Option Nat) ∈ s.ring.delivered.map fun d => (d.number, d.stamp) := by
    rw [hdel]
    exact List.mem_cons_self
  obtain ⟨d, hd, heq⟩ := List.mem_map.mp hmem
  obtain ⟨-, hstamp⟩ := Prod.mk.inj heq
  have := ((hclaim s hreach hcur).delivered d hd).1
  rw [hstamp] at this
  cases this

end Linux011.Pipe
