import Linux011.Pipe.Ring

/-!
# The order of the bytes in a pipe

Here the user's pages are resident: a loop body runs to its end, and the calls of any number of
readers and writers take turns body by body. What the readers have got, followed by what is in the
ring, is what the writers have given.
-/

namespace Linux011.Pipe

/-! ## Loop bodies in any order -/

/-- The pipe, the calls under way, and the calls that have returned. -/
structure Loops (ι : Type*) where
  ring : Ring
  call : ι → Option Call
  returned : List Return

/-- A task calls `read_pipe` or `write_pipe`, or executes a loop body; the number of open ends
changes. -/
inductive LoopEvent (ι : Type*) where
  | readPipe (t : ι) (count : Int)
  | writePipe (t : ι) (buf : Nat → Byte) (count : Int)
  | body (t : ι)
  | iCount (n : Nat)

section
variable {ι : Type*} [DecidableEq ι]

/-- Task `t` has the call `c` from now on. -/
def Loops.goto (s : Loops ι) (t : ι) (p : Ring) (c : Option Call) : Loops ι :=
  { s with ring := p, call := Function.update s.call t c }

/-- A loop body; a call that sleeps tests the ring again. -/
def loopBody (s : Loops ι) (t : ι) (c : Call) : Loops ι :=
  match top s.ring c with
  | .ret value sigpipe =>
    { s.goto t s.ring none with returned := s.returned ++ [c.ret s.ring value sigpipe] }
  | .sleep => s
  | .chunk p c => s.goto t (copyChunk c.chars p c).1 (some (copyChunk c.chars p c).2)

def loopStep (s : Loops ι) : LoopEvent ι → Option (Loops ι)
  | .readPipe t count =>
    if (s.call t).isNone then some (s.goto t s.ring (some (.start false (fun _ => 0) count)))
    else none
  | .writePipe t buf count =>
    if (s.call t).isNone then some (s.goto t s.ring (some (.start true buf count))) else none
  | .body t => (s.call t).map (loopBody s t)
  | .iCount n => some { s with ring := { s.ring with iCount := n } }

end

/-! ## The inner loop -/

variable {p p' : Ring} {c c' : Call}

/-- The bytes of a reader's chunk. -/
def chunkBytes (p : Ring) (c : Call) (n : Nat) : List Byte :=
  (List.range n).map fun i => p.page (c.size + i)

/-- The bytes of a writer's chunk. -/
def chunkBuf (c : Call) (n : Nat) : List Byte :=
  (List.range n).map fun i => c.buf (c.done - c.chars + i)

theorem map_range_succ {α : Type*} (f : Nat → α) (n : Nat) :
    (List.range (n + 1)).map f = f 0 :: (List.range n).map fun i => f (i + 1) := by
  rw [List.range_succ_eq_map, List.map_cons, List.map_map]
  rfl

/-- The inner loop of a reader. -/
theorem copyChunk_read (n : Nat) (p : Ring) (c : Call) (h : c.write = false) :
    (copyChunk n p c).1 = { p with delivered := p.delivered ++ (List.range n).map fun i =>
      ⟨c.number + i, p.stamp (c.size + i), p.page (c.size + i)⟩ } ∧
    (copyChunk n p c).2 = { c with
      chars := c.chars - n, size := c.size + n, number := c.number + n
      moved := c.moved ++ chunkBytes p c n } := by
  induction n generalizing p c with
  | zero =>
    simp only [copyChunk, chunkBytes, List.range_zero, List.map_nil, List.append_nil]
    exact ⟨trivial, rfl⟩
  | succ n ih =>
    have hc : copyByte p c = (putByte p c, c.next (p.page c.size)) := by
      rw [copyByte, h]
      rfl
    have hshift : ∀ a i : Nat, a + 1 + i = a + (i + 1) := fun a i => by omega
    obtain ⟨h1, h2⟩ := ih (putByte p c) (c.next (p.page c.size)) h
    rw [copyChunk, hc, h1, h2]
    simp only [putByte, Call.next, chunkBytes, map_range_succ, List.append_assoc,
      List.singleton_append, Nat.add_zero, hshift]
    refine ⟨trivial, ?_⟩
    congr 1
    omega

/-- The inner loop of a writer. -/
theorem copyChunk_write (n : Nat) (p : Ring) (c : Call) (h : c.write = true) (hn : n ≤ c.chars)
    (hdone : c.chars ≤ c.done) :
    (∀ q, (copyChunk n p c).1.page q = if c.size ≤ q ∧ q < c.size + n then
      c.buf (c.done - c.chars + (q - c.size)) else p.page q) ∧
    (copyChunk n p c).1.head = p.head ∧ (copyChunk n p c).1.tail = p.tail ∧
    (copyChunk n p c).1.accepted = p.accepted ++ chunkBuf c n ∧
    (copyChunk n p c).1.delivered = p.delivered ∧
    (copyChunk n p c).2 = { c with
      chars := c.chars - n, size := c.size + n, number := c.number + n
      moved := c.moved ++ chunkBuf c n } := by
  induction n generalizing p c with
  | zero =>
    simp only [copyChunk, chunkBuf, List.range_zero, List.map_nil, List.append_nil]
    refine ⟨fun q => ?_, trivial, trivial, trivial, trivial, rfl⟩
    rw [if_neg]
    omega
  | succ n ih =>
    have hc : copyByte p c = (getByte p c, c.next (c.buf (c.done - c.chars))) := by
      rw [copyByte, h]
      rfl
    obtain ⟨h1, h2, h3, h4, h5, h6⟩ := ih (getByte p c) (c.next (c.buf (c.done - c.chars))) h
      (by simp only [Call.next]; omega) (by simp only [Call.next]; omega)
    have hbuf : chunkBuf c (n + 1) = c.buf (c.done - c.chars) ::
        chunkBuf (c.next (c.buf (c.done - c.chars))) n := by
      simp only [chunkBuf, Call.next, map_range_succ, Nat.add_zero]
      congr 1
      apply List.map_congr_left
      intro i _
      congr 1
      omega
    rw [copyChunk, hc]
    refine ⟨fun q => ?_, h2, h3, ?_, h5, ?_⟩
    · rw [h1]
      show (if c.size + 1 ≤ q ∧ q < c.size + 1 + n then
        c.buf (c.done - (c.chars - 1) + (q - (c.size + 1)))
        else Function.update p.page c.size (c.buf (c.done - c.chars)) q) = _
      by_cases hq : q = c.size
      · have hlater : ¬ (c.size + 1 ≤ q ∧ q < c.size + 1 + n) := by omega
        have hin : c.size ≤ q ∧ q < c.size + (n + 1) := by omega
        rw [if_neg hlater, if_pos hin, hq, Function.update_self, Nat.sub_self, Nat.add_zero]
      · rw [Function.update_of_ne hq]
        by_cases hlater : c.size + 1 ≤ q ∧ q < c.size + 1 + n
        · have hin : c.size ≤ q ∧ q < c.size + (n + 1) := by omega
          rw [if_pos hlater, if_pos hin]
          congr 1
          omega
        · have hin : ¬ (c.size ≤ q ∧ q < c.size + (n + 1)) := by omega
          rw [if_neg hlater, if_neg hin]
    · rw [h4, hbuf, getByte, List.append_assoc, List.singleton_append]
    · rw [h6, hbuf]
      simp only [Call.next, List.append_assoc, List.singleton_append]
      congr 1
      · omega
      · omega
      · omega

/-! ## A loop body -/

/-- The bytes in the ring, the oldest first. -/
def contents (p : Ring) : List Byte :=
  (List.range (pipeSize p)).map fun i => p.page ((p.tail + i) % 4096)

theorem contents_length (p : Ring) : (contents p).length = pipeSize p := by
  rw [contents, List.length_map, List.length_range]

/-- A reader's chunk is the beginning of what is in the ring. -/
theorem contents_take {chars : Nat} (hsize : chars ≤ pipeSize p) (hpage : p.tail + chars ≤ 4096)
    (htail : p'.tail = (p.tail + chars) % 65536 % 4096) (hhead : p'.head = p.head)
    (hbytes : p'.page = p.page) :
    contents p = ((List.range chars).map fun i => p.page (p.tail + i)) ++ contents p' := by
  have hrest : pipeSize p = chars + pipeSize p' := by
    have := pipeSize_take hsize htail hhead
    omega
  rw [contents, hrest, List.range_add, List.map_append, List.map_map]
  congr 1
  · refine List.map_congr_left fun i hi => congrArg p.page ?_
    rw [List.mem_range] at hi
    exact Nat.mod_eq_of_lt (by omega)
  · rw [contents, hbytes]
    refine List.map_congr_left fun i _ => congrArg p.page ?_
    rw [htail, ← Nat.add_assoc]
    omega

/-- A writer's chunk comes behind what is in the ring. -/
theorem contents_put {chars : Nat} {byte : Nat → Byte} (hh : p.head < 4096)
    (hsize : pipeSize p + chars ≤ 4095) (hpage : p.head + chars ≤ 4096)
    (hhead : p'.head = (p.head + chars) % 65536 % 4096) (htail : p'.tail = p.tail)
    (hbytes : ∀ q, p'.page q = if p.head ≤ q ∧ q < p.head + chars then byte (q - p.head)
      else p.page q) : contents p' = contents p ++ (List.range chars).map byte := by
  have hend := tail_add_pipeSize (p := p) hh
  rw [contents, pipeSize_put hsize hhead htail, htail, List.range_add, List.map_append,
    List.map_map]
  congr 1
  · refine List.map_congr_left fun i hi => ?_
    rw [List.mem_range] at hi
    have hout : ¬ (p.head ≤ (p.tail + i) % 4096 ∧ (p.tail + i) % 4096 < p.head + chars) := by
      omega
    rw [hbytes, if_neg hout]
  · refine List.map_congr_left fun i hi => ?_
    rw [List.mem_range] at hi
    have hslot : (p.tail + (pipeSize p + i)) % 4096 = p.head + i := by omega
    rw [Function.comp_apply, hslot, hbytes, if_pos (by omega), Nat.add_sub_cancel_left]

/-- The chunk fits into the page, the call and the ring. -/
theorem chunkSize_le (p : Ring) (c : Call) (hh : p.head < 4096) (ht : p.tail < 4096) :
    (if c.write then p.head else p.tail) + chunkSize p c ≤ 4096 ∧
      chunkSize p c ≤ c.count.toNat ∧ chunkSize p c ≤ room p c.write := by
  unfold chunkSize
  split <;> omega

/-- A call between two loop bodies. -/
structure Call.Between (c : Call) : Prop where
  chars : c.chars = 0
  done : c.done = c.moved.length
  count : c.count + c.done = c.requested
  started : 0 ≤ c.count ∨ c.done = 0
  buf : c.write = true → c.moved = (List.range c.done).map c.buf

/-- A return value says what has been transferred, but for a write that has transferred nothing of
what it was to; `SIGPIPE` comes to a write that is cut short; and a call is cut short only at a pipe
whose other end is closed. -/
structure Return.Exact (r : Return) : Prop where
  value : r.value = if r.write = true ∧ r.moved = [] ∧ 0 < r.requested then -1
    else (r.moved.length : Int)
  sigpipe : r.sigpipe = true ↔ r.write = true ∧ (r.moved.length : Int) < r.requested
  short : (r.moved.length : Int) < r.requested → r.iCount ≠ 2
  buf : r.write = true → r.moved = (List.range r.moved.length).map r.buf

theorem Call.Between.start (write : Bool) (buf : Nat → Byte) (count : Int) :
    (Call.start write buf count).Between :=
  ⟨rfl, rfl, by simp only [Call.start]; omega, Or.inr rfl, fun _ => rfl⟩

/-- Where a call may return, and with what. -/
structure Ends (p : Ring) (c : Call) (value : Int) (sigpipe : Bool) : Prop where
  value : value = if c.write = true ∧ c.done = 0 ∧ 0 < c.count then -1 else (c.done : Int)
  sigpipe : sigpipe = true ↔ c.write = true ∧ 0 < c.count
  cut : 0 < c.count → p.iCount ≠ 2

/-- A call that has nothing left to transfer. -/
theorem Ends.complete {p : Ring} {c : Call} (h : c.count ≤ 0) : Ends p c c.done false := by
  have hcount : ¬ 0 < c.count := Int.not_lt.mpr h
  refine ⟨?_, ?_, fun h0 => absurd h0 hcount⟩
  · rw [if_neg fun h => hcount h.2.2]
  · simp [hcount]

/-- The top of the loop of `read_pipe`. -/
theorem readTop_cases (p : Ring) {c : Call} (hw : c.write = false) :
    (∃ value sigpipe, readTop p c = .ret value sigpipe ∧ Ends p c value sigpipe) ∨
    readTop p c = .sleep ∨ (0 < c.count ∧ readTop p c = .chunk
      { p with tail := (p.tail + chunkSize p c) % 65536 % 4096, taken := p.taken + chunkSize p c }
      { c with
        count := c.count - chunkSize p c, chars := chunkSize p c, size := p.tail
        done := c.done + chunkSize p c, number := p.taken }) := by
  unfold readTop
  split
  · next h => exact Or.inl ⟨c.done, false, rfl, .complete h⟩
  · next h =>
    split
    · split
      · next hcount => exact Or.inl ⟨c.done, false, rfl, by simp [hw], by simp [hw], fun _ => hcount⟩
      · exact Or.inr (Or.inl rfl)
    · exact Or.inr (Or.inr ⟨Int.not_le.mp h, rfl⟩)

/-- The top of the loop of `write_pipe`. -/
theorem writeTop_cases (p : Ring) {c : Call} (hw : c.write = true) :
    (∃ value sigpipe, writeTop p c = .ret value sigpipe ∧ Ends p c value sigpipe) ∨
    writeTop p c = .sleep ∨ (0 < c.count ∧ writeTop p c = .chunk
      { p with head := (p.head + chunkSize p c) % 65536 % 4096
               written := p.written + chunkSize p c }
      { c with
        count := c.count - chunkSize p c, chars := chunkSize p c, size := p.head
        done := c.done + chunkSize p c, number := p.written }) := by
  unfold writeTop
  split
  · next h => exact Or.inl ⟨c.done, false, rfl, .complete h⟩
  · next h =>
    have h0 := Int.not_le.mp h
    split
    · split
      · next hcount =>
        refine Or.inl ⟨_, true, rfl, ?_, by simp [hw, h0], fun _ => hcount⟩
        simp [hw, h0]
      · exact Or.inr (Or.inl rfl)
    · exact Or.inr (Or.inr ⟨h0, rfl⟩)

/-- A call that returns between two bodies. -/
theorem Call.Between.ret (B : c.Between) {value : Int} {sigpipe : Bool} (E : Ends p c value sigpipe) :
    (c.ret p value sigpipe).Exact := by
  have hcount := B.count
  have hdone := B.done
  have hleft : 0 < c.count ↔ (c.moved.length : Int) < c.requested := by omega
  refine ⟨?_, ?_, fun hshort => E.cut (hleft.mpr hshort), fun hw => ?_⟩
  · show value = if c.write = true ∧ c.moved = [] ∧ 0 < c.requested then -1
      else (c.moved.length : Int)
    -- where nothing has been transferred, all that was asked for is left
    have hnone : c.write = true ∧ c.moved = [] ∧ 0 < c.requested ↔
        c.write = true ∧ c.done = 0 ∧ 0 < c.count := by
      rw [hleft, hdone, List.length_eq_zero_iff]
      constructor
      · rintro ⟨hw, hm, h0⟩
        exact ⟨hw, hm, by rw [hm]; exact h0⟩
      · rintro ⟨hw, hm, h0⟩
        rw [hm] at h0
        exact ⟨hw, hm, h0⟩
    simp only [hnone, ← hdone]
    exact E.value
  · show sigpipe = true ↔ c.write = true ∧ (c.moved.length : Int) < c.requested
    rw [← hleft]
    exact E.sigpipe
  · show c.moved = (List.range c.moved.length).map c.buf
    rw [← hdone]
    exact B.buf hw

/-! ## The invariant -/

structure Fifo {ι : Type*} (s : Loops ι) : Prop where
  head : s.ring.head < 4096
  tail : s.ring.tail < 4096
  order : s.ring.accepted = s.ring.delivered.map Delivery.byte ++ contents s.ring
  call : ∀ t c, s.call t = some c → c.Between
  returned : ∀ r ∈ s.returned, r.Exact

variable {ι : Type*} [DecidableEq ι] {s s' : Loops ι} {t : ι}

theorem Fifo.goto_call (F : Fifo s) {o : Option Call} (ho : ∀ c, o = some c → c.Between) :
    ∀ u c, Function.update s.call t o u = some c → c.Between := by
  intro u c hc
  by_cases hu : u = t
  · rw [hu, Function.update_self] at hc
    exact ho c hc
  · rw [Function.update_of_ne hu] at hc
    exact F.call u c hc

/-- A call returns. -/
theorem Fifo.ret (F : Fifo s) (hc : s.call t = some c) {value : Int} {sigpipe : Bool}
    (E : Ends s.ring c value sigpipe) :
    Fifo { s.goto t s.ring none with returned := s.returned ++ [c.ret s.ring value sigpipe] } := by
  refine ⟨F.head, F.tail, F.order, F.goto_call nofun, fun r hr => ?_⟩
  rcases List.mem_append.mp hr with hr | hr
  · exact F.returned r hr
  · rw [List.mem_singleton.mp hr]
    exact (F.call t c hc).ret E

/-- A loop body of `read_pipe`. -/
theorem readBody_fifo (F : Fifo s) (hc : s.call t = some c) (hw : c.write = false) :
    Fifo (loopBody s t c) := by
  have B := F.call t c hc
  have htop : top s.ring c = readTop s.ring c := by rw [top, hw]; rfl
  rw [loopBody, htop]
  rcases readTop_cases s.ring hw with ⟨value, sigpipe, h, E⟩ | h | ⟨h0, h⟩
  · rw [h]
    exact F.ret hc E
  · rw [h]
    exact F
  · rw [h]
    dsimp only
    obtain ⟨hpage, hcount, hroom⟩ := chunkSize_le s.ring c F.head F.tail
    rw [hw] at hpage hroom
    generalize chunkSize s.ring c = chars at *
    obtain ⟨h1, h2⟩ := copyChunk_read chars
      { s.ring with tail := (s.ring.tail + chars) % 65536 % 4096, taken := s.ring.taken + chars }
      { c with
        count := c.count - chars, chars := chars, size := s.ring.tail, done := c.done + chars
        number := s.ring.taken } hw
    rw [h1, h2]
    refine ⟨F.head, ?_, ?_, F.goto_call ?_, F.returned⟩
    · show (s.ring.tail + chars) % 65536 % 4096 < 4096
      omega
    · have hsplit : contents s.ring =
          ((List.range chars).map fun i => s.ring.page (s.ring.tail + i)) ++
            contents { s.ring with tail := (s.ring.tail + chars) % 65536 % 4096 } :=
        contents_take hroom hpage rfl rfl rfl
      refine F.order.trans ?_
      rw [hsplit]
      simp only [Loops.goto, List.map_append, List.map_map, List.append_assoc]
      rfl
    · rintro c' hc'
      cases hc'
      refine ⟨Nat.sub_self _, ?_, ?_, Or.inl ?_, fun h => ?_⟩
      · show c.done + chars = _
        rw [List.length_append, chunkBytes, List.length_map, List.length_range, B.done]
      · show c.count - chars + ((c.done + chars : Nat) : Int) = c.requested
        have := B.count
        omega
      · show 0 ≤ c.count - chars
        omega
      · exact absurd (hw.symm.trans h) Bool.noConfusion

/-- A loop body of `write_pipe`. -/
theorem writeBody_fifo (F : Fifo s) (hc : s.call t = some c) (hw : c.write = true) :
    Fifo (loopBody s t c) := by
  have B := F.call t c hc
  have htop : top s.ring c = writeTop s.ring c := by rw [top, hw]; rfl
  rw [loopBody, htop]
  rcases writeTop_cases s.ring hw with ⟨value, sigpipe, h, E⟩ | h | ⟨h0, h⟩
  · rw [h]
    exact F.ret hc E
  · rw [h]
    exact F
  · rw [h]
    dsimp only
    obtain ⟨hpage, hcount, hroom⟩ := chunkSize_le s.ring c F.head F.tail
    rw [hw] at hpage hroom
    rw [room, if_pos rfl] at hroom
    rw [if_pos rfl] at hpage
    generalize chunkSize s.ring c = chars at *
    obtain ⟨h1, h2, h3, h4, h5, h6⟩ := copyChunk_write chars
      { s.ring with head := (s.ring.head + chars) % 65536 % 4096
                    written := s.ring.written + chars }
      { c with
        count := c.count - chars, chars := chars, size := s.ring.head, done := c.done + chars
        number := s.ring.written } hw (Nat.le_refl _) (Nat.le_add_left _ _)
    have hnew : chunkBuf { c with
        count := c.count - chars, chars := chars, size := s.ring.head, done := c.done + chars
        number := s.ring.written } chars = (List.range chars).map fun i => c.buf (c.done + i) :=
      List.map_congr_left fun i _ => congrArg c.buf (by dsimp only; omega)
    rw [hnew] at h4 h6
    generalize copyChunk chars _ _ = q at *
    have hsize := pipeSize_lt s.ring
    refine ⟨?_, ?_, ?_, F.goto_call ?_, F.returned⟩
    · show q.1.head < 4096
      rw [h2]
      dsimp only
      omega
    · show q.1.tail < 4096
      rw [h3]
      exact F.tail
    · have hput : contents q.1 = contents s.ring ++
          (List.range chars).map fun i => c.buf (c.done + i) := by
        refine contents_put F.head (by omega) hpage h2 h3 fun p => (h1 p).trans ?_
        dsimp only
        rw [Nat.add_sub_cancel]
      show q.1.accepted = q.1.delivered.map Delivery.byte ++ contents q.1
      rw [h4, h5, hput, ← List.append_assoc]
      exact congrArg (· ++ _) F.order
    · rintro c' hc'
      cases hc'
      rw [h6]
      have hdone : c.done + chars = (c.moved ++
          (List.range chars).map fun i => c.buf (c.done + i)).length := by
        rw [List.length_append, List.length_map, List.length_range, B.done]
      refine ⟨Nat.sub_self _, hdone, ?_, Or.inl ?_, fun _ => ?_⟩
      · show c.count - chars + ((c.done + chars : Nat) : Int) = c.requested
        have := B.count
        omega
      · show 0 ≤ c.count - chars
        omega
      · show c.moved ++ _ = (List.range (c.done + chars)).map c.buf
        rw [List.range_add, List.map_append, List.map_map, ← B.buf hw]
        rfl

/-- Every event keeps the order. -/
theorem loopStep_fifo (F : Fifo s) {e : LoopEvent ι} (h : loopStep s e = some s') : Fifo s' := by
  cases e with
  | readPipe t count =>
    simp only [loopStep] at h
    split at h
    · cases h
      refine ⟨F.head, F.tail, F.order, F.goto_call fun c hc => ?_, F.returned⟩
      cases hc
      exact .start false _ count
    · cases h
  | writePipe t buf count =>
    simp only [loopStep] at h
    split at h
    · cases h
      refine ⟨F.head, F.tail, F.order, F.goto_call fun c hc => ?_, F.returned⟩
      cases hc
      exact .start true buf count
    · cases h
  | body t =>
    simp only [loopStep] at h
    obtain ⟨c, hc, rfl⟩ := Option.map_eq_some_iff.mp h
    cases hw : c.write with
    | false => exact readBody_fifo F hc hw
    | true => exact writeBody_fifo F hc hw
  | iCount n =>
    cases h
    exact ⟨F.head, F.tail, F.order, F.call, F.returned⟩

/-! ## The result -/

/-- A fresh pipe that nobody uses yet. -/
def Loops.Start (s : Loops ι) : Prop :=
  s.ring.Fresh ∧ (∀ t, s.call t = none) ∧ s.returned = []

omit [DecidableEq ι] in
theorem Loops.Start.fifo (h : s.Start) : Fifo s := by
  obtain ⟨⟨hhead, htail, -, -, -, hacc, hdel⟩, hcall, hret⟩ := h
  refine ⟨by omega, by omega, ?_, fun t c hc => ?_, fun r hr => ?_⟩
  · have hsize : pipeSize s.ring = 0 := by
      rw [pipeSize, hhead, htail]
      rfl
    rw [hacc, hdel, contents, hsize]
    rfl
  · rw [hcall t] at hc
    cases hc
  · rw [hret] at hr
    cases hr

/-- PIPES ARE FIRST IN, FIRST OUT. Whatever the order of the loop bodies: head and tail stay in the
page, at most 4095 bytes are in the ring, the bytes delivered are a prefix of the bytes accepted,
and the ring holds the rest of them. A call returns what it has transferred, but a write returns `-1`
if it has transferred nothing of what it was to; it transfers less than it was asked for only if
`i_count` is not 2, and a write gets `SIGPIPE` then. -/
theorem pipe_fifo (h : Lib.Reach loopStep (fun _ _ => True) Loops.Start s) :
    (s.ring.head < 4096 ∧ s.ring.tail < 4096 ∧ pipeSize s.ring ≤ 4095) ∧
    (s.ring.accepted = s.ring.delivered.map Delivery.byte ++ contents s.ring ∧
      s.ring.accepted.length = s.ring.delivered.length + pipeSize s.ring) ∧
    ∀ r ∈ s.returned, r.Exact := by
  have F : Fifo s := Lib.Reach.invariant (fun _ h0 => h0.fifo) (fun _ _ _ F _ hs =>
    loopStep_fifo F hs) h
  have hsize := pipeSize_lt s.ring
  refine ⟨⟨F.head, F.tail, by omega⟩, ⟨F.order, ?_⟩, F.returned⟩
  rw [F.order, List.length_append, List.length_map, contents_length]

/-- A fresh pipe of two tasks. -/
def fresh : Loops (Fin 2) :=
  ⟨⟨0, 0, fun _ => 0, 2, fun _ => none, 0, 0, [], []⟩, fun _ => none, []⟩

theorem fresh_start : fresh.Start := ⟨⟨rfl, rfl, rfl, rfl, rfl, rfl, rfl⟩, fun _ => rfl, rfl⟩

/-- Task 0 writes three bytes, and task 1 asks for two. -/
def threeBytes : List (LoopEvent (Fin 2)) :=
  [.writePipe 0 (fun i => [5, 6, 7].getD i 0) 3, .body 0, .readPipe 1 2, .body 0, .body 1, .body 1]

theorem pipe_fifo_threeBytes : ∃ s : Loops (Fin 2), s.returned.map (fun r => (r.value, r.moved)) =
    [(3, [5, 6, 7]), (2, [5, 6])] ∧ s.ring.accepted = s.ring.delivered.map Delivery.byte ++ [7] := by
  have hrun : (Lib.run loopStep fresh threeBytes).map (fun s =>
      (s.returned.map (fun r => (r.value, r.moved)), contents s.ring)) =
        some ([(3, [5, 6, 7]), (2, [5, 6])], [7]) := by decide +kernel
  obtain ⟨s, hs, heq⟩ := Option.map_eq_some_iff.mp hrun
  obtain ⟨hret, hcont⟩ := Prod.mk.inj heq
  have hfifo := pipe_fifo (Lib.Reach.ofRun (fun _ _ => trivial) (.start fresh_start) hs)
  exact ⟨s, hret, hcont ▸ hfifo.2.1.1⟩

/-- The top of the loop when the ring is full and the other end is closed. -/
theorem writeTop_broken (h0 : 0 < c.count) (hfull : pipeSize p = 4095) (hcount : p.iCount ≠ 2)
    (hdone : c.done = 0) : writeTop p c = .ret (-1) true := by
  have hroom : room p true = 0 := by rw [room, if_pos rfl, hfull]
  rw [writeTop, if_neg (Int.not_le.mpr h0), if_pos hroom, if_pos hcount, if_pos hdone]

theorem body_ret {value : Int} {sigpipe : Bool} (hc : s.call t = some c)
    (h : top s.ring c = .ret value sigpipe) :
    loopStep s (.body t) = some { s.goto t s.ring none with
      returned := s.returned ++ [c.ret s.ring value sigpipe] } := by
  rw [loopStep, hc, Option.map_some, loopBody, h]

/-- A writer's chunk, without its bytes. -/
theorem body_write (hc : s.call t = some c) (h : top s.ring c = .chunk p' c')
    (hw : c'.write = true) (hdone : c'.chars ≤ c'.done) : ∃ s', loopStep s (.body t) = some s' ∧
      s'.ring.head = p'.head ∧ s'.ring.tail = p'.tail ∧
        ∃ d, s'.call t = some d ∧ d.write = true ∧ d.count = c'.count ∧ d.done = c'.done := by
  obtain ⟨-, hhead, htail, -, -, hc'⟩ :=
    copyChunk_write c'.chars p' c' hw (Nat.le_refl _) hdone
  refine ⟨s.goto t (copyChunk c'.chars p' c').1 (some (copyChunk c'.chars p' c').2), ?_, hhead,
    htail, (copyChunk c'.chars p' c').2, Function.update_self .., ?_⟩
  · rw [loopStep, hc, Option.map_some, loopBody, h]
  · rw [hc']
    exact ⟨hw, rfl, rfl⟩

/-- The first call of a writer can fill the ring. -/
theorem reach_full : ∃ s : Loops (Fin 2), Lib.Reach loopStep (fun _ _ => True) Loops.Start s ∧
    pipeSize s.ring = 4095 ∧ s.call 0 = none := by
  have h1 := Lib.Reach.next (LoopEvent.writePipe 0 (fun _ => 7) 4095)
    (.start fresh_start : Lib.Reach loopStep (fun _ _ => True) Loops.Start fresh) trivial rfl
  have hfill : top (fresh.goto 0 fresh.ring (some (.start true (fun _ => 7) 4095))).ring
      (.start true (fun _ => 7) 4095) = .chunk { fresh.ring with head := 4095, written := 4095 }
        ⟨true, fun _ => 7, 0, 4095, 0, 4095, 4095, 0, []⟩ := rfl
  obtain ⟨s, hs, hhead, htail, d, hd, hw, hcount, hdone⟩ :=
    body_write (t := 0) rfl hfill rfl (Nat.le_refl _)
  have hend : top s.ring d = .ret d.done false := by
    rw [top, hw, if_pos rfl, writeTop, hcount, if_pos (Int.le_refl _)]
  refine ⟨_, .next (.body 0) (.next (.body 0) h1 trivial hs) trivial (body_ret hd hend), ?_, rfl⟩
  show pipeSize s.ring = 4095
  rw [pipeSize, hhead, htail]
  rfl

/-- A write to a full pipe whose other end is closed returns `-1` and has transferred nothing. -/
theorem write_pipe_broken : ¬ ∀ s : Loops (Fin 2),
    Lib.Reach loopStep (fun _ _ => True) Loops.Start s →
      ∀ r ∈ s.returned, r.value = r.moved.length := by
  intro hclaim
  obtain ⟨s, hs, hfull, hcall⟩ := reach_full
  have h1 := Lib.Reach.next (LoopEvent.iCount 1) hs trivial rfl
  have hnone : loopStep { s with ring := { s.ring with iCount := 1 } }
      (.writePipe 0 (fun _ => 7) 1) =
        some (s.goto 0 { s.ring with iCount := 1 } (some (.start true (fun _ => 7) 1))) := by
    rw [loopStep, hcall]
    rfl
  have h2 := Lib.Reach.next _ h1 trivial hnone
  have hbroken : top { s.ring with iCount := 1 } (.start true (fun _ => 7) 1) = .ret (-1) true := by
    have hfull : pipeSize { s.ring with iCount := 1 } = 4095 := hfull
    rw [top, if_pos (by rfl)]
    exact writeTop_broken Int.zero_lt_one hfull (Nat.succ_ne_succ_iff.mpr nofun) rfl
  have h3 := Lib.Reach.next (LoopEvent.body 0) h2 trivial (body_ret rfl hbroken)
  have := hclaim _ h3 _ (List.mem_append_right _ List.mem_cons_self)
  exact absurd this (show (-1 : Int) ≠ 0 by decide)

end Linux011.Pipe
