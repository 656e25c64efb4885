import Linux011.Drivers.Hd
import Mathlib.Data.Nat.Basic
import Mathlib.Tactic.Ring

/-!
# Transient errors of a hard disk

The driver goes through a request sector by sector and changes it as it goes: `sector` and `buffer` move
on and `nr_sectors` counts down. After an error it starts again with what is left, through the entry for
new requests, where the two sectors from `sector` on have to be in the partition. Behind the first sector
of the block these are the second one and the sector behind the block. So an error there is fatal if the
block is the last one of its partition, and only then.

Each answer brings the request nearer to its end, or counts an error: `budget` falls with each of them.
-/

namespace Linux011.Drivers.Hd

/-! ## The log -/

/-- The request an event is about. -/
def Event.id : Event → Nat
  | .command id .. => id
  | .sent id .. => id
  | .moved id .. => id
  | .error _ id _ => id
  | .ended id _ => id

/-- The sectors moved for a request: drive, sector, and place in the buffer. -/
def moves (id : Nat) : List Event → List (Nat × Nat × Nat)
  | [] => []
  | .moved i drive sector buffer :: l =>
    if i = id then moves id l ++ [(drive, sector, buffer)] else moves id l
  | _ :: l => moves id l

/-- The two sectors of a block, and where they are in its buffer. -/
def sectors (d : Disks) (dev block : Nat) : List (Nat × Nat × Nat) :=
  [(dev / 5, (d.hd dev).startSect + 2 * block, 0), (dev / 5, (d.hd dev).startSect + 2 * block + 1, 512)]

/-- The commands that read or write are for sectors of the partition. -/
def InPartition (d : Disks) (id dev : Nat) (log : List Event) : Prop :=
  ∀ cmd drive nsect sector, .command id cmd drive nsect sector ∈ log → cmd = .read ∨ cmd = .write →
    drive = dev / 5 ∧ (d.hd dev).startSect ≤ sector ∧
      sector + nsect ≤ (d.hd dev).startSect + (d.hd dev).nrSects

/-- What is sent are the sectors of the block. -/
def SendsBlock (d : Disks) (id dev block : Nat) (log : List Event) : Prop :=
  ∀ drive sector buffer, .sent id drive sector buffer ∈ log →
    (drive, sector, buffer) ∈ sectors d dev block

/-- Less than seven errors are counted. -/
def FewErrors (id : Nat) (log : List Event) : Prop :=
  ∀ owner n, .error owner id n ∈ log → n < maxErrors

/-- What the log says of a request of which `k` sectors are done. -/
structure Fine (d : Disks) (id dev block k : Nat) (log : List Event) : Prop where
  commands : InPartition d id dev log
  sends : SendsBlock d id dev block log
  moves : moves id log = (sectors d dev block).take k

variable {d : Disks} {id dev block k : Nat} {cmd : Rw} {rest : List Request} {s : Hd} {log : List Event}
  {e : Event}

theorem moves_cons (id : Nat) (e : Event) (h : ∀ drive sector buffer, e ≠ .moved id drive sector buffer)
    (log : List Event) : moves id (e :: log) = moves id log := by
  cases e with
  | moved i drive sector buffer =>
    have : i ≠ id := by
      rintro rfl
      exact h drive sector buffer rfl
    simp [moves, this]
  | command | sent | error | ended => rfl

theorem Fine.commands_cons (h : InPartition d id dev log)
    (he : ∀ cmd drive nsect sector, e ≠ .command id cmd drive nsect sector) :
    InPartition d id dev (e :: log) := by
  intro cmd drive nsect sector hmem
  rcases List.mem_cons.1 hmem with heq | hmem
  · exact absurd heq.symm (he cmd drive nsect sector)
  · exact h cmd drive nsect sector hmem

theorem Fine.sends_cons (h : SendsBlock d id dev block log)
    (he : ∀ drive sector buffer, e ≠ .sent id drive sector buffer) :
    SendsBlock d id dev block (e :: log) := by
  intro drive sector buffer hmem
  rcases List.mem_cons.1 hmem with heq | hmem
  · exact absurd heq.symm (he drive sector buffer)
  · exact h drive sector buffer hmem

/-- What happens to other requests does not matter. -/
theorem Fine.other (h : Fine d id dev block k log) (he : e.id ≠ id) :
    Fine d id dev block k (e :: log) := by
  have hne : ∀ e' : Event, e'.id = id → e ≠ e' := by
    rintro e' rfl rfl
    exact he rfl
  exact ⟨Fine.commands_cons h.commands fun _ _ _ _ => hne _ rfl,
    Fine.sends_cons h.sends fun _ _ _ => hne _ rfl,
    by rw [moves_cons id e fun _ _ _ => hne _ rfl, h.moves]⟩

theorem Fine.others (h : Fine d id dev block k log) : ∀ l : List Event, (∀ e ∈ l, e.id ≠ id) →
    Fine d id dev block k (l ++ log)
  | [], _ => h
  | e :: l, hl => (h.others l fun e' he' => hl e' (List.mem_cons_of_mem e he')).other
    (hl e List.mem_cons_self)

/-- An error or the end of a request. -/
theorem Fine.note (h : Fine d id dev block k log)
    (hcommand : ∀ cmd drive nsect sector, e ≠ .command id cmd drive nsect sector)
    (hsent : ∀ drive sector buffer, e ≠ .sent id drive sector buffer)
    (hmoved : ∀ drive sector buffer, e ≠ .moved id drive sector buffer) :
    Fine d id dev block k (e :: log) :=
  ⟨Fine.commands_cons h.commands hcommand, Fine.sends_cons h.sends hsent,
    by rw [moves_cons id e hmoved, h.moves]⟩

/-! ## The other requests -/

theorem hdOut_log (d : Disks) (id drive nsect sect head cyl : Nat) (cmd : Command) (h : Handler)
    (s : Hd) :
    (hdOut d id drive nsect sect head cyl cmd h s).queue = s.queue ∧
      ((hdOut d id drive nsect sect head cyl cmd h s).log = s.log ∨
        ∃ nsect' sector, (hdOut d id drive nsect sect head cyl cmd h s).log =
          .command id cmd drive nsect' sector :: s.log) := by
  unfold hdOut
  split
  · exact ⟨rfl, .inl rfl⟩
  · exact ⟨rfl, .inr ⟨_, _, rfl⟩⟩

theorem serve_log (d : Disks) (r : Request) (s : Hd) : (serve d r s).queue = s.queue ∧
    ((serve d r s).log = s.log ∨
      ∃ cmd drive nsect sector, (serve d r s).log = .command r.id cmd drive nsect sector :: s.log) := by
  have key : ∀ drive nsect sect head cyl cmd h (s' : Hd), s'.queue = s.queue → s'.log = s.log →
      (hdOut d r.id drive nsect sect head cyl cmd h s').queue = s.queue ∧
        ((hdOut d r.id drive nsect sect head cyl cmd h s').log = s.log ∨
          ∃ cmd' drive' nsect' sector, (hdOut d r.id drive nsect sect head cyl cmd h s').log =
            .command r.id cmd' drive' nsect' sector :: s.log) := by
    intro drive nsect sect head cyl cmd h s' hq hl
    obtain ⟨hq', hl'⟩ := hdOut_log d r.id drive nsect sect head cyl cmd h s'
    rw [hq, hl] at *
    refine ⟨hq', hl'.imp id fun ⟨nsect', sector, h⟩ => ⟨cmd, drive, nsect', sector, h⟩⟩
  unfold serve
  dsimp only
  split
  · apply key <;> rfl
  · split
    · apply key <;> rfl
    · split <;> apply key <;> rfl

/-- What `do_hd_request` does is about the requests of its queue, and counts no error. -/
theorem request_log (d : Disks) : ∀ (q : List Request) (s : Hd), (∀ r ∈ (request d q s).queue, r ∈ q) ∧
    ∃ l, (request d q s).log = l ++ s.log ∧ (∀ e ∈ l, ∃ r ∈ q, e.id = r.id) ∧
      ∀ owner id n, .error owner id n ∉ l
  | [], s => ⟨fun _ hr => hr, [], rfl, fun _ he => absurd he List.not_mem_nil,
    fun _ _ _ => List.not_mem_nil⟩
  | r :: q, s => by
    unfold request
    split
    · obtain ⟨hqueue, hlog⟩ := serve_log d r { s with queue := r :: q }
      refine ⟨fun r' hr' => by rwa [hqueue] at hr', ?_⟩
      rcases hlog with hlog | ⟨cmd, drive, nsect, sector, hlog⟩
      · exact ⟨[], hlog, fun _ he => absurd he List.not_mem_nil, fun _ _ _ => List.not_mem_nil⟩
      · refine ⟨[.command r.id cmd drive nsect sector], hlog, fun e he => ?_, fun _ _ _ he => ?_⟩
        · obtain rfl := List.mem_singleton.1 he
          exact ⟨r, List.mem_cons_self, rfl⟩
        · cases List.mem_singleton.1 he
    · obtain ⟨hqueue, l, hl, hid, herr⟩ := request_log d q (s.say (.ended r.id false))
      refine ⟨fun r' hr' => List.mem_cons_of_mem r (hqueue r' hr'), l ++ [.ended r.id false], ?_,
        fun e he => ?_, fun owner i n he => ?_⟩
      · rw [hl]
        simp [say]
      · rcases List.mem_append.1 he with he | he
        · obtain ⟨r', hr', heq⟩ := hid e he
          exact ⟨r', List.mem_cons_of_mem r hr', heq⟩
        · obtain rfl := List.mem_singleton.1 he
          exact ⟨r, List.mem_cons_self, rfl⟩
      · rcases List.mem_append.1 he with he | he
        · exact herr owner i n he
        · cases List.mem_singleton.1 he

/-! ## A request in progress -/

/-- The request for the block, of which `k` sectors are done. -/
def left (id dev : Nat) (cmd : Rw) (block k errors : Nat) : Request :=
  ⟨id, dev, cmd, errors, 2 * block + k, 2 - k, 512 * k⟩

/-- What the driver waits for: a command that prepares the drive, or the next sector. -/
inductive Pending (d : Disks) (dev : Nat) (cmd : Rw) (block k : Nat) (s : Hd) : Prop
  | prepare (h : s.doHd = some .recalIntr) (hp : s.polling = false)
  | ready (h : s.doHd = some .writeIntr) (hp : s.polling = true) (hcmd : cmd = .write)
    (hdrive : s.drive = dev / 5) (hpos : s.pos = (d.hd dev).startSect + (2 * block + k))
  | write (h : s.doHd = some .writeIntr) (hp : s.polling = false) (hcmd : cmd = .write)
    (hdrive : s.drive = dev / 5) (hpos : s.pos = (d.hd dev).startSect + (2 * block + k))
  | read (h : s.doHd = some .readIntr) (hp : s.polling = false) (hcmd : cmd = .read)
    (hdrive : s.drive = dev / 5) (hpos : s.pos = (d.hd dev).startSect + (2 * block + k))

/-- The driver works on the request, and `errors` are counted. -/
structure Busy (d : Disks) (id dev : Nat) (cmd : Rw) (block : Nat) (rest : List Request) (k errors : Nat)
    (s : Hd) : Prop where
  k_lt : k < 2
  errors_lt : errors < maxErrors
  queue : s.queue = left id dev cmd block k errors :: rest
  reset : s.reset = false
  fault : s.fault = none
  pending : Pending d dev cmd block k s
  fine : Fine d id dev block k s.log
  going : ∀ u, .ended id u ∉ s.log
  few : FewErrors id s.log

/-- A block in a partition has an address on the drive. -/
theorem block_address (d : Disks) {dev : Nat} (hdev : dev < 5 * d.nrHd)
    {n : Nat} (hn : n < (d.hd dev).nrSects) :
    let g := d.info (dev / 5)
    let a := n + (d.hd dev).startSect
    a / g.sect % g.head < g.head ∧ (a / g.sect / g.head) < 65536 ∧
      (a / g.sect / g.head * g.head + a / g.sect % g.head) * g.sect + a % g.sect = a := by
  intro g a
  have hfits := d.fits dev hdev
  have ha : a < g.cyl * g.head * g.sect := by
    have : a < (d.hd dev).startSect + (d.hd dev).nrSects := by omega
    exact Nat.lt_of_lt_of_le this hfits
  refine ⟨Nat.mod_lt _ g.head_pos, ?_, ?_⟩
  · have h1 : a / g.sect < g.cyl * g.head := Nat.div_lt_of_lt_mul (by rwa [Nat.mul_comm])
    have h2 : a / g.sect / g.head < g.cyl := Nat.div_lt_of_lt_mul (by rwa [Nat.mul_comm])
    exact h2.trans g.cyl_lt
  · rw [Nat.mul_comm (a / g.sect / g.head), Nat.div_add_mod, Nat.mul_comm, Nat.div_add_mod]

theorem hdOut_ok {drive nsect sect head cyl : Nat} {c : Command} {h : Handler} (hdrive : drive ≤ 1)
    (hhead : head ≤ 15) : hdOut d id drive nsect sect head cyl c h s =
      { s with
        doHd := some h
        owner := id
        drive := drive
        pos := (cyl % 65536 * (d.info drive).head + head) * (d.info drive).sect + (sect % 256 - 1)
        log := .command id c drive (nsect % 256)
          ((cyl % 65536 * (d.info drive).head + head) * (d.info drive).sect + (sect % 256 - 1)) ::
            s.log } := by
  have hno : ¬ (1 < drive ∨ 15 < head) := by omega
  simp only [hdOut, if_neg hno]
  rfl

/-- A command that is no transfer. -/
theorem Fine.prepare {c : Command} {drive nsect sector : Nat} (h : Fine d id dev block k log)
    (hr : c ≠ .read)
    (hw : c ≠ .write) : Fine d id dev block k (.command id c drive nsect sector :: log) := by
  refine ⟨fun c' drive' nsect' sector' hmem hc => ?_, Fine.sends_cons h.sends (by simp), h.moves⟩
  rcases List.mem_cons.1 hmem with heq | hmem
  · cases heq
    exact (hc.elim hr hw).elim
  · exact h.commands c' drive' nsect' sector' hmem hc

/-- A command for the rest of the block. -/
theorem Fine.transfer {c : Command} {nsect sector : Nat} (h : Fine d id dev block k log)
    (hle : (d.hd dev).startSect ≤ sector)
    (hsum : sector + nsect ≤ (d.hd dev).startSect + (d.hd dev).nrSects) :
    Fine d id dev block k (.command id c (dev / 5) nsect sector :: log) := by
  refine ⟨fun c' drive' nsect' sector' hmem hc => ?_, Fine.sends_cons h.sends (by simp), h.moves⟩
  rcases List.mem_cons.1 hmem with heq | hmem
  · cases heq
    exact ⟨rfl, hle, hsum⟩
  · exact h.commands c' drive' nsect' sector' hmem hc

/-- How far the driver is from the next sector. -/
def stage (s : Hd) : Nat :=
  if s.polling then 2
  else if s.doHd = some .recalIntr then if s.recalibrate then 4 else 3
  else 1

theorem stage_le (s : Hd) : stage s ≤ 4 := by
  unfold stage
  split
  · decide
  · split
    · split <;> decide
    · decide

/-- `do_hd_request` takes up the request where it is. -/
theorem doHdRequest_busy {errors : Nat} (hdev : dev < 5 * d.nrHd)
    (hroom : 2 * block + k + 2 ≤ (d.hd dev).nrSects) (hk : k < 2) (he : errors < maxErrors)
    (hqueue : s.queue = left id dev cmd block k errors :: rest) (hpolling : s.polling = false)
    (hfault : s.fault = none) (hfine : Fine d id dev block k s.log) (hgoing : ∀ u, .ended id u ∉ s.log)
    (hfew : FewErrors id s.log) : Busy d id dev cmd block rest k errors (doHdRequest d s) ∧
      stage (doHdRequest d s) =
        if s.reset then 4 else if s.recalibrate then 3 else if cmd = .write then 2 else 1 := by
  have haccepts : accepts d (left id dev cmd block k errors) = true := by
    simp [accepts, left, hdev, hroom]
  have hdrive : dev / 5 ≤ 1 := by
    have := d.nrHd_le
    omega
  have hrun : doHdRequest d s =
      serve d (left id dev cmd block k errors)
        { s with queue := left id dev cmd block k errors :: rest } := by
    rw [doHdRequest, hqueue, request, if_pos haccepts]
  have hgoing' : ∀ c drive nsect sector u,
      Event.ended id u ∉ Event.command id c drive nsect sector :: s.log := by
    intro c drive nsect sector u hmem
    rcases List.mem_cons.1 hmem with heq | hmem
    · cases heq
    · exact hgoing u hmem
  have hfew' : ∀ c drive nsect sector, FewErrors id (Event.command id c drive nsect sector :: s.log) := by
    intro c drive nsect sector owner n hmem
    rcases List.mem_cons.1 hmem with heq | hmem
    · cases heq
    · exact hfew owner n hmem
  obtain ⟨hhead, hcyl, haddr⟩ := block_address d hdev (n := 2 * block + k) (by omega)
  rw [hrun]
  unfold serve left
  simp only
  split
  · have h15 : (d.info (dev / 5)).head - 1 ≤ 15 := by
      have := (d.info (dev / 5)).head_le
      omega
    rw [hdOut_ok hdrive h15]
    refine ⟨⟨hk, he, rfl, rfl, hfault, .prepare rfl hpolling, hfine.prepare (by decide) (by decide),
      hgoing' _ _ _ _, hfew' _ _ _ _⟩, ?_⟩
    simp [stage, hpolling]
  · split
    · rw [hdOut_ok hdrive (Nat.zero_le _)]
      refine ⟨⟨hk, he, rfl, by simpa using ‹¬ s.reset = true›, hfault, .prepare rfl hpolling,
        hfine.prepare (by decide) (by decide), hgoing' _ _ _ _, hfew' _ _ _ _⟩, ?_⟩
      simp [stage, hpolling]
    · have hsect := (d.info (dev / 5)).sect_lt
      have hmod := Nat.mod_lt (2 * block + k + (d.hd dev).startSect) (d.info (dev / 5)).sect_pos
      have h15 : (2 * block + k + (d.hd dev).startSect) / (d.info (dev / 5)).sect %
        (d.info (dev / 5)).head ≤ 15 := by
        have := (d.info (dev / 5)).head_le
        omega
      have hsec : ((2 * block + k + (d.hd dev).startSect) % (d.info (dev / 5)).sect + 1) % 256 - 1 =
          (2 * block + k + (d.hd dev).startSect) % (d.info (dev / 5)).sect := by
        rw [Nat.mod_eq_of_lt (by omega), Nat.add_sub_cancel]
      have hnsect : (2 - k) % 256 = 2 - k := Nat.mod_eq_of_lt (by omega)
      have hreset : s.reset = false := by simpa using ‹¬ s.reset = true›
      have hsum : 2 * block + k + (d.hd dev).startSect + (2 - k) ≤
          (d.hd dev).startSect + (d.hd dev).nrSects := by
        omega
      cases cmd with
      | write =>
        simp only
        rw [hdOut_ok hdrive h15, hsec, Nat.mod_eq_of_lt hcyl, haddr, hnsect]
        refine ⟨⟨hk, he, rfl, hreset, hfault, .ready rfl rfl rfl rfl (Nat.add_comm _ _),
          hfine.transfer (Nat.le_add_left _ _) hsum, hgoing' _ _ _ _, hfew' _ _ _ _⟩, ?_⟩
        simp [stage]
      | read =>
        simp only
        rw [hdOut_ok hdrive h15, hsec, Nat.mod_eq_of_lt hcyl, haddr, hnsect]
        refine ⟨⟨hk, he, rfl, hreset, hfault, .read rfl hpolling rfl rfl (Nat.add_comm _ _),
          hfine.transfer (Nat.le_add_left _ _) hsum, hgoing' _ _ _ _, hfew' _ _ _ _⟩, ?_⟩
        simp [stage, hpolling]

/-! ## One answer -/

/-- An upper bound of the answers that the request at the head of the queue still takes. -/
def budget (s : Hd) : Nat :=
  match s.queue with
  | [] => 0
  | r :: _ => 40 * r.nrSectors + 5 * (maxErrors - r.errors) + stage s

/-- The request is the one the driver works on. -/
abbrev AtHead (id : Nat) (s : Hd) : Prop := s.queue.head?.map Request.id = some id

/-- The request is over: both sectors are done, or the seventh error is counted. -/
inductive Over (d : Disks) (id dev block : Nat) (s : Hd) : Prop
  | done (hfine : Fine d id dev block 2 s.log) (hended : .ended id true ∈ s.log)
    (hgood : .ended id false ∉ s.log) (hfew : FewErrors id s.log) (hgone : ¬ AtHead id s)
  | failed {owner : Nat} (hcommands : InPartition d id dev s.log)
    (hsends : SendsBlock d id dev block s.log)
    (herror : .error owner id maxErrors ∈ s.log) (hgone : ¬ AtHead id s)

/-- What an answer leads to, when the budget was `n`. -/
inductive After (d : Disks) (id dev : Nat) (cmd : Rw) (block : Nat) (rest : List Request) (n : Nat)
  (s : Hd) :
    Prop
  | busy {k errors : Nat} (h : Busy d id dev cmd block rest k errors s) (hn : budget s < n)
  | ended (h : Over d id dev block s)

theorem badRwIntr_few {errors : Nat} (hqueue : s.queue = left id dev cmd block k errors :: rest)
    (he : errors + 1 < maxErrors) : badRwIntr s =
      { s with
        queue := left id dev cmd block k (errors + 1) :: rest
        reset := if maxErrors / 2 < errors + 1 then true else s.reset
        log := .error s.owner id (errors + 1) :: s.log } := by
  simp only [badRwIntr, current, hqueue, left, if_neg (Nat.not_le.2 he), say]
  split <;> rfl

theorem badRwIntr_last {errors : Nat} (hqueue : s.queue = left id dev cmd block k errors :: rest)
    (he : maxErrors ≤ errors + 1) : (badRwIntr s).queue = rest ∧
      (badRwIntr s).log = .ended id false :: .error s.owner id (errors + 1) :: s.log := by
  simp only [badRwIntr, current, hqueue, left, if_pos he, endRequest, say]
  cases rest with
  | nil => exact ⟨rfl, rfl⟩
  | cons r q =>
    simp only
    split <;> exact ⟨rfl, rfl⟩

/-- Once the request is gone, the driver goes on with others. -/
theorem doHdRequest_gone (hrest : ∀ r ∈ s.queue, r.id ≠ id) : ¬ AtHead id (doHdRequest d s) ∧
    ∃ l, (doHdRequest d s).log = l ++ s.log ∧ (∀ e ∈ l, e.id ≠ id) := by
  obtain ⟨hqueue, l, hl, hid, _⟩ := request_log d s.queue s
  refine ⟨?_, l, hl, fun e he => ?_⟩
  · intro hhead
    obtain ⟨r, hr, rfl⟩ := Option.map_eq_some_iff.1 hhead
    exact hrest r (hqueue r (List.mem_of_head? hr)) rfl
  · obtain ⟨r, hr, heq⟩ := hid e he
    rw [heq]
    exact hrest r hr

/-- An error is counted, and the driver tries again or gives up. -/
theorem retry_after {errors n : Nat} (hdev : dev < 5 * d.nrHd)
    (hroom : 2 * block + k + 2 ≤ (d.hd dev).nrSects)
    (hrest : ∀ r ∈ rest, r.id ≠ id) (hk : k < 2) (he : errors < maxErrors)
    (hqueue : s.queue = left id dev cmd block k errors :: rest) (hpolling : s.polling = false)
    (hfault : s.fault = none) (hfine : Fine d id dev block k s.log) (hgoing : ∀ u, .ended id u ∉ s.log)
    (hfew : FewErrors id s.log) (hn : 40 * (2 - k) + 5 * (maxErrors - errors) ≤ n) :
    After d id dev cmd block rest n (doHdRequest d (badRwIntr s)) := by
  rcases Nat.lt_or_ge (errors + 1) maxErrors with hlt | hge
  · rw [badRwIntr_few hqueue hlt]
    have hbusy := (doHdRequest_busy (d := d) (s := { s with
        queue := left id dev cmd block k (errors + 1) :: rest
        reset := if maxErrors / 2 < errors + 1 then true else s.reset
        log := .error s.owner id (errors + 1) :: s.log })
      hdev hroom hk hlt rfl hpolling hfault (hfine.note (by simp) (by simp) (by simp))
      (fun u hmem => (List.mem_cons.1 hmem).elim nofun (hgoing u)) ?_).1
    · refine .busy hbusy ?_
      rw [budget, hbusy.queue]
      refine Nat.lt_of_lt_of_le (Nat.add_lt_add_left (Nat.lt_succ_of_le (stage_le _)) _) ?_
      simp only [left]
      omega
    · intro owner m hmem
      rcases List.mem_cons.1 hmem with heq | hmem
      · cases heq
        exact hlt
      · exact hfew owner m hmem
  · have hmax : errors + 1 = maxErrors := by omega
    obtain ⟨hq, hlog⟩ := badRwIntr_last hqueue hge
    have hrest' : ∀ r ∈ (badRwIntr s).queue, r.id ≠ id := by rwa [hq]
    obtain ⟨hgone, l, hl, hid⟩ := doHdRequest_gone (d := d) hrest'
    have hfine' : Fine d id dev block k (doHdRequest d (badRwIntr s)).log := by
      rw [hl, hlog]
      exact ((hfine.note (by simp) (by simp) (by simp)).note (by simp) (by simp) (by simp)).others l hid
    have herror : .error s.owner id maxErrors ∈ (doHdRequest d (badRwIntr s)).log := by
      rw [hl, hlog, hmax]
      simp
    exact .ended (.failed hfine'.commands hfine'.sends herror hgone)

theorem sectors_take (hk : k < 2) : (sectors d dev block).take (k + 1) =
    (sectors d dev block).take k ++ [(dev / 5, (d.hd dev).startSect + (2 * block + k), 512 * k)] := by
  have : k = 0 ∨ k = 1 := by omega
  rcases this with rfl | rfl <;> rfl

/-- One more sector is done. -/
theorem Fine.move (h : Fine d id dev block k log) (hk : k < 2) : Fine d id dev block (k + 1)
    (.moved id (dev / 5) ((d.hd dev).startSect + (2 * block + k)) (512 * k) :: log) := by
  refine ⟨Fine.commands_cons h.commands (by simp), Fine.sends_cons h.sends (by simp), ?_⟩
  rw [sectors_take hk, ← h.moves]
  simp [Hd.moves]

/-- The next sector of the block is sent. -/
theorem Fine.send (h : Fine d id dev block k log) (hk : k < 2) : Fine d id dev block k
    (.sent id (dev / 5) ((d.hd dev).startSect + (2 * block + k)) (512 * k) :: log) := by
  refine ⟨Fine.commands_cons h.commands (by simp), fun drive sector buffer hmem => ?_, h.moves⟩
  rcases List.mem_cons.1 hmem with heq | hmem
  · cases heq
    have hmem : (dev / 5, (d.hd dev).startSect + (2 * block + k), 512 * k) ∈
        (sectors d dev block).take (k + 1) := by
      rw [sectors_take hk]
      exact List.mem_append_right _ (List.mem_singleton_self _)
    exact List.mem_of_mem_take hmem
  · exact h.sends drive sector buffer hmem

/-- The last sector is done: the request ends, and the driver goes on with others. -/
theorem end_after {n : Nat} (hrest : ∀ r ∈ s.queue, r.id ≠ id) (hfine : Fine d id dev block 1 log)
    (hgoing : ∀ u, .ended id u ∉ log) (hfew : FewErrors id log)
    (hlog : s.log = .ended id true ::
      .moved id (dev / 5) ((d.hd dev).startSect + (2 * block + 1)) (512 * 1) :: log) :
    After d id dev cmd block rest n (doHdRequest d s) := by
  obtain ⟨hgone, l, hl, hid⟩ := doHdRequest_gone (d := d) hrest
  obtain ⟨_, l', hl', _, herror⟩ := request_log d s.queue s
  have hsame : l = l' := by
    rw [doHdRequest, hl'] at hl
    exact (List.append_cancel_right hl).symm
  subst hsame
  refine .ended (.done ?_ ?_ ?_ ?_ hgone)
  · rw [hl, hlog]
    exact ((hfine.move (by decide)).note (by simp) (by simp) (by simp)).others l hid
  · rw [hl, hlog]
    simp
  · rw [hl, hlog]
    intro hmem
    rcases List.mem_append.1 hmem with hmem | hmem
    · exact hid _ hmem rfl
    · simp [hgoing] at hmem
  · rw [hl, hlog]
    intro owner m hmem
    rcases List.mem_append.1 hmem with hmem | hmem
    · exact absurd hmem (herror owner id m)
    · refine hfew owner m ?_
      simpa using hmem

theorem few_cons {e : Event} (h : FewErrors id log) (he : ∀ owner n, e ≠ .error owner id n) :
    FewErrors id (e :: log) := by
  intro owner n hmem
  rcases List.mem_cons.1 hmem with heq | hmem
  · exact absurd heq.symm (he owner n)
  · exact h owner n hmem

theorem going_cons {e : Event} (h : ∀ u, .ended id u ∉ log) (he : ∀ u, e ≠ .ended id u) :
    ∀ u, .ended id u ∉ e :: log := by
  intro u hmem
  rcases List.mem_cons.1 hmem with heq | hmem
  · exact he u heq.symm
  · exact h u hmem

theorem Busy.budget_eq {errors : Nat} (h : Busy d id dev cmd block rest k errors s) :
    budget s = 40 * (2 - k) + 5 * (maxErrors - errors) + stage s := by
  rw [budget, h.queue]
  rfl

theorem idle_eq (h : s.polling = false) (doHd : Option Handler) :
    ({ s with doHd := doHd } : Hd) = { s with doHd := doHd, polling := false } := by
  cases s
  cases h
  rfl

/-- Whatever the driver waits for, an error is an error of the request. -/
theorem Pending.bad (h : Pending d dev cmd block k s) : ∃ doHd,
    Hd.answer d false s = doHdRequest d (badRwIntr { s with doHd := doHd, polling := false }) := by
  cases h with
  | prepare hdo hpolling =>
    rw [answer_interrupt hpolling hdo, idle_eq hpolling]
    exact ⟨none, rfl⟩
  | ready hdo hpolling =>
    rw [answer_polling hpolling]
    exact ⟨s.doHd, rfl⟩
  | write hdo hpolling =>
    rw [answer_interrupt hpolling hdo, idle_eq hpolling]
    exact ⟨none, rfl⟩
  | read hdo hpolling =>
    rw [answer_interrupt hpolling hdo, idle_eq hpolling]
    exact ⟨none, rfl⟩

/-- An error at any time. -/
theorem Busy.error {errors : Nat} (h : Busy d id dev cmd block rest k errors s) (hdev : dev < 5 * d.nrHd)
    (hroom : 2 * block + 3 ≤ (d.hd dev).nrSects) (hrest : ∀ r ∈ rest, r.id ≠ id) :
    After d id dev cmd block rest (budget s) (Hd.answer d false s) := by
  have hk := h.k_lt
  obtain ⟨doHd, hrun⟩ := h.pending.bad
  rw [hrun]
  refine retry_after (s := { s with doHd := doHd, polling := false }) hdev (by omega)
    hrest hk h.errors_lt h.queue
    rfl h.fault h.fine h.going h.few ?_
  rw [h.budget_eq]
  omega

/-- A command that prepares the drive went well. -/
theorem Busy.prepared {errors : Nat} (h : Busy d id dev cmd block rest k errors s)
    (hdev : dev < 5 * d.nrHd)
    (hroom : 2 * block + 3 ≤ (d.hd dev).nrSects) (hdo : s.doHd = some .recalIntr)
      (hpolling : s.polling = false) :
    After d id dev cmd block rest (budget s) (doHdRequest d { s with doHd := none }) := by
  have hk := h.k_lt
  obtain ⟨hbusy, hstage⟩ := doHdRequest_busy (s := { s with doHd := none }) hdev (by omega)
    hk h.errors_lt h.queue
    hpolling h.fault h.fine h.going h.few
  refine .busy hbusy ?_
  have hold : stage s = if s.recalibrate then 4 else 3 := by simp [stage, hdo, hpolling]
  rw [hbusy.budget_eq, h.budget_eq, hstage, hold]
  simp only [h.reset]
  cases s.recalibrate <;> cases cmd <;> simp

/-- The controller takes the sector. -/
theorem Busy.sent {errors : Nat} (h : Busy d id dev .write block rest k errors s)
    (hdo : s.doHd = some .writeIntr)
    (hpolling : s.polling = true) (hdrive : s.drive = dev / 5)
    (hpos : s.pos = (d.hd dev).startSect + (2 * block + k)) :
    ∃ s', Hd.answer d true s = s' ∧ Busy d id dev .write block rest k errors s' ∧ budget s' < budget s ∧
      s'.polling = false ∧ s'.doHd = some .writeIntr ∧ s'.drive = dev / 5 ∧
      s'.pos = (d.hd dev).startSect + (2 * block + k) := by
  have hbusy : Busy d id dev .write block rest k errors
      { s with polling := false, log := .sent id s.drive s.pos (512 * k) :: s.log } := by
    refine ⟨h.k_lt, h.errors_lt, h.queue, h.reset, h.fault, .write hdo rfl rfl hdrive hpos, ?_,
      going_cons h.going (by simp), few_cons h.few (by simp)⟩
    rw [hdrive, hpos]
    exact h.fine.send h.k_lt
  refine ⟨_, ?_, hbusy, ?_, rfl, hdo, hdrive, hpos⟩
  · rw [answer_polling hpolling, if_pos rfl]
    simp only [portWrite, current, h.queue, left, say]
  · have hold : stage s = 2 := by simp [stage, hpolling]
    have hnew :
        stage { s with polling := false, log := .sent id s.drive s.pos (512 * k) :: s.log } = 1 := by
      simp [stage, hdo]
    rw [hbusy.budget_eq, h.budget_eq, hold, hnew]
    exact Nat.lt_succ_self _

/-- A sector more is done, whatever is left of the errors. -/
theorem Busy.second {errors errors' : Nat} {s' : Hd} (h : Busy d id dev cmd block rest 0 errors s)
    (h' : Busy d id dev cmd block rest 1 errors' s') (hstage : stage s' = 1) :
    Busy d id dev cmd block rest 1 errors' s' ∧ budget s' < budget s := by
  refine ⟨h', ?_⟩
  rw [h'.budget_eq, h.budget_eq, hstage]
  simp only [maxErrors]
  omega

/-- The first sector is written, and the second one is sent. -/
theorem Busy.wrote_first {errors : Nat} (h : Busy d id dev .write block rest 0 errors s)
    (hpolling : s.polling = false)
    (hdrive : s.drive = dev / 5) (hpos : s.pos = (d.hd dev).startSect + (2 * block + 0)) :
    Busy d id dev .write block rest 1 errors (writeIntr d true { s with doHd := none }) ∧
      budget (writeIntr d true { s with doHd := none }) < budget s := by
  have hrun : writeIntr d true { s with doHd := none } =
      { s with
        queue := left id dev .write block 1 errors :: rest
        doHd := some .writeIntr
        pos := s.pos + 1
        log := .sent id s.drive (s.pos + 1) 512 :: .moved id s.drive s.pos 0 :: s.log } := by
    simp only [writeIntr, if_true, current, h.queue, left, say, portWrite]
    rfl
  rw [hrun]
  refine h.second ⟨by decide, h.errors_lt, rfl, h.reset, h.fault, .write rfl hpolling rfl hdrive
    (by rw [hpos]; rfl), ?_, going_cons (going_cons h.going (by simp)) (by simp),
    few_cons (few_cons h.few (by simp)) (by simp)⟩ (by simp [stage, hpolling])
  rw [hdrive, hpos]
  exact (h.fine.move (by decide)).send (by decide)

/-- A sector is written. -/
theorem Busy.wrote {errors : Nat} (h : Busy d id dev .write block rest k errors s)
    (hrest : ∀ r ∈ rest, r.id ≠ id) (hpolling : s.polling = false) (hdrive : s.drive = dev / 5)
    (hpos : s.pos = (d.hd dev).startSect + (2 * block + k)) :
    After d id dev .write block rest (budget s) (writeIntr d true { s with doHd := none }) := by
  have hk := h.k_lt
  have hk' : k = 0 ∨ k = 1 := by omega
  rcases hk' with rfl | rfl
  · obtain ⟨hbusy, hlt⟩ := h.wrote_first hpolling hdrive hpos
    exact .busy hbusy hlt
  · have hrun : writeIntr d true { s with doHd := none } =
        doHdRequest d { s with
          queue := rest
          doHd := none
          pos := s.pos + 1
          log := .ended id true :: .moved id s.drive s.pos 512 :: s.log } := by
      simp only [writeIntr, if_true, current, h.queue, left, say, endRequest]
      rfl
    rw [hrun]
    exact end_after hrest h.fine h.going h.few (by rw [hdrive, hpos])

/-- The first sector is read. A read forgets its errors with each sector. -/
theorem Busy.got_first {errors : Nat} (h : Busy d id dev .read block rest 0 errors s)
    (hpolling : s.polling = false)
    (hdrive : s.drive = dev / 5) (hpos : s.pos = (d.hd dev).startSect + (2 * block + 0)) :
    Busy d id dev .read block rest 1 0 (readIntr d true { s with doHd := none }) ∧
      budget (readIntr d true { s with doHd := none }) < budget s := by
  have hrun : readIntr d true { s with doHd := none } =
      { s with
        queue := left id dev .read block 1 0 :: rest
        doHd := some .readIntr
        pos := s.pos + 1
        log := .moved id s.drive s.pos 0 :: s.log } := by
    simp only [readIntr, if_true, current, h.queue, left, say]
    rfl
  rw [hrun]
  refine h.second ⟨by decide, by decide, rfl, h.reset, h.fault, .read rfl hpolling rfl hdrive
    (by rw [hpos]; rfl), ?_, going_cons h.going (by simp), few_cons h.few (by simp)⟩
    (by simp [stage, hpolling])
  rw [hdrive, hpos]
  exact h.fine.move (by decide)

/-- A sector is read. -/
theorem Busy.got {errors : Nat} (h : Busy d id dev .read block rest k errors s)
    (hrest : ∀ r ∈ rest, r.id ≠ id) (hpolling : s.polling = false)
    (hdrive : s.drive = dev / 5) (hpos : s.pos = (d.hd dev).startSect + (2 * block + k)) :
    After d id dev .read block rest (budget s) (readIntr d true { s with doHd := none }) := by
  have hk := h.k_lt
  have hk' : k = 0 ∨ k = 1 := by omega
  rcases hk' with rfl | rfl
  · obtain ⟨hbusy, hlt⟩ := h.got_first hpolling hdrive hpos
    exact .busy hbusy hlt
  · have hrun : readIntr d true { s with doHd := none } =
        doHdRequest d { s with
          queue := rest
          doHd := none
          pos := s.pos + 1
          log := .ended id true :: .moved id s.drive s.pos 512 :: s.log } := by
      simp only [readIntr, if_true, current, h.queue, left, say, endRequest]
      rfl
    rw [hrun]
    exact end_after hrest h.fine h.going h.few (by rw [hdrive, hpos])

/-- What one answer leads to. -/
theorem Busy.answer {errors : Nat} (h : Busy d id dev cmd block rest k errors s) (hdev : dev < 5 * d.nrHd)
    (hroom : 2 * block + 3 ≤ (d.hd dev).nrSects) (hrest : ∀ r ∈ rest, r.id ≠ id) :
    ∀ ok, After d id dev cmd block rest (budget s) (answer d ok s)
  | false => h.error hdev hroom hrest
  | true => by
    cases h.pending with
    | prepare hdo hpolling =>
      rw [answer_interrupt hpolling hdo]
      exact h.prepared hdev hroom hdo hpolling
    | ready hdo hpolling hcmd hdrive hpos =>
      subst hcmd
      obtain ⟨_, rfl, hbusy, hlt, _⟩ := h.sent hdo hpolling hdrive hpos
      exact .busy hbusy hlt
    | write hdo hpolling hcmd hdrive hpos =>
      subst hcmd
      rw [answer_interrupt hpolling hdo]
      exact h.wrote hrest hpolling hdrive hpos
    | read hdo hpolling hcmd hdrive hpos =>
      subst hcmd
      rw [answer_interrupt hpolling hdo]
      exact h.got hrest hpolling hdrive hpos

/-! ## All answers -/

/-- The driver until the request is over. -/
def follow (d : Disks) (id : Nat) : List Bool → Hd → Hd
  | [], s => s
  | ok :: answers, s => if AtHead id s then follow d id answers (answer d ok s) else s

theorem Busy.atHead {errors : Nat} (h : Busy d id dev cmd block rest k errors s) : AtHead id s := by
  rw [AtHead, h.queue]
  rfl

theorem Over.gone (h : Over d id dev block s) : ¬ AtHead id s := by
  cases h with
  | done _ _ _ _ hgone => exact hgone
  | failed _ _ _ hgone => exact hgone

/-- Nothing happens when the request is over. -/
theorem follow_over (h : Over d id dev block s) (answers : List Bool) : follow d id answers s = s := by
  cases answers with
  | nil => rfl
  | cons ok answers => rw [follow, if_neg h.gone]

theorem Busy.follow (hdev : dev < 5 * d.nrHd) (hroom : 2 * block + 3 ≤ (d.hd dev).nrSects)
    (hrest : ∀ r ∈ rest, r.id ≠ id) : ∀ (answers : List Bool) {s : Hd} {k errors : Nat},
    Busy d id dev cmd block rest k errors s →
      (∃ k errors, Busy d id dev cmd block rest k errors (follow d id answers s) ∧
        budget (follow d id answers s) + answers.length ≤ budget s) ∨
      Over d id dev block (follow d id answers s)
  | [], s, k, errors, h => .inl ⟨k, errors, h, Nat.le_refl _⟩
  | ok :: answers, s, k, errors, h => by
    rw [Hd.follow, if_pos h.atHead]
    cases h.answer hdev hroom hrest ok with
    | ended hover =>
      rw [follow_over hover]
      exact .inr hover
    | busy hbusy hlt =>
      rcases hbusy.follow hdev hroom hrest answers with ⟨k', errors', hbusy', hle⟩ | hover
      · refine .inl ⟨k', errors', hbusy', ?_⟩
        rw [List.length_cons]
        omega
      · exact .inr hover

/-- A request for the block survives what the controller answers: unless seven errors are counted it does
not fail, it moves exactly the sectors of the block, and it ends; and the commands are for its partition
only. -/
def Survives (d : Disks) (dev block : Nat) (cmd : Rw) : Prop :=
  ∀ (id : Nat) (rest : List Request) (s : Hd) (answers : List Bool), (∀ r ∈ rest, r.id ≠ id) →
    s.queue = Request.make id dev cmd block :: rest → s.polling = false → s.fault = none → s.log = [] →
    let t := follow d id answers (doHdRequest d s)
    InPartition d id dev t.log ∧ (FewErrors id t.log →
      .ended id false ∉ t.log ∧ (.ended id true ∈ t.log → moves id t.log = sectors d dev block) ∧
      SendsBlock d id dev block t.log ∧ (120 ≤ answers.length → .ended id true ∈ t.log))

/-- A block that is not the last one of its partition. -/
theorem survives_of_room (hdev : dev < 5 * d.nrHd) (hroom : 2 * block + 3 ≤ (d.hd dev).nrSects) :
    Survives d dev block cmd := by
  intro id rest s answers hrest hqueue hpolling hfault hlog
  have hfine : Fine d id dev block 0 s.log := by
    rw [hlog]
    exact ⟨nofun, nofun, rfl⟩
  have hleft : s.queue = left id dev cmd block 0 0 :: rest := hqueue
  obtain ⟨hbusy, _⟩ := doHdRequest_busy hdev (by omega) (by decide)
    (by decide) hleft hpolling hfault hfine (by simp [hlog]) (by simp [hlog, FewErrors])
  rcases hbusy.follow hdev hroom hrest answers with ⟨k, errors, h, hle⟩ | hover
  · refine ⟨h.fine.commands, fun _ => ⟨h.going false, fun hend => absurd hend (h.going true),
      h.fine.sends, fun hlen => ?_⟩⟩
    have hbudget := hbusy.budget_eq
    have hstage := stage_le (doHdRequest d s)
    simp only [maxErrors] at hbudget
    omega
  · cases hover with
    | done hfine hended hgood _ _ =>
      refine ⟨hfine.commands, fun _ => ⟨hgood, fun _ => ?_, hfine.sends, fun _ => hended⟩⟩
      rw [hfine.moves]
      rfl
    | failed hcommands hsends herror _ =>
      exact ⟨hcommands, fun hfew => absurd (hfew _ _ herror) (Nat.lt_irrefl _)⟩

/-! ## The last block of a partition -/

/-- An error at the second sector of the last block is the end. -/
theorem Busy.fatal {errors : Nat} (h : Busy d id dev cmd block rest 1 errors s)
    (he : errors + 1 < maxErrors)
    (hlast : (d.hd dev).nrSects < 2 * block + 3) :
    .ended id false ∈ (Hd.answer d false s).log ∧ FewErrors id (Hd.answer d false s).log := by
  obtain ⟨doHd, hrun⟩ := h.pending.bad
  have hno : ¬ accepts d (left id dev cmd block 1 (errors + 1)) = true := by
    intro hacc
    have hroom := (of_decide_eq_true hacc).2
    simp only [left] at hroom
    omega
  rw [hrun, badRwIntr_few (s := { s with doHd := doHd, polling := false }) h.queue he, doHdRequest,
    request,
    if_neg hno]
  obtain ⟨_, l, hl, _, herror⟩ := request_log d rest (say { s with
    queue := left id dev cmd block 1 (errors + 1) :: rest
    reset := if maxErrors / 2 < errors + 1 then true else s.reset
    doHd := doHd
    polling := false
    log := .error s.owner id (errors + 1) :: s.log } (.ended id false))
  rw [show (left id dev cmd block 1 (errors + 1)).id = id from rfl, hl]
  refine ⟨List.mem_append_right l List.mem_cons_self, fun owner n hmem => ?_⟩
  rcases List.mem_append.1 hmem with hmem | hmem
  · exact absurd hmem (herror owner id n)
  · simp only [say, List.mem_cons, reduceCtorEq, Event.error.injEq, true_and, false_or] at hmem
    rcases hmem with ⟨_, rfl⟩ | hmem
    · exact he
    · exact h.few owner n hmem

/-- The driver with one request and nothing to prepare. -/
def fresh (dev block : Nat) (cmd : Rw) : Hd :=
  ⟨[Request.make 0 dev cmd block], false, false, none, false, 0, 0, 0, none, []⟩

theorem fresh_busy (cmd : Rw) (hdev : dev < 5 * d.nrHd) (hroom : 2 * block + 2 ≤ (d.hd dev).nrSects) :
    Busy d 0 dev cmd block [] 0 0 (doHdRequest d (fresh dev block cmd)) ∧
      stage (doHdRequest d (fresh dev block cmd)) = if cmd = .write then 2 else 1 := by
  have hfine : Fine d 0 dev block 0 [] := ⟨nofun, nofun, rfl⟩
  exact doHdRequest_busy (s := fresh dev block cmd) hdev hroom (by decide)
    (by decide) rfl rfl rfl hfine nofun nofun

theorem not_survives (hdev : dev < 5 * d.nrHd) (hroom : 2 * block + 2 ≤ (d.hd dev).nrSects)
    (hlast : (d.hd dev).nrSects < 2 * block + 3) : ¬ Survives d dev block cmd := by
  intro hall
  obtain ⟨hbusy, hstage⟩ := fresh_busy cmd hdev hroom
  -- the first sector goes well, and the second one does not
  obtain ⟨answers, hend, hfew⟩ : ∃ answers,
      .ended 0 false ∈ (follow d 0 answers (doHdRequest d (fresh dev block cmd))).log ∧
        FewErrors 0 (follow d 0 answers (doHdRequest d (fresh dev block cmd))).log := by
    cases hbusy.pending with
    | prepare hdo hpolling =>
      have hlow : 3 ≤ stage (doHdRequest d (fresh dev block cmd)) := by
        simp only [stage, hpolling, hdo, Bool.false_eq_true, if_false, if_true]
        split <;> omega
      have hhigh : stage (doHdRequest d (fresh dev block cmd)) ≤ 2 := by
        rw [hstage]
        split <;> omega
      omega
    | ready hdo hpolling hcmd hdrive hpos =>
      subst hcmd
      obtain ⟨s', hrun, hsent, _, hpolling', hdo', hdrive', hpos'⟩ := hbusy.sent hdo hpolling hdrive hpos
      obtain ⟨hsecond, _⟩ := hsent.wrote_first hpolling' hdrive' hpos'
      refine ⟨[true, true, false], ?_⟩
      rw [follow, if_pos hbusy.atHead, hrun, follow, if_pos hsent.atHead, answer_interrupt hpolling' hdo']
      simp only [call]
      rw [follow, if_pos hsecond.atHead]
      exact hsecond.fatal (by decide) hlast
    | write hdo hpolling hcmd =>
      subst hcmd
      simp [stage, hpolling, hdo] at hstage
    | read hdo hpolling hcmd hdrive hpos =>
      subst hcmd
      obtain ⟨hsecond, _⟩ := hbusy.got_first hpolling hdrive hpos
      refine ⟨[true, false], ?_⟩
      rw [follow, if_pos hbusy.atHead, answer_interrupt hpolling hdo]
      simp only [call]
      rw [follow, if_pos hsecond.atHead]
      exact hsecond.fatal (by decide) hlast
  obtain ⟨_, hgood⟩ := hall 0 [] (fresh dev block cmd) answers nofun rfl rfl rfl rfl
  exact (hgood hfew).1 hend

/-- A request for a block of a partition survives exactly if there is a sector behind the block. -/
theorem transient_errors (d : Disks) {dev block : Nat} (cmd : Rw) (hdev : dev < 5 * d.nrHd)
    (hroom : 2 * block + 2 ≤ (d.hd dev).nrSects) :
    Survives d dev block cmd ↔ 2 * block + 3 ≤ (d.hd dev).nrSects := by
  constructor
  · intro h
    by_contra hlast
    exact not_survives hdev hroom (Nat.lt_of_not_le hlast) h
  · exact survives_of_room hdev

/-- One drive with a partition of three blocks. -/
def threeBlocks : Disks :=
  .single (fun dev => if dev = 1 then ⟨1, 6⟩ else ⟨0, 0⟩) (by decide)

theorem transient_errors_second : Survives threeBlocks 1 1 .write :=
  (transient_errors threeBlocks .write (by decide) (by decide)).2 (by decide)

/-- A read of the third block fails with the first error at its second sector. -/
theorem third_block_fails : ¬ Survives threeBlocks 1 2 .read :=
  not_survives (by decide) (by decide) (by decide)

end Linux011.Drivers.Hd
