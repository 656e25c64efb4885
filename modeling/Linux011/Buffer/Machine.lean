import Linux011.Lib.Machine
import Linux011.Buffer.Cache
import Mathlib.Data.Fintype.BigOperators
import Linux011.Lib.Slots

/-!
# Tasks in the buffer cache

Any number of tasks run the functions of `buffer.c` at once. A task that runs keeps the processor
until it sleeps: `current` names it, and only the current task executes. What can happen at any
moment, also between two instructions of the current task, is the completion of a request.

The activations of a task form a stack of FRAMES. A frame is a point of a function together with
the variables that are live there; the functions that return a buffer are one frame with a CALLER,
which says what becomes of the buffer. A frame below the top waits for the one above it, and goes
on from where it stands when that one is gone.

Every loop `while (bh->b_lock) sleep_on(&bh->b_wait)` is a frame that stays while the buffer is
locked and gives the processor away. A sleeping task may be resumed at any time: all the code that
sleeps tests its condition again, so a wake-up without cause is as good as any other.

Two functions outside the buffer cache take part. `sync_inodes` may write any number of inodes into
buffers of its choice and may sleep in between; so may `create_diskBlock` of `file_write`, which
also answers with a block of its choice. A panic stops the machine.
-/

namespace Linux011.Buffer

/-! ## Frames -/

/-- On whose behalf a buffer is looked for. `ahead` is the loop of `breada`, `page` that of
`bread_page` with its remaining blocks and the buffers it has; `update` changes a block and marks
it dirty at once, as `write_inode` and the bitmap functions do. -/
inductive Caller where
  | getHashTable
  | getblk
  | bread
  | breada (rest : List Block)
  | ahead
  | page (rest : List Block) (bhs : List Nat)
  | newBlock
  | update (f : Data → Data)
  | fileWrite (off : Nat) (chunk : List (BitVec 8)) (pos : Nat) (rest : List (BitVec 8))

/-- The points at which a task can be. -/
inductive Frame where
  /-- `get_hash_table`: `find_buffer`. -/
  | hash (k : Caller) (dev : Dev) (block : Block)
  /-- `get_hash_table`: `wait_buffer_unlock`, then the identity is tested again. -/
  | hashWait (k : Caller) (dev : Dev) (block : Block) (bh : Nat)
  /-- `getblk`: the loop over the ring. -/
  | scan (k : Caller) (dev : Dev) (block : Block)
  /-- `getblk`: `wait_buffer_unlock`, then `b_count` is tested again. -/
  | victim (k : Caller) (dev : Dev) (block : Block) (bh : Nat)
  /-- `getblk`: `while (bh->b_dirt)`. -/
  | clean (k : Caller) (dev : Dev) (block : Block) (bh : Nat)
  /-- `getblk`: the second `find_buffer`, and the new identity. -/
  | recheck (k : Caller) (dev : Dev) (block : Block) (bh : Nat)
  /-- The caller has the buffer. -/
  | got (k : Caller) (dev : Dev) (block : Block) (bh : Nat)
  /-- `wait_buffer_unlock` after the read request. -/
  | reading (k : Caller) (dev : Dev) (block : Block) (bh : Nat)
  /-- `breada`: the remaining blocks. -/
  | aheads (dev : Dev) (block : Block) (bh : Nat) (rest : List Block)
  /-- `breada`: `tmp->b_count--`. -/
  | drop (bh : Nat)
  /-- `bread_page`: the remaining blocks and the buffers so far. -/
  | pageNext (dev : Dev) (rest : List Block) (bhs : List Nat)
  /-- `bread_page`: the buffers still to copy and to release. -/
  | pageCopy (bhs : List Nat)
  /-- `ll_rw_block`. -/
  | llRwBlock (rw : Rw) (bh : Nat)
  /-- `make_request`: `lock_buffer`, and the test behind it. -/
  | lockBuffer (rw : Rw) (bh : Nat)
  /-- `make_request`: the search for a request. -/
  | findRequest (rw : Rw) (bh : Nat)
  /-- `brelse`. -/
  | brelse (bh : Nat)
  /-- `sync_dev`: the loop, in its first or second pass. -/
  | syncDev (dev : Dev) (second : Bool) (i : Nat)
  /-- `sync_dev`: `wait_buffer_unlock`, then the tests. -/
  | syncWait (dev : Dev) (second : Bool) (i : Nat)
  /-- `sys_sync`: the loop. -/
  | syncAll (i : Nat)
  | syncInodes
  /-- `file_write`: the loop, at `create_diskBlock`. -/
  | fileWrite (dev : Dev) (pos : Nat) (bytes : List (BitVec 8))
  /-- `file_write`: the copy from user space. -/
  | copy (dev : Dev) (block : Block) (bh off : Nat) (chunk : List (BitVec 8)) (pos : Nat)
      (rest : List (BitVec 8))

/-- What code outside the buffer cache does next, where it has a choice: it goes on, sleeps,
changes a block, allocates a block, answers with a block, or takes a page fault that reads blocks. -/
inductive Choice where
  | done
  | sleep
  | update (dev : Dev) (block : Block) (f : Data → Data)
  | newBlock (dev : Dev) (block : Block)
  | zone (block : Block)
  | fault (dev : Dev) (blocks : List Block)

/-- A reference a client holds; `read` says that the buffer comes from `bread` or `breada`. -/
structure Ref where
  bh : Nat
  dev : Dev
  block : Block
  read : Bool
  deriving DecidableEq

/-- What one instruction of the top frame comes to: the frames that take its place, with or
without the processor given away; or a reference for the client. -/
inductive Outcome where
  | next (c : Cache) (fs : List Frame)
  | sleep (c : Cache) (fs : List Frame)
  | hand (c : Cache) (r : Ref)
  | panic

/-! ## Instructions -/

/-- The caller has the buffer, and the buffer is up to date. -/
def ready (c : Cache) (k : Caller) (dev : Dev) (block : Block) (bh : Nat) : Outcome :=
  match k with
  | .update f => .next (c.store bh f) [.brelse bh]
  | .fileWrite off chunk pos rest =>
    .next (c.modify bh fun h => { h with dirt := true }) [.copy dev block bh off chunk pos rest]
  | _ => .hand c ⟨bh, dev, block, true⟩

/-- What the caller does with the buffer that `getblk` or `get_hash_table` returns. -/
def gotBuffer (c : Cache) (k : Caller) (dev : Dev) (block : Block) (bh : Nat) : Outcome :=
  let read : Frame := .llRwBlock ⟨.read, false⟩ bh
  match k with
  | .getHashTable => .hand c ⟨bh, dev, block, false⟩
  | .getblk => .hand c ⟨bh, dev, block, false⟩
  | .breada rest =>
    if (c.head bh).uptodate then .next c [.aheads dev block bh rest]
    else .next c [read, .aheads dev block bh rest]
  | .ahead =>
    if (c.head bh).uptodate then .next c [.drop bh]
    else .next c [.llRwBlock ⟨.read, true⟩ bh, .drop bh]
  | .page rest bhs =>
    if (c.head bh).uptodate then .next c [.pageNext dev rest (bhs ++ [bh])]
    else .next c [read, .pageNext dev rest (bhs ++ [bh])]
  | .newBlock =>
    if (c.head bh).count ≠ 1 then .panic else .next (c.clear bh) [.brelse bh]
  | k =>
    if (c.head bh).uptodate then ready c k dev block bh
    else .next c [read, .reading k dev block bh]

/-- One instruction of the top frame. -/
def exec (ramdisk : Bool) (c : Cache) (x : Choice) : Frame → Outcome
  | .hash k dev block =>
    match findBuffer c dev block with
    | some bh => .next (c.hold bh) [.hashWait k dev block bh]
    | none =>
      match k with
      | .getHashTable => .next c []
      | k => .next c [.scan k dev block]
  | .hashWait k dev block bh =>
    if (c.head bh).lock then .sleep c [.hashWait k dev block bh]
    else if (c.head bh).Is dev block then .next c [.got k dev block bh]
    else .next (c.drop bh) [.hash k dev block]
  | .scan k dev block =>
    match scanFree c none c.freeList with
    | none => .sleep c [.hash k dev block]
    | some bh => .next c [.victim k dev block bh]
  | .victim k dev block bh =>
    if (c.head bh).lock then .sleep c [.victim k dev block bh]
    else if (c.head bh).count ≠ 0 then .next c [.hash k dev block]
    else .next c [.clean k dev block bh]
  | .clean k dev block bh =>
    if (c.head bh).dirt then
      .next c [.syncDev (c.head bh).dev false 0, .victim k dev block bh]
    else .next c [.recheck k dev block bh]
  | .recheck k dev block bh =>
    if (findBuffer c dev block).isSome then .next c [.hash k dev block]
    else .next (take c bh dev block) [.got k dev block bh]
  | .got k dev block bh => gotBuffer c k dev block bh
  | .reading k dev block bh =>
    if (c.head bh).lock then .sleep c [.reading k dev block bh]
    else if (c.head bh).uptodate then ready c k dev block bh
    else
      match k with
      | .update _ => .panic
      | _ => .next c [.brelse bh]
  | .aheads dev block bh rest =>
    match rest with
    | [] => .next c [.reading .bread dev block bh]
    | first :: rest => .next c [.hash .ahead dev first, .aheads dev block bh rest]
  | .drop bh => .next (c.drop bh) []
  | .pageNext dev rest bhs =>
    match rest with
    | [] => .next c [.pageCopy bhs]
    | b :: rest =>
      if b = 0 then .next c [.pageNext dev rest bhs] else .next c [.hash (.page rest bhs) dev b]
  | .pageCopy bhs =>
    match bhs with
    | [] => .next c []
    | bh :: bhs =>
      if (c.head bh).lock then .sleep c [.pageCopy (bh :: bhs)]
      else .next c [.brelse bh, .pageCopy bhs]
  | .llRwBlock rw bh =>
    if hasDriver ramdisk (c.head bh).dev = false ∨ (rw.ahead ∧ (c.head bh).lock) then .next c []
    else .next c [.lockBuffer rw bh]
  | .lockBuffer rw bh =>
    if (c.head bh).lock then .sleep c [.lockBuffer rw bh]
    else if (rw.cmd = .write ∧ (c.head bh).dirt = false) ∨ (rw.cmd = .read ∧ (c.head bh).uptodate)
      then .next c []
    else .next (c.modify bh fun h => { h with lock := true }) [.findRequest rw bh]
  | .findRequest rw bh =>
    match emptyRequest c (requestLimit rw.cmd) with
    | some i => .next (c.addRequest i rw.cmd bh) []
    | none =>
      if rw.ahead then .next (c.modify bh fun h => { h with lock := false }) []
      else .sleep c [.findRequest rw bh]
  | .brelse bh =>
    if (c.head bh).lock then .sleep c [.brelse bh]
    else if (c.head bh).count = 0 then .panic
    else .next (c.drop bh) []
  | .syncDev dev second i =>
    if i < c.nr then
      if (c.head i).dev ≠ dev then .next c [.syncDev dev second (i + 1)]
      else .next c [.syncWait dev second i]
    else if second then .next c []
    else .next c [.syncInodes, .syncDev dev true 0]
  | .syncWait dev second i =>
    if (c.head i).lock then .sleep c [.syncWait dev second i]
    else if (c.head i).dev = dev ∧ (c.head i).dirt then
      .next c [.llRwBlock ⟨.write, false⟩ i, .syncDev dev second (i + 1)]
    else .next c [.syncDev dev second (i + 1)]
  | .syncAll i =>
    if i < c.nr then
      if (c.head i).lock then .sleep c [.syncAll i]
      else if (c.head i).dirt then .next c [.llRwBlock ⟨.write, false⟩ i, .syncAll (i + 1)]
      else .next c [.syncAll (i + 1)]
    else .next c []
  | .syncInodes =>
    match x with
    | .sleep => .sleep c [.syncInodes]
    | .update dev block f => .next c [.hash (.update f) dev block, .syncInodes]
    | _ => .next c []
  | .fileWrite dev pos bytes =>
    if bytes = [] then .next c []
    else
      match x with
      | .sleep => .sleep c [.fileWrite dev pos bytes]
      | .update d b f => .next c [.hash (.update f) d b, .fileWrite dev pos bytes]
      | .newBlock d b => .next c [.hash .newBlock d b, .fileWrite dev pos bytes]
      | .zone b =>
        let chunk := bytes.take (1024 - pos % 1024)
        .next c [.hash (.fileWrite (pos % 1024) chunk (pos + chunk.length)
          (bytes.drop chunk.length)) dev b]
      | _ => .next c []
  | .copy dev block bh off chunk pos rest =>
    match chunk with
    | [] => .next c [.brelse bh, .fileWrite dev pos rest]
    | byte :: chunk =>
      match x with
      | .sleep => .sleep c [.copy dev block bh off (byte :: chunk) pos rest]
      | .fault d bs => .next c [.pageNext d bs [], .copy dev block bh off (byte :: chunk) pos rest]
      | _ => .next (c.putByte bh off byte) [.copy dev block bh (off + 1) chunk pos rest]

/-! ## The machine -/

/-- The cache, the stack of every task, the references its client holds, and the task that has the
processor. -/
structure Sys (ι : Type) where
  cache : Cache
  stack : ι → List Frame
  held : ι → List Ref
  current : Option ι

/-- The calls a client can make; `brelse` is of a reference it holds. -/
inductive Op where
  | getHashTable (dev : Dev) (block : Block)
  | getblk (dev : Dev) (block : Block)
  | bread (dev : Dev) (block : Block)
  | breada (dev : Dev) (first : Block) (rest : List Block)
  | breadPage (dev : Dev) (b : List Block)
  | newBlock (dev : Dev) (block : Block)
  | syncDev (dev : Dev)
  | sync
  | fileWrite (dev : Dev) (pos : Nat) (bytes : List (BitVec 8))

/-- The first frames of a call. -/
def Op.frames : Op → List Frame
  | .getHashTable dev block => [.hash .getHashTable dev block]
  | .getblk dev block => [.hash .getblk dev block]
  | .bread dev block => [.hash .bread dev block]
  | .breada dev first rest => [.hash (.breada rest) dev first]
  | .breadPage dev b => [.pageNext dev b []]
  | .newBlock dev block => [.hash .newBlock dev block]
  | .syncDev dev => [.syncDev dev false 0]
  | .sync => [.syncInodes, .syncAll 0]
  | .fileWrite dev pos bytes => [.fileWrite dev pos bytes]

/-- What can happen: a task gets the processor or gives it away in user mode, calls a function,
releases a buffer, changes a block through a reference, executes an instruction; or a request is
finished. -/
inductive Event (ι : Type) where
  | resume (t : ι)
  | leave (t : ι)
  | call (t : ι) (op : Op)
  | brelse (t : ι) (r : Ref)
  | store (t : ι) (r : Ref) (f : Data → Data)
  | run (t : ι) (x : Choice)
  | endRequest (i : Nat) (ok : Bool)

section
variable {ι : Type} [DecidableEq ι]

/-- Task `t`, with the stack `fs` from now on. -/
def Sys.goto (s : Sys ι) (t : ι) (c : Cache) (fs : List Frame) (current : Option ι) : Sys ι :=
  { s with cache := c, stack := Function.update s.stack t fs, current := current }

/-- The next instruction of task `t`. -/
def runTask (ramdisk : Bool) (s : Sys ι) (t : ι) (x : Choice) : Option (Sys ι) :=
  match s.stack t with
  | [] => none
  | f :: rest =>
    match exec ramdisk s.cache x f with
    | .next c fs => some (s.goto t c (fs ++ rest) (some t))
    | .sleep c fs => some (s.goto t c (fs ++ rest) none)
    | .hand c r => some { s.goto t c rest (some t) with
        held := Function.update s.held t (r :: s.held t) }
    | .panic => none

/-- One event. -/
def step (ramdisk : Bool) (s : Sys ι) : Event ι → Option (Sys ι)
  | .resume t => if s.current = none then some { s with current := some t } else none
  | .leave t =>
    if s.current = some t ∧ s.stack t = [] then some { s with current := none } else none
  | .call t op =>
    if s.current = some t ∧ s.stack t = [] then some (s.goto t s.cache op.frames (some t)) else none
  | .brelse t r =>
    if s.current = some t ∧ s.stack t = [] ∧ r ∈ s.held t then
      some { s.goto t s.cache [.brelse r.bh] (some t) with
        held := Function.update s.held t ((s.held t).erase r) }
    else none
  | .store t r f =>
    if s.current = some t ∧ s.stack t = [] ∧ r ∈ s.held t ∧ r.read then
      some { s with cache := s.cache.store r.bh f }
    else none
  | .run t x => if s.current = some t then runTask ramdisk s t x else none
  | .endRequest i ok =>
    (s.cache.request i).map fun r => { s with cache := s.cache.endRequest i r ok }

/-- The cache of `buffer_init`, and tasks that do nothing yet. -/
def Sys.init (ι : Type) (nr : Nat) (disk : Dev → Block → Data) : Sys ι :=
  ⟨bufferInit nr disk, fun _ => [], fun _ => [], none⟩

end

end Linux011.Buffer
