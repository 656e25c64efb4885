import Linux011.Buffer.Cache
import Linux011.Lib.Links
import Linux011.Lib.Watch
import Linux011.Lib.Words

/-!
# The queues of buffer heads (`fs/buffer.c`)

Every buffer head is in a ring that begins at `free_list`, by `b_next_free` and `b_prev_free`, and if
it has a device, also in a hash chain, by `b_next` and `b_prev`. `Cache.lean` has both as lists; here
are the pointers, and the two functions that redirect them, store by store.

Each store and each read through a pointer raises an alarm if no buffer head is there. When nobody
hears it, a store that goes astray touches no buffer head, which is what `insert_into_queues` does
with `b_next` of the first buffer in a chain. `buffer_init` does not set `b_blocknr`.
-/

namespace Linux011.Buffer.Queues

open Lib (Prog)
open Lib.Prog (read modify stop alarm when)

/-! ## The pointers -/

/-- The queue pointers and the identities of `nr` buffer heads, with `b_count`, `b_dirt` and `b_lock`
for `getblk`. -/
structure Heads where
  nr : Nat
  next : Nat → Option Nat
  prev : Nat → Option Nat
  nextFree : Nat → Option Nat
  prevFree : Nat → Option Nat
  hashTable : Nat → Option Nat
  freeList : Option Nat
  dev : Nat → Dev
  blocknr : Nat → Block
  count : Nat → Nat
  dirt : Nat → Bool
  lock : Nat → Bool

/-- What ends a call: the panic of `remove_from_queues`, or a list that does not end. -/
inductive Stop
  | panic
  | endless
  deriving DecidableEq

/-- A pointer that is not one to a buffer head has been used. -/
inductive Stray
  | stray
  deriving DecidableEq

abbrev Code := Prog Heads Stop Stray

/-- The pointer is one to a buffer head. -/
def Heads.Valid (s : Heads) (p : Option Nat) : Bool := p.any fun i => decide (i < s.nr)

/-- A pointer is about to be followed. -/
def deref (p : Option Nat) : Code Unit := do
  let ok ← read fun s => s.Valid p
  when (ok = false) (alarm .stray)

/-- A field of the buffer head behind a pointer; what stands elsewhere is `NULL` here. -/
def field (f : Heads → Nat → Option Nat) (p : Option Nat) : Code (Option Nat) := do
  deref p
  read fun s => p.bind (f s)

/-- A store into a field; elsewhere it touches no buffer head. -/
def store (set : Heads → (Nat → Option Nat) → Heads) (get : Heads → Nat → Option Nat)
    (p v : Option Nat) : Code Unit := do
  deref p
  modify fun s =>
    match p with
    | some i => set s (Function.update (get s) i v)
    | none => s

def setNext : Option Nat → Option Nat → Code Unit := store (fun s f => { s with next := f }) Heads.next

def setPrev : Option Nat → Option Nat → Code Unit := store (fun s f => { s with prev := f }) Heads.prev

def setNextFree : Option Nat → Option Nat → Code Unit :=
  store (fun s f => { s with nextFree := f }) Heads.nextFree

def setPrevFree : Option Nat → Option Nat → Code Unit :=
  store (fun s f => { s with prevFree := f }) Heads.prevFree

/-- `_hashfn(bh->b_dev,bh->b_blocknr)`. -/
def Heads.bucket (s : Heads) (bh : Nat) : Nat := hashfn (s.dev bh) (s.blocknr bh)

def setHash (k : Nat) (v : Option Nat) : Code Unit :=
  modify fun s => { s with hashTable := Function.update s.hashTable k v }

def setFreeList (v : Option Nat) : Code Unit := modify fun s => { s with freeList := v }

/-! ## The code -/

/-- `remove_from_queues`. -/
def removeFromQueues (bh : Nat) : Code Unit := do
  let next ← field Heads.next (some bh)
  when (next ≠ none) (do setPrev next (← field Heads.prev (some bh)))
  let prev ← field Heads.prev (some bh)
  when (prev ≠ none) (do setNext prev (← field Heads.next (some bh)))
  let k ← read fun s => s.bucket bh
  let head ← read fun s => s.hashTable k
  when (head = some bh) (do setHash k (← field Heads.next (some bh)))
  let prevFree ← field Heads.prevFree (some bh)
  let nextFree ← field Heads.nextFree (some bh)
  if prevFree = none ∨ nextFree = none then stop .panic
  else do
    setNextFree prevFree nextFree
    setPrevFree (← field Heads.nextFree (some bh)) (← field Heads.prevFree (some bh))
    let freeList ← read Heads.freeList
    when (freeList = some bh) (do setFreeList (← field Heads.nextFree (some bh)))

/-- `insert_into_queues`. -/
def insertIntoQueues (bh : Nat) : Code Unit := do
  let freeList ← read Heads.freeList
  setNextFree (some bh) freeList
  setPrevFree (some bh) (← field Heads.prevFree freeList)
  setNextFree (← field Heads.prevFree freeList) (some bh)
  setPrevFree freeList (some bh)
  setPrev (some bh) none
  setNext (some bh) none
  let dev ← read fun s => s.dev bh
  if dev = 0 then pure ()
  else do
    let k ← read fun s => s.bucket bh
    setNext (some bh) (← read fun s => s.hashTable k)
    setHash k (some bh)
    setPrev (← field Heads.next (some bh)) (some bh)

/-- The loop of `find_buffer` from `tmp` on. -/
def findFrom (dev : Dev) (block : Block) : Nat → Option Nat → Code (Option Nat)
  | _, none => return none
  | 0, some _ => stop .endless
  | n + 1, some tmp => do
    deref (some tmp)
    let is ← read fun s => decide (s.dev tmp = dev ∧ s.blocknr tmp = block)
    if is then return some tmp
    else findFrom dev block n (← field Heads.next (some tmp))

/-- `find_buffer`; a chain of more than `NR_BUFFERS` buffers does not end. -/
def findBuffer (dev : Dev) (block : Block) : Code (Option Nat) := do
  let nr ← read Heads.nr
  let head ← read fun s => s.hashTable (hashfn dev block)
  findFrom dev block nr head

/-- `bh->b_dev=dev; bh->b_blocknr=block;`. -/
def setIdentity (bh : Nat) (dev : Dev) (block : Block) : Code Unit :=
  modify fun s =>
    { s with dev := Function.update s.dev bh dev, blocknr := Function.update s.blocknr bh block }

/-- The last lines of `getblk`. -/
def rename (bh : Nat) (dev : Dev) (block : Block) : Code Unit := do
  removeFromQueues bh
  setIdentity bh dev block
  insertIntoQueues bh

/-- `buffer_init`; `blocknr` is what stood in the memory. -/
def bufferInit (nr : Nat) (blocknr : Nat → Block) : Heads where
  nr := nr
  next := fun _ => none
  prev := fun _ => none
  nextFree := fun i => if i = nr - 1 then some 0 else some (i + 1)
  prevFree := fun i => if i = 0 then some (nr - 1) else some (i - 1)
  hashTable := fun _ => none
  freeList := some 0
  dev := fun _ => 0
  blocknr := blocknr
  count := fun _ => 0
  dirt := fun _ => false
  lock := fun _ => false

end Linux011.Buffer.Queues
