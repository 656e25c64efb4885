import Mathlib.Logic.Function.Basic
import Mathlib.Data.BitVec

/-!
# The buffer cache (`fs/buffer.c`, `kernel/blk_drv/ll_rw_blk.c`)

The data of the cache: the buffer heads, the hash chains, the ring `free_list`, the request table
and the disk behind it. A buffer head is named by its index from `start_buffer`.

The two kinds of queues are lists. A hash chain is the list of its buffers from `hash_table[i]` on;
the ring is the list of its buffers from `free_list` on, so removing the first one moves
`free_list`, and inserting before `free_list` appends at the end. The pointers `b_prev` and
`b_prev_free` say nothing that the lists do not.

`b_count` is an unsigned char: it wraps at 256. The field `stored` is a history variable: what the
clients have stored in a block last. No function of the source has it, and nothing reads it.
-/

namespace Linux011.Buffer

/-! ## Types -/

/-- A device number (`unsigned short b_dev`); 0 means that the buffer is free. -/
abbrev Dev := BitVec 16

/-- A block number (`unsigned long b_blocknr`). -/
abbrev Block := BitVec 32

/-- The 1024 bytes of a block. -/
abbrev Data := Nat → BitVec 8

/-- `struct buffer_head`, without its queues; `data` is what `b_data` points at. -/
structure Head where
  data : Data
  blocknr : Block
  dev : Dev
  uptodate : Bool
  dirt : Bool
  count : Nat
  lock : Bool

/-- `READ` and `WRITE` as a request has them. -/
inductive Cmd where
  | read
  | write
  deriving DecidableEq

/-- The first argument of `ll_rw_block`: a command, and whether it is a read-ahead or a
write-ahead. -/
structure Rw where
  cmd : Cmd
  ahead : Bool
  deriving DecidableEq

/-- A request in use. -/
structure Request where
  dev : Dev
  cmd : Cmd
  block : Block
  bh : Nat

structure Cache where
  /-- `NR_BUFFERS`. -/
  nr : Nat
  head : Nat → Head
  hashTable : Nat → List Nat
  freeList : List Nat
  request : Nat → Option Request
  disk : Dev → Block → Data
  stored : Dev → Block → Data

/-! ## Queues -/

/-- `_hashfn`. -/
def hashfn (dev : Dev) (block : Block) : Nat := (dev.zeroExtend 32 ^^^ block).toNat % 307

/-- The buffer carries this identity. -/
def Head.Is (h : Head) (dev : Dev) (block : Block) : Prop := h.dev = dev ∧ h.blocknr = block

instance (h : Head) (dev : Dev) (block : Block) : Decidable (h.Is dev block) :=
  inferInstanceAs (Decidable (_ ∧ _))

/-- `find_buffer`. -/
def findBuffer (c : Cache) (dev : Dev) (block : Block) : Option Nat :=
  (c.hashTable (hashfn dev block)).find? fun bh => (c.head bh).Is dev block

/-- `BADNESS`. -/
def badness (h : Head) : Nat := 2 * h.dirt.toNat + h.lock.toNat

/-- The loop of `getblk` over the ring: the best unused buffer so far, and the rest of the ring. -/
def scanFree (c : Cache) : Option Nat → List Nat → Option Nat
  | best, [] => best
  | best, tmp :: ring =>
    if (c.head tmp).count ≠ 0 then scanFree c best ring
    else if best.all fun bh => badness (c.head tmp) < badness (c.head bh) then
      if badness (c.head tmp) = 0 then some tmp else scanFree c (some tmp) ring
    else scanFree c best ring

/-- Change one buffer head. -/
def Cache.modify (c : Cache) (bh : Nat) (f : Head → Head) : Cache :=
  { c with head := Function.update c.head bh (f (c.head bh)) }

/-- `remove_from_queues`. -/
def removeFromQueues (c : Cache) (bh : Nat) : Cache :=
  let k := hashfn (c.head bh).dev (c.head bh).blocknr
  { c with
    hashTable := Function.update c.hashTable k ((c.hashTable k).filter (· ≠ bh))
    freeList := c.freeList.filter (· ≠ bh) }

/-- `insert_into_queues`. -/
def insertIntoQueues (c : Cache) (bh : Nat) : Cache :=
  let c := { c with freeList := c.freeList ++ [bh] }
  if (c.head bh).dev = 0 then c
  else
    let k := hashfn (c.head bh).dev (c.head bh).blocknr
    { c with hashTable := Function.update c.hashTable k (bh :: c.hashTable k) }

/-- The last lines of `getblk`: the buffer gets a new identity. -/
def take (c : Cache) (bh : Nat) (dev : Dev) (block : Block) : Cache :=
  let c := c.modify bh fun h => { h with count := 1, dirt := false, uptodate := false }
  let c := removeFromQueues c bh
  let c := c.modify bh fun h => { h with dev := dev, blocknr := block }
  insertIntoQueues c bh

/-! ## Counts and contents -/

/-- `bh->b_count++`. -/
def Cache.hold (c : Cache) (bh : Nat) : Cache :=
  c.modify bh fun h => { h with count := (h.count + 1) % 256 }

/-- `bh->b_count--`. -/
def Cache.drop (c : Cache) (bh : Nat) : Cache :=
  c.modify bh fun h => { h with count := (h.count + 255) % 256 }

/-- What the clients store in a block, noted in the history variable. -/
def Cache.note (c : Cache) (bh : Nat) (data : Data) : Cache :=
  { c with
    stored := Function.update c.stored (c.head bh).dev
      (Function.update (c.stored (c.head bh).dev) (c.head bh).blocknr data) }

/-- A client changes the contents of a block and sets `b_dirt`. -/
def Cache.store (c : Cache) (bh : Nat) (f : Data → Data) : Cache :=
  (c.note bh (f (c.head bh).data)).modify bh fun h => { h with data := f h.data, dirt := true }

/-- `new_block` clears the block it has got. -/
def Cache.clear (c : Cache) (bh : Nat) : Cache :=
  (c.note bh fun _ => 0).modify bh fun h =>
    { h with data := fun _ => 0, uptodate := true, dirt := true }

/-- A client stores one byte; it has set `b_dirt` before. -/
def Cache.putByte (c : Cache) (bh off : Nat) (byte : BitVec 8) : Cache :=
  (c.note bh (Function.update (c.head bh).data off byte)).modify bh fun h =>
    { h with data := Function.update h.data off byte }

/-! ## Requests -/

/-- `blk_dev[major].request_fn` is set: by `rd_init` (only with a RAM disk), `floppy_init` and
`hd_init`. -/
def requestFn (ramdisk : Bool) (major : Nat) : Bool :=
  (major = 1 && ramdisk) || major = 2 || major = 3

/-- The test of `ll_rw_block`. -/
def hasDriver (ramdisk : Bool) (dev : Dev) : Bool :=
  (dev >>> 8).toNat < 7 && requestFn ramdisk (dev >>> 8).toNat

/-- The search for an empty request below an index, from the top down. -/
def emptyRequest (c : Cache) : Nat → Option Nat
  | 0 => none
  | i + 1 => if (c.request i).isNone then some i else emptyRequest c i

/-- The last third of the `NR_REQUEST` requests is for reads only. -/
def requestLimit : Cmd → Nat
  | .read => 32
  | .write => 32 * 2 / 3

/-- The end of `make_request`, and `add_request`: the request is filled, and `b_dirt` is cleared. -/
def Cache.addRequest (c : Cache) (i : Nat) (cmd : Cmd) (bh : Nat) : Cache :=
  let r : Request := ⟨(c.head bh).dev, cmd, (c.head bh).blocknr, bh⟩
  { c with request := Function.update c.request i (some r) }.modify bh fun h =>
    { h with dirt := false }

/-- The transfer of a request that succeeds. -/
def Cache.transfer (c : Cache) (r : Request) : Cache :=
  match r.cmd with
  | .read => c.modify r.bh fun h => { h with data := c.disk r.dev r.block }
  | .write =>
    { c with
      disk := Function.update c.disk r.dev
        (Function.update (c.disk r.dev) r.block (c.head r.bh).data) }

/-- The driver finishes a request: the transfer when it succeeds, and `end_request`. -/
def Cache.endRequest (c : Cache) (i : Nat) (r : Request) (ok : Bool) : Cache :=
  let c := if ok then c.transfer r else c
  { c with request := Function.update c.request i none }.modify r.bh fun h =>
    { h with uptodate := ok, lock := false }

/-- `buffer_init` over a disk. -/
def bufferInit (nr : Nat) (disk : Dev → Block → Data) : Cache where
  nr := nr
  head := fun _ => ⟨fun _ => 0, 0, 0, false, false, 0, false⟩
  hashTable := fun _ => []
  freeList := List.range nr
  request := fun _ => none
  disk := disk
  stored := disk

end Linux011.Buffer
