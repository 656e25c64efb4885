import Linux011.Lib.Twin
import Mathlib.Logic.Function.Basic

/-!
# Locks on the way from the inodes to the disk

`read_inode` and `write_inode` hold the lock of an inode while they ask the buffer cache for a block.
When `getblk` finds only dirty buffers it calls `sync_dev`, which calls `sync_inodes`, which waits for
the lock of every inode in turn.

Here one task runs alone. A buffer is its identity, its count and its flags; the contents of blocks
appear as what is read off them (inodes, indirect blocks, the zone bitmap). Every transfer succeeds, and
is complete at the latest when the task waits for it; `finished` tells which other transfers are
complete at each point where the task can sleep. What a task waits for in vain ends its run with an
error: a lock of an inode or a super block, which only the task itself can hold (`ownLock`), or an
unreferenced buffer, which nobody will release (`starved`). `fuel` bounds the loops, and how deep
`getblk` and `sync_dev` call each other.

With `watch` a run stops with `crowded` where `getblk` has to evict a block and finds no unreferenced
buffer, or only dirty ones while the task holds the lock of an inode.
-/

namespace Linux011.WriteBack

open Linux011.Lib

/-! ## Data -/

abbrev Dev := BitVec 16

abbrev Block := BitVec 32

/-- `struct buffer_head`, without its contents and queues. -/
structure Head where
  dev : Dev
  block : Block
  count : Nat
  dirt : Bool
  uptodate : Bool
  lock : Bool

/-- The fields of `struct d_inode` that matter. -/
structure DInode where
  mode : BitVec 16
  nlinks : BitVec 8
  zone : Nat → BitVec 16

/-- `struct m_inode`. -/
structure MInode where
  disk : DInode
  dev : Dev
  num : BitVec 16
  count : Nat
  lock : Bool
  dirt : Bool
  pipe : Bool
  mount : Bool

/-- `memset(inode,0,sizeof(*inode))`. -/
def MInode.zero : MInode := ⟨⟨0, 0, fun _ => 0⟩, 0, 0, 0, false, false, false, false⟩

/-- `struct super_block`; the bitmaps are buffers, or nothing. -/
structure SuperBlock where
  dev : Dev
  imapBlocks : BitVec 16
  zmapBlocks : BitVec 16
  firstdatazone : BitVec 16
  nzones : BitVec 16
  ninodes : BitVec 16
  imap : Nat → Option Nat
  zmap : Nat → Option Nat
  inodeMount : Option Nat
  lock : Bool

/-- `inode` on disk, `indirect` blocks and the bits of the zone bitmap are the contents as seen through
the buffers; `free` is the ring that begins at `free_list`. -/
structure State where
  head : Nat → Head
  nr : Nat
  free : List Nat
  inode : Nat → MInode
  lastInode : Nat
  super : Nat → SuperBlock
  dinode : Dev → BitVec 16 → DInode
  indirect : Dev → Block → Nat → BitVec 16
  zbit : Dev → Nat → Bool
  time : Nat
  finished : Nat → Nat → Bool

/-- Why a task goes no further. -/
inductive Stop where
  | ownLock
  | starved
  | panic
  | crowded
  | fuel
  deriving DecidableEq

abbrev Out (α : Type) := Except Stop α

namespace State

variable (s : State)

def modify (b : Nat) (f : Head → Head) : State :=
  { s with head := Function.update s.head b (f (s.head b)) }

def setInode (i : Nat) (h : MInode) : State := { s with inode := Function.update s.inode i h }

end State

/-! ## Waiting for a transfer -/

/-- A transfer is complete, if there was one. -/
def Head.release (h : Head) : Head := { h with lock := false, uptodate := h.uptodate || h.lock }

/-- Transfers are completed while the task could sleep. -/
def State.tick (s : State) : State :=
  { s with
    time := s.time + 1
    head := fun b => if s.finished s.time b then (s.head b).release else s.head b }

/-- `wait_buffer_unlock`. -/
def waitBufferUnlock (b : Nat) (s : State) : State := s.tick.modify b Head.release

/-- `ll_rw_block`, with `WRITE` or `READ`. The task may sleep for a free request. -/
def llRwBlock (write : Bool) (b : Nat) (s : State) : State :=
  let s := waitBufferUnlock b s
  let h := s.head b
  if (write && !h.dirt) || (!write && h.uptodate) then s
  else s.tick.modify b fun h => { h with lock := true, dirt := false }

/-! ## `buffer.c` -/

/-- `find_buffer`. -/
def findBuffer (s : State) (dev : Dev) (block : Block) : Option Nat :=
  (List.range s.nr).find? fun b => (s.head b).dev == dev && (s.head b).block == block

/-- `get_hash_table`. -/
def getHashTable : Nat → Dev → Block → State → Out (Option Nat × State)
  | 0, _, _, _ => .error .fuel
  | fuel + 1, dev, block, s =>
    match findBuffer s dev block with
    | none => .ok (none, s)
    | some b =>
      let s := waitBufferUnlock b (s.modify b fun h => { h with count := h.count + 1 })
      if (s.head b).dev = dev ∧ (s.head b).block = block then .ok (some b, s)
      else getHashTable fuel dev block (s.modify b fun h => { h with count := h.count - 1 })

/-- `BADNESS`. -/
def badness (h : Head) : Nat := 2 * h.dirt.toNat + h.lock.toNat

/-- The loop of `getblk` over the ring: the best unused buffer so far, and the rest of the ring. -/
def scanFree (s : State) : Option Nat → List Nat → Option Nat
  | best, [] => best
  | best, tmp :: ring =>
    if (s.head tmp).count ≠ 0 then scanFree s best ring
    else if best.all fun b => badness (s.head tmp) < badness (s.head b) then
      if badness (s.head tmp) = 0 then some tmp else scanFree s (some tmp) ring
    else scanFree s best ring

/-- The task holds the lock of an inode. -/
def State.holdsLock (s : State) : Bool := (List.range 32).any fun i => (s.inode i).lock

/-- No unreferenced buffer, or only dirty ones while the task holds the lock of an inode. -/
def State.crowded (s : State) : Bool :=
  s.free.all fun b => decide ((s.head b).count ≠ 0) || (s.holdsLock && (s.head b).dirt)

/-- `while (bh->b_dirt)` of `getblk`; the answer is whether it goes to `repeat`. -/
def cleanLoop (syncDev : Dev → State → Out State) (b : Nat) : Nat → State → Out (Bool × State)
  | 0, _ => .error .fuel
  | fuel + 1, s =>
    if (s.head b).dirt then
      (syncDev (s.head b).dev s).bind fun s =>
        let s := waitBufferUnlock b s
        if (s.head b).count ≠ 0 then .ok (true, s) else cleanLoop syncDev b fuel s
    else .ok (false, s)

/-- The end of `getblk`: the buffer gets a new identity and goes to the end of the ring. -/
def take (b : Nat) (dev : Dev) (block : Block) (s : State) : State :=
  let s := s.modify b fun h =>
    { h with dev := dev, block := block, count := 1, dirt := false, uptodate := false }
  { s with free := s.free.erase b ++ [b] }

/-- `getblk` from the wait for the chosen buffer on; `again` is `goto repeat`. -/
def claimBuffer (syncDev : Dev → State → Out State) (again : State → Out (Nat × State)) (fuel b : Nat)
    (dev : Dev) (block : Block) (s : State) : Out (Nat × State) :=
  let s := waitBufferUnlock b s
  if (s.head b).count ≠ 0 then again s
  else (cleanLoop syncDev b fuel s).bind fun (full, s) =>
    if full || (findBuffer s dev block).isSome then again s else .ok (b, take b dev block s)

/-- `getblk`. -/
def getblk (watch : Bool) (syncDev : Dev → State → Out State) :
    Nat → Dev → Block → State → Out (Nat × State)
  | 0, _, _, _ => .error .fuel
  | fuel + 1, dev, block, s =>
    (getHashTable fuel dev block s.tick).bind fun (found, s) =>
      match found with
      | some b => .ok (b, s)
      | none =>
        if watch && s.crowded then .error .crowded
        else
          match scanFree s none s.free with
          | none => .error .starved
          | some b => claimBuffer syncDev (getblk watch syncDev fuel dev block) fuel b dev block s

/-- `brelse`. -/
def brelse (b : Nat) (s : State) : Out State :=
  let s := waitBufferUnlock b s
  if (s.head b).count = 0 then .error .panic
  else .ok (s.modify b fun h => { h with count := h.count - 1 })

/-- `bread`. -/
def bread (watch : Bool) (syncDev : Dev → State → Out State) (fuel : Nat) (dev : Dev) (block : Block)
    (s : State) : Out (Nat × State) :=
  (getblk watch syncDev fuel dev block s).bind fun (b, s) =>
    if (s.head b).uptodate then .ok (b, s)
    else .ok (b, waitBufferUnlock b (llRwBlock false b s))

/-! ## `super.c` -/

/-- `check_in_superb`. -/
def checkInSuperb (dev : Dev) (s : State) : Out (Option SuperBlock) :=
  if dev = 0 then .ok none
  else
    match (List.range 8).find? fun k => (s.super k).dev == dev with
    | none => .ok none
    | some k => if (s.super k).lock then .error .ownLock else .ok (some (s.super k))

/-! ## `inode.c` -/

/-- The block of an inode; `INODES_PER_BLOCK` is unsigned, and so is the division. -/
def SuperBlock.inodeBlock (sb : SuperBlock) (num : BitVec 16) : Block :=
  2 + sb.imapBlocks.zeroExtend 32 + sb.zmapBlocks.zeroExtend 32 + (num.zeroExtend 32 - 1) / 32

/-- The end of `write_inode`: the inode goes into its block. -/
def storeInode (i b : Nat) (s : State) : State :=
  let h := s.inode i
  { (s.modify b fun h => { h with dirt := true }).setInode i { h with dirt := false } with
    dinode := Function.update s.dinode h.dev (Function.update (s.dinode h.dev) h.num h.disk) }

def unlockInode (i : Nat) (s : State) : State := s.setInode i { s.inode i with lock := false }

/-- `write_inode`. -/
def writeInode (watch : Bool) (syncDev : Dev → State → Out State) (fuel i : Nat) (s : State) :
    Out State :=
  if (s.inode i).lock then .error .ownLock
  else
    let s := s.setInode i { s.inode i with lock := true }
    let h := s.inode i
    if h.dirt = false ∨ h.dev = 0 then .ok (unlockInode i s)
    else (checkInSuperb h.dev s).bind fun sb =>
      match sb with
      | none => .error .panic
      | some sb =>
        (bread watch syncDev fuel h.dev (sb.inodeBlock h.num) s).bind fun (b, s) =>
          (brelse b (storeInode i b s)).map (unlockInode i)

/-- `sync_inodes`. -/
def syncInodes (watch : Bool) (syncDev : Dev → State → Out State) (fuel : Nat) : State → Out State :=
  forEach (fun i s =>
    -- wait_on_inode_unlock
    if (s.inode i).lock then .error .ownLock
    else if (s.inode i).dirt && !(s.inode i).pipe then writeInode watch syncDev fuel i s
    else .ok s) (List.range 32)

/-! ## `sync_dev` and `sys_sync` -/

/-- One buffer in the loop of `sync_dev`. -/
def syncBuffer (dev : Dev) (s : State) (b : Nat) : State :=
  if (s.head b).dev ≠ dev then s
  else
    let s := waitBufferUnlock b s
    if (s.head b).dev = dev ∧ (s.head b).dirt then llRwBlock true b s else s

/-- The loop of `sync_dev`. -/
def syncBuffers (dev : Dev) (s : State) : State := (List.range s.nr).foldl (syncBuffer dev) s

/-- `sync_dev`. -/
def syncDev (watch : Bool) : Nat → Dev → State → Out State
  | 0, _, _ => .error .fuel
  | fuel + 1, dev, s =>
    (syncInodes watch (syncDev watch fuel) fuel (syncBuffers dev s)).map (syncBuffers dev)

/-- The loop of `sys_sync`. -/
def syncAll (s : State) : State :=
  (List.range s.nr).foldl (fun s b =>
    let s := waitBufferUnlock b s
    if (s.head b).dirt then llRwBlock true b s else s) s

/-- `sys_sync`. -/
def sysSync (watch : Bool) (fuel : Nat) (s : State) : Out State :=
  (syncInodes watch (syncDev watch fuel) fuel s).map syncAll

end Linux011.WriteBack
