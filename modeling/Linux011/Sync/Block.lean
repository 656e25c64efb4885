import Linux011.Buffer.Coherence

/-!
# One task in the buffer cache

While a task is in the kernel nobody else runs, so the functions of `buffer.c` are functions of the
cache here, and only the drivers come in between. `irq` lists what they do: each time the task waits,
and each time it sleeps, the requests of the next entry are finished. The results hold for all lists,
so it does not matter when a request is finished. Every transfer succeeds.

A task that sleeps on something that only another task could change does not come back, and neither
does one that has come to a panic: the function returns nothing. `fuel` bounds the rounds of the loops
that start again, and how deep `getblk` and `sync_dev` call each other.
-/

namespace Linux011.Sync

open Buffer

/-! ## Data -/

/-- `struct m_inode`, as far as `sync_inodes` and `write_inode` read it. -/
structure MInode where
  dev : Dev
  num : BitVec 16
  dirt : Bool
  pipe : Bool
  lock : Bool
  /-- The 32 bytes of `struct d_inode`. -/
  image : Nat → BitVec 8

/-- `struct super_block`, as far as `write_inode` reads it. -/
structure SuperBlock where
  imapBlocks : BitVec 16
  zmapBlocks : BitVec 16

structure Sys where
  cache : Cache
  inode : Nat → MInode
  /-- The super block of a device, `check_in_superb`. -/
  super : Dev → Option SuperBlock
  irq : List (List Nat)

/-! ## The drivers -/

/-- A request of the table is finished. -/
def finish (c : Cache) (i : Nat) : Cache :=
  match c.request i with
  | some r => c.endRequest i r true
  | none => c

def finishAll (c : Cache) (is : List Nat) : Cache := is.foldl finish c

/-- `while (p) sleep_on(..)`. -/
def sleepLoop (p : Cache → Bool) : List (List Nat) → Cache → Option (Cache × List (List Nat))
  | irq, c =>
    if p c then
      match irq with
      | [] => none
      | is :: irq => sleepLoop p irq (finishAll c is)
    else some (c, irq)

def Sys.sleepWhile (p : Cache → Bool) (s : Sys) : Option Sys :=
  (sleepLoop p s.irq s.cache).map fun r => { s with cache := r.1, irq := r.2 }

/-- What the drivers do while the task runs. -/
def Sys.interrupt (s : Sys) : Sys :=
  match s.irq with
  | [] => s
  | is :: irq => { s with cache := finishAll s.cache is, irq := irq }

/-! ## `ll_rw_blk.c` -/

/-- `wait_buffer_unlock`. -/
def waitBufferUnlock (bh : Nat) (s : Sys) : Option Sys :=
  s.interrupt.sleepWhile fun c => (c.head bh).lock

/-- The end of `make_request`, from `repeat` on. -/
def findRequest (cmd : Cmd) (bh : Nat) (s : Sys) : Option Sys :=
  (s.sleepWhile fun c => (emptyRequest c (requestLimit cmd)).isNone).bind fun s =>
    (emptyRequest s.cache (requestLimit cmd)).map fun i =>
      { s with cache := s.cache.addRequest i cmd bh }

/-- `ll_rw_block`, with `READ` or `WRITE`. -/
def llRwBlock (ramdisk : Bool) (cmd : Cmd) (bh : Nat) (s : Sys) : Option Sys :=
  if hasDriver ramdisk (s.cache.head bh).dev then
    -- lock_buffer
    (waitBufferUnlock bh s).bind fun s =>
      if (cmd = .write ∧ (s.cache.head bh).dirt = false) ∨
          (cmd = .read ∧ (s.cache.head bh).uptodate) then some s
      else findRequest cmd bh
        { s with cache := s.cache.modify bh fun h => { h with lock := true } }
  else some s

/-! ## `buffer.c` -/

/-- `get_hash_table`. -/
def getHashTable : Nat → Dev → Block → Sys → Option (Option Nat × Sys)
  | 0, _, _, _ => none
  | fuel + 1, dev, block, s =>
    match findBuffer s.cache dev block with
    | none => some (none, s)
    | some bh =>
      (waitBufferUnlock bh { s with cache := s.cache.hold bh }).bind fun s =>
        if (s.cache.head bh).Is dev block then some (some bh, s)
        else getHashTable fuel dev block { s with cache := s.cache.drop bh }

/-- `while (bh->b_dirt)` of `getblk`; the answer is whether it goes to `repeat`. -/
def cleanLoop (syncDev : Dev → Sys → Option Sys) (bh : Nat) : Nat → Sys → Option (Bool × Sys)
  | 0, _ => none
  | fuel + 1, s =>
    if (s.cache.head bh).dirt then
      (syncDev (s.cache.head bh).dev s).bind fun s => (waitBufferUnlock bh s).bind fun s =>
        if (s.cache.head bh).count ≠ 0 then some (true, s) else cleanLoop syncDev bh fuel s
    else some (false, s)

/-- `getblk`. When no buffer is free the task sleeps on `buffer_wait`; it may be woken for nothing. -/
def getblk (syncDev : Dev → Sys → Option Sys) : Nat → Dev → Block → Sys → Option (Nat × Sys)
  | 0, _, _, _ => none
  | fuel + 1, dev, block, s =>
    (getHashTable fuel dev block s.interrupt).bind fun (found, s) =>
      match found with
      | some bh => some (bh, s)
      | none =>
        match scanFree s.cache none s.cache.freeList with
        | none => getblk syncDev fuel dev block s.interrupt
        | some bh => (waitBufferUnlock bh s).bind fun s =>
          if (s.cache.head bh).count ≠ 0 then getblk syncDev fuel dev block s
          else (cleanLoop syncDev bh fuel s).bind fun (again, s) =>
            if again ∨ (findBuffer s.cache dev block).isSome then getblk syncDev fuel dev block s
            else some (bh, { s with cache := take s.cache bh dev block })

/-- `brelse`. -/
def brelse (bh : Nat) (s : Sys) : Option Sys :=
  (waitBufferUnlock bh s).bind fun s =>
    if (s.cache.head bh).count = 0 then none else some { s with cache := s.cache.drop bh }

/-- `bread`. -/
def bread (ramdisk : Bool) (syncDev : Dev → Sys → Option Sys) (fuel : Nat) (dev : Dev) (block : Block)
    (s : Sys) : Option (Option Nat × Sys) :=
  (getblk syncDev fuel dev block s).bind fun (bh, s) =>
    if (s.cache.head bh).uptodate then some (some bh, s)
    else (llRwBlock ramdisk .read bh s).bind fun s => (waitBufferUnlock bh s).bind fun s =>
      if (s.cache.head bh).uptodate then some (some bh, s)
      else (brelse bh s).map fun s => (none, s)

/-- `ll_rw_block` with `READA`: it does not wait for the buffer, nor for a request. -/
def readAhead (ramdisk : Bool) (bh : Nat) (s : Sys) : Sys :=
  let h := s.cache.head bh
  if hasDriver ramdisk h.dev = false ∨ h.lock ∨ h.uptodate then s
  else
    match emptyRequest s.cache (requestLimit .read) with
    | some i =>
      { s with cache := (s.cache.modify bh fun h => { h with lock := true }).addRequest i .read bh }
    | none => s

/-- The loop of `breada`. -/
def readAheads (ramdisk : Bool) (syncDev : Dev → Sys → Option Sys) (fuel : Nat) (dev : Dev) :
    List Block → Sys → Option Sys
  | [], s => some s
  | first :: rest, s =>
    (getblk syncDev fuel dev first s).bind fun (tmp, s) =>
      let s := if (s.cache.head tmp).uptodate then s else readAhead ramdisk tmp s
      readAheads ramdisk syncDev fuel dev rest { s with cache := s.cache.drop tmp }

/-- `breada`. -/
def breada (ramdisk : Bool) (syncDev : Dev → Sys → Option Sys) (fuel : Nat) (dev : Dev) (first : Block)
    (rest : List Block) (s : Sys) : Option (Option Nat × Sys) :=
  (getblk syncDev fuel dev first s).bind fun (bh, s) =>
    (if (s.cache.head bh).uptodate then some s else llRwBlock ramdisk .read bh s).bind fun s =>
      (readAheads ramdisk syncDev fuel dev rest s).bind fun s => (waitBufferUnlock bh s).bind fun s =>
        if (s.cache.head bh).uptodate then some (some bh, s)
        else (brelse bh s).map fun s => (none, s)

/-! ## `block_dev.c` -/

/-- A block with bytes stored from an offset on. -/
def overlay (offset : Nat) (bytes : List (BitVec 8)) (data : Data) : Data := fun off =>
  if offset ≤ off ∧ off < offset + bytes.length then bytes.getD (off - offset) 0 else data off

/-- The loop of `block_write` from block `block` on: what it returns, and `*pos`. The user's bytes can be
read without a fault. -/
def blockWriteFrom (ramdisk : Bool) (syncDev : Dev → Sys → Option Sys) (fuel : Nat) (dev : Dev) :
    Nat → Block → Nat → List (BitVec 8) → Nat → Sys → Option (Int × Nat × Sys)
  | 0, _, _, _, _, _ => none
  | n + 1, block, pos, bytes, written, s =>
    if bytes = [] then some (written, pos, s)
    else
      let chunk := bytes.take (1024 - pos % 1024)
      (if chunk.length = 1024 then
        (getblk syncDev fuel dev block s).map fun (bh, s) => (some bh, s)
      else breada ramdisk syncDev fuel dev block [block + 1, block + 2] s).bind fun (found, s) =>
        match found with
        | none => some (if written = 0 then -5 else written, pos, s)
        | some bh =>
          (brelse bh { s with cache := s.cache.store bh (overlay (pos % 1024) chunk) }).bind
            (blockWriteFrom ramdisk syncDev fuel dev n (block + 1) (pos + chunk.length)
              (bytes.drop chunk.length) (written + chunk.length))

/-- `block_write`. Its `*pos` is a signed `long`, and so is the shift: from 2 GB on the first block is
negative. -/
def blockWrite (ramdisk : Bool) (syncDev : Dev → Sys → Option Sys) (fuel : Nat) (dev : Dev) (n pos : Nat)
    (bytes : List (BitVec 8)) (written : Nat) (s : Sys) : Option (Int × Nat × Sys) :=
  blockWriteFrom ramdisk syncDev fuel dev n ((BitVec.ofNat 32 pos).sshiftRight 10) pos bytes written s

/-- `block_read`: what it returns, `*pos`, and what it has put in the user's buffer, where it can write
without a fault. Its `*pos` is an `unsigned long`. -/
def blockRead (ramdisk : Bool) (syncDev : Dev → Sys → Option Sys) (fuel : Nat) (dev : Dev) :
    Nat → Nat → Nat → List (BitVec 8) → Sys → Option (Int × Nat × List (BitVec 8) × Sys)
  | 0, _, _, _, _ => none
  | n + 1, pos, count, buf, s =>
    if count = 0 then some (buf.length, pos, buf, s)
    else
      let block : Block := BitVec.ofNat 32 (pos / 1024)
      let chars := min (1024 - pos % 1024) count
      (breada ramdisk syncDev fuel dev block [block + 1, block + 2] s).bind fun (found, s) =>
        match found with
        | none => some (if buf = [] then -5 else buf.length, pos, buf, s)
        | some bh =>
          let chunk := (List.range chars).map fun i => (s.cache.head bh).data (pos % 1024 + i)
          (brelse bh s).bind
            (blockRead ramdisk syncDev fuel dev n (pos + chars) (count - chars) (buf ++ chunk))

/-! ## `inode.c` -/

/-- `INODES_PER_BLOCK` is unsigned, and so is the division. -/
def MInode.index (h : MInode) : BitVec 32 := h.num.zeroExtend 32 - 1

/-- The block of an inode on its device. -/
def MInode.block (h : MInode) (sb : SuperBlock) : Block :=
  2 + sb.imapBlocks.zeroExtend 32 + sb.zmapBlocks.zeroExtend 32 + h.index / 32

/-- Its place in the block. -/
def MInode.slot (h : MInode) : Nat := (h.index % 32).toNat

/-- A block with the inode stored at its place. -/
def MInode.write (h : MInode) (data : Data) : Data := fun off =>
  if off / 32 = h.slot then h.image (off % 32) else data off

/-- `check_in_superb`. -/
def Sys.checkInSuperb (s : Sys) (dev : Dev) : Option SuperBlock :=
  if dev = 0 then none else s.super dev

def Sys.setInode (s : Sys) (i : Nat) (h : MInode) : Sys :=
  { s with inode := Function.update s.inode i h }

@[simp] theorem setInode_self (s : Sys) (i : Nat) (h : MInode) : (s.setInode i h).inode i = h :=
  Function.update_self ..

theorem setInode_other (s : Sys) {i j : Nat} (h : MInode) (hj : j ≠ i) :
    (s.setInode i h).inode j = s.inode j := Function.update_of_ne hj ..

/-- `write_inode`. -/
def writeInode (ramdisk : Bool) (syncDev : Dev → Sys → Option Sys) (fuel i : Nat) (s : Sys) :
    Option Sys :=
  let h := s.inode i
  if h.lock then none
  else if h.dirt = false ∨ h.dev = 0 then some s
  else
    match s.checkInSuperb h.dev with
    | none => none
    | some sb =>
      (bread ramdisk syncDev fuel h.dev (h.block sb) (s.setInode i { h with lock := true })).bind
        fun (found, s) =>
          match found with
          | none => none
          | some bh =>
            (brelse bh { s with cache := s.cache.store bh h.write }).map fun s =>
              s.setInode i { h with dirt := false }

/-- A loop over a table, from its first entry on. -/
def forEach (f : Nat → Sys → Option Sys) : List Nat → Sys → Option Sys
  | [], s => some s
  | i :: is, s => (f i s).bind (forEach f is)

/-- `sync_inodes`. -/
def syncInodes (ramdisk : Bool) (syncDev : Dev → Sys → Option Sys) (fuel : Nat) : Sys → Option Sys :=
  forEach (fun i s =>
    -- wait_on_inode_unlock
    if (s.inode i).lock then none
    else if (s.inode i).dirt ∧ (s.inode i).pipe = false then writeInode ramdisk syncDev fuel i s
    else some s) (List.range 32)

/-! ## `sync_dev` and `sys_sync` -/

/-- The loop of `sync_dev` over the buffers. -/
def syncBuffers (ramdisk : Bool) (dev : Dev) (s : Sys) : Option Sys :=
  forEach (fun bh s =>
    if (s.cache.head bh).dev ≠ dev then some s
    else (waitBufferUnlock bh s).bind fun s =>
      if (s.cache.head bh).dev = dev ∧ (s.cache.head bh).dirt then llRwBlock ramdisk .write bh s
      else some s) (List.range s.cache.nr) s

/-- `sync_dev`. -/
def syncDev (ramdisk : Bool) : Nat → Dev → Sys → Option Sys
  | 0, _, _ => none
  | fuel + 1, dev, s =>
    (syncBuffers ramdisk dev s).bind fun s =>
      (syncInodes ramdisk (syncDev ramdisk fuel) fuel s).bind fun s => syncBuffers ramdisk dev s

/-- `sys_sync`. -/
def sysSync (ramdisk : Bool) (fuel : Nat) (s : Sys) : Option Sys :=
  (syncInodes ramdisk (syncDev ramdisk fuel) fuel s).bind fun s =>
    forEach (fun bh s => (waitBufferUnlock bh s).bind fun s =>
      if (s.cache.head bh).dirt then llRwBlock ramdisk .write bh s else some s)
      (List.range s.cache.nr) s

end Linux011.Sync
