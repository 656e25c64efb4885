import Linux011.WriteBack.Buffers

/-!
# The inode table over the buffer cache

`iget`, `iput` and what they call, with the inode locks. `iput` of the last reference to a file without
links frees its blocks, so `truncate` and the functions of `bitmap.c` are here too. The pages of pipes
are left out, and a null pointer counts as a panic.
-/

namespace Linux011.WriteBack

open Linux011.Lib

section

variable (watch : Bool) (fuel : Nat)

/-! ## `inode.c`: an empty inode -/

/-- The loop of `get_empty_inode`: the inode that was found, and `last_inode`. -/
def scanInodes (inode : Nat → MInode) : Nat → Nat → Option Nat → Option Nat × Nat
  | 0, last, found => (found, last)
  | n + 1, last, found =>
    let last := if last + 1 ≥ 32 then 0 else last + 1
    if (inode last).count = 0 then
      if (inode last).dirt = false ∧ (inode last).lock = false then (some last, last)
      else scanInodes inode n last (some last)
    else scanInodes inode n last found

/-- `while (inode->i_dirt)`. -/
def writeDirty (i : Nat) : Nat → State → Out State
  | 0, _ => .error .fuel
  | n + 1, s =>
    if (s.inode i).dirt then
      (writeInode watch (syncDev watch fuel) fuel i s).bind fun s =>
        if (s.inode i).lock then .error .ownLock else writeDirty i n s
    else .ok s

/-- `get_empty_inode`. -/
def getEmptyInode : Nat → State → Out (Nat × State)
  | 0, _ => .error .fuel
  | n + 1, s =>
    match scanInodes s.inode 32 s.lastInode none with
    | (none, _) => .error .panic
    | (some i, last) =>
      let s := { s with lastInode := last }
      if (s.inode i).lock then .error .ownLock
      else (writeDirty watch fuel i fuel s).bind fun s =>
        if (s.inode i).count ≠ 0 then getEmptyInode n s
        else .ok (i, s.setInode i { MInode.zero with count := 1 })

/-! ## `bitmap.c` and `truncate.c` -/

/-- The end of `free_block`: the bit of the block. -/
def clearZone (sb : SuperBlock) (dev : Dev) (block : BitVec 16) (s : State) : Out State :=
  let nr := block.toNat + 1 - sb.firstdatazone.toNat
  match sb.zmap (nr / 8192) with
  | none => .error .panic
  | some m =>
    if s.zbit dev nr = false then .error .panic
    else .ok { s.modify m fun h => { h with dirt := true } with
      zbit := Function.update s.zbit dev (Function.update (s.zbit dev) nr false) }

/-- `free_block`. -/
def freeBlock (dev : Dev) (block : BitVec 16) (s : State) : Out State :=
  (checkInSuperb dev s).bind fun sb =>
    match sb with
    | none => .error .panic
    | some sb =>
      if block.toNat < sb.firstdatazone.toNat ∨ block.toNat ≥ sb.nzones.toNat then .error .panic
      else (getHashTable fuel dev (block.zeroExtend 32) s).bind fun (found, s) =>
        match found with
        | none => clearZone sb dev block s
        | some b =>
          if (s.head b).count ≠ 1 then .ok s
          else (brelse b (s.modify b fun h => { h with dirt := false, uptodate := false })).bind
            (clearZone sb dev block)

/-- `free_ind` and `free_dind`: `each` frees what an entry of the block names. -/
def freeTable (each : BitVec 16 → State → Out State) (dev : Dev) (block : BitVec 16) (s : State) :
    Out State :=
  if block = 0 then .ok s
  else (bread watch (syncDev watch fuel) fuel dev (block.zeroExtend 32) s).bind fun (b, s) =>
    (forEach (fun k s =>
      let entry := s.indirect dev (block.zeroExtend 32) k
      if entry = 0 then .ok s else each entry s) (List.range 512) s).bind fun s =>
        (brelse b s).bind (freeBlock fuel dev block)

def freeInd (dev : Dev) : BitVec 16 → State → Out State :=
  freeTable watch fuel (freeBlock fuel dev) dev

def freeDind (dev : Dev) : BitVec 16 → State → Out State :=
  freeTable watch fuel (freeInd watch fuel dev) dev

/-- An inode without some of its zones. -/
def MInode.dropZones (h : MInode) (gone : Nat → Bool) : MInode :=
  { h with disk := { h.disk with zone := fun k => if gone k then 0 else h.disk.zone k } }

/-- `S_ISREG`, `S_ISDIR` and `S_ISBLK`. -/
def DInode.isFormat (d : DInode) (format : BitVec 16) : Bool := d.mode &&& 0o170000 == format

/-- The loop of `truncate` over the direct zones. -/
def freeDirect (i : Nat) : State → Out State :=
  forEach (fun k s =>
    let h := s.inode i
    if h.disk.zone k = 0 then .ok s
    else (freeBlock fuel h.dev (h.disk.zone k) s).map fun s =>
      s.setInode i ((s.inode i).dropZones fun j => j == k)) (List.range 7)

/-- `truncate`. -/
def truncate (i : Nat) (s : State) : Out State :=
  if (s.inode i).disk.isFormat 0o100000 || (s.inode i).disk.isFormat 0o040000 then
    (freeDirect fuel i s).bind fun s =>
      (freeInd watch fuel (s.inode i).dev ((s.inode i).disk.zone 7) s).bind fun s =>
        (freeDind watch fuel (s.inode i).dev ((s.inode i).disk.zone 8) s).map fun s =>
          s.setInode i { (s.inode i).dropZones (fun j => j == 7 || j == 8) with dirt := true }
  else .ok s

/-- `free_inode`. -/
def freeInode (i : Nat) (s : State) : Out State :=
  let h := s.inode i
  if h.dev = 0 then .ok (s.setInode i .zero)
  else if h.count > 1 ∨ h.disk.nlinks ≠ 0 then .error .panic
  else (checkInSuperb h.dev s).bind fun sb =>
    match sb with
    | none => .error .panic
    | some sb =>
      if h.num.toNat < 1 ∨ h.num.toNat > sb.ninodes.toNat then .error .panic
      else
        match sb.imap (h.num.toNat / 8192) with
        | none => .error .panic
        | some m => .ok ((s.modify m fun h => { h with dirt := true }).setInode i .zero)

/-! ## `inode.c`: `iput` and `iget` -/

def State.decCount (i : Nat) (s : State) : State :=
  s.setInode i { s.inode i with count := (s.inode i).count - 1 }

def State.incCount (i : Nat) (s : State) : State :=
  s.setInode i { s.inode i with count := (s.inode i).count + 1 }

/-- `iput` from `repeat` on. -/
def iputLoop (i : Nat) : Nat → State → Out State
  | 0, _ => .error .fuel
  | n + 1, s =>
    let h := s.inode i
    if h.count > 1 then .ok (s.decCount i)
    else if h.disk.nlinks = 0 then (truncate watch fuel i s).bind (freeInode i)
    else if h.dirt then
      (writeInode watch (syncDev watch fuel) fuel i s).bind fun s =>
        if (s.inode i).lock then .error .ownLock else iputLoop i n s
    else .ok (s.decCount i)

/-- `iput`. -/
def iput (i : Nat) (s : State) : Out State :=
  let h := s.inode i
  if h.lock then .error .ownLock
  else if h.count = 0 then .error .panic
  else if h.pipe then
    .ok (if h.count > 1 then s.decCount i
      else s.setInode i { h with count := 0, dirt := false, pipe := false })
  else if h.dev = 0 then .ok (s.decCount i)
  else if h.disk.isFormat 0o060000 then
    (syncDev watch fuel (h.disk.zone 0) s).bind fun s =>
      if (s.inode i).lock then .error .ownLock else iputLoop watch fuel i fuel s
  else iputLoop watch fuel i fuel s

/-- `read_inode`. -/
def readInode (i : Nat) (s : State) : Out State :=
  if (s.inode i).lock then .error .ownLock
  else
    let s := s.setInode i { s.inode i with lock := true }
    let h := s.inode i
    (checkInSuperb h.dev s).bind fun sb =>
      match sb with
      | none => .error .panic
      | some sb =>
        (bread watch (syncDev watch fuel) fuel h.dev (sb.inodeBlock h.num) s).bind fun (b, s) =>
          (brelse b (s.setInode i { s.inode i with disk := s.dinode h.dev h.num })).map (unlockInode i)

/-- `iget` with the empty inode: the loop over the table, which begins again after a mount point. -/
def igetLoop (empty : Nat) : Nat → Dev → BitVec 16 → State → Out (Nat × State)
  | 0, _, _, _ => .error .fuel
  | n + 1, dev, nr, s =>
    match (List.range 32).find? fun i => (s.inode i).dev == dev && (s.inode i).num == nr with
    | some i =>
      if (s.inode i).lock then .error .ownLock
      else
        let s := s.incCount i
        if (s.inode i).mount then
          match (List.range 8).find? fun k => (s.super k).inodeMount == some i with
          | none => (iput watch fuel empty s).map fun s => (i, s)
          | some k => (iput watch fuel i s).bind fun s => igetLoop empty n (s.super k).dev 1 s
        else (iput watch fuel empty s).map fun s => (i, s)
    | none =>
      (readInode watch fuel empty (s.setInode empty { s.inode empty with dev := dev, num := nr })).map
        fun s => (empty, s)

/-- `iget`. -/
def iget (dev : Dev) (nr : BitVec 16) (s : State) : Out (Nat × State) :=
  if dev = 0 then .error .panic
  else (getEmptyInode watch fuel fuel s).bind fun (empty, s) =>
    igetLoop watch fuel empty fuel dev nr s

/-! ## The calls -/

inductive Call where
  | iget (dev : Dev) (nr : BitVec 16)
  | iput (i : Fin 32)
  | getEmptyInode
  | readInode (i : Fin 32)
  | writeInode (i : Fin 32)
  | syncInodes
  | syncDev (dev : Dev)
  | sysSync

/-- A call, as far as the state. -/
def Call.run (c : Call) (s : State) : Out State :=
  match c with
  | .iget dev nr => (WriteBack.iget watch fuel dev nr s).map Prod.snd
  | .iput i => WriteBack.iput watch fuel i s
  | .getEmptyInode => (WriteBack.getEmptyInode watch fuel fuel s).map Prod.snd
  | .readInode i => WriteBack.readInode watch fuel i s
  | .writeInode i => WriteBack.writeInode watch (WriteBack.syncDev watch fuel) fuel i s
  | .syncInodes => WriteBack.syncInodes watch (WriteBack.syncDev watch fuel) fuel s
  | .syncDev dev => WriteBack.syncDev watch fuel dev s
  | .sysSync => WriteBack.sysSync watch fuel s

end

end Linux011.WriteBack
