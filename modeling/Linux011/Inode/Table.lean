import Mathlib.Logic.Function.Basic
import Mathlib.Data.BitVec

/-!
# The inode table (`fs/inode.c`)

The 32 entries of `inode_table` as `iget`, `iput` and `get_empty_inode` see them, with the cursor
`last_inode` and the super blocks. An entry is named by its index. The other fields of an inode
travel with it between the table and the disk; no function here looks at them.

`i_count` is an unsigned short; the references to one inode are bounded by the sizes of
`file_table`, `task` and `super_block`, a few hundred in all, so it does not wrap.
-/

namespace Linux011.Inode

/-- A device number (`i_dev`); 0 means that the entry has no identity. -/
abbrev Dev := BitVec 16

/-- An inode number (`i_num`). -/
abbrev Num := BitVec 16

/-- The file type in `i_mode`, as far as `iput` and `truncate` distinguish it. -/
inductive Mode where
  | regular
  | directory
  | block
  | other
  deriving DecidableEq

/-- `struct m_inode`, as far as the cache uses it. -/
structure MInode where
  dev : Dev
  num : Num
  mode : Mode
  nlinks : Nat
  count : Nat
  lock : Bool
  dirt : Bool
  mount : Bool

/-- The entry after `memset`. -/
def MInode.zero : MInode := ⟨0, 0, .other, 0, 0, false, false, false⟩

/-- `struct super_block`: its device and the inode it is mounted on. -/
structure SuperBlock where
  dev : Dev
  inodeMount : Option Nat

structure Table where
  inode : Nat → MInode
  /-- The index of the static `last_inode`. -/
  last : Nat
  superBlock : Nat → SuperBlock

/-- The entry carries this identity. -/
def MInode.Is (h : MInode) (dev : Dev) (num : Num) : Prop := h.dev = dev ∧ h.num = num

instance (h : MInode) (dev : Dev) (num : Num) : Decidable (h.Is dev num) :=
  inferInstanceAs (Decidable (_ ∧ _))

/-- Change one entry. -/
def Table.modify (c : Table) (i : Nat) (f : MInode → MInode) : Table :=
  { c with inode := Function.update c.inode i (f (c.inode i)) }

/-- The loop of `get_empty_inode` over the ring: where the cursor stops, and the entry found. -/
def scanEmpty (inode : Nat → MInode) : Nat → Nat → Option Nat → Nat × Option Nat
  | 0, last, found => (last, found)
  | i + 1, last, found =>
    let last := if last + 1 ≥ 32 then 0 else last + 1
    if (inode last).count = 0 then
      if (inode last).dirt = false ∧ (inode last).lock = false then (last, some last)
      else scanEmpty inode i last (some last)
    else scanEmpty inode i last found

/-- The loop of `iget` over the table: the first entry with the identity. -/
def findInode (c : Table) (dev : Dev) (num : Num) : Option Nat :=
  (List.range 32).find? fun i => (c.inode i).Is dev num

/-- The super block that is mounted on the entry. -/
def mountedOn (c : Table) (i : Nat) : Option Nat :=
  (List.range 8).find? fun k => (c.superBlock k).inodeMount = some i

/-- `get_empty_inode` clears the entry and counts its caller. -/
def Table.clear (c : Table) (i : Nat) : Table := c.modify i fun _ => { MInode.zero with count := 1 }

/-- `i_count++`. -/
def Table.hold (c : Table) (i : Nat) : Table := c.modify i fun h => { h with count := h.count + 1 }

/-- `i_count--`. -/
def Table.drop (c : Table) (i : Nat) : Table := c.modify i fun h => { h with count := h.count - 1 }

/-- `iget` gives the empty entry an identity. -/
def Table.identify (c : Table) (i : Nat) (dev : Dev) (num : Num) : Table :=
  c.modify i fun h => { h with dev := dev, num := num }

end Linux011.Inode
