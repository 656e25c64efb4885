import Linux011.Lib.Machine
import Mathlib.Logic.Function.Basic
import Mathlib.Algebra.Group.Nat.Defs

/-!
# The bucket allocator (`lib/malloc.c`)

Memory is one function from addresses to cells: longs at the multiples of 4, and the two shorts of a
`struct bucket_desc` at its offsets 12 and 14. Descriptors and objects stand in the same memory, and
nothing but a proof keeps them apart. A null pointer is 0.

What `get_free_page` answers is an argument of the call that may ask for it, 0 when there is no page.
`pages` are the pages that were taken from it and not given back, `descPages` those among them that
`init_bucket_desc` took. The contents of a fresh page are whatever was there, since nothing relies on
them. Interrupts are off where it matters, so calls do not mix.
-/

namespace Linux011.Malloc

structure Heap where
  mem : Nat → Nat
  /-- `bucket_dir[i].chain` -/
  chain : Nat → Nat
  /-- `free_bucket_desc` -/
  freeDesc : Nat
  pages : List Nat
  descPages : List Nat

/-- How a call ends that does not return. -/
inductive Fault where
  | panic (msg : String)
  /-- a list that runs in a circle -/
  | hang
  deriving DecidableEq

/-- The sizes of `bucket_dir`, without the end marker. -/
def sizes : List Nat := [16, 32, 64, 128, 256, 512, 1024, 2048, 4096]

/-- `bucket_dir[i].size`. -/
def size (i : Nat) : Nat := sizes.getD i 0

/-- A list that is longer than the address space does not end. -/
def fuel : Nat := 2 ^ 32

namespace Heap

variable (h : Heap)

/-! ## The fields of a descriptor -/

def page (d : Nat) : Nat := h.mem d

def next (d : Nat) : Nat := h.mem (d + 4)

def freeptr (d : Nat) : Nat := h.mem (d + 8)

def refcnt (d : Nat) : Nat := h.mem (d + 12)

def bucketSize (d : Nat) : Nat := h.mem (d + 14)

def store (a w : Nat) : Heap := { h with mem := Function.update h.mem a w }

/-! ## `init_bucket_desc` -/

/-- `for (…; i > 1; i--)`: `i` cells, each linked to the one a stride behind, and after the loop the
last one to `last`. -/
@[irreducible] def linkRun (stride off last : Nat) : Nat → Nat → (Nat → Nat) → Nat → Nat
  | 0, a, mem => Function.update mem (a + off) last
  | i + 1, a, mem => linkRun stride off last i (a + stride) (Function.update mem (a + off) (a + stride))

/-- `init_bucket_desc`, where `get_free_page` answers `p`. -/
def initBucketDesc (p : Nat) : Except Fault Heap :=
  if p = 0 then .error (.panic "Out of memory in init_bucket_desc()")
  else .ok
    { h with
      mem := linkRun 16 4 h.freeDesc 255 p h.mem
      freeDesc := p
      pages := p :: h.pages
      descPages := p :: h.descPages }

/-! ## `my_malloc` -/

/-- The first loop: the bucket for a request. -/
def findDir (len : Nat) : Option Nat := (List.range 9).find? fun i => len ≤ size i

/-- The second loop: the first descriptor with a free object, 0 if there is none. -/
def findFree : Nat → Nat → Except Fault Nat
  | 0, _ => .error .hang
  | n + 1, bdesc =>
    if bdesc = 0 then .ok 0
    else if h.freeptr bdesc ≠ 0 then .ok bdesc
    else findFree n (h.next bdesc)

/-- A descriptor from the free list becomes that of the page `cp`, all of it free. -/
def newBucket (i cp : Nat) : Except Fault (Nat × Heap) :=
  let bdesc := h.freeDesc
  let h := { h with freeDesc := h.next bdesc }
  let h := h.store (bdesc + 12) 0
  let h := h.store (bdesc + 14) (size i)
  let h := (h.store (bdesc + 8) cp).store bdesc cp
  if cp = 0 then .error (.panic "Out of memory in kernel malloc()")
  else
    let h := { h with
      pages := cp :: h.pages
      mem := linkRun (size i) 0 0 (4096 / size i - 1) cp h.mem }
    let h := h.store (bdesc + 4) (h.chain i)
    .ok (bdesc, { h with chain := Function.update h.chain i bdesc })

/-- The last lines: the first free object is handed out. -/
def takeObject (bdesc : Nat) : Nat × Heap :=
  let retval := h.freeptr bdesc
  let h := h.store (bdesc + 8) (h.mem retval)
  (retval, h.store (bdesc + 12) ((h.refcnt bdesc + 1) % 65536))

/-- `my_malloc`; `descPage` and `bucketPage` are the answers of `get_free_page`. -/
def myMalloc (len descPage bucketPage : Nat) : Except Fault (Nat × Heap) :=
  match findDir len with
  | none => .error (.panic "malloc: bad arg")
  | some i => do
    let bdesc ← h.findFree fuel (h.chain i)
    if bdesc ≠ 0 then return h.takeObject bdesc
    else
      let h ← if h.freeDesc = 0 then h.initBucketDesc descPage else pure h
      let (bdesc, h) ← h.newBucket i bucketPage
      return h.takeObject bdesc

/-! ## `free_s` -/

/-- The inner loop: the descriptor of the page, and the one before it. -/
def findPage (page : Nat) : Nat → Nat → Nat → Except Fault (Option (Nat × Nat))
  | 0, _, _ => .error .hang
  | n + 1, prev, bdesc =>
    if bdesc = 0 then .ok none
    else if h.page bdesc = page then .ok (some (prev, bdesc))
    else findPage page n bdesc (h.next bdesc)

/-- The outer loop over `bucket_dir`: which chain, and what was found in it. -/
def search (page sz : Nat) : List Nat → Except Fault (Nat × Nat × Nat)
  | [] => .error (.panic "Bad address passed to kernel free_s()")
  | i :: is =>
    if size i < sz then search page sz is
    else do
      match ← h.findPage page fuel 0 (h.chain i) with
      | some (prev, bdesc) => return (i, prev, bdesc)
      | none => search page sz is

/-- The loop that looks for `prev` once more. -/
def findPrev (bdesc : Nat) : Nat → Nat → Except Fault Nat
  | 0, _ => .error .hang
  | n + 1, prev =>
    if prev = 0 then .ok 0
    else if h.next prev = bdesc then .ok prev
    else findPrev bdesc n (h.next prev)

/-- `free_page`. -/
def freePage (p : Nat) : Except Fault Heap :=
  if p ∈ h.pages then .ok { h with pages := h.pages.erase p }
  else .error (.panic "trying to free free page")

/-- The descriptor is taken out of its chain. -/
def unlink (i prev bdesc : Nat) : Except Fault Heap :=
  if prev ≠ 0 then .ok (h.store (prev + 4) (h.next bdesc))
  else if h.chain i ≠ bdesc then .error (.panic "malloc bucket chains corrupted")
  else .ok { h with chain := Function.update h.chain i (h.next bdesc) }

/-- `refcnt == 0`: the page is given back. -/
def dropBucket (i prev bdesc : Nat) : Except Fault Heap := do
  let prev ← if (prev ≠ 0 ∧ h.next prev ≠ bdesc) ∨ (prev = 0 ∧ h.chain i ≠ bdesc)
    then h.findPrev bdesc fuel (h.chain i) else pure prev
  let h ← h.unlink i prev bdesc
  let h ← h.freePage (h.page bdesc)
  let h := h.store (bdesc + 4) h.freeDesc
  return { h with freeDesc := bdesc }

/-- The object goes to the front of the free list of its page. -/
def putObject (obj bdesc : Nat) : Heap :=
  let h := h.store obj (h.freeptr bdesc)
  let h := h.store (bdesc + 8) obj
  h.store (bdesc + 12) ((h.refcnt bdesc + 65535) % 65536)

/-- `free_s`; `obj & 0xfffff000` is the page of the object. -/
def freeS (obj sz : Nat) : Except Fault Heap := do
  let (i, prev, bdesc) ← h.search (obj / 4096 * 4096) sz (List.range 9)
  let h := h.putObject obj bdesc
  if h.refcnt bdesc = 0 then h.dropBucket i prev bdesc else return h

end Heap

/-! ## Clients -/

/-- The allocator, and the objects that are allocated with the lengths asked for. -/
structure State where
  heap : Heap
  live : List (Nat × Nat)

inductive Event where
  | malloc (len descPage bucketPage : Nat)
  | free (obj sz : Nat)
  /-- a store of a client to an object that it has -/
  | write (a w : Nat)

/-- What `get_free_page` may answer: a page that nobody has, or 0. -/
def Fresh (h : Heap) (p : Nat) : Prop :=
  p = 0 ∨ (p % 4096 = 0 ∧ p < 2 ^ 32 ∧ p ∉ h.pages)

/-- What clients do: they ask for 1 to 4096 bytes, free what they have, with its length or with 0,
and store to what they have. -/
def Allowed (s : State) : Event → Prop
  | .malloc len descPage bucketPage => 1 ≤ len ∧ len ≤ 4096 ∧ Fresh s.heap descPage ∧
      Fresh s.heap bucketPage ∧ (descPage = bucketPage → descPage = 0)
  | .free obj sz => ∃ x ∈ s.live, x.1 = obj ∧ (sz = 0 ∨ sz = x.2)
  | .write a _ => ∃ x ∈ s.live, x.1 ≤ a ∧ a < x.1 + x.2

instance (h : Heap) (p : Nat) : Decidable (Fresh h p) := inferInstanceAs (Decidable (_ ∨ _))

instance (s : State) : (e : Event) → Decidable (Allowed s e)
  | .malloc .. => inferInstanceAs (Decidable (_ ∧ _))
  | .free .. => inferInstanceAs (Decidable (∃ x ∈ s.live, _))
  | .write .. => inferInstanceAs (Decidable (∃ x ∈ s.live, _))

/-- One call. -/
def call (s : State) : Event → Except Fault State
  | .malloc len descPage bucketPage => do
    let (obj, h) ← s.heap.myMalloc len descPage bucketPage
    return ⟨h, (obj, len) :: s.live⟩
  | .free obj sz => do
    let h ← s.heap.freeS obj sz
    return ⟨h, s.live.eraseP fun x => x.1 = obj⟩
  | .write a w => .ok ⟨s.heap.store a w, s.live⟩

def step (s : State) (e : Event) : Option State := if Allowed s e then (call s e).toOption else none

/-- `bucket_dir` and `free_bucket_desc` as they are defined. -/
def initial (mem : Nat → Nat) : State := ⟨⟨mem, fun _ => 0, 0, [], []⟩, []⟩

end Linux011.Malloc
