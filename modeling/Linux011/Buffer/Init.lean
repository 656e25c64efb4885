import Linux011.Buffer.Queues

/-!
# Where the buffers are (`buffer_init` in `fs/buffer.c`, `init/main.c`)

The memory from the end of the kernel to `buffer_end` is for buffers. The buffer heads lie one behind the
other from its low end upwards; each gets the highest block of 1024 bytes that is left below the others.
At 1MB the blocks go on below 640KB, since the screen and the BIOS are between. The loop ends when the next
block would be in the next buffer head. Then the ends of the list become a ring.

Here a buffer head has its address, and pointers wrap. How far the loop comes is a matter of numbers
(`Fits`), and where the blocks are is a function of how many there were before (`dataAddr`); the regions
that result do not meet (`buffer_init_layout`). Only the blocks avoid the hole; nothing keeps the heads out.
In `Queues.lean` the same heads are known by their indices (`Laid.shows`).
-/

namespace Linux011.Buffer.Init

abbrev Addr := BitVec 32

/-! ## The code -/

/-- `struct buffer_head`. -/
structure BufferHead where
  data : Addr
  blocknr : Block
  dev : Dev
  uptodate : BitVec 8
  dirt : BitVec 8
  count : BitVec 8
  lock : BitVec 8
  wait : Addr
  prev : Addr
  next : Addr
  prevFree : Addr
  nextFree : Addr

/-- `h-1` and `h+1`; `sizeof (struct buffer_head)` is 36. -/
def below (h : Addr) : Addr := h - 36
def above (h : Addr) : Addr := h + 36

/-- What the loop stores at `h`. -/
def BufferHead.fill (h b : Addr) (old : BufferHead) : BufferHead :=
  { old with
    dev := 0, dirt := 0, count := 0, lock := 0, uptodate := 0
    wait := 0, next := 0, prev := 0
    data := b
    prevFree := below h
    nextFree := above h }

/-- The variables of the loop, the buffer heads in the memory, and `NR_BUFFERS`. -/
structure Pass where
  h : Addr
  b : Addr
  head : Addr → BufferHead
  nr : Nat

/-- The body of the loop. -/
def Pass.turn (s : Pass) : Pass where
  head := Function.update s.head s.h ((s.head s.h).fill s.h s.b)
  h := above s.h
  nr := s.nr + 1
  b := if s.b = 0x100000 then 0xA0000 else s.b

/-- The loop; nothing if it takes too long. -/
def loop : Nat → Pass → Option Pass
  | 0, _ => none
  | fuel + 1, s =>
    let s := { s with b := s.b - 1024 }
    if above s.h ≤ s.b then loop fuel s.turn else some s

structure Memory where
  head : Addr → BufferHead
  nr : Nat
  freeList : Addr
  hashTable : Nat → Addr

/-- What `buffer_init` does behind the loop. -/
def Pass.close (start : Addr) (hashTable : Nat → Addr) (s : Pass) : Memory :=
  let h := below s.h
  let freeList := start
  let head := Function.update s.head freeList { s.head freeList with prevFree := h }
  let head := Function.update head h { head h with nextFree := freeList }
  { head, nr := s.nr, freeList, hashTable := fun i => if i < 307 then 0 else hashTable i }

/-- `buffer_init`, with `start_buffer` at `start`. -/
def bufferInit (fuel : Nat) (start bufferEnd : Addr) (head : Addr → BufferHead)
    (hashTable : Nat → Addr) : Option Memory :=
  let b : Addr := if bufferEnd = (1 : Addr) <<< 20 then 640 * 1024 else bufferEnd
  (loop fuel ⟨start, b, head, 0⟩).map (Pass.close start hashTable)

/-- `memory_end` in `main`; `EXT_MEM_K` is an `unsigned short`. -/
def memoryEnd (extMemK : BitVec 16) : Addr :=
  let memoryEnd := (((1 : Addr) <<< 20) + (extMemK.zeroExtend 32 <<< 10)) &&& 0xfffff000
  if (16 * 1024 * 1024 : Addr).slt memoryEnd then 16 * 1024 * 1024 else memoryEnd

/-- `buffer_memory_end`. -/
def bufferMemoryEnd (extMemK : BitVec 16) : Addr :=
  if (12 * 1024 * 1024 : Addr).slt (memoryEnd extMemK) then 4 * 1024 * 1024
  else if (6 * 1024 * 1024 : Addr).slt (memoryEnd extMemK) then 2 * 1024 * 1024
  else 1 * 1024 * 1024

/-! ## What it is to make -/

/-- Some bytes of the memory. -/
structure Region where
  base : Nat
  size : Nat

def Region.Disjoint (r s : Region) : Prop := r.base + r.size ≤ s.base ∨ s.base + s.size ≤ r.base

/-- The screen and the BIOS. -/
def hole : Region := ⟨0xA0000, 0x60000⟩

/-- Buffer head `i`. -/
def headAt (start : Addr) (i : Nat) : Addr := start + .ofNat 32 (36 * i)

namespace Memory

def headRegion (start : Addr) (i : Nat) : Region := ⟨(headAt start i).toNat, 36⟩

/-- `b_data` of buffer head `i`. -/
def dataAt (m : Memory) (start : Addr) (i : Nat) : Addr := (m.head (headAt start i)).data

def dataRegion (m : Memory) (start : Addr) (i : Nat) : Region := ⟨(m.dataAt start i).toNat, 1024⟩

/-- All buffer heads and all blocks. -/
def regions (m : Memory) (start : Addr) : List Region :=
  (List.range m.nr).map (headRegion start) ++ (List.range m.nr).map (m.dataRegion start)

/-- Nothing meets anything else, and the heads are a ring. -/
structure Laid (m : Memory) (start bufferEnd : Addr) : Prop where
  pos : 0 < m.nr
  disjoint : (m.regions start).Pairwise Region.Disjoint
  within : ∀ r ∈ m.regions start, start.toNat ≤ r.base ∧ r.base + r.size ≤ bufferEnd.toNat
  hole : ∀ i < m.nr, (m.dataRegion start i).Disjoint hole
  own : ∀ i < m.nr, ∀ j < m.nr, m.dataAt start i = m.dataAt start j → i = j
  first : m.freeList = headAt start 0
  next : ∀ i < m.nr, (m.head (headAt start i)).nextFree = headAt start ((i + 1) % m.nr)
  prev : ∀ i < m.nr, (m.head (headAt start i)).prevFree = headAt start ((i + m.nr - 1) % m.nr)
  free : ∀ i < m.nr, (m.head (headAt start i)).dev = 0 ∧ (m.head (headAt start i)).count = 0 ∧
    (m.head (headAt start i)).dirt = 0 ∧ (m.head (headAt start i)).lock = 0 ∧
    (m.head (headAt start i)).next = 0 ∧ (m.head (headAt start i)).prev = 0
  hash : ∀ k < 307, m.hashTable k = 0

end Memory

/-! ## The numbers -/

/-- The address of block `k`, when `N` blocks fit above 1MB. -/
def dataAddr (N k : Nat) : Nat :=
  if k < N then 0x100000 + 1024 * (N - 1 - k) else 0xA0000 - 1024 * (k - N + 1)

/-- After `n` blocks there is still no block in a buffer head. -/
def Fits (e N n : Nat) : Prop := n ≤ N ∨ e + 36 * n + 1024 * (n - N) ≤ 0xA0000

variable {e N n i j : Nat}

theorem fits_lt (h : Fits e N n) : n < N + 640 := by
  unfold Fits at h
  omega

theorem dataAddr_lt (hij : i < j) (hj : j < n) (h : Fits e N n) :
    dataAddr N j + 1024 ≤ dataAddr N i := by
  unfold dataAddr
  unfold Fits at h
  split <;> split <;> omega

/-- The heads end below all blocks. -/
theorem heads_le_dataAddr (hj : j < n) (h : Fits e N n) (hN : N ≤ 3072) (he : e < 0xA0000) :
    e + 36 * n ≤ dataAddr N j := by
  unfold dataAddr
  unfold Fits at h
  split <;> omega

/-- The hole is between the blocks. -/
theorem dataAddr_outside : dataAddr N j + 1024 ≤ 0xA0000 ∨
    0x100000 ≤ dataAddr N j ∧ dataAddr N j + 1024 ≤ 0x100000 + 1024 * N := by
  unfold dataAddr
  split <;> omega

/-- Nothing wraps in the addresses of the heads. -/
theorem headAt_toNat {start : Addr} (he : start.toNat < 0xA0000) (hi : i < 4096) :
    (headAt start i).toNat = start.toNat + 36 * i := by
  rw [headAt, BitVec.toNat_add, BitVec.toNat_ofNat]
  omega

theorem headAt_zero {start : Addr} : headAt start 0 = start := BitVec.add_zero _

theorem headAt_inj {start : Addr} (he : start.toNat < 0xA0000) (hi : i < 4096) (hj : j < 4096)
    (h : headAt start i = headAt start j) : i = j := by
  have hnat := congrArg BitVec.toNat h
  rw [headAt_toNat he hi, headAt_toNat he hj] at hnat
  omega

theorem above_headAt {start : Addr} : above (headAt start i) = headAt start (i + 1) := by
  rw [above, headAt, headAt, BitVec.add_assoc]
  congr 1
  apply BitVec.eq_of_toNat_eq
  rw [BitVec.toNat_add, BitVec.toNat_ofNat, BitVec.toNat_ofNat]
  show (36 * i % 2 ^ 32 + 36) % 2 ^ 32 = 36 * (i + 1) % 2 ^ 32
  omega

theorem below_headAt {start : Addr} : below (headAt start (i + 1)) = headAt start i := by
  rw [← above_headAt, below, above, BitVec.add_sub_cancel]

/-! ## The loop -/

section

variable {start : Addr} {head₀ : Addr → BufferHead} {s : Pass}

/-- After `n` turns. -/
structure Invariant (start : Addr) (head₀ : Addr → BufferHead) (N n : Nat) (s : Pass) : Prop where
  h : s.h = headAt start n
  nr : s.nr = n
  fits : Fits start.toNat N n
  head : ∀ k < n,
    s.head (headAt start k) = (head₀ (headAt start k)).fill (headAt start k) (.ofNat 32 (dataAddr N k))
  kept : ∀ p, (∀ k < n, p ≠ headAt start k) → s.head p = head₀ p

/-- Where `b` is before a turn. -/
def top (N n : Nat) : Nat := if n < N then 0x100000 + 1024 * (N - n) else 0xA0000 - 1024 * (n - N)

/-- `b -= BLOCK_SIZE`. -/
theorem sub_toNat {b : Addr} (hb : b.toNat = top N n) (h : Fits e N n) (hN : N ≤ 3072) :
    (b - 1024).toNat = dataAddr N n := by
  rw [BitVec.toNat_sub, hb]
  show (2 ^ 32 - 1024 + top N n) % 2 ^ 32 = dataAddr N n
  unfold top dataAddr
  unfold Fits at h
  split <;> omega

/-- `if (b == (void *) 0x100000) b = (void *) 0xA0000`. -/
theorem top_succ : top N (n + 1) = if dataAddr N n = 0x100000 then 0xA0000 else dataAddr N n := by
  unfold top dataAddr
  by_cases hn : n < N
  · rw [if_pos hn]
    split <;> split <;> omega
  · rw [if_neg hn, if_neg (by omega), if_neg (by omega)]
    omega

/-- A turn goes on with the next head and the next block. -/
theorem Invariant.turn {b : Addr} (I : Invariant start head₀ N n s) (hb : b.toNat = dataAddr N n)
    (hN : N ≤ 3072) (he : start.toNat < 0xA0000) (hfits : Fits start.toNat N (n + 1)) :
    Invariant start head₀ N (n + 1) { s with b }.turn ∧ { s with b }.turn.b.toNat = top N (n + 1) := by
  have hn := fits_lt hfits
  have hother : ∀ p, p ≠ headAt start n → { s with b }.turn.head p = s.head p := fun p hp => by
    refine Function.update_of_ne ?_ _ _
    rw [I.h]
    exact hp
  refine ⟨⟨?_, congrArg (· + 1) I.nr, hfits, fun k hk => ?_, fun p hp => ?_⟩, ?_⟩
  · show above s.h = _
    rw [I.h, above_headAt]
  · obtain hlt | rfl := Nat.lt_or_eq_of_le (Nat.le_of_lt_succ hk)
    · rw [hother _ fun heq => Nat.ne_of_lt hlt (headAt_inj he (by omega) (by omega) heq), I.head k hlt]
    · have hdata : b = .ofNat 32 (dataAddr N k) := by
        rw [← hb, BitVec.ofNat_toNat, BitVec.setWidth_eq]
      show Function.update s.head s.h _ _ = _
      rw [I.h, Function.update_self, I.kept _ fun j hj heq => ?_, hdata]
      exact Nat.ne_of_gt hj (headAt_inj he (by omega) (by omega) heq)
  · rw [hother p (hp n (Nat.lt_succ_self n))]
    exact I.kept p fun k hk => hp k (Nat.lt_succ_of_lt hk)
  · show (if b = 0x100000 then (0xA0000 : Addr) else b).toNat = _
    have hjump : b = 0x100000 ↔ dataAddr N n = 0x100000 := by
      rw [← hb]
      exact ⟨fun h => by rw [h]; rfl, fun h => BitVec.eq_of_toNat_eq h⟩
    rw [top_succ, apply_ite BitVec.toNat, hb]
    exact if_congr hjump rfl rfl

/-- The loop ends, with a head and a block at least. -/
theorem loop_ends {fuel : Nat} (I : Invariant start head₀ N n s) (hb : s.b.toNat = top N n) (hN : N ≤ 3072)
    (he : start.toNat < 0xA0000 - 1024 - 36) (hfuel : N + 640 ≤ n + fuel) :
    ∃ s' n', loop fuel s = some s' ∧ 0 < n' ∧ Invariant start head₀ N n' s' := by
  induction fuel generalizing s n with
  | zero =>
    have hn := fits_lt I.fits
    omega
  | succ fuel ih =>
    have hb' : (s.b - 1024).toNat = dataAddr N n := sub_toNat hb I.fits hN
    have hn := fits_lt I.fits
    have hh : (above s.h).toNat = start.toNat + 36 * (n + 1) := by
      rw [I.h, above_headAt]
      exact headAt_toNat (by omega) (by omega)
    have hguard : above s.h ≤ s.b - 1024 ↔ start.toNat + 36 * (n + 1) ≤ dataAddr N n := by
      rw [BitVec.le_def, hh, hb']
    have hloop : loop (fuel + 1) s =
        if above s.h ≤ s.b - 1024 then loop fuel { s with b := s.b - 1024 }.turn
        else some { s with b := s.b - 1024 } := rfl
    rw [hloop]
    by_cases hle : above s.h ≤ s.b - 1024
    · have hfits : Fits start.toNat N (n + 1) := by
        have hle' := hguard.mp hle
        unfold dataAddr at hle'
        unfold Fits
        split at hle' <;> omega
      rw [if_pos hle]
      obtain ⟨I', htop⟩ := I.turn hb' hN (by omega) hfits
      exact ih I' htop (by omega)
    · rw [if_neg hle]
      refine ⟨_, n, rfl, Nat.pos_of_ne_zero ?_, I.h, I.nr, I.fits, I.head, I.kept⟩
      rintro rfl
      refine hle (hguard.mpr ?_)
      unfold dataAddr
      split <;> omega

/-! ## The ring is closed -/

variable {hashTable : Nat → Addr}

theorem pred_mod (hi : i < n) : (i + n - 1) % n = if i = 0 then n - 1 else i - 1 := by
  split
  · exact (Nat.mod_eq_of_lt (by omega)).trans (by omega)
  · rw [show i + n - 1 = i - 1 + n by omega, Nat.add_mod_right]
    exact Nat.mod_eq_of_lt (by omega)

theorem succ_mod (hi : i < n) : (i + 1) % n = if i = n - 1 then 0 else i + 1 := by
  split
  · next h =>
    rw [show i + 1 = n by omega]
    exact Nat.mod_self n
  · exact Nat.mod_eq_of_lt (by omega)

/-- Each head has its block, and its neighbours in the ring. -/
theorem Invariant.head_close (I : Invariant start head₀ N n s) (hN : N ≤ 3072) (he : start.toNat < 0xA0000)
    (hi : i < n) : (s.close start hashTable).head (headAt start i) =
      { (head₀ (headAt start i)).fill (headAt start i) (.ofNat 32 (dataAddr N i)) with
        prevFree := headAt start ((i + n - 1) % n), nextFree := headAt start ((i + 1) % n) } := by
  have hn := fits_lt I.fits
  obtain ⟨m, rfl⟩ : ∃ m, n = m + 1 := ⟨n - 1, by omega⟩
  have hlast : below s.h = headAt start m := by rw [I.h, below_headAt]
  have hfirst : ∀ j ≤ m, headAt start j = start ↔ j = 0 := fun j hj => by
    constructor
    · exact fun h => headAt_inj he (by omega) (by omega) (h.trans headAt_zero.symm)
    · rintro rfl
      exact headAt_zero
  let head₁ := Function.update s.head start { s.head start with prevFree := below s.h }
  have h₁ : ∀ j ≤ m, head₁ (headAt start j) =
      { s.head (headAt start j) with prevFree := headAt start ((j + (m + 1) - 1) % (m + 1)) } := by
    intro j hj
    have hj' : j < m + 1 := Nat.lt_succ_of_le hj
    rw [pred_mod hj']
    by_cases h0 : j = 0
    · rw [if_pos h0, (hfirst j hj).mpr h0, Nat.add_sub_cancel, ← hlast]
      exact Function.update_self ..
    · rw [if_neg h0]
      refine (Function.update_of_ne (fun h => h0 ((hfirst j hj).mp h)) _ _).trans ?_
      rw [I.head j (Nat.lt_succ_of_le hj)]
      obtain ⟨l, rfl⟩ : ∃ l, j = l + 1 := ⟨j - 1, by omega⟩
      simp only [BufferHead.fill, below_headAt, Nat.add_sub_cancel]
  have hclose : (s.close start hashTable).head (headAt start i) =
      Function.update head₁ (headAt start m) { head₁ (headAt start m) with nextFree := start }
        (headAt start i) := by
    rw [← hlast]
    rfl
  rw [hclose, succ_mod hi]
  by_cases hm : i = m
  · rw [if_pos (by omega), hm, Function.update_self, h₁ m (Nat.le_refl m), I.head m (Nat.lt_succ_self m),
      headAt_zero]
  · rw [if_neg (by omega), Function.update_of_ne fun h => hm (headAt_inj he (by omega) (by omega) h),
      h₁ i (by omega), I.head i hi]
    simp only [BufferHead.fill, above_headAt]

/-- What `buffer_init` has made: `n` heads with their blocks. -/
structure Made (start : Addr) (head₀ : Addr → BufferHead) (N n : Nat) (m : Memory) : Prop where
  pos : 0 < n
  bound : N ≤ 3072
  low : start.toNat < 0xA0000
  fits : Fits start.toNat N n
  nr : m.nr = n
  freeList : m.freeList = start
  hashTable : ∀ k < 307, m.hashTable k = 0
  head : ∀ i < n, m.head (headAt start i) =
    { (head₀ (headAt start i)).fill (headAt start i) (.ofNat 32 (dataAddr N i)) with
      prevFree := headAt start ((i + n - 1) % n), nextFree := headAt start ((i + 1) % n) }

theorem Invariant.close (I : Invariant start head₀ N n s) (hpos : 0 < n) (hN : N ≤ 3072)
    (he : start.toNat < 0xA0000) : Made start head₀ N n (s.close start hashTable) :=
  ⟨hpos, hN, he, I.fits, I.nr, rfl, fun _ hk => if_pos hk, fun _ hi => I.head_close hN he hi⟩

end

/-! ## The regions -/

namespace Made

variable {start bufferEnd : Addr} {head₀ : Addr → BufferHead} {m : Memory}

theorem count (M : Made start head₀ N n m) : n < N + 640 := fits_lt M.fits

theorem head_toNat (M : Made start head₀ N n m) (hi : i < n) :
    (headAt start i).toNat = start.toNat + 36 * i := by
  have hn := M.count
  have hN := M.bound
  exact headAt_toNat M.low (by omega)

theorem data_toNat (M : Made start head₀ N n m) (hi : i < n) :
    (m.dataAt start i).toNat = dataAddr N i := by
  have hout := @dataAddr_outside N i
  have hN := M.bound
  have hdata : m.dataAt start i = .ofNat 32 (dataAddr N i) := by
    rw [Memory.dataAt, M.head i hi]
    rfl
  rw [hdata, BitVec.toNat_ofNat]
  exact Nat.mod_eq_of_lt (by omega)

theorem disjoint (M : Made start head₀ N n m) : (m.regions start).Pairwise Region.Disjoint := by
  have hmem : ∀ i ∈ List.range n, i < n := fun i => List.mem_range.mp
  unfold Memory.regions
  rw [M.nr, List.pairwise_append, List.pairwise_map, List.pairwise_map]
  refine ⟨?_, ?_, ?_⟩
  · -- the heads
    refine List.pairwise_lt_range.imp_of_mem fun hi hj hij => .inl ?_
    show (headAt start _).toNat + 36 ≤ (headAt start _).toNat
    rw [M.head_toNat (hmem _ hi), M.head_toNat (hmem _ hj)]
    omega
  · -- the blocks
    refine List.pairwise_lt_range.imp_of_mem fun hi hj hij => .inr ?_
    show (m.dataAt start _).toNat + 1024 ≤ (m.dataAt start _).toNat
    rw [M.data_toNat (hmem _ hi), M.data_toNat (hmem _ hj)]
    exact dataAddr_lt hij (hmem _ hj) M.fits
  · intro r hr t ht
    obtain ⟨i, hi, rfl⟩ := List.mem_map.mp hr
    obtain ⟨j, hj, rfl⟩ := List.mem_map.mp ht
    have hle := heads_le_dataAddr (hmem j hj) M.fits M.bound M.low
    have hi' := hmem i hi
    refine .inl ?_
    show (headAt start i).toNat + 36 ≤ (m.dataAt start j).toNat
    rw [M.head_toNat hi', M.data_toNat (hmem j hj)]
    omega

theorem within (M : Made start head₀ N n m) (hend : bufferEnd.toNat = 0x100000 + 1024 * N) :
    ∀ r ∈ m.regions start, start.toNat ≤ r.base ∧ r.base + r.size ≤ bufferEnd.toNat := by
  have hn := M.count
  have hlow := M.low
  have hN := M.bound
  intro r hr
  rw [Memory.regions, M.nr] at hr
  obtain hr | hr := List.mem_append.mp hr
  · obtain ⟨i, hi, rfl⟩ := List.mem_map.mp hr
    have hi' := List.mem_range.mp hi
    show start.toNat ≤ (headAt start i).toNat ∧ (headAt start i).toNat + 36 ≤ _
    rw [M.head_toNat hi', hend]
    omega
  · obtain ⟨i, hi, rfl⟩ := List.mem_map.mp hr
    have hi' := List.mem_range.mp hi
    have hle := heads_le_dataAddr hi' M.fits M.bound M.low
    have hout := @dataAddr_outside N i
    show start.toNat ≤ (m.dataAt start i).toNat ∧ (m.dataAt start i).toNat + 1024 ≤ _
    rw [M.data_toNat hi', hend]
    omega

theorem outside (M : Made start head₀ N n m) (hi : i < n) : (m.dataRegion start i).Disjoint hole := by
  have hout := @dataAddr_outside N i
  show (m.dataAt start i).toNat + 1024 ≤ 0xA0000 ∨ 0xA0000 + 0x60000 ≤ (m.dataAt start i).toNat
  rw [M.data_toNat hi]
  omega

theorem own (M : Made start head₀ N n m) (hi : i < n) (hj : j < n)
    (h : m.dataAt start i = m.dataAt start j) : i = j := by
  have hnat := congrArg BitVec.toNat h
  rw [M.data_toNat hi, M.data_toNat hj] at hnat
  obtain hlt | heq | hlt := Nat.lt_trichotomy i j
  · have := dataAddr_lt hlt hj M.fits
    omega
  · exact heq
  · have := dataAddr_lt hlt hi M.fits
    omega

theorem laid (M : Made start head₀ N n m) (hend : bufferEnd.toNat = 0x100000 + 1024 * N) :
    m.Laid start bufferEnd := by
  refine ⟨?_, M.disjoint, M.within hend, ?_, ?_, M.freeList.trans headAt_zero.symm, ?_, ?_, ?_,
    M.hashTable⟩
  · exact M.nr ▸ M.pos
  · exact fun i hi => M.outside (M.nr ▸ hi)
  · exact fun i hi j hj => M.own (M.nr ▸ hi) (M.nr ▸ hj)
  · intro i hi
    rw [M.nr] at hi ⊢
    rw [M.head i hi]
  · intro i hi
    rw [M.nr] at hi ⊢
    rw [M.head i hi]
  · intro i hi
    rw [M.nr] at hi
    rw [M.head i hi]
    exact ⟨rfl, rfl, rfl, rfl, rfl, rfl⟩

end Made

/-! ## `buffer_init` -/

section

variable {start bufferEnd : Addr} {head₀ : Addr → BufferHead} {hashTable : Nat → Addr} {m : Memory}

/-- The memory that `main` gives to the buffers ends at 1MB, 2MB or 4MB. -/
theorem bufferMemoryEnd_cases (extMemK : BitVec 16) : bufferMemoryEnd extMemK = 0x100000 ∨
    bufferMemoryEnd extMemK = 0x200000 ∨ bufferMemoryEnd extMemK = 0x400000 := by
  unfold bufferMemoryEnd
  split
  · exact .inr (.inr rfl)
  · split
    · exact .inr (.inl rfl)
    · exact .inl rfl

/-- Blocks above 1MB, and where the loop begins. -/
theorem exists_above (hend : bufferEnd = 0x100000 ∨ bufferEnd = 0x200000 ∨ bufferEnd = 0x400000) :
    ∃ N ≤ 3072, bufferEnd.toNat = 0x100000 + 1024 * N ∧
      (if bufferEnd = (1 : Addr) <<< 20 then 640 * 1024 else bufferEnd : Addr).toNat = top N 0 := by
  obtain rfl | rfl | rfl := hend
  · exact ⟨0, by decide, rfl, rfl⟩
  · exact ⟨1024, by decide, rfl, rfl⟩
  · exact ⟨3072, by decide, rfl, rfl⟩

/-- `buffer_init` comes to an end with a buffer at least; heads and blocks do not meet, they are between
the end of the kernel and the end of the memory for buffers, no block meets the hole, and the heads are a
ring. -/
theorem buffer_init_layout (start bufferEnd : Addr) (head₀ : Addr → BufferHead) (hashTable : Nat → Addr)
    (hstart : start.toNat < 640 * 1024 - 1024 - 36)
    (hend : bufferEnd = 0x100000 ∨ bufferEnd = 0x200000 ∨ bufferEnd = 0x400000) (fuel : Nat)
    (hfuel : 4096 ≤ fuel) :
    ∃ m, bufferInit fuel start bufferEnd head₀ hashTable = some m ∧ m.Laid start bufferEnd := by
  obtain ⟨N, hN, hsize, htop⟩ := exists_above hend
  have I : Invariant start head₀ N 0
      ⟨start, if bufferEnd = (1 : Addr) <<< 20 then 640 * 1024 else bufferEnd, head₀, 0⟩ :=
    ⟨headAt_zero.symm, rfl, .inl (Nat.zero_le N), nofun, fun _ _ => rfl⟩
  have hfuel' : N + 640 ≤ 0 + fuel := by omega
  obtain ⟨s, n, hloop, hpos, I'⟩ := loop_ends I htop hN hstart hfuel'
  refine ⟨s.close start hashTable, ?_, (I'.close hpos hN (by omega)).laid hsize⟩
  unfold bufferInit
  exact congrArg (Option.map (Pass.close start hashTable)) hloop

/-- A kernel of 128KB in a machine with 16MB. -/
theorem buffer_init_layout_large : ∃ m, bufferInit 4096 0x20000 0x400000
    (fun _ => ⟨0, 0, 0, 0, 0, 0, 0, 0, 0, 0, 0, 0⟩) (fun _ => 0) = some m ∧ m.Laid 0x20000 0x400000 :=
  buffer_init_layout 0x20000 0x400000 _ _ (by decide) (.inr (.inr rfl)) 4096 (Nat.le_refl _)

/-! ## The heads by their indices -/

/-- A pointer to a buffer head, or `NULL`. -/
def Points (start p : Addr) : Option Nat → Prop
  | none => p = 0
  | some i => p = headAt start i

/-- The queues are those in the memory. -/
structure Memory.Shows (m : Memory) (start : Addr) (q : Queues.Heads) : Prop where
  nr : q.nr = m.nr
  freeList : Points start m.freeList q.freeList
  hashTable : ∀ k < 307, Points start (m.hashTable k) (q.hashTable k)
  next : ∀ i < m.nr, Points start (m.head (headAt start i)).next (q.next i)
  prev : ∀ i < m.nr, Points start (m.head (headAt start i)).prev (q.prev i)
  nextFree : ∀ i < m.nr, Points start (m.head (headAt start i)).nextFree (q.nextFree i)
  prevFree : ∀ i < m.nr, Points start (m.head (headAt start i)).prevFree (q.prevFree i)
  dev : ∀ i < m.nr, q.dev i = (m.head (headAt start i)).dev
  blocknr : ∀ i < m.nr, q.blocknr i = (m.head (headAt start i)).blocknr
  count : ∀ i < m.nr, q.count i = (m.head (headAt start i)).count.toNat
  dirt : ∀ i < m.nr, q.dirt i = ((m.head (headAt start i)).dirt != 0)
  lock : ∀ i < m.nr, q.lock i = ((m.head (headAt start i)).lock != 0)

/-- The queues begin as `Queues.lean` has them. -/
theorem Memory.Laid.shows (L : m.Laid start bufferEnd) :
    m.Shows start (Queues.bufferInit m.nr fun i => (m.head (headAt start i)).blocknr) where
  nr := rfl
  freeList := L.first
  hashTable := L.hash
  next i hi := (L.free i hi).2.2.2.2.1
  prev i hi := (L.free i hi).2.2.2.2.2
  nextFree i hi := by
    have hnext := L.next i hi
    rw [succ_mod hi] at hnext
    show Points start _ (if i = m.nr - 1 then some 0 else some (i + 1))
    by_cases h : i = m.nr - 1
    · rw [if_pos h] at hnext ⊢
      exact hnext
    · rw [if_neg h] at hnext ⊢
      exact hnext
  prevFree i hi := by
    have hprev := L.prev i hi
    rw [pred_mod hi] at hprev
    show Points start _ (if i = 0 then some (m.nr - 1) else some (i - 1))
    by_cases h : i = 0
    · rw [if_pos h] at hprev ⊢
      exact hprev
    · rw [if_neg h] at hprev ⊢
      exact hprev
  dev i hi := (L.free i hi).1.symm
  blocknr _ _ := rfl
  count i hi := by
    rw [(L.free i hi).2.1]
    rfl
  dirt i hi := by
    rw [(L.free i hi).2.2.1]
    rfl
  lock i hi := by
    rw [(L.free i hi).2.2.2.1]
    rfl

end

end Linux011.Buffer.Init
