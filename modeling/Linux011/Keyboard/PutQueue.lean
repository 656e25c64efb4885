import Linux011.TtyIo.Handlers
import Linux011.Lib.Registers
import Mathlib.Data.Nat.Find

/-!
# `put_queue` (`kernel/chr_drv/keyboard.S`)

The routine takes up to eight bytes from `%ebx:%eax` and stores them from the head of the read queue on.
The head itself is written when the last byte is in; before that the bytes are in cells that do not count,
and when the tail is reached they are left there.

The cells are filled as if the bytes had been put one by one (`store_fits`), and where they do not fit no
cell of the contents is touched (`store_full`). So the bytes are in the queue, or nothing has happened to
it (`put_queue_all_or_nothing`); this is the step that the line discipline sees (`readQ_putQueue`).
-/

namespace Linux011.Keyboard

open Lib TtyIo

/-! ## The routine -/

/-- The read queue of the console, the process that `proc_list` points to, and `state` of the processes. -/
structure Console where
  readQ : TtyQueue
  procList : Option Nat
  state : Nat → Int

/-- `shrdl $8,%ebx,%eax`. -/
def shrd (eax ebx : Reg) : Reg := eax >>> 8 ||| ebx <<< 24

/-- What the loop shifts, as one number. -/
def pair (ebx eax : Reg) : BitVec 64 := ebx ++ eax

theorem getLsbD_pair (ebx eax : Reg) (i : Nat) :
    (pair ebx eax).getLsbD i = if i < 32 then eax.getLsbD i else ebx.getLsbD (i - 32) :=
  BitVec.getLsbD_append

/-- A turn of the loop drops the low byte. -/
theorem pair_shrd (eax ebx : Reg) : pair (ebx >>> 8) (shrd eax ebx) = pair ebx eax >>> 8 := by
  apply BitVec.eq_of_getLsbD_eq
  intro i hi
  rw [BitVec.getLsbD_ushiftRight, getLsbD_pair, getLsbD_pair, shrd, BitVec.getLsbD_or,
    BitVec.getLsbD_ushiftRight, BitVec.getLsbD_ushiftRight, BitVec.getLsbD_shiftLeft]
  by_cases h24 : i < 24
  · simp [h24, show i < 32 by omega, show 8 + i < 32 by omega]
  by_cases h32 : i < 32
  · rw [BitVec.getLsbD_of_ge eax (8 + i) (by omega)]
    simp [h24, h32, show ¬ 8 + i < 32 by omega, show 8 + i - 32 = i - 24 by omega]
  · simp [h32, show ¬ 8 + i < 32 by omega, show 8 + (i - 32) = 8 + i - 32 by omega]

/-- The numbers get smaller, unless the loop ends. -/
theorem pair_shrd_lt {eax ebx : Reg} (h : shrd eax ebx ≠ 0) :
    (pair (ebx >>> 8) (shrd eax ebx)).toNat < (pair ebx eax).toNat := by
  rw [pair_shrd, BitVec.toNat_ushiftRight, Nat.shiftRight_eq_div_pow]
  refine Nat.div_lt_self (Nat.pos_of_ne_zero fun h0 => h ?_) (by decide)
  have hz : pair ebx eax = 0 := BitVec.eq_of_toNat_eq h0
  have hs := pair_shrd eax ebx
  rw [hz] at hs
  have hlow : shrd eax ebx = (pair (ebx >>> 8) (shrd eax ebx)).setWidth 32 :=
    (BitVec.setWidth_append_eq_right).symm
  rw [hlow, hs]
  rfl

/-- The loop, from a head in `%ecx`. It ends with the new head, or at the tail. -/
def store (tail : Nat) (buf : Nat → Byte) (ecx : Nat) (eax ebx : Reg) :
    (Nat → Byte) × Option (Fin 1024) :=
  let buf := Function.update buf ecx eax.low
  let ecx : Fin 1024 := ⟨(ecx + 1) % 1024, Nat.mod_lt _ (by decide)⟩
  if ecx.val = tail then (buf, none)
  else if h : shrd eax ebx = 0 then (buf, some ecx)
  else store tail buf ecx (shrd eax ebx) (ebx >>> 8)
termination_by (pair ebx eax).toNat
decreasing_by exact pair_shrd_lt h

/-- The end of `put_queue`: a process that waits for the queue can run. -/
def Console.wake (c : Console) : Nat → Int :=
  match c.procList with
  | none => c.state
  | some p => Function.update c.state p 0

/-- `put_queue`. -/
def putQueue (eax ebx : Reg) (c : Console) : Console :=
  match store c.readQ.tail c.readQ.buf c.readQ.head eax ebx with
  | (buf, none) => { c with readQ := { c.readQ with buf } }
  | (buf, some ecx) =>
    { c with readQ := { c.readQ with buf, head := ecx, head_lt := ecx.isLt }, state := c.wake }

/-! ## The bytes -/

/-- What is in `%eax` after `j` turns. -/
def rest (v : BitVec 64) (j : Nat) : Reg := (v >>> (8 * j)).setWidth 32

/-- The loop takes `k` bytes: it stops when what is left in `%eax` is zero. -/
structure Significant (v : BitVec 64) (k : Nat) : Prop where
  pos : 0 < k
  rest_eq : rest v k = 0
  rest_ne : ∀ j, 0 < j → j < k → rest v j ≠ 0

/-- The low `k` bytes. -/
def bytes (v : BitVec 64) (k : Nat) : List Byte := (List.range k).map fun i => v.extractLsb' (8 * i) 8

variable {v : BitVec 64} {eax ebx : Reg} {k : Nat}

theorem length_bytes : (bytes v k).length = k := by
  rw [bytes, List.length_map, List.length_range]

theorem rest_shift (j : Nat) : rest (v >>> 8) j = rest v (j + 1) := by
  rw [rest, rest, ← BitVec.shiftRight_add, show 8 + 8 * j = 8 * (j + 1) by omega]

theorem rest_pair : rest (pair ebx eax) 1 = shrd eax ebx := by
  rw [← rest_shift, ← pair_shrd, rest, Nat.mul_zero, BitVec.ushiftRight_zero]
  exact BitVec.setWidth_append_eq_right

/-- Eight turns are always enough. -/
theorem exists_significant (v : BitVec 64) : ∃ k ≤ 8, Significant v k := by
  have hlast : rest v (7 + 1) = 0 := by
    rw [rest, BitVec.ushiftRight_eq_zero (by decide)]
    rfl
  have hex : ∃ j, rest v (j + 1) = 0 := ⟨7, hlast⟩
  refine ⟨Nat.find hex + 1, Nat.succ_le_succ (Nat.find_min' hex hlast), Nat.succ_pos _, Nat.find_spec hex,
    fun j h0 hj => ?_⟩
  obtain ⟨i, rfl⟩ : ∃ i, j = i + 1 := ⟨j - 1, by omega⟩
  exact Nat.find_min hex (by omega)

/-- The bytes that a turn leaves. -/
theorem Significant.shift (h : Significant (pair ebx eax) (k + 1)) (hk : 0 < k) :
    shrd eax ebx ≠ 0 ∧ Significant (pair (ebx >>> 8) (shrd eax ebx)) k := by
  rw [pair_shrd]
  refine ⟨rest_pair ▸ h.rest_ne 1 (by decide) (by omega), hk, ?_, fun j h0 hj => ?_⟩
  · rw [rest_shift]
    exact h.rest_eq
  · rw [rest_shift]
    exact h.rest_ne (j + 1) (by omega) (by omega)

theorem low_pair : (pair ebx eax).extractLsb' 0 8 = eax.low := by
  apply BitVec.eq_of_getLsbD_eq
  intro i hi
  rw [BitVec.getLsbD_extractLsb', Nat.zero_add, getLsbD_pair, if_pos (by omega), Reg.getLsbD_low]

theorem bytes_pair : bytes (pair ebx eax) (k + 1) =
    eax.low :: bytes (pair (ebx >>> 8) (shrd eax ebx)) k := by
  rw [bytes, List.range_succ_eq_map, List.map_cons, List.map_map, pair_shrd]
  refine congrArg₂ List.cons ?_ (List.map_congr_left fun i _ => ?_)
  · exact low_pair
  · apply BitVec.eq_of_getLsbD_eq
    intro j _
    show (BitVec.extractLsb' (8 * (i + 1)) 8 _).getLsbD j = _
    rw [BitVec.getLsbD_extractLsb', BitVec.getLsbD_extractLsb', BitVec.getLsbD_ushiftRight,
      show 8 + (8 * i + j) = 8 * (i + 1) + j by omega]

/-! ## The cells -/

/-- The head after one more byte is at the tail exactly when there was no room. -/
theorem head_put_eq_tail {q : TtyQueue} {c : Byte} : (q.put c).head = q.tail ↔ q.full = true := by
  rw [show (q.put c).head = q.tail ↔ (q.put c).empty = true from beq_iff_eq.symm,
    Queue.empty_iff_contents]
  constructor
  · intro h
    cases hf : q.full with
    | true => rfl
    | false =>
      rw [Queue.contents_put hf] at h
      exact absurd h (List.append_ne_nil_of_right_ne_nil _ (List.cons_ne_nil _ _))
  · exact Queue.contents_put_full

/-- A turn of the loop, with the head in `%ecx` as the head of the queue. -/
theorem store_eq {q : TtyQueue} : store q.tail q.buf q.head eax ebx =
    if q.full = true then ((q.put eax.low).buf, none)
    else if shrd eax ebx = 0 then ((q.put eax.low).buf, some ⟨(q.put eax.low).head, Queue.head_lt _⟩)
    else
      store (q.put eax.low).tail (q.put eax.low).buf (q.put eax.low).head (shrd eax ebx) (ebx >>> 8) := by
  rw [store]
  refine if_congr (head_put_eq_tail (c := eax.low)) rfl ?_
  split
  · rfl
  · rfl

/-- Where the bytes fit, the loop leaves the cells as if they had been put one by one. -/
theorem store_fits {q : TtyQueue} (hs : Significant (pair ebx eax) k) (hk : k ≤ q.left) :
    store q.tail q.buf q.head eax ebx = ((q.putAll (bytes (pair ebx eax) k)).buf,
      some ⟨(q.putAll (bytes (pair ebx eax) k)).head, Queue.head_lt _⟩) := by
  induction k generalizing q eax ebx with
  | zero => exact absurd hs.pos (Nat.lt_irrefl 0)
  | succ k ih =>
    have hf : q.full = false := Queue.not_full (Nat.lt_of_lt_of_le hs.pos hk)
    rw [store_eq, if_neg (Bool.eq_false_iff.mp hf), bytes_pair]
    obtain rfl | hpos := Nat.eq_zero_or_pos k
    · exact if_pos (rest_pair ▸ hs.rest_eq)
    · obtain ⟨h0, hs'⟩ := hs.shift hpos
      have hl := Queue.left_put (c := eax.low) hf
      rw [if_neg h0]
      exact ih (q := q.put eax.low) hs' (by omega)

/-- Where they do not fit, the loop ends at the tail, and the cells of the contents are as they were. -/
theorem store_full {q : TtyQueue} (hs : Significant (pair ebx eax) k) (hk : q.left < k) :
    ∃ buf, store q.tail q.buf q.head eax ebx = (buf, none) ∧
      ∀ i < q.chars, buf ((q.tail + i) % 1024) = q.buf ((q.tail + i) % 1024) := by
  induction k generalizing q eax ebx with
  | zero => exact absurd hk (Nat.not_lt_zero _)
  | succ k ih =>
    have hput : ∀ i < q.chars,
        (q.put eax.low).buf ((q.tail + i) % 1024) = q.buf ((q.tail + i) % 1024) :=
      fun i hi => Function.update_of_ne (Queue.cell_ne_head hi) _ _
    cases hf : q.full with
    | true => exact ⟨_, store_eq.trans (if_pos hf), hput⟩
    | false =>
      have hl := Queue.left_put (c := eax.low) hf
      obtain ⟨h0, hs'⟩ := hs.shift (by omega)
      obtain ⟨buf, hbuf, hcells⟩ := ih (q := q.put eax.low) hs' (by omega)
      refine ⟨buf, ?_, fun i hi => ?_⟩
      · rw [store_eq, if_neg (Bool.eq_false_iff.mp hf), if_neg h0]
        exact hbuf
      · have hc := Queue.chars_put (c := eax.low) hf
        exact (hcells i (by omega)).trans (hput i hi)

/-! ## All or nothing -/

theorem putQueue_some {c : Console} {buf : Nat → Byte} {ecx : Fin 1024}
    (h : store c.readQ.tail c.readQ.buf c.readQ.head eax ebx = (buf, some ecx)) : putQueue eax ebx c =
      { c with readQ := { c.readQ with buf, head := ecx, head_lt := ecx.isLt }, state := c.wake } := by
  unfold putQueue
  rw [h]

theorem putQueue_none {c : Console} {buf : Nat → Byte}
    (h : store c.readQ.tail c.readQ.buf c.readQ.head eax ebx = (buf, none)) :
    putQueue eax ebx c = { c with readQ := { c.readQ with buf } } := by
  unfold putQueue
  rw [h]

theorem putQueue_fits {c : Console} (hs : Significant (pair ebx eax) k) (hk : k ≤ c.readQ.left) :
    (putQueue eax ebx c).readQ.contents = c.readQ.contents ++ bytes (pair ebx eax) k ∧
      (putQueue eax ebx c).readQ.head = (c.readQ.head + k) % 1024 ∧
      (putQueue eax ebx c).readQ.tail = c.readQ.tail ∧ (putQueue eax ebx c).state = c.wake := by
  have hlen : (bytes (pair ebx eax) k).length = k := length_bytes
  have htail : (c.readQ.putAll (bytes (pair ebx eax) k)).tail = c.readQ.tail := Queue.tail_putAll
  rw [putQueue_some (store_fits hs hk)]
  refine ⟨?_, ?_, rfl, rfl⟩
  · rw [← Queue.contents_putAll (Nat.le_trans (Nat.le_of_eq hlen) hk)]
    refine Queue.contents_congr rfl htail.symm fun i _ => ?_
    rw [htail]
  · show (c.readQ.putAll (bytes (pair ebx eax) k)).head = _
    rw [Queue.head_putAll, hlen]

theorem putQueue_full {c : Console} (hs : Significant (pair ebx eax) k) (hk : c.readQ.left < k) :
    (putQueue eax ebx c).readQ.contents = c.readQ.contents ∧
      (putQueue eax ebx c).readQ.head = c.readQ.head ∧
      (putQueue eax ebx c).readQ.tail = c.readQ.tail ∧ (putQueue eax ebx c).state = c.state := by
  obtain ⟨buf, hstore, hcells⟩ := store_full hs hk
  rw [putQueue_none hstore]
  exact ⟨Queue.contents_congr rfl rfl hcells, rfl, rfl, rfl⟩

/-- The significant bytes of `%ebx:%eax` are all put into the queue, and who waits for it is woken, or there
is no room for them, and the queue and the processes are as they were. -/
theorem put_queue_all_or_nothing (c : Console) (eax ebx : Reg) :
    ∃ k ≤ 8, Significant (pair ebx eax) k ∧
      (k ≤ c.readQ.left →
        (putQueue eax ebx c).readQ.contents = c.readQ.contents ++ bytes (pair ebx eax) k ∧
        (putQueue eax ebx c).readQ.head = (c.readQ.head + k) % 1024 ∧
        (putQueue eax ebx c).readQ.tail = c.readQ.tail ∧ (putQueue eax ebx c).state = c.wake) ∧
      (c.readQ.left < k →
        (putQueue eax ebx c).readQ.contents = c.readQ.contents ∧
        (putQueue eax ebx c).readQ.head = c.readQ.head ∧
        (putQueue eax ebx c).readQ.tail = c.readQ.tail ∧ (putQueue eax ebx c).state = c.state) := by
  obtain ⟨k, h8, hs⟩ := exists_significant (pair ebx eax)
  exact ⟨k, h8, hs, putQueue_fits hs, putQueue_full hs⟩

/-- To the line discipline it is one step. -/
theorem readQ_putQueue (tty : Tty) {c : Console} (hs : Significant (pair ebx eax) k)
    (hq : c.readQ = tty.readQ) :
    (putQueue eax ebx c).readQ.contents =
      (tty.putQueue (bytes (pair ebx eax) k)).readQ.contents := by
  unfold Tty.putQueue
  rw [length_bytes, ← hq]
  by_cases hk : c.readQ.left < k
  · rw [if_pos hk, (putQueue_full hs hk).1, hq]
  · have hk' : k ≤ c.readQ.left := Nat.le_of_not_lt hk
    rw [if_neg hk, (putQueue_fits hs hk').1]
    exact (Queue.contents_putAll (Nat.le_trans (Nat.le_of_eq length_bytes) hk')).symm

end Linux011.Keyboard
