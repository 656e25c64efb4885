import Mathlib.Logic.Function.Basic
import Mathlib.Data.List.Basic

/-!
# Ring buffers that never hold `n` elements

A ring of `n` cells with a head, where elements are put, and a tail, where they are taken. The ring is
empty when the two meet, so one cell stays free: with `n - 1` elements it is full. Nothing here stops a
caller from putting into a full ring; the ring is then empty (`contents_put_full`), and `spilled`
records it.

Everything is said about `contents`, the elements from the tail to the head: what a put, a take and a
step back of the head do to this list.
-/

namespace Linux011.Lib

structure Queue (α : Type*) (n : Nat) where
  buf : Nat → α
  head : Nat
  tail : Nat
  spilled : Bool
  head_lt : head < n
  tail_lt : tail < n

namespace Queue

variable {α : Type*} {n : Nat} {q : Queue α n} {c : α}

theorem pos (q : Queue α n) : 0 < n := Nat.lt_of_le_of_lt (Nat.zero_le _) q.head_lt

/-! ## Operations -/

def empty (q : Queue α n) : Bool := q.head == q.tail

/-- How many elements are in the ring. -/
def chars (q : Queue α n) : Nat := (q.head + n - q.tail) % n

/-- How many more fit. -/
def left (q : Queue α n) : Nat := (q.tail + n - q.head - 1) % n

def full (q : Queue α n) : Bool := q.left == 0

/-- The element that was put last. -/
def last (q : Queue α n) : α := q.buf ((q.head + n - 1) % n)

def put (c : α) (q : Queue α n) : Queue α n where
  buf := Function.update q.buf q.head c
  head := (q.head + 1) % n
  tail := q.tail
  spilled := q.spilled || q.full
  head_lt := Nat.mod_lt _ q.pos
  tail_lt := q.tail_lt

/-- The element at the tail. -/
def first (q : Queue α n) : α := q.buf q.tail

def take (q : Queue α n) : Queue α n :=
  { q with tail := (q.tail + 1) % n, tail_lt := Nat.mod_lt _ q.pos }

/-- One step back of the head. -/
def back (q : Queue α n) : Queue α n :=
  { q with head := (q.head + n - 1) % n, head_lt := Nat.mod_lt _ q.pos }

def contents (q : Queue α n) : List α := (List.range q.chars).map fun k => q.buf ((q.tail + k) % n)

/-- An empty ring. -/
def fresh (buf : Nat → α) (h : 0 < n) : Queue α n := ⟨buf, 0, 0, false, h, h⟩

/-! ## Arithmetic of the indices -/

theorem chars_eq (q : Queue α n) :
    q.chars = if q.tail ≤ q.head then q.head - q.tail else q.head + n - q.tail := by
  have h1 := q.head_lt
  have h2 := q.tail_lt
  unfold chars
  split
  · rw [show q.head + n - q.tail = q.head - q.tail + n by omega, Nat.add_mod_right]
    exact Nat.mod_eq_of_lt (by omega)
  · exact Nat.mod_eq_of_lt (by omega)

/-- An index one further. -/
theorem succ_mod {a : Nat} (h : a < n) : (a + 1) % n = if a + 1 = n then 0 else a + 1 := by
  split
  · next he => rw [he, Nat.mod_self]
  · exact Nat.mod_eq_of_lt (by omega)

/-- An index one back. -/
theorem pred_mod {a : Nat} (h : a < n) : (a + n - 1) % n = if a = 0 then n - 1 else a - 1 := by
  split
  · next he =>
    rw [he, Nat.zero_add]
    exact Nat.mod_eq_of_lt (by omega)
  · rw [show a + n - 1 = a - 1 + n by omega, Nat.add_mod_right]
    exact Nat.mod_eq_of_lt (by omega)

theorem left_eq (q : Queue α n) : q.left + q.chars + 1 = n := by
  have h1 := q.head_lt
  have h2 := q.tail_lt
  rw [chars_eq]
  unfold left
  split
  · by_cases he : q.tail = q.head
    · rw [he, show q.head + n - q.head - 1 = n - 1 by omega, Nat.mod_eq_of_lt (by omega)]
      omega
    · rw [Nat.mod_eq_of_lt (by omega)]
      omega
  · rw [show q.tail + n - q.head - 1 = q.tail - q.head - 1 + n by omega, Nat.add_mod_right,
      Nat.mod_eq_of_lt (by omega)]
    omega

theorem empty_iff : q.empty = true ↔ q.chars = 0 := by
  have h1 := q.head_lt
  have h2 := q.tail_lt
  rw [empty, beq_iff_eq, chars_eq]
  split <;> omega

theorem full_iff : q.full = true ↔ q.chars + 1 = n := by
  have := q.left_eq
  rw [full, beq_iff_eq]
  omega

/-! ## Contents -/

theorem length_contents (q : Queue α n) : q.contents.length = q.chars := by
  rw [contents, List.length_map, List.length_range]

theorem empty_iff_contents : q.empty = true ↔ q.contents = [] := by
  rw [empty_iff, ← length_contents, List.length_eq_zero_iff]

theorem left_contents (q : Queue α n) : q.left + q.contents.length + 1 = n := by
  rw [length_contents]
  exact q.left_eq

/-- The cells of the contents are those before the head. -/
theorem cell_ne_head {k : Nat} (hk : k < q.chars) : (q.tail + k) % n ≠ q.head := by
  have h1 := q.head_lt
  have h2 := q.tail_lt
  rw [chars_eq] at hk
  intro he
  by_cases hlt : q.tail + k < n
  · rw [Nat.mod_eq_of_lt hlt] at he
    split at hk <;> omega
  · rw [show q.tail + k = q.tail + k - n + n by omega, Nat.add_mod_right,
      Nat.mod_eq_of_lt (by split at hk <;> omega)] at he
    split at hk <;> omega

theorem tail_add_chars (q : Queue α n) : (q.tail + q.chars) % n = q.head := by
  have h1 := q.head_lt
  have h2 := q.tail_lt
  rw [chars_eq]
  split
  · rw [show q.tail + (q.head - q.tail) = q.head by omega]
    exact Nat.mod_eq_of_lt h1
  · rw [show q.tail + (q.head + n - q.tail) = q.head + n by omega, Nat.add_mod_right]
    exact Nat.mod_eq_of_lt h1

theorem chars_put (h : q.full = false) : (q.put c).chars = q.chars + 1 := by
  have h1 := q.head_lt
  have h2 := q.tail_lt
  have hf : ¬ q.chars + 1 = n := fun he => by rw [full_iff.mpr he] at h; cases h
  rw [chars_eq] at hf ⊢
  have hh : (q.put c).head = if q.head + 1 = n then 0 else q.head + 1 := succ_mod h1
  have ht : (q.put c).tail = q.tail := rfl
  rw [hh, ht, chars_eq]
  split <;> split at hf <;> split <;> omega

/-- Where there is room the element comes last. -/
theorem contents_put (h : q.full = false) : (q.put c).contents = q.contents ++ [c] := by
  unfold contents
  rw [chars_put h, List.range_succ, List.map_append]
  refine congrArg₂ (· ++ ·) (List.map_congr_left fun k hk => ?_) ?_
  · exact Function.update_of_ne (cell_ne_head (List.mem_range.mp hk)) _ _
  · show [Function.update q.buf q.head c ((q.tail + q.chars) % n)] = [c]
    rw [tail_add_chars, Function.update_self]

/-- Where there is none everything is lost. -/
theorem contents_put_full (h : q.full = true) : (q.put c).contents = [] := by
  have h1 := q.head_lt
  have h2 := q.tail_lt
  rw [← List.length_eq_zero_iff, length_contents, ← empty_iff, empty, beq_iff_eq]
  have hf := full_iff.mp h
  rw [chars_eq] at hf
  show (q.head + 1) % n = q.tail
  rw [succ_mod h1]
  split at hf <;> split <;> omega

/-- The first element, and the rest. -/
theorem contents_take (h : q.empty = false) : q.contents = q.first :: q.take.contents := by
  have h1 := q.head_lt
  have h2 := q.tail_lt
  have hne : q.head ≠ q.tail := fun he => by
    rw [empty, beq_iff_eq.mpr he] at h
    cases h
  have hc : q.chars = q.take.chars + 1 := by
    have ht : q.take.tail = if q.tail + 1 = n then 0 else q.tail + 1 := succ_mod h2
    have hh : q.take.head = q.head := rfl
    rw [chars_eq, chars_eq, ht, hh]
    split <;> split <;> split <;> omega
  unfold contents
  rw [hc, List.range_succ_eq_map, List.map_cons, List.map_map]
  refine congrArg₂ List.cons ?_ (List.map_congr_left fun k hk => ?_)
  · rw [Nat.add_zero, Nat.mod_eq_of_lt h2]
    rfl
  · show q.buf ((q.tail + (k + 1)) % n) = q.buf (((q.tail + 1) % n + k) % n)
    rw [Nat.mod_add_mod, Nat.add_right_comm, Nat.add_assoc]

/-- The last element, and those before it. -/
theorem contents_back (h : q.empty = false) : q.contents = q.back.contents ++ [q.last] := by
  have h1 := q.head_lt
  have h2 := q.tail_lt
  have hne : q.head ≠ q.tail := fun he => by
    rw [empty, beq_iff_eq.mpr he] at h
    cases h
  have hh : q.back.head = if q.head = 0 then n - 1 else q.head - 1 := pred_mod h1
  have hc : q.chars = q.back.chars + 1 := by
    have ht : q.back.tail = q.tail := rfl
    rw [chars_eq, chars_eq, ht, hh]
    split <;> split <;> split <;> omega
  unfold contents
  rw [hc, List.range_succ, List.map_append]
  refine congrArg₂ (· ++ ·) rfl ?_
  have := q.back.tail_add_chars
  show [q.buf ((q.back.tail + q.back.chars) % n)] = [q.last]
  rw [this]
  rfl

/-- Several elements taken one after the other. -/
theorem contents_repeat_take {m : Nat} (h : m ≤ q.contents.length) :
    (Nat.repeat take m q).contents = q.contents.drop m := by
  induction m with
  | zero => rfl
  | succ m ih =>
    have hm := ih (Nat.le_of_succ_le h)
    have hne : (Nat.repeat take m q).empty = false := by
      rw [Bool.eq_false_iff, ne_eq, empty_iff_contents, hm, List.drop_eq_nil_iff]
      omega
    have ht := contents_take hne
    show (take (Nat.repeat take m q)).contents = _
    rw [← List.drop_drop, ← hm, ht]
    rfl

theorem contents_fresh {buf : Nat → α} (h : 0 < n) : (fresh buf h).contents = [] := by
  rw [← List.length_eq_zero_iff, length_contents, ← empty_iff]
  rfl

/-! ## Room -/

theorem spilled_back : q.back.spilled = q.spilled := rfl

theorem left_put (h : q.full = false) : (q.put c).left + 1 = q.left := by
  have h1 := q.left_eq
  have h2 := (q.put c).left_eq
  rw [chars_put h] at h2
  omega

theorem left_take (h : q.empty = false) : q.take.left = q.left + 1 := by
  have h1 := q.left_contents
  have h2 := q.take.left_contents
  rw [contents_take h, List.length_cons] at h1
  omega

theorem left_back (h : q.empty = false) : q.back.left = q.left + 1 := by
  have h1 := q.left_contents
  have h2 := q.back.left_contents
  rw [contents_back h, List.length_append, List.length_singleton] at h1
  omega

theorem not_full (h : 0 < q.left) : q.full = false := beq_eq_false_iff_ne.mpr (Nat.ne_of_gt h)

/-- Elements put one after the other. -/
def putAll (cs : List α) (q : Queue α n) : Queue α n := cs.foldl (fun q c => q.put c) q

theorem tail_putAll {cs : List α} : (q.putAll cs).tail = q.tail := by
  induction cs generalizing q with
  | nil => rfl
  | cons c cs ih => exact ih (q := q.put c)

theorem head_putAll {cs : List α} : (q.putAll cs).head = (q.head + cs.length) % n := by
  induction cs generalizing q with
  | nil => exact (Nat.mod_eq_of_lt q.head_lt).symm
  | cons c cs ih =>
    refine (ih (q := q.put c)).trans ?_
    show ((q.head + 1) % n + cs.length) % n = _
    rw [Nat.mod_add_mod, List.length_cons, Nat.add_right_comm, Nat.add_assoc]

/-- Where there is room for all of them they come last. -/
theorem contents_putAll {cs : List α} (h : cs.length ≤ q.left) :
    (q.putAll cs).contents = q.contents ++ cs := by
  induction cs generalizing q with
  | nil => exact (List.append_nil _).symm
  | cons c cs ih =>
    have hf : q.full = false := not_full (Nat.lt_of_lt_of_le (Nat.succ_pos _) h)
    have hroom : cs.length ≤ (q.put c).left := by
      have hl := left_put hf (c := c)
      rw [List.length_cons] at h
      omega
    refine (ih hroom).trans ?_
    rw [contents_put hf, List.append_assoc]
    rfl

/-- The cells from the tail to the head are all that counts. -/
theorem contents_congr {q' : Queue α n} (hhead : q'.head = q.head) (htail : q'.tail = q.tail)
    (h : ∀ k < q.chars, q'.buf ((q.tail + k) % n) = q.buf ((q.tail + k) % n)) :
    q'.contents = q.contents := by
  unfold contents
  rw [show q'.chars = q.chars by unfold chars; rw [hhead, htail], htail]
  exact List.map_congr_left fun k hk => h k (List.mem_range.mp hk)

/-- They fit, or something is lost. -/
theorem spilled_putAll {cs : List α} :
    (q.putAll cs).spilled = (q.spilled || decide (q.left < cs.length)) := by
  induction cs generalizing q with
  | nil => exact (Bool.or_false _).symm
  | cons c cs ih =>
    refine (ih (q := q.put c)).trans ?_
    show (q.spilled || q.full || decide ((q.put c).left < cs.length)) =
      (q.spilled || decide (q.left < cs.length + 1))
    rw [Bool.or_assoc]
    refine congrArg (q.spilled || ·) ?_
    cases hf : q.full with
    | true =>
      have h0 : q.left = 0 := beq_iff_eq.mp hf
      rw [h0, Bool.true_or, decide_eq_true (Nat.succ_pos _)]
    | false =>
      rw [← left_put hf (c := c), Bool.false_or]
      exact decide_eq_decide.mpr (Nat.add_lt_add_iff_right).symm

end Queue

end Linux011.Lib
