import Mathlib.Logic.Function.Basic
import Mathlib.Data.List.Basic

/-!
# Memory behind a page table

Pages of cells, a table that says which page stands at each place, and an allocator that never gives
the same page twice. The table entry 0 means that no page is there; an access to such a place brings
a fresh page first.

What a reader of the memory sees is `view`: the cell at an address, or nothing where no page is. When
no page stands at two places (`Sound`), a store is seen at its own address and nowhere else.
-/

namespace Linux011.Lib

/-- What an allocator hands out: pages that are not 0 and never come twice. -/
structure Supply where
  frame : Nat → Nat
  ne_zero : ∀ n, frame n ≠ 0
  injective : Function.Injective frame

/-- The pages, the table, and how many pages were handed out so far. -/
structure Paged (β : Type*) where
  ram : Nat → Nat → β
  table : Nat → Nat
  taken : Nat

namespace Paged

variable {β : Type*} {S : Supply} {size : Nat} {fill : Nat → Nat → β} {m m' : Paged β}
  {a a' k f n : Nat} {b c : β} {text : List β}

/-! ## Operations -/

/-- The cell at an address, where a page is. -/
def view (size : Nat) (m : Paged β) (a : Nat) : Option β :=
  if m.table (a / size) = 0 then none else some (m.ram (m.table (a / size)) (a % size))

/-- A fresh page with the given contents, at place `k`. -/
def bring (S : Supply) (page : Nat → β) (k : Nat) (m : Paged β) : Paged β where
  ram := Function.update m.ram (S.frame m.taken) page
  table := Function.update m.table k (S.frame m.taken)
  taken := m.taken + 1

/-- Bring a page to the address if none is there; `fill k` is what a page for place `k` holds. -/
def touch (S : Supply) (size : Nat) (fill : Nat → Nat → β) (a : Nat) (m : Paged β) : Paged β :=
  if m.table (a / size) = 0 then m.bring S (fill (a / size)) (a / size) else m

def poke (f o : Nat) (b : β) (m : Paged β) : Paged β :=
  { m with ram := Function.update m.ram f (Function.update (m.ram f) o b) }

def store (S : Supply) (size : Nat) (fill : Nat → Nat → β) (a : Nat) (b : β) (m : Paged β) : Paged β :=
  (m.touch S size fill a).poke ((m.touch S size fill a).table (a / size)) (a % size) b

/-- The cell at an address, and the memory after the access. -/
def load (S : Supply) (size : Nat) (fill : Nat → Nat → β) (a : Nat) (m : Paged β) : β × Paged β :=
  ((m.touch S size fill a).ram ((m.touch S size fill a).table (a / size)) (a % size),
    m.touch S size fill a)

/-! ## No page at two places -/

structure Sound (S : Supply) (m : Paged β) : Prop where
  injective : ∀ {i j}, m.table i ≠ 0 → m.table i = m.table j → i = j
  taken : ∀ {i}, m.table i ≠ 0 → ∃ n < m.taken, m.table i = S.frame n

theorem Sound.empty (h : ∀ k, m.table k = 0) : m.Sound S :=
  ⟨fun hi => absurd (h _) hi, fun hi => absurd (h _) hi⟩

/-- The page to be handed out next stands nowhere. -/
theorem Sound.fresh (M : m.Sound S) (k : Nat) : m.table k ≠ S.frame m.taken := by
  intro h
  obtain ⟨n, hn, hk⟩ := M.taken (h ▸ S.ne_zero _)
  have : m.taken = n := S.injective (h.symm.trans hk)
  omega

theorem Sound.bring (M : m.Sound S) (page : Nat → β) : (m.bring S page k).Sound S := by
  constructor
  · intro i j hi hij
    simp only [Paged.bring, Function.update_apply] at hi hij
    by_cases hik : i = k
    · by_cases hjk : j = k
      · rw [hik, hjk]
      · rw [if_pos hik, if_neg hjk] at hij
        exact absurd hij.symm (M.fresh j)
    · by_cases hjk : j = k
      · rw [if_neg hik, if_pos hjk] at hij
        exact absurd hij (M.fresh i)
      · rw [if_neg hik] at hi
        rw [if_neg hik, if_neg hjk] at hij
        exact M.injective hi hij
  · intro i hi
    simp only [Paged.bring, Function.update_apply] at hi ⊢
    by_cases hik : i = k
    · exact ⟨m.taken, Nat.lt_succ_self _, if_pos hik⟩
    · rw [if_neg hik] at hi ⊢
      obtain ⟨n, hn, h⟩ := M.taken hi
      exact ⟨n, Nat.lt_succ_of_lt hn, h⟩

theorem Sound.touch (M : m.Sound S) : (m.touch S size fill a).Sound S := by
  unfold Paged.touch
  split
  · exact M.bring _
  · exact M

theorem Sound.store (M : m.Sound S) : (m.store S size fill a b).Sound S :=
  have T : (m.touch S size fill a).Sound S := M.touch
  ⟨T.injective, T.taken⟩

/-! ## What is seen -/

theorem view_isSome (h : m.view size a = some b) : m.table (a / size) ≠ 0 := by
  intro h0
  rw [view, if_pos h0] at h
  cases h

theorem touch_present : (m.touch S size fill a).table (a / size) ≠ 0 := by
  unfold touch
  split
  · show Function.update m.table (a / size) (S.frame m.taken) (a / size) ≠ 0
    rw [Function.update_self]
    exact S.ne_zero _
  · next h => exact h

/-- What was seen is still seen when a page was brought. -/
theorem touch_view (M : m.Sound S) (h : m.view size a' = some c) :
    (m.touch S size fill a).view size a' = some c := by
  unfold touch
  split
  · next h0 =>
    have hp := view_isSome h
    have hne : a' / size ≠ a / size := fun e => hp (e ▸ h0)
    rw [view, if_neg hp] at h
    have ht : (m.bring S (fill (a / size)) (a / size)).table (a' / size) = m.table (a' / size) :=
      Function.update_of_ne hne _ _
    rw [view, ht, if_neg hp, ← h]
    show some (Function.update m.ram _ _ _ _) = _
    rw [Function.update_of_ne (M.fresh _)]
  · exact h

theorem touch_of_present (h : m.table (a / size) ≠ 0) : m.touch S size fill a = m := if_neg h

theorem poke_view (h : m.table (a / size) ≠ 0) : (m.poke f n b).view size a =
    some (Function.update m.ram f (Function.update (m.ram f) n b) (m.table (a / size)) (a % size)) :=
  if_neg h

theorem store_here : (m.store S size fill a b).view size a = some b := by
  rw [store, poke_view touch_present, Function.update_self, Function.update_self]

theorem store_there (M : m.Sound S) (hne : a' ≠ a) (h : m.view size a' = some c) :
    (m.store S size fill a b).view size a' = some c := by
  have ht : (m.touch S size fill a).view size a' = some c := touch_view M h
  have hp := view_isSome ht
  rw [view, if_neg hp] at ht
  rw [store, poke_view hp, ← ht]
  by_cases hf : (m.touch S size fill a).table (a' / size) = (m.touch S size fill a).table (a / size)
  · have hq := M.touch.injective hp hf
    have ho : a' % size ≠ a % size := fun e => hne (by
      rw [← Nat.div_add_mod a' size, ← Nat.div_add_mod a size, hq, e])
    rw [hf, Function.update_self, Function.update_of_ne ho]
  · rw [Function.update_of_ne hf]

theorem load_eq (h : m.view size a = some b) : m.load S size fill a = (b, m) := by
  have hp := view_isSome h
  rw [view, if_neg hp] at h
  rw [load, touch_of_present hp]
  exact congrArg (·, m) (Option.some.inj h)

/-! ## Runs of cells -/

/-- What is seen from `a` on is the list. -/
def Shows (v : Nat → Option β) (a : Nat) (text : List β) : Prop :=
  ∀ i b, text[i]? = some b → v (a + i) = some b

variable {v v' : Nat → Option β} {rest : List β}

theorem Shows.nil : Shows v a [] := fun i b h => by simp at h

theorem Shows.cons (h : v a = some b) (ht : Shows v (a + 1) text) : Shows v a (b :: text) := by
  intro i c hc
  cases i with
  | zero =>
    cases hc
    exact h
  | succ i =>
    have := ht i c hc
    rwa [show a + 1 + i = a + (i + 1) by omega] at this

theorem Shows.head (h : Shows v a (b :: text)) : v a = some b := h 0 b rfl

theorem Shows.tail (h : Shows v a (b :: text)) : Shows v (a + 1) text := fun i c hc => by
  have := h (i + 1) c hc
  rwa [show a + (i + 1) = a + 1 + i by omega] at this

theorem Shows.append (h : Shows v a text) (hr : Shows v a' rest) (ha : a' = a + text.length) :
    Shows v a (text ++ rest) := by
  induction text generalizing a with
  | nil =>
    rw [ha] at hr
    exact hr
  | cons b text ih =>
    rw [List.length_cons] at ha
    exact Shows.cons h.head (ih h.tail (by omega))

theorem Shows.left (h : Shows v a (text ++ rest)) : Shows v a text := by
  intro i c hc
  refine h i c ?_
  rw [List.getElem?_append_left (List.getElem?_eq_some_iff.mp hc).1]
  exact hc

theorem Shows.right (h : Shows v a (text ++ rest)) : Shows v (a + text.length) rest := by
  intro i c hc
  have := h (text.length + i) c (by
    rw [List.getElem?_append_right (by omega), Nat.add_sub_cancel_left]
    exact hc)
  rwa [← Nat.add_assoc] at this

/-! ## What an operation keeps -/

/-- Outside of the given range, what was seen is still seen. -/
def Kept (size lo hi : Nat) (m m' : Paged β) : Prop :=
  ∀ a c, a < lo ∨ hi ≤ a → m.view size a = some c → m'.view size a = some c

variable {m'' : Paged β} {lo hi lo' hi' : Nat}

theorem Kept.refl : Kept size lo hi m m := fun _ _ _ h => h

theorem Kept.trans (h : Kept size lo hi m m') (h' : Kept size lo hi m' m'') :
    Kept size lo hi m m'' := fun a c ha hc => h' a c ha (h a c ha hc)

theorem Kept.mono (h : Kept size lo hi m m') (hlo : lo' ≤ lo) (hhi : hi ≤ hi') :
    Kept size lo' hi' m m' := fun a c ha hc => h a c (by omega) hc

theorem Kept.store (M : m.Sound S) : Kept size a (a + 1) m (m.store S size fill a b) :=
  fun _ _ ha hc => store_there M (by omega) hc

theorem Kept.shows (h : Kept size lo hi m m') (ht : Shows (m.view size) a text)
    (ha : a + text.length ≤ lo ∨ hi ≤ a) : Shows (m'.view size) a text := by
  intro i c hc
  have := (List.getElem?_eq_some_iff.mp hc).1
  exact h _ _ (by omega) (ht i c hc)

end Paged

end Linux011.Lib
