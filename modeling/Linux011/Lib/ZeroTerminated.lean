import Mathlib.Logic.Basic

/-!
# Zero-terminated strings and the scans over them

A string in a memory of bytes ends at the first zero. `repneScasb` and `repeCmpsb` are the string
instructions that look for a byte and compare two blocks; each gives the registers and the zero flag
it ends with. A repeated instruction with the count 0 does nothing, and leaves the flag as it was; some
code relies on that.
-/

namespace Linux011.Lib

variable {m m' : Nat → BitVec 8} {p q ecx : Nat} {s t : List (BitVec 8)} {c al : BitVec 8} {zf : Bool}

/-- The string at `p`. -/
def IsString (m : Nat → BitVec 8) : Nat → List (BitVec 8) → Prop
  | p, [] => m p = 0
  | p, c :: s => m p = c ∧ c ≠ 0 ∧ IsString m (p + 1) s

instance IsString.decidable (m : Nat → BitVec 8) : ∀ p s, Decidable (IsString m p s)
  | p, [] => inferInstanceAs (Decidable (m p = 0))
  | p, c :: s =>
    have := IsString.decidable m (p + 1) s
    inferInstanceAs (Decidable (m p = c ∧ c ≠ 0 ∧ IsString m (p + 1) s))

theorem IsString.congr (h : IsString m p s) (he : ∀ i ≤ s.length, m' (p + i) = m (p + i)) :
    IsString m' p s := by
  induction s generalizing p with
  | nil => exact (he 0 (Nat.le_refl 0)).trans h
  | cons c s ih =>
    obtain ⟨hc, hne, hs⟩ := h
    refine ⟨(he 0 (Nat.zero_le _)).trans hc, hne, ih hs fun i hi => ?_⟩
    have hnext := he (i + 1) (Nat.succ_le_succ hi)
    rwa [show p + (i + 1) = p + 1 + i by omega] at hnext

/-- A string in two parts. -/
theorem isString_append : IsString m p (s ++ t) ↔
    (∀ i (h : i < s.length), m (p + i) = s[i] ∧ s[i] ≠ 0) ∧ IsString m (p + s.length) t := by
  induction s generalizing p with
  | nil => exact ⟨fun h => ⟨fun i hi => absurd hi (Nat.not_lt_zero i), h⟩, fun h => h.2⟩
  | cons c s ih =>
    have hlen : p + (c :: s).length = p + 1 + s.length := by
      rw [List.length_cons]
      omega
    rw [List.cons_append, IsString, ih, hlen]
    constructor
    · rintro ⟨hc, hne, hchars, ht⟩
      refine ⟨fun i hi => ?_, ht⟩
      cases i with
      | zero => exact ⟨hc, hne⟩
      | succ i =>
        rw [show p + (i + 1) = p + 1 + i by omega]
        exact hchars i (Nat.lt_of_succ_lt_succ hi)
    · rintro ⟨hchars, ht⟩
      refine ⟨(hchars 0 (Nat.succ_pos _)).1, (hchars 0 (Nat.succ_pos _)).2, fun i hi => ?_, ht⟩
      have hnext := hchars (i + 1) (Nat.succ_lt_succ hi)
      rwa [show p + (i + 1) = p + 1 + i by omega] at hnext

/-- The zero at its end. -/
theorem IsString.zero (h : IsString m p s) : m (p + s.length) = 0 := by
  rw [← List.append_nil s] at h
  exact (isString_append.mp h).2

/-! ## `repne scasb` -/

/-- Look for `al` from `edi` on; `ecx`, `edi` and the zero flag at the end. -/
def repneScasb (m : Nat → BitVec 8) (al : BitVec 8) : Nat → Nat → Bool → Nat × Nat × Bool
  | 0, edi, zf => (0, edi, zf)
  | ecx + 1, edi, _ => if m edi = al then (ecx, edi + 1, true) else repneScasb m al ecx (edi + 1) false

/-- The end of a string is found. -/
theorem repneScasb_zero (h : IsString m p s) (hlen : s.length < ecx) :
    repneScasb m 0 ecx p zf = (ecx - (s.length + 1), p + s.length + 1, true) := by
  induction s generalizing p ecx zf with
  | nil =>
    have h : m p = 0 := h
    cases ecx with
    | zero => exact absurd hlen (Nat.not_lt_zero _)
    | succ n =>
      rw [repneScasb, if_pos h]
      rfl
  | cons c s ih =>
    obtain ⟨hc, hne, hs⟩ := h
    rw [List.length_cons] at hlen
    cases ecx with
    | zero => exact absurd hlen (Nat.not_lt_zero _)
    | succ n =>
      have hcount : n + 1 - (s.length + 1 + 1) = n - (s.length + 1) := by omega
      have haddr : p + (s.length + 1) + 1 = p + 1 + s.length + 1 := by omega
      rw [List.length_cons, hcount, haddr, repneScasb, if_neg (hc ▸ hne), ih hs (by omega)]

/-- Among the characters of a string. With the flag clear at the start, the empty string is no exception. -/
theorem repneScasb_mem (h : IsString m q t) : (repneScasb m c t.length q false).2.2 = decide (c ∈ t) := by
  induction t generalizing q with
  | nil => rfl
  | cons d t ih =>
    obtain ⟨hd, -, ht⟩ := h
    rw [List.length_cons, repneScasb, hd]
    by_cases hcd : d = c
    · rw [if_pos hcd, hcd]
      exact (decide_eq_true List.mem_cons_self).symm
    · rw [if_neg hcd, ih ht, decide_eq_decide, List.mem_cons]
      exact ⟨Or.inr, fun h => h.resolve_left (Ne.symm hcd)⟩

/-! ## `repe cmpsb` -/

/-- Compare `ecx` bytes from `esi` and from `edi` on; `esi` and the zero flag at the end. -/
def repeCmpsb (m : Nat → BitVec 8) : Nat → Nat → Nat → Bool → Nat × Bool
  | 0, esi, _, zf => (esi, zf)
  | ecx + 1, esi, edi, _ =>
    if m esi = m edi then repeCmpsb m ecx (esi + 1) (edi + 1) true else (esi + 1, false)

/-- The string `t` begins the string `s`, or they differ; the byte of `s` where they do is its end if
`s` begins `t`. -/
theorem repeCmpsb_spec (zf : Bool) (hs : IsString m p s) (ht : IsString m q t) :
    (t <+: s → (repeCmpsb m t.length p q zf).2 = (zf || !t.isEmpty)) ∧
    (¬ t <+: s → (repeCmpsb m t.length p q zf).2 = false ∧
      (m ((repeCmpsb m t.length p q zf).1 - 1) = 0 ↔ s <+: t)) := by
  induction t generalizing s p q zf with
  | nil => exact ⟨fun _ => (Bool.or_false zf).symm, fun h => absurd (List.nil_prefix) h⟩
  | cons d t ih =>
    obtain ⟨hd, hd0, ht⟩ := ht
    cases s with
    | nil =>
      have hs : m p = 0 := hs
      have hne : ¬ m p = m q := fun he => hd0 (hd.symm.trans (he.symm.trans hs))
      rw [List.length_cons, repeCmpsb, if_neg hne]
      refine ⟨fun h => ?_, fun _ => ⟨rfl, iff_of_true hs List.nil_prefix⟩⟩
      exact absurd (List.prefix_nil.mp h) (List.cons_ne_nil d t)
    | cons c s =>
      obtain ⟨hc, hc0, hs⟩ := hs
      rw [List.length_cons, repeCmpsb, hc, hd]
      by_cases hcd : c = d
      · subst hcd
        obtain ⟨hyes, hno⟩ := ih true hs ht
        rw [if_pos rfl, List.prefix_cons_inj, List.prefix_cons_inj]
        exact ⟨fun h => (hyes h).trans (Bool.or_true zf).symm, hno⟩
      · rw [if_neg hcd]
        have hno : ∀ a b : List (BitVec 8), ¬ c :: a <+: d :: b := fun a b h =>
          hcd (List.cons_prefix_cons.mp h).1
        have hno' : ∀ a b : List (BitVec 8), ¬ d :: a <+: c :: b := fun a b h =>
          hcd (List.cons_prefix_cons.mp h).1.symm
        refine ⟨fun h => absurd h (hno' t s), fun _ => ⟨rfl, iff_of_false ?_ (hno s t)⟩⟩
        rw [Nat.add_sub_cancel, hc]
        exact hc0

end Linux011.Lib
