import Mathlib.Logic.Function.Basic
import Linux011.Strings.Search

/-!
# `strtok` (`include/string.h`)

`strtok` cuts a string into its tokens, one at each call; between the calls the place where it goes on is
in `___strtok`. It writes a zero over the character behind the token, so the tokens stay where they were.
A token that the string ends with sets `___strtok` to NULL, and the next call finds nothing.

The calls together give the tokens of the string: the pieces between the delimiters that are not empty,
in their order.
-/

namespace Linux011.Strings

open Lib (IsString isString_append)

variable {m : Mem} {p q esi : Nat} {s t : List Byte} {fuel : Nat}

/-! ## The code -/

/-- What a call returns, `___strtok` after it, and the memory. -/
structure Cut where
  res : Nat
  strtok : Nat
  mem : Mem

/-- Label 7 with nothing found. -/
def nothing (m : Mem) : Cut := ⟨0, 0, m⟩

/-- Labels 6 and 7. -/
def cut (m : Mem) (ebx esi : Nat) : Cut := if m ebx = 0 then nothing m else ⟨ebx, esi, m⟩

/-- `strtok` from label 1 on. -/
def strtokFrom (fuel : Nat) (m : Mem) (esi ct : Nat) : Option Cut := do
  let edx := strlen m ct
  if edx = 0 then return nothing m
  let (esi, al) ← skip m ct edx true fuel esi
  if al = 0 then return nothing m
  let ebx := esi - 1
  if m ebx = 0 then return nothing m
  let (esi, al) ← skip m ct edx false fuel ebx
  if al = 0 ∨ m (esi - 1) = 0 then return cut m ebx 0
  return cut (Function.update m (esi - 1) 0) ebx esi

def strtok (fuel : Nat) (m : Mem) (strtok s ct : Nat) : Option Cut :=
  if s ≠ 0 then strtokFrom fuel m s ct
  else if strtok ≠ 0 then strtokFrom fuel m strtok ct
  else some (nothing m)

/-- `strtok(s, ct)`, then `strtok(NULL, ct)` until it returns NULL: the tokens and the memory. -/
def tokens (fuel ct : Nat) : Nat → Mem → Nat → Nat → Option (List Nat × Mem)
  | 0, _, _, _ => none
  | calls + 1, m, strtok', s => do
    let c ← strtok fuel m strtok' s ct
    if c.res = 0 then return ([], c.mem)
    let (rest, m) ← tokens fuel ct calls c.mem c.strtok 0
    return (c.res :: rest, m)

/-! ## Tokens -/

/-- The pieces between the delimiters that are not empty. -/
noncomputable def tokensOf (t s : List Byte) : List (List Byte) :=
  (s.splitOnP (· ∈ t)).filter (· ≠ [])

/-- Delimiters at the beginning do not matter. -/
theorem tokensOf_lead {lead : List Byte} (h : ∀ c ∈ lead, c ∈ t) : tokensOf t (lead ++ s) = tokensOf t s := by
  induction lead with
  | nil => rfl
  | cons c lead ih =>
    obtain ⟨hc, hlead⟩ := List.forall_mem_cons.mp h
    rw [← ih hlead, List.cons_append]
    unfold tokensOf
    rw [List.splitOnP_cons_eq_if_modifyHead, if_pos (decide_eq_true hc), List.filter_cons_of_neg (by simp)]

/-- A token at the end of the string. -/
theorem tokensOf_last {tok : List Byte} (h : ∀ c ∈ tok, c ∉ t) (hne : tok ≠ []) :
    tokensOf t tok = [tok] := by
  unfold tokensOf
  rw [List.splitOnP_eq_singleton fun c hc => decide_eq_false (h c hc),
    List.filter_cons_of_pos (p := fun x : List Byte => decide (x ≠ [])) (decide_eq_true hne)]
  rfl

/-- A token with a delimiter behind it. -/
theorem tokensOf_cut {tok rest : List Byte} {d : Byte} (h : ∀ c ∈ tok, c ∉ t) (hne : tok ≠ [])
    (hd : d ∈ t) : tokensOf t (tok ++ d :: rest) = tok :: tokensOf t rest := by
  unfold tokensOf
  rw [List.splitOnP_append_cons_of_forall_mem (fun c hc => decide_eq_false (h c hc)) d (decide_eq_true hd),
    List.filter_cons_of_pos (p := fun x : List Byte => decide (x ≠ [])) (decide_eq_true hne)]

/-- How a string falls into the delimiters at its beginning, a token, and what is behind it. -/
inductive Parts (t : List Byte) : List Byte → Prop
  | none (lead : List Byte) : (∀ c ∈ lead, c ∈ t) → Parts t lead
  | last (lead tok : List Byte) : (∀ c ∈ lead, c ∈ t) → (∀ c ∈ tok, c ∉ t) → tok ≠ [] →
    Parts t (lead ++ tok)
  | cut (lead tok : List Byte) (d : Byte) (rest : List Byte) : (∀ c ∈ lead, c ∈ t) →
    (∀ c ∈ tok, c ∉ t) → tok ≠ [] → d ∈ t → Parts t (lead ++ (tok ++ d :: rest))

theorem Parts.delimiter {d : Byte} (h : Parts t s) (hd : d ∈ t) : Parts t (d :: s) := by
  have hlead : ∀ {lead : List Byte}, (∀ c ∈ lead, c ∈ t) → ∀ c ∈ d :: lead, c ∈ t :=
    fun hl => List.forall_mem_cons.mpr ⟨hd, hl⟩
  cases h with
  | none _ hl => exact .none _ (hlead hl)
  | last lead tok hl htok hne => exact .last (d :: lead) tok (hlead hl) htok hne
  | cut lead tok e rest hl htok hne he => exact .cut (d :: lead) tok e rest (hlead hl) htok hne he

theorem Parts.char {c : Byte} (h : Parts t s) (hc : c ∉ t) : Parts t (c :: s) := by
  have hnil : ∀ x ∈ ([] : List Byte), x ∈ t := fun x hx => by cases hx
  have hone : ∀ x ∈ [c], x ∉ t := fun x hx => List.mem_singleton.mp hx ▸ hc
  cases h with
  | none _ hl =>
    cases s with
    | nil => exact .last [] [c] hnil hone (List.cons_ne_nil _ _)
    | cons d lead => exact .cut [] [c] d lead hnil hone (List.cons_ne_nil _ _) (hl d List.mem_cons_self)
  | last lead tok hl htok hne =>
    cases lead with
    | nil => exact .last [] (c :: tok) hnil (List.forall_mem_cons.mpr ⟨hc, htok⟩) (List.cons_ne_nil _ _)
    | cons d lead =>
      exact .cut [] [c] d (lead ++ tok) hnil hone (List.cons_ne_nil _ _) (hl d List.mem_cons_self)
  | cut lead tok e rest hl htok hne he =>
    cases lead with
    | nil =>
      exact .cut [] (c :: tok) e rest hnil (List.forall_mem_cons.mpr ⟨hc, htok⟩) (List.cons_ne_nil _ _) he
    | cons d lead =>
      exact .cut [] [c] d (lead ++ (tok ++ e :: rest)) hnil hone (List.cons_ne_nil _ _)
        (hl d List.mem_cons_self)

theorem parts (t s : List Byte) : Parts t s := by
  induction s with
  | nil => exact .none [] fun c hc => by cases hc
  | cons c s ih =>
    by_cases hc : c ∈ t
    · exact ih.delimiter hc
    · exact ih.char hc

/-! ## A call -/

/-- A run of the set, or outside of it, up to a character that ends it or the end of the string. -/
theorem skip_run {inside : Bool} {run rest : List Byte} (hs : IsString m p (run ++ rest))
    (ht : IsString m q t) (hfuel : (run ++ rest).length < fuel)
    (hrun : ∀ c ∈ run, decide (c ∈ t) = inside) (hrest : ∀ c, rest.head? = some c → decide (c ∈ t) ≠ inside) :
    skip m q t.length inside fuel p = some (p + run.length + 1, m (p + run.length)) := by
  have htake : (run ++ rest).takeWhile (fun c => decide (c ∈ t) = inside) = run := by
    rw [List.takeWhile_append_of_pos fun c hc => decide_eq_true (hrun c hc)]
    cases rest with
    | nil => exact List.append_nil run
    | cons c rest =>
      rw [List.takeWhile_cons_of_neg (p := fun c => decide (decide (c ∈ t) = inside))
        fun h => hrest c rfl (of_decide_eq_true h), List.append_nil]
  rw [skip_eq inside hs ht hfuel, htake]

/-- What a call needs: the set, and room for the loops. -/
structure Ready (m : Mem) (q : Nat) (t : List Byte) (fuel n : Nat) : Prop where
  set : IsString m q t
  some : t ≠ []
  short : t.length < 0xffffffff
  fuel : n < fuel

theorem Ready.strlen (R : Ready m q t fuel n) : strlen m q = t.length ∧ strlen m q ≠ 0 := by
  have hlen := strlen_eq R.set R.short
  exact ⟨hlen, hlen ▸ fun h => R.some (List.eq_nil_of_length_eq_zero h)⟩

/-- Delimiters only. -/
theorem strtokFrom_none {lead : List Byte} (R : Ready m q t fuel lead.length) (hs : IsString m p lead)
    (hlead : ∀ c ∈ lead, c ∈ t) : strtokFrom fuel m p q = some (nothing m) := by
  obtain ⟨hlen, hne⟩ := R.strlen
  have hall : lead ++ [] = lead := List.append_nil lead
  have hrun : IsString m p (lead ++ []) := hall.symm ▸ hs
  have hskip : skip m q t.length true fuel p = some (p + lead.length + 1, m (p + lead.length)) :=
    skip_run hrun R.set (hall.symm ▸ R.fuel)
      (fun c hc => decide_eq_true (hlead c hc)) (fun c hc => by cases hc)
  unfold strtokFrom
  dsimp only
  rw [if_neg hne, hlen, hskip]
  dsimp only [Option.bind_eq_bind, Option.bind_some]
  rw [if_pos hs.zero]
  rfl

/-- A token: the call returns it, and goes on behind the delimiter that it has overwritten. -/
theorem strtokFrom_token {lead tok rest : List Byte} (R : Ready m q t fuel (lead ++ (tok ++ rest)).length)
    (hs : IsString m p (lead ++ (tok ++ rest))) (hlead : ∀ c ∈ lead, c ∈ t) (htok : ∀ c ∈ tok, c ∉ t)
    (hne : tok ≠ []) (hrest : ∀ c, rest.head? = some c → c ∈ t) :
    strtokFrom fuel m p q = some (if rest = [] then ⟨p + lead.length, 0, m⟩ else
      ⟨p + lead.length, p + lead.length + tok.length + 1,
        Function.update m (p + lead.length + tok.length) 0⟩) := by
  obtain ⟨hlen, hne'⟩ := R.strlen
  obtain ⟨c, tok', rfl⟩ := List.exists_cons_of_ne_nil hne
  have hfirst : skip m q t.length true fuel p = some (p + lead.length + 1, m (p + lead.length)) :=
    skip_run hs R.set R.fuel (fun c hc => decide_eq_true (hlead c hc)) fun e he hmem => by
      cases he
      exact htok c List.mem_cons_self (of_decide_eq_true hmem)
  have htail := (isString_append.mp hs).2
  have hc : m (p + lead.length) ≠ 0 := fun h => htail.2.1 (htail.1.symm.trans h)
  have hfuel : (c :: tok' ++ rest).length < fuel := by
    have hall : lead.length + (c :: tok' ++ rest).length < fuel := List.length_append ▸ R.fuel
    omega
  have hsecond : skip m q t.length false fuel (p + lead.length) =
      some (p + lead.length + (c :: tok').length + 1, m (p + lead.length + (c :: tok').length)) :=
    skip_run htail R.set hfuel (fun c hc => decide_eq_false (htok c hc)) fun e he hmem =>
      of_decide_eq_false hmem (hrest e he)
  unfold strtokFrom
  dsimp only
  rw [if_neg hne', hlen, hfirst]
  dsimp only [Option.bind_eq_bind, Option.bind_some]
  rw [if_neg hc, Nat.add_sub_cancel, if_neg hc, hsecond]
  dsimp only [Option.bind_eq_bind, Option.bind_some]
  rw [Nat.add_sub_cancel]
  cases rest with
  | nil =>
    have hzero := htail.zero
    rw [List.append_nil] at hzero
    rw [if_pos (Or.inl hzero), if_pos rfl]
    unfold cut
    rw [if_neg hc]
    rfl
  | cons d rest =>
    have hd := (isString_append.mp htail).2
    have hd0 : m (p + lead.length + (c :: tok').length) ≠ 0 := fun h => hd.2.1 (hd.1.symm.trans h)
    have hother : p + lead.length ≠ p + lead.length + (c :: tok').length := by
      rw [List.length_cons]
      omega
    rw [if_neg (not_or.mpr ⟨hd0, hd0⟩), if_neg (List.cons_ne_nil _ _)]
    unfold cut
    rw [Function.update_of_ne hother, if_neg hc]
    rfl

/-! ## All calls -/

/-- The tokens are where the pointers say, and nothing is touched but the string itself. -/
structure Tokenized (t : List Byte) (p : Nat) (s : List Byte) (m : Mem) (rs : List Nat) (m' : Mem) :
    Prop where
  tokens : List.Forall₂ (IsString m') rs (tokensOf t s)
  frame : ∀ a, a < p ∨ p + s.length ≤ a → m' a = m a

theorem tokens_succ (fuel ct calls : Nat) (m : Mem) (old s : Nat) :
    tokens fuel ct (calls + 1) m old s = (strtok fuel m old s ct).bind fun c =>
      if c.res = 0 then some ([], c.mem)
      else (tokens fuel ct calls c.mem c.strtok 0).bind fun r => some (c.res :: r.1, r.2) := rfl

/-- With nothing left, the next call finds nothing. -/
theorem tokens_end {calls : Nat} (hcalls : 0 < calls) : tokens fuel q calls m 0 0 = some ([], m) := by
  cases calls with
  | zero => exact absurd hcalls (Nat.lt_irrefl 0)
  | succ calls => rfl

/-- A token that has been cut off, in the memory of all calls behind it. -/
theorem IsString.cutOff {m' : Mem} {tok rest : List Byte} (hs : IsString m p (tok ++ rest))
    (hkeep : ∀ a < p + tok.length, m' a = m a) (hzero : m' (p + tok.length) = 0) : IsString m' p tok := by
  rw [← List.append_nil tok]
  refine isString_append.mpr ⟨fun i hi => ?_, hzero⟩
  rw [hkeep _ (Nat.add_lt_add_left hi p)]
  exact (isString_append.mp hs).1 i hi

theorem tokens_spec {old s₀ calls : Nat} (hp : p ≠ 0)
    (hcall : strtok fuel m old s₀ q = strtokFrom fuel m p q) (R : Ready m q t fuel s.length)
    (hs : IsString m p s) (happart : p + s.length ≤ q ∨ q + t.length < p) (hcalls : s.length < calls) :
    ∃ rs m', tokens fuel q calls m old s₀ = some (rs, m') ∧ Tokenized t p s m rs m' := by
  induction calls generalizing p s m old s₀ with
  | zero => exact absurd hcalls (Nat.not_lt_zero _)
  | succ calls ih =>
    rw [tokens_succ, hcall]
    cases parts t s with
    | none _ hlead =>
      have htokens : tokensOf t s = [] := by
        rw [← List.append_nil s, tokensOf_lead hlead]
        rfl
      rw [strtokFrom_none R hs hlead]
      refine ⟨[], m, rfl, ?_, fun a _ => rfl⟩
      rw [htokens]
      exact .nil
    | last lead tok hlead htok hne =>
      have hres : p + lead.length ≠ 0 := fun h => hp (Nat.eq_zero_of_add_eq_zero_right h)
      have hsome : 0 < calls := by
        have htok0 := List.length_pos_of_ne_nil hne
        rw [List.length_append] at hcalls
        omega
      have hall : lead ++ (tok ++ []) = lead ++ tok := by rw [List.append_nil]
      have hrun : IsString m p (lead ++ (tok ++ [])) := hall.symm ▸ hs
      have hfirst := strtokFrom_token (hall.symm ▸ R) hrun hlead htok hne fun c hc => by cases hc
      rw [hfirst, if_pos rfl, Option.bind_some, if_neg hres, tokens_end hsome]
      refine ⟨[p + lead.length], m, rfl, ?_, fun a _ => rfl⟩
      rw [tokensOf_lead hlead, tokensOf_last htok hne]
      exact .cons (isString_append.mp hs).2 .nil
    | cut lead tok d rest hlead htok hne hd =>
      have hres : p + lead.length ≠ 0 := fun h => hp (Nat.eq_zero_of_add_eq_zero_right h)
      have htail := (isString_append.mp hs).2
      have hrest := (isString_append.mp htail).2.2.2
      rw [List.length_append, List.length_append, List.length_cons] at hcalls happart
      have hfuel := R.fuel
      rw [List.length_append, List.length_append, List.length_cons] at hfuel
      rw [strtokFrom_token R hs hlead htok hne fun c hc => by cases hc; exact hd,
        if_neg (List.cons_ne_nil _ _), Option.bind_some, if_neg hres]
      dsimp only
      -- the delimiter is overwritten; the set and what is behind the delimiter stay as they are
      have hkeep : ∀ a, a ≠ p + lead.length + tok.length →
          Function.update m (p + lead.length + tok.length) 0 a = m a := fun a ha => Function.update_of_ne ha 0 m
      have hnext : ∀ m', strtok fuel m' (p + lead.length + tok.length + 1) 0 q =
          strtokFrom fuel m' (p + lead.length + tok.length + 1) q := fun m' => rfl
      obtain ⟨rs, m', hrun, T⟩ := ih (Nat.succ_ne_zero (p + lead.length + tok.length)) (hnext _)
        ⟨R.set.congr fun i hi => hkeep _ (by omega), R.some, R.short, by omega⟩
        (hrest.congr fun i hi => hkeep _ (by omega)) (by omega) (by omega)
      rw [hrun]
      refine ⟨(p + lead.length) :: rs, m', rfl, ?_, fun a ha => ?_⟩
      · rw [tokensOf_lead hlead, tokensOf_cut htok hne hd]
        refine .cons (IsString.cutOff htail (fun a ha => ?_) ?_) T.tokens
        · rw [T.frame a (by omega), hkeep a (by omega)]
        · rw [T.frame _ (by omega), Function.update_self]
      · rw [List.length_append, List.length_append, List.length_cons] at ha
        rw [T.frame a (by omega), hkeep a (by omega)]

/-- THE TOKENS OF A STRING. A call with the string and further calls with NULL, until one finds nothing,
give the tokens of the string in their order, as zero-terminated strings that lie in the string; nothing
else in the memory is changed, and where an earlier string has been left does not matter. -/
theorem strtok_tokens {old calls : Nat} (hp : p ≠ 0) (R : Ready m q t fuel s.length) (hs : IsString m p s)
    (happart : p + s.length ≤ q ∨ q + t.length < p) (hcalls : s.length < calls) :
    ∃ rs m', tokens fuel q calls m old p = some (rs, m') ∧ Tokenized t p s m rs m' :=
  tokens_spec hp (if_pos hp) R hs happart hcalls

/-- ` a b ` at 100 and a blank as the set at 200. -/
def words : Mem := fun a =>
  if a < 200 then [0x20, 0x61, 0x20, 0x62, 0x20].getD (a - 100) 0 else [0x20].getD (a - 200) 0

theorem strtok_tokens_words : ∃ rs m', tokens 6 200 6 words 7 100 = some (rs, m') ∧
    Tokenized [0x20] 100 [0x20, 0x61, 0x20, 0x62, 0x20] words rs m' :=
  strtok_tokens (by decide) ⟨by decide, by decide, by decide, by decide⟩ (by decide) (by decide) (by decide)

end Linux011.Strings
