import Mathlib.Order.Basic

/-!
# Scans

A scan goes from index to index and stops at the first one where something is the case. What it stops for
may be of two kinds: something it looks for, a hit, or something it cannot get past, a trap.
-/

namespace Linux011.Lib

variable {P Q : Nat → Prop} {i j l m : Nat}

/-- `l` is the first index from `i` on where `P` holds. -/
structure First (P : Nat → Prop) (i l : Nat) : Prop where
  le : i ≤ l
  holds : P l
  before : ∀ m, i ≤ m → m < l → ¬ P m

theorem First.here (h : P i) : First P i i :=
  ⟨Nat.le_refl i, h, fun _ hi hlt => absurd hlt (Nat.not_lt.2 hi)⟩

/-- Indices where `P` does not hold can be passed. -/
theorem First.pass (h : First P j l) (hij : i ≤ j) (hno : ∀ m, i ≤ m → m < j → ¬ P m) : First P i l := by
  refine ⟨Nat.le_trans hij h.le, h.holds, fun m hi hlt => ?_⟩
  rcases Nat.lt_or_ge m j with hmj | hmj
  · exact hno m hi hmj
  · exact h.before m hmj hlt

theorem First.unique (h : First P i l) (h' : First P i m) : l = m := by
  rcases Nat.lt_trichotomy l m with hlt | rfl | hlt
  · exact absurd h.holds (h'.before l h.le hlt)
  · rfl
  · exact absurd h'.holds (h.before m h'.le hlt)

theorem First.congr (h : First P i l) (hpq : ∀ m, i ≤ m → m ≤ l → (P m ↔ Q m)) : First Q i l := by
  refine ⟨h.le, (hpq l h.le (Nat.le_refl l)).1 h.holds, fun m hi hlt hq => ?_⟩
  exact h.before m hi hlt ((hpq m hi (Nat.le_of_lt hlt)).2 hq)

variable {ε α : Type*} {hit trap : Nat → Prop} {found : Nat → α → Prop} {missed : α → Prop}
  {r : Except ε α}

/-- `r` is what a scan from `i` on comes to: the first hit, or the end, or an error at the first trap. -/
inductive Scanned (hit trap : Nat → Prop) (found : Nat → α → Prop) (missed : α → Prop) (i : Nat) :
    Except ε α → Prop
  | found {l : Nat} {a : α} (h : First (fun m => hit m ∨ trap m) i l) (hl : hit l) (ha : found l a) :
    Scanned hit trap found missed i (.ok a)
  | missed {a : α} (h : ∀ m, i ≤ m → ¬ (hit m ∨ trap m)) (ha : missed a) :
    Scanned hit trap found missed i (.ok a)
  | trapped {l : Nat} {e : ε} (h : First (fun m => hit m ∨ trap m) i l) (hl : trap l) :
    Scanned hit trap found missed i (.error e)

namespace Scanned

theorem pass (h : Scanned hit trap found missed j r) (hij : i ≤ j)
    (hno : ∀ m, i ≤ m → m < j → ¬ (hit m ∨ trap m)) : Scanned hit trap found missed i r := by
  cases h with
  | found h hl ha => exact .found (h.pass hij hno) hl ha
  | missed h ha =>
    refine .missed (fun m him => ?_) ha
    rcases Nat.lt_or_ge m j with hmj | hmj
    · exact hno m him hmj
    · exact h m hmj
  | trapped h hl => exact .trapped (h.pass hij hno) hl

theorem step (h : Scanned hit trap found missed (i + 1) r) (hh : ¬ hit i) (ht : ¬ trap i) :
    Scanned hit trap found missed i r := by
  refine h.pass (Nat.le_succ i) fun m him hlt => ?_
  obtain rfl : m = i := by omega
  exact not_or_intro hh ht

/-- A scan ends without an error exactly if there is a hit before each trap. -/
theorem ok_iff (h : Scanned hit trap found missed i r) (hne : ∀ m, hit m → ¬ trap m) :
    (∃ a, r = .ok a) ↔ ∀ t, i ≤ t → trap t → ∃ m, i ≤ m ∧ m < t ∧ hit m := by
  cases h with
  | found h hl ha =>
    rename_i l a
    refine ⟨fun _ t him ht => ⟨l, h.le, Nat.lt_of_not_le fun hle => ?_, hl⟩, fun _ => ⟨a, rfl⟩⟩
    rcases Nat.lt_or_eq_of_le hle with hlt | rfl
    · exact h.before t him hlt (.inr ht)
    · exact hne t hl ht
  | missed h ha => exact ⟨fun _ t him ht => absurd (Or.inr ht) (h t him), fun _ => ⟨_, rfl⟩⟩
  | trapped h hl =>
    refine ⟨fun hok => ?_, fun hall => ?_⟩
    · obtain ⟨_, hok⟩ := hok
      cases hok
    · obtain ⟨m, him, hlt, hm⟩ := hall _ h.le hl
      exact absurd (Or.inl hm) (h.before m him hlt)

end Scanned

end Linux011.Lib
