import Mathlib.Algebra.BigOperators.Intervals
import Mathlib.Algebra.Order.BigOperators.Group.Finset
import Mathlib.Tactic.IntervalCases

/-!
# The Gregorian calendar

Dates with a time of day, from 1970 on, and the number of seconds since its beginning. A date counts whole
years, whole months of its year and whole days of its month; each of them is a digit of a number whose
places do not all have the same size, and a later date is a greater number.
-/

namespace Linux011.Lib.Calendar

def isLeap (y : Nat) : Bool := y % 4 = 0 ∧ (y % 100 ≠ 0 ∨ y % 400 = 0)

/-- The days of a month of a year; January is 0. -/
def monthDays (y : Nat) : Nat → Nat
  | 1 => if isLeap y then 29 else 28
  | 3 | 5 | 8 | 10 => 30
  | _ => 31

def yearDays (y : Nat) : Nat := if isLeap y then 366 else 365

/-- The days from the beginning of 1970 to that of year `y`. -/
def daysBeforeYear (y : Nat) : Nat := ∑ i ∈ Finset.Ico 1970 y, yearDays i

/-- The days of year `y` before month `m`. -/
def daysBeforeMonth (y m : Nat) : Nat := ∑ i ∈ Finset.range m, monthDays y i

/-- A date with a time of day. -/
structure DateTime where
  year : Nat
  mon : Nat
  mday : Nat
  hour : Nat
  min : Nat
  sec : Nat
  year_ge : 1970 ≤ year
  mon_lt : mon < 12
  mday_pos : 1 ≤ mday
  mday_le : mday ≤ monthDays year mon
  hour_lt : hour < 24
  min_lt : min < 60
  sec_lt : sec < 60

namespace DateTime

/-- The days from the beginning of 1970. -/
def days (d : DateTime) : Nat := daysBeforeYear d.year + (daysBeforeMonth d.year d.mon + (d.mday - 1))

/-- The seconds from the beginning of 1970. -/
def seconds (d : DateTime) : Nat := ((d.days * 24 + d.hour) * 60 + d.min) * 60 + d.sec

/-- `d` is earlier than `d'`. -/
def Before (d d' : DateTime) : Prop :=
  [d.year, d.mon, d.mday, d.hour, d.min, d.sec] < [d'.year, d'.mon, d'.mday, d'.hour, d'.min, d'.sec]

end DateTime

theorem monthDays_le (y m : Nat) : monthDays y m ≤ 31 := by
  unfold monthDays
  split
  · split <;> decide
  all_goals decide

/-! ## Order -/

/-- Digits of places of different sizes: a greater digit makes a greater number. -/
theorem place_lt (f : Nat → Nat) {m a a' b b' : Nat} (hm : m ≤ a) (hb : b < f a) (h : a < a') :
    ∑ i ∈ Finset.Ico m a, f i + b < ∑ i ∈ Finset.Ico m a', f i + b' := by
  have hsucc : ∑ i ∈ Finset.Ico m (a + 1), f i = ∑ i ∈ Finset.Ico m a, f i + f a :=
    Finset.sum_Ico_succ_top hm f
  have hle : ∑ i ∈ Finset.Ico m (a + 1), f i ≤ ∑ i ∈ Finset.Ico m a', f i :=
    Finset.sum_le_sum_of_subset (Finset.Ico_subset_Ico (Nat.le_refl m) h)
  omega

theorem daysBeforeMonth_year (y : Nat) : daysBeforeMonth y 12 = yearDays y := by
  unfold daysBeforeMonth yearDays
  cases h : isLeap y <;> simp [Finset.sum_range_succ, monthDays, h]

/-- The months of a year depend on its length alone. -/
theorem daysBeforeMonth_congr {y y' : Nat} (h : isLeap y = isLeap y') (m : Nat) :
    daysBeforeMonth y m = daysBeforeMonth y' m := by
  refine Finset.sum_congr rfl fun i _ => ?_
  unfold monthDays
  rw [h]

/-- The day of a year. -/
theorem dayOfYear_lt (d : DateTime) :
    daysBeforeMonth d.year d.mon + (d.mday - 1) < yearDays d.year := by
  have hle := d.mday_le
  have hpos := d.mday_pos
  have h : ∑ i ∈ Finset.Ico 0 d.mon, monthDays d.year i + (d.mday - 1) <
      ∑ i ∈ Finset.Ico 0 12, monthDays d.year i + 0 :=
    place_lt (monthDays d.year) (Nat.zero_le d.mon) (by omega) d.mon_lt
  rw [← Finset.range_eq_Ico, ← Finset.range_eq_Ico, Nat.add_zero] at h
  rw [← daysBeforeMonth_year]
  exact h

/-- A later date has more seconds. -/
theorem seconds_lt {d d' : DateTime} (h : d.Before d') : d.seconds < d'.seconds := by
  have hhour := d.hour_lt
  have hmin := d.min_lt
  have hsec := d.sec_lt
  unfold DateTime.Before at h
  simp only [List.cons_lt_cons_iff, List.not_lt_nil, and_false, or_false] at h
  unfold DateTime.seconds
  obtain hyear | ⟨hyear, hmon | ⟨hmon, h⟩⟩ := h
  · have hdays : d.days < d'.days := place_lt yearDays d.year_ge (dayOfYear_lt d) hyear
    omega
  · have hday : daysBeforeMonth d.year d.mon + (d.mday - 1) <
        daysBeforeMonth d.year d'.mon + (d'.mday - 1) := by
      have hle := d.mday_le
      have hpos := d.mday_pos
      unfold daysBeforeMonth
      rw [Finset.range_eq_Ico, Finset.range_eq_Ico]
      exact place_lt (monthDays d.year) (Nat.zero_le d.mon) (by omega) hmon
    have hdays : d.days < d'.days := by
      unfold DateTime.days
      rw [← hyear]
      omega
    omega
  · have hpos := d.mday_pos
    have hdays : d.days + d'.mday = d'.days + d.mday := by
      have hpos' := d'.mday_pos
      unfold DateTime.days
      rw [← hyear, ← hmon]
      omega
    omega

/-- A date is known by its seconds. -/
theorem seconds_inj {d d' : DateTime} (h : d.seconds = d'.seconds) : d = d' := by
  obtain hlt | heq | hgt := lt_trichotomy [d.year, d.mon, d.mday, d.hour, d.min, d.sec]
    [d'.year, d'.mon, d'.mday, d'.hour, d'.min, d'.sec]
  · exact absurd h (Nat.ne_of_lt (seconds_lt hlt))
  · simp only [List.cons.injEq, and_true] at heq
    cases d
    cases d'
    simpa using heq
  · exact absurd h.symm (Nat.ne_of_lt (seconds_lt hgt))

theorem seconds_mod (d : DateTime) : d.seconds % 60 = d.sec := by
  have hsec := d.sec_lt
  unfold DateTime.seconds
  omega

/-! ## The twentieth and the twenty-first century -/

/-- Between 1900 and 2100 every fourth year is a leap year. -/
theorem isLeap_iff {n : Nat} (hn : n < 130) : isLeap (1970 + n) = true ↔ (n + 2) % 4 = 0 := by
  unfold isLeap
  rw [decide_eq_true_iff]
  omega

theorem daysBeforeYear_eq : ∀ n ≤ 130, daysBeforeYear (1970 + n) = 365 * n + (n + 1) / 4 := by
  intro n
  induction n with
  | zero =>
    intro _
    rfl
  | succ n ih =>
    intro hn
    have hsucc : daysBeforeYear (1970 + (n + 1)) = daysBeforeYear (1970 + n) + yearDays (1970 + n) :=
      Finset.sum_Ico_succ_top (Nat.le_add_right 1970 n) yearDays
    have hleap := isLeap_iff (n := n) (by omega)
    rw [hsucc, ih (by omega)]
    unfold yearDays
    split
    · rename_i h
      have h4 := hleap.mp h
      omega
    · rename_i h
      have h4 : ¬ (n + 2) % 4 = 0 := fun h4 => h (hleap.mpr h4)
      omega

end Linux011.Lib.Calendar
