import Linux011.Time.Mktime

/-!
# Reading the clock (`time_init` in `init/main.c`)

The clock goes on while its registers are read one after the other. `time_init` reads the seconds once
more behind the rest, and starts again when they have changed. If they have not, and less than a minute is
over, then no second has ended between the two: what was read is one date, and is not put together from
two of them.

Each round that starts again has seen a second end. So the loop ends, unless the clock runs faster than the
reads.
-/

namespace Linux011.Time

open Lib.Calendar

/-- What the registers were found to be from the `k`th `CMOS_READ` on. -/
def fields (cmosRead : Nat → Nat → BitVec 8) (k : Nat) : Nat → BitVec 8
  | 0 => cmosRead k 0
  | 2 => cmosRead (k + 1) 2
  | 4 => cmosRead (k + 2) 4
  | 7 => cmosRead (k + 3) 7
  | 8 => cmosRead (k + 4) 8
  | _ => cmosRead (k + 5) 9

/-- `time_init`, with what each `CMOS_READ` finds, for at most `n` rounds of its loop. -/
def timeInitFrom (cmosRead : Nat → Nat → BitVec 8) : Nat → Nat → Option Word
  | 0, _ => none
  | n + 1, k =>
    if cmosRead k 0 ≠ cmosRead (k + 6) 0 then timeInitFrom cmosRead n (k + 7)
    else some (timeInit (fields cmosRead k))

/-- The dates that a clock shows at each read. It does not go back, and seven reads take less than a
minute. -/
structure Ticks (cmosRead : Nat → Nat → BitVec 8) (date : Nat → DateTime) : Prop where
  shows : ∀ k, Shows (cmosRead k) (date k)
  mono : Monotone fun k => (date k).seconds
  year_le : ∀ k, (date k).year ≤ 2069
  brief : ∀ k, (date (k + 6)).seconds < (date k).seconds + 60

variable {cmosRead : Nat → Nat → BitVec 8} {date : Nat → DateTime} {t : Word} {k n : Nat}

theorem bcd_inj {v w : Nat} (hv : v < 100) (hw : w < 100) (h : bcd v = bcd w) : v = w := by
  have hbin := bcdToBin_bcd hv
  rw [h, bcdToBin_bcd hw] at hbin
  have hnat := congrArg BitVec.toNat hbin
  rw [BitVec.toNat_ofNat, BitVec.toNat_ofNat] at hnat
  omega

namespace Ticks

/-- The seconds are the same exactly if the date is. -/
theorem sec_eq_iff (T : Ticks cmosRead date) (k : Nat) :
    cmosRead k 0 = cmosRead (k + 6) 0 ↔ (date (k + 6)).seconds = (date k).seconds := by
  rw [(T.shows k).sec, (T.shows (k + 6)).sec]
  constructor
  · intro h
    have hlt := (date k).sec_lt
    have hlt' := (date (k + 6)).sec_lt
    have hsec : (date k).sec = (date (k + 6)).sec := bcd_inj (by omega) (by omega) h
    have hle : (date k).seconds ≤ (date (k + 6)).seconds := T.mono (Nat.le_add_right k 6)
    have hbrief := T.brief k
    rw [← seconds_mod, ← seconds_mod] at hsec
    omega
  · intro h
    rw [seconds_inj h]

/-- Between two reads of one date the clock shows no other. -/
theorem date_eq (T : Ticks cmosRead date) (h : (date (k + 6)).seconds = (date k).seconds) {j : Nat}
    (hj : j ≤ 6) : date (k + j) = date k := by
  have hfrom : (date k).seconds ≤ (date (k + j)).seconds := T.mono (Nat.le_add_right k j)
  have hto : (date (k + j)).seconds ≤ (date (k + 6)).seconds := T.mono (Nat.add_le_add_left hj k)
  exact seconds_inj (by omega)

/-- A round that ends the loop has read one date. -/
theorem fields_shows (T : Ticks cmosRead date) (h : (date (k + 6)).seconds = (date k).seconds) :
    Shows (fields cmosRead k) (date k) where
  sec := (T.shows k).sec
  min := by rw [← T.date_eq h (j := 1) (by decide)]; exact (T.shows (k + 1)).min
  hour := by rw [← T.date_eq h (j := 2) (by decide)]; exact (T.shows (k + 2)).hour
  mday := by rw [← T.date_eq h (j := 3) (by decide)]; exact (T.shows (k + 3)).mday
  mon := by rw [← T.date_eq h (j := 4) (by decide)]; exact (T.shows (k + 4)).mon
  year := by rw [← T.date_eq h (j := 5) (by decide)]; exact (T.shows (k + 5)).year

/-- The loop ends with the date of its last round, or each of its rounds has seen a second end. -/
theorem rounds (T : Ticks cmosRead date) : ∀ n k,
    (∃ j, k ≤ j ∧ j < k + 7 * n ∧ timeInitFrom cmosRead n k = some (BitVec.ofNat 32 (date j).seconds) ∧
      ∀ i ≤ 6, date (j + i) = date j) ∨
    timeInitFrom cmosRead n k = none ∧ (date k).seconds + n ≤ (date (k + 7 * n)).seconds
  | 0, k => .inr ⟨rfl, Nat.le_refl _⟩
  | n + 1, k => by
    by_cases h : cmosRead k 0 = cmosRead (k + 6) 0
    · have hsame := (T.sec_eq_iff k).mp h
      refine .inl ⟨k, Nat.le_refl k, by omega, ?_, fun i hi => T.date_eq hsame hi⟩
      rw [timeInitFrom, if_neg (not_not.mpr h), timeInit_seconds (T.fields_shows hsame) (T.year_le k)]
    · have hnext : timeInitFrom cmosRead (n + 1) k = timeInitFrom cmosRead n (k + 7) := if_pos h
      rw [hnext]
      obtain ⟨j, hle, hlt, hj⟩ | ⟨hnone, hends⟩ := T.rounds n (k + 7)
      · exact .inl ⟨j, by omega, by omega, hj⟩
      · have hsec : (date (k + 6)).seconds ≠ (date k).seconds := fun he => h ((T.sec_eq_iff k).mpr he)
        have hle : (date k).seconds ≤ (date (k + 6)).seconds := T.mono (Nat.le_add_right k 6)
        have hle' : (date (k + 6)).seconds ≤ (date (k + 7)).seconds := T.mono (Nat.le_succ (k + 6))
        rw [show k + 7 + 7 * n = k + 7 * (n + 1) by omega] at hends
        exact .inr ⟨hnone, by omega⟩

end Ticks

/-- CLOCK. If the loop ends, the time at the start is what the clock showed during all of its last round;
and it ends within `n` rounds if so many rounds take less than `n` seconds. -/
theorem time_init_exact (T : Ticks cmosRead date) (n : Nat) :
    (∀ t, timeInitFrom cmosRead n 0 = some t →
      ∃ j < 7 * n, t = BitVec.ofNat 32 (date j).seconds ∧ ∀ i ≤ 6, date (j + i) = date j) ∧
    ((date (7 * n)).seconds < (date 0).seconds + n → (timeInitFrom cmosRead n 0).isSome) := by
  have hrounds := T.rounds n 0
  rw [Nat.zero_add] at hrounds
  constructor
  · intro t ht
    obtain ⟨j, -, hlt, hj, hdates⟩ | ⟨hnone, -⟩ := hrounds
    · exact ⟨j, hlt, Option.some.inj (ht.symm.trans hj), hdates⟩
    · cases ht.symm.trans hnone
  · intro hfew
    obtain ⟨j, -, -, hj, -⟩ | ⟨-, hends⟩ := hrounds
    · rw [hj, Option.isSome_some]
    · omega

/-- The registers of a date. -/
def display (d : DateTime) : Nat → BitVec 8
  | 0 => bcd d.sec
  | 2 => bcd d.min
  | 4 => bcd d.hour
  | 7 => bcd d.mday
  | 8 => bcd (d.mon + 1)
  | _ => bcd (d.year % 100)

/-- A second of 2000-02-29 ends while the loop is in its first round. -/
def leapTicks (k : Nat) : DateTime :=
  { leapDay with sec := if k < 3 then 0 else 1, sec_lt := by split <;> decide }

theorem leapTicks_seconds (k : Nat) : (leapTicks k).seconds = leapDay.seconds + if k < 3 then 0 else 1 := by
  have hsec : leapDay.sec = 0 := rfl
  simp only [DateTime.seconds, DateTime.days, leapTicks, hsec, Nat.add_zero]

theorem time_init_exact_leap : Ticks (fun k => display (leapTicks k)) leapTicks ∧
    (timeInitFrom (fun k => display (leapTicks k)) 2 0).isSome := by
  have T : Ticks (fun k => display (leapTicks k)) leapTicks := by
    refine ⟨fun k => ⟨rfl, rfl, rfl, rfl, rfl, rfl⟩, ?_, fun k => (by decide : 2000 ≤ 2069), ?_⟩
    · intro j k hjk
      show (leapTicks j).seconds ≤ (leapTicks k).seconds
      rw [leapTicks_seconds, leapTicks_seconds]
      split <;> split <;> omega
    · intro k
      rw [leapTicks_seconds, leapTicks_seconds]
      split <;> split <;> omega
  refine ⟨T, (time_init_exact T 2).2 ?_⟩
  rw [leapTicks_seconds, leapTicks_seconds]
  decide

end Linux011.Time
