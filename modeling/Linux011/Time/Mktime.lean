import Linux011.Lib.Calendar

/-!
# The time at the start (`kernel/mktime.c`)

`kernel_mktime` takes every fourth year for a leap year, and every year for a leap year as far as its table
of months goes, which it corrects from March on. That is right from 1970 to 2069, the years that two digits
stand for. All is computed in 32 bits.
-/

namespace Linux011.Time

open Lib.Calendar

/-- `int` and `long`. -/
abbrev Word := BitVec 32

/-! ## Code -/

/-- `struct tm`, as far as `kernel_mktime` reads it. -/
structure Tm where
  sec : Word
  min : Word
  hour : Word
  mday : Word
  mon : Word
  year : Word

def minute : Word := 60
def hour : Word := 60 * minute
def day : Word := 24 * hour
def year : Word := 365 * day

/-- `month`: the seconds of a leap year before each month. -/
def month : List Word :=
  [0, day * 31, day * (31 + 29), day * (31 + 29 + 31), day * (31 + 29 + 31 + 30),
    day * (31 + 29 + 31 + 30 + 31), day * (31 + 29 + 31 + 30 + 31 + 30),
    day * (31 + 29 + 31 + 30 + 31 + 30 + 31), day * (31 + 29 + 31 + 30 + 31 + 30 + 31 + 31),
    day * (31 + 29 + 31 + 30 + 31 + 30 + 31 + 31 + 30),
    day * (31 + 29 + 31 + 30 + 31 + 30 + 31 + 31 + 30 + 31),
    day * (31 + 29 + 31 + 30 + 31 + 30 + 31 + 31 + 30 + 31 + 30)]

/-- The years since 1970. -/
def yearsOf (tm : Tm) : Word := if 70 ≤ tm.year.toInt then tm.year - 70 else tm.year + 100 - 70

/-- `kernel_mktime`, for a month that the table has. -/
def kernelMktime (tm : Tm) : Word :=
  let y := yearsOf tm
  let res := year * y + day * (y + 1).sdiv 4
  let res := res + month.getD tm.mon.toNat 0
  let res := if 1 < tm.mon.toInt ∧ (y + 2).srem 4 ≠ 0 then res - day else res
  let res := res + day * (tm.mday - 1)
  let res := res + hour * tm.hour
  let res := res + minute * tm.min
  res + tm.sec

/-- `BCD_TO_BIN`. -/
def bcdToBin (val : Word) : Word := (val &&& 15) + val.sshiftRight 4 * 10

/-- `time_init`, with what `CMOS_READ` finds when the seconds do not change: `startup_time`. -/
def timeInit (cmosRead : Nat → BitVec 8) : Word :=
  let read := fun addr => bcdToBin ((cmosRead addr).setWidth 32)
  kernelMktime ⟨read 0, read 2, read 4, read 7, read 8 - 1, read 9⟩

/-! ## Dates in two digits -/

/-- The date as `struct tm`. -/
def tmOf (d : DateTime) : Tm where
  sec := BitVec.ofNat 32 d.sec
  min := BitVec.ofNat 32 d.min
  hour := BitVec.ofNat 32 d.hour
  mday := BitVec.ofNat 32 d.mday
  mon := BitVec.ofNat 32 d.mon
  year := BitVec.ofNat 32 (d.year % 100)

variable {d : DateTime} {n : Nat}

theorem yearsOf_tm (h : d.year ≤ 2069) : yearsOf (tmOf d) = BitVec.ofNat 32 (d.year - 1970) := by
  have hge := d.year_ge
  have hyears : ∀ n : Fin 100, (if 70 ≤ (BitVec.ofNat 32 ((1970 + n.val) % 100)).toInt then
      BitVec.ofNat 32 ((1970 + n.val) % 100) - 70 else BitVec.ofNat 32 ((1970 + n.val) % 100) + 100 - 70) =
      BitVec.ofNat 32 n.val := by decide
  have hyear : 1970 + (d.year - 1970) = d.year := by omega
  have h := hyears ⟨d.year - 1970, by omega⟩
  dsimp only at h
  rw [hyear] at h
  exact h

/-- The leap days of the years before. -/
theorem leapDays_eq (hn : n < 100) : (BitVec.ofNat 32 n + 1).sdiv 4 = BitVec.ofNat 32 ((n + 1) / 4) := by
  have h : ∀ n : Fin 100, (BitVec.ofNat 32 n.val + 1).sdiv 4 = BitVec.ofNat 32 ((n.val + 1) / 4) := by decide
  exact h ⟨n, hn⟩

theorem leapTest_iff (hn : n < 100) : (BitVec.ofNat 32 n + 2).srem 4 ≠ 0 ↔ ¬ (n + 2) % 4 = 0 := by
  have h : ∀ n : Fin 100, (BitVec.ofNat 32 n.val + 2).srem 4 ≠ 0 ↔ ¬ (n.val + 2) % 4 = 0 := by decide
  exact h ⟨n, hn⟩

/-- The table of months with its correction. -/
theorem month_eq (y : Nat) {m : Nat} (hm : m < 12) :
    (if 1 < (BitVec.ofNat 32 m).toInt ∧ isLeap y = false then month.getD m 0 - day else month.getD m 0) =
      day * BitVec.ofNat 32 (daysBeforeMonth y m) := by
  have htable : ∀ m : Fin 12, month.getD m.val 0 = day * BitVec.ofNat 32 (daysBeforeMonth 1972 m.val) ∧
      (if 1 < (BitVec.ofNat 32 m.val).toInt then month.getD m.val 0 - day else month.getD m.val 0) =
        day * BitVec.ofNat 32 (daysBeforeMonth 1970 m.val) := by decide +kernel
  obtain ⟨hleap, hcommon⟩ := htable ⟨m, hm⟩
  cases h : isLeap y with
  | true =>
    rw [daysBeforeMonth_congr (h.trans (by decide : true = isLeap 1972))]
    simpa using hleap
  | false =>
    rw [daysBeforeMonth_congr (h.trans (by decide : false = isLeap 1970))]
    simpa using hcommon

/-- The result is the number of seconds. -/
theorem kernelMktime_eq (h : d.year ≤ 2069) : kernelMktime (tmOf d) = BitVec.ofNat 32 d.seconds := by
  have hge := d.year_ge
  have hn : d.year - 1970 < 100 := by omega
  have hmon : (tmOf d).mon.toNat = d.mon := by
    have hlt := d.mon_lt
    simp [tmOf]
    omega
  have hyear : d.year = 1970 + (d.year - 1970) := by omega
  have hdays : daysBeforeYear d.year = 365 * (d.year - 1970) + (d.year - 1970 + 1) / 4 := by
    rw [hyear, daysBeforeYear_eq _ (by omega)]
    simp
  have hleap : isLeap d.year = false ↔ (BitVec.ofNat 32 (d.year - 1970) + 2).srem 4 ≠ 0 := by
    rw [leapTest_iff hn, ← isLeap_iff (by omega), ← hyear, Bool.not_eq_true]
  have hmonth := month_eq d.year d.mon_lt
  simp only [hleap] at hmonth
  have hmday : (tmOf d).mday - 1 = BitVec.ofNat 32 (d.mday - 1) := by
    have hpos : d.mday = d.mday - 1 + 1 := (Nat.sub_add_cancel d.mday_pos).symm
    have hsucc : BitVec.ofNat 32 (d.mday - 1 + 1) = BitVec.ofNat 32 (d.mday - 1) + 1 := BitVec.ofNat_add ..
    rw [← hpos] at hsucc
    exact (congrArg (· - 1) hsucc).trans (BitVec.add_sub_cancel _ _)
  have hcorrect : ∀ res : Word, (if 1 < (tmOf d).mon.toInt ∧ (BitVec.ofNat 32 (d.year - 1970) + 2).srem 4 ≠ 0
      then res + month.getD d.mon 0 - day else res + month.getD d.mon 0) =
      res + day * BitVec.ofNat 32 (daysBeforeMonth d.year d.mon) := by
    intro res
    have hassoc : res + month.getD d.mon 0 - day = res + (month.getD d.mon 0 - day) := by grind
    rw [← hmonth, apply_ite (res + ·), hassoc]
    rfl
  have hseconds : d.seconds = 31536000 * (d.year - 1970) + 86400 * ((d.year - 1970 + 1) / 4) +
      86400 * daysBeforeMonth d.year d.mon + 86400 * (d.mday - 1) + 3600 * d.hour + 60 * d.min + d.sec := by
    unfold DateTime.seconds DateTime.days
    rw [hdays]
    omega
  simp only [kernelMktime, yearsOf_tm h, leapDays_eq hn, hmon, hcorrect, hmday]
  rw [hseconds]
  simp only [BitVec.ofNat_add, BitVec.ofNat_mul]
  rfl

/-- The end of 31 bits. -/
def end2038 : DateTime where
  year := 2038
  mon := 0
  mday := 19
  hour := 3
  min := 14
  sec := 8
  year_ge := by decide
  mon_lt := by decide
  mday_pos := by decide
  mday_le := by decide
  hour_lt := by decide
  min_lt := by decide
  sec_lt := by decide

theorem end2038_seconds : end2038.seconds = 2 ^ 31 := by
  have hdays : daysBeforeYear 2038 = 365 * 68 + (68 + 1) / 4 := daysBeforeYear_eq 68 (by decide)
  have hmonth : daysBeforeMonth 2038 0 = 0 := rfl
  simp [DateTime.seconds, DateTime.days, end2038, hdays, hmonth]

theorem Before.year_le {d d' : DateTime} (h : d.Before d') : d.year ≤ d'.year := by
  unfold DateTime.Before at h
  rw [List.cons_lt_cons_iff] at h
  omega

/-- Dates before 2038-01-19 03:14:08 are positive. -/
theorem kernelMktime_toInt (h : d.Before end2038) : (kernelMktime (tmOf d)).toInt = d.seconds := by
  have hlt : d.seconds < 2 ^ 31 := end2038_seconds ▸ seconds_lt h
  have hyear : d.year ≤ 2069 := Nat.le_trans (Before.year_le h) (by decide)
  have hnat : (BitVec.ofNat 32 d.seconds).toNat = d.seconds := by
    rw [BitVec.toNat_ofNat]
    exact Nat.mod_eq_of_lt (Nat.lt_trans hlt (by decide))
  rw [kernelMktime_eq hyear, BitVec.toInt_eq_toNat_of_lt (by omega), hnat]

/-- CALENDAR. The result is the number of seconds since the beginning of 1970, in 32 bits; so it grows with
the date until 2038. -/
theorem kernel_mktime_seconds :
    (∀ d : DateTime, d.year ≤ 2069 → kernelMktime (tmOf d) = BitVec.ofNat 32 d.seconds) ∧
    ∀ d d' : DateTime, d.Before end2038 → d'.Before end2038 → d.Before d' →
      (kernelMktime (tmOf d)).toInt < (kernelMktime (tmOf d')).toInt := by
  refine ⟨fun d h => kernelMktime_eq h, fun d d' hd hd' h => ?_⟩
  rw [kernelMktime_toInt hd, kernelMktime_toInt hd']
  exact Int.ofNat_lt.mpr (seconds_lt h)

/-- 2000-02-29. -/
def leapDay : DateTime := { end2038 with
  year := 2000, mon := 1, mday := 29, hour := 0, min := 0, sec := 0, year_ge := by decide
  mon_lt := by decide, mday_pos := by decide, mday_le := by decide, hour_lt := by decide
  min_lt := by decide, sec_lt := by decide }

theorem kernel_mktime_seconds_leap_day : kernelMktime (tmOf leapDay) = 951782400 := by
  have hyears : daysBeforeYear 2000 = 365 * 30 + (30 + 1) / 4 := daysBeforeYear_eq 30 (by decide)
  have hmonths : daysBeforeMonth 2000 1 = 31 := by decide
  have hseconds : leapDay.seconds = 951782400 := by
    simp [DateTime.seconds, DateTime.days, leapDay, hyears, hmonths]
  rw [kernel_mktime_seconds.1 leapDay (by decide), hseconds]
  rfl

/-! ## The clock -/

/-- A number below 100 in the clock. -/
def bcd (v : Nat) : BitVec 8 := BitVec.ofNat 8 (v / 10 * 16 + v % 10)

theorem bcdToBin_bcd {v : Nat} (h : v < 100) : bcdToBin ((bcd v).setWidth 32) = BitVec.ofNat 32 v := by
  have hall : ∀ v : Fin 100, bcdToBin ((bcd v.val).setWidth 32) = BitVec.ofNat 32 v.val := by decide
  exact hall ⟨v, h⟩

/-- The clock shows a date, with the month from 1 on and the year in two digits. -/
structure Shows (cmosRead : Nat → BitVec 8) (d : DateTime) : Prop where
  sec : cmosRead 0 = bcd d.sec
  min : cmosRead 2 = bcd d.min
  hour : cmosRead 4 = bcd d.hour
  mday : cmosRead 7 = bcd d.mday
  mon : cmosRead 8 = bcd (d.mon + 1)
  year : cmosRead 9 = bcd (d.year % 100)

/-- What the clock shows is the time at the start. -/
theorem timeInit_seconds {cmosRead : Nat → BitVec 8} (h : Shows cmosRead d) (hyear : d.year ≤ 2069) :
    timeInit cmosRead = BitVec.ofNat 32 d.seconds := by
  have hmday : d.mday < 100 := Nat.lt_of_le_of_lt (Nat.le_trans d.mday_le (monthDays_le _ _)) (by decide)
  have hmon : BitVec.ofNat 32 (d.mon + 1) - 1 = BitVec.ofNat 32 d.mon := by
    rw [BitVec.ofNat_add]
    exact BitVec.add_sub_cancel _ _
  have hmonth : d.mon + 1 < 100 := by
    have hlt := d.mon_lt
    omega
  rw [← kernelMktime_eq hyear]
  unfold timeInit
  dsimp only
  rw [h.sec, h.min, h.hour, h.mday, h.mon, h.year, bcdToBin_bcd (Nat.lt_trans d.sec_lt (by decide)),
    bcdToBin_bcd (Nat.lt_trans d.min_lt (by decide)), bcdToBin_bcd (Nat.lt_trans d.hour_lt (by decide)),
    bcdToBin_bcd hmday, bcdToBin_bcd hmonth, bcdToBin_bcd (Nat.mod_lt _ (by decide)), hmon]
  rfl

end Linux011.Time
