import VehicleTerminal.Library.Calendar
import VehicleTerminal.Param.Time

/-! What the conversions of the time parameters compute, in terms of the calendar from 2000 on.
The loop over the years leaves the year 2070 unfinished: it has passed it when it stops. -/
namespace VehicleTerminal.E2ParamApp
open Calendar MachineInt PartialSums

section Years

theorem leapYear_natCast (year : ℕ) : leapYear year = if IsLeap year then 1 else 0 := by
  have hdvd (n : ℕ) : (year : ℤ) % n = 0 ↔ n ∣ year := by
    rw [← Int.natCast_mod, Nat.cast_eq_zero, Nat.dvd_iff_mod_eq_zero]
  have h4 := hdvd 4
  have h100 := hdvd 100
  have h400 := hdvd 400
  push_cast at h4 h100 h400
  unfold leapYear IsLeap
  refine if_congr ?_ rfl rfl
  rw [h4, h400, Ne, h100]

/-- The seconds of year `k` from 2000 on. -/
def yearSeconds (k : ℕ) : ℕ := yearLength (2000 + k) * 86400

theorem yearSeconds_eq (k : ℕ) : leapYear k * daySecond + yearSecond = yearSeconds k := by
  rw [leapYear_natCast, yearSeconds, yearLength, Nat.add_comm 2000 k]
  simp only [isLeap_add_2000]
  split_ifs <;> rfl

theorem start_yearSeconds (k : ℕ) :
    start yearSeconds k = daysToYear 2000 (2000 + k) * 86400 := by
  rw [daysToYear, Nat.add_sub_cancel_left]
  exact start_mul _ _ _

theorem gmtimeYears_of_lt {timeVal sum : ℕ} (h : timeVal < sum) (rounds i temp : ℕ) :
    gmtimeYears timeVal rounds i sum temp = (i, temp) := by
  cases rounds with
  | zero => rfl
  | succ rounds => rw [gmtimeYears, if_neg (Nat.not_le.mpr h)]

/-- The loop ends one year behind the one that contains the time, or after its last round, with
the start of the year it has come to. -/
theorem gmtimeYears_eq {timeVal m : ℕ} (hlo : start yearSeconds m ≤ timeVal)
    (hhi : timeVal < start yearSeconds (m + 1)) (rounds : ℕ) {k : ℕ} (hk : k ≤ m) :
    gmtimeYears timeVal rounds k (start yearSeconds k) (start yearSeconds k) =
      (min (m + 1) (k + rounds), start yearSeconds (min m (k + rounds))) := by
  induction rounds generalizing k with
  | zero =>
    have hstop : k ≤ m + 1 := Nat.le_succ_of_le hk
    simp only [gmtimeYears, Nat.add_zero, Nat.min_eq_right hk, Nat.min_eq_right hstop]
  | succ rounds ih =>
    have hmore : start yearSeconds k ≤ timeVal := (start_mono hk).trans hlo
    rw [gmtimeYears, if_pos hmore]
    dsimp only
    rw [yearSeconds_eq, ← start_succ]
    by_cases hlast : k = m
    · subst hlast
      rw [if_neg (Nat.not_le.mpr hhi), gmtimeYears_of_lt hhi]
      congr 2 <;> omega
    · have hnext : start yearSeconds (k + 1) ≤ timeVal := (start_mono (by omega)).trans hlo
      rw [if_pos hnext, ih (by omega)]
      congr 2 <;> omega

end Years

section Months

/-- The days before a month, in the table of a common year. -/
theorem jdays_eq (year : ℕ) {month : ℕ} (hmonth : 1 ≤ month ∧ month ≤ 12) :
    jdays.getD (month - 1) 0 + (if month > 2 ∧ IsLeap year then 1 else 0) =
      daysToMonth year month := by
  obtain ⟨hlo, hhi⟩ := hmonth
  interval_cases month <;>
    simp only [jdays, daysToMonth, start, Finset.sum_range_succ, Finset.sum_range_zero,
      monthLength] <;> split_ifs <;> simp_all

/-- The test of one month: the day of the year lies behind the month's start. -/
theorem month_test_iff {d : DateTime} {flag i : ℕ} (hflag : flag = if IsLeap d.year then 1 else 0)
    (hi : i < 12) :
    ((d.dayOfYear + 1 > jdays.getD i 0 + flag ∧ i + 1 > 2) ∨
      (d.dayOfYear + 1 > jdays.getD i 0 ∧ i + 1 ≤ 2)) ↔ i + 1 ≤ d.month := by
  have hdays := jdays_eq d.year (show 1 ≤ i + 1 ∧ i + 1 ≤ 12 by omega)
  rw [Nat.add_sub_cancel] at hdays
  have hmonth := d.month_range
  have hday := d.day_range
  have hwidth : d.day - 1 < monthLength d.year (d.month - 1 + 1) := by
    rw [Nat.sub_add_cancel hmonth.1]
    omega
  have hbefore : d.dayOfYear < daysToMonth d.year (i + 1) ↔ d.month - 1 < i :=
    add_lt_start_iff (w := fun k => monthLength d.year (k + 1)) hwidth
  by_cases hleap : IsLeap d.year
  · simp only [hleap, and_true, if_true] at hdays hflag
    split_ifs at hdays <;> omega
  · simp only [hleap, and_false, if_false] at hdays hflag
    omega

theorem gmtimeMonth_eq {d : DateTime} {flag : ℕ} (hflag : flag = if IsLeap d.year then 1 else 0)
    {n : ℕ} (hlo : d.month ≤ n) (hhi : n ≤ 12) :
    gmtimeMonth (d.dayOfYear + 1) flag n = d.month := by
  induction n with
  | zero => exact absurd d.month_range.1 (by omega)
  | succ n ih =>
    rw [gmtimeMonth]
    simp only [month_test_iff hflag (show n < 12 by omega)]
    split_ifs with hfound
    · omega
    · exact ih (by omega) (by omega)

end Months

section Conversions

/-- The two-digit year that the loop over the years finds: 2070 is taken for 2069. -/
def foundYear (year : ℕ) : ℕ := min (year - 2000) 69

theorem foundYear_eq {year : ℕ} (hhi : year ≤ 2069) : foundYear year = year - 2000 :=
  Nat.min_eq_left (by omega)

theorem leapYear_foundYear {year : ℕ} (hlo : 2000 ≤ year) (hhi : year ≤ 2070) :
    leapYear (foundYear year) = if IsLeap year then 1 else 0 := by
  rw [leapYear_natCast]
  by_cases hlast : year = 2070
  · subst hlast
    decide
  · have hyear := isLeap_add_2000 (year - 2000)
    rw [Nat.sub_add_cancel hlo] at hyear
    rw [foundYear_eq (by omega)]
    simp only [hyear]

/-- The broken-down time of a calendar time. -/
def ofDateTime (year : ℕ) (d : DateTime) : TimeT :=
  ⟨year, d.month, d.day, d.hour, d.minute, d.second⟩

theorem secondsSince_eq {d : DateTime} (hlo : 2000 ≤ d.year) :
    d.secondsSince 2000 = start yearSeconds (d.year - 2000) +
      (d.dayOfYear * 86400 + d.secondOfDay) := by
  rw [start_yearSeconds, Nat.add_sub_cancel' hlo, DateTime.secondsSince, Nat.add_mul,
    Nat.add_assoc]

theorem daysToYear_2070 : daysToYear 2000 2070 = 25568 := rfl

theorem daysToYear_2071 : daysToYear 2000 2071 = 25933 := rfl

/-- The end of 2070 lies before the bound of `E2ParamApp_Gmtime`. -/
theorem secondsSince_lt {d : DateTime} (hlo : 2000 ≤ d.year) (hhi : d.year ≤ 2070) :
    d.secondsSince 2000 < 2240611200 := by
  have hlt := (d.secondsSince_lt_iff hlo (show 2000 ≤ 2071 by omega)).mpr (by omega)
  rwa [daysToYear_2071] at hlt

theorem int8_natCast {n : ℕ} (h : n < 128) : int8 (n : ℤ) = n := by
  unfold int8
  omega

theorem gmtimeDay_eq {d : DateTime} {flag : ℕ} (hflag : flag = if IsLeap d.year then 1 else 0) :
    (if d.month > 2 then
        int8 (int8 (((d.dayOfYear + 1 : ℕ) : ℤ) - jdays.getD (d.month - 1) 0) - flag)
      else int8 (((d.dayOfYear + 1 : ℕ) : ℤ) - jdays.getD (d.month - 1) 0)) = d.day := by
  have hday := d.day_range
  have hday_le := d.day_le
  have hdays := jdays_eq d.year d.month_range
  have hdayOfYear : d.dayOfYear = daysToMonth d.year d.month + (d.day - 1) := rfl
  unfold int8
  by_cases hleap : IsLeap d.year
  · simp only [hleap, and_true, if_true] at hdays hflag
    split_ifs at hdays ⊢ <;> omega
  · simp only [hleap, and_false, if_false] at hdays hflag
    split_ifs <;> omega

/-- `E2ParamApp_Gmtime` finds the calendar time of its counter, but for the year 2070. -/
theorem gmtime_eq {d : DateTime} {counter : ℕ} (hlo : 2000 ≤ d.year) (hhi : d.year ≤ 2070)
    (hlocal : uint32 ((counter : ℤ) + standardTimeDiff) = d.secondsSince 2000) :
    gmtime counter = ofDateTime (foundYear d.year) d := by
  have hbound := secondsSince_lt hlo hhi
  have hsplit := secondsSince_eq hlo
  have hsecond := d.secondOfDay_lt
  have hdays := d.dayOfYear_lt.trans_le (yearLength_le d.year)
  have hmonth := d.month_range
  have hnext : d.secondsSince 2000 < start yearSeconds (d.year - 2000 + 1) := by
    have hday := d.dayOfYear_lt
    rw [start_succ, yearSeconds, Nat.add_sub_cancel' hlo]
    omega
  have hyears : gmtimeYears (d.secondsSince 2000) endYear 0 0 0 =
      (foundYear d.year + 1, start yearSeconds (d.year - 2000)) := by
    have hloop := gmtimeYears_eq (by omega) hnext endYear (Nat.zero_le _)
    rw [start_zero, Nat.zero_add] at hloop
    have hlast : min (d.year - 2000 + 1) endYear = foundYear d.year + 1 := by
      unfold foundYear endYear
      omega
    have hstart : min (d.year - 2000) endYear = d.year - 2000 := by
      unfold endYear
      omega
    rw [hloop, hlast, hstart]
  have hrest : d.secondsSince 2000 - start yearSeconds (d.year - 2000) =
      d.dayOfYear * 86400 + d.secondOfDay := by omega
  have hseconds : (d.dayOfYear * 86400 + d.secondOfDay) % daySecond = d.secondOfDay := by
    unfold daySecond
    omega
  have hwhole :
      (d.dayOfYear * 86400 + d.secondOfDay - d.secondOfDay) / daySecond = d.dayOfYear := by
    unfold daySecond
    omega
  have hfound : foundYear d.year < 128 := by
    unfold foundYear
    omega
  have hflag := leapYear_foundYear hlo hhi
  have hguard : ¬ d.secondsSince 2000 > 0xBC191380 := by omega
  have hsecondOfDay : d.secondOfDay = d.hour * 3600 + d.minute * 60 + d.second := rfl
  have hhour := d.hour_lt
  have hminute := d.minute_lt
  have hsecond_lt := d.second_lt
  have hhourOf : d.secondOfDay / 0xE10 = d.hour := by omega
  have hminuteOf : d.secondOfDay % 0xE10 / 60 = d.minute := by omega
  have hsecondOf : d.secondOfDay % 0xE10 % 60 = d.second := by omega
  rw [gmtime, hlocal]
  -- the loop is taken out as a whole, before a `match` makes Lean run it
  generalize gmtimeYears (d.secondsSince 2000) endYear 0 0 0 = years at hyears ⊢
  subst hyears
  dsimp only
  rw [if_neg hguard]
  rw [hrest, hseconds, hwhole, Nat.add_sub_cancel, gmtimeMonth_eq hflag hmonth.2 le_rfl,
    gmtimeDay_eq hflag, hhourOf, hminuteOf, hsecondOf, int8_natCast hfound,
    int8_natCast (show d.month < 128 by omega), int8_natCast (show d.hour < 128 by omega),
    int8_natCast (show d.minute < 128 by omega), int8_natCast (show d.second < 128 by omega),
    ofDateTime]

theorem monTab_take {month : ℕ} (hmonth : 1 ≤ month ∧ month ≤ 12) :
    (monTab.take month).sum = jdays.getD (month - 1) 0 := by
  obtain ⟨hlo, hhi⟩ := hmonth
  interval_cases month <;> rfl

theorem yearDay_eq {d : DateTime} {year : ℕ} (hleap : IsLeap year ↔ IsLeap d.year) :
    yearDay year d.month d.day = d.dayOfYear + 1 := by
  have hday := d.day_range
  have hlength := d.dayOfYear_lt.trans_le (yearLength_le d.year)
  have hdays := jdays_eq d.year d.month_range
  have hdayOfYear : d.dayOfYear = daysToMonth d.year d.month + (d.day - 1) := rfl
  have hmarch : (d.month : ℤ) > 2 ↔ d.month > 2 := by omega
  rw [yearDay, Int.toNat_natCast, monTab_take d.month_range, leapYear_natCast]
  simp only [hleap, hmarch]
  unfold uint16
  by_cases hd : IsLeap d.year
  · simp only [hd, and_true, if_true, true_and] at hdays ⊢
    split_ifs at hdays ⊢ <;> omega
  · simp only [hd, and_false, if_false, Nat.zero_ne_one, false_and] at hdays ⊢
    omega

/-- The days before a year, as `E2ParamApp_ConverseGmtime` adds them up. -/
theorem yearDays_eq (n : ℕ) :
    ((List.range n).map fun i => 365 + leapYear i).sum = daysToYear 2000 (2000 + n) := by
  rw [daysToYear, Nat.add_sub_cancel_left]
  induction n with
  | zero => rfl
  | succ n ih =>
    have hlength : 365 + leapYear n = yearLength (2000 + n) := by
      rw [leapYear_natCast, yearLength, Nat.add_comm 2000 n]
      simp only [isLeap_add_2000]
      split_ifs <;> rfl
    simp only [List.range_succ, List.pure_def, List.bind_eq_flatMap, List.flatMap_append,
      List.map_append, List.sum_append] at ih ⊢
    rw [ih, start_succ, ← hlength]
    simp

/-- `E2ParamApp_ConverseGmtime` counts the seconds of a calendar time. -/
theorem converseGmtime_eq {d : DateTime} (hlo : 2000 ≤ d.year) (hhi : d.year ≤ 2070) :
    converseGmtime (ofDateTime (d.year - 2000) d) =
      uint32 ((d.secondsSince 2000 : ℤ) - standardTimeDiff) := by
  have hday := d.day_range.1
  have hyear : ((d.year - 2000 : ℕ) : ℤ) ≥ 0 ∧ ((d.year - 2000 : ℕ) : ℤ) ≤ endYear := by
    unfold endYear
    omega
  have hleap := isLeap_add_2000 (d.year - 2000)
  rw [Nat.sub_add_cancel hlo] at hleap
  rw [converseGmtime, ofDateTime]
  simp only [if_pos hyear, Int.toNat_natCast, yearDays_eq, yearDay_eq hleap.symm,
    Nat.add_sub_cancel' hlo]
  congr 2
  rw [DateTime.secondsSince, DateTime.secondOfDay]
  unfold daySecond
  push_cast
  ring

end Conversions

end VehicleTerminal.E2ParamApp
