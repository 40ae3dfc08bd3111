import VehicleTerminal.Clock.Rtc
import VehicleTerminal.Library.Calendar

/-! What the conversions compute, in terms of the calendar. `ConverseGmtime` counts the seconds
since the start of 2013, and each loop of `Gmtime` finds the block of seconds that contains the
counter. -/
namespace VehicleTerminal.Rtc
open Calendar MachineInt PartialLoop PartialSums

section Days

theorem leapYear_natCast (year : ℕ) : leapYear year = if IsLeap year then 1 else 0 := by
  have hdvd (n : ℕ) : (year : ℤ).tmod n = 0 ↔ n ∣ year := by
    rw [natCast_tmod, Nat.cast_eq_zero, Nat.dvd_iff_mod_eq_zero]
  have h4 := hdvd 4
  have h100 := hdvd 100
  have h400 := hdvd 400
  push_cast at h4 h100 h400
  unfold leapYear IsLeap
  refine if_congr ?_ rfl rfl
  rw [h4, h400, Ne, h100]

/-- The table has the month lengths of a common year. -/
theorem monTab_eq (year : ℕ) {month : ℕ} (hmonth : 1 ≤ month ∧ month ≤ 12) :
    ∃ days, monTab[month]? = some days ∧
      monthLength year month = days + if 2 = month ∧ IsLeap year then 1 else 0 := by
  obtain ⟨hlo, hhi⟩ := hmonth
  interval_cases month <;> refine ⟨_, rfl, ?_⟩ <;> simp only [monthLength] <;> split_ifs <;>
    simp_all

/-- The days of the first `n` months, without the leap day. -/
theorem monthDays_eq (year : ℕ) {n : ℕ} (hn : n ≤ 12) :
    ∃ days, monthDays n = some days ∧ start (fun k => monthLength year (k + 1)) n =
      days + if 2 ≤ n ∧ IsLeap year then 1 else 0 := by
  induction n with
  | zero => exact ⟨0, rfl, by simp⟩
  | succ n ih =>
    obtain ⟨total, htotal, hsum⟩ := ih (by omega)
    obtain ⟨days, hdays, hlength⟩ := monTab_eq year (show 1 ≤ n + 1 ∧ n + 1 ≤ 12 by omega)
    have hyear : start (fun k => monthLength year (k + 1)) (n + 1) ≤ yearLength year := by
      rw [← start_monthLength]
      exact start_mono hn
    have hbound := yearLength_le year
    rw [start_succ, hsum, hlength] at hyear
    refine ⟨total + days, ?_, ?_⟩
    · rw [monthDays, htotal, Option.bind_some, hdays, Option.map_some,
        uint16_natCast_add (by omega)]
    · rw [start_succ, hsum, hlength]
      by_cases hleap : IsLeap year
      · simp only [hleap, and_true]
        split_ifs <;> omega
      · simp only [hleap, and_false, if_false]
        omega

theorem yearDay_eq {year month day : ℕ} (hmonth : 1 ≤ month ∧ month ≤ 12) (hday : day ≤ 31) :
    yearDay year month day = some (daysToMonth year month + day) := by
  have hn : ((month : ℤ) - 1).toNat = month - 1 := by omega
  obtain ⟨days, hdays, hsum⟩ := monthDays_eq year (n := month - 1) (by omega)
  have hbound := (daysToMonth_le year hmonth).trans (yearLength_le year)
  rw [daysToMonth, hsum] at hbound
  rw [yearDay, hn, hdays, Option.map_some, uint16_natCast_add (by omega), leapYear_natCast,
    daysToMonth, hsum]
  have hleap_day : uint16 (((days + day : ℕ) : ℤ) + 1) = days + day + 1 :=
    uint16_natCast_add (b := 1) (by omega)
  have hmarch : (month : ℤ) > 2 ↔ 2 ≤ month - 1 := by omega
  refine congrArg some ?_
  simp only [hleap_day, hmarch]
  by_cases hleap : IsLeap year
  · simp only [hleap, if_true, and_true, true_and, isLeapYear]
    split_ifs <;> omega
  · simp [hleap, isLeapYear]

/-- The days before year `n` from 2013 on. The bound keeps the sum below 32 bits. -/
theorem yearDays_eq {n : ℕ} (hn : n ≤ 1000) :
    yearDays n = start (fun k => yearLength (2013 + k)) n ∧
      start (fun k => yearLength (2013 + k)) n ≤ n * 366 := by
  induction n with
  | zero => exact ⟨rfl, le_rfl⟩
  | succ n ih =>
    obtain ⟨hdays, hsum⟩ := ih (by omega)
    have hbound := yearLength_le (2013 + n)
    have hyear : (startYear : ℤ) + n + 2000 = ((2013 + n : ℕ) : ℤ) := by
      push_cast [startYear]
      omega
    have hlength : 365 + leapYear ((startYear : ℤ) + n + 2000) = yearLength (2013 + n) := by
      rw [hyear, leapYear_natCast, yearLength]
      split_ifs <;> rfl
    have hadd : uint32 ((yearDays n : ℤ) +
        (365 + leapYear ((startYear : ℤ) + n + 2000) : ℕ)) =
          start (fun k => yearLength (2013 + k)) n + yearLength (2013 + n) := by
      rw [hlength, hdays, uint32_natCast_add (by omega)]
    rw [start_succ]
    refine ⟨?_, by omega⟩
    rw [yearDays, ← hadd]
    push_cast
    rfl

end Days

section Loops

variable {add : ℕ → Option ℕ} {w : ℕ → ℕ} {first n r : ℕ}

/-- A round inside the block `n`, or at its start. -/
theorem sumRound_eq (counter temp : ℕ) {k : ℕ} (hadd : add (first + k) = some (w k))
    (hmore : start w k ≤ counter) (hsum : start w (k + 1) < 4294967296)
    (hindex : first + k + 1 < 2 ^ 15) :
    sumRound add counter ⟨first + k, start w k, temp⟩ = some (.continues
      ⟨first + (k + 1), start w (k + 1),
        if start w (k + 1) ≤ counter then start w (k + 1) else temp⟩) := by
  have hnext : uint32 ((start w k : ℤ) + w k) = start w (k + 1) := by
    rw [start_succ] at hsum ⊢
    exact uint32_natCast_add hsum
  simp only [sumRound, if_pos hmore, hadd, Option.bind_some, hnext, if_pos hindex]
  rfl

/-- The loop ends one index behind the block that contains the counter, with the start of that
block. -/
theorem sumLoop_eq (hadd : ∀ k ≤ n, add (first + k) = some (w k)) (hr : r < w n)
    (hsum : start w (n + 1) < 4294967296) (hindex : first + n + 1 < 2 ^ 15) :
    sumLoop add (start w n + r) first =
      some ⟨first + (n + 1), start w (n + 1), start w n⟩ := by
  have hrun (k : ℕ) (hk : k ≤ n) :
      loop (sumRound add (start w n + r)) _ (sumRound_decreases add (start w n + r))
        ⟨first + k, start w k, start w k⟩ =
          some ⟨first + (n + 1), start w (n + 1), start w n⟩ := by
    induction hk using Nat.decreasingInduction with
    | self =>
      have hround := sumRound_eq (start w n + r) (start w n) (hadd n le_rfl)
        (Nat.le_add_right _ r) hsum hindex
      have hbehind : ¬ start w (n + 1) ≤ start w n + r := by
        rw [start_succ]
        omega
      rw [if_neg hbehind] at hround
      have hend : sumRound add (start w n + r)
          ⟨first + (n + 1), start w (n + 1), start w n⟩ = some (.returns _) := if_neg hbehind
      rw [loop_of_continues hround, loop_of_returns hend]
    | of_succ k hk ih =>
      have hnext : start w (k + 1) ≤ start w n := start_mono hk
      have hbefore : start w k ≤ start w (k + 1) := start_mono (Nat.le_succ k)
      have hlast : start w n ≤ start w (n + 1) := start_mono (Nat.le_succ n)
      have hround := sumRound_eq (start w n + r) (start w k)
        (hadd k (by omega)) (by omega) (by omega) (by omega)
      rw [if_pos (by omega)] at hround
      rw [loop_of_continues hround, ih]
  exact hrun 0 (Nat.zero_le n)

/-- A loop over equal units. -/
theorem sumLoop_const (first n : ℕ) {unit : ℕ} (hr : r < unit) (hsum : (n + 1) * unit < 4294967296)
    (hindex : first + n + 1 < 2 ^ 15) :
    sumLoop (fun _ => some unit) (n * unit + r) first =
      some ⟨first + (n + 1), (n + 1) * unit, n * unit⟩ := by
  have hloop := @sumLoop_eq (fun _ => some unit) (fun _ => unit) first n r (fun _ _ => rfl) hr
    (by rwa [start_const]) hindex
  rwa [start_const, start_const] at hloop

end Loops

section Fields

/-- The broken-down time of a calendar time. -/
def ofDateTime (d : DateTime) : TimeT where
  year := Int8.ofInt (d.year - 2000)
  month := Int8.ofInt d.month
  day := Int8.ofInt d.day
  hour := Int8.ofInt d.hour
  min := Int8.ofInt d.minute
  sec := Int8.ofInt d.second

/-- An index behind the unit that was found. -/
theorem index_sub_one (first n : ℕ) : ((first + (n + 1) : ℕ) : ℤ) - 1 = (first + n : ℕ) := by
  push_cast
  omega

theorem gmtimeDay_eq (tt : TimeT) (d : DateTime) :
    gmtimeDay tt ((d.day - 1) * 86400 + d.secondOfDay) = some { tt with
      day := Int8.ofInt d.day
      hour := Int8.ofInt d.hour
      min := Int8.ofInt d.minute
      sec := Int8.ofInt d.second } := by
  have hday := d.day_le
  have hhour := d.hour_lt
  have hminute := d.minute_lt
  have hsecond := d.second_lt
  have hsecondOfDay : d.secondOfDay = d.hour * 3600 + (d.minute * 60 + d.second) := by
    unfold DateTime.secondOfDay
    omega
  have hhourRest : d.minute * 60 + d.second < 3600 := by omega
  have hdays := sumLoop_const 1 (d.day - 1) d.secondOfDay_lt (by omega) (by omega)
  have hhours := sumLoop_const 0 d.hour hhourRest (by omega) (by omega)
  have hminutes := sumLoop_const 0 d.minute d.second_lt (by omega) (by omega)
  have hdayOf : 1 + (d.day - 1) = d.day := Nat.add_sub_cancel' d.day_range.1
  unfold gmtimeDay daySecond hourSecond minSecond
  rw [hdays, Option.bind_some]
  dsimp only
  rw [uint32_offset (by omega), hsecondOfDay]
  rw [hhours, Option.bind_some]
  dsimp only
  rw [uint32_offset (by omega)]
  rw [hminutes, Option.map_some]
  rw [uint32_offset (by omega), index_sub_one, index_sub_one, index_sub_one, hdayOf,
    Nat.zero_add, Nat.zero_add]

/-- The seconds of year `k` from 2013 on. -/
def yearWidth (k : ℕ) : ℕ := yearLength (2013 + k) * 86400

/-- The seconds of month `k` from January on. -/
def monthWidth (year k : ℕ) : ℕ := monthLength year (k + 1) * 86400

theorem start_yearWidth (year : ℕ) :
    start yearWidth (year - 2013) = daysToYear 2013 year * 86400 :=
  start_mul _ _ _

theorem start_monthWidth (year month : ℕ) :
    start (monthWidth year) (month - 1) = daysToMonth year month * 86400 :=
  start_mul _ _ _

theorem addYear_eq (k : ℕ) : addYear (startYear + k) = some (yearWidth k) := by
  have hyear : ((startYear + k : ℕ) : ℤ) + 2000 = ((2013 + k : ℕ) : ℤ) := by
    push_cast [startYear]
    omega
  rw [addYear, hyear, leapYear_natCast, yearWidth, yearLength]
  split_ifs <;> rfl

theorem addMonth_eq {tt : TimeT} {year k : ℕ} (hyear : tt.year.toInt = year) (hk : k < 12) :
    addMonth tt (1 + k) = some (monthWidth (year + 2000) k) := by
  have hmonth : 1 ≤ k + 1 ∧ k + 1 ≤ 12 := by omega
  obtain ⟨days, hdays, hlength⟩ := monTab_eq (year + 2000) hmonth
  simp only [isLeap_add_2000] at hlength
  rw [addMonth, Nat.add_comm 1 k, hdays, Option.map_some, hyear, leapYear_natCast,
    monthWidth, hlength]
  refine congrArg some ?_
  by_cases hleap : IsLeap year
  · simp only [hleap, and_true, if_true, daySecond, Nat.one_ne_zero, ne_eq, not_false_eq_true]
    split_ifs <;> omega
  · simp [hleap, daySecond]

/-- The counter at which `Gmtime` stops lies in the year 2113. -/
theorem year_le_of_guard {d : DateTime} (hyear : 2013 ≤ d.year)
    (hguard : d.secondsSince 2013 < 0xBC191380) : d.year ≤ 2113 := by
  have hcentury := le_daysToYear 2013 2114
  have hlt := d.secondsSince_lt_iff hyear (show 2013 ≤ 2114 by omega)
  generalize daysToYear 2013 2114 = days at hcentury hlt
  have hyear_lt := hlt.mp (by omega)
  omega

/-- The loop over the years finds the year of the counter. -/
theorem yearLoop_eq {d : DateTime} (hyear : 2013 ≤ d.year)
    (hguard : d.secondsSince 2013 < 0xBC191380) :
    ∃ year, sumLoop addYear (d.secondsSince 2013) startYear = some year ∧
      (year.i : ℤ) - 1 = (d.year - 2000 : ℕ) ∧ year.temp = daysToYear 2013 d.year * 86400 := by
  have hlast := year_le_of_guard hyear hguard
  have hsecond := d.secondOfDay_lt
  have hdayOfYear := d.dayOfYear_lt
  have hlength := yearLength_le d.year
  have hindex : startYear + (d.year - 2013) = d.year - 2000 := by
    unfold startYear
    omega
  have hstart := start_yearWidth d.year
  have hwidth : yearWidth (d.year - 2013) = yearLength d.year * 86400 := by
    rw [yearWidth, Nat.add_sub_cancel' hyear]
  have hcounter : d.secondsSince 2013 =
      start yearWidth (d.year - 2013) + (d.dayOfYear * 86400 + d.secondOfDay) := by
    rw [hstart, DateTime.secondsSince, Nat.add_mul, Nat.add_assoc]
  have hend : start yearWidth (d.year - 2013 + 1) < 4294967296 := by
    rw [start_succ, hwidth]
    omega
  have hrest : d.dayOfYear * 86400 + d.secondOfDay < yearWidth (d.year - 2013) := by
    rw [hwidth]
    omega
  have hloop := sumLoop_eq (fun k _ => addYear_eq k) hrest hend (by rw [hindex]; omega)
  rw [← hcounter] at hloop
  refine ⟨_, hloop, ?_, ?_⟩
  · rw [index_sub_one, hindex]
  · dsimp only
    rw [hstart]

/-- The loop over the months finds the month of the rest. -/
theorem monthLoop_eq (tt : TimeT) {d : DateTime} {year : ℕ} (hyear : tt.year.toInt = year)
    (hyearOf : year + 2000 = d.year) :
    ∃ month, sumLoop (addMonth tt) (d.dayOfYear * 86400 + d.secondOfDay) 1 = some month ∧
      (month.i : ℤ) - 1 = d.month ∧ month.temp = daysToMonth d.year d.month * 86400 := by
  have hmonth := d.month_range
  have hday := d.day_range
  have hsecond := d.secondOfDay_lt
  have hdays := (daysToMonth_le d.year hmonth).trans (yearLength_le d.year)
  have hlength := monthLength_le d.year d.month
  have hstart := start_monthWidth d.year d.month
  have hwidth : monthWidth d.year (d.month - 1) = monthLength d.year d.month * 86400 := by
    rw [monthWidth, Nat.sub_add_cancel hmonth.1]
  have hadd : ∀ k ≤ d.month - 1, addMonth tt (1 + k) = some (monthWidth d.year k) := by
    intro k hk
    rw [addMonth_eq hyear (by omega), hyearOf]
  have hcounter : d.dayOfYear * 86400 + d.secondOfDay =
      start (monthWidth d.year) (d.month - 1) + ((d.day - 1) * 86400 + d.secondOfDay) := by
    rw [hstart, DateTime.dayOfYear, Nat.add_mul, Nat.add_assoc]
  have hindex : 1 + (d.month - 1) + 1 < 2 ^ 15 := by omega
  have hend : start (monthWidth d.year) (d.month - 1 + 1) < 4294967296 := by
    rw [start_succ, hwidth, hstart]
    omega
  have hrest : (d.day - 1) * 86400 + d.secondOfDay < monthWidth d.year (d.month - 1) := by
    rw [hwidth]
    omega
  have hloop := sumLoop_eq hadd hrest hend hindex
  rw [← hcounter] at hloop
  refine ⟨_, hloop, ?_, hstart⟩
  rw [index_sub_one, Nat.add_sub_cancel' hmonth.1]

theorem toInt_ofInt_natCast {n : ℕ} (h : n < 128) : (Int8.ofInt n).toInt = n :=
  Int8.toInt_ofInt_of_le (by omega) (by omega)

/-- What is left of the counter for the months. -/
theorem secondsSince_sub (d : DateTime) (h : d.secondsSince 2013 < 4294967296) :
    uint32 ((d.secondsSince 2013 : ℤ) - (daysToYear 2013 d.year * 86400 : ℕ)) =
      d.dayOfYear * 86400 + d.secondOfDay := by
  have hsplit : d.secondsSince 2013 =
      daysToYear 2013 d.year * 86400 + (d.dayOfYear * 86400 + d.secondOfDay) := by
    rw [DateTime.secondsSince, Nat.add_mul, Nat.add_assoc]
  rw [hsplit, uint32_offset (hsplit ▸ h)]

/-- `Gmtime` finds the calendar time of a counter. -/
theorem gmtime_eq (tt : TimeT) {d : DateTime} (hyear : 2013 ≤ d.year)
    (hguard : d.secondsSince 2013 < 0xBC191380) :
    gmtime tt (d.secondsSince 2013) = some (ofDateTime d) := by
  have hlast := year_le_of_guard hyear hguard
  have hsecond := d.secondOfDay_lt
  have hdays := (d.dayOfYear_lt).trans_le (yearLength_le d.year)
  obtain ⟨year, hyearLoop, hyearIndex, hyearTemp⟩ := yearLoop_eq hyear hguard
  have htwoDigits : (Int8.ofInt (d.year - 2000 : ℕ)).toInt = (d.year - 2000 : ℕ) :=
    toInt_ofInt_natCast (by omega)
  obtain ⟨month, hmonthLoop, hmonthIndex, hmonthTemp⟩ := monthLoop_eq
    { tt with year := Int8.ofInt (d.year - 2000 : ℕ) } htwoDigits
    (show d.year - 2000 + 2000 = d.year by omega)
  have hrest : uint32 (((d.dayOfYear * 86400 + d.secondOfDay : ℕ) : ℤ) -
      (daysToMonth d.year d.month * 86400 : ℕ)) = (d.day - 1) * 86400 + d.secondOfDay := by
    have hsplit : d.dayOfYear * 86400 + d.secondOfDay =
        daysToMonth d.year d.month * 86400 + ((d.day - 1) * 86400 + d.secondOfDay) := by
      rw [DateTime.dayOfYear, Nat.add_mul, Nat.add_assoc]
    rw [hsplit, uint32_offset (by omega)]
  rw [gmtime, if_pos hguard, hyearLoop, Option.bind_some]
  simp only [hyearIndex, hyearTemp, secondsSince_sub d (by omega), hmonthLoop, Option.bind_some,
    hmonthIndex, hmonthTemp, hrest, gmtimeDay_eq]
  simp only [ofDateTime, Nat.cast_sub (show 2000 ≤ d.year by omega), Nat.cast_ofNat]

/-- The fields of a calendar time, which all fit into a signed byte. -/
theorem toInt_ofDateTime {d : DateTime} (hlo : 2013 ≤ d.year) (hhi : d.year ≤ 2113) :
    (ofDateTime d).year.toInt = (d.year - 2000 : ℕ) ∧ (ofDateTime d).month.toInt = d.month ∧
      (ofDateTime d).day.toInt = d.day ∧ (ofDateTime d).hour.toInt = d.hour ∧
      (ofDateTime d).min.toInt = d.minute ∧ (ofDateTime d).sec.toInt = d.second := by
  have hmonth := d.month_range
  have hday := d.day_le
  have hhour := d.hour_lt
  have hminute := d.minute_lt
  have hsecond := d.second_lt
  refine ⟨?_, toInt_ofInt_natCast (by omega), toInt_ofInt_natCast (by omega),
    toInt_ofInt_natCast (by omega), toInt_ofInt_natCast (by omega),
    toInt_ofInt_natCast (by omega)⟩
  rw [← toInt_ofInt_natCast (show d.year - 2000 < 128 by omega),
    Nat.cast_sub (show 2000 ≤ d.year by omega)]
  rfl

/-- The years of `ConverseGmtime` end with 2070. -/
theorem secondsSince_lt_end_iff {d : DateTime} (hyear : 2013 ≤ d.year) :
    d.secondsSince 2013 < 1830297600 ↔ d.year ≤ 2070 := by
  have hend : daysToYear 2013 2071 = 21184 := rfl
  have hlt := d.secondsSince_lt_iff hyear (show 2013 ≤ 2071 by omega)
  rw [hend] at hlt
  exact hlt.trans Nat.lt_succ_iff

/-- `ConverseGmtime` counts the seconds of a calendar time. -/
theorem converseGmtime_eq {d : DateTime} (hlo : 2013 ≤ d.year) (hhi : d.year ≤ 2070) :
    converseGmtime (ofDateTime d) = some (d.secondsSince 2013) := by
  obtain ⟨hyear, hmonth, hday, hhour, hminute, hsecond⟩ := toInt_ofDateTime hlo (by omega)
  have hcount := (secondsSince_lt_end_iff hlo).mpr hhi
  have hday_pos := d.day_range.1
  have hfirst : (ofDateTime d).year.toInt ≥ startYear ∧ (ofDateTime d).year.toInt ≤ endYear := by
    rw [hyear, startYear, endYear]
    omega
  have hyearOf : (ofDateTime d).year.toInt + 2000 = (d.year : ℤ) := by
    rw [hyear]
    omega
  have hpast : ((ofDateTime d).year.toInt - startYear).toNat = d.year - 2013 := by
    rw [hyear, startYear]
    omega
  have hyears : yearDays (d.year - 2013) = daysToYear 2013 d.year := (yearDays_eq (by omega)).1
  have hbound := (yearDays_eq (n := d.year - 2013) (by omega)).2
  have hmonths := (daysToMonth_le d.year d.month_range).trans (yearLength_le d.year)
  have hdays := d.day_le
  have htotal : uint32 ((daysToYear 2013 d.year : ℤ) + (daysToMonth d.year d.month + d.day : ℕ)) =
      daysToYear 2013 d.year + (daysToMonth d.year d.month + d.day) := by
    apply uint32_natCast_add
    rw [daysToYear]
    omega
  have hseconds : (((daysToYear 2013 d.year + (daysToMonth d.year d.month + d.day) : ℕ) : ℤ) - 1) *
      daySecond + d.hour * hourSecond + d.minute * 60 + d.second = (d.secondsSince 2013 : ℕ) := by
    unfold DateTime.secondsSince DateTime.dayOfYear DateTime.secondOfDay daySecond hourSecond
    omega
  rw [converseGmtime, if_pos hfirst, hyearOf, hmonth, hday, yearDay_eq d.month_range hdays,
    Option.map_some, hpast, hyears, htotal, hhour, hminute, hsecond]
  dsimp only
  rw [hseconds, uint32_natCast (by omega)]

end Fields

end VehicleTerminal.Rtc
