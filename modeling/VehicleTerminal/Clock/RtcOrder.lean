import VehicleTerminal.Clock.RtcRoundTrip
import Mathlib.Order.Cover

/-! The counters of `ConverseGmtime` in the order of time: an earlier time has a smaller counter,
and the next second has the next counter. -/
namespace VehicleTerminal.Rtc
open Calendar MachineInt

section Order

/-- The valid times of the years that `ConverseGmtime` takes. -/
abbrev ClockTime := {tt : TimeT // ValidTime tt}

def TimeT.fields (tt : TimeT) : List ℤ :=
  [tt.year.toInt, tt.month.toInt, tt.day.toInt, tt.hour.toInt, tt.min.toInt, tt.sec.toInt]

theorem TimeT.fields_injective : Function.Injective TimeT.fields := by
  intro tt tt' h
  simp only [TimeT.fields, List.cons.injEq, Int8.toInt_inj, and_true] at h
  obtain ⟨hyear, hmonth, hday, hhour, hmin, hsec⟩ := h
  exact TimeT.ext hyear hmonth hday hhour hmin hsec

/-- Times are ordered by year, month, day, hour, minute and second. -/
instance : LinearOrder ClockTime :=
  LinearOrder.lift' (fun t => t.val.fields) (TimeT.fields_injective.comp Subtype.val_injective)

/-- The counter of a time. -/
def ClockTime.counter (t : ClockTime) : ℕ := (converseGmtime t.val).getD 0

/-- No 32-bit operation of `ConverseGmtime` wraps: the sums of the days are in range, `TotalDay-1`
is not negative, and the seconds are in range. -/
structure NoWrap (tt : TimeT) : Prop where
  years : ∀ n : ℕ, (startYear + n : ℤ) < tt.year.toInt →
    yearDays n + (365 + leapYear (startYear + n + 2000)) < 2 ^ 32
  seconds : ∃ days, yearDay (tt.year.toInt + 2000) tt.month.toInt tt.day.toInt = some days ∧
    let totalDay := yearDays (tt.year.toInt - startYear).toNat + days
    1 ≤ totalDay ∧ totalDay < 2 ^ 32 ∧
      ((totalDay : ℤ) - 1) * daySecond + tt.hour.toInt * hourSecond + tt.min.toInt * 60 +
        tt.sec.toInt < 2 ^ 32

end Order

section Counters

variable {d d' : DateTime}

theorem fields_ofDateTime (hlo : 2013 ≤ d.year) (hhi : d.year ≤ 2070) :
    (ofDateTime d).fields =
      [((d.year - 2000 : ℕ) : ℤ), d.month, d.day, d.hour, d.minute, d.second] := by
  obtain ⟨hyear, hmonth, hday, hhour, hminute, hsecond⟩ := toInt_ofDateTime hlo (by omega)
  rw [TimeT.fields, hyear, hmonth, hday, hhour, hminute, hsecond]

/-- The order of the fields is the one of the calendar. -/
theorem fields_lt_iff (hlo : 2013 ≤ d.year) (hhi : d.year ≤ 2070) (hlo' : 2013 ≤ d'.year)
    (hhi' : d'.year ≤ 2070) :
    (ofDateTime d).fields < (ofDateTime d').fields ↔ d.fields < d'.fields := by
  have hyear : d.year - 2000 = d'.year - 2000 ↔ d.year = d'.year := by omega
  have hyears : d.year - 2000 < d'.year - 2000 ↔ d.year < d'.year := by omega
  rw [fields_ofDateTime hlo hhi, fields_ofDateTime hlo' hhi']
  simp only [DateTime.fields, List.cons_lt_cons_iff, Nat.cast_lt, Nat.cast_inj, hyear, hyears,
    List.not_lt_nil]

theorem validTime_ofDateTime (hlo : 2013 ≤ d.year) (hhi : d.year ≤ 2070) :
    ValidTime (ofDateTime d) := by
  obtain ⟨hyear, hmonth, hday, hhour, hminute, hsecond⟩ := toInt_ofDateTime hlo (by omega)
  have hmonth_range := d.month_range
  have hday_range := d.day_range
  have hhour_lt := d.hour_lt
  have hminute_lt := d.minute_lt
  have hsecond_lt := d.second_lt
  have hyearOf : ((d.year - 2000 : ℕ) + 2000 : ℤ).toNat = d.year := by omega
  constructor
  · rw [hyear, startYear, endYear]
    omega
  · rw [hmonth]
    omega
  · rw [hyear, hmonth, hday, hyearOf, Int.toNat_natCast]
    omega
  · rw [hhour]
    omega
  · rw [hminute]
    omega
  · rw [hsecond]
    omega

/-- Every clock time is a calendar time, and its counter is the number of seconds. -/
theorem ClockTime.exists_dateTime (t : ClockTime) : ∃ d : DateTime, 2013 ≤ d.year ∧
    d.year ≤ 2070 ∧ ofDateTime d = t.val ∧ t.counter = d.secondsSince 2013 := by
  obtain ⟨d, hlo, hhi, hd⟩ := t.property.exists_dateTime
  refine ⟨d, hlo, hhi, hd, ?_⟩
  rw [ClockTime.counter, ← hd, converseGmtime_eq hlo hhi, Option.getD_some]

theorem converseGmtime_eq_counter (t : ClockTime) : converseGmtime t.val = some t.counter := by
  obtain ⟨d, hlo, hhi, hd, hcounter⟩ := t.exists_dateTime
  rw [← hd, converseGmtime_eq hlo hhi, hcounter]

theorem counter_strictMono : StrictMono ClockTime.counter := by
  intro t t' hlt
  obtain ⟨d, hlo, hhi, hd, hcounter⟩ := t.exists_dateTime
  obtain ⟨d', hlo', hhi', hd', hcounter'⟩ := t'.exists_dateTime
  have hfields : t.val.fields < t'.val.fields := hlt
  rw [← hd, ← hd', fields_lt_iff hlo hhi hlo' hhi'] at hfields
  rw [hcounter, hcounter']
  exact DateTime.secondsSince_lt hlo hfields

/-- Between the counters of a time and the next one lies none, since every counter up to the end
is the one of a time. -/
theorem counter_covBy {t t' : ClockTime} (h : t ⋖ t') : t'.counter = t.counter + 1 := by
  obtain ⟨d', hlo', hhi', -, hcounter'⟩ := t'.exists_dateTime
  have hlt := counter_strictMono h.lt
  have hend := (secondsSince_lt_end_iff hlo').mpr hhi'
  by_contra hgap
  obtain ⟨d, hlo, hd⟩ := DateTime.exists_secondsSince 2013 (t.counter + 1)
  have hhi := (secondsSince_lt_end_iff hlo).mp (by omega)
  let between : ClockTime := ⟨ofDateTime d, validTime_ofDateTime hlo hhi⟩
  have hcounter : between.counter = t.counter + 1 := by
    rw [ClockTime.counter, converseGmtime_eq hlo hhi, Option.getD_some, hd]
  have hafter : t < between := counter_strictMono.lt_iff_lt.mp (by omega)
  have hbefore : between < t' := counter_strictMono.lt_iff_lt.mp (by omega)
  exact h.2 hafter hbefore

theorem covBy_iff (t t' : ClockTime) : t ⋖ t' ↔ t'.counter = t.counter + 1 := by
  refine ⟨counter_covBy, fun hnext => ⟨counter_strictMono.lt_iff_lt.mp (by omega), ?_⟩⟩
  intro between hafter hbefore
  have hlo := counter_strictMono hafter
  have hhi := counter_strictMono hbefore
  omega

theorem noWrap (t : ClockTime) : NoWrap t.val := by
  obtain ⟨d, hlo, hhi, hd, -⟩ := t.exists_dateTime
  obtain ⟨hyear, hmonth, hday, hhour, hminute, hsecond⟩ := toInt_ofDateTime hlo (by omega)
  have hmonths := (daysToMonth_le d.year d.month_range).trans (yearLength_le d.year)
  have hday_range := d.day_range
  have hday_le := d.day_le
  have hhour_lt := d.hour_lt
  have hminute_lt := d.minute_lt
  have hsecond_lt := d.second_lt
  have hyearOf : ((d.year - 2000 : ℕ) : ℤ) + 2000 = (d.year : ℤ) := by omega
  have hpast : (((d.year - 2000 : ℕ) : ℤ) - startYear).toNat = d.year - 2013 := by
    rw [startYear]
    omega
  have hdays (n : ℕ) (hn : n ≤ 57) : yearDays n ≤ 57 * 366 := by
    obtain ⟨heq, hle⟩ := yearDays_eq (n := n) (by omega)
    omega
  rw [← hd]
  constructor
  · intro n hn
    rw [hyear, startYear] at hn
    have hbound := hdays n (by omega)
    have hleap : leapYear (startYear + n + 2000) ≤ 1 := by
      unfold leapYear
      split_ifs <;> omega
    omega
  · refine ⟨_, by rw [hyear, hmonth, hday, hyearOf]; exact yearDay_eq d.month_range hday_le, ?_⟩
    have hbound := hdays (d.year - 2013) (by omega)
    rw [hyear, hpast, hhour, hminute, hsecond, daySecond, hourSecond]
    omega

end Counters

/-- `ConverseGmtime` is strictly monotone on the times, counts on by one from a second to the
next, and its 32-bit arithmetic does not wrap. -/
theorem converseGmtime_monotone : (∀ t : ClockTime, converseGmtime t.val = some t.counter ∧
      t.counter < 2 ^ 32 ∧ NoWrap t.val) ∧
    StrictMono ClockTime.counter ∧ ∀ t t' : ClockTime, t ⋖ t' ↔ t'.counter = t.counter + 1 := by
  refine ⟨fun t => ⟨converseGmtime_eq_counter t, ?_, noWrap t⟩, counter_strictMono, covBy_iff⟩
  obtain ⟨d, hlo, hhi, -, hcounter⟩ := t.exists_dateTime
  have hend := (secondsSince_lt_end_iff hlo).mpr hhi
  omega

end VehicleTerminal.Rtc
