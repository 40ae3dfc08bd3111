import VehicleTerminal.Library.PartialSums
import Mathlib.Data.List.Lex

/-! Dates and times of the Gregorian calendar, and the seconds from the start of a base year to
them. -/
namespace Calendar
open PartialSums

def IsLeap (year : ℕ) : Prop := (4 ∣ year ∧ ¬ 100 ∣ year) ∨ 400 ∣ year

instance : DecidablePred IsLeap := fun year =>
  inferInstanceAs (Decidable ((4 ∣ year ∧ ¬ 100 ∣ year) ∨ 400 ∣ year))

def yearLength (year : ℕ) : ℕ := if IsLeap year then 366 else 365

def monthLength (year : ℕ) : ℕ → ℕ
  | 2 => if IsLeap year then 29 else 28
  | 4 | 6 | 9 | 11 => 30
  | _ => 31

structure DateTime where
  year : ℕ
  month : ℕ
  day : ℕ
  hour : ℕ
  minute : ℕ
  second : ℕ
  month_range : 1 ≤ month ∧ month ≤ 12
  day_range : 1 ≤ day ∧ day ≤ monthLength year month
  hour_lt : hour < 24
  minute_lt : minute < 60
  second_lt : second < 60

/-- The days before the year, from the start of the base year. -/
def daysToYear (base year : ℕ) : ℕ := start (fun k => yearLength (base + k)) (year - base)

/-- The days of the year before the month. -/
def daysToMonth (year month : ℕ) : ℕ := start (fun k => monthLength year (k + 1)) (month - 1)

/-- The seconds of the day. -/
def DateTime.secondOfDay (d : DateTime) : ℕ := d.hour * 3600 + d.minute * 60 + d.second

def DateTime.dayOfYear (d : DateTime) : ℕ := daysToMonth d.year d.month + (d.day - 1)

/-- The seconds from the start of the base year. -/
def DateTime.secondsSince (base : ℕ) (d : DateTime) : ℕ :=
  (daysToYear base d.year + d.dayOfYear) * 86400 + d.secondOfDay

theorem le_yearLength (year : ℕ) : 365 ≤ yearLength year := by
  unfold yearLength
  split_ifs <;> omega

theorem yearLength_le (year : ℕ) : yearLength year ≤ 366 := by
  unfold yearLength
  split_ifs <;> omega

theorem monthLength_le (year month : ℕ) : monthLength year month ≤ 31 := by
  unfold monthLength
  split
  · split_ifs <;> omega
  all_goals omega

/-- The months make up the year. -/
theorem start_monthLength (year : ℕ) :
    start (fun k => monthLength year (k + 1)) 12 = yearLength year := by
  simp only [start, Finset.sum_range_succ, Finset.sum_range_zero, monthLength, yearLength]
  split_ifs <;> rfl

theorem daysToMonth_le (year : ℕ) {month : ℕ} (hmonth : 1 ≤ month ∧ month ≤ 12) :
    daysToMonth year month ≤ yearLength year := by
  rw [daysToMonth, ← start_monthLength]
  exact start_mono (by omega)

/-- The two-digit year has the leap rule of its year from 2000 on. -/
theorem isLeap_add_2000 (year : ℕ) : IsLeap (year + 2000) ↔ IsLeap year := by
  unfold IsLeap
  omega

theorem le_daysToYear (base year : ℕ) : (year - base) * 365 ≤ daysToYear base year :=
  mul_le_start (fun k => le_yearLength (base + k)) (year - base)

namespace DateTime

theorem secondOfDay_lt (d : DateTime) : d.secondOfDay < 86400 := by
  have hhour := d.hour_lt
  have hminute := d.minute_lt
  have hsecond := d.second_lt
  unfold secondOfDay
  omega

theorem day_le (d : DateTime) : d.day ≤ 31 :=
  d.day_range.2.trans (monthLength_le d.year d.month)

theorem dayOfYear_lt (d : DateTime) : d.dayOfYear < yearLength d.year := by
  have hmonth := d.month_range
  have hday := d.day_range
  rw [dayOfYear, daysToMonth, ← start_monthLength, add_lt_start_iff]
  · omega
  · rw [Nat.sub_add_cancel hmonth.1]
    omega

/-- A time lies before a year exactly when its count does. -/
theorem secondsSince_lt_iff {base year : ℕ} (d : DateTime) (hbase : base ≤ d.year)
    (hyear : base ≤ year) :
    d.secondsSince base < daysToYear base year * 86400 ↔ d.year < year := by
  have hsecond := d.secondOfDay_lt
  have hday : d.dayOfYear < yearLength (base + (d.year - base)) := by
    rw [Nat.add_sub_cancel' hbase]
    exact d.dayOfYear_lt
  have hyears : daysToYear base d.year + d.dayOfYear < daysToYear base year ↔
      d.year - base < year - base :=
    add_lt_start_iff (w := fun k => yearLength (base + k)) hday
  rw [secondsSince]
  constructor
  · intro h
    have hlt := hyears.mp (by omega)
    omega
  · intro h
    have hlt := hyears.mpr (by omega)
    omega

/-- Every count of seconds is that of a time. -/
theorem exists_secondsSince (base counter : ℕ) :
    ∃ d : DateTime, base ≤ d.year ∧ d.secondsSince base = counter := by
  obtain ⟨y, -, dayOfYear, hday, hdays⟩ := exists_offset
    (lt_start_of_pos (fun k => Nat.lt_of_lt_of_le (Nat.succ_pos 364) (le_yearLength (base + k)))
      (counter / 86400))
  rw [← start_monthLength] at hday
  obtain ⟨m, hm, day, hmonth, rfl⟩ := exists_offset hday
  let d : DateTime :=
    { year := base + y
      month := m + 1
      day := day + 1
      hour := counter % 86400 / 3600
      minute := counter % 3600 / 60
      second := counter % 60
      month_range := by omega
      day_range := by omega
      hour_lt := by omega
      minute_lt := by omega
      second_lt := by omega }
  have hdaysToYear : daysToYear base d.year = start (fun k => yearLength (base + k)) y := by
    rw [daysToYear, Nat.add_sub_cancel_left]
  have hdayOfYear : d.dayOfYear = start (fun k => monthLength (base + y) (k + 1)) m + day := rfl
  have hsecond : d.secondOfDay = counter % 86400 := by
    dsimp only [secondOfDay, d]
    omega
  refine ⟨d, Nat.le_add_right base y, ?_⟩
  rw [secondsSince, hdaysToYear, hdayOfYear, ← hdays, hsecond]
  omega

def fields (d : DateTime) : List ℕ := [d.year, d.month, d.day, d.hour, d.minute, d.second]

theorem dayOfYear_lt_of_month_lt {d d' : DateTime} (hyear : d.year = d'.year)
    (hmonth : d.month < d'.month) : d.dayOfYear < d'.dayOfYear := by
  have hmonths := d.month_range
  have hday := d.day_range
  have hoffset : d.day - 1 < monthLength d.year (d.month - 1 + 1) := by
    rw [Nat.sub_add_cancel hmonths.1]
    omega
  have hlt := (add_lt_start_iff (w := fun k => monthLength d.year (k + 1)) hoffset).mpr
    (show d.month - 1 < d'.month - 1 by omega)
  rw [dayOfYear, dayOfYear, daysToMonth, daysToMonth, ← hyear]
  omega

/-- An earlier time has a smaller count. -/
theorem secondsSince_lt {base : ℕ} {d d' : DateTime} (hbase : base ≤ d.year)
    (h : d.fields < d'.fields) : d.secondsSince base < d'.secondsSince base := by
  have hsecond := d.secondOfDay_lt
  have hday := d.day_range
  have hhour := d.hour_lt
  have hminute := d.minute_lt
  have hsec := d.second_lt
  simp only [fields, List.cons_lt_cons_iff, List.not_lt_nil, and_false, or_false] at h
  rcases h with hyear | ⟨hyear, hmonth | ⟨hmonth, hrest⟩⟩
  · calc d.secondsSince base
        < daysToYear base d'.year * 86400 :=
          (d.secondsSince_lt_iff hbase (hbase.trans hyear.le)).mpr hyear
      _ ≤ d'.secondsSince base := by
        rw [secondsSince, Nat.add_mul, Nat.add_assoc]
        exact Nat.le_add_right _ _
  · have hdays := dayOfYear_lt_of_month_lt hyear hmonth
    rw [secondsSince, secondsSince, hyear]
    omega
  · rw [secondsSince, secondsSince, dayOfYear, dayOfYear, hyear, hmonth, secondOfDay, secondOfDay]
    omega

end DateTime

end Calendar
