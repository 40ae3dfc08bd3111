import VehicleTerminal.Clock.Rtc
import VehicleTerminal.Library.Calendar
import VehicleTerminal.Library.MixedRadix
import VehicleTerminal.Storage.MediaSearch

/-! The times that the search for files compares: the one that `GetIntTime` packs, the words of a
directory entry, and the word with which the file system stamps it. -/
namespace VehicleTerminal.MediaSearch
open Calendar MixedRadix

section Model

/-- `get_fattime` at the time that the clock shows. -/
def getFattime (dayTime : Rtc.TimeT) : UInt32 :=
  (UInt32.ofInt (dayTime.year.toInt + 2000 - 1980) <<< 25) |||
    (dayTime.month.toUInt8.toUInt32 <<< 21) ||| (dayTime.day.toUInt8.toUInt32 <<< 16) |||
    (dayTime.hour.toUInt8.toUInt32 <<< 11) ||| (dayTime.min.toUInt8.toUInt32 <<< 5) |||
    (dayTime.sec.toUInt8 >>> 1).toUInt32

end Model

/-- A valid time of the years 2000 to 2107. -/
structure FatTime extends DayTime where
  year_le : year.toNat ≤ 107
  month_range : 1 ≤ month.toNat ∧ month.toNat ≤ 12
  day_range : 1 ≤ day.toNat ∧ day.toNat ≤ monthLength (2000 + year.toNat) month.toNat
  hour_lt : hour.toNat < 24
  min_lt : min.toNat < 60
  sec_lt : sec.toNat < 60

namespace FatTime

variable (t : FatTime)

/-- What is compared, the most significant first; the seconds count in pairs. -/
def fields : List ℤ :=
  [t.year.toNat, t.month.toNat, t.day.toNat, t.hour.toNat, t.min.toNat, (t.sec.toNat / 2 : ℕ)]

/-- The date word of a directory entry: bits 15-9 are the year from 1980 on, 8-5 the month and 4-0
the day. -/
def fdate : UInt16 :=
  UInt16.ofNat ((2000 + t.year.toNat - 1980) * 2 ^ 9 + t.month.toNat * 2 ^ 5 + t.day.toNat)

/-- The time word: bits 15-11 are the hour, 10-5 the minute and 4-0 the pairs of seconds. -/
def ftime : UInt16 :=
  UInt16.ofNat (t.hour.toNat * 2 ^ 11 + t.min.toNat * 2 ^ 5 + t.sec.toNat / 2)

/-- The clock at this time. -/
def clock : Rtc.TimeT :=
  ⟨t.year.toInt8, t.month.toInt8, t.day.toInt8, t.hour.toInt8, t.min.toInt8, t.sec.toInt8⟩

/-- The time as one number. -/
def value : ℕ :=
  (2000 + t.year.toNat - 1980) * 2 ^ 25 + t.month.toNat * 2 ^ 21 + t.day.toNat * 2 ^ 16 +
    t.hour.toNat * 2 ^ 11 + t.min.toNat * 2 ^ 5 + t.sec.toNat / 2

/-- The file was last written at this time. -/
def Stamps (fileInfo : FileInfo) : Prop := fileInfo.fdate = t.fdate ∧ fileInfo.ftime = t.ftime

variable {t} {t' : FatTime}

theorem day_le : t.day.toNat ≤ 31 := t.day_range.2.trans (monthLength_le _ _)

/-- Each field stays inside its bits. -/
theorem fits (t : FatTime) : t.year.toNat + 20 < 2 ^ 7 ∧ t.month.toNat < 2 ^ 4 ∧
    t.day.toNat < 2 ^ 5 ∧ t.hour.toNat < 2 ^ 5 ∧ t.min.toNat < 2 ^ 6 ∧ t.sec.toNat / 2 < 2 ^ 5 := by
  have hyear := t.year_le
  have hmonth := t.month_range
  have hday := t.day_le
  have hhour := t.hour_lt
  have hmin := t.min_lt
  have hsec := t.sec_lt
  refine ⟨?_, ?_, ?_, ?_, ?_, ?_⟩ <;> omega

theorem getIntTime_toNat (t : FatTime) : (getIntTime t.toDayTime).toNat = t.value := by
  obtain ⟨hyear, hmonth, hday, hhour, hmin, hsec⟩ := t.fits
  have hbase : (t.year.toUInt32 + 2000 - 1980).toNat = t.year.toNat + 20 := by
    rw [UInt32.toNat_sub, UInt32.toNat_add, UInt8.toNat_toUInt32]
    simp only [UInt32.toNat_ofNat]
    omega
  have hpair : (t.sec >>> 1).toUInt32.toNat = t.sec.toNat / 2 := by
    rw [UInt8.toNat_toUInt32, UInt8.toNat_shiftRight, Nat.shiftRight_eq_div_pow]
    rfl
  have byte (b : UInt8) (n : ℕ) (h : b.toNat < n) : b.toUInt32.toNat < n := by
    rwa [UInt8.toNat_toUInt32]
  have date := ((above_shiftLeft (x := t.year.toUInt32 + 2000 - 1980) (w := 7) 25 (by omega)
    (by decide) (by decide)).or_shiftLeft (w := 4) 21 (byte t.month _ hmonth) (by decide)
    (by decide)).or_shiftLeft (w := 5) 16 (byte t.day _ hday) (by decide) (by decide)
  have time := ((date.or_shiftLeft (w := 5) 11 (byte t.hour _ hhour) (by decide)
    (by decide)).or_shiftLeft (w := 6) 5 (byte t.min _ hmin) (by decide)
    (by decide)).or_shiftLeft (x := (t.sec >>> 1).toUInt32) (w := 5) 0 (by omega) (by decide)
    (by decide)
  have hlast : (t.sec >>> 1).toUInt32 <<< UInt32.ofNat 0 = (t.sec >>> 1).toUInt32 :=
    UInt32.shiftLeft_zero
  rw [hlast, hbase, hpair] at time
  simp only [UInt8.toNat_toUInt32] at time
  refine Eq.trans time ?_
  rw [value]
  omega

/-- The places of the fields in the number; nothing stands above the year. -/
def radices : List ℕ := [128, 16, 32, 32, 64, 32]

theorem value_eq_horner (t : FatTime) :
    (t.value : ℤ) = horner 0 radices ((t.year.toNat + 20 : ℤ) :: t.fields.tail) := by
  simp only [value, radices, fields, List.tail_cons, horner]
  omega

theorem fields_close (t t' : FatTime) : Close radices ((t.year.toNat + 20 : ℤ) :: t.fields.tail)
    ((t'.year.toNat + 20 : ℤ) :: t'.fields.tail) := by
  obtain ⟨hyear, hmonth, hday, hhour, hmin, hsec⟩ := t.fits
  obtain ⟨hyear', hmonth', hday', hhour', hmin', hsec'⟩ := t'.fits
  have within {a b n : ℕ} (ha : a < n) (hb : b < n) : |(a : ℤ) - b| < n :=
    abs_lt.mpr ⟨by omega, by omega⟩
  refine .cons (abs_lt.mpr ⟨by omega, by omega⟩) (.cons ?_ (.cons ?_ (.cons ?_ (.cons ?_
    (.cons ?_ .nil)))))
  · exact within hmonth hmonth'
  · exact within hday hday'
  · exact within hhour hhour'
  · exact within hmin hmin'
  · exact within hsec hsec'

theorem value_lt_iff (t t' : FatTime) : t.value < t'.value ↔ t.fields < t'.fields := by
  have hplaces : horner 0 radices _ < horner 0 radices _ ↔ _ := horner_lt_iff (fields_close t t')
  rw [← value_eq_horner, ← value_eq_horner, Nat.cast_lt] at hplaces
  rw [hplaces]
  simp [fields, List.cons_lt_cons_iff]

theorem value_eq_iff (t t' : FatTime) : t.value = t'.value ↔ t.fields = t'.fields := by
  have hplaces : horner 0 radices _ = horner 0 radices _ ↔ _ := horner_eq_iff (fields_close t t')
  rw [← value_eq_horner, ← value_eq_horner, Nat.cast_inj] at hplaces
  rw [hplaces]
  simp [fields]

theorem getIntTime_lt_iff (t t' : FatTime) :
    getIntTime t.toDayTime < getIntTime t'.toDayTime ↔ t.fields < t'.fields := by
  rw [UInt32.lt_iff_toNat_lt, getIntTime_toNat, getIntTime_toNat, value_lt_iff]

theorem getIntTime_eq_iff (t t' : FatTime) :
    getIntTime t.toDayTime = getIntTime t'.toDayTime ↔ t.fields = t'.fields := by
  rw [← UInt32.toNat_inj, getIntTime_toNat, getIntTime_toNat, value_eq_iff]

/-- The words of the directory entry are the halves of the packed time. -/
theorem fileTime_of_stamps {fileInfo : FileInfo} (h : t.Stamps fileInfo) :
    fileTime fileInfo = getIntTime t.toDayTime := by
  obtain ⟨hyear, hmonth, hday, hhour, hmin, hsec⟩ := t.fits
  have hfdate : fileInfo.fdate.toUInt32.toNat =
      (2000 + t.year.toNat - 1980) * 2 ^ 9 + t.month.toNat * 2 ^ 5 + t.day.toNat := by
    rw [h.1, UInt16.toNat_toUInt32, fdate, UInt16.toNat_ofNat']
    omega
  have hftime : fileInfo.ftime.toUInt32.toNat =
      t.hour.toNat * 2 ^ 11 + t.min.toNat * 2 ^ 5 + t.sec.toNat / 2 := by
    rw [h.2, UInt16.toNat_toUInt32, ftime, UInt16.toNat_ofNat']
    omega
  have word := (above_shiftLeft (x := fileInfo.fdate.toUInt32) (w := 16) 16
    (by omega) (by decide) (by decide)).or_shiftLeft (x := fileInfo.ftime.toUInt32) (w := 16) 0
    (by omega) (by decide) (by decide)
  have hlast : fileInfo.ftime.toUInt32 <<< UInt32.ofNat 0 = fileInfo.ftime.toUInt32 :=
    UInt32.shiftLeft_zero
  rw [hlast, hfdate, hftime] at word
  rw [← UInt32.toNat_inj, getIntTime_toNat]
  refine Eq.trans word ?_
  rw [value]
  omega

/-- The file system stamps a file with the packed time of the clock. -/
theorem getFattime_clock (t : FatTime) : getFattime t.clock = getIntTime t.toDayTime := by
  have hyear := t.year_le
  have hclock : UInt32.ofInt (t.year.toInt8.toInt + 2000 - 1980) =
      t.year.toUInt32 + 2000 - 1980 := by
    have hsigned : ∀ n < 128, UInt32.ofInt ((UInt8.ofNat n).toInt8.toInt + 2000 - 1980) =
        (UInt8.ofNat n).toUInt32 + 2000 - 1980 := by decide +kernel
    simpa using hsigned t.year.toNat (by omega)
  simp only [getFattime, clock, hclock, UInt8.toUInt8_toInt8]
  rfl

/-- The packed time has room for every field, compares as the time does and equals the word of the
directory entry, so that `CheckDayTime` takes the files between two times. -/
theorem dayTime_ordered (startTime endTime file : FatTime) :
    (getIntTime file.toDayTime).toNat = file.value ∧
    (getIntTime startTime.toDayTime < getIntTime endTime.toDayTime ↔
      startTime.fields < endTime.fields) ∧
    (getIntTime startTime.toDayTime = getIntTime endTime.toDayTime ↔
      startTime.fields = endTime.fields) ∧
    ∀ fileInfo, file.Stamps fileInfo →
      fileTime fileInfo = getIntTime file.toDayTime ∧
      (checkDayTime (getIntTime startTime.toDayTime) (getIntTime endTime.toDayTime)
        (fileTime fileInfo) = true ↔
          startTime.fields < file.fields ∧ file.fields < endTime.fields) := by
  refine ⟨getIntTime_toNat file, getIntTime_lt_iff startTime endTime,
    getIntTime_eq_iff startTime endTime, fun fileInfo hstamps => ?_⟩
  have hword := fileTime_of_stamps hstamps
  refine ⟨hword, ?_⟩
  rw [checkDayTime, decide_eq_true_iff, hword, gt_iff_lt, getIntTime_lt_iff, getIntTime_lt_iff]

/-- The last seconds of 29 February 2012. -/
def leapDay : FatTime where
  year := 12
  month := 2
  day := 29
  hour := 23
  min := 59
  sec := 58
  year_le := by decide
  month_range := by decide
  day_range := by decide
  hour_lt := by decide
  min_lt := by decide
  sec_lt := by decide

example : (leapDay.fdate, leapDay.ftime) = (0x405D, 0xBF7D) ∧
    getFattime leapDay.clock = 0x405DBF7D := by decide

end FatTime

end VehicleTerminal.MediaSearch
