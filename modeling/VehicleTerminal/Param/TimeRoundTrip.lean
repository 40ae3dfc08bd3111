import VehicleTerminal.Eeprom.RoundTrip
import VehicleTerminal.Param.Bcd
import VehicleTerminal.Param.Special
import VehicleTerminal.Param.TimeCalendar

/-! A time parameter on its way from the server's form into the EEPROM and back. Both conversions
allow the years up to 2070, of which `E2ParamApp_Gmtime` loses the last. -/
namespace VehicleTerminal.E2ParamApp
open BlockMemory Calendar EepromPram MachineInt

section Counters

/-- The counter's time in Beijing lies before the start of the year. -/
def LocalBefore (year counter : ℕ) : Prop :=
  counter + standardTimeDiff < daysToYear 2000 year * daySecond

instance (year counter : ℕ) : Decidable (LocalBefore year counter) :=
  inferInstanceAs (Decidable (_ < _))

variable {counter : ℕ}

theorem localBefore_2070_iff : LocalBefore 2070 counter ↔ counter + 28800 < 2209075200 := by
  rw [LocalBefore, daysToYear_2070, daySecond, standardTimeDiff]

theorem localBefore_2071_iff : LocalBefore 2071 counter ↔ counter + 28800 < 2240611200 := by
  rw [LocalBefore, daysToYear_2071, daySecond, standardTimeDiff]

theorem LocalBefore.lt (h : LocalBefore 2071 counter) : counter < 2240611200 := by
  rw [localBefore_2071_iff] at h
  omega

/-- The calendar time of a counter. -/
theorem LocalBefore.exists_dateTime (h : LocalBefore 2071 counter) :
    ∃ d : DateTime, 2000 ≤ d.year ∧ d.year ≤ 2070 ∧
      d.secondsSince 2000 = counter + standardTimeDiff ∧
      gmtime counter = ofDateTime (foundYear d.year) d ∧
      (LocalBefore 2070 counter ↔ d.year ≤ 2069) := by
  obtain ⟨d, hlo, hcount⟩ := DateTime.exists_secondsSince 2000 (counter + standardTimeDiff)
  have hlast := d.secondsSince_lt_iff hlo (show 2000 ≤ 2071 by omega)
  have hbefore := d.secondsSince_lt_iff hlo (show 2000 ≤ 2070 by omega)
  rw [hcount] at hlast hbefore
  have hhi : d.year ≤ 2070 := Nat.lt_succ_iff.mp (hlast.mp h)
  have hbound := secondsSince_lt hlo hhi
  have hlocal : uint32 ((counter : ℤ) + standardTimeDiff) = d.secondsSince 2000 := by
    rw [uint32_natCast_add (by omega), hcount]
  exact ⟨d, hlo, hhi, hcount, gmtime_eq hlo hhi hlocal, hbefore.trans Nat.lt_succ_iff⟩

theorem checkTimeStruct_ofDateTime {year : ℕ} (hyear : year ≤ 70) (d : DateTime) :
    checkTimeStruct (ofDateTime year d) = true := by
  have hmonth := d.month_range
  have hday := d.day_range
  have hday_le := d.day_le
  have hhour := d.hour_lt
  have hminute := d.minute_lt
  have hsecond := d.second_lt
  rw [checkTimeStruct_iff, ofDateTime]
  dsimp only
  omega

theorem LocalBefore.checkTimeStruct_gmtime (h : LocalBefore 2071 counter) :
    checkTimeStruct (gmtime counter) = true := by
  obtain ⟨d, hlo, hhi, -, hgmtime, -⟩ := h.exists_dateTime
  rw [hgmtime]
  refine checkTimeStruct_ofDateTime ?_ d
  unfold foundYear
  omega

/-- The same day and time of the year before, for which a time in 2070 is taken. Both years are
common ones. -/
theorem exists_previousYear {d : DateTime} (h : d.year = 2070) :
    ∃ d' : DateTime, d'.year = 2069 ∧
      ofDateTime (foundYear d.year) d = ofDateTime (d'.year - 2000) d' := by
  have hlength : monthLength 2070 d.month = monthLength 2069 d.month := by
    unfold monthLength
    split <;> rfl
  have hday := d.day_range
  rw [h, hlength] at hday
  have hfound : foundYear 2070 = 2069 - 2000 := by decide
  refine ⟨{ d with year := 2069, day_range := hday }, rfl, ?_⟩
  rw [h, hfound]
  rfl

theorem uint32_sub_standardTimeDiff {seconds : ℕ} (hlocal : seconds = counter + standardTimeDiff)
    (hbound : counter < 4294967296) : uint32 ((seconds : ℤ) - standardTimeDiff) = counter := by
  rw [hlocal, Nat.cast_add, add_sub_cancel_right, uint32_natCast hbound]

/-- Of the counters up to 2070, those before 2070 come back. -/
theorem converseGmtime_gmtime_iff (h : LocalBefore 2071 counter) :
    converseGmtime (gmtime counter) = counter ↔ LocalBefore 2070 counter := by
  have hbound := h.lt
  obtain ⟨d, hlo, hhi, hcount, hgmtime, hbefore⟩ := h.exists_dateTime
  rw [hgmtime, hbefore]
  by_cases hlast : d.year = 2070
  · refine iff_of_false (fun hback => ?_) (by omega)
    -- the counter that comes back belongs to 2069, so it is smaller
    obtain ⟨d', hyear, hsame⟩ := exists_previousYear hlast
    have hearlier := (d'.secondsSince_lt_iff (show 2000 ≤ d'.year by omega)
      (show 2000 ≤ 2070 by omega)).mpr (by omega)
    have hlater := d.secondsSince_lt_iff hlo (show 2000 ≤ 2070 by omega)
    have hless : d'.secondsSince 2000 < d.secondsSince 2000 := by omega
    rw [hsame, converseGmtime_eq (by omega) (by omega)] at hback
    unfold uint32 standardTimeDiff at hback
    unfold standardTimeDiff at hcount
    omega
  · refine iff_of_true ?_ (by omega)
    rw [foundYear_eq (by omega), converseGmtime_eq hlo hhi]
    exact uint32_sub_standardTimeDiff hcount (by omega)

/-- A calendar date and time from 2000 to 2070. -/
structure CalendarTime (t : TimeT) : Prop where
  year : 0 ≤ t.year ∧ t.year ≤ endYear
  month : 1 ≤ t.month ∧ t.month ≤ 12
  day : 1 ≤ t.day ∧ t.day ≤ monthLength (t.year + 2000).toNat t.month.toNat
  hour : 0 ≤ t.hour ∧ t.hour < 24
  min : 0 ≤ t.min ∧ t.min < 60
  sec : 0 ≤ t.sec ∧ t.sec < 60

theorem CalendarTime.exists_dateTime {t : TimeT} (h : CalendarTime t) :
    ∃ d : DateTime, 2000 ≤ d.year ∧ d.year ≤ 2070 ∧ t = ofDateTime (d.year - 2000) d := by
  obtain ⟨hyear, hmonth, hday, hhour, hmin, hsec⟩ := h
  unfold endYear at hyear
  let d : DateTime :=
    { year := (t.year + 2000).toNat
      month := t.month.toNat
      day := t.day.toNat
      hour := t.hour.toNat
      minute := t.min.toNat
      second := t.sec.toNat
      month_range := by omega
      day_range := by omega
      hour_lt := by omega
      minute_lt := by omega
      second_lt := by omega }
  refine ⟨d, by dsimp only [d]; omega, by dsimp only [d]; omega, ?_⟩
  have hyearOf : (((t.year + 2000).toNat - 2000 : ℕ) : ℤ) = t.year := by omega
  rw [ofDateTime, hyearOf, Int.toNat_of_nonneg (by omega), Int.toNat_of_nonneg (by omega),
    Int.toNat_of_nonneg hhour.1, Int.toNat_of_nonneg hmin.1, Int.toNat_of_nonneg hsec.1]

/-- Of the times up to 2070, those before 2070 come back. -/
theorem gmtime_converseGmtime_iff {t : TimeT} (h : CalendarTime t) :
    gmtime (converseGmtime t) = t ↔ t.year ≤ 69 := by
  obtain ⟨d, hlo, hhi, rfl⟩ := h.exists_dateTime
  have hbound := secondsSince_lt hlo hhi
  have hlocal : uint32 ((uint32 ((d.secondsSince 2000 : ℤ) - standardTimeDiff) : ℤ) +
      standardTimeDiff) = d.secondsSince 2000 := by
    unfold uint32 standardTimeDiff
    omega
  rw [converseGmtime_eq hlo hhi, gmtime_eq hlo hhi hlocal]
  simp only [ofDateTime, TimeT.mk.injEq, and_true, Nat.cast_inj]
  unfold foundYear
  omega

end Counters

section RoundTrip

/-- The server's form of a time parameter. -/
def timeParam (a b : UInt8) (start stop : ℕ) : List UInt8 :=
  [a, b] ++ publicConvertLongToBuffer start ++ publicConvertLongToBuffer stop

/-- The record that the EEPROM holds for it. -/
def timeRecord (a b : UInt8) (start stop : TimeT) : List UInt8 :=
  [a, b] ++ publicConvertTimeToBCDEx start ++ publicConvertTimeToBCDEx stop

theorem timeRecord_length (a b : UInt8) (start stop : TimeT) :
    (timeRecord a b start stop).length = 14 := by
  simp [timeRecord]

variable {usParamID start stop : ℕ} {a b : UInt8} {e : Eeprom}

theorem writeTimeParam_timeParam (hstart : start < 2 ^ 32) (hstop : stop < 2 ^ 32) :
    writeTimeParam usParamID (timeParam a b start stop) 10 e =
      (eepromPramWritePram usParamID (timeRecord a b (gmtime start) (gmtime stop)) 14 e).map
        fun r => (10, r.2) := by
  have hfirst : publicConvertBufferToLong ((timeParam a b start stop).drop 2) = some start :=
    convertBufferToLong_convertLongToBuffer hstart _
  have hsecond : publicConvertBufferToLong ((timeParam a b start stop).drop 6) = some stop :=
    convertBufferToLong_convertLongToBuffer hstop []
  have hrecord : 14 ≤ (timeRecord a b (gmtime start) (gmtime stop)).length :=
    (timeRecord_length _ _ _ _).ge
  have hhead : copyOut (timeParam a b start stop) 0 2 = some [a, b] := rfl
  have hwrite : eepromPramWritePram usParamID
      (timeRecord a b (gmtime start) (gmtime stop) ++ List.replicate 6 0) 14 e =
        eepromPramWritePram usParamID (timeRecord a b (gmtime start) (gmtime stop)) 14 e :=
    writePram_append hrecord _
  rw [timeRecord] at hwrite
  rw [writeTimeParam, if_neg (not_not_intro rfl)]
  simp only [hhead, hfirst, hsecond, Option.bind_eq_bind, Option.bind_some, hwrite]
  rw [Option.map_eq_bind]
  rfl

theorem readTimeParam_timeRecord {start stop : TimeT} (hstart : checkTimeStruct start = true)
    (hstop : checkTimeStruct stop = true)
    (hread : eepromPramReadPram usParamID e = some (timeRecord a b start stop)) :
    readTimeParam usParamID e =
      some (timeParam a b (converseGmtime start) (converseGmtime stop)) := by
  have hlength := timeRecord_length a b start stop
  have hbuffer : readInto (List.replicate 20 0) usParamID e =
      some (14, timeRecord a b start stop ++ List.replicate 6 0) := by
    rw [readInto_of_read (by rw [hlength]; decide) hread, hlength]
    rfl
  have hfirst : publicConvertBCDToTime
      ((timeRecord a b start stop ++ List.replicate 6 0).drop 2) = some start := by
    have hdrop : (timeRecord a b start stop ++ List.replicate 6 0).drop 2 =
        publicConvertTimeToBCDEx start ++
          (publicConvertTimeToBCDEx stop ++ List.replicate 6 0) := by
      simp [timeRecord]
    rw [hdrop, convertBCDToTime_convertTimeToBCDEx hstart]
  have hsecond : publicConvertBCDToTime
      ((timeRecord a b start stop ++ List.replicate 6 0).drop 8) = some stop := by
    have hdrop : (timeRecord a b start stop ++ List.replicate 6 0).drop 8 =
        publicConvertTimeToBCDEx stop ++ List.replicate 6 0 := by
      rw [timeRecord, List.append_assoc, List.drop_left' (by simp)]
    rw [hdrop, convertBCDToTime_convertTimeToBCDEx hstop]
  rw [readTimeParam, hbuffer]
  simp only [Option.bind_eq_bind, Option.bind_some, ne_eq, not_true_eq_false, if_false, hfirst,
    hsecond]
  rfl

theorem timeParam_inj {start' stop' : ℕ} (hstart : start < 2 ^ 32) (hstop : stop < 2 ^ 32)
    (hstart' : start' < 2 ^ 32) (hstop' : stop' < 2 ^ 32) :
    timeParam a b start' stop' = timeParam a b start stop ↔ start' = start ∧ stop' = stop := by
  constructor
  · intro h
    rw [timeParam, timeParam, List.append_assoc, List.append_assoc] at h
    obtain ⟨hfirst, hsecond⟩ := List.append_inj (List.append_cancel_left h) rfl
    exact ⟨(convertLongToBuffer_inj hstart' hstart).mp hfirst,
      (convertLongToBuffer_inj hstop' hstop).mp hsecond⟩
  · rintro ⟨rfl, rfl⟩
    rfl

theorem converseGmtime_lt (t : TimeT) : converseGmtime t < 2 ^ 32 := by
  rw [converseGmtime, uint32]
  omega

/-- Writing the server's form and reading it back yields ten bytes, the same ones. -/
def TimeParamReturns (usParamID : ℕ) (a b : UInt8) (start stop : ℕ) (e : Eeprom) : Prop :=
  ∃ e', writeTimeParam usParamID (timeParam a b start stop) 10 e = some (10, e') ∧
    readTimeParam usParamID e' = some (timeParam a b start stop)

theorem timeParamReturns_iff (hid : RecordReturns usParamID 14) (hstart : LocalBefore 2071 start)
    (hstop : LocalBefore 2071 stop) :
    TimeParamReturns usParamID a b start stop e ↔
      converseGmtime (gmtime start) = start ∧ converseGmtime (gmtime stop) = stop := by
  have hstart_lt := hstart.lt
  have hstop_lt := hstop.lt
  obtain ⟨e', hw, hr⟩ := hid (timeRecord a b (gmtime start) (gmtime stop)) e
    (timeRecord_length _ _ _ _)
  have hread := readTimeParam_timeRecord hstart.checkTimeStruct_gmtime
    hstop.checkTimeStruct_gmtime hr
  have hwrite : writeTimeParam usParamID (timeParam a b start stop) 10 e = some (10, e') := by
    rw [writeTimeParam_timeParam (by omega) (by omega), hw, Option.map_some]
  have hsame : timeParam a b (converseGmtime (gmtime start)) (converseGmtime (gmtime stop)) =
      timeParam a b start stop ↔
        converseGmtime (gmtime start) = start ∧ converseGmtime (gmtime stop) = stop :=
    timeParam_inj (by omega) (by omega) (converseGmtime_lt _) (converseGmtime_lt _)
  rw [← hsame]
  constructor
  · rintro ⟨e'', hw', hr'⟩
    rw [hwrite] at hw'
    cases hw'
    rw [hread] at hr'
    exact Option.some_inj.mp hr'
  · intro hback
    exact ⟨e', hwrite, hread.trans (congrArg some hback)⟩

/-- A time parameter up to 2070 comes back exactly when both its times lie before 2070; so do
counters and calendar times on their own. -/
theorem timeParam_returns_iff (hid : RecordReturns usParamID 14) :
    (∀ a b start stop e, LocalBefore 2071 start → LocalBefore 2071 stop →
      (TimeParamReturns usParamID a b start stop e ↔
        LocalBefore 2070 start ∧ LocalBefore 2070 stop)) ∧
    (∀ counter, LocalBefore 2071 counter →
      (converseGmtime (gmtime counter) = counter ↔ LocalBefore 2070 counter)) ∧
    ∀ t, CalendarTime t → (gmtime (converseGmtime t) = t ↔ t.year ≤ 69) := by
  refine ⟨fun a b start stop e hstart hstop => ?_, fun _ => converseGmtime_gmtime_iff,
    fun _ => gmtime_converseGmtime_iff⟩
  rw [timeParamReturns_iff hid hstart hstop, converseGmtime_gmtime_iff hstart,
    converseGmtime_gmtime_iff hstop]

theorem recordReturns_overspeedNightTime : RecordReturns e2OverspeedNightTimeId 14 := by
  apply recordReturns_of_admits
  · exact ⟨by decide, by decide, by decide +kernel, by decide, by decide +kernel⟩
  · unfold Readable
    decide +kernel

theorem localBefore_zero : LocalBefore 2071 0 := localBefore_2071_iff.mpr (by decide)

/-- The night time of the speed limit. -/
theorem timeParam_returns_overspeedNightTime :
    RecordReturns e2OverspeedNightTimeId 14 ∧ LocalBefore 2071 0 ∧
      (TimeParamReturns e2OverspeedNightTimeId 1 2 0 0 (fun _ => 0) ↔
        LocalBefore 2070 0 ∧ LocalBefore 2070 0) :=
  ⟨recordReturns_overspeedNightTime, localBefore_zero,
    (timeParam_returns_iff recordReturns_overspeedNightTime).1 1 2 0 0 (fun _ => 0)
      localBefore_zero localBefore_zero⟩

/-- The first second of 2070 comes back as that of 2069. -/
theorem not_timeParam_returns :
    ¬ ∀ (usParamID : ℕ) (a b : UInt8) (start stop : ℕ) (e : Eeprom), RecordReturns usParamID 14 →
      LocalBefore 2071 start → LocalBefore 2071 stop →
        TimeParamReturns usParamID a b start stop e := by
  intro h
  have hlast : LocalBefore 2071 2209046400 := localBefore_2071_iff.mpr (by decide)
  have hreturns := h e2OverspeedNightTimeId 1 2 2209046400 2209046400 (fun _ => 0)
    recordReturns_overspeedNightTime hlast hlast
  have hback := ((timeParamReturns_iff recordReturns_overspeedNightTime hlast hlast).mp hreturns).1
  rw [converseGmtime_gmtime_iff hlast, localBefore_2070_iff] at hback
  omega

end RoundTrip

end VehicleTerminal.E2ParamApp
