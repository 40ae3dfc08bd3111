import VehicleTerminal.Clock.RtcCalendar

/-! The clock from a date to the counter and back, and from the counter to a date and back. The
guard of `Gmtime` is said to keep the year at 2070 but lets pass a whole century. -/
namespace VehicleTerminal.Rtc
open Calendar MachineInt PartialLoop

section MonthTable

variable {tt : TimeT} {counter i : ℕ}

/-- The loop over the months starts at January. -/
theorem one_le_of_reached {add : ℕ → Option ℕ} {p : Progress}
    (h : Reached (sumRound add counter) ⟨1, 0, 0⟩ p) : 1 ≤ p.i := by
  induction h with
  | refl => exact le_rfl
  | tail _ hstep ih =>
    rw [(sumRound_continues hstep).2.1]
    omega

theorem le_of_addMonth_ne_none (h : addMonth tt i ≠ none) : i ≤ 12 := by
  by_contra hlt
  have houtside : monTab[i]? = none := by
    rw [List.getElem?_eq_none_iff, monTab]
    simp only [List.length_cons, List.length_nil]
    omega
  rw [addMonth, houtside] at h
  exact h rfl

/-- A conversion that returns has read the month table only at months. -/
theorem readsMonTab_range (hguard : counter < 0xBC191380) (h : gmtime tt counter ≠ none)
    (hread : ReadsMonTab tt counter i) : 1 ≤ i ∧ i ≤ 12 := by
  obtain ⟨year, hyear, p, hreached, hmore, rfl⟩ := hread
  refine ⟨one_le_of_reached hreached, ?_⟩
  have hloop : sumLoop (addMonth { tt with year := Int8.ofInt (year.i - 1) })
      (uint32 (counter - year.temp)) 1 ≠ none := by
    intro hstuck
    rw [gmtime, if_pos hguard, Option.mem_def.mp hyear, Option.bind_some] at h
    simp only [hstuck, Option.bind_none] at h
    exact h rfl
  have hround := loop_ne_none_iff.mp hloop p hreached
  have hadd : addMonth { tt with year := Int8.ofInt (year.i - 1) } p.i ≠ none := by
    intro hstuck
    rw [sumRound, if_pos hmore, hstuck, Option.bind_none] at hround
    exact hround rfl
  exact le_of_addMonth_ne_none hadd

end MonthTable

section Date

/-- A calendar date and time with a year that `ConverseGmtime` takes. -/
structure ValidTime (tt : TimeT) : Prop where
  year : startYear ≤ tt.year.toInt ∧ tt.year.toInt ≤ endYear
  month : 1 ≤ tt.month.toInt ∧ tt.month.toInt ≤ 12
  day : 1 ≤ tt.day.toInt ∧
    tt.day.toInt ≤ monthLength (tt.year.toInt + 2000).toNat tt.month.toInt.toNat
  hour : 0 ≤ tt.hour.toInt ∧ tt.hour.toInt < 24
  min : 0 ≤ tt.min.toInt ∧ tt.min.toInt < 60
  sec : 0 ≤ tt.sec.toInt ∧ tt.sec.toInt < 60

theorem ofInt_toNat {x : Int8} (h : 0 ≤ x.toInt) : Int8.ofInt (x.toInt.toNat : ℕ) = x := by
  rw [Int.toNat_of_nonneg h, Int8.ofInt_toInt]

theorem ValidTime.exists_dateTime {tt : TimeT} (h : ValidTime tt) :
    ∃ d : DateTime, 2013 ≤ d.year ∧ d.year ≤ 2070 ∧ ofDateTime d = tt := by
  obtain ⟨hyear, hmonth, hday, hhour, hmin, hsec⟩ := h
  unfold startYear endYear at hyear
  let d : DateTime :=
    { year := (tt.year.toInt + 2000).toNat
      month := tt.month.toInt.toNat
      day := tt.day.toInt.toNat
      hour := tt.hour.toInt.toNat
      minute := tt.min.toInt.toNat
      second := tt.sec.toInt.toNat
      month_range := by omega
      day_range := by omega
      hour_lt := by omega
      minute_lt := by omega
      second_lt := by omega }
  have hyearOf : ((tt.year.toInt + 2000).toNat : ℤ) - 2000 = tt.year.toInt := by omega
  refine ⟨d, by dsimp only [d]; omega, by dsimp only [d]; omega, ?_⟩
  ext
  · simp only [ofDateTime, d, hyearOf, Int8.ofInt_toInt]
  · exact ofInt_toNat (by omega)
  · exact ofInt_toNat (by omega)
  · exact ofInt_toNat hhour.1
  · exact ofInt_toNat hmin.1
  · exact ofInt_toNat hsec.1

/-- Every date survives the conversion to a counter and back. -/
theorem date_survives {tt : TimeT} (h : ValidTime tt) :
    ∃ counter, converseGmtime tt = some counter ∧
      ∀ out, gmtime out counter = some tt ∧
        ∀ i, ReadsMonTab out counter i → 1 ≤ i ∧ i ≤ 12 := by
  obtain ⟨d, hlo, hhi, rfl⟩ := h.exists_dateTime
  have hend := (secondsSince_lt_end_iff hlo).mpr hhi
  have hguard : d.secondsSince 2013 < 0xBC191380 := by omega
  refine ⟨d.secondsSince 2013, converseGmtime_eq hlo hhi, fun out => ?_⟩
  have hback := gmtime_eq out hlo hguard
  exact ⟨hback, fun i hread => readsMonTab_range hguard (by simp [hback]) hread⟩

/-- The last second of a leap day. -/
theorem date_survives_leap_day :
    ∃ counter, converseGmtime ⟨16, 2, 29, 23, 59, 59⟩ = some counter ∧
      ∀ out, gmtime out counter = some ⟨16, 2, 29, 23, 59, 59⟩ ∧
        ∀ i, ReadsMonTab out counter i → 1 ≤ i ∧ i ≤ 12 :=
  date_survives ⟨by decide, by decide, by decide, by decide, by decide, by decide⟩

end Date

section Counter

/-- `Gmtime` turns the counter into a time that is valid and counts back to it. -/
def DenotesTime (out : TimeT) (counter : ℕ) : Prop :=
  (∃ tt, gmtime out counter = some tt ∧ checkTimeStruct tt = .success ∧
    tt.year.toInt ≤ endYear ∧ converseGmtime tt = some counter) ∧
  ∀ i, ReadsMonTab out counter i → 1 ≤ i ∧ i ≤ 12

theorem checkTimeStruct_year {tt : TimeT} (h : checkTimeStruct tt = .success) :
    tt.year.toInt ≤ endYear := by
  unfold checkTimeStruct at h
  split_ifs at h with hrange
  omega

theorem checkTimeStruct_ofDateTime {d : DateTime} (hlo : 2013 ≤ d.year) (hhi : d.year ≤ 2070) :
    checkTimeStruct (ofDateTime d) = .success := by
  obtain ⟨hyear, hmonth, hday, hhour, hmin, hsec⟩ := toInt_ofDateTime hlo (by omega)
  have hmonth_range := d.month_range
  have hday_range := d.day_range
  have hday_le := d.day_le
  have hhour_lt := d.hour_lt
  have hminute_lt := d.minute_lt
  have hsecond_lt := d.second_lt
  rw [checkTimeStruct, hyear, hmonth, hday, hhour, hmin, hsec, startYear, endYear]
  refine if_neg ?_
  omega

theorem denotesTime_secondsSince_iff (out : TimeT) {d : DateTime} (hlo : 2013 ≤ d.year)
    (hguard : d.secondsSince 2013 < 0xBC191380) :
    DenotesTime out (d.secondsSince 2013) ↔ d.year ≤ 2070 := by
  have hback := gmtime_eq out hlo hguard
  have hlast := year_le_of_guard hlo hguard
  constructor
  · rintro ⟨⟨tt, htt, -, hyear, -⟩, -⟩
    rw [hback] at htt
    cases htt
    rw [(toInt_ofDateTime hlo hlast).1, endYear] at hyear
    omega
  · intro hhi
    have hcheck := checkTimeStruct_ofDateTime hlo hhi
    exact ⟨⟨ofDateTime d, hback, hcheck, checkTimeStruct_year hcheck, converseGmtime_eq hlo hhi⟩,
      fun i hread => readsMonTab_range hguard (by simp [hback]) hread⟩

/-- Of the counters that `Gmtime` accepts, those before 2071 denote a valid time. -/
theorem denotesTime_iff (out : TimeT) {counter : ℕ} (hguard : counter < 0xBC191380) :
    DenotesTime out counter ↔ counter < 1830297600 := by
  obtain ⟨d, hlo, rfl⟩ := DateTime.exists_secondsSince 2013 counter
  rw [denotesTime_secondsSince_iff out hlo hguard, secondsSince_lt_end_iff hlo]

/-- The last counter of 2070. -/
theorem denotesTime_iff_end_2070 :
    DenotesTime ⟨0, 0, 0, 0, 0, 0⟩ 1830297599 ↔ 1830297599 < 1830297600 :=
  denotesTime_iff ⟨0, 0, 0, 0, 0, 0⟩ (by decide)

/-- The first counter of 2071 passes the guard. -/
theorem not_denotesTime_2071 :
    1830297600 < 0xBC191380 ∧ ¬ DenotesTime ⟨0, 0, 0, 0, 0, 0⟩ 1830297600 := by
  refine ⟨by decide, ?_⟩
  obtain ⟨d, hlo, hcounter⟩ := DateTime.exists_secondsSince 2013 1830297600
  have hlate : ¬ d.year ≤ 2070 := by
    rw [← secondsSince_lt_end_iff hlo, hcounter]
    exact lt_irrefl _
  rw [← hcounter, denotesTime_secondsSince_iff _ hlo (by rw [hcounter]; decide)]
  exact hlate

end Counter

end VehicleTerminal.Rtc
