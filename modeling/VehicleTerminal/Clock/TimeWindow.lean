import VehicleTerminal.Clock.RtcRoundTrip
import VehicleTerminal.Clock.TimeKey

/-! The time windows of `Public.c`. The assignments to `week` are commented out in the source, so
its initial content is an argument of the model, as is that of the local time. -/
namespace VehicleTerminal.TimeWindow
open Calendar TimeKey

section Model

/-- The initial content of the local variables that the functions read or hand on. -/
structure Locals where
  week : UInt8
  stTime : Rtc.TimeT

/-- The fields of the clock's time as numbers. -/
def fields (tt : Rtc.TimeT) : E2ParamApp.TimeT :=
  ⟨tt.year.toInt, tt.month.toInt, tt.day.toInt, tt.hour.toInt, tt.min.toInt, tt.sec.toInt⟩

/-- `temp=(ctrl & 0xff00)>>8` -/
def weekMask (ctrl : UInt16) : UInt8 := ((ctrl &&& 0xff00) >>> 8).toUInt8

/-- `PUBLIC_CHECKBIT(temp, week-1)`. A shift out of the word, also by minus one, leaves no bit. -/
def checkWeek (temp week : UInt8) : Bool := week ≠ 0 && temp.toNat.testBit (week.toNat - 1)

def publicCheckTimeRangeIsValid (ctrl : UInt16) (startTime endTime : ℕ) : Bool :=
  if 0 = startTime ∨ 0 = endTime then false
  else if startTime = endTime then !(checkBit ctrl 0 || checkBit ctrl 2)
  else true

def publicConvertWeekDay (flag week : UInt8) (stTime : Rtc.TimeT) (startTime endTime : ℕ) :
    UInt8 :=
  if 0 = flag then week
  else if startTime > endTime ∧ stTime.hour < 12 then if 1 = week then 7 else week - 1
  else week

def publicCheckTimeIsInRange (curTime startTime endTime : ℕ) : Bool :=
  if startTime < endTime then startTime ≤ curTime && curTime ≤ endTime
  else if startTime > endTime then startTime ≤ curTime || curTime ≤ endTime
  else startTime = curTime

/-- The end of both functions, from the test of the weekday on. -/
def checkWeekAndRange (week : UInt8) (ctrl : UInt16) (stTime : Rtc.TimeT)
    (startTime endTime : ℕ) : Bool :=
  let inRange :=
    publicCheckTimeIsInRange (publicConvertTimeToLong ctrl (fields stTime)).value startTime endTime
  let temp := weekMask ctrl
  if temp ≠ 0 then
    let week := publicConvertWeekDay 0 week stTime startTime endTime
    if !checkWeek temp week then false else inRange
  else inRange

/-- `RTC_GetCurTime` copies `CurTime`. -/
def publicCheckCurTimeIsInTimeRange (locals : Locals) (CurTime : Rtc.TimeT) (ctrl : UInt16)
    (startTime endTime : ℕ) : Bool :=
  if !publicCheckTimeRangeIsValid ctrl startTime endTime then false
  else checkWeekAndRange locals.week ctrl CurTime startTime endTime

def publicCheckTimeIsInTimeRange (locals : Locals) (ctrl : UInt16)
    (checkTime startTime endTime : ℕ) : Option Bool :=
  if !publicCheckTimeRangeIsValid ctrl startTime endTime then some false
  else
    (Rtc.gmtime locals.stTime checkTime).map fun stTime =>
      checkWeekAndRange locals.week ctrl stTime startTime endTime

end Model

section Property

/-- The closed interval from `start` to `stop` around the circle. -/
def Circular (start stop x : ℕ) : Prop :=
  if start ≤ stop then start ≤ x ∧ x ≤ stop else start ≤ x ∨ x ≤ stop

/-- Both ends are set, and a range that contains a time of day is not a single point. -/
def ValidRange (ctrl : UInt16) (startTime endTime : ℕ) : Prop :=
  startTime ≠ 0 ∧ endTime ≠ 0 ∧
    ¬ (startTime = endTime ∧ (checkBit ctrl 0 = true ∨ checkBit ctrl 2 = true))

/-- The key of the time lies in the interval. -/
def KeyInside (ctrl : UInt16) (startTime endTime : ℕ) (tt : Rtc.TimeT) : Prop :=
  Circular startTime endTime (publicConvertTimeToLong ctrl (fields tt)).value

/-- What a time window is: the weekdays `weekDay` of the dates are numbered from one, and the high
byte of the control word is a mask for them unless it is zero. -/
structure InWindow (weekDay : Rtc.TimeT → UInt8) (ctrl : UInt16) (startTime endTime : ℕ)
    (tt : Rtc.TimeT) : Prop where
  valid : ValidRange ctrl startTime endTime
  inside : KeyInside ctrl startTime endTime tt
  masked : weekMask ctrl ≠ 0 → checkWeek (weekMask ctrl) (weekDay tt) = true

/-- The weekday makes no difference. -/
def WeekUnused (ctrl : UInt16) (startTime endTime : ℕ) (tt : Rtc.TimeT) : Prop :=
  weekMask ctrl = 0 ∨ ¬ ValidRange ctrl startTime endTime ∨ ¬ KeyInside ctrl startTime endTime tt

section Steps

variable {ctrl : UInt16} {startTime endTime curTime : ℕ} {tt : Rtc.TimeT} {week : UInt8}

theorem checkTimeRangeIsValid_iff :
    publicCheckTimeRangeIsValid ctrl startTime endTime = true ↔
      ValidRange ctrl startTime endTime := by
  unfold publicCheckTimeRangeIsValid ValidRange
  split_ifs with hzero hsame <;> simp <;> grind

theorem checkTimeIsInRange_iff :
    publicCheckTimeIsInRange curTime startTime endTime = true ↔
      Circular startTime endTime curTime := by
  unfold publicCheckTimeIsInRange Circular
  split_ifs <;> simp <;> omega

theorem checkWeekAndRange_iff :
    checkWeekAndRange week ctrl tt startTime endTime = true ↔
      (weekMask ctrl ≠ 0 → checkWeek (weekMask ctrl) week = true) ∧
        KeyInside ctrl startTime endTime tt := by
  rw [KeyInside, ← checkTimeIsInRange_iff, checkWeekAndRange, publicConvertWeekDay, if_pos rfl]
  dsimp only
  split_ifs with hmask hweek <;> simp_all

/-- A mask that is not zero has a weekday, and no ninth one. -/
theorem exists_checkWeek {temp : UInt8} (h : temp ≠ 0) :
    (∃ week, checkWeek temp week = true) ∧ checkWeek temp 9 = false := by
  have hlt : temp.toNat < 2 ^ 8 := temp.toNat_lt
  have hne : temp.toNat ≠ 0 := fun hzero => h (UInt8.toNat_inj.mp hzero)
  obtain ⟨i, hi⟩ := Nat.exists_testBit_of_ne_zero hne
  have hi8 : i < 8 := by
    by_contra hge
    have hbound : temp.toNat < 2 ^ i := hlt.trans_le (Nat.pow_le_pow_right (by norm_num) (by omega))
    rw [Nat.testBit_lt_two_pow hbound] at hi
    cases hi
  constructor
  · obtain ⟨week, hweek⟩ : ∃ week : UInt8, week.toNat = i + 1 :=
      ⟨UInt8.ofNat (i + 1), by rw [UInt8.toNat_ofNat']; omega⟩
    have hpos : week ≠ 0 := by
      rintro rfl
      cases hweek
    exact ⟨week, by simp [checkWeek, hpos, hweek, hi]⟩
  · have hninth : temp.toNat.testBit 8 = false := Nat.testBit_lt_two_pow hlt
    simpa [checkWeek] using hninth

/-- The initial content of `week` takes the place of the weekday. -/
theorem checkCurTime_iff (locals : Locals) :
    publicCheckCurTimeIsInTimeRange locals tt ctrl startTime endTime = true ↔
      InWindow (fun _ => locals.week) ctrl startTime endTime tt := by
  have hvalid := @checkTimeRangeIsValid_iff ctrl startTime endTime
  rw [publicCheckCurTimeIsInTimeRange]
  by_cases h : ValidRange ctrl startTime endTime
  · rw [if_neg (by simp [hvalid.mpr h]), checkWeekAndRange_iff]
    exact ⟨fun ⟨hmasked, hinside⟩ => ⟨h, hinside, hmasked⟩, fun hw => ⟨hw.masked, hw.inside⟩⟩
  · rw [if_pos (by simp [mt hvalid.mp h])]
    exact iff_of_false Bool.false_ne_true fun hw => h hw.valid

/-- The answer is right for every content of `week` exactly when the weekday is not used. -/
theorem forall_week_iff (weekDay : Rtc.TimeT → UInt8) :
    (∀ week, InWindow (fun _ => week) ctrl startTime endTime tt ↔
      InWindow weekDay ctrl startTime endTime tt) ↔ WeekUnused ctrl startTime endTime tt := by
  constructor
  · intro h
    by_contra hused
    simp only [WeekUnused, not_or, not_not] at hused
    obtain ⟨hmask, hvalid, hinside⟩ := hused
    obtain ⟨⟨week, hweek⟩, hninth⟩ := exists_checkWeek hmask
    have hwindow := (h week).mp ⟨hvalid, hinside, fun _ => hweek⟩
    have hmasked := ((h 9).mpr hwindow).masked hmask
    rw [hninth] at hmasked
    cases hmasked
  · rintro (hmask | hvalid | hinside) week
    · exact ⟨fun hw => ⟨hw.valid, hw.inside, fun hne => absurd hmask hne⟩,
        fun hw => ⟨hw.valid, hw.inside, fun hne => absurd hmask hne⟩⟩
    · exact iff_of_false (fun hw => hvalid hw.valid) fun hw => hvalid hw.valid
    · exact iff_of_false (fun hw => hinside hw.inside) fun hw => hinside hw.inside

end Steps

/-- Whatever the local variables hold, the answer is whether the time is in the window. -/
def Answers (weekDay : Rtc.TimeT → UInt8) (ctrl : UInt16) (checkTime startTime endTime : ℕ) :
    Prop :=
  ∀ locals, ∃ tt r, Rtc.gmtime locals.stTime checkTime = some tt ∧
    publicCheckTimeIsInTimeRange locals ctrl checkTime startTime endTime = some r ∧
    (r = true ↔ InWindow weekDay ctrl startTime endTime tt)

def AnswersNow (weekDay : Rtc.TimeT → UInt8) (CurTime : Rtc.TimeT) (ctrl : UInt16)
    (startTime endTime : ℕ) : Prop :=
  ∀ locals, publicCheckCurTimeIsInTimeRange locals CurTime ctrl startTime endTime = true ↔
    InWindow weekDay ctrl startTime endTime CurTime

theorem answersNow_iff (weekDay : Rtc.TimeT → UInt8) (CurTime : Rtc.TimeT) (ctrl : UInt16)
    (startTime endTime : ℕ) :
    AnswersNow weekDay CurTime ctrl startTime endTime ↔
      WeekUnused ctrl startTime endTime CurTime := by
  rw [← forall_week_iff weekDay]
  constructor
  · intro h week
    exact (checkCurTime_iff ⟨week, CurTime⟩).symm.trans (h ⟨week, CurTime⟩)
  · intro h locals
    exact (checkCurTime_iff locals).trans (h locals.week)

/-- With the time that `Gmtime` finds, both functions do the same. -/
theorem answers_iff_answersNow (weekDay : Rtc.TimeT → UInt8) {ctrl : UInt16}
    {checkTime startTime endTime : ℕ} {tt : Rtc.TimeT}
    (htt : ∀ out, Rtc.gmtime out checkTime = some tt) :
    Answers weekDay ctrl checkTime startTime endTime ↔
      AnswersNow weekDay tt ctrl startTime endTime := by
  have hsame (locals : Locals) :
      publicCheckTimeIsInTimeRange locals ctrl checkTime startTime endTime =
        some (publicCheckCurTimeIsInTimeRange locals tt ctrl startTime endTime) := by
    rw [publicCheckTimeIsInTimeRange, publicCheckCurTimeIsInTimeRange, htt, Option.map_some]
    split_ifs <;> rfl
  refine forall_congr' fun locals => ⟨?_, fun h => ⟨tt, _, htt _, hsame locals, h⟩⟩
  rintro ⟨tt', r, htt', hr, h⟩
  rw [htt] at htt'
  cases htt'
  rw [hsame] at hr
  cases hr
  exact h

theorem exists_gmtime {checkTime : ℕ} (hguard : checkTime < 0xBC191380) :
    ∃ tt, ∀ out, Rtc.gmtime out checkTime = some tt := by
  obtain ⟨d, hlo, rfl⟩ := DateTime.exists_secondsSince 2013 checkTime
  exact ⟨Rtc.ofDateTime d, fun out => Rtc.gmtime_eq out hlo hguard⟩

/-- Both functions answer rightly exactly when the weekday makes no difference. -/
theorem timeWindow_iff (weekDay : Rtc.TimeT → UInt8) (ctrl : UInt16) (startTime endTime : ℕ)
    {checkTime : ℕ} (hguard : checkTime < 0xBC191380) :
    ∃ tt, (∀ out, Rtc.gmtime out checkTime = some tt) ∧
      (Answers weekDay ctrl checkTime startTime endTime ↔
        WeekUnused ctrl startTime endTime tt) ∧
      ∀ CurTime, AnswersNow weekDay CurTime ctrl startTime endTime ↔
        WeekUnused ctrl startTime endTime CurTime := by
  obtain ⟨tt, htt⟩ := exists_gmtime hguard
  exact ⟨tt, htt, (answers_iff_answersNow weekDay htt).trans (answersNow_iff ..),
    fun CurTime => answersNow_iff ..⟩

/-- The first second of 2013 in a daily window, with a mask for the first weekday. -/
theorem timeWindow_iff_first_second : 0 < 0xBC191380 ∧
    ∃ tt, (∀ out, Rtc.gmtime out 0 = some tt) ∧
      (Answers (fun _ => 2) 0x0104 0 1 3600 ↔ WeekUnused 0x0104 1 3600 tt) ∧
      ∀ CurTime, AnswersNow (fun _ => 2) CurTime 0x0104 1 3600 ↔
        WeekUnused 0x0104 1 3600 CurTime :=
  ⟨by decide, timeWindow_iff (fun _ => 2) 0x0104 1 3600 (by decide)⟩

def firstSecond : DateTime :=
  ⟨2013, 1, 1, 0, 0, 0, by decide, by decide, by decide, by decide, by decide⟩

/-- However the weekdays are numbered, the answer in that window is not determined. -/
theorem not_answers : ¬ ∃ weekDay : Rtc.TimeT → UInt8,
    ∀ ctrl startTime endTime checkTime, checkTime < 0xBC191380 →
      Answers weekDay ctrl checkTime startTime endTime := by
  rintro ⟨weekDay, h⟩
  have htt (out : Rtc.TimeT) : Rtc.gmtime out 0 = some (Rtc.ofDateTime firstSecond) :=
    Rtc.gmtime_eq (d := firstSecond) out (by decide) (by decide)
  have hanswers := h 0x0104 1 3600 0 (by decide)
  rw [answers_iff_answersNow weekDay htt, answersNow_iff] at hanswers
  have hmask : weekMask 0x0104 ≠ 0 := by decide
  have hvalid : ValidRange 0x0104 1 3600 := by
    simp [ValidRange]
  have hinside : KeyInside 0x0104 1 3600 (Rtc.ofDateTime firstSecond) := by
    rw [KeyInside, ← checkTimeIsInRange_iff]
    decide
  rcases hanswers with hzero | hinvalid | houtside
  · exact hmask hzero
  · exact hinvalid hvalid
  · exact houtside hinside

end Property

end VehicleTerminal.TimeWindow
