import VehicleTerminal.Library.Iteration
import VehicleTerminal.Library.MachineInt

/-! The conversions of the clock between the 32-bit counter and the broken-down time. A read
outside the month table has no result, and neither has a loop whose 16-bit index overflows. -/
namespace VehicleTerminal.Rtc
open MachineInt PartialLoop

section Time

def startYear : ℕ := 13
def endYear : ℕ := 70
def minSecond : ℕ := 60
def hourSecond : ℕ := 0xE10
def daySecond : ℕ := 0x15180
def yearSecond : ℕ := 0x1E13380

/-- `LEAP_YEAR`, which `LeapYear` returns for a leap year. -/
def isLeapYear : ℕ := 1

inductive ErrorStatus
  | error
  | success
  deriving DecidableEq, Repr

@[ext]
structure TimeT where
  year : Int8
  month : Int8
  day : Int8
  hour : Int8
  min : Int8
  sec : Int8
  deriving DecidableEq, Repr

def leapYear (year : ℤ) : ℕ :=
  if (year.tmod 4 = 0 ∧ year.tmod 100 ≠ 0) ∨ year.tmod 400 = 0 then 1 else 0

def monTab : List ℕ := [0, 31, 28, 31, 30, 31, 30, 31, 31, 30, 31, 30, 31]

def checkTimeStruct (tt : TimeT) : ErrorStatus :=
  if tt.year.toInt > endYear ∨ tt.year.toInt < startYear ∨
      tt.month.toInt > 12 ∨ tt.month.toInt < 1 ∨
      tt.day.toInt > 31 ∨ tt.day.toInt < 1 ∨
      tt.hour.toInt > 23 ∨ tt.hour.toInt < 0 ∨
      tt.min.toInt > 59 ∨ tt.min.toInt < 0 ∨
      tt.sec.toInt > 59 ∨ tt.sec.toInt < 0 then
    .error
  else .success

end Time

section Converse

/-- `TotalDay` after `n` rounds of the loop over the months of `YearDay`. -/
def monthDays : ℕ → Option ℕ
  | 0 => some 0
  | n + 1 =>
    (monthDays n).bind fun totalDay =>
      (monTab[n + 1]?).map fun days : ℕ => uint16 (totalDay + days)

def yearDay (yy mm dd : ℤ) : Option ℕ :=
  (monthDays (mm - 1).toNat).map fun totalDay : ℕ =>
    let totalDay := uint16 (totalDay + dd)
    if leapYear yy = isLeapYear ∧ mm > 2 then uint16 (totalDay + 1) else totalDay

/-- `TotalDay` after `n` rounds of the loop over the years of `ConverseGmtime`. -/
def yearDays : ℕ → ℕ
  | 0 => 0
  | n + 1 => uint32 (yearDays n + (365 + leapYear (startYear + n + 2000)))

def converseGmtime (tt : TimeT) : Option ℕ :=
  if tt.year.toInt ≥ startYear ∧ tt.year.toInt ≤ endYear then
    (yearDay (tt.year.toInt + 2000) tt.month.toInt tt.day.toInt).map fun days : ℕ =>
      let totalDay := uint32 (yearDays (tt.year.toInt - startYear).toNat + days)
      uint32 ((totalDay - 1) * daySecond + tt.hour.toInt * hourSecond + tt.min.toInt * 60 +
        tt.sec.toInt)
  else some 0

end Converse

section Gmtime

structure Progress where
  i : ℕ
  sum : ℕ
  temp : ℕ

/-- A round of `for(i=…; sum<=counter; i++) { sum += add(i); if(sum<=counter) temp = sum; }`. -/
def sumRound (add : ℕ → Option ℕ) (counter : ℕ) (p : Progress) :
    Option (Outcome Progress Progress) :=
  if p.sum ≤ counter then
    (add p.i).bind fun seconds : ℕ =>
      let sum := uint32 (p.sum + seconds)
      let temp := if sum ≤ counter then sum else p.temp
      if p.i + 1 < 2 ^ 15 then some (.continues ⟨p.i + 1, sum, temp⟩) else none
  else some (.returns p)

theorem sumRound_continues {add : ℕ → Option ℕ} {counter : ℕ} {p p' : Progress}
    (h : Continues (sumRound add counter) p p') :
    p.sum ≤ counter ∧ p'.i = p.i + 1 ∧ p.i + 1 < 2 ^ 15 := by
  unfold Continues sumRound at h
  by_cases hmore : p.sum ≤ counter
  · rw [if_pos hmore, Option.bind_eq_some_iff] at h
    obtain ⟨seconds, -, h⟩ := h
    dsimp only at h
    split_ifs at h with hindex <;> cases h <;> exact ⟨hmore, rfl, hindex⟩
  · rw [if_neg hmore] at h
    cases h

theorem sumRound_decreases (add : ℕ → Option ℕ) (counter : ℕ) :
    Decreases (sumRound add counter) fun p => 2 ^ 15 - p.i := by
  intro p p' h
  obtain ⟨-, hi, hindex⟩ := sumRound_continues h
  dsimp only
  omega

/-- The loop from `i` on. Behind it `i - 1` is the unit that contains the counter and `temp` is
where that unit starts. -/
def sumLoop (add : ℕ → Option ℕ) (counter i : ℕ) : Option Progress :=
  loop (sumRound add counter) _ (sumRound_decreases add counter) ⟨i, 0, 0⟩

def addYear (i : ℕ) : Option ℕ := some (leapYear (i + 2000) * daySecond + yearSecond)

def addMonth (tt : TimeT) (i : ℕ) : Option ℕ :=
  (monTab[i]?).map fun days : ℕ =>
    days * daySecond + if 2 = i ∧ leapYear tt.year.toInt ≠ 0 then daySecond else 0

/-- The fields below the month, from the time that is left. -/
def gmtimeDay (tt : TimeT) (counter1 : ℕ) : Option TimeT :=
  (sumLoop (fun _ => some daySecond) counter1 1).bind fun p =>
    let tt := { tt with day := Int8.ofInt (p.i - 1) }
    let counter1 := uint32 (counter1 - p.temp)
    (sumLoop (fun _ => some hourSecond) counter1 0).bind fun p =>
      let tt := { tt with hour := Int8.ofInt (p.i - 1) }
      let counter1 := uint32 (counter1 - p.temp)
      (sumLoop (fun _ => some minSecond) counter1 0).map fun p =>
        { tt with
          min := Int8.ofInt (p.i - 1)
          sec := Int8.ofInt (uint32 (counter1 - p.temp)) }

def gmtime (tt : TimeT) (counter : ℕ) : Option TimeT :=
  if counter < 0xBC191380 then
    (sumLoop addYear counter startYear).bind fun p =>
      let tt := { tt with year := Int8.ofInt (p.i - 1) }
      let counter1 := uint32 (counter - p.temp)
      (sumLoop (addMonth tt) counter1 1).bind fun p =>
        let tt := { tt with month := Int8.ofInt (p.i - 1) }
        gmtimeDay tt (uint32 (counter1 - p.temp))
  else some tt

/-- `Gmtime` reads `MonTab[i]`. -/
def ReadsMonTab (tt : TimeT) (counter i : ℕ) : Prop :=
  ∃ year ∈ sumLoop addYear counter startYear,
    let tt := { tt with year := Int8.ofInt (year.i - 1) }
    let counter1 := uint32 (counter - year.temp)
    ∃ p, Reached (sumRound (addMonth tt) counter1) ⟨1, 0, 0⟩ p ∧ p.sum ≤ counter1 ∧ p.i = i

end Gmtime

end VehicleTerminal.Rtc
