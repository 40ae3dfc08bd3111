import VehicleTerminal.Param.Convert

/-! The two time formats of the parameters: seconds since 2000 in Greenwich, as the server
sends them, and six BCD bytes of Beijing time, as the EEPROM stores them. -/
namespace VehicleTerminal.E2ParamApp
open MachineInt

/-- `TIME_T`, whose fields are signed bytes; the year counts from 2000. -/
structure TimeT where
  year : ℤ
  month : ℤ
  day : ℤ
  hour : ℤ
  min : ℤ
  sec : ℤ
  deriving DecidableEq

def endYear : ℕ := 70

def daySecond : ℕ := 0x15180

def yearSecond : ℕ := 0x1E13380

def standardTimeDiff : ℕ := 28800

def leapYear (year : ℤ) : ℕ :=
  if (year % 4 = 0 ∧ year % 100 ≠ 0) ∨ year % 400 = 0 then 1 else 0

section Decompose

def jdays : List ℕ := [0, 31, 59, 90, 120, 151, 181, 212, 243, 273, 304, 334]

/-- The loop over the years: the year after the one that `timeVal` falls in, or `END_YEAR`,
and the seconds before it. -/
def gmtimeYears (timeVal : ℕ) : ℕ → ℕ → ℕ → ℕ → ℕ × ℕ
  | 0, i, _, temp => (i, temp)
  | rounds + 1, i, sum, temp =>
    if sum ≤ timeVal then
      let sum' := sum + (leapYear i * daySecond + yearSecond)
      gmtimeYears timeVal rounds (i + 1) sum' (if sum' ≤ timeVal then sum' else temp)
    else (i, temp)

/-- The loop over the months, December first. -/
def gmtimeMonth (day flag : ℕ) : ℕ → ℕ
  | 0 => 0
  | i + 1 =>
    if (day > jdays.getD i 0 + flag ∧ i + 1 > 2) ∨ (day > jdays.getD i 0 ∧ i + 1 ≤ 2) then i + 1
    else gmtimeMonth day flag i

/-- A time past 2099 becomes the start of the epoch; past 2069 all remaining days count as
days of December 2069. -/
def gmtime (counter : ℕ) : TimeT :=
  let timeVal := uint32 (counter + standardTimeDiff)
  if timeVal > 0xBC191380 then ⟨0, 1, 1, 0, 0, 0⟩
  else
    let (i, temp) := gmtimeYears timeVal endYear 0 0 0
    let year := i - 1
    let flag := leapYear year
    let counter1 := (timeVal - temp) % daySecond
    let dayOfYear := (timeVal - temp - counter1) / daySecond + 1
    let month := gmtimeMonth dayOfYear flag 12
    let day := int8 (dayOfYear - jdays.getD (month - 1) 0)
    { year := int8 year
      month := int8 month
      day := if month > 2 then int8 (day - flag) else day
      hour := int8 (counter1 / 0xE10 : ℕ)
      min := int8 (counter1 % 0xE10 / 60 : ℕ)
      sec := int8 (counter1 % 0xE10 % 60 : ℕ) }

/-- `%02d`. -/
def sprintf02d (x : ℤ) : List Char :=
  let digits := Nat.toDigits 10 x.natAbs
  if x < 0 then '-' :: digits else List.replicate (2 - digits.length) '0' ++ digits

/-- One byte for each pair of characters. -/
def publicConvertAscToBCD : List Char → List UInt8
  | high :: low :: source =>
    UInt8.ofNat (high.toNat % 16 * 16 + low.toNat % 16) :: publicConvertAscToBCD source
  | _ => []

/-- The first six bytes; a day of three digits shifts what follows it. -/
def publicConvertTimeToBCDEx (t : TimeT) : List UInt8 :=
  (publicConvertAscToBCD (sprintf02d t.year ++ sprintf02d t.month ++ sprintf02d t.day ++
    sprintf02d t.hour ++ sprintf02d t.min ++ sprintf02d t.sec)).take 6

theorem sprintf02d_length (x : ℤ) : 2 ≤ (sprintf02d x).length := by
  have hdigits : 0 < (Nat.toDigits 10 x.natAbs).length := Nat.length_toDigits_pos
  unfold sprintf02d
  dsimp only
  split_ifs
  · rw [List.length_cons]
    omega
  · rw [List.length_append, List.length_replicate]
    omega

theorem convertAscToBCD_length (source : List Char) :
    (publicConvertAscToBCD source).length = source.length / 2 := by
  induction source using publicConvertAscToBCD.induct with
  | case1 high low source ih =>
    simp only [publicConvertAscToBCD, List.length_cons, ih]
    omega
  | case2 source h =>
    match source with
    | [] | [_] => simp [publicConvertAscToBCD]
    | high :: low :: source => exact absurd rfl (h high low source)

@[simp] theorem convertTimeToBCDEx_length (t : TimeT) :
    (publicConvertTimeToBCDEx t).length = 6 := by
  have hyear := sprintf02d_length t.year
  have hmonth := sprintf02d_length t.month
  have hday := sprintf02d_length t.day
  have hhour := sprintf02d_length t.hour
  have hmin := sprintf02d_length t.min
  have hsec := sprintf02d_length t.sec
  rw [publicConvertTimeToBCDEx, List.length_take, convertAscToBCD_length]
  simp only [List.length_append]
  omega

end Decompose

section Compose

def monTab : List ℕ := [0, 31, 28, 31, 30, 31, 30, 31, 31, 30, 31, 30, 31]

/-- The day of the year. -/
def yearDay (yy mm dd : ℤ) : ℕ :=
  uint16 ((monTab.take mm.toNat).sum + dd + if leapYear yy = 1 ∧ mm > 2 then 1 else 0)

def converseGmtime (t : TimeT) : ℕ :=
  let totalSec : ℤ :=
    if t.year ≥ 0 ∧ t.year ≤ endYear then
      let totalDay : ℕ := ((List.range t.year.toNat).map fun i => 365 + leapYear i).sum +
        yearDay t.year t.month t.day
      ((totalDay : ℤ) - 1) * daySecond + t.hour * 0xE10 + t.min * 60 + t.sec
    else 0
  uint32 (totalSec - standardTimeDiff)

def publicConvertBcdToValue (bcd : UInt8) : UInt8 := (bcd >>> 4) * 10 + (bcd &&& 0x0f)

/-- `Public_CheckTimeStruct`. -/
def checkTimeStruct (t : TimeT) : Bool :=
  !(t.year > endYear || t.year < 0 || t.month > 12 || t.month < 1 || t.day > 31 || t.day < 1 ||
    t.hour > 23 || t.hour < 0 || t.min > 59 || t.min < 0 || t.sec > 59 || t.sec < 0)

/-- The time that the first six bytes stand for; nothing when it is not valid. -/
def publicConvertBCDToTime (data : List UInt8) : Option TimeT :=
  let field (i : ℕ) : ℤ := int8 (publicConvertBcdToValue (data.getD i 0)).toNat
  let t : TimeT := ⟨field 0, field 1, field 2, field 3, field 4, field 5⟩
  if checkTimeStruct t then some t else none

end Compose

end VehicleTerminal.E2ParamApp
