import VehicleTerminal.Library.MixedRadix
import VehicleTerminal.Param.Bcd

/-! The time keys of `Public.c`: 32-bit numbers made of the components of a time that a control
word selects. -/
namespace VehicleTerminal.TimeKey
open MachineInt MixedRadix E2ParamApp

section Model

/-- A 32-bit value together with the results of its operations before they wrap. -/
structure Computed where
  value : ℕ
  exact : List ℤ
  deriving Repr, DecidableEq

def zero : Computed := ⟨0, []⟩

/-- `Temp = digit` -/
def assign (digit : ℤ) : Computed := ⟨uint32 digit, [digit]⟩

/-- `Temp = Temp*radix + digit` -/
def Computed.mulAdd (temp : Computed) (radix : ℕ) (digit : ℤ) : Computed :=
  let product := uint32 (temp.value * radix)
  ⟨uint32 (product + digit), temp.exact ++ [(temp.value : ℤ) * radix, product + digit]⟩

/-- `Temp++` -/
def Computed.increment (temp : Computed) : Computed :=
  ⟨uint32 (temp.value + 1), temp.exact ++ [(temp.value : ℤ) + 1]⟩

/-- `PUBLIC_CHECKBIT`. -/
def checkBit (ctrl : UInt16) (n : ℕ) : Bool := ctrl.toNat.testBit n

def publicConvertTimeToLong (ctrl : UInt16) (stTime : TimeT) : Computed :=
  if 0 = ctrl then zero
  else
    let temp :=
      if checkBit ctrl 0 then
        (((((assign stTime.year).mulAdd 12 stTime.month).mulAdd 31 stTime.day).mulAdd 24
          stTime.hour).mulAdd 60 stTime.min).mulAdd 60 stTime.sec
      else if checkBit ctrl 1 then
        ((assign stTime.year).mulAdd 12 stTime.month).mulAdd 31 stTime.day
      else if checkBit ctrl 2 then
        ((zero.mulAdd 24 stTime.hour).mulAdd 60 stTime.min).mulAdd 60 stTime.sec
      else if checkBit ctrl 3 then (zero.mulAdd 12 stTime.month).mulAdd 31 stTime.day
      else if checkBit ctrl 4 then zero
      else if checkBit ctrl 5 then zero.mulAdd 31 stTime.day
      else if checkBit ctrl 6 then zero.mulAdd 12 stTime.month
      else if checkBit ctrl 7 then assign stTime.year
      else zero
    temp.increment

def publicConvertBCDToTimeEx (data : List UInt8) : TimeT := timeOfBcd data

def publicConvertBCDTimeToLong (ctrl : UInt16) (data : List UInt8) : Computed :=
  if 0 = ctrl then zero else publicConvertTimeToLong ctrl (publicConvertBCDToTimeEx data)

end Model

section Property

/-- The component sets. -/
inductive Selection
  | dateTime
  | date
  | time
  | monthDay
  | day
  | month
  | year
  deriving Repr, DecidableEq

/-- The component set of the lowest bit that is set in the low byte. -/
def selectionOf (ctrl : UInt16) : Option Selection :=
  match (List.range 8).find? (checkBit ctrl) with
  | some 0 => some .dateTime
  | some 1 => some .date
  | some 2 => some .time
  | some 3 => some .monthDay
  | some 5 => some .day
  | some 6 => some .month
  | some 7 => some .year
  | _ => none

def Selection.components (t : TimeT) : Selection → List ℤ
  | .dateTime => [t.year, t.month, t.day, t.hour, t.min, t.sec]
  | .date => [t.year, t.month, t.day]
  | .time => [t.hour, t.min, t.sec]
  | .monthDay => [t.month, t.day]
  | .day => [t.day]
  | .month => [t.month]
  | .year => [t.year]

/-- The radices of the places; nothing stands above the year, which takes 71 values. -/
def Selection.radices : Selection → List ℕ
  | .dateTime => [71, 12, 31, 24, 60, 60]
  | .date => [71, 12, 31]
  | .time => [24, 60, 60]
  | .monthDay => [12, 31]
  | .day => [31]
  | .month => [12]
  | .year => [71]

/-- The value before the final increment. -/
def Selection.compute (t : TimeT) : Selection → Computed
  | .dateTime =>
    (((((assign t.year).mulAdd 12 t.month).mulAdd 31 t.day).mulAdd 24 t.hour).mulAdd 60
      t.min).mulAdd 60 t.sec
  | .date => ((assign t.year).mulAdd 12 t.month).mulAdd 31 t.day
  | .time => ((zero.mulAdd 24 t.hour).mulAdd 60 t.min).mulAdd 60 t.sec
  | .monthDay => (zero.mulAdd 12 t.month).mulAdd 31 t.day
  | .day => zero.mulAdd 31 t.day
  | .month => zero.mulAdd 12 t.month
  | .year => assign t.year

/-- No operation has wrapped, and the value is `v`, which is at most `bound`. -/
structure Exact (temp : Computed) (v : ℤ) (bound : ℕ) : Prop where
  value : temp.value = v
  exact : ∀ x ∈ temp.exact, 0 ≤ x ∧ x < 2 ^ 32
  le : v ≤ bound

section Steps

variable {ctrl : UInt16} {sel : Selection} {t t' : TimeT} {temp : Computed} {v digit : ℤ}
  {bound : ℕ}

/-- The chain of tests finds the lowest bit. -/
theorem convertTimeToLong_eq (h : selectionOf ctrl = some sel) (t : TimeT) :
    publicConvertTimeToLong ctrl t = (sel.compute t).increment := by
  have hctrl : ¬ 0 = ctrl := by
    rintro rfl
    cases h
  have hlowest {k : ℕ} (hfind : (List.range 8).find? (checkBit ctrl) = some k) :
      checkBit ctrl k = true ∧ ∀ j < k, checkBit ctrl j = false := by
    obtain ⟨hk, -, hbelow⟩ := List.find?_range_eq_some.mp hfind
    exact ⟨hk, fun j hj => by simpa using hbelow j hj⟩
  rw [publicConvertTimeToLong, if_neg hctrl]
  rw [selectionOf] at h
  split at h
  case h_8 => cases h
  all_goals
    next hfind =>
      cases h
      obtain ⟨hset, hclear⟩ := hlowest hfind
      simp [hset, hclear, Selection.compute]

theorem uint32_of_range {x : ℤ} (hlo : 0 ≤ x) (hhi : x < 2 ^ 32) : (uint32 x : ℤ) = x := by
  unfold uint32
  omega

theorem Exact.nonneg (h : Exact temp v bound) : 0 ≤ v := h.value ▸ Int.natCast_nonneg _

theorem exact_zero : Exact zero 0 0 := ⟨rfl, by simp [zero], le_rfl⟩

theorem exact_assign (hlo : 0 ≤ digit) (hhi : digit ≤ bound) (hfits : bound < 2 ^ 32) :
    Exact (assign digit) digit bound where
  value := uint32_of_range hlo (by omega)
  exact x hx := by
    obtain rfl := List.mem_singleton.mp hx
    omega
  le := hhi

/-- A place whose greatest result fits does not wrap, nor does its product. -/
theorem Exact.mulAdd (h : Exact temp v bound) (radix most : ℕ) (hlo : 0 ≤ digit)
    (hhi : digit ≤ most) (hfits : bound * radix + most < 2 ^ 32) :
    Exact (temp.mulAdd radix digit) (v * radix + digit) (bound * radix + most) := by
  have hlow : 0 ≤ v * radix := mul_nonneg h.nonneg (Int.natCast_nonneg radix)
  have hhigh : v * radix ≤ (bound * radix : ℕ) := by
    rw [Nat.cast_mul]
    exact mul_le_mul_of_nonneg_right h.le (Int.natCast_nonneg radix)
  have hvalue : ((uint32 (temp.value * radix) : ℕ) : ℤ) = v * radix := by
    rw [h.value]
    exact uint32_of_range hlow (by omega)
  refine ⟨?_, fun x hx => ?_, ?_⟩
  · rw [Computed.mulAdd, hvalue]
    exact uint32_of_range (by omega) (by omega)
  · rw [Computed.mulAdd, hvalue, h.value] at hx
    rcases List.mem_append.mp hx with hbefore | hlast
    · exact h.exact x hbefore
    · simp only [List.mem_cons, List.not_mem_nil, or_false] at hlast
      omega
  · push_cast at hhigh ⊢
    omega

theorem Exact.increment (h : Exact temp v bound) (hfits : bound + 1 < 2 ^ 32) :
    Exact temp.increment (v + 1) (bound + 1) := by
  have hlow := h.nonneg
  have hhigh := h.le
  refine ⟨?_, fun x hx => ?_, by push_cast; omega⟩
  · rw [Computed.increment, h.value]
    exact uint32_of_range (by omega) (by omega)
  · rw [Computed.increment, h.value] at hx
    rcases List.mem_append.mp hx with hbefore | hlast
    · exact h.exact x hbefore
    · obtain rfl := List.mem_singleton.mp hlast
      omega

/-- No component set of a valid time reaches the end of the range. -/
theorem compute_exact (ht : checkTimeStruct t = true) (sel : Selection) :
    ∃ bound, Exact (sel.compute t) (horner 0 sel.radices (sel.components t)) bound ∧
      bound + 1 < 2 ^ 32 := by
  obtain ⟨hyear, hmonth, hday, hhour, hmin, hsec⟩ := checkTimeStruct_iff.mp ht
  have hmonth₀ : 0 ≤ t.month := by omega
  have hday₀ : 0 ≤ t.day := by omega
  have year : Exact (assign t.year) (0 * (71 : ℕ) + t.year) 70 := by
    rw [zero_mul, zero_add]
    exact exact_assign hyear.1 hyear.2 (by norm_num)
  cases sel with
  | dateTime =>
    have date := (year.mulAdd 12 12 hmonth₀ hmonth.2 (by norm_num)).mulAdd 31 31 hday₀ hday.2
      (by norm_num)
    have time := ((date.mulAdd 24 23 hhour.1 hhour.2 (by norm_num)).mulAdd 60 59 hmin.1 hmin.2
      (by norm_num)).mulAdd 60 59 hsec.1 hsec.2 (by norm_num)
    exact ⟨_, time, by norm_num⟩
  | date =>
    have date := (year.mulAdd 12 12 hmonth₀ hmonth.2 (by norm_num)).mulAdd 31 31 hday₀ hday.2
      (by norm_num)
    exact ⟨_, date, by norm_num⟩
  | time =>
    have time := ((exact_zero.mulAdd 24 23 hhour.1 hhour.2 (by norm_num)).mulAdd 60 59 hmin.1
      hmin.2 (by norm_num)).mulAdd 60 59 hsec.1 hsec.2 (by norm_num)
    exact ⟨_, time, by norm_num⟩
  | monthDay =>
    have monthDay := (exact_zero.mulAdd 12 12 hmonth₀ hmonth.2 (by norm_num)).mulAdd 31 31 hday₀
      hday.2 (by norm_num)
    exact ⟨_, monthDay, by norm_num⟩
  | day =>
    have day := exact_zero.mulAdd 31 31 hday₀ hday.2 (by norm_num)
    exact ⟨_, day, by norm_num⟩
  | month =>
    have month := exact_zero.mulAdd 12 12 hmonth₀ hmonth.2 (by norm_num)
    exact ⟨_, month, by norm_num⟩
  | year => exact ⟨_, year, by norm_num⟩

/-- The components of two valid times differ by less than their radices. -/
theorem components_close (ht : checkTimeStruct t = true) (ht' : checkTimeStruct t' = true)
    (sel : Selection) : Close sel.radices (sel.components t) (sel.components t') := by
  obtain ⟨hyear, hmonth, hday, hhour, hmin, hsec⟩ := checkTimeStruct_iff.mp ht
  obtain ⟨hyear', hmonth', hday', hhour', hmin', hsec'⟩ := checkTimeStruct_iff.mp ht'
  have cyear : |t.year - t'.year| < (71 : ℕ) := abs_lt.mpr ⟨by omega, by omega⟩
  have cmonth : |t.month - t'.month| < (12 : ℕ) := abs_lt.mpr ⟨by omega, by omega⟩
  have cday : |t.day - t'.day| < (31 : ℕ) := abs_lt.mpr ⟨by omega, by omega⟩
  have chour : |t.hour - t'.hour| < (24 : ℕ) := abs_lt.mpr ⟨by omega, by omega⟩
  have cmin : |t.min - t'.min| < (60 : ℕ) := abs_lt.mpr ⟨by omega, by omega⟩
  have csec : |t.sec - t'.sec| < (60 : ℕ) := abs_lt.mpr ⟨by omega, by omega⟩
  cases sel with
  | dateTime =>
    exact .cons cyear (.cons cmonth (.cons cday (.cons chour (.cons cmin (.cons csec .nil)))))
  | date => exact .cons cyear (.cons cmonth (.cons cday .nil))
  | time => exact .cons chour (.cons cmin (.cons csec .nil))
  | monthDay => exact .cons cmonth (.cons cday .nil)
  | day => exact .cons cday .nil
  | month => exact .cons cmonth .nil
  | year => exact .cons cyear .nil

theorem convertTimeToLong_exact (hsel : selectionOf ctrl = some sel)
    (ht : checkTimeStruct t = true) :
    0 ≤ horner 0 sel.radices (sel.components t) ∧ ∃ bound,
      Exact (publicConvertTimeToLong ctrl t) (horner 0 sel.radices (sel.components t) + 1)
        bound := by
  obtain ⟨bound, hexact, hfits⟩ := compute_exact ht sel
  rw [convertTimeToLong_eq hsel]
  exact ⟨hexact.nonneg, _, hexact.increment hfits⟩

end Steps

/-- The encoding of a time: one BCD byte for each field. -/
def bcdOf (t : TimeT) : List UInt8 :=
  [t.year, t.month, t.day, t.hour, t.min, t.sec].map fun v => bcdByte v.toNat

theorem timeOfBcd_bcdOf {t : TimeT} (ht : checkTimeStruct t = true) :
    publicConvertBCDToTimeEx (bcdOf t) = t := by
  have hdecode := timeOfBcd_convertTimeToBCDEx ht []
  obtain ⟨year, month, day, hour, min, sec, rfl, hyear, hmonth, hday, hhour, hmin, hsec⟩ :=
    exists_fields ht
  rw [convertTimeToBCDEx_eq hyear hmonth hday hhour hmin hsec, List.append_nil] at hdecode
  exact hdecode

/-- The key is ordered as the selected components are, is not 0 and is computed without a wrap, and
the encoding of a time has the key of the time. -/
structure OrderedKey (ctrl : UInt16) (sel : Selection) (t t' : TimeT) : Prop where
  lt_iff : (publicConvertTimeToLong ctrl t).value < (publicConvertTimeToLong ctrl t').value ↔
    sel.components t < sel.components t'
  eq_iff : (publicConvertTimeToLong ctrl t).value = (publicConvertTimeToLong ctrl t').value ↔
    sel.components t = sel.components t'
  gt_iff : (publicConvertTimeToLong ctrl t').value < (publicConvertTimeToLong ctrl t).value ↔
    sel.components t' < sel.components t
  ne_zero : (publicConvertTimeToLong ctrl t).value ≠ 0
  exact : ∀ x ∈ (publicConvertTimeToLong ctrl t).exact, 0 ≤ x ∧ x < 2 ^ 32
  bcd : publicConvertBCDTimeToLong ctrl (bcdOf t) = publicConvertTimeToLong ctrl t

theorem timeKey_ordered {ctrl : UInt16} {sel : Selection} (hsel : selectionOf ctrl = some sel)
    {t t' : TimeT} (ht : checkTimeStruct t = true) (ht' : checkTimeStruct t' = true) :
    OrderedKey ctrl sel t t' := by
  obtain ⟨hnonneg, _, hkey⟩ := convertTimeToLong_exact hsel ht
  obtain ⟨-, _, hkey'⟩ := convertTimeToLong_exact hsel ht'
  have hlt := @horner_lt_iff 0 0 _ _ _ (components_close ht ht' sel)
  have heq := @horner_eq_iff 0 0 _ _ _ (components_close ht ht' sel)
  have hgt := @horner_lt_iff 0 0 _ _ _ (components_close ht' ht sel)
  simp only [lt_irrefl, false_or, true_and] at hlt heq hgt
  constructor
  · rw [← hlt, ← Nat.cast_lt (α := ℤ), hkey.value, hkey'.value, add_lt_add_iff_right]
  · rw [← heq, ← Nat.cast_inj (R := ℤ), hkey.value, hkey'.value, add_left_inj]
  · rw [← hgt, ← Nat.cast_lt (α := ℤ), hkey.value, hkey'.value, add_lt_add_iff_right]
  · have hvalue := hkey.value
    omega
  · exact hkey.exact
  · rw [publicConvertBCDTimeToLong, timeOfBcd_bcdOf ht]
    split_ifs with hctrl
    · rw [publicConvertTimeToLong, if_pos hctrl]
    · rfl

/-- New year's eve before the last hour and the new year, by date. -/
theorem timeKey_ordered_new_year :
    selectionOf 2 = some .date ∧ checkTimeStruct ⟨23, 12, 31, 23, 0, 0⟩ = true ∧
      checkTimeStruct ⟨24, 1, 1, 0, 0, 0⟩ = true ∧
      OrderedKey 2 .date ⟨23, 12, 31, 23, 0, 0⟩ ⟨24, 1, 1, 0, 0, 0⟩ := by
  have hsel : selectionOf 2 = some .date := by decide
  exact ⟨hsel, by decide, by decide, timeKey_ordered hsel (by decide) (by decide)⟩

end Property

end VehicleTerminal.TimeKey
