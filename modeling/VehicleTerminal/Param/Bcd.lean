import VehicleTerminal.Param.Time

/-! The BCD form of a time. The encoder prints decimal digits; the decoder looks at the value of
the two nibbles of a byte only, so it also takes nibbles that are no digits. -/
namespace VehicleTerminal.E2ParamApp
open MachineInt

section Nibbles

def lowNibble (bcd : UInt8) : ℕ := bcd.toNat % 16

/-- The byte with the two decimal digits of a number below 100. -/
def bcdByte (v : ℕ) : UInt8 := UInt8.ofNat (v / 10 * 16 + v % 10)

theorem convertBcdToValue_toNat (bcd : UInt8) :
    (publicConvertBcdToValue bcd).toNat = bcd.toNat / 16 * 10 + lowNibble bcd := by
  have hbyte := bcd.toNat_lt
  have hhigh : (bcd >>> 4).toNat = bcd.toNat / 16 := by
    rw [UInt8.toNat_shiftRight, Nat.shiftRight_eq_div_pow]
    rfl
  have hlow : (bcd &&& 0x0f).toNat = bcd.toNat % 16 := by
    rw [UInt8.toNat_and]
    exact Nat.and_two_pow_sub_one_eq_mod bcd.toNat 4
  rw [publicConvertBcdToValue, UInt8.toNat_add, UInt8.toNat_mul, hhigh, hlow, lowNibble]
  simp only [UInt8.toNat_ofNat]
  omega

theorem bcdByte_toNat {v : ℕ} (hv : v < 100) : (bcdByte v).toNat = v / 10 * 16 + v % 10 := by
  rw [bcdByte, UInt8.toNat_ofNat']
  omega

theorem lowNibble_bcdByte {v : ℕ} (hv : v < 100) : lowNibble (bcdByte v) = v % 10 := by
  rw [lowNibble, bcdByte_toNat hv]
  omega

theorem convertBcdToValue_bcdByte {v : ℕ} (hv : v < 100) :
    (publicConvertBcdToValue (bcdByte v)).toNat = v := by
  rw [convertBcdToValue_toNat, lowNibble_bcdByte hv, bcdByte_toNat hv]
  omega

/-- A byte whose low nibble is a digit is the BCD byte of its value. -/
theorem bcdByte_convertBcdToValue {bcd : UInt8} (hlow : lowNibble bcd ≤ 9)
    (hvalue : (publicConvertBcdToValue bcd).toNat < 100) :
    bcdByte (publicConvertBcdToValue bcd).toNat = bcd := by
  rw [← UInt8.toNat_inj, bcdByte_toNat hvalue, convertBcdToValue_toNat]
  unfold lowNibble at hlow ⊢
  omega

/-- `%02d` prints two digits below 100. -/
theorem sprintf02d_natCast {v : ℕ} (hv : v < 100) :
    sprintf02d v = [(v / 10).digitChar, (v % 10).digitChar] := by
  have hpositive : ¬ (v : ℤ) < 0 := by omega
  rw [sprintf02d, Int.natAbs_natCast]
  simp only [if_neg hpositive]
  by_cases hone : v < 10
  · rw [Nat.toDigits_of_lt_base hone, Nat.div_eq_of_lt hone, Nat.mod_eq_of_lt hone]
    rfl
  · rw [Nat.toDigits_of_base_le (by omega) (by omega), Nat.toDigits_of_lt_base (by omega)]
    rfl

/-- Two printed digits become one BCD byte. -/
theorem convertAscToBCD_sprintf02d {v : ℕ} (hv : v < 100) (source : List Char) :
    publicConvertAscToBCD (sprintf02d v ++ source) = bcdByte v :: publicConvertAscToBCD source := by
  have hdigit {n : ℕ} (hn : n < 10) : n.digitChar.toNat % 16 = n := by
    rw [Nat.toNat_digitChar_of_lt_ten hn]
    omega
  rw [sprintf02d_natCast hv, List.cons_append, List.cons_append, List.nil_append,
    publicConvertAscToBCD, hdigit (by omega), hdigit (by omega), bcdByte]

end Nibbles

section Codec

/-- The six values as a structure, which `Public_CheckTimeStruct` then looks at. -/
def timeOfBcd (data : List UInt8) : TimeT :=
  let field (i : ℕ) : ℤ := int8 (publicConvertBcdToValue (data.getD i 0)).toNat
  ⟨field 0, field 1, field 2, field 3, field 4, field 5⟩

/-- `Public_ConvertBCDToTime` with the structure of its caller: the returned number and what the
structure is afterwards. -/
def publicConvertBCDToTimeInto (stTime : TimeT) (data : List UInt8) : ℕ × TimeT :=
  if checkTimeStruct (timeOfBcd data) then (1, timeOfBcd data) else (0, stTime)

theorem convertBCDToTime_eq (data : List UInt8) :
    publicConvertBCDToTime data =
      if checkTimeStruct (timeOfBcd data) then some (timeOfBcd data) else none := rfl

/-- The fields of an accepted time. -/
theorem checkTimeStruct_iff {t : TimeT} :
    checkTimeStruct t = true ↔ (0 ≤ t.year ∧ t.year ≤ 70) ∧ (1 ≤ t.month ∧ t.month ≤ 12) ∧
      (1 ≤ t.day ∧ t.day ≤ 31) ∧ (0 ≤ t.hour ∧ t.hour ≤ 23) ∧ (0 ≤ t.min ∧ t.min ≤ 59) ∧
      0 ≤ t.sec ∧ t.sec ≤ 59 := by
  simp only [checkTimeStruct, Bool.not_eq_true', Bool.or_eq_false_iff, decide_eq_false_iff_not]
  unfold endYear
  omega

/-- An accepted time is made of numbers below 100. -/
theorem exists_fields {t : TimeT} (h : checkTimeStruct t = true) :
    ∃ year month day hour min sec : ℕ, t = ⟨year, month, day, hour, min, sec⟩ ∧
      year < 100 ∧ month < 100 ∧ day < 100 ∧ hour < 100 ∧ min < 100 ∧ sec < 100 := by
  obtain ⟨hyear, hmonth, hday, hhour, hmin, hsec⟩ := checkTimeStruct_iff.mp h
  refine ⟨t.year.toNat, t.month.toNat, t.day.toNat, t.hour.toNat, t.min.toNat, t.sec.toNat, ?_,
    by omega, by omega, by omega, by omega, by omega, by omega⟩
  rw [Int.toNat_of_nonneg hyear.1, Int.toNat_of_nonneg (by omega), Int.toNat_of_nonneg (by omega),
    Int.toNat_of_nonneg hhour.1, Int.toNat_of_nonneg hmin.1, Int.toNat_of_nonneg hsec.1]

/-- The encoding of an accepted time: one BCD byte for each field. -/
theorem convertTimeToBCDEx_eq {year month day hour min sec : ℕ} (hyear : year < 100)
    (hmonth : month < 100) (hday : day < 100) (hhour : hour < 100) (hmin : min < 100)
    (hsec : sec < 100) :
    publicConvertTimeToBCDEx ⟨year, month, day, hour, min, sec⟩ =
      [bcdByte year, bcdByte month, bcdByte day, bcdByte hour, bcdByte min, bcdByte sec] := by
  have hlast := convertAscToBCD_sprintf02d hsec []
  rw [List.append_nil] at hlast
  rw [publicConvertTimeToBCDEx]
  simp only [List.append_assoc]
  rw [convertAscToBCD_sprintf02d hyear, convertAscToBCD_sprintf02d hmonth,
    convertAscToBCD_sprintf02d hday, convertAscToBCD_sprintf02d hhour,
    convertAscToBCD_sprintf02d hmin, hlast]
  rfl

theorem int8_bcdByte {v : ℕ} (hv : v < 100) :
    int8 ((publicConvertBcdToValue (bcdByte v)).toNat : ℤ) = v := by
  rw [convertBcdToValue_bcdByte hv, int8]
  omega

/-- An accepted time decodes from its encoding, whatever follows that. -/
theorem timeOfBcd_convertTimeToBCDEx {t : TimeT} (h : checkTimeStruct t = true)
    (rest : List UInt8) : timeOfBcd (publicConvertTimeToBCDEx t ++ rest) = t := by
  obtain ⟨year, month, day, hour, min, sec, rfl, hyear, hmonth, hday, hhour, hmin, hsec⟩ :=
    exists_fields h
  rw [convertTimeToBCDEx_eq hyear hmonth hday hhour hmin hsec]
  simp only [timeOfBcd, List.cons_append, List.getD_cons_zero, List.getD_cons_succ,
    int8_bcdByte hyear, int8_bcdByte hmonth, int8_bcdByte hday, int8_bcdByte hhour,
    int8_bcdByte hmin, int8_bcdByte hsec]

theorem convertBCDToTime_convertTimeToBCDEx {t : TimeT} (h : checkTimeStruct t = true)
    (rest : List UInt8) : publicConvertBCDToTime (publicConvertTimeToBCDEx t ++ rest) = some t := by
  rw [convertBCDToTime_eq, timeOfBcd_convertTimeToBCDEx h, if_pos h]

/-- The encoder prints digits only. -/
theorem lowNibble_le_of_mem_convertTimeToBCDEx {t : TimeT} (h : checkTimeStruct t = true)
    {bcd : UInt8} (hbcd : bcd ∈ publicConvertTimeToBCDEx t) : lowNibble bcd ≤ 9 := by
  obtain ⟨year, month, day, hour, min, sec, rfl, hyear, hmonth, hday, hhour, hmin, hsec⟩ :=
    exists_fields h
  rw [convertTimeToBCDEx_eq hyear hmonth hday hhour hmin hsec] at hbcd
  simp only [List.mem_cons, List.not_mem_nil, or_false] at hbcd
  rcases hbcd with rfl | rfl | rfl | rfl | rfl | rfl
  all_goals
    rw [lowNibble_bcdByte (by assumption)]
    omega

end Codec

section SixBytes

variable {data : List UInt8}

/-- Six bytes are read off a list of six. -/
theorem exists_six (hdata : data.length = 6) :
    ∃ a b c d e f : UInt8, data = [a, b, c, d, e, f] := by
  match data, hdata with
  | [a, b, c, d, e, f], _ => exact ⟨a, b, c, d, e, f, rfl⟩

/-- A byte whose low nibble is a digit is the BCD byte of the field that it decodes to. -/
theorem bcdByte_of_field {bcd : UInt8} {v : ℕ} (hlow : lowNibble bcd ≤ 9) (hv : v < 100)
    (hfield : int8 ((publicConvertBcdToValue bcd).toNat : ℤ) = v) : bcdByte v = bcd := by
  have hbyte := bcd.toNat_lt
  have hvalue : (publicConvertBcdToValue bcd).toNat ≤ 165 := by
    rw [convertBcdToValue_toNat, lowNibble]
    omega
  obtain rfl : v = (publicConvertBcdToValue bcd).toNat := by
    unfold int8 at hfield
    omega
  exact bcdByte_convertBcdToValue hlow hv

/-- An accepted byte string without other digits is the encoding of the time it decodes to. -/
theorem convertTimeToBCDEx_timeOfBcd (hdata : data.length = 6)
    (h : checkTimeStruct (timeOfBcd data) = true) (hlow : ∀ bcd ∈ data, lowNibble bcd ≤ 9) :
    publicConvertTimeToBCDEx (timeOfBcd data) = data := by
  obtain ⟨year, month, day, hour, min, sec, ht, hyear, hmonth, hday, hhour, hmin, hsec⟩ :=
    exists_fields h
  obtain ⟨a, b, c, d, e, f, rfl⟩ := exists_six hdata
  simp only [List.forall_mem_cons] at hlow
  obtain ⟨ha, hb, hc, hd, he, hf, -⟩ := hlow
  rw [ht, convertTimeToBCDEx_eq hyear hmonth hday hhour hmin hsec]
  simp only [timeOfBcd, List.getD_cons_zero, List.getD_cons_succ, TimeT.mk.injEq] at ht
  obtain ⟨hyearOf, hmonthOf, hdayOf, hhourOf, hminOf, hsecOf⟩ := ht
  rw [bcdByte_of_field ha hyear hyearOf, bcdByte_of_field hb hmonth hmonthOf,
    bcdByte_of_field hc hday hdayOf, bcdByte_of_field hd hhour hhourOf,
    bcdByte_of_field he hmin hminOf, bcdByte_of_field hf hsec hsecOf]

/-- The byte string is what the encoder writes for an accepted time. -/
def IsEncoding (data : List UInt8) : Prop :=
  ∃ t, checkTimeStruct t = true ∧ publicConvertTimeToBCDEx t = data

theorem timeOfBcd_eq {t : TimeT} (h : checkTimeStruct t = true)
    (hdata : publicConvertTimeToBCDEx t = data) : timeOfBcd data = t := by
  rw [← hdata, ← List.append_nil (publicConvertTimeToBCDEx t), timeOfBcd_convertTimeToBCDEx h]

theorem isEncoding_iff (hdata : data.length = 6) :
    IsEncoding data ↔
      checkTimeStruct (timeOfBcd data) = true ∧ ∀ bcd ∈ data, lowNibble bcd ≤ 9 := by
  constructor
  · rintro ⟨t, h, henc⟩
    rw [timeOfBcd_eq h henc]
    refine ⟨h, fun bcd hbcd => ?_⟩
    rw [← henc] at hbcd
    exact lowNibble_le_of_mem_convertTimeToBCDEx h hbcd
  · rintro ⟨h, hlow⟩
    exact ⟨timeOfBcd data, h, convertTimeToBCDEx_timeOfBcd hdata h hlow⟩

/-- The decoder takes the six bytes exactly when their values form a time; they are then its
encoding exactly when no low nibble is above 9. What it refuses leaves the caller's structure
alone. -/
theorem convertBCDToTime_decodes (stTime : TimeT) (hdata : data.length = 6) :
    ((publicConvertBCDToTimeInto stTime data).1 = 1 ↔ checkTimeStruct (timeOfBcd data) = true) ∧
    ((publicConvertBCDToTimeInto stTime data).1 = 1 →
      (publicConvertBCDToTimeInto stTime data).2 = timeOfBcd data ∧
      (IsEncoding data ↔ ∀ bcd ∈ data, lowNibble bcd ≤ 9) ∧
      ∀ t, checkTimeStruct t = true → publicConvertTimeToBCDEx t = data →
        (publicConvertBCDToTimeInto stTime data).2 = t) ∧
    ((publicConvertBCDToTimeInto stTime data).1 ≠ 1 →
      (publicConvertBCDToTimeInto stTime data).2 = stTime ∧ ¬ IsEncoding data) ∧
    ∀ t, checkTimeStruct t = true →
      publicConvertBCDToTimeInto stTime (publicConvertTimeToBCDEx t) = (1, t) := by
  have hback (t : TimeT) (ht : checkTimeStruct t = true) :
      publicConvertBCDToTimeInto stTime (publicConvertTimeToBCDEx t) = (1, t) := by
    rw [publicConvertBCDToTimeInto, timeOfBcd_eq ht rfl, if_pos ht]
  by_cases h : checkTimeStruct (timeOfBcd data) = true
  · have hrun : publicConvertBCDToTimeInto stTime data = (1, timeOfBcd data) := if_pos h
    rw [hrun]
    refine ⟨iff_of_true rfl h, fun _ => ⟨rfl, ?_, fun t ht henc => timeOfBcd_eq ht henc⟩,
      fun hne => absurd rfl hne, hback⟩
    rw [isEncoding_iff hdata]
    exact and_iff_right h
  · have hrun : publicConvertBCDToTimeInto stTime data = (0, stTime) := if_neg h
    rw [hrun]
    refine ⟨iff_of_false Nat.zero_ne_one h, fun hone => absurd hone Nat.zero_ne_one,
      fun _ => ⟨rfl, ?_⟩, hback⟩
    rw [isEncoding_iff hdata]
    exact fun hboth => h hboth.1

/-- Noon of a leap day. -/
theorem convertBCDToTime_decodes_leap_day :
    [0x16, 0x02, 0x29, 0x12, 0x00, 0x00].length = 6 ∧
      ((publicConvertBCDToTimeInto ⟨0, 1, 1, 0, 0, 0⟩ [0x16, 0x02, 0x29, 0x12, 0x00, 0x00]).1 = 1 ↔
        checkTimeStruct (timeOfBcd [0x16, 0x02, 0x29, 0x12, 0x00, 0x00]) = true) :=
  ⟨rfl, (convertBCDToTime_decodes ⟨0, 1, 1, 0, 0, 0⟩ rfl).1⟩

/-- The year 0x0A, which no encoder writes, is taken for 2010. -/
theorem not_decodes_encodings_only :
    ¬ ∀ (stTime : TimeT) (data : List UInt8), data.length = 6 →
      ((publicConvertBCDToTimeInto stTime data).1 = 1 ↔ IsEncoding data) := by
  intro h
  have hencoding := (h ⟨0, 1, 1, 0, 0, 0⟩ [0x0A, 0x01, 0x01, 0x00, 0x00, 0x00] rfl).mp (by decide)
  have hlow := ((isEncoding_iff rfl).mp hencoding).2 0x0A List.mem_cons_self
  exact absurd hlow (by decide)

end SixBytes

end VehicleTerminal.E2ParamApp
