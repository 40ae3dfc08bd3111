import VehicleTerminal.Param.Stored

/-! Special parameters that are numbers, from the server's value into the EEPROM and back. Two of
them are scaled and stored in sixteen bits, which hold only the small values. -/
namespace VehicleTerminal.E2ParamApp
open BlockMemory EepromPram MachineInt

section Numbers

/-- The number that the EEPROM holds for a parameter of four bytes, 0 where it cannot be read. -/
def storedNumber (pramID : ℕ) (e : Eeprom) : ℕ :=
  ((eepromPramReadPram pramID e).bind publicConvertBufferToLong).getD 0

theorem storedNumber_lt (pramID : ℕ) (e : Eeprom) : storedNumber pramID e < 2 ^ 32 := by
  rw [storedNumber]
  cases h : (eepromPramReadPram pramID e).bind publicConvertBufferToLong with
  | none => decide
  | some value =>
    obtain ⟨data, -, hvalue⟩ := Option.bind_eq_some_iff.mp h
    exact convertBufferToLong_lt hvalue

/-- An entry with a four-byte number. -/
structure IsLong (pramID : ℕ) : Prop where
  admits : Admits pramID 4
  value : lengthOf (e2ParamAppConvertPramIDToGroupIndex pramID) = 4

variable {pramID : ℕ} {e e' : Eeprom}

/-- Both special functions take a number out of their local array, cleared before. -/
theorem readInto_number (h : IsLong pramID) (e : Eeprom) :
    ∃ len buffer, readInto (List.replicate 20 0) pramID e = some (len, buffer) ∧
      publicConvertBufferToLong buffer = some (storedNumber pramID e) ∧ buffer.length = 20 ∧
      (len = 0 → storedNumber pramID e = 0) := by
  obtain ⟨value, hread⟩ := readPram_of_lt h.admits.inTable e
  have hstored : storedNumber pramID e = (publicConvertBufferToLong value).getD 0 := by
    rw [storedNumber, hread, Option.bind_some]
  rcases readPram_value_length (.inr (.inr h.value)) hread with rfl | hlength
  · exact ⟨0, List.replicate 20 0, readInto_of_read (by decide) hread, by rw [hstored]; rfl,
      rfl, fun _ => hstored⟩
  · rw [h.value] at hlength
    obtain ⟨number, hnumber⟩ := convertBufferToLong_of_le hlength.ge
    refine ⟨4, value ++ (List.replicate 20 0).drop 4, ?_, ?_, by simp [hlength], by simp⟩
    · rw [readInto_of_read (by rw [hlength]; decide) hread, hlength]
    · rw [convertBufferToLong_append hlength.ge, hstored, hnumber]
      rfl

/-- A number depends on the bytes of its entry only. -/
theorem storedNumber_of_keeps (h : IsLong pramID)
    (hkeeps : Keeps (e2ParamAppConvertPramIDToGroupIndex pramID) e e') :
    storedNumber pramID e' = storedNumber pramID e := by
  have hvalue : IsValue (e2ParamAppConvertPramIDToGroupIndex pramID) := .inr (.inr h.value)
  have hbytes : ByteStore.readBytes e' (addressOf (e2ParamAppConvertPramIDToGroupIndex pramID)) 5 =
      ByteStore.readBytes e (addressOf (e2ParamAppConvertPramIDToGroupIndex pramID)) 5 := by
    rw [ByteStore.readBytes_eq_iff]
    intro i hlo hhi
    refine hkeeps i hlo ?_
    rw [spaceOf, h.value]
    omega
  rw [storedNumber, storedNumber, readPram_of_value h.admits.inTable h.admits.known hvalue,
    readPram_of_value h.admits.inTable h.admits.known hvalue, h.value, readChecked, readChecked,
    hbytes]

end Numbers

section Shorts

/-- An entry with a two-byte number. -/
structure IsShort (pramID : ℕ) : Prop where
  admits : Admits pramID 2
  value : lengthOf (e2ParamAppConvertPramIDToGroupIndex pramID) = 2

variable {pramID : ℕ}

theorem IsShort.recordReturns (h : IsShort pramID) : RecordReturns pramID 2 := by
  apply recordReturns_of_admits h.admits
  rw [Readable, if_pos (.inr (.inl h.value)), h.value]

theorem IsLong.recordReturns (h : IsLong pramID) : RecordReturns pramID 4 := by
  apply recordReturns_of_admits h.admits
  rw [Readable, if_pos (.inr (.inr h.value)), h.value]

theorem isLong_maxSpeed : IsLong e2MaxSpeedId :=
  ⟨⟨by decide, by decide, by decide +kernel, by decide, by decide +kernel⟩, by decide +kernel⟩

theorem isLong_reportFreqEventSwitch : IsLong e2ReportFreqEventSwitchId :=
  ⟨⟨by decide, by decide, by decide +kernel, by decide, by decide +kernel⟩, by decide +kernel⟩

theorem isShort_speedEarlyAlarmDvalue : IsShort e2SpeedEarlyAlarmDvalueId :=
  ⟨⟨by decide, by decide, by decide +kernel, by decide, by decide +kernel⟩, by decide +kernel⟩

theorem isShort_tireEarlyAlarmDvalue : IsShort e2TireEarlyAlarmDvalueId :=
  ⟨⟨by decide, by decide, by decide +kernel, by decide, by decide +kernel⟩, by decide +kernel⟩

end Shorts

section RoundTrip

variable {x : ℕ} {d : Device} {e : Eeprom}

/-- The server's value is written and acknowledged, and then read back. -/
def SpecialReturns (usParamID x : ℕ) (d : Device) : Prop :=
  ∃ e', writeSpecialParam usParamID (publicConvertLongToBuffer x) 4 d.eeprom = some (4, e') ∧
    readSpecialParam usParamID { d with eeprom := e' } = some (publicConvertLongToBuffer x)

/-- The write happens in one way only, so the value that is read decides. -/
theorem specialReturns_iff_of_read {usParamID value : ℕ} {e' : Eeprom} (hx : x < 2 ^ 32)
    (hvalue : value < 2 ^ 32)
    (hwrite : writeSpecialParam usParamID (publicConvertLongToBuffer x) 4 d.eeprom = some (4, e'))
    (hread : readSpecialParam usParamID { d with eeprom := e' } =
      some (publicConvertLongToBuffer value)) : SpecialReturns usParamID x d ↔ value = x := by
  rw [SpecialReturns]
  constructor
  · rintro ⟨e'', hw, hr⟩
    rw [hwrite] at hw
    cases hw
    rwa [hread, Option.some_inj, convertLongToBuffer_inj hvalue hx] at hr
  · rintro rfl
    exact ⟨e', hwrite, hread⟩

/-- A short that has been written is read into the front of any local array. -/
theorem readInto_short {pramID : ℕ} (h : IsShort pramID) (value : ℕ) (e : Eeprom) :
    ∃ e', eepromPramWritePram pramID (publicConvertShortToBuffer value) 2 e = some (2, e') ∧
      ∀ buffer : List UInt8, 2 ≤ buffer.length → ∃ buffer',
        readInto buffer pramID e' = some (2, buffer') ∧
          publicConvertBufferToShort buffer' = some (value % 65536) := by
  obtain ⟨e', hw, hread⟩ := h.recordReturns (publicConvertShortToBuffer value) e rfl
  refine ⟨e', hw, fun buffer hbuffer => ⟨_, readInto_of_read ?_ hread, ?_⟩⟩
  · exact hbuffer
  · exact convertBufferToShort_convertShortToBuffer _ _

/-- 0xC224: minutes, stored in seconds. -/
theorem tireEarlyAlarm_returns_iff (hx : x < 2 ^ 32) :
    SpecialReturns 0xC224 x d ↔ x ≤ 1092 := by
  obtain ⟨e', hw, hreads⟩ := readInto_short isShort_tireEarlyAlarmDvalue (x * 60) d.eeprom
  obtain ⟨buffer, hread, hshort⟩ := hreads (List.replicate 20 0) (by decide)
  have hwrite : writeSpecialParam 0xC224 (publicConvertLongToBuffer x) 4 d.eeprom =
      some (4, e') := by
    simp only [writeSpecialParam, Nat.reduceEqDiff, if_true, if_false, ne_eq, not_true_eq_false,
      convertBufferToLong_of_convertLongToBuffer hx, Option.bind_eq_bind, Option.bind_some, hw]
    rfl
  have hback : readSpecialParam 0xC224 { d with eeprom := e' } =
      some (publicConvertLongToBuffer (x * 60 % 65536 / 60)) := by
    simp only [readSpecialParam, e2CarTotalMileId, Nat.reduceEqDiff, if_true, if_false, hread,
      hshort, Option.bind_eq_bind, Option.bind_some, ne_eq, OfNat.ofNat_ne_zero,
      not_false_eq_true]
    rfl
  rw [specialReturns_iff_of_read hx (by omega) hwrite hback]
  constructor
  · intro hsame
    omega
  · intro hsmall
    rw [Nat.mod_eq_of_lt (by omega), Nat.mul_div_cancel x (by decide)]

/-- The distance in tenths and sixteen bits, taken off the maximum again. -/
theorem distance_undone {speed : ℕ} (hx : x < 2 ^ 32) (hspeed : speed < 2 ^ 32) (hne : x ≠ 0) :
    (if (speed + 2 ^ 32 - x) % 2 ^ 32 * 10 % 65536 / 10 ≠ 0 ∧
        speed > (speed + 2 ^ 32 - x) % 2 ^ 32 * 10 % 65536 / 10 then
      speed - (speed + 2 ^ 32 - x) % 2 ^ 32 * 10 % 65536 / 10 else 0) = x ↔
        x = 0 ∨ x < speed ∧ speed - x ≤ 6553 := by
  by_cases hbelow : x ≤ speed
  · have hdistance : (speed + 2 ^ 32 - x) % 2 ^ 32 = speed - x := by omega
    rw [hdistance]
    by_cases hsmall : speed - x ≤ 6553
    · rw [Nat.mod_eq_of_lt (by omega), Nat.mul_div_cancel _ (Nat.succ_pos 9)]
      split_ifs <;> omega
    · have hfull : (speed - x) * 10 % 65536 / 10 ≤ 6553 := by omega
      split_ifs <;> omega
  · -- the subtraction has wrapped, and no result is above the maximum
    generalize (speed + 2 ^ 32 - x) % 2 ^ 32 * 10 % 65536 / 10 = distance
    split_ifs <;> omega

/-- 0xC115: a warning speed, stored as its distance to the maximum speed in tenths. -/
theorem speedEarlyAlarm_returns_iff (hx : x < 2 ^ 32) :
    SpecialReturns 0xC115 x d ↔
      x = 0 ∨ x < storedNumber e2MaxSpeedId d.eeprom ∧
        storedNumber e2MaxSpeedId d.eeprom - x ≤ 6553 := by
  obtain ⟨len, buffer, hmax, hlong, hlength, hnone⟩ := readInto_number isLong_maxSpeed d.eeprom
  have hbound := storedNumber_lt e2MaxSpeedId d.eeprom
  generalize hspeed : storedNumber e2MaxSpeedId d.eeprom = speed at hlong hnone hbound ⊢
  let dvalue := if x ≠ 0 ∧ len ≠ 0 then (speed + 2 ^ 32 - x) % 2 ^ 32 else x
  obtain ⟨e', hw, hreads⟩ := readInto_short isShort_speedEarlyAlarmDvalue (dvalue * 10) d.eeprom
  have hkeeps : storedNumber e2MaxSpeedId e' = speed := by
    rw [storedNumber_of_keeps isLong_maxSpeed (keeps_writePram (by decide +kernel) hw), hspeed]
  obtain ⟨len₁, buffer₁, hmax₁, hlong₁, hlength₁, hnone₁⟩ := readInto_number isLong_maxSpeed e'
  rw [hkeeps] at hlong₁ hnone₁
  obtain ⟨buffer₂, hread, hshort⟩ := hreads buffer₁ (by omega)
  have hval : (if len₁ ≠ 0 then speed else 0) = speed := by
    split_ifs with hlen
    · rfl
    · exact (hnone₁ (not_not.mp hlen)).symm
  have hwrite : writeSpecialParam 0xC115 (publicConvertLongToBuffer x) 4 d.eeprom =
      some (4, e') := by
    simp only [writeSpecialParam, if_true, ne_eq, not_true_eq_false, if_false,
      convertBufferToLong_of_convertLongToBuffer hx, Option.bind_eq_bind, Option.bind_some, hmax,
      hlong]
    simp only [dvalue, ne_eq] at hw
    rw [hw]
    rfl
  have hback : readSpecialParam 0xC115 { d with eeprom := e' } = some (publicConvertLongToBuffer
      (if dvalue * 10 % 65536 / 10 ≠ 0 ∧ speed > dvalue * 10 % 65536 / 10 then
        speed - dvalue * 10 % 65536 / 10 else 0)) := by
    simp only [readSpecialParam, e2CarTotalMileId, Nat.reduceEqDiff, if_true, if_false, hmax₁,
      hlong₁, hval, hread, hshort, Option.bind_eq_bind, Option.bind_some, ne_eq,
      OfNat.ofNat_ne_zero, not_false_eq_true]
    rfl
  have hcond : (if dvalue * 10 % 65536 / 10 ≠ 0 ∧ speed > dvalue * 10 % 65536 / 10 then
      speed - dvalue * 10 % 65536 / 10 else 0) = x ↔ x = 0 ∨ x < speed ∧ speed - x ≤ 6553 := by
    by_cases hzero : x = 0
    · simp [dvalue, hzero]
    · by_cases hlen : len = 0
      · have hspeed_zero := hnone hlen
        split_ifs <;> omega
      · have hdvalue : dvalue = (speed + 2 ^ 32 - x) % 2 ^ 32 := if_pos ⟨hzero, hlen⟩
        rw [hdvalue]
        exact distance_undone hx hbound hzero
  have hbelow : (if dvalue * 10 % 65536 / 10 ≠ 0 ∧ speed > dvalue * 10 % 65536 / 10 then
      speed - dvalue * 10 % 65536 / 10 else 0) < 2 ^ 32 := by
    split_ifs <;> omega
  exact (specialReturns_iff_of_read hx hbelow hwrite hback).trans hcond

/-- Bit 0 of a word set or cleared, as the value says. -/
def switchedWord (word x : ℕ) : ℕ := if x % 2 = 1 then word ||| 1 else word - word % 2

theorem switchedWord_bits (word x : ℕ) :
    switchedWord word x % 2 = x % 2 ∧ switchedWord word x / 2 = word / 2 := by
  unfold switchedWord
  split_ifs with hodd
  · have hbit : (word ||| 1) % 2 = 1 := Nat.or_mod_two_eq_one.mpr (.inr rfl)
    have hrest : (word ||| 1) / 2 = word / 2 := by
      rw [Nat.or_div_two]
      exact Nat.or_zero _
    omega
  · omega

/-- 0xC25B: one bit of a word, whose other bits stay. -/
theorem eventSwitch_returns (hx : x < 2 ^ 32) :
    ∃ e', writeSpecialParam 0xC25B (publicConvertLongToBuffer x) 4 d.eeprom = some (0, e') ∧
      readSpecialParam 0xC25B { d with eeprom := e' } = some (publicConvertLongToBuffer (x % 2)) ∧
      storedNumber e2ReportFreqEventSwitchId e' / 2 =
        storedNumber e2ReportFreqEventSwitchId d.eeprom / 2 := by
  obtain ⟨len, buffer, hold, hlong, -, hnone⟩ :=
    readInto_number isLong_reportFreqEventSwitch d.eeprom
  have hbound := storedNumber_lt e2ReportFreqEventSwitchId d.eeprom
  generalize hword : storedNumber e2ReportFreqEventSwitchId d.eeprom = word at hlong hnone hbound ⊢
  have hbits := switchedWord_bits word x
  have hnew : switchedWord word x < 2 ^ 32 := by omega
  obtain ⟨e', hw, hread⟩ := isLong_reportFreqEventSwitch.recordReturns
    (publicConvertLongToBuffer (switchedWord word x)) d.eeprom rfl
  have hval : (if len ≠ 0 then word else 0) = word := by
    split_ifs with hlen
    · rfl
    · exact (hnone (not_not.mp hlen)).symm
  have hstored : storedNumber e2ReportFreqEventSwitchId e' = switchedWord word x := by
    rw [storedNumber, hread, Option.bind_some, convertBufferToLong_of_convertLongToBuffer hnew]
    rfl
  have hbuffer : readInto (List.replicate 20 0) e2ReportFreqEventSwitchId e' =
      some (4, publicConvertLongToBuffer (switchedWord word x) ++
        (List.replicate 20 0).drop 4) :=
    readInto_of_read (by rw [convertLongToBuffer_length]; decide) hread
  refine ⟨e', ?_, ?_, by rw [hstored, hbits.2]⟩
  · simp only [writeSpecialParam, Nat.reduceEqDiff, if_true, if_false, ne_eq, not_true_eq_false,
      convertBufferToLong_of_convertLongToBuffer hx, Option.bind_eq_bind, Option.bind_some, hold,
      hlong]
    rw [hval]
    rw [switchedWord] at hw
    rw [hw]
    rfl
  · simp only [readSpecialParam, e2CarTotalMileId, Nat.reduceEqDiff, if_true, if_false, hbuffer,
      convertBufferToLong_convertLongToBuffer hnew, Option.bind_eq_bind, Option.bind_some, ne_eq,
      OfNat.ofNat_ne_zero, not_false_eq_true]
    rw [hbits.1]
    rfl

/-- Of the special numbers, 0xC224 and 0xC115 come back where sixteen bits hold them (and 0xC115
lies below the maximum speed); 0xC25B always does. -/
theorem special_returns_iff (d : Device) (hx : x < 2 ^ 32) :
    (SpecialReturns 0xC115 x d ↔
      x = 0 ∨ x < storedNumber e2MaxSpeedId d.eeprom ∧
        storedNumber e2MaxSpeedId d.eeprom - x ≤ 6553) ∧
    (SpecialReturns 0xC224 x d ↔ x ≤ 1092) ∧
    ∃ e', writeSpecialParam 0xC25B (publicConvertLongToBuffer x) 4 d.eeprom = some (0, e') ∧
      readSpecialParam 0xC25B { d with eeprom := e' } = some (publicConvertLongToBuffer (x % 2)) ∧
      storedNumber e2ReportFreqEventSwitchId e' / 2 =
        storedNumber e2ReportFreqEventSwitchId d.eeprom / 2 :=
  ⟨speedEarlyAlarm_returns_iff hx, tireEarlyAlarm_returns_iff hx, eventSwitch_returns hx⟩

/-- An EEPROM without any parameter. -/
def emptyDevice : Device := ⟨fun _ => 0, .erased, 0⟩

theorem special_returns_one_minute :
    1 < 2 ^ 32 ∧ (SpecialReturns 0xC224 1 emptyDevice ↔ 1 ≤ 1092) :=
  ⟨by decide, (special_returns_iff emptyDevice (by decide)).2.1⟩

/-- 1093 minutes are acknowledged and read back as none. -/
theorem not_special_returns :
    ¬ ∀ (x : ℕ) (d : Device), x < 2 ^ 32 → SpecialReturns 0xC224 x d := by
  intro h
  have hreturns := h 1093 emptyDevice (by decide)
  rw [tireEarlyAlarm_returns_iff (by decide)] at hreturns
  exact absurd hreturns (by decide)

end RoundTrip

end VehicleTerminal.E2ParamApp
