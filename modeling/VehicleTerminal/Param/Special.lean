import VehicleTerminal.Library.Memory
import VehicleTerminal.Library.InputPrefix
import VehicleTerminal.Eeprom.Pram
import VehicleTerminal.Param.Time
import VehicleTerminal.Storage.FramMemory

/-! Parameters that a Suomei server numbers and codes in its own way. They are stored under
other IDs and converted in both directions. -/
namespace VehicleTerminal.E2ParamApp
open ByteStore BlockMemory EepromPram InputPrefix

def e2MaxSpeedId : ℕ := 0x55

def e2SpeedEarlyAlarmDvalueId : ℕ := 0x5B

def e2TireEarlyAlarmDvalueId : ℕ := 0x5C

def e2CarTotalMileId : ℕ := 0x80

def e2OverspeedNightTimeId : ℕ := 0xF25A

def e2ForbidDriveNightTimeId : ℕ := 0xF260

def e2TiredDriveNightTimeId : ℕ := 0xF26A

def e2TiredDriveRunSpeedId : ℕ := 0xF278

def e2ReportFreqEventSwitchId : ℕ := 0xF27D

def framVdrMileageAddr : ℕ := 984

def framVdrMileageLen : ℕ := 4

/-- The two memories and the pending delayed command. -/
structure Device where
  eeprom : Eeprom
  fram : Fram.Memory
  delayAckCommand : ℕ

/-- `EepromPram_ReadPram` into a local array: the length and the new content. -/
def readInto (buffer : List UInt8) (pramID : ℕ) (e : Eeprom) : Option (ℕ × List UInt8) :=
  (eepromPramReadPram pramID e).bind fun value =>
    (copyIn buffer 0 value value.length).map fun buffer => (value.length, buffer)

theorem readInto_value {buffer : List UInt8} {pramID : ℕ} (hbuffer : 4 ≤ buffer.length)
    (hin : e2ParamAppConvertPramIDToGroupIndex pramID < e2PramIdIndexMax)
    (hvalue : IsValue (e2ParamAppConvertPramIDToGroupIndex pramID)) (e : Eeprom) :
    ∃ len buffer' old, readInto buffer pramID e = some (len, buffer') ∧
      publicConvertBufferToLong buffer' = some old := by
  obtain ⟨value, hread⟩ := readPram_of_lt hin e
  have hshort : value.length ≤ 4 := by
    rcases readPram_value_length hvalue hread with rfl | hlength
    · exact Nat.zero_le 4
    · rcases hvalue with h | h | h <;> omega
  have hcopy : copyIn buffer 0 value value.length = some (blit buffer 0 value) := by
    rw [copyIn_of_le (by omega) le_rfl, List.take_length]
  have hlength : (blit buffer 0 value).length = buffer.length := blit_length _ _ _ (by omega)
  obtain ⟨old, hold⟩ := convertBufferToLong_of_le (hbuffer.trans_eq hlength.symm)
  refine ⟨value.length, blit buffer 0 value, old, ?_, hold⟩
  rw [readInto, hread, Option.bind_some, hcopy, Option.map_some]

/-- The value comes to lie at the front of the array. -/
theorem readInto_of_read {buffer value : List UInt8} {pramID : ℕ} {e : Eeprom}
    (hfits : value.length ≤ buffer.length) (hread : eepromPramReadPram pramID e = some value) :
    readInto buffer pramID e = some (value.length, value ++ buffer.drop value.length) := by
  rw [readInto, hread, Option.bind_some, copyIn_of_le (by omega) le_rfl, List.take_length,
    Option.map_some, blit, List.take_zero, List.nil_append, Nat.zero_add]

section Write

def writeTimeParam (usParamID : ℕ) (data : List UInt8) (datalen : ℕ) (e : Eeprom) :
    Option (ℕ × Eeprom) :=
  if datalen ≠ 10 then some (0, e)
  else do
    let head ← copyOut data 0 2
    let start ← publicConvertBufferToLong (data.drop 2)
    let stop ← publicConvertBufferToLong (data.drop 6)
    let buffer := head ++ publicConvertTimeToBCDEx (gmtime start) ++
      publicConvertTimeToBCDEx (gmtime stop) ++ List.replicate 6 0
    let (_, e) ← eepromPramWritePram usParamID buffer 14 e
    return (10, e)

/-- `data` is the memory from the record's data on, `datalen` what the record calls its
length. 0xC250 copies four bytes whatever that length is. -/
def writeSpecialParam (usParamID : ℕ) (data : List UInt8) (datalen : ℕ) (e : Eeprom) :
    Option (ℕ × Eeprom) :=
  if usParamID = 0xC115 then
    if datalen ≠ 4 then some (0, e)
    else do
      let temp ← publicConvertBufferToLong data
      let (len, buffer) ← readInto (List.replicate 20 0) e2MaxSpeedId e
      let val ← publicConvertBufferToLong buffer
      let temp := if temp ≠ 0 ∧ len ≠ 0 then (val + 2 ^ 32 - temp) % 2 ^ 32 else temp
      let (_, e) ← eepromPramWritePram e2SpeedEarlyAlarmDvalueId
        (publicConvertShortToBuffer (temp * 10)) 2 e
      return (4, e)
  else if usParamID = 0xC21B then writeTimeParam e2ForbidDriveNightTimeId data datalen e
  else if usParamID = 0xC222 then writeTimeParam e2OverspeedNightTimeId data datalen e
  else if usParamID = 0xC224 then
    if datalen ≠ 4 then some (0, e)
    else do
      let temp ← publicConvertBufferToLong data
      let (_, e) ← eepromPramWritePram e2TireEarlyAlarmDvalueId
        (publicConvertShortToBuffer (temp * 60)) 2 e
      return (4, e)
  else if usParamID = 0xC250 then do
    let (_, e) ← eepromPramWritePram e2TiredDriveRunSpeedId data 4 e
    return (0, e)
  else if usParamID = 0xC25B then
    if datalen ≠ 4 then some (0, e)
    else do
      let temp ← publicConvertBufferToLong data
      let (len, buffer) ← readInto (List.replicate 20 0) e2ReportFreqEventSwitchId e
      let old ← publicConvertBufferToLong buffer
      let val := if len ≠ 0 then old else 0
      let val := if temp % 2 = 1 then val ||| 1 else val - val % 2
      let (_, e) ← eepromPramWritePram e2ReportFreqEventSwitchId
        (publicConvertLongToBuffer val) 4 e
      return (0, e)
  else if usParamID = 0xC255 then writeTimeParam e2TiredDriveNightTimeId data datalen e
  else some (0, e)

/-- How many bytes of its record a special parameter looks at. -/
def specialExtent (usParamID datalen : ℕ) : ℕ :=
  if usParamID = 0xC115 ∨ usParamID = 0xC224 ∨ usParamID = 0xC25B then
    if datalen = 4 then 4 else 0
  else if usParamID = 0xC21B ∨ usParamID = 0xC222 ∨ usParamID = 0xC255 then
    if datalen = 10 then 10 else 0
  else if usParamID = 0xC250 then 4
  else 0

/-- The IDs with a branch in `E2ParamApp_WriteSpecialParam`. -/
def specialIDs : List ℕ := [0xC115, 0xC21B, 0xC222, 0xC224, 0xC250, 0xC25B, 0xC255]

theorem copyOut_stable (k : ℕ) : Stable fun p : List UInt8 => copyOut p 0 k := by
  intro p tail r h
  dsimp only [copyOut] at h ⊢
  split_ifs at h with hk
  rw [Nat.zero_add] at hk
  rw [if_pos (by rw [List.length_append]; omega), ← h, slice, slice, List.drop_zero,
    List.drop_zero, List.take_append_of_le_length hk]

theorem convertBufferToLong_stable : Stable publicConvertBufferToLong := by
  intro p tail r h
  have hlength : 4 ≤ p.length := by
    by_contra hshort
    rw [convertBufferToLong_eq_none_iff.mpr (by omega)] at h
    cases h
  rw [convertBufferToLong_append hlength, h]

theorem writePram_stable (pramID n : ℕ) (e : Eeprom) :
    Stable fun p => eepromPramWritePram pramID p n e := by
  intro p tail r h
  change eepromPramWritePram pramID p n e = some r at h
  by_cases hadmits : Admits pramID n
  · have hlength : n ≤ p.length := by
      by_contra hshort
      rw [writePram_outside hadmits (by omega)] at h
      cases h
    exact (writePram_append hlength tail).trans h
  · rw [writePram_refused hadmits] at h
    exact (writePram_refused hadmits).trans h

theorem writeTimeParam_stable (usParamID datalen : ℕ) (e : Eeprom) :
    Stable fun p => writeTimeParam usParamID p datalen e := by
  unfold writeTimeParam
  refine (stable_const _).ite ((copyOut_stable 2).bind fun head => ?_)
  refine (convertBufferToLong_stable.drop 2).bind fun start => ?_
  exact (convertBufferToLong_stable.drop 6).bind fun stop => stable_const _

theorem writeSpecialParam_stable (usParamID datalen : ℕ) (e : Eeprom) :
    Stable fun p => writeSpecialParam usParamID p datalen e := by
  unfold writeSpecialParam
  refine .ite (.ite (stable_const _) ?_) (.ite (writeTimeParam_stable _ _ _)
    (.ite (writeTimeParam_stable _ _ _) (.ite (.ite (stable_const _) ?_) (.ite ?_
      (.ite (.ite (stable_const _) ?_) (.ite (writeTimeParam_stable _ _ _) (stable_const _)))))))
  · exact convertBufferToLong_stable.bind fun temp => stable_const _
  · exact convertBufferToLong_stable.bind fun temp => stable_const _
  · exact (writePram_stable _ _ _).bind fun r => stable_const _
  · exact convertBufferToLong_stable.bind fun temp => stable_const _

theorem writeTimeParam_eq_none_iff {usParamID n : ℕ} {p : List UInt8} {e : Eeprom} :
    writeTimeParam usParamID p n e = none ↔ n = 10 ∧ p.length < 10 := by
  unfold writeTimeParam
  by_cases hn : n = 10
  · simp only [hn, ne_eq, not_true_eq_false, if_false, true_and, Option.bind_eq_bind]
    constructor
    · intro h
      by_contra hlong
      have hhead : copyOut p 0 2 = some (slice p 0 2) := copyOut_of_le (by omega)
      have htwo : 4 ≤ (p.drop 2).length := by rw [List.length_drop]; omega
      have hsix : 4 ≤ (p.drop 6).length := by rw [List.length_drop]; omega
      obtain ⟨start, hstart⟩ := convertBufferToLong_of_le htwo
      obtain ⟨stop, hstop⟩ := convertBufferToLong_of_le hsix
      have hbuffer : 14 ≤ (slice p 0 2 ++ publicConvertTimeToBCDEx (gmtime start) ++
          publicConvertTimeToBCDEx (gmtime stop) ++ List.replicate 6 (0 : UInt8)).length := by
        simp [slice_length p 0 2 (by omega)]
      obtain ⟨n', e', hw⟩ := writePram_of_le hbuffer
      simp only [hhead, hstart, hstop, Option.bind_some] at h
      rw [hw] at h
      cases h
    · intro hshort
      have hstop : publicConvertBufferToLong (p.drop 6) = none :=
        convertBufferToLong_eq_none_iff.mpr (by rw [List.length_drop]; omega)
      simp only [hstop, Option.bind_none, Option.bind_eq_none_iff]
      intros
      trivial
  · simp [hn]

theorem bind_convertBufferToLong_eq_none_iff {γ : Type*} {p : List UInt8} {g : ℕ → Option γ}
    (hg : ∀ value, g value ≠ none) :
    (publicConvertBufferToLong p).bind g = none ↔ p.length < 4 := by
  rw [← convertBufferToLong_eq_none_iff, Option.bind_eq_none_iff]
  constructor
  · intro h
    cases hvalue : publicConvertBufferToLong p with
    | none => rfl
    | some value => exact absurd (h value hvalue) (hg value)
  · intro h value hvalue
    rw [h] at hvalue
    cases hvalue

theorem writePram_bind_ne_none {γ : Type*} {pramID n : ℕ} {buffer : List UInt8} {e : Eeprom}
    (h : n ≤ buffer.length) (reply : ℕ × Eeprom → γ) :
    ((eepromPramWritePram pramID buffer n e).bind fun r => some (reply r)) ≠ none := by
  obtain ⟨n', e', hw⟩ := writePram_of_le h
  rw [hw]
  exact Option.some_ne_none _

/-- A number that is read into an array of twenty bytes is there for what follows. -/
theorem readInto_bind_ne_none {γ : Type*} (pramID : ℕ) {e : Eeprom}
    {g : ℕ × List UInt8 → ℕ → Option γ}
    (hin : e2ParamAppConvertPramIDToGroupIndex pramID < e2PramIdIndexMax)
    (hvalue : IsValue (e2ParamAppConvertPramIDToGroupIndex pramID))
    (hg : ∀ r old, g r old ≠ none) :
    ((readInto (List.replicate 20 0) pramID e).bind fun r =>
      (publicConvertBufferToLong r.2).bind fun old => g r old) ≠ none := by
  have htwenty : 4 ≤ (List.replicate 20 (0 : UInt8)).length := by decide
  obtain ⟨len, buffer, old, hread, hold⟩ := readInto_value htwenty hin hvalue e
  simp only [hread, hold, Option.bind_some]
  exact hg (len, buffer) old

/-- A special parameter leaves its record exactly when the record ends before the bytes that
its branch looks at. -/
theorem writeSpecialParam_eq_none_iff {usParamID n : ℕ} {p : List UInt8} {e : Eeprom} :
    writeSpecialParam usParamID p n e = none ↔ p.length < specialExtent usParamID n := by
  by_cases hspecial : usParamID ∈ specialIDs
  swap
  · simp only [specialIDs, List.mem_cons, List.not_mem_nil, or_false, not_or] at hspecial
    simp [writeSpecialParam, specialExtent, hspecial]
  have htime (q : ℕ) : writeTimeParam q p n e = none ↔ p.length < if n = 10 then 10 else 0 := by
    rw [writeTimeParam_eq_none_iff]
    split_ifs with h <;> simp [h]
  have hlong {g : ℕ → Option (ℕ × Eeprom)} (hg : ∀ value, g value ≠ none) :
      (if n ≠ 4 then some (0, e) else (publicConvertBufferToLong p).bind g) = none ↔
        p.length < if n = 4 then 4 else 0 := by
    by_cases hn : n = 4
    · simpa [hn] using bind_convertBufferToLong_eq_none_iff hg
    · simp [hn]
  simp only [specialIDs, List.mem_cons, List.not_mem_nil, or_false] at hspecial
  rcases hspecial with rfl | rfl | rfl | rfl | rfl | rfl | rfl
  all_goals simp only [writeSpecialParam, specialExtent, Nat.reduceEqDiff, if_true, if_false,
    or_true, or_false, Option.bind_eq_bind]
  · refine hlong fun temp => readInto_bind_ne_none e2MaxSpeedId (by decide) (by decide +kernel) ?_
    exact fun r old => writePram_bind_ne_none le_rfl _
  · exact htime _
  · exact htime _
  · exact hlong fun temp => writePram_bind_ne_none le_rfl _
  · have hadmits : Admits e2TiredDriveRunSpeedId 4 :=
      ⟨by decide, by decide, by decide +kernel, by decide, by decide +kernel⟩
    rw [Option.bind_eq_none_iff]
    constructor
    · intro h
      by_contra hlong
      obtain ⟨n', e', hw⟩ := writePram_of_le (Nat.not_lt.mp hlong)
      cases h _ hw
    · intro hshort r hw
      rw [writePram_outside hadmits hshort] at hw
      cases hw
  · refine hlong fun temp =>
      readInto_bind_ne_none e2ReportFreqEventSwitchId (by decide) (by decide +kernel) ?_
    exact fun r old => writePram_bind_ne_none le_rfl _
  · exact htime _

theorem writeSpecialParam_other {usParamID : ℕ} (h : usParamID ∉ specialIDs) (p : List UInt8)
    (n : ℕ) (e : Eeprom) : writeSpecialParam usParamID p n e = some (0, e) := by
  simp only [specialIDs, List.mem_cons, List.not_mem_nil, or_false, not_or] at h
  simp [writeSpecialParam, h]

end Write

section Read

def readTimeParam (usParamID : ℕ) (e : Eeprom) : Option (List UInt8) := do
  let (len, buffer) ← readInto (List.replicate 20 0) usParamID e
  if len ≠ 14 then return []
  match publicConvertBCDToTime (buffer.drop 2), publicConvertBCDToTime (buffer.drop 8) with
  | some start, some stop =>
    return buffer.take 2 ++ publicConvertLongToBuffer (converseGmtime start) ++
      publicConvertLongToBuffer (converseGmtime stop)
  | _, _ => return []

/-- The bytes written through `data`; the returned length is their number. The mileage comes
from the FRAM. -/
def readSpecialParam (usParamID : ℕ) (d : Device) : Option (List UInt8) :=
  if usParamID = e2CarTotalMileId then do
    let buffer ← d.fram.bufferRead framVdrMileageLen framVdrMileageAddr
    let val ← publicConvertBufferToLong buffer
    return publicConvertLongToBuffer (val / 10)
  else if usParamID = 0xC115 then do
    let (len, buffer) ← readInto (List.replicate 20 0) e2MaxSpeedId d.eeprom
    let speed ← publicConvertBufferToLong buffer
    let val := if len ≠ 0 then speed else 0
    let (len, buffer) ← readInto buffer e2SpeedEarlyAlarmDvalueId d.eeprom
    let dvalue ← publicConvertBufferToShort buffer
    let temp := if len ≠ 0 then dvalue / 10 else 0
    return publicConvertLongToBuffer (if temp ≠ 0 ∧ val > temp then val - temp else 0)
  else if usParamID = 0xC21B then readTimeParam e2ForbidDriveNightTimeId d.eeprom
  else if usParamID = 0xC222 then readTimeParam e2OverspeedNightTimeId d.eeprom
  else if usParamID = 0xC224 then do
    let (len, buffer) ← readInto (List.replicate 20 0) e2TireEarlyAlarmDvalueId d.eeprom
    let temp ← publicConvertBufferToShort buffer
    return publicConvertLongToBuffer (if len ≠ 0 then temp / 60 else 0)
  else if usParamID = 0xC250 then some []
  else if usParamID = 0xC25B then do
    let (len, buffer) ← readInto (List.replicate 20 0) e2ReportFreqEventSwitchId d.eeprom
    let val ← publicConvertBufferToLong buffer
    return publicConvertLongToBuffer (if len ≠ 0 then val % 2 else 0)
  else if usParamID = 0xC255 then readTimeParam e2TiredDriveNightTimeId d.eeprom
  else some []

end Read

end VehicleTerminal.E2ParamApp
