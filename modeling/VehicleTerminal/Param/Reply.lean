import VehicleTerminal.Param.Message
import VehicleTerminal.Param.Read

/-! When a reply is well formed and stays inside its capacity. A record is written before
the capacity is looked at, so that this takes room for the records of all IDs. -/
namespace VehicleTerminal.E2ParamApp
open ByteStore BlockMemory MachineInt EepromPram PartialLoop

section Data

variable {d : Device} {pramID readPramID usParamID n : ℕ} {special data : List UInt8} {e : Eeprom}

/-- The special parameters that are stored as two BCD times, with the ID of the entry. -/
def timeParams : List (ℕ × ℕ) :=
  [(0xC21B, e2ForbidDriveNightTimeId), (0xC222, e2OverspeedNightTimeId),
    (0xC255, e2TiredDriveNightTimeId)]

/-- Where a parameter can be read from: its entry is in the tables, and a stored time fits the
local array of twenty bytes. -/
structure Resolves (d : Device) (pramID : ℕ) : Prop where
  inTable : e2ParamAppConvertPramIDToGroupIndex (convertPramID pramID) < e2PramIdIndexMax
  time : ∀ q ∈ timeParams, q.1 = pramID % 65536 → ∀ value,
    eepromPramReadPram q.2 d.eeprom = some value → value.length ≤ 20

theorem readPram_ne_none_iff :
    eepromPramReadPram pramID e ≠ none ↔
      e2ParamAppConvertPramIDToGroupIndex pramID < e2PramIdIndexMax := by
  constructor
  · intro h
    by_contra hout
    have hlength : eepromPramLength[e2ParamAppConvertPramIDToGroupIndex pramID]? = none :=
      List.getElem?_eq_none (tables_length.2.1.trans_le (Nat.not_lt.mp hout))
    have hknown : e2ParamAppConvertPramIDToGroupIndex pramID ≠ 0 := fun hzero =>
      hout (hzero.trans_lt (by decide))
    exact h (by simp [eepromPramReadPram, hlength, hknown])
  · intro h
    obtain ⟨value, hread⟩ := readPram_of_lt h e
    rw [hread]
    exact Option.some_ne_none value

theorem readTimeParam_length (h : readTimeParam usParamID e = some data) : data.length ≤ 10 := by
  obtain ⟨⟨len, buffer⟩, -, h⟩ := Option.bind_eq_some_iff.mp h
  dsimp only at h
  split_ifs at h
  · cases h
    exact Nat.zero_le _
  · split at h <;> cases h
    · simp
    · exact Nat.zero_le _

theorem readTimeParam_ne_none_iff
    (hin : e2ParamAppConvertPramIDToGroupIndex usParamID < e2PramIdIndexMax) :
    readTimeParam usParamID e ≠ none ↔
      ∀ value, eepromPramReadPram usParamID e = some value → value.length ≤ 20 := by
  obtain ⟨value, hread⟩ := readPram_of_lt hin e
  simp only [hread, Option.some_inj, forall_eq', readTimeParam, readInto, Option.bind_eq_bind,
    Option.bind_some]
  by_cases hfits : value.length ≤ 20
  · rw [copyIn_of_le (by simpa using hfits) le_rfl]
    refine iff_of_true ?_ hfits
    simp only [Option.map_some, Option.bind_some]
    split_ifs
    · exact Option.some_ne_none _
    · split <;> exact Option.some_ne_none _
  · refine iff_of_false (fun h => h ?_) hfits
    simp [copyIn, hfits]

/-- The IDs with a branch in `E2ParamApp_ReadSpecialParam`. -/
def readSpecialIDs : List ℕ := e2CarTotalMileId :: specialIDs

theorem readSpecialParam_other (h : usParamID ∉ readSpecialIDs) :
    readSpecialParam usParamID d = some [] := by
  simp only [readSpecialIDs, specialIDs, List.mem_cons, List.not_mem_nil, or_false, not_or] at h
  simp [readSpecialParam, h]

theorem convertBufferToShort_of_long {p : List UInt8} {value : ℕ}
    (h : publicConvertBufferToLong p = some value) :
    ∃ short, publicConvertBufferToShort p = some short := by
  match p with
  | [] | [_] | [_, _] | [_, _, _] => simp [publicConvertBufferToLong] at h
  | _ :: _ :: _ :: _ :: _ => exact ⟨_, rfl⟩

theorem le_length_of_convertBufferToLong {p : List UInt8} {value : ℕ}
    (h : publicConvertBufferToLong p = some value) : 4 ≤ p.length := by
  by_contra hshort
  rw [convertBufferToLong_eq_none_iff.mpr (Nat.lt_of_not_le hshort)] at h
  cases h

/-- The branches that read numbers always have a value, of four bytes. -/
theorem readSpecialParam_number (h : usParamID ∈ readSpecialIDs)
    (htime : ∀ q ∈ timeParams, q.1 ≠ usParamID) (hspeed : usParamID ≠ 0xC250) :
    ∃ value, readSpecialParam usParamID d = some (publicConvertLongToBuffer value) := by
  have htwenty : 4 ≤ (List.replicate 20 (0 : UInt8)).length := by decide
  have hread {buffer : List UInt8} {pramID : ℕ} (hbuffer : 4 ≤ buffer.length)
      (hin : e2ParamAppConvertPramIDToGroupIndex pramID < e2PramIdIndexMax ∧
        IsValue (e2ParamAppConvertPramIDToGroupIndex pramID)) :
      ∃ len buffer' old, readInto buffer pramID d.eeprom = some (len, buffer') ∧
        publicConvertBufferToLong buffer' = some old :=
    readInto_value hbuffer hin.1 hin.2 d.eeprom
  simp only [readSpecialIDs, specialIDs, List.mem_cons, List.not_mem_nil, or_false] at h
  simp only [timeParams, List.forall_mem_cons] at htime
  rcases h with rfl | rfl | rfl | rfl | rfl | rfl | rfl | rfl
  · have hmileage : d.fram.bufferRead framVdrMileageLen framVdrMileageAddr =
        some (slice d.fram.chip.cells framVdrMileageAddr framVdrMileageLen) :=
      (d.fram.bufferRead_eq (by decide)).1
    have hlength : 4 ≤ (slice d.fram.chip.cells framVdrMileageAddr framVdrMileageLen).length := by
      rw [slice_length _ _ _ (by rw [d.fram.cells_length]; decide)]
      exact le_rfl
    obtain ⟨value, hvalue⟩ := convertBufferToLong_of_le hlength
    refine ⟨value / 10, ?_⟩
    rw [readSpecialParam, if_pos rfl, hmileage, Option.bind_eq_bind, Option.bind_some, hvalue]
    rfl
  · obtain ⟨len, buffer, speed, hspeed, hlong⟩ := hread htwenty
      (show _ ∧ IsValue (e2ParamAppConvertPramIDToGroupIndex e2MaxSpeedId) by decide +kernel)
    obtain ⟨len', buffer', old, hdvalue, hlong'⟩ := hread (le_length_of_convertBufferToLong hlong)
      (show _ ∧ IsValue (e2ParamAppConvertPramIDToGroupIndex e2SpeedEarlyAlarmDvalueId) by
        decide +kernel)
    obtain ⟨dvalue, hshort⟩ := convertBufferToShort_of_long hlong'
    simp only [readSpecialParam, e2CarTotalMileId, Nat.reduceEqDiff, if_true, if_false,
      hspeed, hlong, hdvalue, hshort, Option.bind_eq_bind, Option.bind_some]
    exact ⟨_, rfl⟩
  · exact absurd rfl htime.1
  · exact absurd rfl htime.2.1
  · obtain ⟨len, buffer, old, htire, hlong⟩ := hread htwenty
      (show _ ∧ IsValue (e2ParamAppConvertPramIDToGroupIndex e2TireEarlyAlarmDvalueId) by
        decide +kernel)
    obtain ⟨temp, hshort⟩ := convertBufferToShort_of_long hlong
    simp only [readSpecialParam, e2CarTotalMileId, Nat.reduceEqDiff, if_true, if_false,
      htire, hshort, Option.bind_eq_bind, Option.bind_some]
    exact ⟨_, rfl⟩
  · exact absurd rfl hspeed
  · obtain ⟨len, buffer, old, hswitch, hlong⟩ := hread htwenty
      (show _ ∧ IsValue (e2ParamAppConvertPramIDToGroupIndex e2ReportFreqEventSwitchId) by
        decide +kernel)
    simp only [readSpecialParam, e2CarTotalMileId, Nat.reduceEqDiff, if_true, if_false,
      hswitch, hlong, Option.bind_eq_bind, Option.bind_some]
    exact ⟨_, rfl⟩
  · exact absurd rfl htime.2.2.1

theorem readSpecialParam_time {q : ℕ × ℕ} (h : q ∈ timeParams) (d : Device) :
    readSpecialParam q.1 d = readTimeParam q.2 d.eeprom := by
  simp only [timeParams, List.mem_cons, List.not_mem_nil, or_false] at h
  rcases h with rfl | rfl | rfl <;> rfl

/-- What is not a stored time is nothing or a number. -/
theorem readSpecialParam_not_time (htime : ∀ q ∈ timeParams, q.1 ≠ usParamID) :
    readSpecialParam usParamID d = some [] ∨
      ∃ value, readSpecialParam usParamID d = some (publicConvertLongToBuffer value) := by
  by_cases hspecial : usParamID ∈ readSpecialIDs
  swap
  · exact .inl (readSpecialParam_other hspecial)
  by_cases hspeed : usParamID = 0xC250
  · exact .inl (by rw [hspeed]; rfl)
  · exact .inr (readSpecialParam_number hspecial htime hspeed)

theorem readSpecialParam_length (h : readSpecialParam usParamID d = some data) :
    data.length ≤ 10 := by
  by_cases htime : ∃ q ∈ timeParams, q.1 = usParamID
  · obtain ⟨q, hq, rfl⟩ := htime
    rw [readSpecialParam_time hq] at h
    exact readTimeParam_length h
  · push Not at htime
    rcases readSpecialParam_not_time htime with hdata | ⟨value, hdata⟩
    all_goals
      rw [hdata] at h
      cases h
      simp

theorem readSpecialParam_ne_none_iff :
    readSpecialParam usParamID d ≠ none ↔ ∀ q ∈ timeParams, q.1 = usParamID → ∀ value,
      eepromPramReadPram q.2 d.eeprom = some value → value.length ≤ 20 := by
  by_cases htime : ∃ q ∈ timeParams, q.1 = usParamID
  · obtain ⟨q, hq, rfl⟩ := htime
    have hdistinct : ∀ q ∈ timeParams, ∀ q' ∈ timeParams, q'.1 = q.1 → q' = q := by decide
    have hin : ∀ q ∈ timeParams, e2ParamAppConvertPramIDToGroupIndex q.2 < e2PramIdIndexMax := by
      decide
    rw [readSpecialParam_time hq, readTimeParam_ne_none_iff (hin q hq)]
    constructor
    · intro h q' hq' hsame
      rwa [hdistinct q hq q' hq' hsame]
    · exact fun h => h q hq rfl
  · push Not at htime
    refine iff_of_true ?_ fun q hq hsame => absurd hsame (htime q hq)
    rcases readSpecialParam_not_time (d := d) htime with hdata | ⟨value, hdata⟩
    all_goals
      rw [hdata]
      exact Option.some_ne_none _

end Data

section Records

variable {d : Device} {pramID readPramID des : ℕ} {dst buffer data : List UInt8} {r : TlvRecord}
  {rs : List TlvRecord}

/-- The data that the record of a parameter carries; a special value comes before the stored
one. -/
def recordData (d : Device) (readPramID pramID : ℕ) : Option (List UInt8) :=
  (readSpecialParam (pramID % 65536) d).bind fun special =>
    if special = [] then eepromPramReadPram readPramID d.eeprom else some special

/-- The IDs that have no place in a reply. -/
def skippedIDs : List ℕ := [e2AllDriverInformationId, e2UpdataUrlId, e2HbIcDriverId]

/-- How long the record of a parameter is. -/
def replySize (d : Device) (readPramID pramID : ℕ) : ℕ :=
  if readPramID ∈ skippedIDs then 0
  else match recordData d readPramID pramID with
  | some (b :: data) => 5 + (b :: data).length
  | _ => 0

def toRecords (pramID : ℕ) (data : List UInt8) : List TlvRecord :=
  if h : data ≠ [] ∧ data.length < 256 ∧ pramID < 2 ^ 32 then [⟨pramID, data, h.2.2, h.2.1⟩]
  else []

/-- The record of a parameter, if it has one. -/
def replyRecords (d : Device) (readPramID pramID : ℕ) : Option (List TlvRecord) :=
  if readPramID ∈ skippedIDs then some []
  else (recordData d readPramID pramID).map (toRecords pramID)

theorem recordData_length (hchecked : ¬ Unchecked readPramID)
    (h : recordData d readPramID pramID = some data) : data.length < 50 := by
  obtain ⟨special, hspecial, h⟩ := Option.bind_eq_some_iff.mp h
  split_ifs at h
  · exact Nat.lt_succ_of_le (readPram_length_le hchecked h)
  · cases h
    exact (readSpecialParam_length hspecial).trans_lt (by decide)

theorem toRecords_of_ne_nil (hdata : data ≠ []) (hlength : data.length < 256)
    (hid : pramID < 2 ^ 32) : toRecords pramID data = [⟨pramID, data, hid, hlength⟩] :=
  dif_pos ⟨hdata, hlength, hid⟩

theorem toRecords_nil (pramID : ℕ) : toRecords pramID [] = [] := dif_neg fun h => h.1 rfl

theorem writeRecord_eq (hbuffer : r.data <+: buffer) :
    writeRecord dst des r.prePramID buffer r.data.length =
      if des + r.bytes.length ≤ dst.length then some (blit dst des r.bytes) else none := by
  obtain ⟨rest, rfl⟩ := hbuffer
  rw [TlvRecord.bytes_length]
  by_cases hfits : des + (5 + r.data.length) ≤ dst.length
  · have hid : des + (publicConvertLongToBuffer r.prePramID).length ≤ dst.length := by
      rw [convertLongToBuffer_length]
      omega
    have hlength := blit_length dst des (publicConvertLongToBuffer r.prePramID) hid
    have hfour : copyIn dst des (publicConvertLongToBuffer r.prePramID) 4 =
        some (blit dst des (publicConvertLongToBuffer r.prePramID)) :=
      copyIn_of_le (by omega) le_rfl
    have hfive := blit_blit dst des (publicConvertLongToBuffer r.prePramID)
      [UInt8.ofNat r.data.length] (by simp; omega)
    have hrecord := blit_blit dst des
      (publicConvertLongToBuffer r.prePramID ++ [UInt8.ofNat r.data.length]) r.data
      (by simp; omega)
    rw [List.append_assoc] at hrecord
    rw [convertLongToBuffer_length] at hfive
    rw [List.length_append, convertLongToBuffer_length, List.length_singleton] at hrecord
    have hdata : des + 5 + r.data.length ≤
        (blit dst des (publicConvertLongToBuffer r.prePramID ++
          [UInt8.ofNat r.data.length])).length := by
      rw [blit_length _ _ _ (by simp; omega)]
      omega
    simp only [writeRecord, hfour, Option.bind_eq_bind, Option.bind_some]
    rw [store_of_lt _ (by omega), hfive, Option.bind_some,
      copyIn_of_le hdata (by simp), List.take_left, hrecord, if_pos hfits]
    rfl
  · rw [if_neg hfits, writeRecord, Option.bind_eq_bind, Option.bind_eq_none_iff]
    intro dst₁ h₁
    rw [Option.bind_eq_none_iff]
    intro dst₂ h₂
    have hlength : dst₂.length = dst.length := (store_length h₂).trans (copyIn_length h₁)
    exact if_neg fun h => hfits (by omega)

theorem message_toRecords_cons {b : UInt8} (hlength : (b :: data).length < 256)
    (hid : pramID < 2 ^ 32) : (message (toRecords pramID (b :: data))).length =
      5 + (b :: data).length := by
  rw [toRecords_of_ne_nil (List.cons_ne_nil b data) hlength hid, message_cons, message_nil,
    List.append_nil, TlvRecord.bytes_length]

theorem readBuffer (h : data.length ≤ 200) :
    ∃ buffer, copyIn (List.replicate 200 (0 : UInt8)) 0 data data.length = some buffer ∧
      data <+: buffer ∧ buffer.length = 200 := by
  have hcopy : copyIn (List.replicate 200 (0 : UInt8)) 0 data data.length =
      some (blit (List.replicate 200 0) 0 data) := by
    rw [copyIn_of_le (by rw [List.length_replicate]; omega) le_rfl, List.take_length]
  refine ⟨_, hcopy, ?_, (copyIn_length hcopy).trans List.length_replicate⟩
  rw [blit, List.take_zero, List.nil_append]
  exact List.prefix_append _ _

theorem readInto_front {value : List UInt8} (hread : eepromPramReadPram readPramID d.eeprom =
    some value) (hfits : value.length ≤ buffer.length) :
    ∃ buffer', readInto buffer readPramID d.eeprom = some (value.length, buffer') ∧
      value <+: buffer' :=
  ⟨_, readInto_of_read hfits hread, List.prefix_append _ _⟩

/-- One parameter: its record, when the buffer has the room, and nothing for a parameter
without data. -/
theorem readOneParam_eq (hskip : readPramID ∉ skippedIDs) (hid : pramID < 2 ^ 32)
    (hdes : des ≤ dst.length) :
    readOneParam readPramID pramID dst des d =
      (replyRecords d readPramID pramID).bind fun rs =>
        if des + (message rs).length ≤ dst.length then
          some ((message rs).length, blit dst des (message rs)) else none := by
  have hchecked : ¬ Unchecked readPramID := fun h => hskip (by
    rcases h with rfl | rfl <;> decide)
  rw [replyRecords, if_neg hskip]
  have hwrite {data buffer : List UInt8} (hlength : data.length < 256) (hne : data ≠ [])
      (hbuffer : data <+: buffer) :
      ((writeRecord dst des pramID buffer data.length).bind fun dst =>
        some (data.length + 5, dst)) =
        if des + (message (toRecords pramID data)).length ≤ dst.length then
          some ((message (toRecords pramID data)).length,
            blit dst des (message (toRecords pramID data))) else none := by
    have hrecord : writeRecord dst des pramID buffer data.length = _ :=
      writeRecord_eq (r := ⟨pramID, data, hid, hlength⟩) hbuffer
    rw [toRecords_of_ne_nil hne hlength hid, message_cons, message_nil, List.append_nil, hrecord]
    split_ifs
    · rw [TlvRecord.bytes_length, Option.bind_some, Nat.add_comm]
    · rfl
  simp only [readOneParam, recordData, Option.bind_eq_bind]
  cases hspecial : readSpecialParam (pramID % 65536) d with
  | none => rfl
  | some special =>
    obtain ⟨buffer, hcopy, hfront, hbuffer⟩ :=
      readBuffer ((readSpecialParam_length hspecial).trans (by decide))
    rw [Option.bind_some, Option.bind_some, hcopy, Option.bind_some]
    by_cases hempty : special = []
    swap
    · rw [if_neg hempty, if_pos (mt List.length_eq_zero_iff.mp hempty), Option.map_some,
        Option.bind_some]
      exact hwrite ((readSpecialParam_length hspecial).trans_lt (by decide)) hempty hfront
    rw [if_pos hempty, if_neg (not_not.mpr (List.length_eq_zero_iff.mpr hempty))]
    cases hread : eepromPramReadPram readPramID d.eeprom with
    | none => rw [readInto, hread]; rfl
    | some value =>
      have hshort := readPram_length_le hchecked hread
      have hfits : value.length ≤ buffer.length := by omega
      obtain ⟨buffer', hinto, hfront'⟩ := readInto_front hread hfits
      rw [hinto, Option.bind_some, Option.map_some, Option.bind_some]
      by_cases hvalue : value = []
      · subst hvalue
        rw [if_neg (fun h => h.1 rfl), toRecords_nil, message_nil, blit_nil]
        exact (if_pos hdes).symm
      · rw [if_pos ⟨mt List.length_eq_zero_iff.mp hvalue, Nat.lt_succ_of_le hshort⟩]
        exact hwrite (by omega) hvalue hfront'

theorem replyRecords_subsingleton (h : replyRecords d readPramID pramID = some rs) :
    rs = [] ∨ ∃ r, rs = [r] ∧ r.prePramID = pramID := by
  rw [replyRecords] at h
  split_ifs at h
  · cases h
    exact .inl rfl
  · obtain ⟨data, -, rfl⟩ := Option.map_eq_some_iff.mp h
    unfold toRecords
    split_ifs
    · exact .inr ⟨_, rfl, rfl⟩
    · exact .inl rfl

theorem replyRecords_size (hid : pramID < 2 ^ 32)
    (h : replyRecords d readPramID pramID = some rs) :
    (message rs).length = replySize d readPramID pramID := by
  rw [replyRecords] at h
  rw [replySize]
  split_ifs at h ⊢ with hskip
  · cases h
    rfl
  · have hchecked : ¬ Unchecked readPramID := fun h => hskip (by
      rcases h with rfl | rfl <;> decide)
    obtain ⟨data, hdata, rfl⟩ := Option.map_eq_some_iff.mp h
    have hlength := recordData_length hchecked hdata
    rw [hdata]
    cases data with
    | nil => rfl
    | cons b data => exact message_toRecords_cons (by omega) hid

end Records

section Invariant

variable {d : Device} {maxlen pramID readPramID : ℕ} {reply : Reply} {rs : List TlvRecord}

/-- The reply holds exactly these records. -/
structure Holds (maxlen : ℕ) (rs : List TlvRecord) (reply : Reply) : Prop where
  capacity : reply.dst.length = maxlen
  des : reply.des = (message rs).length
  length : reply.length = (message rs).length
  paramNum : reply.paramNum = rs.length
  written : reply.dst.take reply.des = message rs

def Fits (maxlen : ℕ) (rs : List TlvRecord) : Prop := (message rs).length ≤ maxlen

theorem fits_of_append (maxlen : ℕ) (rs rs' : List TlvRecord) (h : Fits maxlen (rs ++ rs')) :
    Fits maxlen rs := by
  rw [Fits, message, List.flatMap_append, List.length_append] at h
  exact (Nat.le_add_right _ _).trans h

theorem records_length_le (rs : List TlvRecord) : 5 * rs.length ≤ (message rs).length := by
  induction rs with
  | nil => exact le_rfl
  | cons r rs ih =>
    rw [message_cons, List.length_append, TlvRecord.bytes_length, List.length_cons]
    omega

/-- The next record behind those that the reply holds. -/
theorem Holds.accept (hmax : maxlen ≤ 1000) (h : Holds maxlen rs reply) {rs' : List TlvRecord}
    (hone : rs'.length ≤ 1) (hfits : Fits maxlen (rs ++ rs')) :
    ∃ reply', accept maxlen (message rs').length
        { reply with dst := blit reply.dst reply.des (message rs') } = .continues reply' ∧
      Holds maxlen (rs ++ rs') reply' := by
  have hmessage : message (rs ++ rs') = message rs ++ message rs' := List.flatMap_append
  rw [Fits, hmessage, List.length_append] at hfits
  have hroom : reply.des + (message rs').length ≤ reply.dst.length := by
    rw [h.des, h.capacity]
    exact hfits
  cases rs' with
  | nil =>
    refine ⟨reply, ?_, by rwa [List.append_nil]⟩
    rw [message_nil, blit_nil]
    rfl
  | cons r rs' =>
    have hempty : rs' = [] := by
      rw [← List.length_eq_zero_iff]
      rw [List.length_cons] at hone
      omega
    subst hempty
    have hpositive : (message [r]).length ≠ 0 := by
      have hbytes := records_length_le [r]
      rw [List.length_singleton] at hbytes
      omega
    have hcount := records_length_le rs
    have haccept : E2ParamApp.accept maxlen (message [r]).length
        { reply with dst := blit reply.dst reply.des (message [r]) } =
          .continues ⟨blit reply.dst reply.des (message [r]), reply.des + (message [r]).length,
            int16 (reply.length + (message [r]).length), (reply.paramNum + 1) % 256⟩ := by
      rw [E2ParamApp.accept, if_neg hpositive, if_neg]
      rw [h.length]
      omega
    refine ⟨_, haccept, ?_, ?_, ?_, ?_, ?_⟩
    · exact (blit_length _ _ _ hroom).trans h.capacity
    · rw [hmessage, List.length_append, ← h.des]
    · rw [hmessage, List.length_append, h.length, int16]
      dsimp only
      omega
    · rw [List.length_append, List.length_singleton, h.paramNum]
      dsimp only
      omega
    · rw [hmessage, ← h.written]
      exact take_blit _ _ _ (by omega)

/-- Reading a parameter appends its record to the reply; a record without room leaves the
buffer. -/
theorem readAndAccept_appends (hmax : maxlen ≤ 1000) (hskip : readPramID ∉ skippedIDs)
    (hid : pramID < 2 ^ 32) (hfits : Fits maxlen rs) (h : Holds maxlen rs reply) :
    ∃ result, readAndAccept maxlen d readPramID pramID reply = result.map .continues ∧
      Appends (Holds maxlen) (Fits maxlen) (replyRecords d readPramID pramID) rs result := by
  have hdes : reply.des ≤ reply.dst.length := by
    rw [h.des, h.capacity]
    exact hfits
  simp only [readAndAccept, readOneParam_eq hskip hid hdes, Option.bind_eq_bind]
  cases hrecords : replyRecords d readPramID pramID with
  | none => exact ⟨none, rfl, ⟨fun _ hsome => (nomatch hsome), fun _ => rfl⟩⟩
  | some rs' =>
    have hone : rs'.length ≤ 1 := by
      rcases replyRecords_subsingleton hrecords with rfl | ⟨r, rfl, -⟩ <;> simp
    have hiff : reply.des + (message rs').length ≤ reply.dst.length ↔ Fits maxlen (rs ++ rs') := by
      rw [h.des, h.capacity, Fits, message, message, message, List.flatMap_append,
        List.length_append]
    rw [Option.bind_some]
    by_cases hroom : reply.des + (message rs').length ≤ reply.dst.length
    · obtain ⟨reply', haccept, hholds⟩ := h.accept hmax hone (hiff.mp hroom)
      refine ⟨some reply', ?_, ⟨?_, ?_⟩⟩
      · rw [if_pos hroom, Option.bind_some, Option.map_some, ← haccept]
        rfl
      · rintro _ ⟨⟩ -
        exact ⟨reply', rfl, hholds⟩
      · exact fun hstuck => absurd (hiff.mp hroom) (hstuck rs' rfl)
    · refine ⟨none, by rw [if_neg hroom]; rfl, ⟨?_, fun _ => rfl⟩⟩
      rintro _ ⟨⟩ hroom'
      exact absurd (hiff.mpr hroom') hroom

end Invariant

section Requested

variable {driverInformation : List UInt8} {maxlen : ℕ} {d : Device}

/-- The IDs in a buffer, four bytes each. -/
def requestedIDs : List UInt8 → List ℕ
  | a :: b :: c :: e :: src =>
    (a.toNat * 0x1000000 + b.toNat * 0x10000 + c.toNat * 0x100 + e.toNat) :: requestedIDs src
  | _ => []

theorem requestedIDs_lt (src : List UInt8) : ∀ id ∈ requestedIDs src, id < 2 ^ 32 := by
  induction src using requestedIDs.induct with
  | case1 a b c e src ih =>
    rw [requestedIDs, List.forall_mem_cons]
    have hlong : publicConvertBufferToLong (a :: b :: c :: e :: src) = some _ := rfl
    exact ⟨convertBufferToLong_lt hlong, ih⟩
  | case2 src h =>
    intro id hid
    rw [requestedIDs] at hid
    · cases hid
    · exact h

/-- The loop over the bytes is a loop over the IDs. -/
theorem loop_readRound (src : List UInt8) (hfour : src.length % 4 = 0)
    (hshort : src.length < 32768) (reply : Reply) :
    loop (readRound driverInformation maxlen d) (fun s => s.datalen.toNat)
        (readRound_decreases driverInformation maxlen d) ⟨src, src.length, reply⟩ =
      forEach (readRequested driverInformation maxlen d) (requestedIDs src) reply := by
  induction src using requestedIDs.induct generalizing reply with
  | case1 a b c e src ih =>
    obtain ⟨pramID, hlong, hids⟩ : ∃ pramID,
        publicConvertBufferToLong (a :: b :: c :: e :: src) = some pramID ∧
          requestedIDs (a :: b :: c :: e :: src) = pramID :: requestedIDs src := ⟨_, rfl, rfl⟩
    have hpositive : ((a :: b :: c :: e :: src).length : ℤ) > 0 := by
      rw [List.length_cons]
      omega
    rw [hids, forEach]
    cases hone : readRequested driverInformation maxlen d pramID reply with
    | none =>
      have hround : readRound driverInformation maxlen d
          ⟨a :: b :: c :: e :: src, (a :: b :: c :: e :: src).length, reply⟩ = none := by
        rw [readRound, if_pos hpositive]
        simp only [hlong, hone, Option.bind_eq_bind, Option.bind_some, Option.bind_none]
      exact loop_of_stuck hround
    | some outcome =>
      cases outcome with
      | returns reply' =>
        have hround : readRound driverInformation maxlen d
            ⟨a :: b :: c :: e :: src, (a :: b :: c :: e :: src).length, reply⟩ =
              some (.returns reply') := by
          rw [readRound, if_pos hpositive]
          simp only [hlong, hone, Option.bind_eq_bind, Option.bind_some]
          rfl
        exact loop_of_returns hround
      | continues reply' =>
        simp only [List.length_cons] at hfour hshort
        have hleft : int16 ((a :: b :: c :: e :: src).length - 4) = src.length := by
          simp only [List.length_cons, int16]
          omega
        have hround : readRound driverInformation maxlen d
            ⟨a :: b :: c :: e :: src, (a :: b :: c :: e :: src).length, reply⟩ =
              some (.continues ⟨src, src.length, reply'⟩) := by
          rw [readRound, if_pos hpositive]
          simp only [hlong, hone, hleft, Option.bind_eq_bind, Option.bind_some]
          rfl
        exact (loop_of_continues hround).trans (ih (by omega) (by omega) reply')
  | case2 src h =>
    have hempty : src = [] := by
      rcases src with _ | ⟨a, _ | ⟨b, _ | ⟨c, _ | ⟨e, src⟩⟩⟩⟩
      · rfl
      · simp at hfour
      · simp at hfour
      · simp at hfour
      · exact absurd rfl (h a b c e src)
    subst hempty
    exact loop_of_returns rfl

theorem timeParams_index {pramID : ℕ} {q : ℕ × ℕ} (hq : q ∈ timeParams)
    (hsame : q.1 = pramID % 65536) : convertPramID pramID ∉ skippedIDs := by
  have hnot : ∀ q ∈ timeParams,
      convertSuomeiPramID (convertOldSelfDefinePramID q.1) ∉ skippedIDs := by decide
  rw [convertPramID, ← hsame]
  exact hnot q hq

/-- A parameter has a record, or nothing to send, exactly when it resolves. -/
theorem replyRecords_ne_none_iff {pramID : ℕ} :
    replyRecords d (convertPramID pramID) pramID ≠ none ↔ Resolves d pramID := by
  rw [replyRecords]
  by_cases hskip : convertPramID pramID ∈ skippedIDs
  · rw [if_pos hskip]
    have hin : ∀ id ∈ skippedIDs, e2ParamAppConvertPramIDToGroupIndex id < e2PramIdIndexMax := by
      decide
    exact iff_of_true (Option.some_ne_none _)
      ⟨hin _ hskip, fun q hq hsame => absurd hskip (timeParams_index hq hsame)⟩
  rw [if_neg hskip, ne_eq, Option.map_eq_none_iff, recordData]
  cases hspecial : readSpecialParam (pramID % 65536) d with
  | none =>
    refine iff_of_false (fun h => h rfl) fun h => ?_
    exact readSpecialParam_ne_none_iff.mpr h.time hspecial
  | some special =>
    have htime := readSpecialParam_ne_none_iff.mp (by rw [hspecial]; exact Option.some_ne_none _)
    rw [Option.bind_some]
    by_cases hempty : special = []
    · rw [if_pos hempty, ← ne_eq, readPram_ne_none_iff]
      exact ⟨fun hin => ⟨hin, htime⟩, Resolves.inTable⟩
    · rw [if_neg hempty]
      refine iff_of_true (Option.some_ne_none _) ⟨?_, htime⟩
      have hread : pramID % 65536 ∈ readSpecialIDs := by
        by_contra hother
        rw [readSpecialParam_other hother] at hspecial
        exact hempty (Option.some.inj hspecial).symm
      have hin : ∀ id ∈ readSpecialIDs, e2ParamAppConvertPramIDToGroupIndex
          (convertSuomeiPramID (convertOldSelfDefinePramID id)) < e2PramIdIndexMax := by decide
      exact hin _ hread

end Requested

section WellFormed

variable {driverInformation : List UInt8} {readType : ℕ} {d : Device} {dst : List UInt8}
  {readID : ℕ → ℕ} {requested : List ℕ} {result : Option Reply}

/-- These are the bytes that `E2ParamApp_ReadOneParam` writes wherever it has the room. -/
def Produces (d : Device) (readPramID pramID : ℕ) (bytes : List UInt8) : Prop :=
  ∀ dst des, des + bytes.length ≤ dst.length →
    readOneParam readPramID pramID dst des d = some (bytes.length, blit dst des bytes)

/-- The buffer begins with the counted records, for some of the requested IDs in their order,
each as it is read alone. -/
structure WellFormed (maxlen : ℕ) (readID : ℕ → ℕ) (requested : List ℕ) (d : Device)
    (paramNum : ℕ) (dstBufferLen : ℤ) (dst : List UInt8) : Prop where
  withinCapacity : dstBufferLen ≤ maxlen
  parses : ∃ rs : List TlvRecord, dstBufferLen = (message rs).length ∧
    dst.take (message rs).length = message rs ∧ rs.length = paramNum ∧
      (rs.map TlvRecord.prePramID).Sublist requested ∧
        ∀ r ∈ rs, Produces d (readID r.prePramID) r.prePramID r.bytes

/-- There is a reply, so that no byte outside its buffer is written, and it is well formed. -/
def RepliesWell (maxlen : ℕ) (readID : ℕ → ℕ) (requested : List ℕ) (d : Device)
    (result : Option (ℕ × ℤ × List UInt8)) : Prop :=
  ∃ paramNum dstBufferLen dst, result = some (paramNum, dstBufferLen, dst) ∧
    WellFormed maxlen readID requested d paramNum dstBufferLen dst

theorem produces_of_replyRecords {pramID readPramID : ℕ} {rs : List TlvRecord} {r : TlvRecord}
    (hid : pramID < 2 ^ 32) (h : replyRecords d readPramID pramID = some rs) (hr : r ∈ rs) :
    Produces d readPramID r.prePramID r.bytes := by
  have hskip : readPramID ∉ skippedIDs := by
    intro hskip
    rw [replyRecords, if_pos hskip] at h
    cases h
    cases hr
  intro dst des hroom
  rcases replyRecords_subsingleton h with rfl | ⟨r', rfl, hsame⟩
  · cases hr
  · rw [List.mem_singleton] at hr
    subst hr hsame
    rw [readOneParam_eq hskip hid (by omega), h, Option.bind_some, message_cons, message_nil,
      List.append_nil, if_pos hroom]

/-- When the loops append the records of the requested IDs, the reply is well formed exactly
when all of them resolve and their records have room. -/
theorem repliesWell_iff_of_appends {maxlen : ℕ} (hids : ∀ id ∈ requested, id < 2 ^ 32)
    (h : Appends (Holds maxlen) (Fits maxlen)
      (collect (fun id => replyRecords d (readID id) id) requested) [] result) :
    RepliesWell maxlen readID requested d
        (result.map fun reply => (reply.paramNum, reply.length, reply.dst)) ↔
      (∀ id ∈ requested, replyRecords d (readID id) id ≠ none) ∧
        (requested.map fun id => replySize d (readID id) id).sum ≤ maxlen := by
  have hmeasure {rs : List TlvRecord}
      (hrs : collect (fun id => replyRecords d (readID id) id) requested = some rs) :
      (message rs).length = (requested.map fun id => replySize d (readID id) id).sum := by
    have hsize : ∀ id ∈ requested, ∀ rs, replyRecords d (readID id) id = some rs →
        (message rs).length = replySize d (readID id) id :=
      fun id hid rs hrs => replyRecords_size (hids id hid) hrs
    have happend (rs rs' : List TlvRecord) : (message (rs ++ rs')).length =
        (message rs).length + (message rs').length := by
      rw [message, List.flatMap_append, List.length_append]
      rfl
    exact collect_measure (fun rs => (message rs).length) rfl happend hsize hrs
  constructor
  · rintro ⟨paramNum, dstBufferLen, dst, hresult, -⟩
    have hsome : ∃ rs, collect (fun id => replyRecords d (readID id) id) requested = some rs ∧
        Fits maxlen ([] ++ rs) := by
      by_contra hstuck
      push Not at hstuck
      rw [h.stuck hstuck] at hresult
      cases hresult
    obtain ⟨rs, hrs, hfits⟩ := hsome
    refine ⟨collect_ne_none_iff.mp (by rw [hrs]; exact Option.some_ne_none rs), ?_⟩
    rw [← hmeasure hrs]
    exact hfits
  · rintro ⟨hall, htotal⟩
    obtain ⟨rs, hrs⟩ := Option.ne_none_iff_exists'.mp (collect_ne_none_iff.mpr hall)
    obtain ⟨reply, rfl, hholds⟩ := h.done rs hrs ((hmeasure hrs).trans_le htotal)
    rw [List.nil_append] at hholds
    refine ⟨_, _, _, rfl, ?_, rs, hholds.length, ?_, hholds.paramNum.symm, ?_, ?_⟩
    · rw [hholds.length]
      exact_mod_cast (hmeasure hrs).trans_le htotal
    · rw [← hholds.des]
      exact hholds.written
    · refine collect_sublist (fun id hid rs' hrs' => ?_) hrs
      rcases replyRecords_subsingleton hrs' with rfl | ⟨r, rfl, hsame⟩
      · exact List.nil_sublist _
      · rw [List.map_singleton, hsame]
    · intro r hr
      obtain ⟨id, hid, rs', hrs', hmem⟩ := mem_of_mem_collect hrs hr
      have hsame : r.prePramID = id := by
        rcases replyRecords_subsingleton hrs' with rfl | ⟨r', rfl, hsame⟩
        · cases hmem
        · rw [List.mem_singleton.mp hmem, hsame]
      rw [hsame]
      have hproduces := produces_of_replyRecords (hids id hid) hrs' hmem
      rwa [hsame] at hproduces

theorem maxlenOf_le (readType : ℕ) : maxlenOf readType ≤ 1000 := by
  unfold maxlenOf
  split_ifs <;> decide

theorem holds_nil (hdst : dst.length = maxlenOf readType) :
    Holds (maxlenOf readType) [] ⟨dst, 0, 0, 0⟩ := ⟨hdst, rfl, rfl, rfl, List.take_zero⟩

theorem readRequested_appends {pramID : ℕ} {reply : Reply} {rs : List TlvRecord}
    (hdriver : convertPramID pramID ≠ e2AllDriverInformationId) (hid : pramID < 2 ^ 32)
    (hfits : Fits (maxlenOf readType) rs) (h : Holds (maxlenOf readType) rs reply) :
    ∃ result, readRequested driverInformation (maxlenOf readType) d pramID reply =
        result.map .continues ∧
      Appends (Holds (maxlenOf readType)) (Fits (maxlenOf readType))
        (replyRecords d (convertPramID pramID) pramID) rs result := by
  simp only [readRequested, hdriver, if_false]
  by_cases hskip : convertPramID pramID ≠ e2UpdataUrlId ∧ convertPramID pramID ≠ e2HbIcDriverId
  · rw [if_pos hskip]
    exact readAndAccept_appends (maxlenOf_le _) (by simp [skippedIDs, hdriver, hskip]) hid hfits h
  · rw [if_neg hskip]
    have hmem : convertPramID pramID ∈ skippedIDs := by
      simp only [skippedIDs, List.mem_cons, List.not_mem_nil, or_false, hdriver, false_or]
      tauto
    refine ⟨some reply, rfl, ?_⟩
    rw [replyRecords, if_pos hmem]
    exact appends_nil h hfits

theorem readSystemDefined_appends {pramID : ℕ} {reply : Reply} {rs : List TlvRecord}
    (hid : pramID ∈ systemDefinedIDs) (hfits : Fits (maxlenOf readType) rs)
    (h : Holds (maxlenOf readType) rs reply) :
    ∃ result, readSystemDefined (maxlenOf readType) d pramID reply = result.map .continues ∧
      Appends (Holds (maxlenOf readType)) (Fits (maxlenOf readType)) (replyRecords d pramID pramID)
        rs result := by
  have hlow : pramID < 0x118 := by
    rw [systemDefinedIDs, List.mem_range'_1, e2SystemDefineIdMax] at hid
    omega
  have hskip : pramID ∉ skippedIDs := by
    simp only [skippedIDs, List.mem_cons, List.not_mem_nil, or_false, e2AllDriverInformationId,
      e2UpdataUrlId, e2HbIcDriverId]
    omega
  exact readAndAccept_appends (maxlenOf_le _) hskip (by omega) hfits h

theorem readSelfDefined_appends {readParamID : ℕ} {reply : Reply} {rs : List TlvRecord}
    (hid : readParamID ∈ selfDefinedIDs) (hfits : Fits (maxlenOf readType) rs)
    (h : Holds (maxlenOf readType) rs reply) :
    ∃ result, readSelfDefined (maxlenOf readType) d readParamID reply = result.map .continues ∧
      Appends (Holds (maxlenOf readType)) (Fits (maxlenOf readType))
        (replyRecords d readParamID readParamID) rs result := by
  have hshort : readParamID < 65536 := by
    rw [selfDefinedIDs, List.mem_range'_1, e2PramBaseCustomId, e2SelfDefineIdMax] at hid
    omega
  rw [readSelfDefined, convertTranPramID, Nat.mod_eq_of_lt hshort]
  by_cases hskip : readParamID ∈ skippedIDs
  · rw [if_neg (by simpa [skippedIDs, or_iff_not_imp_left] using hskip), replyRecords,
      if_pos hskip]
    exact ⟨some reply, rfl, appends_nil h hfits⟩
  · rw [if_pos (by simpa [skippedIDs] using hskip)]
    exact readAndAccept_appends (maxlenOf_le _) hskip (by omega) hfits h

theorem enumerated_resolve : ∀ id ∈ systemDefinedIDs ++ selfDefinedIDs,
    convertPramID id = id ∧ e2ParamAppConvertPramIDToGroupIndex id < e2PramIdIndexMax ∧
      ∀ q ∈ timeParams, q.1 ≠ id % 65536 := by decide +kernel

theorem enumerated_lt : ∀ id ∈ systemDefinedIDs ++ selfDefinedIDs, id < 2 ^ 32 := by
  intro id hid
  simp only [systemDefinedIDs, selfDefinedIDs, List.mem_append, List.mem_range'_1,
    e2SystemDefineIdMax, e2PramBaseCustomId, e2SelfDefineIdMax] at hid
  omega

theorem disposeReadParam_repliesWell_iff (hdst : dst.length = maxlenOf readType)
    {pIDBuffer : List UInt8} (hfour : pIDBuffer.length % 4 = 0) (hshort : pIDBuffer.length < 32768)
    (hdriver : ∀ id ∈ requestedIDs pIDBuffer, convertPramID id ≠ e2AllDriverInformationId) :
    RepliesWell (maxlenOf readType) convertPramID (requestedIDs pIDBuffer) d
        (disposeReadParam driverInformation d dst pIDBuffer pIDBuffer.length readType) ↔
      (∀ id ∈ requestedIDs pIDBuffer, Resolves d id) ∧
        ((requestedIDs pIDBuffer).map fun id => replySize d (convertPramID id) id).sum ≤
          maxlenOf readType := by
  have hempty : Fits (maxlenOf readType) [] := Nat.zero_le _
  have hids := requestedIDs_lt pIDBuffer
  have hbody : ∀ id ∈ requestedIDs pIDBuffer, ∀ rs reply, Fits (maxlenOf readType) rs →
      Holds (maxlenOf readType) rs reply → ∃ result,
        readRequested driverInformation (maxlenOf readType) d id reply =
          result.map .continues ∧
        Appends (Holds (maxlenOf readType)) (Fits (maxlenOf readType))
          (replyRecords d (convertPramID id) id) rs result :=
    fun id hid rs reply => readRequested_appends (hdriver id hid) (hids id hid)
  have happends := appends_forEach (fits_of_append (maxlenOf readType)) hbody hempty
    (holds_nil hdst)
  rw [← loop_readRound pIDBuffer hfour hshort] at happends
  rw [disposeReadParam, repliesWell_iff_of_appends hids happends]
  simp only [replyRecords_ne_none_iff]

theorem disposeReadAllParam_repliesWell_iff (hdst : dst.length = maxlenOf readType) :
    RepliesWell (maxlenOf readType) id (systemDefinedIDs ++ selfDefinedIDs) d
        (disposeReadAllParam d dst readType) ↔
      ((systemDefinedIDs ++ selfDefinedIDs).map fun id => replySize d id id).sum ≤
        maxlenOf readType := by
  have hempty : Fits (maxlenOf readType) [] := Nat.zero_le _
  have hsystem : Appends (Holds (maxlenOf readType)) (Fits (maxlenOf readType))
      (collect (fun id => replyRecords d id id) systemDefinedIDs) []
        (forEach (readSystemDefined (maxlenOf readType) d) systemDefinedIDs ⟨dst, 0, 0, 0⟩) :=
    appends_forEach (fits_of_append (maxlenOf readType))
      (fun id hid rs reply => readSystemDefined_appends hid) hempty (holds_nil hdst)
  have hself (rs : List TlvRecord) (reply : Reply) (hfits : Fits (maxlenOf readType) rs)
      (hholds : Holds (maxlenOf readType) rs reply) :
      Appends (Holds (maxlenOf readType)) (Fits (maxlenOf readType))
        (collect (fun id => replyRecords d id id) selfDefinedIDs) rs
          (forEach (readSelfDefined (maxlenOf readType) d) selfDefinedIDs reply) :=
    appends_forEach (fits_of_append (maxlenOf readType))
      (fun id hid rs reply => readSelfDefined_appends hid) hfits hholds
  have happends := hsystem.bind (fits_of_append (maxlenOf readType)) fun rs reply => hself _ reply
  rw [← collect_append] at happends
  have hall : ∀ id ∈ systemDefinedIDs ++ selfDefinedIDs, replyRecords d id id ≠ none := by
    intro id hid
    obtain ⟨hsame, hin, htime⟩ := enumerated_resolve id hid
    have hresolves : Resolves d id :=
      ⟨by rwa [hsame], fun q hq heq => absurd heq (htime q hq)⟩
    rw [← replyRecords_ne_none_iff, hsame] at hresolves
    exact hresolves
  have hmain := repliesWell_iff_of_appends enumerated_lt happends
  rw [and_iff_right hall, Option.map_bind] at hmain
  have hrun : disposeReadAllParam d dst readType =
      (forEach (readSystemDefined (maxlenOf readType) d) systemDefinedIDs ⟨dst, 0, 0, 0⟩).bind
        ((Option.map fun reply => (reply.paramNum, reply.length, reply.dst)) ∘
          forEach (readSelfDefined (maxlenOf readType) d) selfDefinedIDs) := by
    simp only [disposeReadAllParam, Option.bind_eq_bind, Function.comp_def,
      Option.map_eq_bind]
    rfl
  rw [hrun]
  exact hmain

/-- Both kinds of reply: no write behind the capacity and a well-formed reply, exactly when
every ID resolves and the records of all of them have room. -/
theorem replies_wellFormed_iff (hdst : dst.length = maxlenOf readType)
    (driverInformation : List UInt8) (d : Device) :
    (∀ pIDBuffer : List UInt8, pIDBuffer.length % 4 = 0 → pIDBuffer.length < 32768 →
      (∀ id ∈ requestedIDs pIDBuffer, convertPramID id ≠ e2AllDriverInformationId) →
        (RepliesWell (maxlenOf readType) convertPramID (requestedIDs pIDBuffer) d
            (disposeReadParam driverInformation d dst pIDBuffer pIDBuffer.length readType) ↔
          (∀ id ∈ requestedIDs pIDBuffer, Resolves d id) ∧
            ((requestedIDs pIDBuffer).map fun id => replySize d (convertPramID id) id).sum ≤
              maxlenOf readType)) ∧
      (RepliesWell (maxlenOf readType) id (systemDefinedIDs ++ selfDefinedIDs) d
          (disposeReadAllParam d dst readType) ↔
        ((systemDefinedIDs ++ selfDefinedIDs).map fun id => replySize d id id).sum ≤
          maxlenOf readType) :=
  ⟨fun _ hfour hshort hdriver => disposeReadParam_repliesWell_iff hdst hfour hshort hdriver,
    disposeReadAllParam_repliesWell_iff hdst⟩

end WellFormed

theorem replies_wellFormed_heartbeat :
    RepliesWell 550 convertPramID [1] blankDevice
        (disposeReadParam [] blankDevice (List.replicate 550 0) [0, 0, 0, 1] 4 0) ↔
      (∀ id ∈ [1], Resolves blankDevice id) ∧
        ([1].map fun id => replySize blankDevice (convertPramID id) id).sum ≤ 550 :=
  have hdst : (List.replicate 550 (0 : UInt8)).length = maxlenOf 0 := List.length_replicate
  (replies_wellFormed_iff hdst [] blankDevice).1 [0, 0, 0, 1] (by decide) (by decide) (by decide)

/-- The mileage, requested as often as the reply has room for it and once more. -/
theorem not_replies_wellFormed :
    ¬ ∀ (driverInformation : List UInt8) (d : Device) (dst pIDBuffer : List UInt8) (readType : ℕ),
      dst.length = maxlenOf readType → pIDBuffer.length % 4 = 0 → pIDBuffer.length < 32768 →
        (∀ id ∈ requestedIDs pIDBuffer, convertPramID id ≠ e2AllDriverInformationId) →
          RepliesWell (maxlenOf readType) convertPramID (requestedIDs pIDBuffer) d
            (disposeReadParam driverInformation d dst pIDBuffer pIDBuffer.length readType) := by
  intro h
  have hdst : (List.replicate 550 (0 : UInt8)).length = maxlenOf 0 := List.length_replicate
  have hfour : (List.replicate 62 [(0 : UInt8), 0, 0, 0x80]).flatten.length % 4 = 0 := by
    decide +kernel
  have hshort : (List.replicate 62 [(0 : UInt8), 0, 0, 0x80]).flatten.length < 32768 := by
    decide +kernel
  have hdriver : ∀ id ∈ requestedIDs (List.replicate 62 [(0 : UInt8), 0, 0, 0x80]).flatten,
      convertPramID id ≠ e2AllDriverInformationId := by decide +kernel
  have hroom := ((disposeReadParam_repliesWell_iff hdst hfour hshort hdriver).mp
    (h [] blankDevice _ _ 0 hdst hfour hshort hdriver)).2
  exact absurd hroom (by decide +kernel)

end VehicleTerminal.E2ParamApp
