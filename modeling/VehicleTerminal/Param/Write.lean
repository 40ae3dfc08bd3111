import VehicleTerminal.Library.Iteration
import VehicleTerminal.Param.Special

/-! The parser of a set-parameter message, `E2ParamApp_DisposeWriteParam`. Memory is the list
of bytes from the current pointer on; an access behind its end, or behind the end of the
local array that a parameter is read back into, leaves a function without result. -/
namespace VehicleTerminal.E2ParamApp
open ByteStore BlockMemory MachineInt EepromPram InputPrefix PartialLoop

section Identifiers

def e2MainServerIpId : ℕ := 0x13

def e2BackupServerIpId : ℕ := 0x17

def e2MainServerTcpPortId : ℕ := 0x18

def e2MainServerUdpPortId : ℕ := 0x19

def e2TimePhotoControlId : ℕ := 0x64

def e2MilePhotoControlId : ℕ := 0x65

def e2CarProvinceId : ℕ := 0x81

def e2CarCityId : ℕ := 0x82

def e2CarPlateNumId : ℕ := 0x83

def e2CarPlateColorId : ℕ := 0x84

def e2LogingprsPasswordId : ℕ := 0xF200

def e2DeviceId : ℕ := 0xF206

def e2DevicePhoneId : ℕ := 0xF207

def e2DevicePhoneBackupId : ℕ := 0xF225

def e2DeviceBackupId : ℕ := 0xF22A

def e2CdmaSleepId : ℕ := 0xF22B

def e2HbIcDriverId : ℕ := 0xF235

def e2ResumeNousedId : ℕ := 0xF238

def e2CarOnlyNumId : ℕ := 0xF242

def e2SecondMainServerIpId : ℕ := 0xF284

def e2SecondMainServerTcpPortId : ℕ := 0xF285

def e2SecondMainServerUdpPortId : ℕ := 0xF286

def e2SecondLogingprsPasswordId : ℕ := 0xF288

def e2TimePhotoControlBackupAddr : ℕ := 4082

def e2MilePhotoControlBackupAddr : ℕ := 4086

def framParameterTimePhotoChannelAddr : ℕ := 58

def framParameterTimePhotoChannelLen : ℕ := 1

def framParameterDistancePhotoChannelAddr : ℕ := 60

def framParameterDistancePhotoChannelLen : ℕ := 1

end Identifiers

inductive ProtocolACK
  | ackOk
  | ackError
  deriving DecidableEq

/-- What the parser takes from elsewhere: the channel numbers, the two test modes, the
certificate number, how the authorization code of a channel is cleared, what the storing of
driver information does with a record of the given length (nothing, when it reads behind the
memory), and what is left after all stored data are erased and the defaults restored. -/
structure Environment where
  channelData1 : ℕ
  channelData2 : ℕ
  bbxyTestFlag : ℕ
  bbgnTestFlag : ℕ
  recorderCCCID : List UInt8
  recorderCCCID_length : recorderCCCID.length = 7
  clearTerminalAuthorizationCode : ℕ → Eeprom → Eeprom
  driverInfoDisposeRadioProtocol : List UInt8 → ℕ → Device → Option Device
  resumeNoused : Device → Device

section Checks

/-- The loop over the digits: 1 at the first byte with a nibble above 9. -/
def checkNibbles : ℕ → List UInt8 → Option ℕ
  | 0, _ => some 0
  | _ + 1, [] => none
  | k + 1, b :: p => if b >>> 4 > 9 ∨ b &&& 0x0f > 9 then some 1 else checkNibbles k p

/-- 0 for six BCD bytes and for any six bytes that begin with 0, 30. -/
def checkPhoneFormatData (data : List UInt8) (datalen : ℕ) : Option ℕ :=
  if datalen ≠ 6 then some 1
  else do
    let first ← data[0]?
    if first = 0 then
      let second ← data[1]?
      if second = 30 then some 0 else checkNibbles datalen data
    else checkNibbles datalen data

/-- 0 when `array1` begins with the bytes of `array`; stops at the first difference. -/
def publicCheckArrayValIsEqual : List UInt8 → List UInt8 → Option ℕ
  | [], _ => some 0
  | _ :: _, [] => none
  | a :: array, b :: array1 => if a ≠ b then some 1 else publicCheckArrayValIsEqual array array1

end Checks

section Record

variable (env : Environment)

/-- The authorization codes that a new value makes invalid, unless a test mode keeps them. -/
def clearAuthorization (pramID : ℕ) (e : Eeprom) : Eeprom :=
  if env.bbxyTestFlag = 1 ∨ env.bbgnTestFlag = 1 then e
  else if pramID = e2MainServerIpId ∨ pramID = e2MainServerUdpPortId ∨
      pramID = e2MainServerTcpPortId ∨ pramID = e2BackupServerIpId then
    env.clearTerminalAuthorizationCode env.channelData1 e
  else if pramID = e2SecondMainServerIpId ∨ pramID = e2SecondMainServerTcpPortId ∨
      pramID = e2SecondMainServerUdpPortId then
    env.clearTerminalAuthorizationCode env.channelData2 e
  else if pramID = e2CarProvinceId ∨ pramID = e2CarCityId ∨ pramID = e2DeviceId ∨
      pramID = e2CarPlateNumId ∨ pramID = e2CarPlateColorId then
    env.clearTerminalAuthorizationCode env.channelData2
      (env.clearTerminalAuthorizationCode env.channelData1 e)
  else e

/-- Four bytes and their sum, whatever the length of the record. -/
def writePhotoBackup (address : ℕ) (p : List UInt8) (e : Eeprom) : Option Eeprom :=
  (copyOut p 0 4).map fun data => writeBytes e address (data ++ [sumCheck data])

/-- What a new value of one of six parameters brings about besides. -/
def afterWrite (channel pramID : ℕ) (p : List UInt8) (pramLen : ℕ) (d : Device) :
    Option Device :=
  if pramID = e2DevicePhoneId then do
    let (_, e) ← eepromPramWritePram e2DevicePhoneBackupId p pramLen d.eeprom
    return { d with eeprom := e }
  else if pramID = e2DeviceId then do
    let (_, e) ← eepromPramWritePram e2DeviceBackupId p pramLen d.eeprom
    return { d with eeprom := e }
  else if pramID = e2TimePhotoControlId then do
    let fram ← (if channel = env.channelData1 ∨ channel = env.channelData2 then
        d.fram.bufferWrite framParameterTimePhotoChannelAddr [UInt8.ofNat channel]
          framParameterTimePhotoChannelLen
      else some d.fram)
    let e ← writePhotoBackup e2TimePhotoControlBackupAddr p d.eeprom
    return { d with eeprom := e, fram := fram }
  else if pramID = e2MilePhotoControlId then do
    let fram ← d.fram.bufferWrite framParameterDistancePhotoChannelAddr [UInt8.ofNat channel]
      framParameterDistancePhotoChannelLen
    let e ← writePhotoBackup e2MilePhotoControlBackupAddr p d.eeprom
    return { d with eeprom := e, fram := fram }
  else if pramID = e2CdmaSleepId then some { d with delayAckCommand := 4 }
  else if pramID = e2ResumeNousedId then do
    let first ← p[0]?
    let d := if first ≠ 0 then env.resumeNoused d else d
    return { d with delayAckCommand := 5 }
  else some d

/-- The parameter just written is read into 30 bytes and compared with the record. -/
def readBack (pramID : ℕ) (p : List UInt8) (e : Eeprom) : Option ProtocolACK := do
  let (readLen, buffer) ← readInto (List.replicate 30 0) pramID e
  let differs ← publicCheckArrayValIsEqual (buffer.take readLen) p
  return if differs = 0 then .ackOk else .ackError

/-- The part that is done when nothing has raised the flag. -/
def storeParam (channel pramID : ℕ) (p : List UInt8) (pramLen : ℕ) (d : Device) :
    Option (ProtocolACK × Device) := do
  let (_, e) ← eepromPramWritePram pramID p pramLen d.eeprom
  let d ← afterWrite env channel pramID p pramLen
    { d with eeprom := clearAuthorization env pramID e }
  if pramLen < 30 then
    let ack ← readBack pramID p d.eeprom
    return (ack, d)
  else return (.ackOk, d)

/-- The unique number of a vehicle always begins with the certificate number, which is
copied into the message itself. -/
def forceCCCID (pramID : ℕ) (p : List UInt8) : Option (List UInt8) :=
  if pramID = e2CarOnlyNumId then copyIn p 0 env.recorderCCCID 7 else some p

/-- The entry exists and takes this many bytes. -/
def Recognized (pramID pramLen : ℕ) : Prop :=
  e2ParamAppConvertPramIDToGroupIndex pramID ≠ 0 ∧
    e2ParamAppConvertPramIDToGroupIndex pramID < e2PramIdIndexMax ∧
    pramLen ≤ lengthOf (e2ParamAppConvertPramIDToGroupIndex pramID)

instance (pramID pramLen : ℕ) : Decidable (Recognized pramID pramLen) :=
  inferInstanceAs (Decidable (_ ∧ _ ∧ _))

/-- The two IDs whose records are not for the EEPROM. -/
def IsDriverInformation (pramID : ℕ) : Prop :=
  pramID = e2AllDriverInformationId ∨ pramID = e2HbIcDriverId

instance (pramID : ℕ) : Decidable (IsDriverInformation pramID) :=
  inferInstanceAs (Decidable (_ ∨ _))

/-- Driver information is handed to the module that keeps it. -/
def disposeDriverInformation (pramID : ℕ) (p : List UInt8) (pramLen : ℕ) (d : Device) :
    Option Device :=
  if pramID = e2AllDriverInformationId then env.driverInfoDisposeRadioProtocol p pramLen d
  else some d

/-- Only the format of a phone number is checked. -/
def checkFormat (pramID : ℕ) (p : List UInt8) (pramLen flag : ℕ) : Option ℕ :=
  if pramID = e2DevicePhoneId then checkPhoneFormatData p pramLen else some flag

/-- A record whose ID and length are accepted. -/
def disposeRecognized (channel pramID : ℕ) (p : List UInt8) (pramLen flag : ℕ) (d : Device) :
    Option (ProtocolACK × List UInt8 × Device) := do
  let flag ← checkFormat pramID p pramLen flag
  let p ← forceCCCID env pramID p
  if flag = 0 then
    let (ack, d) ← storeParam env channel pramID p pramLen d
    return (ack, p, d)
  else return (.ackOk, p, d)

/-- One record, `p` being the memory from its data on; other records are skipped. -/
def disposeRecord (channel prePramID : ℕ) (p : List UInt8) (pramLen : ℕ) (d : Device) :
    Option (ProtocolACK × List UInt8 × Device) := do
  let pramID := convertPramID prePramID
  let (_, e) ← writeSpecialParam (prePramID % 65536) p pramLen d.eeprom
  let d ← disposeDriverInformation env pramID p pramLen { d with eeprom := e }
  let flag := if IsDriverInformation pramID then 1 else 0
  if Recognized pramID pramLen then
    disposeRecognized env channel pramID p pramLen flag d
  else return (.ackOk, p, d)

end Record

section Loop

/-- The pointer as the memory it points to, the signed 16-bit count of bytes left, and the
device. -/
structure Parser where
  p : List UInt8
  length : ℤ
  device : Device

variable (env : Environment) (channel : ℕ)

/-- The body of the loop. -/
def round (s : Parser) : Option (Outcome Parser (ProtocolACK × Device)) :=
  if s.length > 0 then do
    let prePramID ← publicConvertBufferToLong s.p
    let pramLen ← s.p[4]?
    let (ack, p, d) ← disposeRecord env channel prePramID (s.p.drop 5) pramLen.toNat s.device
    match ack with
    | .ackError => return .returns (.ackError, d)
    | .ackOk =>
      return .continues ⟨p.drop pramLen.toNat, int16 (s.length - 4 - 1 - pramLen.toNat), d⟩
  else some (.returns (.ackOk, s.device))

theorem round_decreases : Decreases (round env channel) fun s => s.length.toNat := by
  intro s s' h
  rw [Continues, round] at h
  split_ifs at h with hlength
  · simp only [Option.bind_eq_bind, Option.bind_eq_some_iff] at h
    obtain ⟨prePramID, -, pramLen, -, ⟨ack, p, d⟩, -, h⟩ := h
    have hbyte := pramLen.toNat_lt
    cases ack with
    | ackError => cases h
    | ackOk =>
      cases h
      simp only [int16]
      omega
  · cases h

/-- `bufferLen` is an unsigned 16-bit number that the parser counts down as a signed one. -/
def disposeWriteParam (pBuffer : List UInt8) (bufferLen : ℕ) (d : Device) :
    Option (ProtocolACK × Device) :=
  loop (round env channel) (fun s => s.length.toNat) (round_decreases env channel)
    ⟨pBuffer, int16 bufferLen, d⟩

end Loop

end VehicleTerminal.E2ParamApp
