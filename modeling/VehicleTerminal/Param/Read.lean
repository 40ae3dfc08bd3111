import VehicleTerminal.Library.Collecting
import VehicleTerminal.Param.Write

/-! The replies to a request for parameters, `E2ParamApp_DisposeReadParam` for listed IDs and
`E2ParamApp_DisposeReadAllParam` for all of them. The buffer of the reply is as long as the
capacity of the reply, so that a write behind the capacity leaves a function without
result. -/
namespace VehicleTerminal.E2ParamApp
open ByteStore BlockMemory MachineInt EepromPram PartialLoop

def e2SelfDefineIdMax : ℕ := 0xF29E

section Record

/-- An ID, a length byte and the first `pramLen` bytes of `buffer`, written at `des`. -/
def writeRecord (dst : List UInt8) (des pramID : ℕ) (buffer : List UInt8) (pramLen : ℕ) :
    Option (List UInt8) := do
  let dst ← copyIn dst des (publicConvertLongToBuffer pramID) 4
  let dst ← store dst (des + 4) (UInt8.ofNat pramLen)
  copyIn dst (des + 5) buffer pramLen

/-- Returns how many bytes it has written at `des`, and the buffer of the reply. A special
parameter without a value of its own is looked up like the others. -/
def readOneParam (readPramID pramID : ℕ) (dst : List UInt8) (des : ℕ) (d : Device) :
    Option (ℕ × List UInt8) := do
  let special ← readSpecialParam (pramID % 65536) d
  let buffer ← copyIn (List.replicate 200 0) 0 special special.length
  if special.length ≠ 0 then
    let dst ← writeRecord dst des pramID buffer special.length
    return (special.length + 5, dst)
  else
    let (pramLen, buffer) ← readInto buffer readPramID d.eeprom
    if pramLen ≠ 0 ∧ pramLen < 50 then
      let dst ← writeRecord dst des pramID buffer pramLen
      return (pramLen + 5, dst)
    else return (0, dst)

end Record

section Reply

/-- The buffer, the position of the next record in it, the signed 16-bit length and the 8-bit
number of records. -/
structure Reply where
  dst : List UInt8
  des : ℕ
  length : ℤ
  paramNum : ℕ

/-- A record of `len` bytes has been written: it is counted if the capacity allows it, else
the loop is left. -/
def accept (maxlen len : ℕ) (reply : Reply) : Outcome Reply Reply :=
  if len = 0 then .continues reply
  else if reply.length + len > maxlen then .returns reply
  else .continues { reply with
    des := reply.des + len
    length := int16 (reply.length + len)
    paramNum := (reply.paramNum + 1) % 256 }

def maxlenOf (readType : ℕ) : ℕ := if readType = 0 then 550 else 1000

def readAndAccept (maxlen : ℕ) (d : Device) (readPramID pramID : ℕ) (reply : Reply) :
    Option (Outcome Reply Reply) := do
  let (len, dst) ← readOneParam readPramID pramID reply.dst reply.des d
  return accept maxlen len { reply with dst := dst }

/-- The driver information comes from the flash, and its bytes are written first. -/
def readDriverInformation (driverInformation : List UInt8) (maxlen pramID : ℕ) (reply : Reply) :
    Option (Outcome Reply Reply) := do
  let len := driverInformation.length % 256
  let dst ← copyIn reply.dst (reply.des + 5) driverInformation driverInformation.length
  let dst ← copyIn dst reply.des (publicConvertLongToBuffer pramID) 4
  let dst ← store dst (reply.des + 4) (UInt8.ofNat len)
  return accept maxlen (len + 5) { reply with dst := dst }

/-- One requested ID. -/
def readRequested (driverInformation : List UInt8) (maxlen : ℕ) (d : Device) (pramID : ℕ)
    (reply : Reply) : Option (Outcome Reply Reply) :=
  let readParamID := convertPramID pramID
  if readParamID = e2AllDriverInformationId then
    readDriverInformation driverInformation maxlen pramID reply
  else if readParamID ≠ e2UpdataUrlId ∧ readParamID ≠ e2HbIcDriverId then
    readAndAccept maxlen d readParamID pramID reply
  else some (.continues reply)

end Reply

section Listed

/-- The pointer into the requested IDs as the memory it points to, the signed 16-bit count of
bytes left, and the reply. -/
structure Reader where
  src : List UInt8
  datalen : ℤ
  reply : Reply

variable (driverInformation : List UInt8) (maxlen : ℕ) (d : Device)

def readRound (s : Reader) : Option (Outcome Reader Reply) :=
  if s.datalen > 0 then do
    let pramID ← publicConvertBufferToLong s.src
    match ← readRequested driverInformation maxlen d pramID s.reply with
    | .returns reply => return .returns reply
    | .continues reply => return .continues ⟨s.src.drop 4, int16 (s.datalen - 4), reply⟩
  else some (.returns s.reply)

theorem readRound_decreases :
    Decreases (readRound driverInformation maxlen d) fun s => s.datalen.toNat := by
  intro s s' h
  rw [Continues, readRound] at h
  split_ifs at h with hdatalen
  · simp only [Option.bind_eq_bind, Option.bind_eq_some_iff] at h
    obtain ⟨pramID, -, outcome, -, h⟩ := h
    cases outcome with
    | returns reply => cases h
    | continues reply =>
      cases h
      simp only [int16]
      omega
  · cases h

/-- The number of records, their length and the buffer. -/
def disposeReadParam (dst pIDBuffer : List UInt8) (idBufferLen : ℤ) (readType : ℕ) :
    Option (ℕ × ℤ × List UInt8) :=
  (loop (readRound driverInformation (maxlenOf readType) d) (fun s => s.datalen.toNat)
    (readRound_decreases driverInformation (maxlenOf readType) d)
    ⟨pIDBuffer, idBufferLen, ⟨dst, 0, 0, 0⟩⟩).map
      fun reply => (reply.paramNum, reply.length, reply.dst)

end Listed

section Enumerated

variable (maxlen : ℕ) (d : Device)

/-- An ID of the platform. -/
def readSystemDefined (pramID : ℕ) (reply : Reply) : Option (Outcome Reply Reply) :=
  readAndAccept maxlen d pramID pramID reply

def convertTranPramID (usParamID : ℕ) : ℕ := usParamID % 65536

/-- An ID of the firmware itself; three have no place in the reply. -/
def readSelfDefined (readParamID : ℕ) (reply : Reply) : Option (Outcome Reply Reply) :=
  if readParamID ≠ e2AllDriverInformationId ∧ readParamID ≠ e2UpdataUrlId ∧
      readParamID ≠ e2HbIcDriverId then
    readAndAccept maxlen d readParamID (convertTranPramID readParamID) reply
  else some (.continues reply)

def systemDefinedIDs : List ℕ := List.range' 1 (e2SystemDefineIdMax - 1)

def selfDefinedIDs : List ℕ :=
  List.range' e2PramBaseCustomId (e2SelfDefineIdMax - e2PramBaseCustomId)

/-- Leaving the first loop does not leave the second one out. -/
def disposeReadAllParam (dst : List UInt8) (readType : ℕ) : Option (ℕ × ℤ × List UInt8) := do
  let maxlen := maxlenOf readType
  let reply ← forEach (readSystemDefined maxlen d) systemDefinedIDs ⟨dst, 0, 0, 0⟩
  let reply ← forEach (readSelfDefined maxlen d) selfDefinedIDs reply
  return (reply.paramNum, reply.length, reply.dst)

end Enumerated

end VehicleTerminal.E2ParamApp
