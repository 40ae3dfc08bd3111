import VehicleTerminal.Library.Memory

/-! The FRAM driver of `fm25c160.c` over an ideal chip. The chip is modelled as it sees the SPI
bus, one byte after the other while it is selected; a command outside the data sheet, or an
access outside the chip, has no result. -/
namespace VehicleTerminal.Fram
open BlockMemory

section Chip

def framWren : UInt8 := 0x06

def framWrdi : UInt8 := 0x04

def framRdsr : UInt8 := 0x05

def framRead : UInt8 := 0x03

def framWrite : UInt8 := 0x02

def framWelBit : UInt8 := 0x02

/-- What the chip makes of the next byte. -/
inductive Phase
  | deselected
  | command
  | addressHigh (opcode : UInt8)
  | addressLow (opcode high : UInt8)
  | writing (addr : ℕ)
  | reading (addr : ℕ)
  | status
  | finished
  deriving DecidableEq

structure Chip where
  cells : List UInt8
  statusRegister : UInt8
  phase : Phase

/-- The write-enable latch. -/
def Chip.wel (c : Chip) : Prop := c.statusRegister &&& framWelBit = framWelBit

instance (c : Chip) : Decidable c.wel := inferInstanceAs (Decidable (_ = _))

def framCsLow (c : Chip) : Chip := { c with phase := .command }

/-- The end of a write clears the latch. -/
def framCsHigh (c : Chip) : Chip :=
  match c.phase with
  | .writing _ =>
    { c with statusRegister := c.statusRegister &&& ~~~framWelBit, phase := .deselected }
  | _ => { c with phase := .deselected }

/-- A byte to the chip. -/
def sFlashSendByte (byte : UInt8) (c : Chip) : Option Chip :=
  match c.phase with
  | .command =>
    if byte = framWren then
      some { c with statusRegister := c.statusRegister ||| framWelBit, phase := .finished }
    else if byte = framWrdi then
      some { c with statusRegister := c.statusRegister &&& ~~~framWelBit, phase := .finished }
    else if byte = framRdsr then some { c with phase := .status }
    else if byte = framRead ∨ byte = framWrite then some { c with phase := .addressHigh byte }
    else none
  | .addressHigh opcode => some { c with phase := .addressLow opcode byte }
  | .addressLow opcode high =>
    let addr := high.toNat * 256 + byte.toNat
    if opcode = framRead then some { c with phase := .reading addr }
    else if c.wel then some { c with phase := .writing addr }
    else some { c with phase := .finished }
  | .writing addr =>
    (store c.cells addr byte).map fun cells =>
      { c with cells := cells, phase := .writing (addr + 1) }
  | _ => none

/-- A byte from the chip. -/
def sFlashReadByte (c : Chip) : Option (Chip × UInt8) :=
  match c.phase with
  | .reading addr => c.cells[addr]?.map fun byte => ({ c with phase := .reading (addr + 1) }, byte)
  | .status => some (c, c.statusRegister)
  | _ => none

def sendBytes : List UInt8 → Chip → Option Chip
  | [], c => some c
  | byte :: bytes, c => (sFlashSendByte byte c).bind (sendBytes bytes)

def readBytes : ℕ → Chip → Option (Chip × List UInt8)
  | 0, c => some (c, [])
  | n + 1, c =>
    (sFlashReadByte c).bind fun r => (readBytes n r.1).map fun rest => (rest.1, r.2 :: rest.2)

end Chip

section Driver

def framReadStatusRegister (c : Chip) : Option (Chip × UInt8) :=
  (sFlashSendByte framRdsr (framCsLow c)).bind fun c =>
    (sFlashReadByte c).map fun r => (framCsHigh r.1, r.2)

def framWriteEnable (c : Chip) : Option Chip :=
  (sFlashSendByte framWren (framCsLow c)).map framCsHigh

def framWriteDisable (c : Chip) : Option Chip :=
  (sFlashSendByte framWrdi (framCsLow c)).map framCsHigh

/-- The check byte: the sum of the data, modulo 256. -/
def checkByte (data : List UInt8) : UInt8 := data.foldl (· + ·) 0

/-- The chip and the static `count` after `FRAM_BufferWrite`. A latch that is found set is taken
for a write in progress, and cleared at the 21st time. -/
def framBufferWrite (writeAddr : ℕ) (pBuffer : List UInt8) (numBytesToWrite : ℕ) (count : UInt8)
    (c : Chip) : Option (Chip × UInt8) :=
  (framReadStatusRegister c).bind fun r =>
    if r.2 &&& framWelBit = framWelBit then
      if count + 1 > 20 then (framWriteDisable r.1).map fun c => (c, 0)
      else some (r.1, count + 1)
    else
      (copyOut pBuffer 0 numBytesToWrite).bind fun data =>
        (framWriteEnable r.1).bind fun c =>
          (sendBytes ([framWrite, UInt8.ofNat (writeAddr / 2 ^ 8), UInt8.ofNat writeAddr] ++ data ++
            [checkByte data]) (framCsLow c)).map fun c => (framCsHigh c, 0)

/-- The sum of the data that was read, and how often it was zero on the way; both are bytes. -/
def sumAndZeros (data : List UInt8) : UInt8 × UInt8 :=
  data.foldl (fun acc byte =>
    (acc.1 + byte, if acc.1 + byte = 0 then acc.2 + 1 else acc.2)) (0, 0)

/-- The chip, the result and the bytes that `FRAM_BufferRead` leaves in the buffer. -/
def framBufferRead (numBytesToRead readAddr : ℕ) (c : Chip) :
    Option (Chip × UInt8 × List UInt8) :=
  (sendBytes [framRead, UInt8.ofNat (readAddr / 2 ^ 8), UInt8.ofNat readAddr]
    (framCsLow c)).bind fun c =>
    (readBytes numBytesToRead c).bind fun data =>
      (sFlashReadByte data.1).map fun verify =>
        let sums := sumAndZeros data.2
        (framCsHigh verify.1,
          if sums.2.toNat = numBytesToRead then 0
          else if verify.2 = sums.1 then UInt8.ofNat numBytesToRead else 0,
          data.2)

end Driver

end VehicleTerminal.Fram
