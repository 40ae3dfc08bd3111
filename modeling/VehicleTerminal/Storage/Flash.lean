import VehicleTerminal.Library.Iteration
import VehicleTerminal.Library.Memory

/-! `Public_WriteDataToFlash`, which overwrites a byte range of the SPI flash sector by sector.
The flash is ideal: a read returns the stored bytes, an erase sets a sector to 0xFF, and a write
is defined on erased bytes only. An access outside the chip, or outside the sector buffer, has no
result. -/
namespace VehicleTerminal.Flash
open BlockMemory PartialLoop

section Device

def flashOneSectorBytes : ℕ := 4096

def sFlashReadBuffer (readAddr numByteToRead : ℕ) (flash : List UInt8) : Option (List UInt8) :=
  copyOut flash readAddr numByteToRead

def erasedSector : List UInt8 := List.replicate flashOneSectorBytes 0xFF

/-- Erases the sector that contains the address. -/
def sFlashEraseSector (sectorAddr : ℕ) (flash : List UInt8) : Option (List UInt8) :=
  copyIn flash (sectorAddr / flashOneSectorBytes * flashOneSectorBytes) erasedSector
    flashOneSectorBytes

def sFlashWriteBuffer (pBuffer : List UInt8) (writeAddr numByteToWrite : ℕ)
    (flash : List UInt8) : Option (List UInt8) :=
  if (slice flash writeAddr numByteToWrite).all (· = 0xFF) then
    copyIn flash writeAddr pBuffer numByteToWrite
  else none

end Device

section Update

/-- 0 if the first `len` bytes are equal, 1 if not. -/
def publicCheckArrayValIsEqual (array array1 : List UInt8) (len : ℕ) : ℕ :=
  if array.take len = array1.take len then 0 else 1

/-- Erase and write of a sector, which is done once more if its first 100 bytes read back
different. -/
def rewriteSector (msgFlashBuffer : List UInt8) (blockAddr : ℕ) (flash : List UInt8) :
    Option (List UInt8) :=
  (sFlashEraseSector blockAddr flash).bind fun flash =>
    (sFlashWriteBuffer msgFlashBuffer blockAddr flashOneSectorBytes flash).bind fun flash =>
      (sFlashReadBuffer blockAddr 100 flash).bind fun buffer =>
        if publicCheckArrayValIsEqual buffer msgFlashBuffer 100 ≠ 0 then
          (sFlashEraseSector blockAddr flash).bind fun flash =>
            sFlashWriteBuffer msgFlashBuffer blockAddr flashOneSectorBytes flash
        else some flash

/-- `for(i=0; i<tempLen; i++) s_ucMsgFlashBuffer[tempAddr+i] = *src++`, from `tempAddr` on. -/
def fillBuffer (tempAddr : ℕ) : ℕ → List UInt8 → List UInt8 → Option (List UInt8)
  | 0, _, msgFlashBuffer => some msgFlashBuffer
  | _ + 1, [], _ => none
  | tempLen + 1, byte :: src, msgFlashBuffer =>
    (store msgFlashBuffer tempAddr byte).bind (fillBuffer (tempAddr + 1) tempLen src)

/-- A sector is read into the buffer, `tempLen` bytes of the source are put at `tempAddr`, and
the sector is written back. -/
def updateSector (blockAddr tempAddr tempLen : ℕ) (src flash : List UInt8) :
    Option (List UInt8) :=
  (sFlashReadBuffer blockAddr flashOneSectorBytes flash).bind fun msgFlashBuffer =>
    (fillBuffer tempAddr tempLen src msgFlashBuffer).bind fun msgFlashBuffer =>
      rewriteSector msgFlashBuffer blockAddr flash

/-- The flash, the sector that was written last, the rest of the source, and how much of it is
still to be written. -/
structure Progress where
  flash : List UInt8
  blockAddr : ℕ
  src : List UInt8
  datalen : ℕ

/-- A round of the loop over the sectors behind the first. -/
def writeRound (p : Progress) : Option (Outcome Progress (List UInt8)) :=
  if 0 < p.datalen then
    let blockAddr := (p.blockAddr + flashOneSectorBytes) % 2 ^ 32
    let tempLen := if p.datalen > flashOneSectorBytes then flashOneSectorBytes else p.datalen
    (updateSector blockAddr 0 tempLen p.src p.flash).map fun flash =>
      .continues ⟨flash, blockAddr, p.src.drop tempLen, p.datalen - tempLen⟩
  else some (.returns p.flash)

theorem writeRound_decreases : Decreases writeRound Progress.datalen := by
  intro p p' h
  unfold Continues writeRound at h
  by_cases hmore : 0 < p.datalen
  · rw [if_pos hmore] at h
    simp only [Option.map_eq_some_iff, Outcome.continues.injEq] at h
    obtain ⟨flash, -, rfl⟩ := h
    refine Nat.sub_lt hmore ?_
    split_ifs
    · exact Nat.succ_pos _
    · exact hmore
  · rw [if_neg hmore] at h
    cases h

/-- The flash after `Public_WriteDataToFlash`. -/
def publicWriteDataToFlash (src : List UInt8) (addr len : ℕ) (flash : List UInt8) :
    Option (List UInt8) :=
  let blockAddr := addr &&& 0xFFFFF000
  let tempAddr := addr % flashOneSectorBytes
  let tempLen :=
    if flashOneSectorBytes - tempAddr > len then len else flashOneSectorBytes - tempAddr
  (updateSector blockAddr tempAddr tempLen src flash).bind fun flash =>
    loop writeRound Progress.datalen writeRound_decreases
      ⟨flash, blockAddr, src.drop tempLen, len - tempLen⟩

end Update

end VehicleTerminal.Flash
