import VehicleTerminal.Storage.Fram

/-! A record that is written to the FRAM and read back. The bytes come back for every length,
but the result is one byte wide and gives the length only up to 255. -/
namespace VehicleTerminal.Fram
open BlockMemory

section Bus

variable {c : Chip}

theorem or_and_self (s b : UInt8) : (s ||| b) &&& b = b := by
  apply UInt8.toBitVec_inj.mp
  ext i hi
  simpa using fun h => Or.inr h

/-- The two address bytes. -/
theorem address_bytes {addr : ℕ} (h : addr < 2 ^ 16) :
    (UInt8.ofNat (addr / 2 ^ 8)).toNat * 256 + (UInt8.ofNat addr).toNat = addr := by
  simp only [UInt8.toNat_ofNat']
  omega

theorem framReadStatusRegister_eq (c : Chip) :
    framReadStatusRegister c = some ({ c with phase := .deselected }, c.statusRegister) := rfl

theorem framWriteEnable_eq (c : Chip) :
    framWriteEnable c = some { c with
      statusRegister := c.statusRegister ||| framWelBit
      phase := .deselected } := rfl

theorem sendBytes_append (xs ys : List UInt8) (c : Chip) :
    sendBytes (xs ++ ys) c = (sendBytes xs c).bind (sendBytes ys) := by
  induction xs generalizing c with
  | nil => rfl
  | cons x xs ih =>
    cases hx : sFlashSendByte x c with
    | none => simp only [List.cons_append, sendBytes, hx, Option.bind_none]
    | some c' => simp only [List.cons_append, sendBytes, hx, Option.bind_some, ih]

theorem sendBytes_write_header {addr : ℕ} (h : addr < 2 ^ 16) (hwel : c.wel) :
    sendBytes [framWrite, UInt8.ofNat (addr / 2 ^ 8), UInt8.ofNat addr] (framCsLow c) =
      some { c with phase := .writing addr } := by
  have hsend : sFlashSendByte (UInt8.ofNat addr)
      { c with phase := .addressLow framWrite (UInt8.ofNat (addr / 2 ^ 8)) } =
        some { c with phase := .writing addr } := by
    simp only [sFlashSendByte, address_bytes h]
    rw [if_neg (by decide : framWrite ≠ framRead)]
    exact if_pos hwel
  simp only [sendBytes]
  exact congrArg (fun o => Option.bind o _) hsend

theorem sendBytes_read_header {addr : ℕ} (h : addr < 2 ^ 16) :
    sendBytes [framRead, UInt8.ofNat (addr / 2 ^ 8), UInt8.ofNat addr] (framCsLow c) =
      some { c with phase := .reading addr } := by
  have hsend : sFlashSendByte (UInt8.ofNat addr)
      { c with phase := .addressLow framRead (UInt8.ofNat (addr / 2 ^ 8)) } =
        some { c with phase := .reading addr } := by
    simp only [sFlashSendByte, address_bytes h, if_true]
  simp only [sendBytes]
  exact congrArg (fun o => Option.bind o _) hsend

/-- The bytes of a write go to consecutive cells. -/
theorem sendBytes_writing {addr : ℕ} (hphase : c.phase = .writing addr) (bytes : List UInt8)
    (hfits : addr + bytes.length ≤ c.cells.length) :
    sendBytes bytes c = some { c with
      cells := blit c.cells addr bytes
      phase := .writing (addr + bytes.length) } := by
  induction bytes generalizing c addr with
  | nil => simp [sendBytes, ← hphase]
  | cons byte bytes ih =>
    rw [List.length_cons] at hfits
    have hstore := store_of_lt byte (show addr < c.cells.length by omega)
    have hlen := blit_length c.cells addr [byte] (by simp; omega)
    have hsend : sFlashSendByte byte c = some { c with
        cells := blit c.cells addr [byte]
        phase := .writing (addr + 1) } := by
      simp only [sFlashSendByte, hphase, hstore, Option.map_some]
    rw [sendBytes, hsend, Option.bind_some, ih rfl (by simp only [hlen]; omega)]
    have hjoin := blit_blit c.cells addr [byte] bytes (by simp; omega)
    simp only [List.length_singleton, List.singleton_append] at hjoin
    simp only [hjoin, List.length_cons, Nat.add_assoc, Nat.add_comm 1]

/-- The bytes of a read come from consecutive cells. -/
theorem readBytes_reading {addr : ℕ} (hphase : c.phase = .reading addr) (n : ℕ)
    (hfits : addr + n ≤ c.cells.length) :
    readBytes n c = some ({ c with phase := .reading (addr + n) }, slice c.cells addr n) := by
  induction n generalizing c addr with
  | zero => simp [readBytes, slice, ← hphase]
  | succ n ih =>
    have hread : sFlashReadByte c =
        some ({ c with phase := .reading (addr + 1) }, c.cells[addr]) := by
      have hin : addr < c.cells.length := by omega
      simp only [sFlashReadByte, hphase, List.getElem?_eq_getElem hin, Option.map_some]
    rw [readBytes, hread, Option.bind_some, ih rfl (by dsimp only; omega), Option.map_some,
      slice_succ n (by omega)]
    simp only [Nat.add_assoc, Nat.add_comm 1]

end Bus

section Driver

variable {c : Chip} {addr : ℕ}

/-- The chip with a record: the data and their check byte. -/
def recorded (c : Chip) (addr : ℕ) (data : List UInt8) : Chip where
  cells := blit c.cells addr (data ++ [checkByte data])
  statusRegister := (c.statusRegister ||| framWelBit) &&& ~~~framWelBit
  phase := .deselected

/-- A write that finds the latch clear stores the record, and leaves the latch clear. -/
theorem framBufferWrite_eq (data : List UInt8) (count : UInt8) (hwel : ¬ c.wel)
    (haddr : addr < 2 ^ 16) (hfits : addr + data.length + 1 ≤ c.cells.length) :
    framBufferWrite addr data data.length count c = some (recorded c addr data, 0) := by
  have hwel_clear : ¬ c.statusRegister &&& framWelBit = framWelBit := hwel
  have hcopy : copyOut data 0 data.length = some data := by
    rw [copyOut_of_le (by omega), slice, List.drop_zero, List.take_length]
  have henabled : Chip.wel { c with
      statusRegister := c.statusRegister ||| framWelBit
      phase := .deselected } := or_and_self _ _
  have hbytes := sendBytes_writing (c := { c with
      statusRegister := c.statusRegister ||| framWelBit
      phase := .writing addr }) rfl (data ++ [checkByte data]) (by simp; omega)
  rw [framBufferWrite, framReadStatusRegister_eq, Option.bind_some, if_neg hwel_clear, hcopy,
    Option.bind_some, framWriteEnable_eq, Option.bind_some, List.append_assoc, sendBytes_append,
    sendBytes_write_header haddr henabled, Option.bind_some, hbytes]
  rfl

/-- A read gets the bytes of the record, and compares its check byte. -/
theorem framBufferRead_eq (n : ℕ) (haddr : addr < 2 ^ 16) (hfits : addr + n < c.cells.length) :
    framBufferRead n addr c = some ({ c with phase := .deselected },
      if (sumAndZeros (slice c.cells addr n)).2.toNat = n then 0
      else if c.cells[addr + n] = (sumAndZeros (slice c.cells addr n)).1 then UInt8.ofNat n else 0,
      slice c.cells addr n) := by
  have hread := readBytes_reading (c := { c with phase := .reading addr }) rfl n (by
    dsimp only
    omega)
  have hverify : sFlashReadByte { c with phase := .reading (addr + n) } =
      some ({ c with phase := .reading (addr + n + 1) }, c.cells[addr + n]) := by
    simp only [sFlashReadByte, List.getElem?_eq_getElem hfits, Option.map_some]
  rw [framBufferRead, sendBytes_read_header haddr, Option.bind_some, hread, Option.bind_some,
    hverify]
  rfl

end Driver

section Check

/-- How often the running sum of the bytes is zero. -/
def zeroSums : UInt8 → List UInt8 → ℕ
  | _, [] => 0
  | s, byte :: bytes => zeroSums (s + byte) bytes + if s + byte = 0 then 1 else 0

theorem sumAndZeros_foldl (data : List UInt8) (s z : UInt8) :
    data.foldl (fun acc byte =>
      (acc.1 + byte, if acc.1 + byte = 0 then acc.2 + 1 else acc.2)) (s, z) =
      (data.foldl (· + ·) s, z + UInt8.ofNat (zeroSums s data)) := by
  induction data generalizing s z with
  | nil => simp [zeroSums]
  | cons byte data ih =>
    rw [List.foldl_cons, ih, List.foldl_cons, zeroSums]
    split_ifs with hzero
    · simp only [UInt8.ofNat_add, UInt8.ofNat_one]
      rw [UInt8.add_assoc, UInt8.add_comm 1]
    · rw [Nat.add_zero]

theorem zeroSums_le (s : UInt8) (data : List UInt8) : zeroSums s data ≤ data.length := by
  induction data generalizing s with
  | nil => exact le_rfl
  | cons byte data ih =>
    have := ih (s + byte)
    rw [zeroSums, List.length_cons]
    split_ifs <;> omega

/-- The running sum is zero throughout only if every byte is. -/
theorem zeroSums_eq_length {data : List UInt8} (h : zeroSums 0 data = data.length) :
    ∀ byte ∈ data, byte = 0 := by
  induction data with
  | nil => simp
  | cons byte data ih =>
    rw [zeroSums, List.length_cons, UInt8.zero_add] at h
    have := zeroSums_le byte data
    split_ifs at h with hzero
    · subst hzero
      exact List.forall_mem_cons.mpr ⟨rfl, ih (by omega)⟩
    · omega

/-- The count of the zero sums does not reach the length unless the data are all zero. -/
theorem zeros_ne_length {data : List UInt8} (hdata : ∃ byte ∈ data, byte ≠ 0) :
    (sumAndZeros data).2.toNat ≠ data.length := by
  obtain ⟨byte, hmem, hbyte⟩ := hdata
  have hzeros : zeroSums 0 data ≠ data.length := fun h => hbyte (zeroSums_eq_length h byte hmem)
  have hle := zeroSums_le 0 data
  rw [sumAndZeros, sumAndZeros_foldl]
  simp only [UInt8.zero_add, UInt8.toNat_ofNat']
  omega

theorem sumAndZeros_sum (data : List UInt8) : (sumAndZeros data).1 = checkByte data := by
  rw [sumAndZeros, sumAndZeros_foldl, checkByte]

end Check

section RoundTrip

/-- A read of the record that was written returns its length and its data. -/
def ReadsBack (addr : ℕ) (data : List UInt8) (count : UInt8) (c : Chip) : Prop :=
  ∃ written read result out, framBufferWrite addr data data.length count c = some (written, 0) ∧
    framBufferRead data.length addr written = some (read, result, out) ∧
    result.toNat = data.length ∧ out = data

theorem slice_recorded {c : Chip} {addr : ℕ} {data : List UInt8}
    (hfits : addr + data.length + 1 ≤ c.cells.length) :
    slice (recorded c addr data).cells addr data.length = data := by
  have hall := slice_blit c.cells addr (data ++ [checkByte data]) (by simp; omega)
  rw [recorded, ← take_slice _ _ (show data.length ≤ (data ++ [checkByte data]).length by simp),
    hall, List.take_left]

theorem getElem?_recorded {c : Chip} {addr : ℕ} {data : List UInt8}
    (hfits : addr + data.length + 1 ≤ c.cells.length) :
    (recorded c addr data).cells[addr + data.length]? = some (checkByte data) := by
  rw [recorded, getElem?_blit _ _ _ (by simp; omega), if_pos (by simp), Nat.add_sub_cancel_left]
  simp

/-- A record whose data are not all zero comes back, with its length modulo 256. -/
theorem framBufferRead_recorded {c : Chip} {addr : ℕ} {data : List UInt8}
    (haddr : addr < 2 ^ 16) (hfits : addr + data.length + 1 ≤ c.cells.length)
    (hdata : ∃ byte ∈ data, byte ≠ 0) :
    framBufferRead data.length addr (recorded c addr data) = some
      ({ recorded c addr data with phase := .deselected }, UInt8.ofNat data.length, data) := by
  obtain ⟨hinside, hcheck⟩ := List.getElem?_eq_some_iff.mp (getElem?_recorded hfits)
  rw [framBufferRead_eq _ haddr hinside, slice_recorded hfits, hcheck, sumAndZeros_sum,
    if_neg (zeros_ne_length hdata), if_pos rfl]

variable {c : Chip} {addr : ℕ} {data : List UInt8}

theorem not_readsBack (count : UInt8) (hwel : ¬ c.wel) (haddr : addr < 2 ^ 16)
    (hfits : addr + data.length + 1 ≤ c.cells.length) (hdata : ∃ byte ∈ data, byte ≠ 0)
    (hlen : 255 < data.length) : ¬ ReadsBack addr data count c := by
  rintro ⟨written, read, result, out, hwrite, hread, hresult, -⟩
  rw [framBufferWrite_eq data count hwel haddr hfits] at hwrite
  cases hwrite
  rw [framBufferRead_recorded haddr hfits hdata] at hread
  cases hread
  rw [UInt8.toNat_ofNat'] at hresult
  omega

/-- A record whose data are not all zero reads back if and only if it has at most 255 bytes. -/
theorem readsBack_iff (count : UInt8) (hwel : ¬ c.wel) (haddr : addr < 2 ^ 16)
    (hfits : addr + data.length + 1 ≤ c.cells.length) (hdata : ∃ byte ∈ data, byte ≠ 0) :
    ReadsBack addr data count c ↔ data.length ≤ 255 := by
  constructor
  · intro hreads
    by_contra hlen
    exact not_readsBack count hwel haddr hfits hdata (by omega) hreads
  · intro hlen
    refine ⟨_, _, _, data, framBufferWrite_eq data count hwel haddr hfits,
      framBufferRead_recorded haddr hfits hdata, ?_, rfl⟩
    rw [UInt8.toNat_ofNat', Nat.mod_eq_of_lt (by omega)]

/-- Three bytes, one of whose running sums wraps to zero. -/
theorem readsBack_iff_three_bytes :
    ReadsBack 5 [1, 255, 1] 0 ⟨List.replicate 16 0, 0, .deselected⟩ ↔
      [1, 255, 1].length ≤ 255 :=
  readsBack_iff 0 (by decide) (by decide) (by decide) ⟨1, by simp, by decide⟩

/-- The result for 256 bytes is 0, as for a failed check. -/
theorem not_readsBack_256_bytes :
    ¬ ReadsBack 0 (List.replicate 256 1) 0 ⟨List.replicate 257 0, 0, .deselected⟩ := by
  have hmem : (1 : UInt8) ∈ List.replicate 256 1 := List.mem_replicate.mpr ⟨by omega, rfl⟩
  refine not_readsBack 0 (show ¬ (0 : UInt8) &&& framWelBit = framWelBit by decide) (by omega) ?_
    ⟨1, hmem, by decide⟩ ?_
  · simp only [List.length_replicate]
    omega
  · rw [List.length_replicate]
    omega

end RoundTrip

end VehicleTerminal.Fram
