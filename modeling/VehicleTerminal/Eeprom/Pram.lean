import VehicleTerminal.Library.ByteStore
import VehicleTerminal.Eeprom.Layout

/-! Writing and reading one parameter, as in `EepromPram.c`, over an ideal EEPROM. A table
index outside the tables or a byte outside the caller's buffer leaves a function without
result. -/
namespace VehicleTerminal.EepromPram
open ByteStore

/-- The content of the EEPROM by address. -/
abbrev Eeprom := ℕ → UInt8

/-- The 8-bit sum that both directions use as check byte. -/
def sumCheck (xs : List UInt8) : UInt8 := xs.foldl (· + ·) 0

def addressOf (id : ℕ) : ℕ := eepromPramAddress.getD id 0

def lengthOf (id : ℕ) : ℕ := eepromPramLength.getD id 0

def switchOf (id : ℕ) : ℕ := eepromPramSwitch.getD id 0

/-- Returns the number of bytes written, 0 when the write is refused or its check fails. -/
def eepromPramWritePram (pramID : ℕ) (pBuffer : List UInt8) (bufferLen : ℕ) (e : Eeprom) :
    Option (ℕ × Eeprom) :=
  let id := e2ParamAppConvertPramIDToGroupIndex pramID
  if id = 0 then some (0, e)
  else if id ≥ e2PramIdIndexMax then some (0, e)
  else if addressOf id = 0 then some (0, e)
  else if bufferLen > lengthOf id ∨ bufferLen = 0 then some (0, e)
  else if bufferLen > pBuffer.length then none
  else
    let data := pBuffer.take bufferLen
    let verifyByte := sumCheck data
    let e₁ := if switchOf id = 1 then writeBytes e (addressOf id) [UInt8.ofNat bufferLen] else e
    let address := if switchOf id = 1 then addressOf id + 1 else addressOf id
    let e₂ := writeBytes e₁ address data
    let e₃ := writeBytes e₂ (address + bufferLen) [verifyByte]
    if bufferLen > 49 then some (bufferLen, e₃)
    else if sumCheck (readBytes e₃ address bufferLen) = verifyByte then some (bufferLen, e₃)
    else some (0, e₃)

/-- `k` bytes and their check byte; nothing when the check fails. -/
def readChecked (e : Eeprom) (address k : ℕ) : List UInt8 :=
  let buffer := readBytes e address (k + 1)
  if sumCheck (buffer.take k) = buffer.getD k 0 then buffer.take k else []

/-- The bytes written through `pBuffer`; the returned length is their number. The two IDs
whose records are too long for the local buffer are read without a check. -/
def eepromPramReadPram (pramID : ℕ) (e : Eeprom) : Option (List UInt8) :=
  let id := e2ParamAppConvertPramIDToGroupIndex pramID
  if id = 0 then some []
  else
    (eepromPramLength[id]?).map fun length =>
      if length = 0 then []
      else if length = 1 then readChecked e (addressOf id) 1
      else if length = 2 then readChecked e (addressOf id) 2
      else if length = 4 then readChecked e (addressOf id) 4
      else
        let stored := (e (addressOf id)).toNat
        if pramID = e2AllDriverInformationId ∨ pramID = e2UpdataUrlId then
          readBytes e (addressOf id + 1) stored
        else if stored > 49 then []
        else readChecked e (addressOf id + 1) stored

/-- An entry whose length makes it a number: exactly that many bytes and no length byte. -/
def IsValue (id : ℕ) : Prop := lengthOf id = 1 ∨ lengthOf id = 2 ∨ lengthOf id = 4

/-- The IDs that are read without a check, by their full value. -/
def Unchecked (pramID : ℕ) : Prop := pramID = e2AllDriverInformationId ∨ pramID = e2UpdataUrlId

instance (id : ℕ) : Decidable (IsValue id) := inferInstanceAs (Decidable (_ ∨ _ ∨ _))

instance (pramID : ℕ) : Decidable (Unchecked pramID) := inferInstanceAs (Decidable (_ ∨ _))

/-- The writer takes `n` bytes for this ID. -/
structure Admits (pramID n : ℕ) : Prop where
  known : e2ParamAppConvertPramIDToGroupIndex pramID ≠ 0
  inTable : e2ParamAppConvertPramIDToGroupIndex pramID < e2PramIdIndexMax
  placed : addressOf (e2ParamAppConvertPramIDToGroupIndex pramID) ≠ 0
  positive : 0 < n
  fits : n ≤ lengthOf (e2ParamAppConvertPramIDToGroupIndex pramID)

/-- The bytes that the writer stores for `data`. -/
def record (id : ℕ) (data : List UInt8) : List UInt8 :=
  (if switchOf id = 1 then [UInt8.ofNat data.length] else []) ++ data ++ [sumCheck data]

/-- The bytes that the reader wants to see in order to return `data`. -/
def readImage (pramID : ℕ) (data : List UInt8) : List UInt8 :=
  if IsValue (e2ParamAppConvertPramIDToGroupIndex pramID) then data ++ [sumCheck data]
  else if Unchecked pramID then UInt8.ofNat data.length :: data
  else UInt8.ofNat data.length :: (data ++ [sumCheck data])

/-- The reader can return `n` bytes for this ID. -/
def Readable (pramID n : ℕ) : Prop :=
  if IsValue (e2ParamAppConvertPramIDToGroupIndex pramID) then
    n = lengthOf (e2ParamAppConvertPramIDToGroupIndex pramID)
  else if Unchecked pramID then n < 256
  else n ≤ 49

theorem tables_length : eepromPramAddress.length = 439 ∧ eepromPramLength.length = 439 ∧
    eepromPramSwitch.length = 439 := by
  decide +kernel

/-- Address, length and switch of every entry, in table order. -/
def entries : List (ℕ × ℕ × ℕ) :=
  eepromPramAddress.zip (eepromPramLength.zip eepromPramSwitch)

theorem entries_length : entries.length = 439 := by
  simp [entries, tables_length]

theorem entries_getElem {id : ℕ} (h : id < entries.length) :
    entries[id] = (addressOf id, lengthOf id, switchOf id) := by
  have h439 : id < 439 := h.trans_eq entries_length
  have haddress : id < eepromPramAddress.length := h439.trans_eq tables_length.1.symm
  have hlength : id < eepromPramLength.length := h439.trans_eq tables_length.2.1.symm
  have hswitch : id < eepromPramSwitch.length := h439.trans_eq tables_length.2.2.symm
  simp [entries, addressOf, lengthOf, switchOf, haddress, hlength, hswitch]

/-- The format that the writer takes from the switch table is the one that the reader takes
from the length table, and a length fits the length byte. -/
theorem entries_formats_agree : ∀ entry ∈ entries,
    (entry.2.2 = 1 ↔ entry.2.1 ≠ 0 ∧ ¬ (entry.2.1 = 1 ∨ entry.2.1 = 2 ∨ entry.2.1 = 4)) ∧
      entry.2.1 < 256 ∧ (entry.1 = 0 ↔ entry.2.1 = 0) := by
  decide +kernel

theorem formats_agree {id : ℕ} (h : id < e2PramIdIndexMax) :
    (switchOf id = 1 ↔ lengthOf id ≠ 0 ∧ ¬ IsValue id) ∧ lengthOf id < 256 ∧
      (addressOf id = 0 ↔ lengthOf id = 0) := by
  have hid : id < entries.length := h.trans_eq entries_length.symm
  have hentry := entries_formats_agree _ (List.getElem_mem hid)
  rwa [entries_getElem hid] at hentry

section Writer

variable {pramID n : ℕ} {pBuffer : List UInt8} {e : Eeprom}

/-- An admitted write stores the record of its data and answers its length: an ideal EEPROM
passes the writer's own check. -/
theorem writePram_admitted (h : Admits pramID n) (hb : n ≤ pBuffer.length) :
    eepromPramWritePram pramID pBuffer n e =
      some (n, writeBytes e (addressOf (e2ParamAppConvertPramIDToGroupIndex pramID))
        (record (e2ParamAppConvertPramIDToGroupIndex pramID) (pBuffer.take n))) := by
  have hlength : ¬ (n > lengthOf (e2ParamAppConvertPramIDToGroupIndex pramID) ∨ n = 0) := by
    have hfits := h.fits
    have hpos := h.positive
    omega
  have hdata : (pBuffer.take n).length = n := List.length_take_of_le hb
  simp only [eepromPramWritePram, h.known, if_false, Nat.not_le.mpr h.inTable, h.placed,
    hlength, Nat.not_lt.mpr hb, gt_iff_lt]
  generalize e2ParamAppConvertPramIDToGroupIndex pramID = id
  generalize hdataEq : pBuffer.take n = data at hdata
  have hread (m : Eeprom) (a : ℕ) :
      readBytes (writeBytes (writeBytes m a data) (a + n) [sumCheck data]) a n = data := by
    rw [readBytes_writeBytes_disjoint _ (.inl le_rfl), ← hdata, readBytes_writeBytes]
  have hrecord : writeBytes e (addressOf id) (record id data) =
      writeBytes (writeBytes (if switchOf id = 1 then writeBytes e (addressOf id)
        [UInt8.ofNat n] else e) (if switchOf id = 1 then addressOf id + 1 else addressOf id) data)
        ((if switchOf id = 1 then addressOf id + 1 else addressOf id) + n) [sumCheck data] := by
    rw [record, writeBytes_append, writeBytes_append, hdata]
    split_ifs <;> simp [hdata, writeBytes]
    congr 1
    omega
  simp only [hread, if_true, ite_self, hrecord]

theorem writePram_refused (h : ¬ Admits pramID n) :
    eepromPramWritePram pramID pBuffer n e = some (0, e) := by
  unfold eepromPramWritePram
  dsimp only
  generalize hid : e2ParamAppConvertPramIDToGroupIndex pramID = id
  by_cases hknown : id = 0
  · rw [if_pos hknown]
  · rw [if_neg hknown]
    by_cases htable : id ≥ e2PramIdIndexMax
    · rw [if_pos htable]
    · rw [if_neg htable]
      by_cases hplaced : addressOf id = 0
      · rw [if_pos hplaced]
      · rw [if_neg hplaced, if_pos]
        by_contra hlength
        subst hid
        exact h ⟨hknown, by omega, hplaced, by omega, by omega⟩

theorem writePram_outside (h : Admits pramID n) (hb : pBuffer.length < n) :
    eepromPramWritePram pramID pBuffer n e = none := by
  have hlength : ¬ (n > lengthOf (e2ParamAppConvertPramIDToGroupIndex pramID) ∨ n = 0) := by
    have hfits := h.fits
    have hpos := h.positive
    omega
  simp only [eepromPramWritePram, h.known, if_false, Nat.not_le.mpr h.inTable, h.placed,
    hlength, gt_iff_lt, hb, if_true]

/-- What a successful write has done. -/
theorem writePram_success {n' : ℕ} {e' : Eeprom}
    (h : eepromPramWritePram pramID pBuffer n e = some (n', e')) (hn : 0 < n') :
    n' = n ∧ Admits pramID n ∧ n ≤ pBuffer.length ∧
      e' = writeBytes e (addressOf (e2ParamAppConvertPramIDToGroupIndex pramID))
        (record (e2ParamAppConvertPramIDToGroupIndex pramID) (pBuffer.take n)) := by
  by_cases hadmits : Admits pramID n
  · by_cases hb : n ≤ pBuffer.length
    · rw [writePram_admitted hadmits hb] at h
      cases h
      exact ⟨rfl, hadmits, hb, rfl⟩
    · rw [writePram_outside hadmits (by omega)] at h
      cases h
  · rw [writePram_refused hadmits] at h
    cases h
    exact absurd rfl hn.ne

/-- The caller's buffer need not be longer than what is written. -/
theorem writePram_eq_none_iff :
    eepromPramWritePram pramID pBuffer n e = none ↔ Admits pramID n ∧ pBuffer.length < n := by
  by_cases hadmits : Admits pramID n
  · by_cases hb : n ≤ pBuffer.length
    · rw [writePram_admitted hadmits hb]
      simp [hb]
    · have hshort : pBuffer.length < n := by omega
      simp [writePram_outside hadmits hshort, hadmits, hshort]
  · simp [writePram_refused hadmits, hadmits]

theorem writePram_of_le (h : n ≤ pBuffer.length) :
    ∃ n' e', eepromPramWritePram pramID pBuffer n e = some (n', e') := by
  have hsome : eepromPramWritePram pramID pBuffer n e ≠ none := by
    rw [ne_eq, writePram_eq_none_iff]
    exact fun hnone => absurd h (Nat.not_le.mpr hnone.2)
  obtain ⟨⟨n', e'⟩, hw⟩ := Option.ne_none_iff_exists'.mp hsome
  exact ⟨n', e', hw⟩

theorem writePram_append (h : n ≤ pBuffer.length) (tail : List UInt8) :
    eepromPramWritePram pramID (pBuffer ++ tail) n e = eepromPramWritePram pramID pBuffer n e := by
  by_cases hadmits : Admits pramID n
  · have hlonger : n ≤ (pBuffer ++ tail).length := by
      rw [List.length_append]
      omega
    rw [writePram_admitted hadmits h, writePram_admitted hadmits hlonger,
      List.take_append_of_le_length h]
  · rw [writePram_refused hadmits, writePram_refused hadmits]

end Writer

section Reader

variable {pramID : ℕ} {e : Eeprom} {d : List UInt8}

theorem readChecked_eq (e : Eeprom) (a k : ℕ) :
    readChecked e a k =
      if sumCheck (readBytes e a k) = e (a + k) then readBytes e a k else [] := by
  have hlength : (readBytes e a k).length = k := readBytes_length e a k
  have htake : (readBytes e a (k + 1)).take k = readBytes e a k := by
    rw [readBytes_succ, List.take_left' hlength]
  have hcheck : (readBytes e a (k + 1)).getD k 0 = e (a + k) := by
    rw [readBytes_succ, List.getD_eq_getElem?_getD, List.getElem?_append_right hlength.le, hlength,
      Nat.sub_self]
    rfl
  simp only [readChecked, htake, hcheck]

theorem readChecked_eq_iff {a k : ℕ} (hd : d ≠ []) :
    readChecked e a k = d ↔
      d.length = k ∧ readBytes e a (d.length + 1) = d ++ [sumCheck d] := by
  have hlength : (readBytes e a k).length = k := readBytes_length e a k
  rw [readChecked_eq]
  constructor
  · intro h
    split_ifs at h with hsum
    · subst h
      exact ⟨hlength, by rw [hlength, readBytes_succ, hsum]⟩
    · exact absurd h.symm hd
  · rintro ⟨hk, himage⟩
    rw [hk, readBytes_succ] at himage
    have hboth := List.append_inj himage (hlength.trans hk.symm)
    rw [hboth.1, if_pos]
    exact (List.singleton_inj.mp hboth.2).symm

/-- A length byte followed by a block, read without a check. -/
theorem readBytes_stored_iff {a : ℕ} :
    readBytes e (a + 1) (e a).toNat = d ↔
      d.length < 256 ∧ readBytes e a (d.length + 1) = UInt8.ofNat d.length :: d := by
  rw [readBytes_cons, List.cons.injEq]
  constructor
  · intro h
    have hlength : (e a).toNat = d.length := by
      rw [← h, readBytes_length]
    rw [hlength] at h
    exact ⟨hlength ▸ (e a).toNat_lt, by rw [← hlength, UInt8.ofNat_toNat], h⟩
  · rintro ⟨hlt, hstored, hblock⟩
    rwa [hstored, UInt8.toNat_ofNat_of_lt' hlt]

/-- A length byte of at most 49 followed by a checked block. -/
theorem readChecked_stored_iff {a : ℕ} (hd : d ≠ []) :
    (if (e a).toNat > 49 then [] else readChecked e (a + 1) (e a).toNat) = d ↔
      d.length ≤ 49 ∧
        readBytes e a (d.length + 2) = UInt8.ofNat d.length :: (d ++ [sumCheck d]) := by
  rw [readBytes_cons, List.cons.injEq]
  constructor
  · intro h
    split_ifs at h with hlong
    · exact absurd h.symm hd
    · obtain ⟨hlength, himage⟩ := (readChecked_eq_iff hd).mp h
      exact ⟨by omega, by rw [hlength, UInt8.ofNat_toNat], himage⟩
  · rintro ⟨hle, hstored, himage⟩
    have hlength : (e a).toNat = d.length := by
      rw [hstored, UInt8.toNat_ofNat_of_lt' (hle.trans_lt (by decide))]
    rw [hlength, if_neg (by omega)]
    exact (readChecked_eq_iff hd).mpr ⟨rfl, himage⟩

theorem eepromPramLength_getElem? {id : ℕ} (h : id < e2PramIdIndexMax) :
    eepromPramLength[id]? = some (lengthOf id) := by
  have hid : id < eepromPramLength.length := h.trans_eq tables_length.2.1.symm
  simp [lengthOf, hid]

/-- The reader accepts exactly the image of what it returns. -/
theorem readPram_eq_iff (hd : d ≠ []) :
    eepromPramReadPram pramID e = some d ↔
      e2ParamAppConvertPramIDToGroupIndex pramID ≠ 0 ∧
      e2ParamAppConvertPramIDToGroupIndex pramID < e2PramIdIndexMax ∧
      lengthOf (e2ParamAppConvertPramIDToGroupIndex pramID) ≠ 0 ∧ Readable pramID d.length ∧
      readBytes e (addressOf (e2ParamAppConvertPramIDToGroupIndex pramID))
        (readImage pramID d).length = readImage pramID d := by
  unfold eepromPramReadPram Readable readImage Unchecked
  generalize e2ParamAppConvertPramIDToGroupIndex pramID = id
  by_cases hknown : id = 0
  · simp [hknown, hd.symm]
  by_cases hin : id < e2PramIdIndexMax
  swap
  · have hout : eepromPramLength[id]? = none := by
      rw [List.getElem?_eq_none]
      exact tables_length.2.1.trans_le (Nat.not_lt.mp hin)
    simp [hknown, hin, hout]
  simp only [hknown, if_false, eepromPramLength_getElem? hin, Option.map_some, Option.some_inj,
    ne_eq, not_false_eq_true, hin, true_and]
  by_cases hreserved : lengthOf id = 0
  · simp [hreserved, hd.symm]
  by_cases hvalue : IsValue id
  · simp only [hreserved, hvalue, if_true, if_false, not_false_eq_true, true_and,
      List.length_append, List.length_singleton]
    rcases hvalue with h | h | h
    all_goals
      simp only [h, if_true, if_false, OfNat.ofNat_ne_one, Nat.reduceEqDiff]
      exact readChecked_eq_iff hd
  · have hlengths := not_or.mp hvalue
    simp only [hreserved, hlengths.1, (not_or.mp hlengths.2).1, (not_or.mp hlengths.2).2, hvalue,
      if_false, not_false_eq_true, true_and]
    by_cases hunchecked : pramID = e2AllDriverInformationId ∨ pramID = e2UpdataUrlId
    · simp only [hunchecked, if_true, List.length_cons]
      exact readBytes_stored_iff
    · simp only [hunchecked, if_false, List.length_cons, List.length_append, List.length_nil]
      exact readChecked_stored_iff hd

theorem readPram_of_lt (h : e2ParamAppConvertPramIDToGroupIndex pramID < e2PramIdIndexMax)
    (e : Eeprom) : ∃ d, eepromPramReadPram pramID e = some d := by
  simp only [eepromPramReadPram, eepromPramLength_getElem? h, Option.map_some]
  by_cases hknown : e2ParamAppConvertPramIDToGroupIndex pramID = 0
  · exact ⟨_, if_pos hknown⟩
  · exact ⟨_, if_neg hknown⟩

theorem readPram_of_value (hin : e2ParamAppConvertPramIDToGroupIndex pramID < e2PramIdIndexMax)
    (hknown : e2ParamAppConvertPramIDToGroupIndex pramID ≠ 0)
    (hvalue : IsValue (e2ParamAppConvertPramIDToGroupIndex pramID)) (e : Eeprom) :
    eepromPramReadPram pramID e =
      some (readChecked e (addressOf (e2ParamAppConvertPramIDToGroupIndex pramID))
        (lengthOf (e2ParamAppConvertPramIDToGroupIndex pramID))) := by
  simp only [eepromPramReadPram, hknown, if_false, eepromPramLength_getElem? hin, Option.map_some]
  rcases hvalue with h | h | h <;> simp [h]

/-- A number reads as its table length of bytes or not at all. -/
theorem readPram_value_length (hvalue : IsValue (e2ParamAppConvertPramIDToGroupIndex pramID))
    (hread : eepromPramReadPram pramID e = some d) :
    d = [] ∨ d.length = lengthOf (e2ParamAppConvertPramIDToGroupIndex pramID) := by
  by_cases hd : d = []
  · exact .inl hd
  · have hreadable := ((readPram_eq_iff hd).mp hread).2.2.2.1
    rw [Readable, if_pos hvalue] at hreadable
    exact .inr hreadable

theorem readPram_length_le (hchecked : ¬ Unchecked pramID)
    (hread : eepromPramReadPram pramID e = some d) : d.length ≤ 49 := by
  by_cases hd : d = []
  · simp [hd]
  · have hreadable := ((readPram_eq_iff hd).mp hread).2.2.2.1
    rw [Readable] at hreadable
    split_ifs at hreadable with hvalue
    · have hlengths : lengthOf (e2ParamAppConvertPramIDToGroupIndex pramID) ≤ 4 := by
        rcases hvalue with h | h | h <;> omega
      omega
    · exact hreadable

end Reader

end VehicleTerminal.EepromPram
