import VehicleTerminal.Library.BlockLoop
import VehicleTerminal.Library.Printf

/-! The hexadecimal text of bytes that `Public.c` prints and reads, with plain `char` unsigned. The
format pads with a space, which is no digit for the reader. -/
namespace VehicleTerminal.Public
open BlockLoop BlockMemory Printf

section Model

/-- Each `sprintf` also puts its terminator in the place of the next pair. -/
def publicConvertStrToASC (des src : List UInt8) (len : UInt16) : Option (List UInt8) :=
  fillBlocks 2 (fun i => (src[i]?).map fun b => hexPadded 2 b.toNat ++ [0]) des len.toNat

def publicConvertAscToVal (val : UInt8) : UInt8 :=
  if val ≥ 0x30 ∧ val ≤ 0x39 then val - 0x30
  else if val ≥ 0x41 ∧ val ≤ 0x46 then val - 0x41 + 10
  else 0xff

/-- The returned value and the byte at `result`. -/
def publicConvertTwoAscToOneChar (val : List UInt8) (result : UInt8) : Option (UInt8 × UInt8) :=
  (val[0]?).bind fun high =>
    let temp1 := publicConvertAscToVal high
    if temp1 = 0xff then some (0, result)
    else
      (val[1]?).map fun low =>
        let temp := publicConvertAscToVal low
        if temp = 0xff then (0, result) else (1, temp1 * 16 + temp)

end Model

/-- The text of the bytes: two characters for each, and a terminator behind the last, in an array
of just this size. Every pair of characters gives its byte back. -/
def HexReturns (bytes : List UInt8) : Prop :=
  ∀ des : List UInt8, des.length = 2 * bytes.length + 1 →
    ∃ text, text.length = 2 * bytes.length ∧
      publicConvertStrToASC des bytes (UInt16.ofNat bytes.length) =
        some (if bytes = [] then des else text ++ [0]) ∧
      ∀ i (hi : i < bytes.length) (result : UInt8),
        publicConvertTwoAscToOneChar (text.drop (2 * i)) result = some (1, bytes[i])

/-- The length fits the parameter and no byte is printed with a space. -/
def HexSafe (bytes : List UInt8) : Prop := bytes.length < 65536 ∧ ∀ b ∈ bytes, 0x10 ≤ b

def hexText (bytes : List UInt8) : List UInt8 := bytes.flatMap fun b => hexPadded 2 b.toNat

section Pairs

variable {bytes : List UInt8} {b : UInt8}

/-- The two characters of a byte and what the reader makes of each. -/
theorem exists_characters (b : UInt8) : ∃ high low, hexPadded 2 b.toNat = [high, low] ∧
    publicConvertAscToVal high = (if 0x10 ≤ b then b >>> 4 else 0xff) ∧
    publicConvertAscToVal low = b &&& 0x0f := by
  have hbyte : ∀ n < 256, (hexPadded 2 n).length = 2 ∧
      publicConvertAscToVal ((hexPadded 2 n).getD 0 0) =
        (if 0x10 ≤ UInt8.ofNat n then UInt8.ofNat n >>> 4 else 0xff) ∧
      publicConvertAscToVal ((hexPadded 2 n).getD 1 0) = UInt8.ofNat n &&& 0x0f := by
    decide +kernel
  obtain ⟨hlength, hhigh, hlow⟩ := hbyte b.toNat b.toNat_lt
  obtain ⟨high, low, hpair⟩ := List.length_eq_two.mp hlength
  rw [hpair, UInt8.ofNat_toNat] at hhigh hlow
  exact ⟨high, low, hpair, hhigh, hlow⟩

/-- A pair that was printed reads as its byte, or not at all if it begins with a space. -/
theorem twoAscToOneChar_hexPadded (b : UInt8) (behind : List UInt8) (result : UInt8) :
    publicConvertTwoAscToOneChar (hexPadded 2 b.toNat ++ behind) result =
      some (if 0x10 ≤ b then (1, b) else (0, result)) := by
  obtain ⟨high, low, hpair, hhigh, hlow⟩ := exists_characters b
  have hnibbles : ∀ n < 256, UInt8.ofNat n >>> 4 ≠ 0xff ∧ UInt8.ofNat n &&& 0x0f ≠ 0xff ∧
      (UInt8.ofNat n >>> 4) * 16 + (UInt8.ofNat n &&& 0x0f) = UInt8.ofNat n := by decide +kernel
  have hbyte := hnibbles b.toNat b.toNat_lt
  rw [UInt8.ofNat_toNat] at hbyte
  obtain ⟨hhigh_ne, hlow_ne, hsum⟩ := hbyte
  rw [hpair, publicConvertTwoAscToOneChar, List.cons_append, List.cons_append,
    List.getElem?_cons_zero, Option.bind_some, List.getElem?_cons_succ, List.getElem?_cons_zero]
  dsimp only
  rw [Option.map_some, hhigh, hlow]
  by_cases hb : 0x10 ≤ b
  · simp only [if_pos hb, if_neg hhigh_ne, if_neg hlow_ne, hsum]
  · simp only [if_neg hb, if_true]

theorem hexPadded_length (b : UInt8) : (hexPadded 2 b.toNat).length = 2 := by
  obtain ⟨high, low, hpair, -⟩ := exists_characters b
  rw [hpair]
  rfl

theorem hexText_length (bytes : List UInt8) : (hexText bytes).length = 2 * bytes.length :=
  length_flatMap hexPadded_length bytes

/-- The pair of byte `i` in a text. -/
theorem drop_hexText (bytes : List UInt8) {i : ℕ} (hi : i < bytes.length) :
    ∃ behind, (hexText bytes).drop (2 * i) = hexPadded 2 (bytes[i]).toNat ++ behind := by
  have hsplit : bytes = bytes.take i ++ bytes[i] :: bytes.drop (i + 1) := by
    rw [← List.drop_eq_getElem_cons hi, List.take_append_drop]
  have hfront : (hexText (bytes.take i)).length = 2 * i := by
    rw [hexText_length, List.length_take_of_le hi.le]
  refine ⟨hexText (bytes.drop (i + 1)), ?_⟩
  have htext : hexText bytes = hexText (bytes.take i) ++
      (hexPadded 2 (bytes[i]).toNat ++ hexText (bytes.drop (i + 1))) := by
    conv_lhs => rw [hsplit]
    rw [hexText, hexText, hexText, List.flatMap_append, List.flatMap_cons]
  rw [htext, List.drop_left' hfront]

theorem read_hexText (bytes : List UInt8) {i : ℕ} (hi : i < bytes.length) (result : UInt8) :
    publicConvertTwoAscToOneChar ((hexText bytes).drop (2 * i)) result =
      some (if 0x10 ≤ bytes[i] then (1, bytes[i]) else (0, result)) := by
  obtain ⟨behind, hdrop⟩ := drop_hexText bytes hi
  rw [hdrop, twoAscToOneChar_hexPadded]

end Pairs

section RoundTrip

variable {bytes : List UInt8}

/-- As many pairs are printed as the parameter says. -/
theorem convertStrToASC_eq {des : List UInt8} {len : UInt16} (hsrc : len.toNat ≤ bytes.length)
    (hdes : 2 * len.toNat + 1 ≤ des.length) : publicConvertStrToASC des bytes len =
      some (blit des 0 (hexText (bytes.take len.toNat) ++ if len.toNat = 0 then [] else [0])) := by
  rw [publicConvertStrToASC, hexText,
    fillBlocks_map (fun b : UInt8 => hexPadded 2 b.toNat) [0] hexPadded_length hsrc hdes]

theorem HexSafe.hexReturns (h : HexSafe bytes) : HexReturns bytes := by
  intro des hdes
  have hlen : (UInt16.ofNat bytes.length).toNat = bytes.length := UInt16.toNat_ofNat_of_lt' h.1
  have hlength := hexText_length bytes
  refine ⟨hexText bytes, hlength, ?_, fun i hi result => ?_⟩
  · rw [convertStrToASC_eq (by omega) (by omega), hlen, List.take_length]
    by_cases hempty : bytes = []
    · subst hempty
      rw [if_pos rfl, hexText]
      rfl
    · rw [if_neg hempty, if_neg (List.length_eq_zero_iff.not.mpr hempty), blit_all]
      rw [List.length_append, hlength, hdes]
      rfl
  · rw [read_hexText bytes hi, if_pos (h.2 _ (List.getElem_mem hi))]

/-- The text in an array of ones. -/
theorem HexReturns.exists_text (h : HexReturns bytes) (hne : bytes ≠ []) :
    ∃ des text : List UInt8, des.length = 2 * bytes.length + 1 ∧ (∀ c ∈ des, c = 1) ∧
      text.length = 2 * bytes.length ∧
      publicConvertStrToASC des bytes (UInt16.ofNat bytes.length) = some (text ++ [0]) ∧
      ∀ i (hi : i < bytes.length),
        publicConvertTwoAscToOneChar (text.drop (2 * i)) 0 = some (1, bytes[i]) := by
  have hdes : (List.replicate (2 * bytes.length + 1) (1 : UInt8)).length =
      2 * bytes.length + 1 := List.length_replicate
  obtain ⟨text, hlength, hprint, hread⟩ := h _ hdes
  rw [if_neg hne] at hprint
  exact ⟨_, text, hdes, fun _ => List.eq_of_mem_replicate, hlength, hprint,
    fun i hi => hread i hi 0⟩

/-- A longer string loses its length in the parameter, and the end of the text is never
written. -/
theorem HexReturns.length_lt (h : HexReturns bytes) : bytes.length < 65536 := by
  by_contra hlong
  have hlen : (UInt16.ofNat bytes.length).toNat = bytes.length % 65536 := UInt16.toNat_ofNat'
  have hmod : bytes.length % 65536 < 65536 := Nat.mod_lt _ (by decide)
  have hne : bytes ≠ [] := by
    rintro rfl
    exact hlong (by decide)
  obtain ⟨des, text, hdes, hones, htext, hprint, -⟩ := h.exists_text hne
  have hfront := hexText_length (bytes.take (bytes.length % 65536))
  rw [List.length_take_of_le (by omega)] at hfront
  rw [convertStrToASC_eq (by omega) (by omega), hlen, Option.some.injEq] at hprint
  have hlast := congrArg (fun cells : List UInt8 => cells[2 * bytes.length]?) hprint
  rw [getElem?_blit, if_neg, List.getElem?_append_right htext.le, htext, Nat.sub_self] at hlast
  · exact absurd (hones 0 (List.mem_of_getElem? hlast)) (by decide)
  · rw [List.length_append, hfront]
    split_ifs <;> simp <;> omega
  · rw [List.length_append, hfront, hdes]
    split_ifs <;> simp <;> omega

theorem HexReturns.le_of_mem (h : HexReturns bytes) : ∀ b ∈ bytes, 0x10 ≤ b := by
  have hlt := h.length_lt
  have hlen : (UInt16.ofNat bytes.length).toNat = bytes.length := UInt16.toNat_ofNat_of_lt' hlt
  have hlength := hexText_length bytes
  intro b hb
  obtain ⟨i, hi, rfl⟩ := List.mem_iff_getElem.mp hb
  have hne : bytes ≠ [] := List.ne_nil_of_mem hb
  obtain ⟨des, text, hdes, -, -, hprint, hread⟩ := h.exists_text hne
  rw [convertStrToASC_eq (by omega) (by omega), hlen, List.take_length,
    if_neg (List.length_eq_zero_iff.not.mpr hne), blit_all, Option.some.injEq,
    List.append_cancel_right_eq] at hprint
  · subst hprint
    by_contra hspace
    have hpair := hread i hi
    rw [read_hexText bytes hi, if_neg hspace] at hpair
    simp at hpair
  · rw [List.length_append, hlength, hdes]
    rfl

/-- Bytes come back from their text exactly if there are less than 65536 of them and none is below
0x10. -/
theorem hexReturns_iff (bytes : List UInt8) : HexReturns bytes ↔ HexSafe bytes :=
  ⟨fun h => ⟨h.length_lt, h.le_of_mem⟩, HexSafe.hexReturns⟩

/-- The byte 0x0F is printed as a space and an `F`. -/
theorem not_hexReturns : ¬ ∀ bytes, HexReturns bytes := by
  intro h
  have hle := (h [0x0f]).le_of_mem 0x0f (List.mem_singleton_self _)
  exact absurd hle (by decide)

end RoundTrip

end VehicleTerminal.Public
