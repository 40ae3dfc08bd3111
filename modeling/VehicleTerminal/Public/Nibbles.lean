import VehicleTerminal.Library.BlockLoop
import VehicleTerminal.Param.Bcd

/-! The conversions of `Public.c` between BCD bytes, the characters of their nibbles and their
values. An access outside an array has no result. -/
namespace VehicleTerminal.Public
open BlockLoop BlockMemory

section Model

/-- A byte from the lower nibbles of two characters. -/
def packPair (high low : UInt8) : UInt8 := (high &&& 0x0f) <<< 4 ||| (low &&& 0x0f)

def publicConvertAscToBCD (destin source : List UInt8) (len : UInt8) : Option (List UInt8) :=
  fillBlocks 1 (fun i =>
    (source[2 * i]?).bind fun chhigh =>
      (source[2 * i + 1]?).map fun chlow => [packPair chhigh chlow]) destin len.toNat

/-- The characters of the two nibbles of a byte. -/
def unpackByte (bcd : UInt8) : List UInt8 := [(bcd >>> 4) + 0x30, (bcd &&& 0x0f) + 0x30]

def publicConvertBcdToAsc (pAsc pBcd : List UInt8) (bcdLen : UInt8) : Option (List UInt8) :=
  fillBlocks 2 (fun i => (pBcd[i]?).map unpackByte) pAsc bcdLen.toNat

def publicConvertBcdToValue (pValue pBcd : List UInt8) (bcdLen : UInt8) : Option (List UInt8) :=
  fillBlocks 1 (fun i => (pBcd[i]?).map fun bcd => [E2ParamApp.publicConvertBcdToValue bcd]) pValue
    bcdLen.toNat

end Model

section Bytes

/-- The bytes of a text, one for each pair of characters. -/
def packed : List UInt8 → List UInt8
  | high :: low :: text => packPair high low :: packed text
  | _ => []

/-- The text of bytes, two characters for each. -/
def unpacked (bytes : List UInt8) : List UInt8 := bytes.flatMap unpackByte

theorem packPair_unpackByte (b : UInt8) :
    packPair ((b >>> 4) + 0x30) ((b &&& 0x0f) + 0x30) = b := by
  have hbyte : ∀ n < 256, packPair ((UInt8.ofNat n >>> 4) + 0x30)
      ((UInt8.ofNat n &&& 0x0f) + 0x30) = UInt8.ofNat n := by decide +kernel
  simpa using hbyte b.toNat b.toNat_lt

theorem unpackByte_packPair {high low : UInt8} (hhigh : 0x30 ≤ high ∧ high ≤ 0x3f)
    (hlow : 0x30 ≤ low ∧ low ≤ 0x3f) : unpackByte (packPair high low) = [high, low] := by
  have hpair : ∀ m < 0x40, 0x30 ≤ m → ∀ n < 0x40, 0x30 ≤ n →
      unpackByte (packPair (UInt8.ofNat m) (UInt8.ofNat n)) = [UInt8.ofNat m, UInt8.ofNat n] := by
    decide +kernel
  simpa using hpair high.toNat (Nat.lt_succ_of_le hhigh.2) hhigh.1 low.toNat
    (Nat.lt_succ_of_le hlow.2) hlow.1

theorem packed_unpacked (bytes : List UInt8) : packed (unpacked bytes) = bytes := by
  induction bytes with
  | nil => rfl
  | cons b bytes ih =>
    rw [unpacked] at ih
    rw [unpacked, List.flatMap_cons, unpackByte, List.cons_append, List.cons_append,
      List.nil_append, packed, packPair_unpackByte, ih]

theorem unpacked_packed {k : ℕ} {text : List UInt8} (hlength : text.length = 2 * k)
    (htext : ∀ c ∈ text, 0x30 ≤ c ∧ c ≤ 0x3f) : unpacked (packed text) = text := by
  induction k generalizing text with
  | zero =>
    rw [List.length_eq_zero_iff.mp hlength]
    rfl
  | succ k ih =>
    match text, hlength with
    | high :: low :: text, hlength =>
      have hrest := ih (by simpa [Nat.mul_succ] using hlength)
        fun c hc => htext c (.tail _ (.tail _ hc))
      rw [unpacked] at hrest
      rw [packed, unpacked, List.flatMap_cons, hrest,
        unpackByte_packPair (htext high (.head _)) (htext low (.tail _ (.head _)))]
      rfl

theorem unpacked_length (bytes : List UInt8) : (unpacked bytes).length = 2 * bytes.length :=
  length_flatMap (f := unpackByte) (fun _ => rfl) bytes

theorem packed_append {k : ℕ} {xs : List UInt8} (hlength : xs.length = 2 * k)
    (ys : List UInt8) : packed (xs ++ ys) = packed xs ++ packed ys := by
  induction k generalizing xs with
  | zero =>
    rw [List.length_eq_zero_iff.mp hlength]
    rfl
  | succ k ih =>
    match xs, hlength with
    | high :: low :: xs, hlength =>
      rw [List.cons_append, List.cons_append, packed, packed,
        ih (by simpa [Nat.mul_succ] using hlength), List.cons_append]

theorem packed_length {k : ℕ} {text : List UInt8} (hlength : text.length = 2 * k) :
    (packed text).length = k := by
  induction k generalizing text with
  | zero =>
    rw [List.length_eq_zero_iff.mp hlength]
    rfl
  | succ k ih =>
    match text, hlength with
    | high :: low :: text, hlength =>
      rw [packed, List.length_cons, ih (by simpa [Nat.mul_succ] using hlength)]

end Bytes

section Loops

variable {destin source : List UInt8} {len : UInt8}

theorem flatMap_packPair {n : ℕ} (hn : 2 * n ≤ source.length) :
    (List.range n).flatMap (fun i => [packPair (source.getD (2 * i) 0) (source.getD (2 * i + 1) 0)])
      = packed (source.take (2 * n)) := by
  induction n with
  | zero => rfl
  | succ n ih =>
    have hhigh : 2 * n < source.length := by omega
    have hlow : 2 * n + 1 < source.length := by omega
    have hfront : (source.take (2 * n)).length = 2 * n := List.length_take_of_le hhigh.le
    rw [List.range_succ, List.flatMap_append, ih hhigh.le, List.flatMap_singleton, Nat.mul_succ,
      List.take_add_one, List.take_add_one, List.getElem?_eq_getElem hhigh,
      List.getElem?_eq_getElem hlow, List.append_assoc, packed_append hfront,
      List.getD_eq_getElem?_getD, List.getD_eq_getElem?_getD, List.getElem?_eq_getElem hhigh,
      List.getElem?_eq_getElem hlow]
    rfl

/-- `Public_ConvertAscToBCD` reads two characters for each of `len` bytes. -/
theorem convertAscToBCD_eq (hsource : 2 * len.toNat ≤ source.length)
    (hdestin : len.toNat ≤ destin.length) : publicConvertAscToBCD destin source len =
      some (blit destin 0 (packed (source.take (2 * len.toNat)))) := by
  rw [publicConvertAscToBCD, fillBlocks_eq
    (fun i => [packPair (source.getD (2 * i) 0) (source.getD (2 * i + 1) 0)]) [] ?_
    (fun _ _ => rfl) (by simpa using hdestin), flatMap_packPair hsource, ite_self, List.append_nil]
  intro i hi
  have hhigh : 2 * i < source.length := by omega
  have hlow : 2 * i + 1 < source.length := by omega
  simp [List.getElem?_eq_getElem hhigh, List.getElem?_eq_getElem hlow]

/-- Too short a text is read behind its end. -/
theorem convertAscToBCD_eq_none (hsource : source.length < 2 * len.toNat) :
    publicConvertAscToBCD destin source len = none := by
  have hlast : len.toNat - 1 < len.toNat := by omega
  refine fillBlocks_eq_none hlast ?_
  rw [List.getElem?_eq_none (by omega : source.length ≤ 2 * (len.toNat - 1) + 1)]
  cases source[2 * (len.toNat - 1)]? <;> rfl

theorem convertBcdToAsc_eq (hsource : len.toNat ≤ source.length)
    (hdestin : 2 * len.toNat ≤ destin.length) : publicConvertBcdToAsc destin source len =
      some (blit destin 0 (unpacked (source.take len.toNat))) := by
  have hloop := fillBlocks_map unpackByte [] (fun _ => rfl) hsource (by simpa using hdestin)
  simp only [List.append_nil, ite_self] at hloop
  exact hloop

theorem convertBcdToValue_eq (hsource : len.toNat ≤ source.length)
    (hdestin : len.toNat ≤ destin.length) : publicConvertBcdToValue destin source len =
      some (blit destin 0 ((source.take len.toNat).map E2ParamApp.publicConvertBcdToValue)) := by
  have hloop := fillBlocks_map (fun bcd => [E2ParamApp.publicConvertBcdToValue bcd]) []
    (fun _ => rfl) hsource (by simpa using hdestin)
  simp only [List.append_nil, ite_self, ← List.map_eq_flatMap] at hloop
  exact hloop

end Loops

section RoundTrip

/-- Bytes become a text of two characters each, and the text the bytes, in arrays of just these
sizes. -/
def BytesReturn (bytes : List UInt8) : Prop :=
  ∀ asc bcd : List UInt8, asc.length = 2 * bytes.length → bcd.length = bytes.length →
    ∃ text, publicConvertBcdToAsc asc bytes (UInt8.ofNat bytes.length) = some text ∧
      publicConvertAscToBCD bcd text (UInt8.ofNat bytes.length) = some bytes

/-- A text of `2 * n` characters becomes `n` bytes, and these the text. -/
def TextReturns (n : ℕ) (text : List UInt8) : Prop :=
  ∀ asc bcd : List UInt8, asc.length = 2 * n → bcd.length = n →
    ∃ bytes, publicConvertAscToBCD bcd text (UInt8.ofNat n) = some bytes ∧
      publicConvertBcdToAsc asc bytes (UInt8.ofNat n) = some text

theorem toNat_ofNat_of_le {n : ℕ} (h : n ≤ 255) : (UInt8.ofNat n).toNat = n :=
  UInt8.toNat_ofNat_of_lt' (Nat.lt_succ_of_le h)

theorem bytesReturn_of_le {bytes : List UInt8} (h : bytes.length ≤ 255) : BytesReturn bytes := by
  intro asc bcd hasc hbcd
  have hlen := toNat_ofNat_of_le h
  have htext := unpacked_length bytes
  refine ⟨unpacked bytes, ?_, ?_⟩
  · rw [convertBcdToAsc_eq hlen.le (by omega), hlen, List.take_length, blit_all (by omega)]
  · rw [convertAscToBCD_eq (by omega) (by omega), hlen, ← htext, List.take_length, packed_unpacked,
      blit_all hbcd.symm]

theorem textReturns_of_le {n : ℕ} {text : List UInt8} (h : n ≤ 255) (hlength : text.length = 2 * n)
    (htext : ∀ c ∈ text, 0x30 ≤ c ∧ c ≤ 0x3f) : TextReturns n text := by
  intro asc bcd hasc hbcd
  have hlen := toNat_ofNat_of_le h
  have hbytes := packed_length hlength
  refine ⟨packed text, ?_, ?_⟩
  · rw [convertAscToBCD_eq (by omega) (by omega), hlen, ← hlength, List.take_length,
      blit_all (by omega)]
  · rw [convertBcdToAsc_eq (by omega) (by omega), hlen, ← hbytes, List.take_length,
      unpacked_packed hlength htext, blit_all (by omega)]

/-- The two conversions are inverse to each other, also for nibbles above nine. -/
theorem bcd_text_roundTrip :
    (∀ bytes : List UInt8, bytes.length ≤ 255 → BytesReturn bytes) ∧
    ∀ (n : ℕ) (text : List UInt8), n ≤ 255 → text.length = 2 * n →
      (∀ c ∈ text, 0x30 ≤ c ∧ c ≤ 0x3f) → TextReturns n text :=
  ⟨fun _ => bytesReturn_of_le, fun _ _ => textReturns_of_le⟩

/-- A filler nibble and the character behind `9`. -/
theorem bcd_text_roundTrip_filler : BytesReturn [0x1f, 0xa0] ∧ TextReturns 1 [0x31, 0x3a] :=
  ⟨bcd_text_roundTrip.1 [0x1f, 0xa0] (by decide),
    bcd_text_roundTrip.2 1 [0x31, 0x3a] (by decide) rfl
      (List.forall_mem_cons.mpr ⟨by decide, List.forall_mem_singleton.mpr (by decide)⟩)⟩

end RoundTrip

end VehicleTerminal.Public
