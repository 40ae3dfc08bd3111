import VehicleTerminal.Public.Nibbles
import VehicleTerminal.Library.Printf
import VehicleTerminal.Library.MachineInt

/-! Numbers of 16 and 32 bits and their BCD bytes in `Public.c`. The encoders print the number and
pack the characters; they let `Public_ConvertAscToBCD` convert as many pairs as there are
characters, and copy the first half of its bytes. -/
namespace VehicleTerminal.Public
open BlockLoop BlockMemory E2ParamApp MachineInt Printf

section Model

/-- The local arrays before anything is written to them. -/
structure Scratch where
  temp : List UInt8
  temp1 : List UInt8
  temp_length : temp.length = 20
  temp1_length : temp1.length = 20

instance : Inhabited Scratch := ⟨⟨List.replicate 20 0, List.replicate 20 0, rfl, rfl⟩⟩

/-- The body of the encoders, with the width of their format. -/
def valueToBCD (width : ℕ) (val : ℤ) (s : Scratch) (buffer : List UInt8) : Option (List UInt8) :=
  (sprintf s.temp (zeroPadded width val)).bind fun temp =>
    (publicConvertAscToBCD s.temp1 temp (UInt8.ofNat width)).bind fun temp1 =>
      copyIn buffer 0 temp1 (width / 2)

def publicConvertShortToBCD (val : UInt16) : Scratch → List UInt8 → Option (List UInt8) :=
  let val := if val > 9999 then 9999 else val
  valueToBCD 4 val.toNat

def publicConvertShortToBCDEx (val : UInt16) : Scratch → List UInt8 → Option (List UInt8) :=
  valueToBCD 6 val.toNat

/-- `%d` takes the 32 bits for a signed number. -/
def publicConvertLongToBCD (val : UInt32) : Scratch → List UInt8 → Option (List UInt8) :=
  let val := if val > 99999999 then 99999999 else val
  valueToBCD 8 (int32 val.toNat)

def publicConvertLongToBCDEx (val : UInt32) : Scratch → List UInt8 → Option (List UInt8) :=
  valueToBCD 10 (int32 val.toNat)

/-- The number, and the buffer, which the call names as the destination of the values. -/
def publicConvertBCDToShort (data buffer : List UInt8) : Option (UInt16 × List UInt8) :=
  (publicConvertBcdToValue buffer data 4).bind fun buffer =>
    (data[0]?).bind fun d0 => (data[1]?).map fun d1 =>
      (UInt16.ofNat (100 * d0.toNat + d1.toNat), buffer)

def publicConvertBCDToLong (data buffer : List UInt8) : Option UInt32 :=
  (publicConvertBcdToValue data buffer 4).bind fun data =>
    (data[0]?).bind fun d0 => (data[1]?).bind fun d1 => (data[2]?).bind fun d2 =>
      (data[3]?).map fun d3 => UInt32.ofNat
        (1000000 * d0.toNat + 10000 * d1.toNat + 100 * d2.toNat + d3.toNat)

end Model

section Digits

/-- The last `2 * k` decimal digits in `k` BCD bytes. -/
def bcdDigits : ℕ → ℕ → List UInt8
  | 0, _ => []
  | k + 1, n => bcdDigits k (n / 100) ++ [bcdByte (n % 100)]

@[simp] theorem bcdDigits_length (k n : ℕ) : (bcdDigits k n).length = k := by
  induction k generalizing n with
  | zero => rfl
  | succ k ih => rw [bcdDigits, List.length_append, ih, List.length_singleton]

/-- Every byte has two decimal digits. -/
theorem exists_of_mem_bcdDigits {k n : ℕ} {b : UInt8} (h : b ∈ bcdDigits k n) :
    ∃ v < 100, b = bcdByte v := by
  induction k generalizing n with
  | zero => cases h
  | succ k ih =>
    rw [bcdDigits, List.mem_append, List.mem_singleton] at h
    rcases h with hfront | hlast
    · exact ih hfront
    · exact ⟨n % 100, Nat.mod_lt n (by decide), hlast⟩

theorem packPair_digit {a b : ℕ} (ha : a < 10) (hb : b < 10) :
    packPair (digit a) (digit b) = bcdByte (10 * a + b) := by
  have hdigits : ∀ a < 10, ∀ b < 10, packPair (digit a) (digit b) = bcdByte (10 * a + b) := by
    decide +kernel
  exact hdigits a ha b hb

theorem packed_digits (k n : ℕ) : packed (digits (2 * k) n) = bcdDigits k n := by
  induction k generalizing n with
  | zero => rfl
  | succ k ih =>
    have hpair : 10 * (n / 10 % 10) + n % 10 = n % 100 := by omega
    rw [Nat.mul_succ, digits, digits, List.append_assoc, packed_append (digits_length _ _),
      Nat.div_div_eq_div_mul, ih, bcdDigits, List.singleton_append, packed,
      packPair_digit (Nat.mod_lt _ (by decide)) (Nat.mod_lt _ (by decide)), hpair]
    rfl

/-- The number that the decimal digits in BCD bytes stand for. -/
def bcdValue (bytes : List UInt8) : ℕ :=
  bytes.foldl (fun n b => 100 * n + (b.toNat / 16 * 10 + b.toNat % 16)) 0

/-- Both nibbles are decimal digits. -/
def IsDecimal (b : UInt8) : Prop := b.toNat / 16 ≤ 9 ∧ b.toNat % 16 ≤ 9

instance (b : UInt8) : Decidable (IsDecimal b) := inferInstanceAs (Decidable (_ ∧ _))

theorem bcdValue_append (bytes : List UInt8) (b : UInt8) :
    bcdValue (bytes ++ [b]) = 100 * bcdValue bytes + (b.toNat / 16 * 10 + b.toNat % 16) := by
  rw [bcdValue, List.foldl_append]
  rfl

theorem bcdValue_bcdDigits {k n : ℕ} (h : n < 100 ^ k) : bcdValue (bcdDigits k n) = n := by
  induction k generalizing n with
  | zero =>
    rw [pow_zero] at h
    rw [Nat.lt_one_iff.mp h]
    rfl
  | succ k ih =>
    have hrest : n / 100 < 100 ^ k := Nat.div_lt_of_lt_mul (by rwa [← pow_succ'])
    rw [bcdDigits, bcdValue_append, ih hrest, bcdByte_toNat (Nat.mod_lt n (by decide))]
    omega

theorem bcdValue_lt {bytes : List UInt8} (h : ∀ b ∈ bytes, IsDecimal b) :
    bcdValue bytes < 100 ^ bytes.length := by
  induction bytes using List.reverseRecOn with
  | nil => exact Nat.one_pos
  | append_singleton bytes b ih =>
    have hfront := ih fun c hc => h c (List.mem_append_left _ hc)
    obtain ⟨hhigh, hlow⟩ := h b (List.mem_append_right _ (List.mem_singleton_self b))
    rw [bcdValue_append, List.length_append, List.length_singleton, pow_succ]
    omega

theorem bcdDigits_bcdValue {bytes : List UInt8} (h : ∀ b ∈ bytes, IsDecimal b) :
    bcdDigits bytes.length (bcdValue bytes) = bytes := by
  induction bytes using List.reverseRecOn with
  | nil => rfl
  | append_singleton bytes b ih =>
    have hfront := ih fun c hc => h c (List.mem_append_left _ hc)
    obtain ⟨hhigh, hlow⟩ := h b (List.mem_append_right _ (List.mem_singleton_self b))
    have hquotient : (100 * bcdValue bytes + (b.toNat / 16 * 10 + b.toNat % 16)) / 100 =
        bcdValue bytes := by omega
    have hlast : (100 * bcdValue bytes + (b.toNat / 16 * 10 + b.toNat % 16)) % 100 =
        b.toNat / 16 * 10 + b.toNat % 16 := by omega
    have hbyte : bcdByte (b.toNat / 16 * 10 + b.toNat % 16) = b := by
      rw [← UInt8.toNat_inj, bcdByte_toNat (by omega)]
      omega
    rw [bcdValue_append, List.length_append, List.length_singleton, bcdDigits, hquotient, hlast,
      hfront, hbyte]

theorem packed_take (k : ℕ) (text : List UInt8) :
    (packed text).take k = packed (text.take (2 * k)) := by
  induction k generalizing text with
  | zero => rfl
  | succ k ih =>
    rw [Nat.mul_succ]
    match text with
    | [] | [_] => rfl
    | high :: low :: text =>
      rw [packed, List.take_succ_cons, List.take_succ_cons, List.take_succ_cons, packed, ih]

end Digits

section Encode

variable {k : ℕ} {val : ℤ} {s : Scratch} {buffer : List UInt8}

theorem take_blit_zero {α : Type*} {mem xs : List α} {n : ℕ} (hn : n ≤ xs.length) :
    (blit mem 0 xs).take n = xs.take n := by
  rw [blit, List.take_zero, List.nil_append, List.take_append_of_le_length hn]

/-- The copied bytes come from the first characters of the text. What is behind the text in the
array is converted as well, but not copied. -/
theorem convert_printed {text temp temp1 : List UInt8} {len : UInt8}
    (hlen : k ≤ len.toNat) (htext : 2 * k ≤ text.length) (hprinted : text.length < temp.length)
    (htemp : 2 * len.toNat ≤ temp.length) (htemp1 : len.toNat ≤ temp1.length)
    (hbuffer : k ≤ buffer.length) :
    ((publicConvertAscToBCD temp1 (blit temp 0 (text ++ [0])) len).bind fun temp1 =>
      copyIn buffer 0 temp1 k) = some (blit buffer 0 (packed (text.take (2 * k)))) := by
  have hterminated : (text ++ [0]).length = text.length + 1 := List.length_append
  have hmem : (blit temp 0 (text ++ [0])).length = temp.length :=
    blit_length _ _ _ (by omega)
  have hpacked : (packed ((blit temp 0 (text ++ [0])).take (2 * len.toNat))).length = len.toNat :=
    packed_length (List.length_take_of_le (by omega))
  have hconverted : (blit temp1 0 (packed ((blit temp 0 (text ++ [0])).take
      (2 * len.toNat)))).length = temp1.length := blit_length _ _ _ (by omega)
  rw [convertAscToBCD_eq (by omega) htemp1, Option.bind_some,
    copyIn_of_le (by omega) (by omega), take_blit_zero (by omega), packed_take, List.take_take,
    Nat.min_eq_left (by omega), take_blit_zero (by omega), List.take_append_of_le_length htext]

theorem valueToBCD_eq (hk : k ≤ 5) (htext : (zeroPadded (2 * k) val).length < 20)
    (hbuffer : k ≤ buffer.length) : valueToBCD (2 * k) val s buffer =
      some (blit buffer 0 (packed ((zeroPadded (2 * k) val).take (2 * k)))) := by
  have htemp := s.temp_length
  have htemp1 := s.temp1_length
  have hwidth := le_zeroPadded_length (2 * k) val
  have hlen : (UInt8.ofNat (2 * k)).toNat = 2 * k := toNat_ofNat_of_le (by omega)
  rw [valueToBCD, sprintf_of_lt (by omega), Option.bind_some, Nat.mul_div_cancel_left k (by decide),
    convert_printed (by omega) hwidth (by omega) (by omega) (by omega) hbuffer]

theorem valueToBCD_natCast {n : ℕ} (hpos : 0 < k) (hk : k ≤ 5) (hn : n < 10 ^ (2 * k))
    (hbuffer : k ≤ buffer.length) :
    valueToBCD (2 * k) n s buffer = some (blit buffer 0 (bcdDigits k n)) := by
  have htext := zeroPadded_natCast (Nat.mul_pos two_pos hpos) hn
  have hlength := digits_length (2 * k) n
  rw [valueToBCD_eq hk (by rw [htext]; omega) hbuffer, htext,
    List.take_of_length_le hlength.le, packed_digits]

end Encode

section Short

variable {data buffer : List UInt8}

/-- The first two bytes are the four digits of the value, or of 9999. -/
def EncodesShort (v : UInt16) : Prop :=
  ∀ (s : Scratch) (buffer : List UInt8), 2 ≤ buffer.length →
    publicConvertShortToBCD v s buffer = some (blit buffer 0 (bcdDigits 2 (min v.toNat 9999)))

/-- The first three bytes are the six digits of the value. -/
def EncodesShortEx (v : UInt16) : Prop :=
  ∀ (s : Scratch) (buffer : List UInt8), 3 ≤ buffer.length →
    publicConvertShortToBCDEx v s buffer = some (blit buffer 0 (bcdDigits 3 v.toNat))

/-- The decoder returns the value that was encoded into a buffer, whatever its array held. -/
def ReturnsShort (v : UInt16) (buffer : List UInt8) : Prop :=
  ∀ (s : Scratch) (data : List UInt8), data.length = 20 →
    ∃ encoded buffer', publicConvertShortToBCD v s buffer = some encoded ∧
      publicConvertBCDToShort data encoded = some (UInt16.ofNat (min v.toNat 9999), buffer')

/-- The decoder returns the value of two bytes and keeps them and what is behind them, whatever its
array held. -/
def DecodesShort (b0 b1 : UInt8) (behind : List UInt8) : Prop :=
  ∀ data : List UInt8, data.length = 20 → publicConvertBCDToShort data (b0 :: b1 :: behind) =
    some (UInt16.ofNat (bcdValue [b0, b1]), b0 :: b1 :: behind)

theorem toNat_min (v : UInt16) : (if v > 9999 then 9999 else v).toNat = min v.toNat 9999 := by
  have hlt : v > 9999 ↔ 9999 < v.toNat := UInt16.lt_iff_toNat_lt
  split_ifs with h
  · rw [Nat.min_eq_right (hlt.mp h).le]
    rfl
  · rw [Nat.min_eq_left (not_lt.mp (hlt.not.mp h))]

theorem encodesShort (v : UInt16) : EncodesShort v := by
  intro s buffer hbuffer
  have hlt : min v.toNat 9999 < 10 ^ (2 * 2) := by omega
  have hencoded := valueToBCD_natCast (s := s) (by decide) (by decide) hlt hbuffer
  rwa [publicConvertShortToBCD, toNat_min]

theorem encodesShortEx (v : UInt16) : EncodesShortEx v := by
  intro s buffer hbuffer
  have hv := v.toNat_lt
  have hlt : v.toNat < 10 ^ (2 * 3) := by omega
  have hencoded := valueToBCD_natCast (s := s) (by decide) (by decide) hlt hbuffer
  rwa [publicConvertShortToBCDEx]

/-- With room for four bytes the decoder returns what its array held, and overwrites the bytes that
it should decode. -/
theorem convertBCDToShort_eq (hdata : data.length = 20) (hbuffer : 4 ≤ buffer.length) :
    publicConvertBCDToShort data buffer =
      some (UInt16.ofNat (100 * (data.getD 0 0).toNat + (data.getD 1 0).toNat),
        blit buffer 0 ((data.take 4).map E2ParamApp.publicConvertBcdToValue)) := by
  have hlen : (4 : UInt8).toNat = 4 := rfl
  rw [publicConvertBCDToShort, convertBcdToValue_eq (by omega) (by omega), Option.bind_some, hlen,
    List.getElem?_eq_getElem (by omega : 0 < data.length),
    List.getElem?_eq_getElem (by omega : 1 < data.length),
    List.getD_eq_getElem?_getD, List.getD_eq_getElem?_getD,
    List.getElem?_eq_getElem (by omega : 0 < data.length),
    List.getElem?_eq_getElem (by omega : 1 < data.length)]
  rfl

/-- The returned number does not depend on the bytes. -/
theorem of_convertBCDToShort_eq_some {data0 data1 : UInt8} {rest : List UInt8}
    {result : UInt16 × List UInt8}
    (h : publicConvertBCDToShort (data0 :: data1 :: rest) buffer = some result) :
    result.1 = UInt16.ofNat (100 * data0.toNat + data1.toNat) := by
  obtain ⟨buffer', -, h⟩ := Option.bind_eq_some_iff.mp h
  rw [List.getElem?_cons_zero, List.getElem?_cons_succ, List.getElem?_cons_zero] at h
  exact congrArg Prod.fst (Option.some.inj h).symm

/-- No number is returned for every content of the array. -/
theorem exists_wrong_array (val : UInt16) : ∃ data : List UInt8, data.length = 20 ∧
    ∀ buffer result, publicConvertBCDToShort data buffer = some result → result.1 ≠ val := by
  by_cases hval : val = 0
  · refine ⟨List.replicate 20 1, rfl, fun buffer result h => ?_⟩
    rw [of_convertBCDToShort_eq_some h, hval]
    decide
  · refine ⟨List.replicate 20 0, rfl, fun buffer result h => ?_⟩
    rw [of_convertBCDToShort_eq_some h]
    exact Ne.symm hval

theorem not_returnsShort (v : UInt16) (buffer : List UInt8) : ¬ ReturnsShort v buffer := by
  intro h
  obtain ⟨data, hdata, hwrong⟩ := exists_wrong_array (UInt16.ofNat (min v.toNat 9999))
  obtain ⟨encoded, buffer', -, hdecode⟩ := h default data hdata
  exact hwrong encoded _ hdecode rfl

theorem not_decodesShort (b0 b1 : UInt8) (behind : List UInt8) : ¬ DecodesShort b0 b1 behind := by
  intro h
  obtain ⟨data, hdata, hwrong⟩ := exists_wrong_array (UInt16.ofNat (bcdValue [b0, b1]))
  exact hwrong _ _ (h data hdata) rfl

/-- The encoders are right for every value, the decoder for none and on no bytes. -/
theorem convertBCDToShort_never (v : UInt16) (buffer : List UInt8) (b0 b1 : UInt8)
    (behind : List UInt8) : EncodesShort v ∧ EncodesShortEx v ∧ ¬ ReturnsShort v buffer ∧
      ¬ DecodesShort b0 b1 behind :=
  ⟨encodesShort v, encodesShortEx v, not_returnsShort v buffer, not_decodesShort b0 b1 behind⟩

/-- The bytes 0x12 and 0x34 with an array of zeros: the number is 0, and the bytes are gone. -/
theorem not_shortConversions : ¬ ((∀ v, EncodesShort v ∧ EncodesShortEx v) ∧
    (∀ v buffer, 4 ≤ buffer.length → ReturnsShort v buffer) ∧
    ∀ b0 b1 behind, IsDecimal b0 → IsDecimal b1 → 2 ≤ behind.length →
      DecodesShort b0 b1 behind) := by
  rintro ⟨-, -, hdecode⟩
  have hbytes := hdecode 0x12 0x34 [0, 0] (by decide) (by decide) (by decide)
    (List.replicate 20 0) rfl
  rw [convertBCDToShort_eq rfl (by decide)] at hbytes
  exact absurd hbytes (by decide)

end Short

section Long

/-- What was encoded into a buffer is decoded to the value, or to 99999999. -/
def ReturnsLong (v : UInt32) : Prop :=
  ∀ (s : Scratch) (data buffer : List UInt8), data.length = 20 → 4 ≤ buffer.length →
    ∃ encoded, publicConvertLongToBCD v s buffer = some encoded ∧
      publicConvertBCDToLong data encoded = some (UInt32.ofNat (min v.toNat 99999999))

/-- Four bytes in front of others are decoded to a number that is encoded to them. -/
def BytesReturnLong (bytes : List UInt8) : Prop :=
  ∀ (s : Scratch) (data buffer behind : List UInt8), data.length = 20 → 4 ≤ buffer.length →
    ∃ v, publicConvertBCDToLong data (bytes ++ behind) = some v ∧
      publicConvertLongToBCD v s buffer = some (blit buffer 0 bytes)

/-- The first five bytes are the ten digits of the value. -/
def EncodesLongEx (v : UInt32) : Prop :=
  ∀ (s : Scratch) (buffer : List UInt8), 5 ≤ buffer.length →
    publicConvertLongToBCDEx v s buffer = some (blit buffer 0 (bcdDigits 5 v.toNat))

theorem convertBCDToLong_eq {data bytes : List UInt8} (hdata : data.length = 20)
    (hbytes : bytes.length = 4) (behind : List UInt8) :
    publicConvertBCDToLong data (bytes ++ behind) = some (UInt32.ofNat (bcdValue bytes)) := by
  have hlen : (4 : UInt8).toNat = 4 := rfl
  have hsource : (4 : UInt8).toNat ≤ (bytes ++ behind).length := by
    rw [List.length_append]
    omega
  rw [publicConvertBCDToLong, convertBcdToValue_eq hsource (by omega), Option.bind_some, hlen,
    List.take_left' hbytes]
  match bytes, hbytes with
  | [b0, b1, b2, b3], _ =>
    simp only [blit, List.take_zero, List.nil_append, List.map_cons, List.cons_append,
      List.getElem?_cons_zero, List.getElem?_cons_succ, Option.bind_some, Option.map_some,
      convertBcdToValue_toNat, lowNibble, bcdValue, List.foldl_cons, List.foldl_nil]
    congr 2
    omega

theorem convertLongToBCD_eq {s : Scratch} {buffer : List UInt8} (v : UInt32)
    (hbuffer : 4 ≤ buffer.length) : publicConvertLongToBCD v s buffer =
      some (blit buffer 0 (bcdDigits 4 (min v.toNat 99999999))) := by
  have hmin : (if v > 99999999 then 99999999 else v).toNat = min v.toNat 99999999 := by
    have hlt : v > 99999999 ↔ 99999999 < v.toNat := UInt32.lt_iff_toNat_lt
    split_ifs with h
    · rw [Nat.min_eq_right (hlt.mp h).le]
      rfl
    · rw [Nat.min_eq_left (not_lt.mp (hlt.not.mp h))]
  have hlt : min v.toNat 99999999 < 10 ^ (2 * 4) := by omega
  have hencoded := valueToBCD_natCast (s := s) (by decide) (by decide) hlt hbuffer
  rwa [publicConvertLongToBCD, hmin, int32_natCast (by omega)]

theorem returnsLong (v : UInt32) : ReturnsLong v := by
  intro s data buffer hdata hbuffer
  have hlength := bcdDigits_length 4 (min v.toNat 99999999)
  refine ⟨_, convertLongToBCD_eq v hbuffer, ?_⟩
  rw [blit, List.take_zero, List.nil_append, convertBCDToLong_eq hdata hlength,
    bcdValue_bcdDigits (by omega)]

theorem bytesReturnLong {bytes : List UInt8} (hbytes : bytes.length = 4)
    (hdecimal : ∀ b ∈ bytes, IsDecimal b) : BytesReturnLong bytes := by
  intro s data buffer behind hdata hbuffer
  have hvalue := bcdValue_lt hdecimal
  have hdigits := bcdDigits_bcdValue hdecimal
  rw [hbytes] at hvalue hdigits
  have hword : (UInt32.ofNat (bcdValue bytes)).toNat = bcdValue bytes := by
    rw [UInt32.toNat_ofNat']
    omega
  refine ⟨_, convertBCDToLong_eq hdata hbytes behind, ?_⟩
  rw [convertLongToBCD_eq _ hbuffer, hword, Nat.min_eq_left (by omega), hdigits]

theorem encodesLongEx {v : UInt32} (h : v.toNat < 2147483648) : EncodesLongEx v := by
  intro s buffer hbuffer
  have hlt : v.toNat < 10 ^ (2 * 5) := by omega
  have hencoded := valueToBCD_natCast (s := s) (by decide) (by decide) hlt hbuffer
  rwa [publicConvertLongToBCDEx, int32_natCast h]

/-- The first nibble of a text with a sign is no digit. -/
theorem packPair_sign_ne_bcdByte (c : UInt8) {n : ℕ} (hn : n < 100) :
    packPair 0x2d c ≠ bcdByte n := by
  have hpair : ∀ m < 256, 0xd0 ≤ (packPair 0x2d (UInt8.ofNat m)).toNat := by decide +kernel
  have hsign := hpair c.toNat c.toNat_lt
  rw [UInt8.ofNat_toNat] at hsign
  intro heq
  rw [heq, bcdByte_toNat hn] at hsign
  omega

/-- From 2 ^ 31 on the number is printed with a sign. -/
theorem EncodesLongEx.lt {v : UInt32} (h : EncodesLongEx v) : v.toNat < 2147483648 := by
  by_contra hlarge
  have hv := v.toNat_lt
  have hneg : int32 v.toNat < 0 := by
    unfold int32
    omega
  have hlength := zeroPadded_length_le (by decide : 0 < 2 * 5) (int32_natAbs_lt v.toNat)
  have hwidth := le_zeroPadded_length (2 * 5) (int32 v.toNat)
  obtain ⟨text, hsign⟩ := zeroPadded_of_neg (2 * 5) hneg
  obtain ⟨c, text, rfl⟩ : ∃ c rest, text = c :: rest := by
    rw [hsign] at hwidth
    refine List.exists_cons_of_length_pos ?_
    rw [List.length_cons] at hwidth
    omega
  have hencoded : valueToBCD (2 * 5) (int32 v.toNat) default [0, 0, 0, 0, 0] =
      some (blit [0, 0, 0, 0, 0] 0 (bcdDigits 5 v.toNat)) := h default [0, 0, 0, 0, 0] le_rfl
  have hpacked : (packed ((zeroPadded (2 * 5) (int32 v.toNat)).take (2 * 5))).length = 5 :=
    packed_length (List.length_take_of_le hwidth)
  rw [valueToBCD_eq le_rfl (by omega) le_rfl, Option.some.injEq, blit_all hpacked,
    blit_all (bcdDigits_length 5 _), hsign] at hencoded
  have hmem : packPair 0x2d c ∈ bcdDigits 5 v.toNat := by
    rw [← hencoded]
    exact List.mem_cons_self
  obtain ⟨n, hn, hbyte⟩ := exists_of_mem_bcdDigits hmem
  exact packPair_sign_ne_bcdByte c hn hbyte

theorem encodesLongEx_iff_lt (v : UInt32) : EncodesLongEx v ↔ v.toNat < 2147483648 :=
  ⟨EncodesLongEx.lt, encodesLongEx⟩

/-- The two conversions are inverse to each other, and the one with ten digits is right exactly
below 2 ^ 31. -/
theorem longConversions_iff (v : UInt32) : ReturnsLong v ∧
    (∀ bytes : List UInt8, bytes.length = 4 → (∀ b ∈ bytes, IsDecimal b) →
      BytesReturnLong bytes) ∧
    (EncodesLongEx v ↔ v.toNat < 2147483648) :=
  ⟨returnsLong v, fun _ => bytesReturnLong, encodesLongEx_iff_lt v⟩

/-- The largest number of eight digits, and a value that is printed with a sign. -/
theorem longConversions_iff_bytes :
    BytesReturnLong [0x99, 0x99, 0x99, 0x99] ∧ ¬ EncodesLongEx 3000000000 :=
  ⟨(longConversions_iff 0).2.1 (List.replicate 4 0x99) rfl
      (List.forall_mem_replicate.mpr (.inr (by decide))),
    (longConversions_iff 3000000000).2.2.not.mpr (by decide)⟩

/-- The value 3000000000 is printed as -1294967296. -/
theorem not_encodesLongEx : ¬ ∀ v, EncodesLongEx v := by
  intro h
  exact absurd (h 3000000000).lt (by decide)

end Long

end VehicleTerminal.Public
