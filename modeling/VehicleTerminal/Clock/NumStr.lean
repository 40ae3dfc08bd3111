import VehicleTerminal.Library.Printf

/-! The decimal text that `Num2NumStr` of `rtc.c` makes of a number. An access outside an array has
no result. -/
namespace VehicleTerminal.Rtc
open BlockMemory CString Printf

section Model

/-- The ten digits in `NumChar`. -/
def numChars (num : UInt32) : List UInt8 :=
  [num / 1000000000, num % 1000000000 / 100000000, num % 100000000 / 10000000,
    num % 10000000 / 1000000, num % 1000000 / 100000, num % 100000 / 10000, num % 10000 / 1000,
    num % 1000 / 100, num % 100 / 10, num % 10].map fun d => (d + 48).toUInt8

/-- The loop `while(NumChar[i] == '0')` over what is left of the array. -/
def leadingZeros : List UInt8 → Option ℕ
  | [] => none
  | c :: numChar => if c = 0x30 then (leadingZeros numChar).map (· + 1) else some 0

def num2NumStr (num : UInt32) (numStr : List UInt8) : Option (List UInt8) :=
  if 0 = num then store numStr 0 0
  else
    let numChar := numChars num
    (leadingZeros numChar).bind fun i =>
      if 10 = i then copyIn numStr 0 [0x30, 0x30, 0] 3
      else if 9 = i then (numChar[i]?).bind fun c => copyIn numStr 0 [0x30, c, 0] 3
      else copyIn numStr 0 (numChar.drop i ++ [0]) (10 - i + 1)

end Model

/-- The decimal digits of a number, at least two of them, and a terminator are written into an
array with room for them; the digits stand for the number. -/
def Renders (num : UInt32) : Prop :=
  ∀ numStr : List UInt8, (zeroPadded 2 num.toNat).length < numStr.length →
    num2NumStr num numStr = some (blit numStr 0 (zeroPadded 2 num.toNat ++ [0])) ∧
      decimalValue (zeroPadded 2 num.toNat) = num.toNat

section Digits

variable {num : UInt32}

theorem toUInt8_add_eq_digit (d : UInt32) : (d + 48).toUInt8 = digit d.toNat := by
  rw [← UInt8.toNat_inj, UInt32.toNat_toUInt8, UInt32.toNat_add, digit, UInt8.toNat_ofNat']
  simp only [UInt32.toNat_ofNat]
  omega

/-- Ten digits are enough for 32 bits. -/
theorem numChars_eq (num : UInt32) : numChars num = digits 10 num.toNat := by
  have hnum : num.toNat % 10 ^ (9 + 1) = num.toNat :=
    Nat.mod_eq_of_lt (num.toNat_lt.trans (by norm_num))
  have hplaces : (List.range 10).reverse = [9, 8, 7, 6, 5, 4, 3, 2, 1, 0] := rfl
  rw [digits_eq_map, hplaces]
  simp only [numChars, List.map_cons, List.map_nil, toUInt8_add_eq_digit, UInt32.toNat_div,
    UInt32.toNat_mod, UInt32.toNat_ofNat, hnum]
  norm_num

theorem leadingZeros_zeros (k : ℕ) {c : UInt8} (hc : c ≠ 0x30) (rest : List UInt8) :
    leadingZeros (List.replicate k 0x30 ++ c :: rest) = some k := by
  induction k with
  | zero =>
    rw [List.replicate_zero, List.nil_append, leadingZeros, if_neg hc]
  | succ k ih =>
    rw [List.replicate_succ, List.cons_append, leadingZeros, if_pos rfl, ih, Option.map_some]

/-- The scan ends at the first digit of a number other than 0. -/
theorem leadingZeros_numChars (h : num ≠ 0) : ∃ k, k + (decimal num.toNat).length = 10 ∧
    0 < (decimal num.toNat).length ∧
    numChars num = List.replicate k 0x30 ++ decimal num.toNat ∧
    leadingZeros (numChars num) = some k := by
  have hnum := num.toNat_lt
  have hpositive : 0 < num.toNat :=
    Nat.pos_of_ne_zero fun hzero => h (UInt32.toNat_inj.mp hzero)
  obtain ⟨c, rest, hdecimal, hc⟩ := decimal_head hpositive
  have hchars : numChars num = List.replicate (10 - (decimal num.toNat).length) 0x30 ++
      decimal num.toNat := by
    rw [numChars_eq, ← zeroPadded_natCast (by decide) (by omega : num.toNat < 10 ^ 10),
      zeroPadded_eq_replicate]
  have hlength := congrArg List.length hchars
  rw [numChars_eq, digits_length, List.length_append, List.length_replicate] at hlength
  have hscan := leadingZeros_zeros (10 - (decimal num.toNat).length) hc rest
  rw [← hdecimal, ← hchars] at hscan
  refine ⟨_, by omega, ?_, hchars, hscan⟩
  rw [hdecimal]
  exact Nat.succ_pos _

end Digits

theorem renders_of_ne_zero {num : UInt32} (h : num ≠ 0) : Renders num := by
  intro numStr hroom
  obtain ⟨k, hk, hpos, hchars, hscan⟩ := leadingZeros_numChars h
  refine ⟨?_, decimalValue_zeroPadded 2 num.toNat⟩
  rw [zeroPadded_eq_replicate] at hroom ⊢
  rw [List.length_append, List.length_replicate] at hroom
  rw [num2NumStr, if_neg (Ne.symm h)]
  dsimp only
  rw [hscan, Option.bind_some, if_neg (by omega)]
  by_cases hone : 9 = k
  · obtain ⟨c, hc⟩ := List.length_eq_one_iff.mp (by omega : (decimal num.toNat).length = 1)
    have hlast : (numChars num)[k]? = some c := by
      rw [hchars, List.getElem?_append_right List.length_replicate.le, List.length_replicate,
        Nat.sub_self, hc]
      rfl
    have htwo : ([0x30, c, 0] : List UInt8).length = 3 := rfl
    rw [hc, List.length_singleton] at hroom
    rw [if_pos hone, hlast, Option.bind_some, copyIn_of_le (by omega) htwo.ge, hc]
    rfl
  · have hrest : (numChars num).drop k = decimal num.toNat := by
      rw [hchars, List.drop_left' List.length_replicate]
    have hterminated : (decimal num.toNat ++ [0]).length = 10 - k + 1 := by
      rw [List.length_append, List.length_singleton]
      omega
    have hfull : 2 - (decimal num.toNat).length = 0 := by omega
    rw [if_neg hone, hrest, copyIn_of_le (by omega) hterminated.ge, ← hterminated,
      List.take_length, hfull, List.replicate_zero, List.nil_append]

/-- The text of 0 is empty. -/
theorem num2NumStr_zero {numStr : List UInt8} (h : 0 < numStr.length) :
    num2NumStr 0 numStr = some (blit numStr 0 [0]) :=
  store_of_lt 0 h

theorem not_renders_zero : ¬ Renders 0 := by
  intro h
  have hwritten := (h [1, 1, 1] (by decide)).1
  rw [num2NumStr_zero (by decide)] at hwritten
  exact absurd hwritten (by decide)

/-- The scan for the first digit is right for every number that reaches it; 0 does not. -/
theorem renders_iff_ne_zero (num : UInt32) : Renders num ↔ num ≠ 0 := by
  refine ⟨?_, renders_of_ne_zero⟩
  rintro h rfl
  exact not_renders_zero h

theorem not_renders : ¬ ∀ num, Renders num := by
  intro h
  exact not_renders_zero (h 0)

end VehicleTerminal.Rtc
