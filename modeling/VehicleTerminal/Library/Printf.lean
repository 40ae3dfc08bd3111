import VehicleTerminal.Library.CString

/-! The formats of `sprintf` with a field width: decimal numbers padded with zeros, and
hexadecimal ones padded with spaces. -/
namespace Printf
open BlockMemory CString

section Formats

/-- `%0wd`. The sign counts for the width and stands before the zeros. -/
def zeroPadded (w : ℕ) (x : ℤ) : List UInt8 :=
  let sign := if x < 0 then [0x2d] else []
  let digits := decimal x.natAbs
  sign ++ List.replicate (w - sign.length - digits.length) 0x30 ++ digits

/-- `%wX`. -/
def hexPadded (w n : ℕ) : List UInt8 :=
  let digits := (Nat.toDigits 16 n).map fun c => UInt8.ofNat c.toUpper.toNat
  List.replicate (w - digits.length) 0x20 ++ digits

/-- `sprintf(mem, …)`: the text and its terminator. -/
def sprintf (mem text : List UInt8) : Option (List UInt8) :=
  copyIn mem 0 (text ++ [0]) (text.length + 1)

end Formats

section Digits

def digit (n : ℕ) : UInt8 := UInt8.ofNat (0x30 + n)

/-- The last `w` decimal digits of a number. -/
def digits : ℕ → ℕ → List UInt8
  | 0, _ => []
  | w + 1, n => digits w (n / 10) ++ [digit (n % 10)]

@[simp] theorem digits_length (w n : ℕ) : (digits w n).length = w := by
  induction w generalizing n with
  | zero => rfl
  | succ w ih => rw [digits, List.length_append, ih, List.length_singleton]

theorem digit_ne_zero {n : ℕ} (h : n < 10) : digit n ≠ 0 := by
  intro hzero
  have hnat := congrArg UInt8.toNat hzero
  rw [digit, UInt8.toNat_ofNat', UInt8.toNat_zero] at hnat
  omega

theorem zero_notMem_digits (w n : ℕ) : 0 ∉ digits w n := by
  induction w generalizing n with
  | zero => exact List.not_mem_nil
  | succ w ih =>
    rw [digits, List.mem_append, List.mem_singleton]
    rintro (hfront | hlast)
    · exact ih _ hfront
    · exact digit_ne_zero (Nat.mod_lt n (by decide)) hlast.symm

theorem digits_zero (w : ℕ) : digits w 0 = List.replicate w 0x30 := by
  induction w with
  | zero => rfl
  | succ w ih =>
    rw [digits, Nat.zero_div, ih, List.replicate_succ']
    rfl

/-- The last digit of a printed number. -/
theorem decimal_natCast (n : ℕ) : decimal n =
    (if n < 10 then [] else decimal (n / 10 : ℕ)) ++ [digit (n % 10)] := by
  have hdigit (d : ℕ) (hd : d < 10) : UInt8.ofNat d.digitChar.toNat = digit d := by
    rw [Nat.toNat_digitChar_of_lt_ten hd, digit]
  have hpositive (m : ℕ) : ¬ (m : ℤ) < 0 := by omega
  have hlast : n % 10 < 10 := Nat.mod_lt n (by decide)
  simp only [decimal, if_neg (hpositive _), Int.natAbs_natCast, List.nil_append]
  split_ifs with hone
  · rw [Nat.toDigits_of_lt_base hone, Nat.mod_eq_of_lt hone, List.map_singleton, hdigit n hone]
    rfl
  · rw [Nat.toDigits_of_base_le (by omega) (by omega), List.map_append, List.map_singleton,
      hdigit _ hlast]

/-- A number that is not negative is printed with zeros in front. -/
theorem zeroPadded_eq_replicate (w n : ℕ) : zeroPadded w n =
    List.replicate (w - (decimal n).length) 0x30 ++ decimal n := by
  have hpositive : ¬ (n : ℤ) < 0 := by omega
  rw [zeroPadded, Int.natAbs_natCast]
  simp only [if_neg hpositive, List.nil_append, List.length_nil, Nat.sub_zero]

/-- A number that fits into the width is printed with all its digits. -/
theorem zeroPadded_natCast {w n : ℕ} (hw : 0 < w) (h : n < 10 ^ w) :
    zeroPadded w n = digits w n := by
  rw [zeroPadded_eq_replicate]
  induction w generalizing n with
  | zero => omega
  | succ w ih =>
    rw [digits, decimal_natCast]
    by_cases hone : n < 10
    · rw [if_pos hone, Nat.div_eq_of_lt hone, digits_zero]
      rfl
    · have hpos : 0 < w := by
        by_contra hzero
        rw [Nat.eq_zero_of_not_pos hzero, Nat.zero_add, pow_one] at h
        exact hone h
      have hrest : n / 10 < 10 ^ w := Nat.div_lt_of_lt_mul (by rwa [← pow_succ'])
      rw [if_neg hone, List.length_append, List.length_singleton, Nat.add_sub_add_right,
        ← List.append_assoc, ih hpos hrest]

theorem le_zeroPadded_length (w : ℕ) (x : ℤ) : w ≤ (zeroPadded w x).length := by
  simp only [zeroPadded, List.length_append, List.length_replicate]
  omega

/-- The width of ten leaves room for a sign before ten digits. -/
theorem zeroPadded_length_le {w : ℕ} {x : ℤ} (hw : 0 < w) (h : x.natAbs < 10 ^ w) :
    (zeroPadded w x).length ≤ w + 1 := by
  have hdigits : (decimal x.natAbs).length ≤ w := by
    have hlength := Nat.toDigits_length 10 x.natAbs w hw h
    have hpositive : ¬ (x.natAbs : ℤ) < 0 := by omega
    rwa [decimal, if_neg hpositive, List.nil_append, List.length_map, Int.natAbs_natCast]
  simp only [zeroPadded, List.length_append, List.length_replicate]
  split_ifs
  · rw [List.length_singleton]
    omega
  · rw [List.length_nil]
    omega

/-- A number below zero begins with its sign. -/
theorem zeroPadded_of_neg (w : ℕ) {x : ℤ} (h : x < 0) :
    ∃ text, zeroPadded w x = 0x2d :: text := by
  rw [zeroPadded]
  simp only [if_pos h]
  exact ⟨_, rfl⟩

/-- A positive number is printed without a zero in front. -/
theorem decimal_head {n : ℕ} (h : 0 < n) : ∃ c rest, decimal n = c :: rest ∧ c ≠ 0x30 := by
  induction n using Nat.strong_induction_on with
  | _ n ih =>
    rw [decimal_natCast]
    by_cases hone : n < 10
    · refine ⟨digit n, [], by rw [if_pos hone, Nat.mod_eq_of_lt hone, List.nil_append], ?_⟩
      intro hzero
      have hnat : (digit n).toNat = 0x30 := congrArg UInt8.toNat hzero
      rw [digit, UInt8.toNat_ofNat'] at hnat
      omega
    · obtain ⟨c, rest, hfront, hc⟩ := ih (n / 10) (by omega) (by omega)
      exact ⟨c, rest ++ [digit (n % 10)], by rw [if_neg hone, hfront, List.cons_append], hc⟩

/-- Every digit by itself. -/
theorem digits_eq_map (w n : ℕ) :
    digits w n = (List.range w).reverse.map fun k => digit (n % 10 ^ (k + 1) / 10 ^ k) := by
  induction w generalizing n with
  | zero => rfl
  | succ w ih =>
    have hplace (k : ℕ) : n / 10 % 10 ^ (k + 1) / 10 ^ k =
        n % 10 ^ (k + 1 + 1) / 10 ^ (k + 1) := by
      rw [pow_succ' 10 (k + 1), ← Nat.mod_mul_right_div_self, Nat.div_div_eq_div_mul,
        ← pow_succ' 10 k, ← pow_succ' 10 (k + 1)]
    rw [digits, ih, List.range_succ_eq_map, List.reverse_cons, List.map_append,
      List.map_reverse, List.map_reverse, List.map_map, List.map_singleton, pow_zero, Nat.div_one]
    simp only [hplace]
    rfl

end Digits

section Value

/-- The number that a text of decimal digits stands for. -/
def decimalValue (text : List UInt8) : ℕ :=
  text.foldl (fun n c => 10 * n + (c.toNat - 0x30)) 0

theorem decimalValue_snoc (text : List UInt8) {d : ℕ} (hd : d < 10) :
    decimalValue (text ++ [digit d]) = 10 * decimalValue text + d := by
  have hdigit : (digit d).toNat - 0x30 = d := by
    rw [digit, UInt8.toNat_ofNat']
    omega
  rw [decimalValue, List.foldl_append, List.foldl_cons, List.foldl_nil, hdigit, ← decimalValue]

theorem decimalValue_decimal (n : ℕ) : decimalValue (decimal n) = n := by
  induction n using Nat.strong_induction_on with
  | _ n ih =>
    rw [decimal_natCast, decimalValue_snoc _ (Nat.mod_lt n (by decide))]
    by_cases hone : n < 10
    · rw [if_pos hone, Nat.mod_eq_of_lt hone]
      exact Nat.zero_add n
    · rw [if_neg hone, ih (n / 10) (by omega)]
      omega

/-- Zeros in front do not count. -/
theorem decimalValue_zeros (k : ℕ) (text : List UInt8) :
    decimalValue (List.replicate k 0x30 ++ text) = decimalValue text := by
  induction k with
  | zero => rfl
  | succ k ih =>
    rw [List.replicate_succ, List.cons_append, ← ih]
    rfl

theorem decimalValue_zeroPadded (w n : ℕ) : decimalValue (zeroPadded w n) = n := by
  rw [zeroPadded_eq_replicate, decimalValue_zeros, decimalValue_decimal]

end Value

theorem sprintf_of_lt {mem text : List UInt8} (h : text.length < mem.length) :
    sprintf mem text = some (blit mem 0 (text ++ [0])) := by
  have hlength : (text ++ [0]).length = text.length + 1 := List.length_append
  rw [sprintf, copyIn_of_le (by omega) hlength.ge, ← hlength, List.take_length]

theorem sprintf_eq_none {mem text : List UInt8} (h : mem.length ≤ text.length) :
    sprintf mem text = none := if_neg (by omega)

theorem strlen_sprintf {mem text : List UInt8} (hnul : 0 ∉ text) :
    strlen (blit mem 0 (text ++ [0])) = some text.length := by
  rw [blit, List.take_zero, List.nil_append, List.append_assoc, List.singleton_append,
    strlen_of_terminated _ hnul]

end Printf
