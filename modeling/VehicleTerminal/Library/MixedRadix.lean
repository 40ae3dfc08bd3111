import Mathlib.Data.List.Lex
import Mathlib.Tactic

/-! Numbers written in mixed radices, the most significant digit first. Digits need not start at
zero: digits of one place that differ by less than its radix keep the lexicographic order. -/
namespace MixedRadix

/-- Horner's rule behind `acc`. -/
def horner : ℤ → List ℕ → List ℤ → ℤ
  | acc, radix :: radices, digit :: digits => horner (acc * radix + digit) radices digits
  | acc, _, _ => acc

/-- Two numbers with as many digits, which differ by less than the radix of their place. -/
inductive Close : List ℕ → List ℤ → List ℤ → Prop
  | nil : Close [] [] []
  | cons {radix : ℕ} {radices : List ℕ} {d d' : ℤ} {ds ds' : List ℤ} (head : |d - d'| < radix)
      (tail : Close radices ds ds') : Close (radix :: radices) (d :: ds) (d' :: ds')

section Places

variable {acc acc' d d' : ℤ} {radix : ℕ}

/-- One more place. -/
theorem place_lt_iff (h : |d - d'| < radix) :
    acc * radix + d < acc' * radix + d' ↔ acc < acc' ∨ acc = acc' ∧ d < d' := by
  obtain ⟨hlo, hhi⟩ := abs_lt.mp h
  rcases lt_trichotomy acc acc' with hlt | rfl | hgt
  · have hstep : (acc + 1) * radix ≤ acc' * radix :=
      mul_le_mul_of_nonneg_right hlt (Int.natCast_nonneg radix)
    exact iff_of_true (by linarith) (.inl hlt)
  · simp
  · have hstep : (acc' + 1) * radix ≤ acc * radix :=
      mul_le_mul_of_nonneg_right hgt (Int.natCast_nonneg radix)
    refine iff_of_false (by linarith) ?_
    rintro (hlt | ⟨rfl, -⟩)
    · exact lt_asymm hlt hgt
    · exact lt_irrefl _ hgt

theorem place_eq_iff (h : |d - d'| < radix) :
    acc * radix + d = acc' * radix + d' ↔ acc = acc' ∧ d = d' := by
  constructor
  · intro heq
    have hforward := (not_congr (place_lt_iff h)).mp heq.not_lt
    have hbackward := (not_congr (place_lt_iff (by rwa [abs_sub_comm]))).mp heq.symm.not_lt
    have hacc : acc = acc' := by
      rcases lt_trichotomy acc acc' with hlt | hsame | hgt
      · exact absurd (.inl hlt) hforward
      · exact hsame
      · exact absurd (.inl hgt) hbackward
    subst hacc
    exact ⟨rfl, add_left_cancel heq⟩
  · rintro ⟨rfl, rfl⟩
    rfl

end Places

section Digits

variable {acc acc' : ℤ} {radices : List ℕ} {ds ds' : List ℤ}

theorem horner_lt_iff (h : Close radices ds ds') :
    horner acc radices ds < horner acc' radices ds' ↔ acc < acc' ∨ acc = acc' ∧ ds < ds' := by
  induction h generalizing acc acc' with
  | nil => simp [horner]
  | cons head tail ih =>
    rw [horner, horner, ih, place_lt_iff head, place_eq_iff head, List.cons_lt_cons_iff]
    tauto

theorem horner_eq_iff (h : Close radices ds ds') :
    horner acc radices ds = horner acc' radices ds' ↔ acc = acc' ∧ ds = ds' := by
  induction h generalizing acc acc' with
  | nil => simp [horner]
  | cons head tail ih =>
    rw [horner, horner, ih, place_eq_iff head, List.cons.injEq]
    tauto

end Digits

section Words

/-- A number below a power of two takes the place of zero bits. -/
theorem or_shiftLeft (v : ℕ) {w k x : ℕ} (hx : x < 2 ^ w) :
    v * 2 ^ (w + k) ||| x <<< k = (v * 2 ^ w + x) * 2 ^ k := by
  have hplace : x <<< k < 2 ^ (w + k) := by
    rw [Nat.shiftLeft_eq, pow_add]
    exact Nat.mul_lt_mul_of_pos_right hx (Nat.two_pow_pos k)
  rw [← Nat.shiftLeft_eq v, ← Nat.shiftLeft_add_eq_or_of_lt hplace, Nat.shiftLeft_eq,
    Nat.shiftLeft_eq, pow_add]
  ring

/-- A word with a number above `k` bits that are zero. -/
def Above (word : UInt32) (v k : ℕ) : Prop := word.toNat = v * 2 ^ k

variable {word x : UInt32} {v w : ℕ}

/-- A field of `w` bits below a number: a step of Horner's rule with the radix `2 ^ w`. -/
theorem Above.or_shiftLeft (k : ℕ) (h : Above word v (w + k)) (hx : x.toNat < 2 ^ w)
    (hfits : w + k ≤ 32) (hk : k < 32) :
    Above (word ||| x <<< UInt32.ofNat k) (v * 2 ^ w + x.toNat) k := by
  have hshift : (UInt32.ofNat k).toNat % 32 = k := by
    rw [UInt32.toNat_ofNat']
    omega
  have hword : x.toNat <<< k < 2 ^ 32 := by
    rw [Nat.shiftLeft_eq]
    calc x.toNat * 2 ^ k
        < 2 ^ w * 2 ^ k := Nat.mul_lt_mul_of_pos_right hx (Nat.two_pow_pos k)
      _ = 2 ^ (w + k) := (pow_add 2 w k).symm
      _ ≤ 2 ^ 32 := Nat.pow_le_pow_right two_pos hfits
  rw [Above, UInt32.toNat_or, UInt32.toNat_shiftLeft, hshift, Nat.mod_eq_of_lt hword, h,
    MixedRadix.or_shiftLeft v hx]

theorem above_shiftLeft (k : ℕ) (hx : x.toNat < 2 ^ w) (hfits : w + k ≤ 32) (hk : k < 32) :
    Above (x <<< UInt32.ofNat k) x.toNat k := by
  have hzero : Above 0 0 (w + k) := by
    rw [Above, UInt32.toNat_zero, Nat.zero_mul]
  have hplace := hzero.or_shiftLeft k hx hfits hk
  rwa [UInt32.zero_or, Nat.zero_mul, Nat.zero_add] at hplace

end Words

end MixedRadix
