import Mathlib.Logic.Equiv.Basic
import Mathlib.Tactic

/-! Pictures that are stored in bytes, a bit for each pixel. A layout gives every pixel a byte and
a bit of it, and every bit of every byte a pixel. -/
namespace BitLayout

variable {P : Type*} {n : ℕ}

/-- The bits of a byte, the lowest first. -/
def bits : UInt8 ≃ (Fin 8 → Bool) where
  toFun b k := b.toNat.testBit k
  invFun f := UInt8.ofNat (Nat.ofBits f)
  left_inv b := by
    dsimp only
    rw [Nat.ofBits_testBit, Nat.mod_eq_of_lt b.toNat_lt, UInt8.ofNat_toNat]
  right_inv f := by
    funext k
    dsimp only
    rw [UInt8.toNat_ofNat_of_lt' (Nat.ofBits_lt_two_pow f), Nat.testBit_ofBits_lt _ _ k.isLt]

abbrev Layout (P : Type*) (n : ℕ) := P ≃ Fin n × Fin 8

/-- The picture that bytes hold. -/
def picture (layout : Layout P n) : (Fin n → UInt8) ≃ (P → Bool) where
  toFun bytes p := bits (bytes (layout p).1) (layout p).2
  invFun pixels i := bits.symm fun k => pixels (layout.symm (i, k))
  left_inv bytes := by
    funext i
    apply bits.injective
    funext k
    dsimp only
    rw [Equiv.apply_symm_apply, Equiv.apply_symm_apply]
  right_inv pixels := by
    funext p
    dsimp only
    rw [Equiv.apply_symm_apply, Prod.mk.eta, Equiv.symm_apply_apply]

@[simp] theorem picture_apply (layout : Layout P n) (bytes : Fin n → UInt8) (p : P) :
    picture layout bytes p = (bytes (layout p).1).toNat.testBit (layout p).2 := rfl

/-- The bytes with the same picture in another layout. -/
def convert (source target : Layout P n) : (Fin n → UInt8) ≃ (Fin n → UInt8) :=
  (picture source).trans (picture target).symm

variable {source target : Layout P n} {bytes : Fin n → UInt8}

@[simp] theorem picture_convert :
    picture target (convert source target bytes) = picture source bytes :=
  (picture target).apply_symm_apply _

/-- Bytes that show the picture of others in another layout are the converted ones. -/
theorem eq_convert_iff {out : Fin n → UInt8} :
    out = convert source target bytes ↔
      ∀ p, picture target out p = picture source bytes p := by
  constructor
  · rintro rfl p
    rw [picture_convert]
  · intro h
    apply (picture target).injective
    rw [picture_convert]
    exact funext h

end BitLayout
