import Mathlib.Data.Set.Basic
import Mathlib.Tactic

/-! Words as sets of flags. -/
namespace BitFlags

variable {w : ℕ} {x y : BitVec w} {i : ℕ}

/-- The bits that are set. -/
def flags (x : BitVec w) : Set ℕ := {i | x.getLsbD i = true}

theorem mem_flags : i ∈ flags x ↔ x.getLsbD i = true := Iff.rfl

instance (x : BitVec w) (i : ℕ) : Decidable (i ∈ flags x) :=
  inferInstanceAs (Decidable (x.getLsbD i = true))

theorem flags_injective : Function.Injective (flags (w := w)) := by
  intro x y h
  apply BitVec.eq_of_getLsbD_eq
  intro i _
  rw [Bool.eq_iff_iff]
  exact Set.ext_iff.mp h i

@[simp] theorem flags_zero : flags (0 : BitVec w) = ∅ := by
  ext i
  simp [mem_flags]

@[simp] theorem flags_or (x y : BitVec w) : flags (x ||| y) = flags x ∪ flags y := by
  ext i
  simp [mem_flags]

@[simp] theorem flags_and (x y : BitVec w) : flags (x &&& y) = flags x ∩ flags y := by
  ext i
  simp [mem_flags]

/-- The flags that are left when those of `y` are cleared. -/
@[simp] theorem flags_clear (x y : BitVec w) : flags (x &&& ~~~y) = flags x \ flags y := by
  ext i
  have hlt : x.getLsbD i = true → i < w := BitVec.lt_of_getLsbD
  simp only [mem_flags, BitVec.getLsbD_and, BitVec.getLsbD_not, Set.mem_sdiff]
  grind

theorem and_eq_left_iff : x &&& y = x ↔ flags x ⊆ flags y := by
  rw [← Set.inter_eq_left, ← flags_and, flags_injective.eq_iff]

theorem and_ne_zero_iff : x &&& y ≠ 0 ↔ (flags x ∩ flags y).Nonempty := by
  rw [← flags_and, Set.nonempty_iff_ne_empty, ne_eq, ne_eq, ← flags_zero (w := w),
    flags_injective.eq_iff]

end BitFlags
