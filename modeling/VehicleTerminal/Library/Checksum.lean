import VehicleTerminal.Library.ByteStore
import Mathlib.Algebra.BigOperators.Group.List.Basic

/-! Blocks of an addressed store that are followed by their sum. A change of one cell, in the
block or behind it, is always seen. -/
namespace Checksum
open ByteStore

variable {G : Type*} [AddCommGroup G]

/-- The cell behind the `k` cells from `a` on is their sum. -/
def Sealed (m : ℕ → G) (a k : ℕ) : Prop := (readBytes m a k).sum = m (a + k)

instance [DecidableEq G] (m : ℕ → G) (a k : ℕ) : Decidable (Sealed m a k) :=
  inferInstanceAs (Decidable (_ = _))

/-- One summand more or less makes another sum. -/
theorem sum_set_ne (xs : List G) {i : ℕ} (h : i < xs.length) {v : G} (hne : v ≠ xs[i]) :
    (xs.set i v).sum ≠ xs.sum := by
  rw [List.sum_set', dif_pos h, ne_eq, add_eq_left]
  intro hsum
  exact hne (neg_add_eq_zero.mp hsum).symm

variable {m : ℕ → G} {a k i : ℕ} {v : G}

theorem sealed_update_outside (h : i < a ∨ a + k < i) :
    Sealed (Function.update m i v) a k ↔ Sealed m a k := by
  have hne : a + k ≠ i := by omega
  rw [Sealed, Sealed, readBytes_update_outside m (by omega), Function.update_of_ne hne]

/-- No cell of a sealed block, nor its sum, can change alone. -/
theorem Sealed.not_update (h : Sealed m a k) (hlo : a ≤ i) (hhi : i ≤ a + k) (hne : v ≠ m i) :
    ¬ Sealed (Function.update m i v) a k := by
  intro hupdated
  obtain ⟨j, rfl⟩ := Nat.exists_eq_add_of_le hlo
  rcases Nat.lt_or_eq_of_le (Nat.add_le_add_iff_left.mp hhi) with hj | rfl
  · have hlength : j < (readBytes m a k).length := by rwa [readBytes_length]
    have hcell : (readBytes m a k)[j] = m (a + j) := by simp [readBytes]
    rw [Sealed, readBytes_update, Function.update_of_ne (by omega), ← h] at hupdated
    exact sum_set_ne _ hlength (hcell.symm ▸ hne) hupdated
  · rw [Sealed, readBytes_update_outside m (by omega), Function.update_self, h] at hupdated
    exact hne hupdated.symm

end Checksum
