import Mathlib.Algebra.BigOperators.Group.Finset.Basic
import Mathlib.Algebra.BigOperators.Ring.Finset
import Mathlib.Tactic

/-! Blocks of given widths that lie one behind the other from 0 on. A number is the start of its
block and an offset below the block's width. -/
namespace PartialSums
open scoped BigOperators

variable {w : ℕ → ℕ} {m n x : ℕ}

/-- Where block `n` starts. -/
def start (w : ℕ → ℕ) (n : ℕ) : ℕ := ∑ k ∈ Finset.range n, w k

@[simp] theorem start_zero (w : ℕ → ℕ) : start w 0 = 0 := Finset.sum_range_zero w

theorem start_succ (w : ℕ → ℕ) (n : ℕ) : start w (n + 1) = start w n + w n :=
  Finset.sum_range_succ w n

theorem start_const (c n : ℕ) : start (fun _ => c) n = n * c := by
  rw [start, Finset.sum_const, Finset.card_range, smul_eq_mul]

/-- Blocks in a smaller unit. -/
theorem start_mul (w : ℕ → ℕ) (c n : ℕ) : start (fun k => w k * c) n = start w n * c :=
  (Finset.sum_mul _ _ _).symm

/-- Blocks of at least a common width. -/
theorem mul_le_start {c : ℕ} (h : ∀ k, c ≤ w k) (n : ℕ) : n * c ≤ start w n := by
  induction n with
  | zero => simp
  | succ n ih =>
    have hwidth := h n
    rw [start_succ, Nat.succ_mul]
    omega

theorem start_mono (h : m ≤ n) : start w m ≤ start w n := by
  induction n, h using Nat.le_induction with
  | base => exact le_rfl
  | succ n _ ih =>
    rw [start_succ]
    omega

/-- A number lies before a block or behind its start. -/
theorem add_lt_start_iff {r : ℕ} (hr : r < w m) : start w m + r < start w n ↔ m < n := by
  constructor
  · intro hlt
    by_contra hle
    have hstart : start w n ≤ start w m := start_mono (Nat.le_of_not_lt hle)
    omega
  · intro hlt
    have hnext : start w (m + 1) ≤ start w n := start_mono hlt
    rw [start_succ] at hnext
    omega

/-- Every number before block `n` lies in an earlier one. -/
theorem exists_offset (hx : x < start w n) : ∃ m < n, ∃ r < w m, x = start w m + r := by
  induction n with
  | zero =>
    rw [start_zero] at hx
    exact absurd hx (Nat.not_lt_zero x)
  | succ n ih =>
    by_cases hbefore : x < start w n
    · obtain ⟨m, hm, hoffset⟩ := ih hbefore
      exact ⟨m, Nat.lt_succ_of_lt hm, hoffset⟩
    · rw [start_succ] at hx
      exact ⟨n, Nat.lt_succ_self n, x - start w n, by omega, by omega⟩

/-- Blocks that are not empty reach every number. -/
theorem lt_start_of_pos (hpos : ∀ k, 0 < w k) (x : ℕ) : x < start w (x + 1) := by
  induction x with
  | zero =>
    rw [start_succ, start_zero]
    exact Nat.add_pos_right 0 (hpos 0)
  | succ x ih =>
    rw [start_succ]
    have hwidth := hpos (x + 1)
    omega

end PartialSums
