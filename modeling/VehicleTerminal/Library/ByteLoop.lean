import Mathlib.Tactic

/-! The loop `for(i = first; i <= last; i++)` with a counter of one byte. It runs over its bounds
unless the last one is the largest byte, which the counter cannot pass. -/
namespace ByteLoop

variable {σ : Type*}

/-- The loop from the counter value `i` on, with the rounds that it may still make. -/
def forByte (last : UInt8) (body : UInt8 → σ → Option σ) : ℕ → UInt8 → σ → Option σ
  | 0, _, _ => none
  | rounds + 1, i, s =>
    if i ≤ last then (body i s).bind fun s => forByte last body rounds (i + 1) s else some s

variable {body : UInt8 → σ → Option σ} {last first : UInt8} {rounds : ℕ}

theorem toNat_succ {i : UInt8} (h : i.toNat < 255) : (i + 1).toNat = i.toNat + 1 := by
  rw [UInt8.toNat_add, UInt8.toNat_one]
  omega

theorem forByte_skip (h : last.toNat < first.toNat) (s : σ) :
    forByte last body (rounds + 1) first s = some s := by
  rw [forByte, if_neg (by rw [UInt8.le_iff_toNat_le]; omega)]

/-- A loop up to the largest byte has no end. -/
theorem forByte_endless (h : last.toNat = 255) (rounds : ℕ) (i : UInt8) (s : σ) :
    forByte last body rounds i s = none := by
  induction rounds generalizing i s with
  | zero => rfl
  | succ rounds ih =>
    have hle : i ≤ last := by
      have hi := i.toNat_lt
      rw [UInt8.le_iff_toNat_le]
      omega
    rw [forByte, if_pos hle]
    cases body i s with
    | none => rfl
    | some s' => exact ih (i + 1) s'

/-- A loop that is entered with a body that has no result has none. -/
theorem forByte_stuck (h : first ≤ last) (hbody : ∀ i s, body i s = none) (rounds : ℕ) (s : σ) :
    forByte last body rounds first s = none := by
  cases rounds with
  | zero => rfl
  | succ rounds => rw [forByte, if_pos h, hbody, Option.bind_none]

/-- The invariant rule: `Inv k` holds before the round with the counter `k`. -/
theorem forByte_invariant (Inv : ℕ → σ → Prop) {s : σ} (hlast : last.toNat < 255)
    (hrange : first.toNat ≤ last.toNat + 1) (hrounds : last.toNat + 2 ≤ rounds + first.toNat)
    (hstart : Inv first.toNat s)
    (hstep : ∀ i s, first ≤ i → i ≤ last → Inv i.toNat s →
      ∃ s', body i s = some s' ∧ Inv (i.toNat + 1) s') :
    ∃ s', forByte last body rounds first s = some s' ∧ Inv (last.toNat + 1) s' := by
  induction rounds generalizing first s with
  | zero => omega
  | succ rounds ih =>
    by_cases hle : first ≤ last
    · have hle' := UInt8.le_iff_toNat_le.mp hle
      have hnext : (first + 1).toNat = first.toNat + 1 := toNat_succ (by omega)
      obtain ⟨s', hbody, hinv⟩ := hstep first s (UInt8.le_refl first) hle hstart
      rw [← hnext] at hinv
      rw [forByte, if_pos hle, hbody, Option.bind_some]
      refine ih (by omega) (by omega) hinv fun i t hi => hstep i t ?_
      rw [UInt8.le_iff_toNat_le] at hi ⊢
      omega
    · have hend : first.toNat = last.toNat + 1 := by
        rw [UInt8.le_iff_toNat_le] at hle
        omega
      rw [forByte, if_neg hle]
      exact ⟨s, rfl, hend ▸ hstart⟩

end ByteLoop
