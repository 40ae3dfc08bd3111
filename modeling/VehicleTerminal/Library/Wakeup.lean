import Mathlib.Data.Finset.Card
import Mathlib.Tactic

/-! Waiters for tokens when every new token wakes one waiter, which still has to fetch it. -/
namespace Wakeup

variable {T : Type*} {slack tokens : ℕ} {waiting waiting' : List T} {woken : Finset T} {t : T}

/-- While somebody waits there is a woken one for every token, less `slack`. -/
def Covered (slack tokens : ℕ) (waiting : List T) (woken : Finset T) : Prop :=
  waiting ≠ [] → tokens ≤ woken.card + slack

theorem covered_zero (slack : ℕ) (waiting : List T) (woken : Finset T) :
    Covered slack 0 waiting woken := fun _ => Nat.zero_le _

theorem covered_nil (slack tokens : ℕ) (woken : Finset T) : Covered slack tokens [] woken :=
  fun h => absurd rfl h

theorem Covered.loosen (h : Covered 0 tokens waiting woken) : Covered slack tokens waiting woken :=
  fun hwaiting => (h hwaiting).trans (Nat.le_add_right _ _)

theorem Covered.leave (h : Covered slack tokens waiting woken) (hsub : waiting' ⊆ waiting) :
    Covered slack tokens waiting' woken := by
  intro hwaiting
  obtain ⟨t, ht⟩ := List.exists_mem_of_ne_nil _ hwaiting
  exact h (List.ne_nil_of_mem (hsub ht))

/-- A token is fetched, by anybody. -/
theorem Covered.consume (h : Covered 1 (tokens + 1) waiting woken) :
    Covered 0 tokens waiting woken := by
  intro hwaiting
  have hbefore := h hwaiting
  omega

variable [DecidableEq T]

/-- A new token wakes the first waiter. -/
theorem Covered.produce (h : Covered slack tokens (t :: waiting) woken) (ht : t ∉ woken) :
    Covered slack (tokens + 1) waiting (insert t woken) := by
  intro _
  have hbefore := h (List.cons_ne_nil _ _)
  rw [Finset.card_insert_of_notMem ht]
  omega

/-- One of the woken gets up to fetch a token. -/
theorem Covered.rise (h : Covered 0 tokens waiting woken) (ht : t ∈ woken) :
    Covered 1 tokens waiting (woken.erase t) := by
  intro hwaiting
  have hbefore := h hwaiting
  rw [Finset.card_erase_of_mem ht]
  omega

end Wakeup
