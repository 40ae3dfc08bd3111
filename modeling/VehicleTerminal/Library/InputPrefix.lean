import Mathlib.Data.List.Basic
import Mathlib.Tactic

/-! Functions of an input that have no result when they look past its end. What such a
function returns depends only on the part of the input that it has looked at. -/
namespace InputPrefix

variable {α β γ : Type*}

/-- More input behind what was read does not change a result. -/
def Stable (f : List α → Option β) : Prop :=
  ∀ p tail r, f p = some r → f (p ++ tail) = some r

theorem stable_const (o : Option β) : Stable fun _ : List α => o :=
  fun _ _ _ h => h

theorem Stable.bind {f : List α → Option β} {g : β → List α → Option γ} (hf : Stable f)
    (hg : ∀ b, Stable (g b)) : Stable fun p => (f p).bind fun b => g b p := by
  intro p tail r h
  obtain ⟨b, hb, hr⟩ := Option.bind_eq_some_iff.mp h
  exact Option.bind_eq_some_iff.mpr ⟨b, hf p tail b hb, hg b p tail r hr⟩

theorem Stable.map {f : List α → Option β} (hf : Stable f) (g : β → γ) :
    Stable fun p => (f p).map g := by
  intro p tail r h
  obtain ⟨b, hb, hr⟩ := Option.map_eq_some_iff.mp h
  exact Option.map_eq_some_iff.mpr ⟨b, hf p tail b hb, hr⟩

theorem Stable.ite {c : Prop} [Decidable c] {f g : List α → Option β} (hf : Stable f)
    (hg : Stable g) : Stable fun p => if c then f p else g p := by
  by_cases hc : c
  · simpa only [hc, if_true] using hf
  · simpa only [hc, if_false] using hg

theorem Stable.drop {f : List α → Option β} (hf : Stable f) (k : ℕ) :
    Stable fun p => f (p.drop k) := by
  intro p tail r h
  change f ((p ++ tail).drop k) = some r
  rw [List.drop_append]
  exact hf _ _ r h

end InputPrefix
