import Mathlib.Logic.Relation
import Mathlib.Tactic

/-! Loops with a partial body. A round has no result when it leaves the defined behaviour;
otherwise it returns or goes on from a new state. A measure that every round that goes on
decreases makes the loop a total function. -/
namespace PartialLoop

variable {σ τ ρ : Type*}

/-- What a round of a loop does. -/
inductive Outcome (σ ρ : Type*)
  | returns (r : ρ)
  | continues (s : σ)

def Continues (body : σ → Option (Outcome σ ρ)) (s s' : σ) : Prop :=
  body s = some (.continues s')

/-- The states in which the loop started at `s` begins a round. -/
def Reached (body : σ → Option (Outcome σ ρ)) : σ → σ → Prop :=
  Relation.ReflTransGen (Continues body)

def Decreases (body : σ → Option (Outcome σ ρ)) (measure : σ → ℕ) : Prop :=
  ∀ s s', Continues body s s' → measure s' < measure s

def loop (body : σ → Option (Outcome σ ρ)) (measure : σ → ℕ) (hdec : Decreases body measure)
    (s : σ) : Option ρ :=
  match h : body s with
  | none => none
  | some (.returns r) => some r
  | some (.continues s') =>
    have : measure s' < measure s := hdec s s' h
    loop body measure hdec s'
termination_by measure s

section Rounds

variable {body : σ → Option (Outcome σ ρ)} {measure : σ → ℕ} {hdec : Decreases body measure}
  {s s' : σ} {r : ρ}

theorem loop_of_stuck (h : body s = none) : loop body measure hdec s = none := by
  rw [loop]
  split <;> simp_all

theorem loop_of_returns (h : body s = some (.returns r)) :
    loop body measure hdec s = some r := by
  rw [loop]
  split <;> simp_all

theorem loop_of_continues (h : body s = some (.continues s')) :
    loop body measure hdec s = loop body measure hdec s' := by
  rw [loop]
  split <;> simp_all

/-- A loop that goes on from `s` reaches `s` itself and what it reaches from the next state. -/
theorem reached_iff_of_continues {t : σ} (h : Continues body s s') :
    Reached body s t ↔ s = t ∨ Reached body s' t := by
  constructor
  · intro hreached
    rcases Relation.ReflTransGen.cases_head hreached with rfl | ⟨u, hu, hreached⟩
    · exact .inl rfl
    · have hsame : s' = u := by
        have hboth := h.symm.trans hu
        simpa using hboth
      rw [hsame]
      exact .inr hreached
  · rintro (rfl | hreached)
    · exact .refl
    · exact .head h hreached

theorem reached_eq_of_not_continues {t : σ} (h : ∀ s', ¬ Continues body s s')
    (hreached : Reached body s t) : s = t := by
  rcases Relation.ReflTransGen.cases_head hreached with rfl | ⟨u, hu, -⟩
  · rfl
  · exact absurd hu (h u)

/-- A loop has a result exactly when every round that it begins has one. -/
theorem loop_ne_none_iff :
    loop body measure hdec s ≠ none ↔ ∀ t, Reached body s t → body t ≠ none := by
  induction hm : measure s using Nat.strong_induction_on generalizing s with
  | _ m ih =>
    cases hbody : body s with
    | none =>
      rw [loop_of_stuck hbody]
      exact iff_of_false (fun h => h rfl) fun h => h s .refl hbody
    | some outcome =>
      cases outcome with
      | returns r =>
        rw [loop_of_returns hbody]
        refine iff_of_true (Option.some_ne_none r) fun t ht => ?_
        have hstop : ∀ s', ¬ Continues body s s' := by
          intro s' hs'
          rw [Continues, hbody] at hs'
          cases hs'
        rw [← reached_eq_of_not_continues hstop ht, hbody]
        exact Option.some_ne_none _
      | continues s' =>
        rw [loop_of_continues hbody, ih _ (hm ▸ hdec s s' hbody) rfl]
        constructor
        · intro h t ht
          rcases (reached_iff_of_continues hbody).mp ht with rfl | ht
          · rw [hbody]
            exact Option.some_ne_none _
          · exact h t ht
        · intro h t ht
          exact h t (.head hbody ht)

/-- What comes of the first `k` rounds, or of the round that ends the loop if that is sooner. -/
def rounds (body : σ → Option (Outcome σ ρ)) : ℕ → σ → Option (Outcome σ ρ)
  | 0, s => some (.continues s)
  | k + 1, s =>
    match body s with
    | some (.continues s') => rounds body k s'
    | outcome => outcome

theorem rounds_of_continues (k : ℕ) (h : body s = some (.continues s')) :
    rounds body (k + 1) s = rounds body k s' := by
  rw [rounds, h]

theorem rounds_of_returns (k : ℕ) (h : body s = some (.returns r)) :
    rounds body (k + 1) s = some (.returns r) := by
  rw [rounds, h]

/-- The round behind `k` rounds that have gone on. -/
theorem rounds_succ {k : ℕ} (h : rounds body k s = some (.continues s')) :
    rounds body (k + 1) s = body s' := by
  induction k generalizing s with
  | zero =>
    cases h
    rw [rounds]
    split
    · rename_i heq
      exact heq.symm
    · rfl
  | succ k ih =>
    rw [rounds] at h
    split at h
    · rename_i heq
      rw [rounds_of_continues _ heq]
      exact ih h
    · rename_i hend
      exact absurd h (hend s')

/-- A loop returns once: more rounds give no other result. -/
theorem rounds_returns_unique {j k : ℕ} {r' : ρ} (h : rounds body j s = some (.returns r))
    (h' : rounds body k s = some (.returns r')) : r = r' := by
  induction j generalizing s k with
  | zero => cases h
  | succ j ih =>
    cases k with
    | zero => cases h'
    | succ k =>
      rw [rounds] at h h'
      split at h
      · rename_i hs
        simp only [hs] at h'
        exact ih h h'
      · rename_i hend
        rw [h] at h'
        cases h'
        rfl

end Rounds

end PartialLoop
