import Mathlib.Data.List.Nodup
import Mathlib.Logic.Function.Basic
import Mathlib.Tactic

/-! Singly linked chains of cells: a head, the links of the cells, and the list they stand for. -/
namespace LinkedChain

variable {A : Type*} {next next' : A → Option A} {head : Option A} {a t : A} {l l' : List A}

/-- From `head` on the links lead through the cells of the list and end. -/
def Chain (next : A → Option A) : Option A → List A → Prop
  | head, [] => head = none
  | head, a :: l => head = some a ∧ Chain next (next a) l

theorem chain_none : Chain next none [] := rfl

theorem Chain.head_eq (h : Chain next head l) : head = l.head? := by
  cases l with
  | nil => exact h
  | cons a l => exact h.1

/-- The head of a chain and what it leads to. -/
theorem Chain.uncons (h : Chain next (some a) l) :
    ∃ rest, l = a :: rest ∧ Chain next (next a) rest := by
  cases l with
  | nil => cases h
  | cons b rest =>
    obtain ⟨hhead, hrest⟩ := h
    cases hhead
    exact ⟨rest, rfl, hrest⟩

/-- Links outside the chain do not matter. -/
theorem Chain.congr (h : Chain next head l) (hsame : ∀ b ∈ l, next' b = next b) :
    Chain next' head l := by
  induction l generalizing head with
  | nil => exact h
  | cons b l ih =>
    refine ⟨h.1, ?_⟩
    rw [hsame b List.mem_cons_self]
    exact ih h.2 fun c hc => hsame c (List.mem_cons_of_mem _ hc)

variable [DecidableEq A]

theorem Chain.update (h : Chain next head l) (ha : a ∉ l) (link : Option A) :
    Chain (Function.update next a link) head l := by
  refine h.congr fun b hb => Function.update_of_ne ?_ _ _
  rintro rfl
  exact ha hb

/-- A cell that is linked to the head comes in front. -/
theorem Chain.push (h : Chain next head l) (ha : a ∉ l) :
    Chain (Function.update next a head) (some a) (a :: l) := by
  refine ⟨rfl, ?_⟩
  rw [Function.update_self]
  exact h.update ha head

/-- A cell without a link that the last one is linked to comes behind. -/
theorem Chain.append (h : Chain next head l) (hnodup : l.Nodup) (ht : l.getLast? = some t)
    (ha : a ∉ l) (hnone : next a = none) :
    Chain (Function.update next t (some a)) head (l ++ [a]) := by
  induction l generalizing head with
  | nil => cases ht
  | cons b l ih =>
    obtain ⟨hb, hrest⟩ := List.nodup_cons.mp hnodup
    obtain ⟨hhead, hchain⟩ := h
    rw [List.mem_cons, not_or] at ha
    cases l with
    | nil =>
      obtain rfl : b = t := Option.some.inj ht
      refine ⟨hhead, ?_⟩
      rw [Function.update_self]
      exact ⟨rfl, (Function.update_of_ne ha.1 _ _).trans hnone⟩
    | cons c l =>
      have htail : (c :: l).getLast? = some t := ht
      have hne : b ≠ t := by
        rintro rfl
        exact hb (List.mem_of_getLast? htail)
      refine ⟨hhead, ?_⟩
      rw [Function.update_of_ne hne]
      exact ih hchain hrest htail ha.2

end LinkedChain
