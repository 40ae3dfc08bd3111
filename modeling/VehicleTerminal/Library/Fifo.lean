import VehicleTerminal.Library.Simulation

/-! First-in first-out queues with bounded room, as lists. A ledger of what went in and
what came out determines the content of the queue. -/
namespace BoundedFifo

variable {α : Type*}

/-- The part of `xs` that a queue `q` with room for `n` elements accepts. -/
def fitting (n : ℕ) (q xs : List α) : List α := xs.take (n - q.length)

theorem fitting_length (n : ℕ) (q xs : List α) :
    (fitting n q xs).length = min xs.length (n - q.length) := by
  simp [fitting, Nat.min_comm]

theorem take_fitting_length (n : ℕ) (q xs : List α) :
    xs.take (fitting n q xs).length = fitting n q xs := by
  rw [fitting_length, fitting, List.take_eq_take_iff]
  omega

theorem append_fitting_length {n : ℕ} {q : List α} (h : q.length ≤ n) (xs : List α) :
    (q ++ fitting n q xs).length ≤ n := by
  rw [List.length_append, fitting_length]
  omega

section Logs

variable {β : Type*}

/-- The elements of the logged blocks whose answers have a property, in the order of the log. -/
def selected (p : List α × β → Bool) (log : List (List α × β)) : List α :=
  ((log.filter p).map Prod.fst).flatten

theorem selected_append (p : List α × β → Bool) (log : List (List α × β)) (xs : List α)
    (answer : β) :
    selected p (log ++ [(xs, answer)]) = selected p log ++ if p (xs, answer) then xs else [] := by
  rw [selected, selected, List.filter_append, List.map_append, List.flatten_append]
  congr 1
  split_ifs with hp
  · rw [List.filter_cons_of_pos hp, List.filter_nil, List.map_singleton, List.flatten_singleton]
  · rw [List.filter_cons_of_neg hp, List.filter_nil, List.map_nil, List.flatten_nil]

end Logs

/-- What one operation does to a queue: elements enter, leave, or all are dropped. -/
inductive Move (α : Type*)
  | accept (xs : List α)
  | hand (xs : List α)
  | clear
  deriving Repr, DecidableEq

/-- A move takes the queue `q` to `q'` without exceeding the room `n`. -/
def Moves (n : ℕ) : List α → Move α → List α → Prop
  | q, .accept xs, q' => q' = q ++ xs ∧ q'.length ≤ n
  | q, .hand xs, q' => q = xs ++ q'
  | _, .clear, q' => q' = []

/-- Everything accepted and everything handed out since the last clear. -/
structure Ledger (α : Type*) where
  accepted : List α
  handed : List α
  deriving Repr, DecidableEq

/-- The ledger after one more move. -/
def Ledger.record : Ledger α → Move α → Ledger α
  | l, .accept xs => ⟨l.accepted ++ xs, l.handed⟩
  | l, .hand xs => ⟨l.accepted, l.handed ++ xs⟩
  | _, .clear => ⟨[], []⟩

/-- The ledger of a whole history. -/
def ledger (ms : List (Move α)) : Ledger α := ms.foldl Ledger.record ⟨[], []⟩

/-- The queue is exactly what was accepted and not yet handed out. -/
def Ledger.Balanced (l : Ledger α) (q : List α) : Prop := l.accepted = l.handed ++ q

theorem Ledger.Balanced.record {n : ℕ} {l : Ledger α} {q q' : List α} {m : Move α}
    (h : l.Balanced q) (hm : Moves n q m q') : (l.record m).Balanced q' := by
  unfold Ledger.Balanced at h ⊢
  cases m with
  | accept xs =>
    obtain ⟨rfl, -⟩ := hm
    simp [Ledger.record, h]
  | hand xs =>
    simp only [Moves] at hm
    simp [Ledger.record, h, hm]
  | clear =>
    simp only [Moves] at hm
    simp [Ledger.record, hm]

theorem Moves.length_le {n : ℕ} {q q' : List α} {m : Move α} (hm : Moves n q m q')
    (h : q.length ≤ n) : q'.length ≤ n := by
  cases m with
  | accept xs => exact hm.2
  | hand xs =>
    simp only [Moves] at hm
    rw [hm, List.length_append] at h
    omega
  | clear =>
    simp only [Moves] at hm
    simp [hm]

section Histories
open PartialRun

variable {ι ο : Type*} {n : ℕ} {spec : List α → ι → ο → List α → Prop} {move : ι → ο → Move α}

/-- Every allowed step of a queue within its room is the named move. -/
def MovesBy (n : ℕ) (spec : List α → ι → ο → List α → Prop) (move : ι → ο → Move α) : Prop :=
  ∀ q i o q', q.length ≤ n → spec q i o q' → Moves n q (move i o) q'

theorem MovesBy.length_le (hmove : MovesBy n spec move) {q q' : List α} {is : List ι}
    {os : List ο} (h : Allowed spec q is os q') (hq : q.length ≤ n) : q'.length ≤ n :=
  h.preserves (fun q => q.length ≤ n) (fun q i o q' hq hs => (hmove q i o q' hq hs).length_le hq) hq

theorem MovesBy.balanced (hmove : MovesBy n spec move) {q q' : List α} {is : List ι}
    {os : List ο} (h : Allowed spec q is os q') (hq : q.length ≤ n) {l : Ledger α}
    (hl : l.Balanced q) : ((List.zipWith move is os).foldl Ledger.record l).Balanced q' := by
  induction h generalizing l with
  | nil q => exact hl
  | cons head _ ih =>
    have hm := hmove _ _ _ _ hq head
    exact ih (hm.length_le hq) (hl.record hm)

/-- From the empty queue on, what a run leaves is what it accepted less what it handed out. -/
theorem MovesBy.ledger_balanced (hmove : MovesBy n spec move) {q : List α} {is : List ι}
    {os : List ο} (h : Allowed spec [] is os q) :
    (ledger (List.zipWith move is os)).Balanced q :=
  hmove.balanced h (Nat.zero_le n) rfl

end Histories

end BoundedFifo
