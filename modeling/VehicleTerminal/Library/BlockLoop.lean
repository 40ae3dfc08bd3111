import VehicleTerminal.Library.Memory

/-! Loops that fill an array from its start, one block in each round. A block may reach into the
place of the next one, which then overwrites it. -/
namespace BlockLoop
open BlockMemory

variable {α : Type*}

/-- The array after `n` rounds. A round whose block cannot be computed, or does not fit, has no
result. -/
def fillBlocks (stride : ℕ) (block : ℕ → Option (List α)) (destin : List α) :
    ℕ → Option (List α)
  | 0 => some destin
  | n + 1 => (fillBlocks stride block destin n).bind fun destin =>
      (block n).bind fun bytes => copyIn destin (stride * n) bytes bytes.length

variable {stride : ℕ} {block : ℕ → Option (List α)} {destin : List α} {n : ℕ}

theorem flatMap_range_length {body : ℕ → List α} (hbody : ∀ i < n, (body i).length = stride) :
    ((List.range n).flatMap body).length = stride * n := by
  induction n with
  | zero => rfl
  | succ n ih =>
    have hprevious := ih fun i hi => hbody i (hi.trans (Nat.lt_succ_self n))
    rw [List.range_succ, List.flatMap_append, List.length_append, hprevious,
      List.flatMap_singleton, hbody n (Nat.lt_succ_self n), Nat.mul_succ]

theorem length_flatMap {β : Type*} {f : β → List α} (h : ∀ b, (f b).length = stride)
    (source : List β) : (source.flatMap f).length = stride * source.length := by
  induction source with
  | nil => rfl
  | cons b source ih =>
    rw [List.flatMap_cons, List.length_append, h, ih, List.length_cons, Nat.mul_succ, Nat.add_comm]

/-- The bodies of the blocks lie one behind the other, and behind them what the last block has
more than its body. -/
theorem fillBlocks_eq (body : ℕ → List α) (tail : List α)
    (hblock : ∀ i < n, block i = some (body i ++ tail))
    (hbody : ∀ i < n, (body i).length = stride)
    (hfits : stride * n + tail.length ≤ destin.length) :
    fillBlocks stride block destin n = some (blit destin 0
      ((List.range n).flatMap body ++ if n = 0 then [] else tail)) := by
  induction n with
  | zero => simp [fillBlocks]
  | succ n ih =>
    rw [Nat.mul_succ] at hfits
    have hlast : (body n).length = stride := hbody n (Nat.lt_succ_self n)
    have hprevious := ih (fun i hi => hblock i (hi.trans (Nat.lt_succ_self n)))
      (fun i hi => hbody i (hi.trans (Nat.lt_succ_self n))) (by omega)
    have hlength := flatMap_range_length fun i hi => hbody i (hi.trans (Nat.lt_succ_self n))
    rw [List.range_succ, List.flatMap_append, List.flatMap_singleton, if_neg (Nat.succ_ne_zero n)]
    generalize (List.range n).flatMap body = bodies at hprevious hlength ⊢
    generalize hend : (if n = 0 then [] else tail) = stored at hprevious
    have hstored : stored.length ≤ (body n ++ tail).length := by
      rw [List.length_append, ← hend]
      split_ifs
      · exact Nat.zero_le _
      · exact Nat.le_add_left _ _
    have hroom : 0 + bodies.length + (body n ++ tail).length ≤ destin.length := by
      rw [List.length_append]
      omega
    have hmem : (blit destin 0 (bodies ++ stored)).length = destin.length := by
      refine blit_length _ _ _ ?_
      rw [List.length_append]
      omega
    have hnext := blit_blit_end destin 0 bodies hstored hroom
    rw [Nat.zero_add, hlength] at hnext
    rw [fillBlocks, hprevious, Option.bind_some, hblock n (Nat.lt_succ_self n), Option.bind_some,
      copyIn_of_le (by omega) le_rfl, List.take_length, hnext, List.append_assoc]

theorem flatMap_range_take {β : Type*} (f : β → List α) (source : List β) {n : ℕ}
    {body : ℕ → List α} (hn : n ≤ source.length)
    (hbody : ∀ i (hi : i < source.length), body i = f source[i]) :
    (List.range n).flatMap body = (source.take n).flatMap f := by
  induction n with
  | zero => rfl
  | succ n ih =>
    rw [List.range_succ, List.flatMap_append, ih (by omega), List.flatMap_singleton, hbody n hn,
      List.take_add_one, List.getElem?_eq_getElem hn, List.flatMap_append]
    simp

/-- A loop that makes a block of every element of a source. -/
theorem fillBlocks_map {β : Type*} (f : β → List α) (tail : List α) {source : List β}
    (hlength : ∀ b, (f b).length = stride) (hn : n ≤ source.length)
    (hfits : stride * n + tail.length ≤ destin.length) :
    fillBlocks stride (fun i => (source[i]?).map fun b => f b ++ tail) destin n =
      some (blit destin 0 ((source.take n).flatMap f ++ if n = 0 then [] else tail)) := by
  let body (i : ℕ) : List α := (source[i]?).elim [] f
  have hbody : ∀ i (hi : i < source.length), body i = f source[i] := by
    intro i hi
    simp only [body, List.getElem?_eq_getElem hi, Option.elim_some]
  rw [fillBlocks_eq body tail ?_ ?_ hfits, flatMap_range_take f source hn hbody]
  · intro i hi
    have hin : i < source.length := hi.trans_le hn
    rw [List.getElem?_eq_getElem hin, Option.map_some, hbody i hin]
  · intro i hi
    rw [hbody i (hi.trans_le hn), hlength]

theorem fillBlocks_eq_none {i : ℕ} (hi : i < n) (h : block i = none) :
    fillBlocks stride block destin n = none := by
  induction n with
  | zero => omega
  | succ n ih =>
    rw [fillBlocks]
    rcases Nat.lt_succ_iff_lt_or_eq.mp hi with hlt | rfl
    · rw [ih hlt, Option.bind_none]
    · cases fillBlocks stride block destin i with
      | none => rfl
      | some destin => rw [Option.bind_some, h, Option.bind_none]

end BlockLoop
