import VehicleTerminal.Library.Ring
import VehicleTerminal.Library.Simulation

/-! The stack of `Public.c`, from which elements are taken at both ends. Positions and the
count are 8-bit; an access outside `data` leaves a function without result. -/
namespace VehicleTerminal.LzmStack
open BlockMemory CircularBuffer PartialRun

def stackMaxNum : ℕ := 12

structure StStack where
  data : Vector UInt16 stackMaxNum
  top : ℕ
  bottom : ℕ
  count : ℕ
  deriving Repr, DecidableEq

def lzmStackClear (ps : StStack) : StStack := { ps with top := 0, count := 0, bottom := 0 }

def lzmStackEmpty (ps : StStack) : Bool := 0 == ps.count

def lzmStackFull (ps : StStack) : Bool := ps.count ≥ stackMaxNum - 1

/-- The returned element is 0 when there is none to take. -/
def lzmStackTop (ps : StStack) : Option (StStack × UInt16) :=
  if lzmStackEmpty ps then some (ps, 0)
  else
    let top := if ps.top = 0 then stackMaxNum else ps.top
    let top := (top + 255) % 256
    (ps.data[top]?).map fun data => ({ ps with top := top, count := (ps.count + 255) % 256 }, data)

def lzmStackBottom (ps : StStack) : Option (StStack × UInt16) :=
  if lzmStackEmpty ps then some (ps, 0)
  else
    (ps.data[ps.bottom]?).map fun data =>
      let bottom := (ps.bottom + 1) % 256
      ({ ps with
        bottom := if bottom = stackMaxNum then 0 else bottom
        count := (ps.count + 255) % 256 }, data)

def lzmStackPush (ps : StStack) (sdata : UInt16) : Option StStack :=
  if lzmStackFull ps then some ps
  else if h : ps.top < stackMaxNum then
    let top := (ps.top + 1) % 256
    some { ps with
      data := ps.data.set ps.top sdata
      top := if top ≥ stackMaxNum then 0 else top
      count := (ps.count + 1) % 256 }
  else none

inductive Operation
  | push (sdata : UInt16)
  | top
  | bottom
  | empty
  | full
  deriving Repr, DecidableEq

inductive Reply
  | pushed
  | taken (data : UInt16)
  | answered (flag : Bool)
  deriving Repr, DecidableEq

def step (ps : StStack) : Operation → Option (StStack × Reply)
  | .push sdata => (lzmStackPush ps sdata).map fun r => (r, .pushed)
  | .top => (lzmStackTop ps).map fun r => (r.1, .taken r.2)
  | .bottom => (lzmStackBottom ps).map fun r => (r.1, .taken r.2)
  | .empty => some (ps, .answered (lzmStackEmpty ps))
  | .full => some (ps, .answered (lzmStackFull ps))

/-- What an operation is for, on the list of stored elements, the oldest first. -/
def Follows (n : ℕ) (q : List UInt16) : Operation → Reply → List UInt16 → Prop
  | .push sdata, reply, q' =>
    reply = .pushed ∧ q' = if q.length < n then q ++ [sdata] else q
  | .top, reply, q' => reply = .taken (q.getLastD 0) ∧ q' = q.dropLast
  | .bottom, reply, q' => reply = .taken (q.headD 0) ∧ q' = q.tail
  | .empty, reply, q' => reply = .answered q.isEmpty ∧ q' = q
  | .full, reply, q' => reply = .answered (q.length == n) ∧ q' = q

/-- The elements that the array holds, from the bottom on. -/
def stored (ps : StStack) : List UInt16 :=
  (List.range ps.count).map fun i => ps.data.toList.getD ((ps.bottom + i) % stackMaxNum) 0

/-- The fields of `ps` describe the abstract store `q`. -/
structure Coupled (ps : StStack) (q : List UInt16) : Prop where
  room : q.length ≤ stackMaxNum - 1
  count : ps.count = q.length
  bottom_lt : ps.bottom < stackMaxNum
  top_lt : ps.top < stackMaxNum
  top : ps.top = (ps.bottom + q.length) % stackMaxNum
  content : Holds ps.data.toList stackMaxNum ps.bottom q

section Steps

variable {ps : StStack} {q : List UInt16}

/-- Both tests that wrap an increment turn it into the next position around the end. -/
theorem position_succ {pos : ℕ} (h : pos < stackMaxNum) :
    (if (pos + 1) % 256 ≥ stackMaxNum then 0 else (pos + 1) % 256) = (pos + 1) % stackMaxNum ∧
      (if (pos + 1) % 256 = stackMaxNum then 0 else (pos + 1) % 256) =
        (pos + 1) % stackMaxNum := by
  constructor <;> split_ifs <;> simp only [stackMaxNum] at * <;> omega

/-- A position wraps before it is decremented. -/
theorem position_pred {pos k : ℕ} (h : pos = (k + 1) % stackMaxNum) :
    ((if pos = 0 then stackMaxNum else pos) + 255) % 256 = k % stackMaxNum := by
  have hmax : stackMaxNum = 12 := rfl
  rw [hmax] at h ⊢
  by_cases hpos : pos = 0
  · rw [if_pos hpos]
    omega
  · rw [if_neg hpos]
    omega

theorem Coupled.empty_eq (h : Coupled ps q) : lzmStackEmpty ps = q.isEmpty := by
  rw [lzmStackEmpty, h.count]
  cases q <;> rfl

theorem Coupled.full_eq (h : Coupled ps q) :
    lzmStackFull ps = (q.length == stackMaxNum - 1) := by
  have hroom := h.room
  rw [lzmStackFull, h.count, Bool.eq_iff_iff, decide_eq_true_iff, beq_iff_eq]
  omega

theorem Coupled.stored_eq (h : Coupled ps q) : stored ps = q := by
  apply List.ext_getElem
  · rw [stored, List.length_map, List.length_range, h.count]
  · intro i hi hq
    have hcell := h.content i hq
    simp only [stored, List.getElem_map, List.getElem_range, List.getD_eq_getElem?_getD, hcell,
      List.getElem?_eq_getElem hq, Option.getD_some]

theorem clear_coupled (ps : StStack) : Coupled (lzmStackClear ps) [] where
  room := Nat.zero_le _
  count := rfl
  bottom_lt := Nat.succ_pos _
  top_lt := Nat.succ_pos _
  top := rfl
  content := holds_nil _ _ _

/-- A push on a store that is not full appends. -/
theorem push_refines (h : Coupled ps q) (sdata : UInt16) (hroom : q.length < stackMaxNum - 1) :
    ∃ ps', lzmStackPush ps sdata = some ps' ∧ Coupled ps' (q ++ [sdata]) := by
  have hfull : ¬ lzmStackFull ps = true := by
    rw [h.full_eq, beq_iff_eq]
    omega
  have hlt := h.top_lt
  have hwrite : (ps.data.set ps.top sdata).toList =
      wrapWrite ps.data.toList stackMaxNum ps.top [sdata] := by
    rw [wrapWrite, if_pos (show ps.top + [sdata].length ≤ stackMaxNum from hlt),
      Vector.toList_set, set_eq_blit _ _ _ (by simpa using hlt)]
  have hlength : (q ++ [sdata]).length = q.length + 1 := by simp
  have hwindow : q.length + [sdata].length ≤ stackMaxNum := by
    rw [List.length_singleton]
    omega
  refine ⟨_, by rw [lzmStackPush, if_neg hfull, dif_pos hlt], ?_⟩
  rw [(position_succ hlt).1]
  constructor
  · omega
  · simp only [h.count, hlength]
    simp only [stackMaxNum] at hroom
    omega
  · exact h.bottom_lt
  · exact Nat.mod_lt _ (Nat.succ_pos _)
  · simp only [hlength, h.top, Nat.mod_add_mod, Nat.add_assoc]
  · simp only [hwrite]
    exact h.content.append (by simp) hlt.le (by rw [h.top, Nat.mod_mod]) hwindow

/-- The newest element leaves at the top. -/
theorem top_refines {xs : List UInt16} {x : UInt16} (h : Coupled ps (xs ++ [x])) :
    ∃ ps', lzmStackTop ps = some (ps', x) ∧ Coupled ps' xs := by
  have hlength : (xs ++ [x]).length = xs.length + 1 := by simp
  have hroom := h.room
  have hempty : ¬ lzmStackEmpty ps = true := by simp [h.empty_eq]
  have htop : ((if ps.top = 0 then stackMaxNum else ps.top) + 255) % 256 =
      (ps.bottom + xs.length) % stackMaxNum :=
    position_pred (by rw [h.top, hlength, Nat.add_assoc])
  have hcell : ps.data[(ps.bottom + xs.length) % stackMaxNum]? = some x := by
    have hlast := h.content xs.length (by simp)
    simpa using hlast
  have hrun : lzmStackTop ps = some (⟨ps.data, (ps.bottom + xs.length) % stackMaxNum, ps.bottom,
      (ps.count + 255) % 256⟩, x) := by
    simp only [lzmStackTop, if_neg hempty, htop, hcell, Option.map_some]
  refine ⟨_, hrun, ?_⟩
  constructor
  · omega
  · simp only [h.count, hlength]
    simp only [stackMaxNum] at hroom
    omega
  · exact h.bottom_lt
  · exact Nat.mod_lt _ (Nat.succ_pos _)
  · rfl
  · exact h.content.take_left

/-- The oldest element leaves at the bottom. -/
theorem bottom_refines {x : UInt16} {xs : List UInt16} (h : Coupled ps (x :: xs)) :
    ∃ ps', lzmStackBottom ps = some (ps', x) ∧ Coupled ps' xs := by
  have hlength : (x :: xs).length = xs.length + 1 := rfl
  have hroom := h.room
  have hempty : ¬ lzmStackEmpty ps = true := by simp [h.empty_eq]
  have hcell : ps.data[ps.bottom]? = some x := by
    have hfirst := h.content 0 (by simp)
    rw [Nat.add_zero, Nat.mod_eq_of_lt h.bottom_lt] at hfirst
    simpa using hfirst
  refine ⟨_, by rw [lzmStackBottom, if_neg hempty, hcell, Option.map_some], ?_⟩
  rw [(position_succ h.bottom_lt).2]
  constructor
  · omega
  · simp only [h.count, hlength]
    simp only [stackMaxNum] at hroom
    omega
  · exact Nat.mod_lt _ (Nat.succ_pos _)
  · exact h.top_lt
  · simp only [h.top, hlength, Nat.mod_add_mod, Nat.add_assoc, Nat.add_comm 1]
  · exact h.content.drop (k := 1) (Nat.mod_mod _ _)

/-- One operation, by cases on it and on what there is to take. -/
theorem step_refines :
    StepRefines step (Follows (stackMaxNum - 1)) Coupled fun _ _ => True := by
  intro ps q op h _
  cases op with
  | push sdata =>
    by_cases hroom : q.length < stackMaxNum - 1
    · obtain ⟨ps', hrun, hc⟩ := push_refines h sdata hroom
      exact ⟨ps', _, _, by rw [step, hrun, Option.map_some], ⟨rfl, (if_pos hroom).symm⟩, hc⟩
    · have hfull : lzmStackFull ps = true := by
        have hle := h.room
        rw [h.full_eq, beq_iff_eq]
        omega
      have hrun : lzmStackPush ps sdata = some ps := by rw [lzmStackPush, if_pos hfull]
      exact ⟨ps, _, _, by rw [step, hrun, Option.map_some], ⟨rfl, (if_neg hroom).symm⟩, h⟩
  | top =>
    rcases List.eq_nil_or_concat q with rfl | ⟨xs, x, rfl⟩
    · have hempty : lzmStackEmpty ps = true := h.empty_eq
      have hrun : lzmStackTop ps = some (ps, 0) := by rw [lzmStackTop, if_pos hempty]
      exact ⟨ps, .taken 0, [], by rw [step, hrun, Option.map_some], ⟨rfl, rfl⟩, h⟩
    · rw [List.concat_eq_append] at h ⊢
      obtain ⟨ps', hrun, hc⟩ := top_refines h
      exact ⟨ps', .taken x, xs, by rw [step, hrun, Option.map_some],
        ⟨by rw [List.getLastD_concat], List.dropLast_concat.symm⟩, hc⟩
  | bottom =>
    cases q with
    | nil =>
      have hempty : lzmStackEmpty ps = true := h.empty_eq
      have hrun : lzmStackBottom ps = some (ps, 0) := by rw [lzmStackBottom, if_pos hempty]
      exact ⟨ps, .taken 0, [], by rw [step, hrun, Option.map_some], ⟨rfl, rfl⟩, h⟩
    | cons x xs =>
      obtain ⟨ps', hrun, hc⟩ := bottom_refines h
      exact ⟨ps', .taken x, xs, by rw [step, hrun, Option.map_some], ⟨rfl, rfl⟩, hc⟩
  | empty => exact ⟨ps, _, q, rfl, ⟨by rw [h.empty_eq], rfl⟩, h⟩
  | full => exact ⟨ps, _, q, rfl, ⟨by rw [h.full_eq], rfl⟩, h⟩

end Steps

/-- From a cleared stack on, every run stays inside the array and follows the bounded store,
whose elements the array holds at the end. -/
theorem stack_runs_as_bounded_store (ps : StStack) (ops : List Operation) :
    ∃ ps' replies q, run step (lzmStackClear ps) ops = some (ps', replies) ∧
      Allowed (Follows (stackMaxNum - 1)) [] ops replies q ∧ stored ps' = q ∧
      q.length ≤ stackMaxNum - 1 := by
  have hguarded : Guarded step (fun _ _ => True) (lzmStackClear ps) ops :=
    guarded_of_forall (fun _ _ => trivial) _ ops
  obtain ⟨ps', replies, q, hrun, hallowed, hc⟩ := step_refines.run (clear_coupled ps) hguarded
  exact ⟨ps', replies, q, hrun, hallowed, hc.stored_eq, hc.room⟩

end VehicleTerminal.LzmStack
