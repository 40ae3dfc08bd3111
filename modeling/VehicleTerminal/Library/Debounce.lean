import Mathlib.Data.List.DropRight
import Mathlib.Tactic

/-! Runs of equal samples in a history, and counters that confirm them. A counter that counts up
to a delay and stays there, and is cleared by the first sample of another kind, knows whether the
history ends in a run as long as the delay. -/
namespace Debounce

section Trailing

variable {α : Type*} {p : α → Bool} {hist : List α} {x : α} {n : ℕ}

/-- How many samples at the end of the history have the property. -/
def trailing (p : α → Bool) (hist : List α) : ℕ := (hist.rtakeWhile p).length

/-- The last `n` samples have the property. -/
def EndsWith (n : ℕ) (p : α → Bool) (hist : List α) : Prop :=
  ∃ before run, hist = before ++ run ∧ run.length = n ∧ ∀ x ∈ run, p x = true

theorem trailing_append_of_pos (h : p x = true) :
    trailing p (hist ++ [x]) = trailing p hist + 1 := by
  rw [trailing, List.rtakeWhile_concat_pos p hist x h, List.length_append, List.length_singleton,
    trailing]

theorem trailing_append_of_neg (h : p x = false) : trailing p (hist ++ [x]) = 0 := by
  rw [trailing, List.rtakeWhile_concat_neg p hist x (by simp [h]), List.length_nil]

theorem le_trailing_iff : n ≤ trailing p hist ↔ EndsWith n p hist := by
  constructor
  · intro h
    obtain ⟨front, hfront⟩ := List.rtakeWhile_suffix p hist
    refine ⟨front ++ (hist.rtakeWhile p).take (trailing p hist - n),
      (hist.rtakeWhile p).drop (trailing p hist - n), ?_, ?_, ?_⟩
    · rw [List.append_assoc, List.take_append_drop, hfront]
    · rw [List.length_drop, ← trailing]
      omega
    · exact fun x hx => List.mem_rtakeWhile_imp (List.mem_of_mem_drop hx)
  · rintro ⟨before, run, rfl, rfl, hrun⟩
    have hall : ∀ x ∈ run.reverse, p x = true := fun x hx => hrun x (List.mem_reverse.mp hx)
    rw [trailing, List.rtakeWhile, List.length_reverse, List.reverse_append,
      List.takeWhile_append_of_pos hall, List.length_append, List.length_reverse]
    exact Nat.le_add_right _ _

/-- A counter that stays at its delay. -/
def countUp (delay n : ℕ) : ℕ := if n + 1 ≥ delay then delay else n + 1

theorem countUp_min (delay n : ℕ) : countUp delay (min delay n) = min delay (n + 1) := by
  unfold countUp
  split_ifs <;> omega

theorem min_eq_delay_iff (delay n : ℕ) : min delay n ≥ delay ↔ delay ≤ n := by omega

/-- Only one level is at the end of a history. -/
theorem trailing_true_or_false (hist : List Bool) :
    trailing (· == true) hist = 0 ∨ trailing (· == false) hist = 0 := by
  rcases List.eq_nil_or_concat hist with rfl | ⟨front, level, rfl⟩
  · exact .inl rfl
  · rw [List.concat_eq_append]
    cases level with
    | true => exact .inr (trailing_append_of_neg rfl)
    | false => exact .inl (trailing_append_of_neg rfl)

end Trailing

section Levels

variable {delay : Bool → ℕ} {hist after : List Bool} {level level' : Bool}

/-- A run of the level as long as its delay, and the samples that came after it. -/
def Run (delay : Bool → ℕ) (hist : List Bool) (level : Bool) (after : List Bool) : Prop :=
  ∃ before, hist = before ++ List.replicate (delay level) level ++ after

/-- The most recent run as long as its delay is one of the level. -/
def LastRun (delay : Bool → ℕ) (hist : List Bool) (level : Bool) : Prop :=
  ∃ after, Run delay hist level after ∧
    ∀ level' after', Run delay hist level' after' → after.length ≤ after'.length

/-- No run has been as long as its delay. -/
def NoRun (delay : Bool → ℕ) (hist : List Bool) : Prop :=
  ∀ level after, ¬ Run delay hist level after

/-- The history ends in a run exactly when the level has been there for its delay. -/
theorem run_nil_iff : Run delay hist level [] ↔ delay level ≤ trailing (· == level) hist := by
  rw [le_trailing_iff, Run]
  constructor
  · rintro ⟨before, hhist⟩
    refine ⟨before, List.replicate (delay level) level, by rw [hhist, List.append_nil],
      List.length_replicate, fun x hx => ?_⟩
    rw [List.eq_of_mem_replicate hx]
    exact beq_self_eq_true level
  · rintro ⟨before, run, hhist, hlength, hrun⟩
    refine ⟨before, ?_⟩
    rw [List.append_nil, hhist, ← hlength, ← List.eq_replicate_of_mem]
    exact fun x hx => eq_of_beq (hrun x hx)

/-- A run stays in the history, with one more sample behind it. -/
theorem run_append_iff {x : Bool} :
    Run delay (hist ++ [x]) level after ↔
      (after = [] ∧ Run delay (hist ++ [x]) level []) ∨
        ∃ after', after = after' ++ [x] ∧ Run delay hist level after' := by
  constructor
  · intro h
    rcases List.eq_nil_or_concat after with rfl | ⟨after', y, rfl⟩
    · exact .inl ⟨rfl, h⟩
    · obtain ⟨before, hhist⟩ := h
      rw [List.concat_eq_append, ← List.append_assoc] at hhist
      obtain ⟨hfront, hlast⟩ := List.append_inj' hhist rfl
      cases hlast
      exact .inr ⟨after', List.concat_eq_append, before, hfront⟩
  · rintro (⟨rfl, h⟩ | ⟨after', rfl, before, rfl⟩)
    · exact h
    · exact ⟨before, List.append_assoc _ _ _⟩

theorem lastRun_of_run_nil (h : Run delay hist level []) : LastRun delay hist level :=
  ⟨[], h, fun _ _ _ => Nat.zero_le _⟩

/-- Where the new sample ends no run, the most recent one is what it was. -/
theorem lastRun_append_iff {x : Bool} (h : ∀ level, ¬ Run delay (hist ++ [x]) level []) :
    LastRun delay (hist ++ [x]) level ↔ LastRun delay hist level := by
  have hrun (level : Bool) (after : List Bool) :
      Run delay (hist ++ [x]) level after ↔
        ∃ after', after = after' ++ [x] ∧ Run delay hist level after' := by
    rw [run_append_iff]
    exact or_iff_right fun hnil => h level hnil.2
  constructor
  · rintro ⟨after, hafter, hleast⟩
    obtain ⟨after', rfl, hbefore⟩ := (hrun level after).mp hafter
    refine ⟨after', hbefore, fun level' other hother => ?_⟩
    have hle := hleast level' (other ++ [x]) ((hrun level' _).mpr ⟨other, rfl, hother⟩)
    simpa using hle
  · rintro ⟨after, hafter, hleast⟩
    refine ⟨after ++ [x], (hrun level _).mpr ⟨after, rfl, hafter⟩, fun level' other hother => ?_⟩
    obtain ⟨other', rfl, hbefore⟩ := (hrun level' other).mp hother
    simpa using hleast level' other' hbefore

theorem noRun_append_iff {x : Bool} (h : ∀ level, ¬ Run delay (hist ++ [x]) level []) :
    NoRun delay (hist ++ [x]) ↔ NoRun delay hist := by
  constructor
  · intro hnone level after hrun
    exact hnone level (after ++ [x]) (run_append_iff.mpr (.inr ⟨after, rfl, hrun⟩))
  · intro hnone level after hrun
    rcases run_append_iff.mp hrun with ⟨-, hnil⟩ | ⟨after', -, hbefore⟩
    · exact h level hnil
    · exact hnone level after' hbefore

theorem noRun_nil (hdelay : ∀ level, 0 < delay level) : NoRun delay [] := by
  rintro level after ⟨before, hhist⟩
  have hlength := congrArg List.length hhist
  have hpos := hdelay level
  simp only [List.length_nil, List.length_append, List.length_replicate] at hlength
  omega

end Levels

section Bit

variable {delay : Bool → ℕ} {active initial bit level : Bool} {hist : List Bool}
  {confirmed : Option Bool}

/-- The bit says whether the most recent long run was one of the active level. -/
def Debounced (delay : Bool → ℕ) (active initial : Bool) (hist : List Bool) (bit : Bool) : Prop :=
  (∃ level, LastRun delay hist level ∧ bit = (level == active)) ∨
    (NoRun delay hist ∧ bit = initial)

/-- The bit says whether there has been a long run of the active level. -/
def Latched (delay : Bool → ℕ) (active initial : Bool) (hist : List Bool) (bit : Bool) : Prop :=
  bit = true ↔ initial = true ∨ ∃ after, Run delay hist active after

/-- What the level that a sample confirms makes of the bit. -/
def nextBit (active bit : Bool) : Option Bool → Bool
  | some level => level == active
  | none => bit

/-- The same for a bit that is only ever set. -/
def nextLatch (active bit : Bool) : Option Bool → Bool
  | some level => bit || level == active
  | none => bit

/-- The level that ends the history with a long run. -/
def Confirms (delay : Bool → ℕ) (hist : List Bool) (confirmed : Option Bool) : Prop :=
  ∀ level, confirmed = some level ↔ Run delay hist level []

theorem debounced_nil (hdelay : ∀ level, 0 < delay level) :
    Debounced delay active initial [] initial :=
  .inr ⟨noRun_nil hdelay, rfl⟩

theorem Debounced.append {x : Bool} (h : Debounced delay active initial hist bit)
    (hconfirmed : Confirms delay (hist ++ [x]) confirmed) :
    Debounced delay active initial (hist ++ [x]) (nextBit active bit confirmed) := by
  cases confirmed with
  | some level =>
    exact .inl ⟨level, lastRun_of_run_nil ((hconfirmed level).mp rfl), rfl⟩
  | none =>
    have hnone : ∀ level, ¬ Run delay (hist ++ [x]) level [] := by
      intro level hrun
      exact absurd ((hconfirmed level).mpr hrun) (Option.some_ne_none level).symm
    rcases h with ⟨level, hlast, hbit⟩ | ⟨hno, hbit⟩
    · exact .inl ⟨level, (lastRun_append_iff hnone).mpr hlast, hbit⟩
    · exact .inr ⟨(noRun_append_iff hnone).mpr hno, hbit⟩

theorem latched_nil (hdelay : ∀ level, 0 < delay level) :
    Latched delay active initial [] initial := by
  refine ⟨.inl, ?_⟩
  rintro (hinitial | ⟨after, hrun⟩)
  · exact hinitial
  · exact absurd hrun (noRun_nil hdelay active after)

theorem exists_run_append_iff {x : Bool} :
    (∃ after, Run delay (hist ++ [x]) level after) ↔
      Run delay (hist ++ [x]) level [] ∨ ∃ after, Run delay hist level after := by
  constructor
  · rintro ⟨after, hrun⟩
    rcases run_append_iff.mp hrun with ⟨-, hnil⟩ | ⟨after', -, hbefore⟩
    · exact .inl hnil
    · exact .inr ⟨after', hbefore⟩
  · rintro (hnil | ⟨after, hbefore⟩)
    · exact ⟨[], hnil⟩
    · exact ⟨after ++ [x], run_append_iff.mpr (.inr ⟨after, rfl, hbefore⟩)⟩

theorem nextLatch_eq_true :
    nextLatch active bit confirmed = true ↔ bit = true ∨ confirmed = some active := by
  cases confirmed with
  | none => simp [nextLatch]
  | some level => simp [nextLatch]

theorem Latched.append {x : Bool} (h : Latched delay active initial hist bit)
    (hconfirmed : Confirms delay (hist ++ [x]) confirmed) :
    Latched delay active initial (hist ++ [x]) (nextLatch active bit confirmed) := by
  rw [Latched] at h
  rw [Latched, nextLatch_eq_true, hconfirmed active, exists_run_append_iff, h, or_assoc]
  exact or_congr_right or_comm

end Bit

section Windows

variable {α : Type*} {n : ℕ} {hist : List α}

/-- The history cut into windows of `n` samples, as far as they are complete. -/
def windows (n : ℕ) (hist : List α) : List (List α) :=
  (List.range (hist.length / n)).map fun i => (hist.drop (n * i)).take n

/-- The samples behind the last complete window. -/
def pending (n : ℕ) (hist : List α) : List α := hist.drop (n * (hist.length / n))

theorem length_pending (n : ℕ) (hist : List α) :
    (pending n hist).length = hist.length % n := by
  rw [pending, List.length_drop, Nat.mod_eq_sub_mul_div]

theorem mem_of_mem_pending {x : α} (h : x ∈ pending n hist) : x ∈ hist := List.mem_of_mem_drop h

theorem pending_eq_drop_append (n : ℕ) (hist : List α) (x : α) :
    (hist ++ [x]).drop (n * (hist.length / n)) = pending n hist ++ [x] :=
  List.drop_append_of_le_length (Nat.mul_div_le _ _)

/-- The windows of a history are those of a longer one, up to its own length. -/
theorem windows_map_append (n : ℕ) (hist : List α) (x : α) :
    ((List.range (hist.length / n)).map fun i => ((hist ++ [x]).drop (n * i)).take n) =
      windows n hist := by
  apply List.map_congr_left
  intro i hi
  have hfits : n * i + n ≤ hist.length := by
    rw [← Nat.mul_succ]
    exact (Nat.mul_le_mul_left n (List.mem_range.mp hi)).trans (Nat.mul_div_le _ _)
  rw [List.drop_append_of_le_length (by omega), List.take_append_of_le_length]
  rw [List.length_drop]
  omega

/-- A sample that does not complete a window waits. -/
theorem windows_append_of_lt {x : α} (h : hist.length % n + 1 < n) :
    windows n (hist ++ [x]) = windows n hist ∧ pending n (hist ++ [x]) = pending n hist ++ [x] := by
  have hdiv : (hist ++ [x]).length / n = hist.length / n := by
    rw [List.length_append, List.length_singleton, Nat.succ_div_of_not_dvd]
    rw [Nat.dvd_iff_mod_eq_zero, Nat.add_mod, Nat.mod_eq_of_lt (by omega : 1 < n),
      Nat.mod_eq_of_lt h]
    omega
  constructor
  · rw [windows, hdiv, windows_map_append]
  · rw [pending, hdiv, pending_eq_drop_append]

/-- A sample that completes a window leaves nothing behind it. -/
theorem windows_append_of_eq {x : α} (h : hist.length % n + 1 = n) :
    windows n (hist ++ [x]) = windows n hist ++ [pending n hist ++ [x]] ∧
      pending n (hist ++ [x]) = [] := by
  have hlength : hist.length + 1 = n * (hist.length / n + 1) := by
    have hsplit := Nat.div_add_mod hist.length n
    rw [Nat.mul_succ]
    omega
  have hdiv : (hist ++ [x]).length / n = hist.length / n + 1 := by
    rw [List.length_append, List.length_singleton, hlength, Nat.mul_div_cancel_left _ (by omega)]
  constructor
  · rw [windows, hdiv, List.range_succ, List.map_append, windows_map_append, List.map_singleton,
      pending_eq_drop_append, List.take_of_length_le]
    rw [List.length_append, List.length_singleton, length_pending, h]
  · rw [pending, hdiv, ← hlength]
    exact List.drop_of_length_le (by simp)

end Windows

section Mean

variable {bound : ℕ} {w : List ℕ} {x : ℕ}

/-- The least sample, with a bound to start from. -/
def lowest (bound : ℕ) (w : List ℕ) : ℕ := w.foldl min bound

def highest (w : List ℕ) : ℕ := w.foldl max 0

/-- The mean of ten samples, without the least and the greatest of them. -/
def trimmedMean (bound : ℕ) (w : List ℕ) : ℕ := (w.sum - lowest bound w - highest w) / 8

@[simp] theorem lowest_append (bound : ℕ) (w : List ℕ) (x : ℕ) :
    lowest bound (w ++ [x]) = min (lowest bound w) x := by
  rw [lowest, List.foldl_append, List.foldl_cons, List.foldl_nil, ← lowest]

@[simp] theorem highest_append (w : List ℕ) (x : ℕ) :
    highest (w ++ [x]) = max (highest w) x := by
  rw [highest, List.foldl_append, List.foldl_cons, List.foldl_nil, ← highest]

theorem lowest_le (h : x ∈ w) : lowest bound w ≤ x := by
  induction w using List.reverseRecOn with
  | nil => exact absurd h List.not_mem_nil
  | append_singleton w y ih =>
    rw [lowest_append]
    rcases List.mem_append.mp h with hx | hx
    · exact (Nat.min_le_left _ _).trans (ih hx)
    · rw [List.mem_singleton.mp hx]
      exact Nat.min_le_right _ _

theorem le_highest (h : x ∈ w) : x ≤ highest w := by
  induction w using List.reverseRecOn with
  | nil => exact absurd h List.not_mem_nil
  | append_singleton w y ih =>
    rw [highest_append]
    rcases List.mem_append.mp h with hx | hx
    · exact (ih hx).trans (Nat.le_max_left _ _)
    · rw [List.mem_singleton.mp hx]
      exact Nat.le_max_right _ _

theorem lowest_mem (hw : w ≠ []) (hbound : ∀ x ∈ w, x ≤ bound) : lowest bound w ∈ w := by
  induction w using List.reverseRecOn with
  | nil => exact absurd rfl hw
  | append_singleton w y ih =>
    rw [lowest_append]
    rcases eq_or_ne w [] with rfl | hne
    · rw [lowest, List.foldl_nil, Nat.min_eq_right (hbound y (by simp))]
      exact List.mem_singleton_self y
    · have hmem := ih hne fun x hx => hbound x (List.mem_append_left _ hx)
      rcases min_choice (lowest bound w) y with heq | heq
      · rw [heq]
        exact List.mem_append_left _ hmem
      · rw [heq]
        exact List.mem_append_right _ (List.mem_singleton_self y)

theorem highest_mem (hw : w ≠ []) : highest w ∈ w := by
  induction w using List.reverseRecOn with
  | nil => exact absurd rfl hw
  | append_singleton w y ih =>
    rw [highest_append]
    rcases eq_or_ne w [] with rfl | hne
    · rw [highest, List.foldl_nil, Nat.zero_max]
      exact List.mem_singleton_self y
    · rcases max_choice (highest w) y with heq | heq
      · rw [heq]
        exact List.mem_append_left _ (ih hne)
      · rw [heq]
        exact List.mem_append_right _ (List.mem_singleton_self y)

/-- Without the greatest sample the others are at least the least one. -/
theorem lowest_le_sum (bound : ℕ) (hw : w ≠ []) :
    highest w + (w.length - 1) * lowest bound w ≤ w.sum := by
  rw [← List.sum_erase (highest_mem hw), ← List.length_erase_of_mem (highest_mem hw)]
  apply Nat.add_le_add_left
  exact List.card_nsmul_le_sum _ _ fun x hx => lowest_le (List.mem_of_mem_erase hx)

/-- Without the least sample the others are at most the greatest one. -/
theorem sum_le_highest (hw : w ≠ []) (hbound : ∀ x ∈ w, x ≤ bound) :
    w.sum ≤ lowest bound w + (w.length - 1) * highest w := by
  have hmem := lowest_mem hw hbound
  rw [← List.sum_erase hmem, ← List.length_erase_of_mem hmem]
  apply Nat.add_le_add_left
  exact List.sum_le_card_nsmul _ _ fun x hx => le_highest (List.mem_of_mem_erase hx)

/-- The trimmed mean of ten samples is between the least and the greatest one. -/
theorem trimmedMean_bounds (hw : w.length = 10) (hbound : ∀ x ∈ w, x ≤ bound) :
    lowest bound w ≤ trimmedMean bound w ∧ trimmedMean bound w ≤ highest w := by
  have hne : w ≠ [] := List.ne_nil_of_length_pos (by omega)
  have hleast := lowest_le_sum bound hne
  have hgreatest := sum_le_highest hne hbound
  rw [hw] at hleast hgreatest
  rw [trimmedMean]
  omega

end Mean

end Debounce
