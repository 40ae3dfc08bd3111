import Mathlib.Order.Monotone.Defs
import Mathlib.Tactic

/-! Bisection of a half-open interval of positions with increasing keys. Besides the result,
the positions that are looked at are described: a position is looked at exactly by the searches
whose key lies inside the block around it. -/
namespace Bisection

variable {α : Type*} [LinearOrder α]

def middle (lo hi : ℕ) : ℕ := (hi + lo) / 2

theorem le_middle {lo hi : ℕ} (h : lo < hi) : lo ≤ middle lo hi := by
  unfold middle
  omega

theorem middle_lt {lo hi : ℕ} (h : lo < hi) : middle lo hi < hi := by
  unfold middle
  omega

/-- The position of the key `x` among the keys `f` at the positions from `lo` to below `hi`. -/
def search (f : ℕ → α) (x : α) (lo hi : ℕ) : Option ℕ :=
  if h : lo < hi then
    have := le_middle h
    have := middle_lt h
    if x < f (middle lo hi) then search f x lo (middle lo hi)
    else if f (middle lo hi) < x then search f x (middle lo hi + 1) hi
    else some (middle lo hi)
  else none
termination_by hi - lo

/-- The positions that the search looks at. -/
def probes (f : ℕ → α) (x : α) (lo hi : ℕ) : List ℕ :=
  if h : lo < hi then
    have := le_middle h
    have := middle_lt h
    if x < f (middle lo hi) then middle lo hi :: probes f x lo (middle lo hi)
    else if f (middle lo hi) < x then middle lo hi :: probes f x (middle lo hi + 1) hi
    else [middle lo hi]
  else []
termination_by hi - lo

/-- The part of the interval that is left when the halving comes to the position `v`. -/
def block (v lo hi : ℕ) : ℕ × ℕ :=
  if h : lo < hi then
    have := le_middle h
    have := middle_lt h
    if v < middle lo hi then block v lo (middle lo hi)
    else if middle lo hi < v then block v (middle lo hi + 1) hi
    else (lo, hi)
  else (lo, hi)
termination_by hi - lo

section Steps

variable {f : ℕ → α} {x : α} {lo hi : ℕ}

theorem search_empty (h : ¬ lo < hi) : search f x lo hi = none := by
  rw [search, dif_neg h]

theorem search_below (h : lo < hi) (hx : x < f (middle lo hi)) :
    search f x lo hi = search f x lo (middle lo hi) := by
  rw [search, dif_pos h, if_pos hx]

theorem search_above (h : lo < hi) (hx : f (middle lo hi) < x) :
    search f x lo hi = search f x (middle lo hi + 1) hi := by
  rw [search, dif_pos h, if_neg hx.asymm, if_pos hx]

theorem search_found (h : lo < hi) (hx : f (middle lo hi) = x) :
    search f x lo hi = some (middle lo hi) := by
  rw [search, dif_pos h, if_neg hx.not_gt, if_neg hx.not_lt]

theorem probes_empty (h : ¬ lo < hi) : probes f x lo hi = [] := by
  rw [probes, dif_neg h]

theorem probes_below (h : lo < hi) (hx : x < f (middle lo hi)) :
    probes f x lo hi = middle lo hi :: probes f x lo (middle lo hi) := by
  rw [probes, dif_pos h, if_pos hx]

theorem probes_above (h : lo < hi) (hx : f (middle lo hi) < x) :
    probes f x lo hi = middle lo hi :: probes f x (middle lo hi + 1) hi := by
  rw [probes, dif_pos h, if_neg hx.asymm, if_pos hx]

theorem probes_found (h : lo < hi) (hx : f (middle lo hi) = x) :
    probes f x lo hi = [middle lo hi] := by
  rw [probes, dif_pos h, if_neg hx.not_gt, if_neg hx.not_lt]

variable {v : ℕ}

theorem block_below (h : lo < hi) (hv : v < middle lo hi) :
    block v lo hi = block v lo (middle lo hi) := by
  rw [block, dif_pos h, if_pos hv]

theorem block_above (h : lo < hi) (hv : middle lo hi < v) :
    block v lo hi = block v (middle lo hi + 1) hi := by
  rw [block, dif_pos h, if_neg hv.asymm, if_pos hv]

theorem block_middle (h : lo < hi) : block (middle lo hi) lo hi = (lo, hi) := by
  rw [block, dif_pos h, if_neg (lt_irrefl _), if_neg (lt_irrefl _)]

end Steps

/-- The rounds of a bisection: what holds of every empty interval, and of an interval if it
holds of the half that the search goes on with, holds of every interval. -/
theorem bisection_induction {f : ℕ → α} {x : α} {motive : ℕ → ℕ → Prop}
    (empty : ∀ lo hi, ¬ lo < hi → motive lo hi)
    (below : ∀ lo hi, lo < hi → x < f (middle lo hi) → motive lo (middle lo hi) → motive lo hi)
    (above : ∀ lo hi, lo < hi → f (middle lo hi) < x → motive (middle lo hi + 1) hi →
      motive lo hi)
    (found : ∀ lo hi, lo < hi → f (middle lo hi) = x → motive lo hi) (lo hi : ℕ) :
    motive lo hi := by
  induction hm : hi - lo using Nat.strong_induction_on generalizing lo hi with
  | _ m ih =>
    by_cases h : lo < hi
    · have hlo := le_middle h
      have hhi := middle_lt h
      rcases lt_trichotomy x (f (middle lo hi)) with hx | hx | hx
      · exact below lo hi h hx (ih _ (by omega) _ _ rfl)
      · exact found lo hi h hx.symm
      · exact above lo hi h hx (ih _ (by omega) _ _ rfl)
    · exact empty lo hi h

section Correctness

variable {f : ℕ → α} {x : α} {lo hi v : ℕ}

theorem mem_probes_range (h : v ∈ probes f x lo hi) : lo ≤ v ∧ v < hi := by
  induction lo, hi using bisection_induction (f := f) (x := x) with
  | empty lo hi hlt =>
    rw [probes_empty hlt] at h
    cases h
  | below lo hi hlt hx ih =>
    have hmid := middle_lt hlt
    rw [probes_below hlt hx, List.mem_cons] at h
    rcases h with rfl | h
    · exact ⟨le_middle hlt, hmid⟩
    · have hv := ih h
      omega
  | above lo hi hlt hx ih =>
    have hmid := le_middle hlt
    rw [probes_above hlt hx, List.mem_cons] at h
    rcases h with rfl | h
    · exact ⟨hmid, middle_lt hlt⟩
    · have hv := ih h
      omega
  | found lo hi hlt hx =>
    rw [probes_found hlt hx, List.mem_singleton] at h
    exact h ▸ ⟨le_middle hlt, middle_lt hlt⟩

/-- A result is a position of the key. -/
theorem search_sound (h : search f x lo hi = some v) : lo ≤ v ∧ v < hi ∧ f v = x := by
  induction lo, hi using bisection_induction (f := f) (x := x) with
  | empty lo hi hlt =>
    rw [search_empty hlt] at h
    cases h
  | below lo hi hlt hx ih =>
    rw [search_below hlt hx] at h
    obtain ⟨hlo, hhi, hv⟩ := ih h
    exact ⟨hlo, hhi.trans (middle_lt hlt), hv⟩
  | above lo hi hlt hx ih =>
    rw [search_above hlt hx] at h
    obtain ⟨hlo, hhi, hv⟩ := ih h
    exact ⟨((le_middle hlt).trans (Nat.le_succ _)).trans hlo, hhi, hv⟩
  | found lo hi hlt hx =>
    rw [search_found hlt hx] at h
    cases h
    exact ⟨le_middle hlt, middle_lt hlt, hx⟩

/-- No result means that the key is at none of the positions. -/
theorem search_complete (hf : ∀ v w, lo ≤ v → v < w → w < hi → f v < f w)
    (h : search f x lo hi = none) : ∀ v, lo ≤ v → v < hi → f v ≠ x := by
  induction lo, hi using bisection_induction (f := f) (x := x) with
  | empty lo hi hlt =>
    intro v hlo hhi
    omega
  | below lo hi hlt hx ih =>
    rw [search_below hlt hx] at h
    have hmid := middle_lt hlt
    intro v hlo hhi
    rcases lt_trichotomy v (middle lo hi) with hv | rfl | hv
    · exact ih (fun v w hv hvw hw => hf v w hv hvw (hw.trans hmid)) h v hlo hv
    · exact hx.ne'
    · exact (hx.trans (hf _ _ (le_middle hlt) hv hhi)).ne'
  | above lo hi hlt hx ih =>
    rw [search_above hlt hx] at h
    have hmid := le_middle hlt
    intro v hlo hhi
    rcases lt_trichotomy v (middle lo hi) with hv | rfl | hv
    · exact ((hf _ _ hlo hv (middle_lt hlt)).trans hx).ne
    · exact hx.ne
    · exact ih (fun v w hv hvw hw => hf v w (by omega) hvw hw) h v hv hhi
  | found lo hi hlt hx =>
    rw [search_found hlt hx] at h
    cases h

end Correctness

/-- The block around a position lies in the interval and has the position inside. -/
theorem block_range {lo hi v : ℕ} (hlo : lo ≤ v) (hhi : v < hi) :
    lo ≤ (block v lo hi).1 ∧ (block v lo hi).1 ≤ v ∧ v < (block v lo hi).2 ∧
      (block v lo hi).2 ≤ hi := by
  induction lo, hi using bisection_induction (f := id) (x := v) with
  | empty lo hi hlt => omega
  | below lo hi hlt hx ih =>
    have hmid := middle_lt hlt
    rw [block_below hlt hx]
    have hv := ih hlo hx
    omega
  | above lo hi hlt hx ih =>
    have hmid := le_middle hlt
    rw [block_above hlt hx]
    have hv := ih hx hhi
    simp only [id_eq] at hv hx
    omega
  | found lo hi hlt hx =>
    simp only [id_eq] at hx
    subst hx
    rw [block_middle hlt]
    exact ⟨le_rfl, hlo, hhi, le_rfl⟩

section Probes

variable {f : ℕ → α} {x : α} {lo hi v : ℕ}

/-- The middle is looked at by every search. -/
theorem middle_mem_probes (h : lo < hi) : middle lo hi ∈ probes f x lo hi := by
  rcases lt_trichotomy x (f (middle lo hi)) with hx | hx | hx
  · rw [probes_below h hx]
    exact List.mem_cons_self
  · rw [probes_found h hx.symm]
    exact List.mem_cons_self
  · rw [probes_above h hx]
    exact List.mem_cons_self

/-- Only the search for a key below the middle looks below the middle. -/
theorem mem_probes_of_lt_middle (h : lo < hi) (hv : v < middle lo hi) :
    v ∈ probes f x lo hi ↔ x < f (middle lo hi) ∧ v ∈ probes f x lo (middle lo hi) := by
  rcases lt_trichotomy x (f (middle lo hi)) with hx | hx | hx
  · rw [probes_below h hx, List.mem_cons]
    simp [hv.ne, hx]
  · rw [probes_found h hx.symm, List.mem_singleton]
    simp [hv.ne, hx]
  · rw [probes_above h hx, List.mem_cons]
    have habove : v ∉ probes f x (middle lo hi + 1) hi := by
      intro hmem
      have hrange := mem_probes_range hmem
      omega
    simp [hv.ne, hx.asymm, habove]

/-- Only the search for a key above the middle looks above the middle. -/
theorem mem_probes_of_middle_lt (h : lo < hi) (hv : middle lo hi < v) :
    v ∈ probes f x lo hi ↔ f (middle lo hi) < x ∧ v ∈ probes f x (middle lo hi + 1) hi := by
  rcases lt_trichotomy x (f (middle lo hi)) with hx | hx | hx
  · rw [probes_below h hx, List.mem_cons]
    have hbelow : v ∉ probes f x lo (middle lo hi) := by
      intro hmem
      have hrange := mem_probes_range hmem
      omega
    simp [hv.ne', hx.asymm, hbelow]
  · rw [probes_found h hx.symm, List.mem_singleton]
    simp [hv.ne', hx]
  · rw [probes_above h hx, List.mem_cons]
    simp [hv.ne', hx]

/-- A position is looked at exactly when the key lies above everything before the block
around the position and below everything behind it. -/
theorem mem_probes_iff (hf : ∀ v w, lo ≤ v → v < w → w < hi → f v < f w) (hlo : lo ≤ v)
    (hhi : v < hi) :
    v ∈ probes f x lo hi ↔
      (lo < (block v lo hi).1 → f ((block v lo hi).1 - 1) < x) ∧
        ((block v lo hi).2 < hi → x < f (block v lo hi).2) := by
  induction lo, hi using bisection_induction (f := id) (x := v) with
  | empty lo hi hlt => omega
  | below lo hi hlt hv ih =>
    rw [id_eq] at hv
    have hmid := middle_lt hlt
    obtain ⟨-, -, -, hend⟩ := block_range hlo hv
    rw [mem_probes_of_lt_middle hlt hv, block_below hlt hv,
      ih (fun v w hv hvw hw => hf v w hv hvw (hw.trans hmid)) hlo hv]
    -- The block ends at the middle or at a position with a smaller key.
    have hkeys : x < f (middle lo hi) ∧
        ((block v lo (middle lo hi)).2 < middle lo hi → x < f (block v lo (middle lo hi)).2) ↔
        x < f (block v lo (middle lo hi)).2 := by
      rcases hend.eq_or_lt with heq | hbefore
      · simp [heq]
      · have hstart := block_range hlo hv
        have hless := hf _ _ (by omega) hbefore hmid
        exact ⟨fun h => h.2 hbefore, fun h => ⟨h.trans hless, fun _ => h⟩⟩
    have hinside : (block v lo (middle lo hi)).2 < hi := lt_of_le_of_lt hend hmid
    rw [and_left_comm, hkeys]
    simp only [hinside, forall_const]
  | above lo hi hlt hv ih =>
    rw [id_eq] at hv
    have hmid := le_middle hlt
    have hnext : middle lo hi + 1 ≤ v := hv
    obtain ⟨hstart, -, -, -⟩ := block_range hnext hhi
    rw [mem_probes_of_middle_lt hlt hv, block_above hlt hv,
      ih (fun v w hv hvw hw => hf v w (by omega) hvw hw) hnext hhi]
    have hkeys : f (middle lo hi) < x ∧ (middle lo hi + 1 < (block v (middle lo hi + 1) hi).1 →
        f ((block v (middle lo hi + 1) hi).1 - 1) < x) ↔
        f ((block v (middle lo hi + 1) hi).1 - 1) < x := by
      rcases hstart.eq_or_lt with heq | hbehind
      · simp [← heq]
      · have hend := block_range hnext hhi
        have hless := hf (middle lo hi) ((block v (middle lo hi + 1) hi).1 - 1) hmid (by omega)
          (by omega)
        exact ⟨fun h => h.2 hbehind, fun h => ⟨hless.trans h, fun _ => h⟩⟩
    have hinside : lo < (block v (middle lo hi + 1) hi).1 := by omega
    rw [← and_assoc, hkeys]
    simp only [hinside, forall_const]
  | found lo hi hlt hv =>
    rw [id_eq] at hv
    subst hv
    rw [block_middle hlt]
    exact iff_of_true (middle_mem_probes hlt)
      ⟨fun h => absurd h (lt_irrefl _), fun h => absurd h (lt_irrefl _)⟩

end Probes

end Bisection
