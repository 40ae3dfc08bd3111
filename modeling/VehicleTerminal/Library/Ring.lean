import VehicleTerminal.Library.Memory

/-! Circular windows of the first `n` cells of an array. The window is described by its logical
list; block writes and reads that split at the physical end act on that list as append,
`take` and `drop`. A write or read position may stand on the end itself. -/
namespace CircularBuffer
open BlockMemory

variable {α : Type*}

/-- The cells from `head` on, counted around the end of the array, hold `q`. -/
def Holds (mem : List α) (n head : ℕ) (q : List α) : Prop :=
  ∀ i, i < q.length → mem[(head + i) % n]? = q[i]?

/-- Write a block from `tail` on, in two pieces when it runs over the physical end. -/
def wrapWrite (mem : List α) (n tail : ℕ) (xs : List α) : List α :=
  if tail + xs.length ≤ n then blit mem tail xs
  else blit (blit mem tail (xs.take (n - tail))) 0 (xs.drop (n - tail))

/-- Read `k` cells from `head` on, in two pieces when they run over the physical end. -/
def wrapRead (mem : List α) (n head k : ℕ) : List α :=
  if head + k ≤ n then slice mem head k
  else slice mem head (n - head) ++ slice mem 0 (k - (n - head))

theorem add_mod_congr {n a b : ℕ} (h : a % n = b % n) (j : ℕ) : (a + j) % n = (b + j) % n := by
  rw [Nat.add_mod, h, ← Nat.add_mod]

theorem wrapped_index {n pos j : ℕ} (hpos : pos ≤ n) (hj : j < n) :
    (pos + j) % n = if pos + j < n then pos + j else pos + j - n := by
  split_ifs with h
  · exact Nat.mod_eq_of_lt h
  · rw [Nat.mod_eq_sub_mod (by omega), Nat.mod_eq_of_lt (by omega)]

theorem wrapWrite_length {mem : List α} {n tail : ℕ} {xs : List α} (hm : n ≤ mem.length)
    (ht : tail ≤ n) (hx : xs.length ≤ n) : (wrapWrite mem n tail xs).length = mem.length := by
  unfold wrapWrite
  split_ifs with h
  · rw [blit_length _ _ _ (by omega)]
  · have hfirst : (blit mem tail (xs.take (n - tail))).length = mem.length := by
      rw [blit_length _ _ _ (by simp; omega)]
    rw [blit_length _ _ _ (by simp; omega), hfirst]

/-- A wrapped write puts `xs` on the next cells around the end and changes no other cell. -/
theorem getElem?_wrapWrite {mem : List α} {n tail : ℕ} {xs : List α} (hm : n ≤ mem.length)
    (ht : tail ≤ n) (hx : xs.length ≤ n) {j : ℕ} (hj : j < n) :
    (wrapWrite mem n tail xs)[(tail + j) % n]? =
      if j < xs.length then xs[j]? else mem[(tail + j) % n]? := by
  rw [wrapped_index ht hj]
  unfold wrapWrite
  split_ifs with hfit hwrap hin hin hwrap hin hin
  · rw [getElem?_blit _ _ _ (by omega), if_pos (by omega)]
    congr 1
    omega
  · rw [getElem?_blit _ _ _ (by omega), if_neg (by omega)]
  · omega
  · rw [getElem?_blit _ _ _ (by omega), if_neg (by omega)]
  all_goals
    have hfirst : (blit mem tail (xs.take (n - tail))).length = mem.length := by
      rw [blit_length _ _ _ (by simp; omega)]
    rw [getElem?_blit _ _ _ (by simp; omega), List.length_drop]
  · rw [if_neg (by omega), getElem?_blit _ _ _ (by simp; omega), List.length_take,
      if_pos (by omega), List.getElem?_take, if_pos (by omega)]
    congr 1
    omega
  · omega
  · rw [if_pos (by omega), List.getElem?_drop]
    congr 1
    omega
  · rw [if_neg (by omega), getElem?_blit _ _ _ (by simp; omega), List.length_take,
      if_neg (by omega)]

theorem getElem?_wrapRead {mem : List α} {n head k : ℕ} (hm : n ≤ mem.length) (hh : head ≤ n)
    (hk : k ≤ n) (j : ℕ) :
    (wrapRead mem n head k)[j]? = if j < k then mem[(head + j) % n]? else none := by
  unfold wrapRead
  split_ifs with hfit hj hj
  · rw [getElem?_slice, if_pos hj]
    by_cases h : head + j < n
    · rw [Nat.mod_eq_of_lt h]
    · omega
  · rw [getElem?_slice, if_neg hj]
  · rw [List.getElem?_append, slice_length _ _ _ (by omega), wrapped_index hh (by omega)]
    split_ifs with h1 h2 h2
    · rw [getElem?_slice, if_pos h1]
    · omega
    · omega
    · rw [getElem?_slice, if_pos (by omega)]
      congr 1
      omega
  · rw [List.getElem?_append, slice_length _ _ _ (by omega), if_neg (by omega), getElem?_slice,
      if_neg (by omega)]

@[simp] theorem holds_nil (mem : List α) (n head : ℕ) : Holds mem n head [] := by
  intro i hi
  simp at hi

/-- Writing at the tail appends to the window. -/
theorem Holds.append {mem : List α} {n head tail : ℕ} {q xs : List α}
    (h : Holds mem n head q) (hm : n ≤ mem.length) (ht : tail ≤ n)
    (htail : tail % n = (head + q.length) % n) (hroom : q.length + xs.length ≤ n) :
    Holds (wrapWrite mem n tail xs) n head (q ++ xs) := by
  intro i hi
  rw [List.length_append] at hi
  by_cases hq : i < q.length
  · -- an old cell is `n - q.length + i` places past the tail
    have hpos : (head + i) % n = (tail + (n - q.length + i)) % n := by
      rw [add_mod_congr htail, show head + q.length + (n - q.length + i) = head + i + n by omega,
        Nat.add_mod_right]
    rw [hpos, getElem?_wrapWrite hm ht (by omega) (by omega), if_neg (by omega), ← hpos, h i hq,
      List.getElem?_append_left hq]
  · have hpos : (head + i) % n = (tail + (i - q.length)) % n := by
      rw [add_mod_congr htail, show head + q.length + (i - q.length) = head + i by omega]
    rw [hpos, getElem?_wrapWrite hm ht (by omega) (by omega), if_pos (by omega),
      List.getElem?_append_right (by omega)]

/-- Reading at the head yields the front of the window. -/
theorem Holds.read {mem : List α} {n head k : ℕ} {q : List α} (h : Holds mem n head q)
    (hm : n ≤ mem.length) (hh : head ≤ n) (hk : k ≤ q.length) (hq : q.length ≤ n) :
    wrapRead mem n head k = q.take k := by
  apply List.ext_getElem?
  intro j
  rw [getElem?_wrapRead hm hh (by omega), List.getElem?_take]
  split_ifs with hj
  · exact h j (by omega)
  · rfl

/-- Advancing the head drops the front of the window. -/
theorem Holds.drop {mem : List α} {n head head' k : ℕ} {q : List α} (h : Holds mem n head q)
    (hh : head' % n = (head + k) % n) : Holds mem n head' (q.drop k) := by
  intro i hi
  rw [List.length_drop] at hi
  rw [add_mod_congr hh i, List.getElem?_drop, Nat.add_assoc]
  exact h (k + i) (by omega)

/-- A window holds its own front. -/
theorem Holds.take_left {mem : List α} {n head : ℕ} {q r : List α} (h : Holds mem n head (q ++ r)) :
    Holds mem n head q := by
  intro i hi
  rw [h i (by rw [List.length_append]; omega), List.getElem?_append_left hi]

/-- A write over cells that were dropped leaves the rest of the window. -/
theorem Holds.overwrite {mem : List α} {n head head' : ℕ} {q : List α} (h : Holds mem n head q)
    (xs : List α) (hm : n ≤ mem.length) (hh : head ≤ n) (hq : q.length ≤ n)
    (hx : xs.length ≤ q.length) (hh' : head' % n = (head + xs.length) % n) :
    Holds (wrapWrite mem n head xs) n head' (q.drop xs.length) := by
  intro i hi
  rw [List.length_drop] at hi
  rw [add_mod_congr hh' i, Nat.add_assoc, getElem?_wrapWrite hm hh (by omega) (by omega),
    if_neg (by omega), ← Nat.add_assoc, ← add_mod_congr hh' i]
  exact h.drop hh' i (by rwa [List.length_drop])

end CircularBuffer
