import Mathlib.Data.List.Basic
import Mathlib.Tactic

/-! Block access to a finite array held as a list. An access that leaves the array
has no result, so a computation that returns never touched an index outside it. -/
namespace BlockMemory

variable {α : Type*}

/-- Overwrite the cells from `pos` on with `xs`. -/
def blit (mem : List α) (pos : ℕ) (xs : List α) : List α :=
  mem.take pos ++ xs ++ mem.drop (pos + xs.length)

/-- The `k` cells from `pos` on. -/
def slice (mem : List α) (pos k : ℕ) : List α := (mem.drop pos).take k

/-- `mem[i] = x`, defined only inside the array. -/
def store (mem : List α) (i : ℕ) (x : α) : Option (List α) :=
  if i < mem.length then some (mem.set i x) else none

/-- `memcpy(&mem[pos], src, k)`, defined only when both blocks lie inside their arrays. -/
def copyIn (mem : List α) (pos : ℕ) (src : List α) (k : ℕ) : Option (List α) :=
  if pos + k ≤ mem.length ∧ k ≤ src.length then some (blit mem pos (src.take k)) else none

/-- `memcpy(dst, &mem[pos], k)`: the block that is copied out. -/
def copyOut (mem : List α) (pos k : ℕ) : Option (List α) :=
  if pos + k ≤ mem.length then some (slice mem pos k) else none

@[simp] theorem blit_nil (mem : List α) (pos : ℕ) : blit mem pos [] = mem := by simp [blit]

theorem blit_all {mem xs : List α} (h : xs.length = mem.length) : blit mem 0 xs = xs := by
  simp [blit, h]

theorem blit_length (mem : List α) (pos : ℕ) (xs : List α) (h : pos + xs.length ≤ mem.length) :
    (blit mem pos xs).length = mem.length := by
  simp only [blit, List.length_append, List.length_take, List.length_drop]
  omega

theorem getElem?_blit (mem : List α) (pos : ℕ) (xs : List α) (h : pos + xs.length ≤ mem.length)
    (i : ℕ) : (blit mem pos xs)[i]? =
      if pos ≤ i ∧ i < pos + xs.length then xs[i - pos]? else mem[i]? := by
  have hp : (mem.take pos).length = pos := by simp; omega
  simp only [blit, List.append_assoc, List.getElem?_append, hp, List.getElem?_take,
    List.getElem?_drop]
  by_cases h1 : i < pos
  · simp [h1, show ¬ pos ≤ i by omega]
  · by_cases h2 : i < pos + xs.length
    · simp [h1, h2, show i - pos < xs.length by omega, show pos ≤ i by omega]
    · simp only [h1, h2, if_false, and_false, show ¬ i - pos < xs.length by omega]
      congr 1
      omega

/-- Two blocks one behind the other are one block. -/
theorem blit_blit (mem : List α) (pos : ℕ) (xs ys : List α)
    (h : pos + xs.length + ys.length ≤ mem.length) :
    blit (blit mem pos xs) (pos + xs.length) ys = blit mem pos (xs ++ ys) := by
  have hfront : (mem.take pos ++ xs).length = pos + xs.length := by
    rw [List.length_append, List.length_take_of_le (by omega)]
  have hback : (mem.take pos ++ xs ++ mem.drop (pos + xs.length)).drop
      (pos + xs.length + ys.length) = mem.drop (pos + (xs ++ ys).length) := by
    rw [← List.drop_drop, List.drop_left' hfront, List.drop_drop, List.length_append,
      Nat.add_assoc]
  simp only [blit]
  rw [List.take_left' hfront, hback]
  simp only [List.append_assoc]

/-- A block in two parts, the second of which may be empty. -/
theorem blit_rest (mem xs : List α) {pos t next r : ℕ} (hnext : r = 0 ∨ next = pos + t)
    (hlen : t + r ≤ xs.length) (h : pos + t + r ≤ mem.length) :
    blit (blit mem pos (xs.take t)) next ((xs.drop t).take r) =
      blit mem pos (xs.take (t + r)) := by
  have ht : (xs.take t).length = t := List.length_take_of_le (by omega)
  have hr : ((xs.drop t).take r).length = r :=
    List.length_take_of_le (by rw [List.length_drop]; omega)
  rcases hnext with rfl | rfl
  · rw [List.take_zero, blit_nil, Nat.add_zero]
  · have hjoin := blit_blit mem pos (xs.take t) ((xs.drop t).take r) (by omega)
    rw [ht] at hjoin
    rw [hjoin, List.take_add]

/-- A block behind what was taken before. -/
theorem take_blit (mem : List α) (pos : ℕ) (xs : List α) (h : pos ≤ mem.length) :
    (blit mem pos xs).take (pos + xs.length) = mem.take pos ++ xs := by
  have hfront : (mem.take pos ++ xs).length = pos + xs.length := by
    rw [List.length_append, List.length_take_of_le h]
  rw [blit, List.take_left' hfront]

/-- A block takes the place of one that is not longer. -/
theorem blit_overwrite (mem : List α) (pos : ℕ) {xs ys : List α} (hlen : xs.length ≤ ys.length)
    (h : pos + ys.length ≤ mem.length) : blit (blit mem pos xs) pos ys = blit mem pos ys := by
  have hxs := blit_length mem pos xs (by omega)
  refine List.ext_getElem? fun i => ?_
  have hfirst := getElem?_blit mem pos xs (by omega) i
  rw [getElem?_blit (blit mem pos xs) pos ys (by omega), getElem?_blit mem pos ys h, hfirst]
  by_cases hys : pos ≤ i ∧ i < pos + ys.length
  · rw [if_pos hys, if_pos hys]
  · rw [if_neg hys, if_neg hys, if_neg (by omega)]

/-- The end of a block gives way to what is written next. -/
theorem blit_blit_end (mem : List α) (pos : ℕ) (xs : List α) {ys zs : List α}
    (hlen : ys.length ≤ zs.length) (h : pos + xs.length + zs.length ≤ mem.length) :
    blit (blit mem pos (xs ++ ys)) (pos + xs.length) zs = blit mem pos (xs ++ zs) := by
  have hxs := blit_length mem pos xs (by omega)
  rw [← blit_blit mem pos xs ys (by omega), blit_overwrite _ _ hlen (by omega), blit_blit _ _ _ _ h]

theorem set_eq_blit (mem : List α) (i : ℕ) (x : α) (h : i < mem.length) :
    mem.set i x = blit mem i [x] := by
  simp [blit, List.set_eq_take_append_cons_drop, h]

theorem getElem?_slice (mem : List α) (pos k j : ℕ) :
    (slice mem pos k)[j]? = if j < k then mem[pos + j]? else none := by
  simp [slice, List.getElem?_take, List.getElem?_drop]

/-- A block is read back where it was written. -/
theorem slice_blit (mem : List α) (pos : ℕ) (xs : List α) (h : pos + xs.length ≤ mem.length) :
    slice (blit mem pos xs) pos xs.length = xs := by
  have hpos : (mem.take pos).length = pos := List.length_take_of_le (by omega)
  rw [slice, blit, List.append_assoc, List.drop_left' hpos, List.take_left]

/-- A block that is changed in a copy of its surroundings, and copied back with them. -/
theorem blit_slice_blit (mem : List α) {pos off k : ℕ} (xs : List α)
    (hxs : off + xs.length ≤ k) (h : pos + k ≤ mem.length) :
    blit mem pos (blit (slice mem pos k) off xs) = blit mem (pos + off) xs := by
  have hk : (slice mem pos k).length = k := by
    rw [slice, List.length_take, List.length_drop]
    omega
  have hlen : (blit (slice mem pos k) off xs).length = k := by
    rw [blit_length _ _ _ (by omega), hk]
  refine List.ext_getElem? fun i => ?_
  have hinner := getElem?_blit (slice mem pos k) off xs (by omega) (i - pos)
  rw [getElem?_blit mem pos _ (by omega), getElem?_blit mem (pos + off) xs (by omega), hlen]
  by_cases hi : pos ≤ i ∧ i < pos + k
  · rw [if_pos hi, hinner]
    by_cases hin : off ≤ i - pos ∧ i - pos < off + xs.length
    · rw [if_pos hin, if_pos (by omega), show i - pos - off = i - (pos + off) by omega]
    · rw [if_neg hin, if_neg (by omega), getElem?_slice, if_pos (by omega),
        show pos + (i - pos) = i by omega]
  · rw [if_neg hi, if_neg (by omega)]

theorem slice_succ {mem : List α} {pos : ℕ} (k : ℕ) (h : pos < mem.length) :
    slice mem pos (k + 1) = mem[pos] :: slice mem (pos + 1) k := by
  rw [slice, List.drop_eq_getElem_cons h, List.take_succ_cons, slice]

theorem take_slice (mem : List α) (pos : ℕ) {j k : ℕ} (h : j ≤ k) :
    (slice mem pos k).take j = slice mem pos j := by
  rw [slice, List.take_take, Nat.min_eq_left h, slice]

theorem slice_length (mem : List α) (pos k : ℕ) (h : pos + k ≤ mem.length) :
    (slice mem pos k).length = k := by
  simp only [slice, List.length_take, List.length_drop]
  omega

/-- The cells from `pos` on are `xs`. -/
def Holds (mem : List α) (pos : ℕ) (xs : List α) : Prop := xs <+: mem.drop pos

theorem Holds.trans {mem : List α} {pos : ℕ} {xs ys : List α} (h : Holds mem pos ys)
    (hxs : xs <+: ys) : Holds mem pos xs := List.IsPrefix.trans hxs h

theorem holds_nil (mem : List α) (pos : ℕ) : Holds mem pos [] := List.nil_prefix

/-- A block that is written behind `xs`, or further on, leaves `xs`. -/
theorem Holds.blit_of_le {mem : List α} {pos pos' : ℕ} {xs : List α} (h : Holds mem pos xs)
    (hle : pos + xs.length ≤ pos') (ys : List α) : Holds (blit mem pos' ys) pos xs := by
  have hfront : xs <+: (mem.take pos').drop pos := by
    rw [List.drop_take, List.prefix_take_iff]
    exact ⟨h, by omega⟩
  obtain ⟨tail, htail⟩ := hfront
  by_cases hpos : pos ≤ (mem.take pos').length
  · rw [Holds, blit, List.append_assoc, List.drop_append_of_le_length hpos, ← htail,
      List.append_assoc]
    exact List.prefix_append _ _
  · rw [List.drop_eq_nil_of_le (by omega)] at htail
    rw [(List.append_eq_nil_iff.mp htail).1]
    exact holds_nil _ _

/-- A block goes on where `xs` ends. -/
theorem Holds.blit_append {mem : List α} {pos : ℕ} {xs : List α} (h : Holds mem pos xs)
    (ys : List α) (hle : pos + xs.length ≤ mem.length) :
    Holds (blit mem (pos + xs.length) ys) pos (xs ++ ys) := by
  have hfront : (mem.take (pos + xs.length)).drop pos = xs := by
    rw [List.drop_take, Nat.add_sub_cancel_left]
    exact (List.prefix_iff_eq_take.mp h).symm
  have hpos : pos ≤ (mem.take (pos + xs.length)).length := by
    rw [List.length_take_of_le hle]
    omega
  rw [Holds, blit, List.append_assoc, List.drop_append_of_le_length hpos, hfront,
    ← List.append_assoc]
  exact List.prefix_append _ _

theorem holds_blit {mem : List α} {pos : ℕ} (h : pos ≤ mem.length) (xs : List α) :
    Holds (blit mem pos xs) pos xs := (holds_nil mem pos).blit_append xs h

theorem store_of_lt {mem : List α} {i : ℕ} (x : α) (h : i < mem.length) :
    store mem i x = some (blit mem i [x]) := by
  simp [store, h, set_eq_blit]

theorem store_eq_none_iff {mem : List α} {i : ℕ} {x : α} :
    store mem i x = none ↔ mem.length ≤ i := by
  simp [store]

theorem copyIn_of_le {mem src : List α} {pos k : ℕ} (h : pos + k ≤ mem.length)
    (hk : k ≤ src.length) : copyIn mem pos src k = some (blit mem pos (src.take k)) := by
  simp [copyIn, h, hk]

theorem copyIn_length {mem mem' src : List α} {pos k : ℕ} (h : copyIn mem pos src k = some mem') :
    mem'.length = mem.length := by
  unfold copyIn at h
  split_ifs at h with hfits
  cases h
  exact blit_length _ _ _ (by rw [List.length_take_of_le hfits.2]; exact hfits.1)

theorem store_length {mem mem' : List α} {i : ℕ} {x : α} (h : store mem i x = some mem') :
    mem'.length = mem.length := by
  unfold store at h
  split_ifs at h
  cases h
  exact List.length_set

theorem copyOut_of_le {mem : List α} {pos k : ℕ} (h : pos + k ≤ mem.length) :
    copyOut mem pos k = some (slice mem pos k) := by
  simp [copyOut, h]

end BlockMemory
