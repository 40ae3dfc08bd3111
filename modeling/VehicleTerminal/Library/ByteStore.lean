import Mathlib.Data.List.Basic
import Mathlib.Logic.Function.Basic
import Mathlib.Tactic

/-! An ideal addressed store: every cell holds what was written last. Blocks are written and
read cell by cell from a start address on. -/
namespace ByteStore

variable {α : Type*}

/-- Write a block from `a` on, one cell after the other. -/
def writeBytes (m : ℕ → α) (a : ℕ) : List α → ℕ → α
  | [] => m
  | x :: xs => writeBytes (Function.update m a x) (a + 1) xs

/-- The `k` cells from `a` on. -/
def readBytes (m : ℕ → α) (a k : ℕ) : List α := (List.range k).map fun i => m (a + i)

theorem writeBytes_outside (m : ℕ → α) {a i : ℕ} {xs : List α}
    (h : i < a ∨ a + xs.length ≤ i) : writeBytes m a xs i = m i := by
  induction xs generalizing m a with
  | nil => rfl
  | cons x xs ih =>
    rw [List.length_cons] at h
    rw [writeBytes, ih _ (by omega), Function.update_of_ne (by omega)]

theorem writeBytes_inside (m : ℕ → α) (a : ℕ) {xs : List α} {j : ℕ} (h : j < xs.length) :
    writeBytes m a xs (a + j) = xs[j] := by
  induction xs generalizing m a j with
  | nil => simp at h
  | cons x xs ih =>
    cases j with
    | zero =>
      rw [writeBytes, writeBytes_outside _ (.inl (by omega)), Nat.add_zero, Function.update_self]
      rfl
    | succ j =>
      have hj : j < xs.length := by simpa using h
      rw [writeBytes, show a + (j + 1) = a + 1 + j by omega, ih _ _ hj]
      rfl

theorem writeBytes_append (m : ℕ → α) (a : ℕ) (xs ys : List α) :
    writeBytes m a (xs ++ ys) = writeBytes (writeBytes m a xs) (a + xs.length) ys := by
  induction xs generalizing m a with
  | nil => rfl
  | cons x xs ih =>
    rw [List.cons_append, writeBytes, ih, writeBytes, List.length_cons]
    congr 1
    omega

@[simp] theorem readBytes_length (m : ℕ → α) (a k : ℕ) : (readBytes m a k).length = k := by
  simp [readBytes]

theorem readBytes_add (m : ℕ → α) (a j k : ℕ) :
    readBytes m a (j + k) = readBytes m a j ++ readBytes m (a + j) k := by
  simp only [readBytes, List.range_add, List.map_append, List.map_map]
  congr 1
  apply List.map_congr_left
  intro i _
  simp [Nat.add_assoc]

theorem readBytes_one (m : ℕ → α) (a : ℕ) : readBytes m a 1 = [m a] := by
  simp [readBytes]

theorem readBytes_cons (m : ℕ → α) (a k : ℕ) :
    readBytes m a (k + 1) = m a :: readBytes m (a + 1) k := by
  rw [Nat.add_comm, readBytes_add, readBytes_one]
  rfl

theorem readBytes_succ (m : ℕ → α) (a k : ℕ) :
    readBytes m a (k + 1) = readBytes m a k ++ [m (a + k)] := by
  rw [readBytes_add, readBytes_one]

theorem readBytes_eq_iff {m m' : ℕ → α} {a k : ℕ} :
    readBytes m a k = readBytes m' a k ↔ ∀ i, a ≤ i → i < a + k → m i = m' i := by
  simp only [readBytes, List.map_inj_left, List.mem_range]
  constructor
  · intro h i hlo hhi
    have hi := h (i - a) (by omega)
    rwa [show a + (i - a) = i by omega] at hi
  · intro h j hj
    exact h (a + j) (by omega) (by omega)

theorem readBytes_writeBytes (m : ℕ → α) (a : ℕ) (xs : List α) :
    readBytes (writeBytes m a xs) a xs.length = xs := by
  apply List.ext_getElem
  · simp
  · intro j hj hx
    simp only [readBytes, List.getElem_map, List.getElem_range, writeBytes_inside m a hx]

theorem readBytes_writeBytes_disjoint (m : ℕ → α) {a b k : ℕ} {xs : List α}
    (h : b + k ≤ a ∨ a + xs.length ≤ b) :
    readBytes (writeBytes m a xs) b k = readBytes m b k := by
  rw [readBytes_eq_iff]
  intro i hlo hhi
  exact writeBytes_outside m (by omega)

theorem readBytes_writeBytes_append (m : ℕ → α) (a : ℕ) (xs ys : List α) :
    readBytes (writeBytes m a (xs ++ ys)) a xs.length = xs := by
  rw [writeBytes_append, readBytes_writeBytes_disjoint _ (.inl le_rfl), readBytes_writeBytes]

theorem readBytes_update (m : ℕ → α) (a k j : ℕ) (v : α) :
    readBytes (Function.update m (a + j) v) a k = (readBytes m a k).set j v := by
  apply List.ext_getElem
  · simp
  · intro l hl hset
    rw [List.getElem_set]
    by_cases hj : j = l
    · subst hj
      simp [readBytes]
    · have hne : a + l ≠ a + j := by omega
      simp [readBytes, hj, Function.update_of_ne hne]

theorem readBytes_update_outside (m : ℕ → α) {a k i : ℕ} (h : i < a ∨ a + k ≤ i) (v : α) :
    readBytes (Function.update m i v) a k = readBytes m a k := by
  rw [readBytes_eq_iff]
  intro j hlo hhi
  have hne : j ≠ i := by omega
  exact Function.update_of_ne hne v m

/-- What a write leaves in a cell depends on that cell only. -/
theorem writeBytes_congr {m m' : ℕ → α} {a i : ℕ} (h : m i = m' i) (xs : List α) :
    writeBytes m a xs i = writeBytes m' a xs i := by
  by_cases hin : a ≤ i ∧ i < a + xs.length
  · obtain ⟨j, rfl⟩ := Nat.exists_eq_add_of_le hin.1
    have hj : j < xs.length := by omega
    rw [writeBytes_inside m a hj, writeBytes_inside m' a hj]
  · have hout : i < a ∨ a + xs.length ≤ i := by omega
    rw [writeBytes_outside m hout, writeBytes_outside m' hout, h]

/-- A write leaves a cell as it was exactly when it misses it or writes what it holds. -/
theorem writeBytes_eq_iff (m : ℕ → α) (a i : ℕ) (xs : List α) :
    writeBytes m a xs i = m i ↔ ∀ j (hj : j < xs.length), a + j = i → xs[j] = m i := by
  constructor
  · rintro h j hj rfl
    rw [← writeBytes_inside m a hj]
    exact h
  · intro h
    by_cases hin : a ≤ i ∧ i < a + xs.length
    · have hj : i - a < xs.length := by omega
      have hi : a + (i - a) = i := by omega
      have hw := writeBytes_inside m a hj
      rw [hi] at hw
      rw [hw, h _ hj hi]
    · exact writeBytes_outside m (by omega)

section Numbers

variable {m : ℕ → UInt8} {a b k l : ℕ}

/-- A number in `k` bytes, the least significant one first. -/
def leBytes : ℕ → ℕ → List UInt8
  | 0, _ => []
  | k + 1, value => UInt8.ofNat value :: leBytes k (value / 256)

/-- The number in the `k` bytes from `a` on. -/
def load (m : ℕ → UInt8) (a k : ℕ) : ℕ := Nat.ofDigits 256 ((readBytes m a k).map UInt8.toNat)

def store (m : ℕ → UInt8) (a k value : ℕ) : ℕ → UInt8 := writeBytes m a (leBytes k value)

@[simp] theorem leBytes_length (k value : ℕ) : (leBytes k value).length = k := by
  induction k generalizing value with
  | zero => rfl
  | succ k ih => rw [leBytes, List.length_cons, ih]

theorem ofDigits_leBytes (k value : ℕ) :
    Nat.ofDigits 256 ((leBytes k value).map UInt8.toNat) = value % 256 ^ k := by
  induction k generalizing value with
  | zero => rw [leBytes, List.map_nil, Nat.ofDigits_nil, pow_zero, Nat.mod_one]
  | succ k ih =>
    have hsplit : value % 256 ^ (k + 1) = value % 256 + 256 * (value / 256 % 256 ^ k) := by
      rw [Nat.pow_succ', Nat.mod_mul]
    rw [leBytes, List.map_cons, Nat.ofDigits_cons, ih, UInt8.toNat_ofNat', hsplit]

theorem load_store (m : ℕ → UInt8) (a k value : ℕ) :
    load (store m a k value) a k = value % 256 ^ k := by
  have hread := readBytes_writeBytes m a (leBytes k value)
  rw [leBytes_length] at hread
  rw [load, store, hread, ofDigits_leBytes]

theorem load_store_disjoint (h : b + l ≤ a ∨ a + k ≤ b) (value : ℕ) :
    load (store m a k value) b l = load m b l := by
  rw [load, store, readBytes_writeBytes_disjoint m (by rwa [leBytes_length]), ← load]

end Numbers

end ByteStore
