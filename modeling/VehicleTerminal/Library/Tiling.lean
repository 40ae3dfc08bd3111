import Mathlib.Data.List.Chain
import Mathlib.Tactic

/-! A range of addresses that is cut into consecutive blocks, each in use or not. -/
namespace Tiling

structure Block where
  size : ℕ
  used : Bool
  deriving Repr, DecidableEq

/-- The length of the range. -/
def total (bs : List Block) : ℕ := (bs.map Block.size).sum

/-- The blocks with the addresses at which they begin. -/
def located : ℕ → List Block → List (ℕ × Block)
  | _, [] => []
  | a, b :: bs => (a, b) :: located (a + b.size) bs

/-- No two neighbours are both out of use. -/
def Merged : List Block → Prop := List.IsChain fun b c => b.used = true ∨ c.used = true

/-- The length of the blocks in use. -/
def usedTotal (bs : List Block) : ℕ := total (bs.filter Block.used)

variable {a p q n m k : ℕ} {b c : Block} {bs cs pre post : List Block}

@[simp] theorem total_nil : total [] = 0 := rfl

@[simp] theorem total_cons : total (b :: bs) = b.size + total bs := by
  simp [total]

theorem total_singleton (n : ℕ) (used : Bool) : total [⟨n, used⟩] = n := by
  simp

@[simp] theorem total_append : total (bs ++ cs) = total bs + total cs := by
  simp [total]

@[simp] theorem located_nil : located a [] = [] := rfl

@[simp] theorem located_cons : located a (b :: bs) = (a, b) :: located (a + b.size) bs := rfl

@[simp] theorem located_append : located a (bs ++ cs) =
    located a bs ++ located (a + total bs) cs := by
  induction bs generalizing a with
  | nil => rfl
  | cons b bs ih =>
    rw [List.cons_append, located_cons, ih, located_cons, total_cons, Nat.add_assoc,
      List.cons_append]

/-- What lies in front of a block and what behind it. -/
theorem mem_located : (p, b) ∈ located a bs ↔
    ∃ pre post, bs = pre ++ b :: post ∧ p = a + total pre := by
  constructor
  · intro h
    induction bs generalizing a with
    | nil => cases h
    | cons c bs ih =>
      rcases List.mem_cons.mp h with heq | hin
      · cases heq
        exact ⟨[], bs, rfl, rfl⟩
      · obtain ⟨pre, post, rfl, rfl⟩ := ih hin
        exact ⟨c :: pre, post, rfl, by rw [total_cons, Nat.add_assoc]⟩
  · rintro ⟨pre, post, rfl, rfl⟩
    simp

theorem mem_of_located (h : (p, b) ∈ located a bs) : b ∈ bs := by
  obtain ⟨pre, post, rfl, -⟩ := mem_located.mp h
  simp

theorem located_bounds (h : (p, b) ∈ located a bs) : a ≤ p ∧ p + b.size ≤ a + total bs := by
  obtain ⟨pre, post, rfl, rfl⟩ := mem_located.mp h
  simp only [total_append, total_cons]
  omega

/-- Two blocks are the same or lie apart. -/
theorem located_apart (hpos : ∀ b ∈ bs, 0 < b.size) (hb : (p, b) ∈ located a bs)
    (hc : (q, c) ∈ located a bs) :
    p = q ∧ b = c ∨ p + b.size ≤ q ∨ q + c.size ≤ p := by
  induction bs generalizing a with
  | nil => cases hb
  | cons d bs ih =>
    rcases List.mem_cons.mp hb with heq | hb'
    · cases heq
      rcases List.mem_cons.mp hc with heq | hc'
      · cases heq
        exact .inl ⟨rfl, rfl⟩
      · exact .inr (.inl (located_bounds hc').1)
    · rcases List.mem_cons.mp hc with heq | hc'
      · cases heq
        exact .inr (.inr (located_bounds hb').1)
      · exact ih (fun b hb => hpos b (List.mem_cons_of_mem _ hb)) hb' hc'

/-- An address belongs to one block only. -/
theorem located_unique (hpos : ∀ b ∈ bs, 0 < b.size) (hb : (p, b) ∈ located a bs)
    (hc : (p, c) ∈ located a bs) : b = c := by
  have hb' := hpos b (mem_of_located hb)
  have hc' := hpos c (mem_of_located hc)
  rcases located_apart hpos hb hc with ⟨-, heq⟩ | h | h
  · exact heq
  · omega
  · omega

@[simp] theorem usedTotal_append : usedTotal (bs ++ cs) = usedTotal bs + usedTotal cs := by
  simp [usedTotal]

@[simp] theorem usedTotal_cons_used : usedTotal (⟨n, true⟩ :: bs) = n + usedTotal bs := by
  simp [usedTotal]

@[simp] theorem usedTotal_cons_free : usedTotal (⟨n, false⟩ :: bs) = usedTotal bs := by
  simp [usedTotal]

theorem usedTotal_le (bs : List Block) : usedTotal bs ≤ total bs := by
  induction bs with
  | nil => exact le_rfl
  | cons b bs ih =>
    obtain ⟨n, used⟩ := b
    cases used
    · rw [usedTotal_cons_free, total_cons]
      omega
    · rw [usedTotal_cons_used, total_cons]
      dsimp only
      omega

/-- The length of the blocks in use, as a sum over where they begin. -/
theorem usedTotal_eq_sum (hpos : ∀ b ∈ bs, 0 < b.size) {size : ℕ → ℕ}
    (hsize : ∀ p n, (p, ⟨n, true⟩) ∈ located a bs → size p = n) : ∃ starts : Finset ℕ,
      (∀ p, p ∈ starts ↔ ∃ n, (p, ⟨n, true⟩) ∈ located a bs) ∧
        usedTotal bs = ∑ p ∈ starts, size p := by
  induction bs generalizing a with
  | nil => exact ⟨∅, by simp, rfl⟩
  | cons b bs ih =>
    have hb := hpos b List.mem_cons_self
    obtain ⟨starts, hmem, hsum⟩ := ih (fun b hb => hpos b (List.mem_cons_of_mem _ hb))
      fun p n hin => hsize p n (List.mem_cons_of_mem _ hin)
    obtain ⟨n, used⟩ := b
    cases used with
    | false =>
      refine ⟨starts, fun p => ?_, by rw [usedTotal_cons_free, hsum]⟩
      rw [hmem]
      simp
    | true =>
      have hnew : a ∉ starts := by
        rw [hmem]
        rintro ⟨m, hin⟩
        have hle := (located_bounds hin).1
        dsimp only at hle hb
        omega
      refine ⟨insert a starts, fun p => ?_, ?_⟩
      · rw [Finset.mem_insert, hmem]
        simp only [located_cons, List.mem_cons, Prod.mk.injEq, Block.mk.injEq, and_true,
          exists_or, exists_and_left, exists_eq, and_true]
      · rw [Finset.sum_insert hnew, usedTotal_cons_used, hsum, hsize a n List.mem_cons_self]

/-- An address in the range lies in a block. -/
theorem exists_located (bs : List Block) (hlo : a ≤ p) (hhi : p < a + total bs) :
    ∃ q b, (q, b) ∈ located a bs ∧ q ≤ p ∧ p < q + b.size := by
  induction bs generalizing a with
  | nil =>
    rw [total_nil] at hhi
    omega
  | cons b bs ih =>
    rw [total_cons] at hhi
    by_cases hin : p < a + b.size
    · exact ⟨a, b, List.mem_cons_self, hlo, hin⟩
    · obtain ⟨q, d, hmem, hrange⟩ := ih (not_lt.mp hin) (by omega)
      exact ⟨q, d, List.mem_cons_of_mem _ hmem, hrange⟩

/-- Behind a block out of use the range ends, or a block in use begins. -/
theorem Merged.behind (h : Merged bs) (hb : (p, ⟨n, false⟩) ∈ located a bs) :
    p + n = a + total bs ∨ ∃ m, (p + n, ⟨m, true⟩) ∈ located a bs := by
  obtain ⟨pre, post, rfl, rfl⟩ := mem_located.mp hb
  cases post with
  | nil =>
    left
    rw [total_append, total_singleton, Nat.add_assoc]
  | cons d post =>
    right
    obtain ⟨m, used⟩ := d
    obtain ⟨-, hpost, -⟩ := List.isChain_append.mp h
    have hused : used = true := (List.isChain_cons_cons.mp hpost).1.resolve_left Bool.noConfusion
    subst hused
    exact ⟨m, mem_located.mpr ⟨pre ++ [⟨n, false⟩], post, by simp, by simp [Nat.add_assoc]⟩⟩

end Tiling
