import VehicleTerminal.Library.ByteLoop
import Mathlib.Data.Set.Lattice
import Mathlib.Order.CompletePartialOrder

/-! Changes of a picture that are described point by point: inside a region every point gets a
value that depends on its old one, and the points outside keep theirs. -/
namespace Painting
open ByteLoop

variable {σ P V : Type*}

/-- `look` shows the value at a point of a picture. -/
structure Paints (look : σ → P → V) (region : Set P) (value : P → V → V) (s s' : σ) : Prop where
  inside : ∀ p ∈ region, look s' p = value p (look s p)
  outside : ∀ p ∉ region, look s' p = look s p

variable {look : σ → P → V} {region region' : Set P} {value : P → V → V} {s s' s'' : σ}

theorem Paints.refl (value : P → V → V) (s : σ) : Paints look ∅ value s s :=
  ⟨fun _ hp => hp.elim, fun _ _ => rfl⟩

theorem Paints.of_region_eq (h : Paints look region value s s') (heq : region = region') :
    Paints look region' value s s' := heq ▸ h

theorem Paints.of_value_eq {value' : P → V → V} (h : Paints look region value s s')
    (heq : ∀ p ∈ region, ∀ v, value p v = value' p v) : Paints look region value' s s' :=
  ⟨fun p hp => by rw [h.inside p hp, heq p hp], h.outside⟩

/-- Two disjoint regions one after the other. -/
theorem Paints.trans (h : Paints look region value s s') (h' : Paints look region' value s' s'')
    (hdisjoint : Disjoint region region') : Paints look (region ∪ region') value s s'' where
  inside := by
    rintro p (hp | hp)
    · have hnot : p ∉ region' := Set.disjoint_left.mp hdisjoint hp
      rw [h'.outside p hnot, h.inside p hp]
    · have hnot : p ∉ region := Set.disjoint_right.mp hdisjoint hp
      rw [h'.inside p hp, h.outside p hnot]
  outside := by
    intro p hp
    rw [Set.mem_union, not_or] at hp
    rw [h'.outside p hp.2, h.outside p hp.1]

/-- A further region that gets the values due with respect to the first picture. -/
theorem Paints.extend {value' : P → V → V} (h : Paints look region value s s')
    (h' : Paints look region' value' s' s'')
    (hvalue : ∀ p ∈ region', value' p (look s' p) = value p (look s p)) :
    Paints look (region ∪ region') value s s'' where
  inside := by
    intro p hp
    by_cases hlast : p ∈ region'
    · rw [h'.inside p hlast, hvalue p hlast]
    · rw [h'.outside p hlast, h.inside p (hp.resolve_right hlast)]
  outside := by
    intro p hp
    rw [Set.mem_union, not_or] at hp
    rw [h'.outside p hp.2, h.outside p hp.1]

/-- Painting a region twice with values that undo each other changes nothing. -/
theorem Paints.undo (h : Paints look region value s s') (h' : Paints look region value s' s'')
    (hvalue : ∀ p v, value p (value p v) = v) (p : P) : look s'' p = look s p := by
  by_cases hp : p ∈ region
  · rw [h'.inside p hp, h.inside p hp, hvalue]
  · rw [h'.outside p hp, h.outside p hp]

/-- The regions of the rounds before the counter `k`. -/
def before (region : ℕ → Set P) (first k : ℕ) : Set P :=
  {p | ∃ i, first ≤ i ∧ i < k ∧ p ∈ region i}

theorem before_self (region : ℕ → Set P) (first : ℕ) : before region first first = ∅ := by
  ext p
  simp only [before, Set.mem_ofPred_eq, Set.mem_empty_iff_false, iff_false]
  rintro ⟨i, hlo, hhi, -⟩
  omega

theorem before_succ (region : ℕ → Set P) {first k : ℕ} (h : first ≤ k) :
    before region first (k + 1) = before region first k ∪ region k := by
  ext p
  simp only [before, Set.mem_ofPred_eq, Set.mem_union]
  constructor
  · rintro ⟨i, hlo, hhi, hp⟩
    rcases Nat.lt_succ_iff_lt_or_eq.mp hhi with hlt | rfl
    · exact .inl ⟨i, hlo, hlt, hp⟩
    · exact .inr hp
  · rintro (⟨i, hlo, hhi, hp⟩ | hp)
    · exact ⟨i, hlo, hhi.trans (Nat.lt_succ_self k), hp⟩
    · exact ⟨k, h, Nat.lt_succ_self k, hp⟩

/-- Counted rounds that paint disjoint regions. -/
theorem foldl_paints {body : σ → ℕ → σ} (region : ℕ → Set P) (rounds : ℕ)
    (hbody : ∀ i s, i < rounds → Paints look (region i) value s (body s i))
    (hdisjoint : ∀ i j, i ≠ j → Disjoint (region i) (region j)) (s : σ) :
    Paints look (before region 0 rounds) value s ((List.range rounds).foldl body s) := by
  induction rounds with
  | zero =>
    rw [before_self]
    exact .refl value s
  | succ rounds ih =>
    have hprevious := ih fun i s hi => hbody i s (hi.trans (Nat.lt_succ_self rounds))
    rw [List.range_succ, List.foldl_append, List.foldl_cons, List.foldl_nil,
      before_succ region (Nat.zero_le rounds)]
    refine hprevious.trans (hbody rounds _ (Nat.lt_succ_self rounds)) (Set.disjoint_left.mpr ?_)
    rintro p ⟨i, -, hi, hp⟩
    exact Set.disjoint_left.mp (hdisjoint i rounds hi.ne) hp

/-- A loop whose rounds paint disjoint regions paints all of them. -/
theorem forByte_paints {body : UInt8 → σ → Option σ} {first last : UInt8} {rounds : ℕ}
    (region : ℕ → Set P) (hlast : last.toNat < 255)
    (hrounds : last.toNat + 2 ≤ rounds + first.toNat) (hpos : 0 < rounds)
    (hbody : ∀ i s, first ≤ i → i ≤ last →
      ∃ s', body i s = some s' ∧ Paints look (region i.toNat) value s s')
    (hdisjoint : ∀ i j, i ≠ j → Disjoint (region i) (region j)) (s : σ) :
    ∃ s', forByte last body rounds first s = some s' ∧
      Paints look (before region first.toNat (last.toNat + 1)) value s s' := by
  by_cases hrange : first.toNat ≤ last.toNat + 1
  · refine forByte_invariant
      (fun k t => Paints look (before region first.toNat k) value s t) hlast hrange hrounds ?_ ?_
    · rw [before_self]
      exact .refl value s
    · intro i t hlo hhi hinv
      obtain ⟨t', ht', hpaints⟩ := hbody i t hlo hhi
      refine ⟨t', ht', ?_⟩
      rw [before_succ region (UInt8.le_iff_toNat_le.mp hlo)]
      refine hinv.trans hpaints (Set.disjoint_left.mpr ?_)
      rintro p ⟨j, -, hj, hp⟩
      exact Set.disjoint_left.mp (hdisjoint j i.toNat hj.ne) hp
  · obtain ⟨rounds, rfl⟩ := Nat.exists_eq_succ_of_ne_zero hpos.ne'
    refine ⟨s, forByte_skip (by omega) s, (Paints.refl value s).of_region_eq ?_⟩
    ext p
    simp only [before, Set.mem_ofPred_eq, Set.mem_empty_iff_false, false_iff]
    rintro ⟨i, hlo, hhi, -⟩
    omega

end Painting
