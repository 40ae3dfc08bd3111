import Mathlib.Data.Finset.Card
import Mathlib.Data.List.Nodup
import Mathlib.Logic.Function.Basic
import Mathlib.Tactic

/-! Numbered cells that lie in lists or are held, each in one place. -/
namespace Ownership

variable {T : Type*} {n c : ℕ} {holds : T → Option ℕ} {cells cells' : List ℕ} {thread : T}

/-- Every cell below `n` lies in the list once, or one thread holds it. -/
structure Owned (n : ℕ) (holds : T → Option ℕ) (cells : List ℕ) : Prop where
  nodup : cells.Nodup
  held : ∀ t c, holds t = some c → c ∉ cells
  holders : ∀ t t' c, holds t = some c → holds t' = some c → t = t'
  all : ∀ c, c < n ↔ c ∈ cells ∨ ∃ t, holds t = some c

theorem owned_range (n : ℕ) : Owned n (fun _ : T => none) (List.range n).reverse where
  nodup := List.nodup_reverse.mpr List.nodup_range
  held _ _ h := absurd h (by simp)
  holders _ _ _ h := absurd h (by simp)
  all c := by simp

theorem Owned.perm (h : Owned n holds cells) (hperm : cells.Perm cells') :
    Owned n holds cells' where
  nodup := hperm.nodup_iff.mp h.nodup
  held t c ht := hperm.mem_iff.not.mp (h.held t c ht)
  holders := h.holders
  all c := by rw [h.all, hperm.mem_iff]

/-- As many cells lie in the list as no thread holds. -/
theorem Owned.card (h : Owned n holds cells) :
    ∃ held : Finset T, (∀ t, t ∈ held ↔ holds t ≠ none) ∧ cells.length + held.card = n := by
  classical
  have hout (c : ℕ) (hc : c ∈ Finset.range n \ cells.toFinset) : ∃ t, holds t = some c := by
    rw [Finset.mem_sdiff, Finset.mem_range, List.mem_toFinset] at hc
    exact ((h.all c).mp hc.1).resolve_left hc.2
  choose holder hholder using hout
  have hinj : Function.Injective
      fun c : { c // c ∈ Finset.range n \ cells.toFinset } => holder c.1 c.2 := by
    intro c c' heq
    have hsome := hholder c.1 c.2
    rw [show holder c.1 c.2 = holder c'.1 c'.2 from heq, hholder c'.1 c'.2] at hsome
    exact Subtype.ext (Option.some.inj hsome).symm
  have hsub : cells.toFinset ⊆ Finset.range n := by
    intro c hc
    rw [List.mem_toFinset] at hc
    exact Finset.mem_range.mpr ((h.all c).mpr (.inl hc))
  refine ⟨(Finset.range n \ cells.toFinset).attach.image fun c => holder c.1 c.2, fun t => ?_, ?_⟩
  · rw [Finset.mem_image]
    constructor
    · rintro ⟨c, -, rfl⟩
      simp [hholder c.1 c.2]
    · intro ht
      obtain ⟨c, hc⟩ := Option.ne_none_iff_exists'.mp ht
      have hin : c ∈ Finset.range n \ cells.toFinset := by
        rw [Finset.mem_sdiff, Finset.mem_range, List.mem_toFinset]
        exact ⟨(h.all c).mpr (.inr ⟨t, hc⟩), h.held t c hc⟩
      exact ⟨⟨c, hin⟩, Finset.mem_attach _ _, h.holders _ _ c (hholder c hin) hc⟩
  · have hle := Finset.card_le_card hsub
    rw [List.toFinset_card_of_nodup h.nodup, Finset.card_range] at hle
    rw [Finset.card_image_of_injective _ hinj, Finset.card_attach, Finset.card_sdiff_of_subset hsub,
      Finset.card_range, List.toFinset_card_of_nodup h.nodup]
    omega

variable [DecidableEq T]

/-- A thread takes the first cell out of the list. -/
theorem Owned.claim (h : Owned n holds (c :: cells)) (hfree : holds thread = none) :
    Owned n (Function.update holds thread (some c)) cells where
  nodup := (List.nodup_cons.mp h.nodup).2
  held t d ht := by
    rw [Function.update_apply] at ht
    split_ifs at ht
    · exact Option.some.inj ht ▸ (List.nodup_cons.mp h.nodup).1
    · exact fun hd => h.held t d ht (List.mem_cons_of_mem _ hd)
  holders t t' d ht ht' := by
    rw [Function.update_apply] at ht ht'
    split_ifs at ht ht' with heq heq' heq'
    · exact heq.trans heq'.symm
    · cases ht
      exact absurd List.mem_cons_self (h.held t' c ht')
    · cases ht'
      exact absurd List.mem_cons_self (h.held t c ht)
    · exact h.holders t t' d ht ht'
  all d := by
    rw [h.all, List.mem_cons]
    constructor
    · rintro ((rfl | hd) | ⟨t, ht⟩)
      · exact .inr ⟨thread, Function.update_self _ _ _⟩
      · exact .inl hd
      · refine .inr ⟨t, (Function.update_of_ne ?_ _ _).trans ht⟩
        rintro rfl
        rw [hfree] at ht
        cases ht
    · rintro (hd | ⟨t, ht⟩)
      · exact .inl (.inr hd)
      · rw [Function.update_apply] at ht
        split_ifs at ht
        · exact .inl (.inl (Option.some.inj ht).symm)
        · exact .inr ⟨t, ht⟩

/-- A thread puts its cell in front of the list. -/
theorem Owned.give (h : Owned n holds cells) (hheld : holds thread = some c) :
    Owned n (Function.update holds thread none) (c :: cells) where
  nodup := List.nodup_cons.mpr ⟨h.held thread c hheld, h.nodup⟩
  held t d ht := by
    rw [Function.update_apply] at ht
    split_ifs at ht with heq
    rw [List.mem_cons, not_or]
    refine ⟨?_, h.held t d ht⟩
    rintro rfl
    exact heq (h.holders t thread d ht hheld)
  holders t t' d ht ht' := by
    rw [Function.update_apply] at ht ht'
    split_ifs at ht ht'
    exact h.holders t t' d ht ht'
  all d := by
    rw [h.all, List.mem_cons]
    constructor
    · rintro (hd | ⟨t, ht⟩)
      · exact .inl (.inr hd)
      · by_cases heq : t = thread
        · rw [heq, hheld] at ht
          exact .inl (.inl (Option.some.inj ht).symm)
        · exact .inr ⟨t, (Function.update_of_ne heq _ _).trans ht⟩
    · rintro ((rfl | hd) | ⟨t, ht⟩)
      · exact .inr ⟨thread, hheld⟩
      · exact .inl hd
      · rw [Function.update_apply] at ht
        split_ifs at ht
        exact .inr ⟨t, ht⟩

end Ownership
