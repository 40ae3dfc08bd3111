import Mathlib.Data.List.Chain
import Mathlib.Data.List.Sort
import Mathlib.Data.List.TakeWhile
import Mathlib.Tactic

/-! Skip lists: rows over one ordered list, each a part of the next one. The search for a place
goes down the rows, and the last row is the whole list. -/
namespace SkipList

variable {α : Type*}

/-- The last element that is passed, `head` if there is none. -/
def walk (ahead : α → Bool) (head : Option α) : List α → Option α
  | [] => head
  | t :: row => if ahead t then head else walk ahead (some t) row

section Rows

variable [DecidableEq α]

/-- What follows an element of a row, or the head of it. -/
def after : Option α → List α → List α
  | none, row => row
  | some t, row => (row.dropWhile (· ≠ t)).tail

def insertAfter : Option α → α → List α → List α
  | none, x, row => x :: row
  | some _, x, [] => [x]
  | some t, x, b :: row => if b = t then b :: x :: row else b :: insertAfter (some t) x row

/-- A new element in the last `height` rows. The search in a row begins where the one in the row
above has ended. -/
def insertRows (ahead : α → Bool) (x : α) (height : ℕ) : Option α → List (List α) → List (List α)
  | _, [] => []
  | head, row :: rows =>
    let head := walk ahead head (after head row)
    (if (row :: rows).length ≤ height then insertAfter head x row else row) ::
      insertRows ahead x height head rows

/-- The whole list. -/
def bottom (rows : List (List α)) : List α := rows.getLast?.getD []

def remove (x : α) (rows : List (List α)) : List (List α) := rows.map (List.erase · x)

end Rows

section Order

variable (lt : α → α → Prop) [DecidableRel lt]

/-- The same with an ordered insertion into each row. -/
def place (x : α) (height : ℕ) : List (List α) → List (List α)
  | [] => []
  | row :: rows =>
    (if (row :: rows).length ≤ height then row.orderedInsert lt x else row) :: place x height rows

/-- Each row is a part of the next one, and the last one is in order. -/
structure Ordered (rows : List (List α)) : Prop where
  nested : rows.IsChain List.Sublist
  sorted : ∀ row ∈ rows, row.Pairwise lt

end Order

section Search

variable {t x : α} {pre row : List α}

theorem walk_eq (ahead : α → Bool) (head : Option α) (row : List α) :
    walk ahead head row = ((row.takeWhile fun t => !ahead t).getLast?).or head := by
  induction row generalizing head with
  | nil => rfl
  | cons t row ih =>
    rw [walk]
    by_cases ht : ahead t = true
    · rw [if_pos ht, List.takeWhile_cons_of_neg (by simp [ht])]
      rfl
    · rw [if_neg ht, List.takeWhile_cons_of_pos (by simp [ht]), ih, List.getLast?_cons]
      cases (row.takeWhile fun t => !ahead t).getLast? <;> rfl

variable [DecidableEq α]

theorem after_append (ht : t ∉ pre) : after (some t) (pre ++ t :: row) = row := by
  have hpre : ∀ b ∈ pre, decide (b ≠ t) = true := by
    intro b hb
    refine decide_eq_true fun heq => ht ?_
    rwa [← heq]
  rw [after, List.dropWhile_append_of_pos hpre, List.dropWhile_cons_of_neg (by simp),
    List.tail_cons]

theorem insertAfter_append (ht : t ∉ pre) :
    insertAfter (some t) x (pre ++ t :: row) = pre ++ t :: x :: row := by
  induction pre with
  | nil => simp [insertAfter]
  | cons b pre ih =>
    rw [List.mem_cons, not_or] at ht
    rw [List.cons_append, insertAfter, if_neg (Ne.symm ht.1), ih ht.2, List.cons_append]

/-- Behind the last of the first elements. -/
theorem insertAfter_getLast (x : α) (row : List α) (hnodup : pre.Nodup) :
    insertAfter pre.getLast? x (pre ++ row) = pre ++ x :: row := by
  rcases List.eq_nil_or_concat pre with rfl | ⟨front, t, rfl⟩
  · cases row <;> rfl
  · rw [List.concat_eq_append] at hnodup ⊢
    have ht : t ∉ front := by
      intro hin
      exact (List.disjoint_of_nodup_append hnodup) hin (List.mem_singleton.mpr rfl)
    rw [List.getLast?_append, List.getLast?_singleton, Option.some_or, List.append_assoc,
      List.append_assoc]
    exact insertAfter_append ht

end Search

section Removal

variable [DecidableEq α] {lt : α → α → Prop} {x : α} {rows : List (List α)}

theorem remove_length : (remove x rows).length = rows.length := List.length_map _

theorem bottom_remove : bottom (remove x rows) = (bottom rows).erase x := by
  rw [bottom, bottom, remove, List.getLast?_map]
  cases rows.getLast? <;> rfl

/-- A removal keeps the rows in order. -/
theorem Ordered.remove (h : Ordered lt rows) : Ordered lt (remove x rows) := by
  refine ⟨List.isChain_map_of_isChain _ (fun a b hsub => hsub.erase x) h.nested, fun r hr => ?_⟩
  obtain ⟨row, hrow, rfl⟩ := List.mem_map.mp hr
  exact (h.sorted row hrow).sublist List.erase_sublist

end Removal

section Insertion

variable {lt : α → α → Prop} {row : List α} {rows : List (List α)}

theorem Ordered.tail (h : Ordered lt (row :: rows)) : Ordered lt rows :=
  ⟨h.nested.tail, fun r hr => h.sorted r (List.mem_cons_of_mem _ hr)⟩

theorem bottom_cons_cons (row next : List α) (rows : List (List α)) :
    bottom (row :: next :: rows) = bottom (next :: rows) := by
  rw [bottom, bottom, List.getLast?_cons_cons]

theorem Ordered.sublist_bottom (h : Ordered lt rows) (hrow : row ∈ rows) :
    row.Sublist (bottom rows) := by
  induction rows generalizing row with
  | nil => cases hrow
  | cons r rows ih =>
    cases rows with
    | nil =>
      rw [List.mem_singleton.mp hrow]
      exact List.Sublist.refl r
    | cons r' rows =>
      rw [bottom_cons_cons]
      rcases List.mem_cons.mp hrow with rfl | hin
      · exact (List.isChain_cons_cons.mp h.nested).1.trans (ih h.tail List.mem_cons_self)
      · exact ih h.tail hin

theorem bottom_mem (hne : rows ≠ []) : bottom rows ∈ rows := by
  rw [bottom, List.getLast?_eq_some_getLast hne, Option.getD_some]
  exact List.getLast_mem hne

theorem Ordered.congr {lt' : α → α → Prop} (h : Ordered lt rows)
    (hsame : ∀ a ∈ bottom rows, ∀ b ∈ bottom rows, lt a b → lt' a b) : Ordered lt' rows := by
  refine ⟨h.nested, fun row hrow => (h.sorted row hrow).imp_of_mem fun ha hb => ?_⟩
  have hsub := (h.sublist_bottom hrow).subset
  exact hsame _ (hsub ha) _ (hsub hb)

theorem nodup_of_sorted [IsStrictOrder α lt] (hsorted : row.Pairwise lt) : row.Nodup :=
  hsorted.imp fun {a b} hlt heq => by
    subst heq
    exact irrefl_of lt a hlt

variable [DecidableRel lt] {ahead : α → Bool} {x : α} {height : ℕ}

theorem takeWhile_ahead (hahead : ∀ t ∈ row, ahead t = decide (lt x t)) :
    row.takeWhile (fun t => !ahead t) = row.takeWhile (fun t => decide ¬ lt x t) ∧
      row.dropWhile (fun t => !ahead t) = row.dropWhile (fun t => decide ¬ lt x t) := by
  induction row with
  | nil => exact ⟨rfl, rfl⟩
  | cons b row ih =>
    obtain ⟨htake, hdrop⟩ := ih fun t ht => hahead t (List.mem_cons_of_mem _ ht)
    have hb := hahead b List.mem_cons_self
    simp only [List.takeWhile_cons, List.dropWhile_cons, hb, htake, hdrop, decide_not]
    exact ⟨trivial, trivial⟩

theorem place_length : (place lt x height rows).length = rows.length := by
  induction rows with
  | nil => rfl
  | cons row rows ih => rw [place, List.length_cons, ih, List.length_cons]

theorem bottom_place (hne : rows ≠ []) (hheight : 0 < height) :
    bottom (place lt x height rows) = (bottom rows).orderedInsert lt x := by
  induction rows with
  | nil => exact absurd rfl hne
  | cons row rows ih =>
    cases rows with
    | nil =>
      have hlast : [row].length ≤ height := hheight
      rw [place, if_pos hlast]
      rfl
    | cons next rows =>
      have hrest := ih (List.cons_ne_nil _ _)
      rw [place] at hrest
      rw [bottom_cons_cons, ← hrest, place, place, bottom_cons_cons]

theorem orderedInsert_sorted [IsTrans α lt] (hsorted : row.Pairwise lt)
    (hx : ∀ t ∈ row, lt x t ∨ lt t x) : (row.orderedInsert lt x).Pairwise lt := by
  induction row with
  | nil => exact List.pairwise_singleton _ _
  | cons b row ih =>
    obtain ⟨hb, hrow⟩ := List.pairwise_cons.mp hsorted
    by_cases hlt : lt x b
    · rw [List.orderedInsert_cons, if_pos hlt]
      refine List.pairwise_cons.mpr ⟨fun t ht => ?_, hsorted⟩
      rcases List.mem_cons.mp ht with rfl | ht
      · exact hlt
      · exact trans_of lt hlt (hb t ht)
    · rw [List.orderedInsert_cons, if_neg hlt]
      refine List.pairwise_cons.mpr
        ⟨fun t ht => ?_, ih hrow fun t ht => hx t (List.mem_cons_of_mem _ ht)⟩
      rcases (List.mem_orderedInsert lt).mp ht with rfl | ht
      · exact (hx b List.mem_cons_self).resolve_left hlt
      · exact hb t ht

/-- An insertion keeps the rows in order. -/
theorem Ordered.place [IsTrans α lt] (h : Ordered lt rows)
    (hx : ∀ t ∈ bottom rows, lt x t ∨ lt t x) : Ordered lt (place lt x height rows) := by
  induction rows with
  | nil => exact h
  | cons row rows ih =>
    have hrow := h.sorted row List.mem_cons_self
    have hxrow : ∀ t ∈ row, lt x t ∨ lt t x := fun t ht =>
      hx t ((h.sublist_bottom List.mem_cons_self).subset ht)
    have hinsert := orderedInsert_sorted hrow hxrow
    cases rows with
    | nil =>
      rw [SkipList.place, SkipList.place]
      refine ⟨List.isChain_singleton _, ?_⟩
      simp only [List.mem_singleton, forall_eq]
      split_ifs
      · exact hinsert
      · exact hrow
    | cons next rows =>
      have hrest := ih h.tail fun t ht => hx t (by rwa [bottom_cons_cons])
      have hsub := (List.isChain_cons_cons.mp h.nested).1
      have hnext := h.sorted next (List.mem_cons_of_mem _ List.mem_cons_self)
      rw [SkipList.place]
      refine ⟨?_, fun r hr => ?_⟩
      · have hnested := hrest.nested
        rw [SkipList.place] at hnested ⊢
        refine List.isChain_cons_cons.mpr ⟨?_, hnested⟩
        -- a row above is not changed alone
        split_ifs with habove hbelow hbelow
        · exact hsub.orderedInsert_sublist x hnext
        · rw [List.length_cons] at habove
          omega
        · exact hsub.trans (List.sublist_orderedInsert x next)
        · exact hsub
      · rcases List.mem_cons.mp hr with rfl | hr
        · split_ifs
          · exact hinsert
          · exact hrow
        · exact hrest.sorted r hr

variable [DecidableEq α] [IsStrictOrder α lt] {head : Option α}

/-- Where the search in a row may begin: at an element that is not behind the new one. -/
def Start (ahead : α → Bool) (row : List α) (head : Option α) : Prop :=
  ∀ t, head = some t → t ∈ row ∧ ahead t = false

/-- The search ends at the last element in front of the new one, wherever it begins. -/
theorem walk_start (hsorted : row.Pairwise lt)
    (hahead : ∀ t ∈ row, ahead t = decide (lt x t)) (hstart : Start ahead row head) :
    walk ahead head (after head row) = (row.takeWhile fun t => !ahead t).getLast? := by
  rw [walk_eq]
  cases head with
  | none => rw [after, Option.or_none]
  | some t =>
    obtain ⟨hin, hbehind⟩ := hstart t rfl
    obtain ⟨pre, post, rfl⟩ := List.append_of_mem hin
    have hnew : t ∉ pre := fun hpre =>
      List.disjoint_of_nodup_append (nodup_of_sorted hsorted) hpre List.mem_cons_self
    have hpre : ∀ b ∈ pre, (!ahead b) = true := by
      intro b hb
      rw [hahead b (List.mem_append_left _ hb), Bool.not_eq_true', decide_eq_false_iff_not]
      rw [hahead t hin, decide_eq_false_iff_not] at hbehind
      -- an element behind the new one would have `t` behind it
      intro hlt
      have hbt := (List.pairwise_append.mp hsorted).2.2 b hb t List.mem_cons_self
      exact hbehind (trans_of lt hlt hbt)
    rw [after_append hnew, List.takeWhile_append_of_pos hpre,
      List.takeWhile_cons_of_pos (by simp [hbehind]), List.getLast?_append, List.getLast?_cons]
    cases (post.takeWhile fun t => !ahead t).getLast? <;> rfl

/-- An insertion in one row. -/
theorem insertAfter_walk (hsorted : row.Pairwise lt)
    (hahead : ∀ t ∈ row, ahead t = decide (lt x t)) (hstart : Start ahead row head) :
    insertAfter (walk ahead head (after head row)) x row = row.orderedInsert lt x := by
  rw [walk_start hsorted hahead hstart, List.orderedInsert_eq_take_drop,
    ← (takeWhile_ahead hahead).1, ← (takeWhile_ahead hahead).2]
  have hsplit := List.takeWhile_append_dropWhile (p := fun t => !ahead t) (l := row)
  have hnodup : (row.takeWhile fun t => !ahead t).Nodup :=
    (nodup_of_sorted hsorted).sublist (List.takeWhile_sublist _)
  have hinsert := insertAfter_getLast x (row.dropWhile fun t => !ahead t) hnodup
  rwa [hsplit] at hinsert

/-- The search through the rows finds the place that an ordered insertion finds. -/
theorem insertRows_eq (hordered : Ordered lt rows)
    (hahead : ∀ t ∈ bottom rows, ahead t = decide (lt x t))
    (hstart : ∀ row ∈ rows.head?, Start ahead row head) :
    insertRows ahead x height head rows = place lt x height rows := by
  induction rows generalizing head with
  | nil => rfl
  | cons row rows ih =>
    have hrow : ∀ t ∈ row, ahead t = decide (lt x t) := fun t ht =>
      hahead t ((hordered.sublist_bottom List.mem_cons_self).subset ht)
    have hsorted := hordered.sorted row List.mem_cons_self
    have hfirst := hstart row rfl
    rw [insertRows, place, insertAfter_walk hsorted hrow hfirst]
    congr 1
    cases rows with
    | nil => rfl
    | cons next rows =>
      refine ih hordered.tail (fun t ht => hahead t ?_) ?_
      · rwa [bottom_cons_cons]
      · rintro _ ⟨⟩ t ht
        rw [walk_start hsorted hrow hfirst] at ht
        have hin := List.mem_of_getLast? ht
        have hbehind := List.mem_takeWhile_imp hin
        refine ⟨(List.isChain_cons_cons.mp hordered.nested).1.subset ?_, by simpa using hbehind⟩
        exact (List.takeWhile_sublist _).subset hin

end Insertion

end SkipList
