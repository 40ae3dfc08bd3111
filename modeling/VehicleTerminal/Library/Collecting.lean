import VehicleTerminal.Library.Iteration

/-! Loops over a list that collect what each element gives, while there is room. An element
may also give no result; then the loop has none, and neither when the room does not suffice. -/
namespace PartialLoop

variable {α β σ : Type*}

/-- A loop over a list whose body may leave it early. -/
def forEach (body : α → σ → Option (Outcome σ σ)) : List α → σ → Option σ
  | [], s => some s
  | x :: xs, s =>
    match body x s with
    | none => none
    | some (.returns s') => some s'
    | some (.continues s') => forEach body xs s'

/-- What the elements give, one after the other. -/
def collect (f : α → Option (List β)) : List α → Option (List β)
  | [] => some []
  | x :: xs => (f x).bind fun ys => (collect f xs).map fun zs => ys ++ zs

section Collect

variable {f : α → Option (List β)} {xs : List α} {ys : List β}

theorem collect_append (xs xs' : List α) :
    collect f (xs ++ xs') =
      (collect f xs).bind fun ys => (collect f xs').map fun zs => ys ++ zs := by
  induction xs with
  | nil => simp [collect]
  | cons x xs ih =>
    rw [List.cons_append, collect, collect, ih]
    cases f x <;> cases collect f xs <;> cases collect f xs' <;> simp

theorem collect_ne_none_iff : collect f xs ≠ none ↔ ∀ x ∈ xs, f x ≠ none := by
  induction xs with
  | nil => simp [collect]
  | cons x xs ih =>
    rw [List.forall_mem_cons, ← ih, collect]
    cases f x with
    | none => simp
    | some ys => simp

theorem mem_of_mem_collect {y : β} (h : collect f xs = some ys) (hy : y ∈ ys) :
    ∃ x ∈ xs, ∃ zs, f x = some zs ∧ y ∈ zs := by
  induction xs generalizing ys with
  | nil =>
    cases h
    cases hy
  | cons x xs ih =>
    obtain ⟨zs, hzs, h⟩ := Option.bind_eq_some_iff.mp h
    obtain ⟨rest, hrest, rfl⟩ := Option.map_eq_some_iff.mp h
    rcases List.mem_append.mp hy with hy | hy
    · exact ⟨x, List.mem_cons_self, zs, hzs, hy⟩
    · obtain ⟨x', hx', hgives⟩ := ih hrest hy
      exact ⟨x', List.mem_cons_of_mem x hx', hgives⟩

/-- If every element gives at most something named after itself, the names of all that is
collected are some of the elements, in their order. -/
theorem collect_sublist {name : β → α} (hname : ∀ x ∈ xs, ∀ ys, f x = some ys →
    (ys.map name).Sublist [x]) (h : collect f xs = some ys) : (ys.map name).Sublist xs := by
  induction xs generalizing ys with
  | nil =>
    cases h
    exact .slnil
  | cons x xs ih =>
    obtain ⟨zs, hzs, h⟩ := Option.bind_eq_some_iff.mp h
    obtain ⟨rest, hrest, rfl⟩ := Option.map_eq_some_iff.mp h
    rw [List.forall_mem_cons] at hname
    rw [List.map_append]
    exact (hname.1 zs hzs).append (ih hname.2 hrest)

theorem collect_measure (measure : List β → ℕ) {size : α → ℕ} (hnil : measure [] = 0)
    (happend : ∀ ys zs, measure (ys ++ zs) = measure ys + measure zs)
    (hsize : ∀ x ∈ xs, ∀ ys, f x = some ys → measure ys = size x)
    (h : collect f xs = some ys) : measure ys = (xs.map size).sum := by
  induction xs generalizing ys with
  | nil =>
    cases h
    exact hnil
  | cons x xs ih =>
    obtain ⟨zs, hzs, h⟩ := Option.bind_eq_some_iff.mp h
    obtain ⟨rest, hrest, rfl⟩ := Option.map_eq_some_iff.mp h
    rw [List.forall_mem_cons] at hsize
    rw [happend, hsize.1 zs hzs, ih hsize.2 hrest, List.map_cons, List.sum_cons]

end Collect

/-- From a state with `ys` collected, `result` is a state with all of `o` behind them if there
is room for it, and no state otherwise. -/
structure Appends (Inv : List β → σ → Prop) (fits : List β → Prop) (o : Option (List β))
    (ys : List β) (result : Option σ) : Prop where
  done : ∀ zs, o = some zs → fits (ys ++ zs) → ∃ s, result = some s ∧ Inv (ys ++ zs) s
  stuck : (∀ zs, o = some zs → ¬ fits (ys ++ zs)) → result = none

section Append

variable {Inv : List β → σ → Prop} {fits : List β → Prop} {o o' : Option (List β)} {ys : List β}
  {result : Option σ} {s : σ}

theorem appends_nil (h : Inv ys s) (hfits : fits ys) : Appends Inv fits (some []) ys (some s) := by
  constructor
  · rintro _ ⟨⟩ -
    exact ⟨s, rfl, by rwa [List.append_nil]⟩
  · intro hstuck
    exact absurd (by rwa [List.append_nil]) (hstuck [] rfl)

/-- One after the other, when less is in the way of more. -/
theorem Appends.bind {next : σ → Option σ} (hfront : ∀ ys zs, fits (ys ++ zs) → fits ys)
    (h : Appends Inv fits o ys result)
    (hnext : ∀ zs s, fits (ys ++ zs) → Inv (ys ++ zs) s →
      Appends Inv fits o' (ys ++ zs) (next s)) :
    Appends Inv fits (o.bind fun zs => o'.map fun zs' => zs ++ zs') ys (result.bind next) := by
  by_cases hgo : ∃ zs, o = some zs ∧ fits (ys ++ zs)
  · obtain ⟨zs, rfl, hfits⟩ := hgo
    obtain ⟨s, rfl, hinv⟩ := h.done zs rfl hfits
    have happends := hnext zs s hfits hinv
    rw [Option.bind_some, Option.bind_some]
    constructor
    · intro all hall hroom
      obtain ⟨zs', hzs', rfl⟩ := Option.map_eq_some_iff.mp hall
      rw [← List.append_assoc] at hroom ⊢
      exact happends.done zs' hzs' hroom
    · intro hstuck
      refine happends.stuck fun zs' hzs' => ?_
      rw [List.append_assoc]
      exact hstuck (zs ++ zs') (by rw [hzs', Option.map_some])
  · push Not at hgo
    have hnone := h.stuck hgo
    rw [hnone, Option.bind_none]
    refine ⟨fun all hall hroom => ?_, fun _ => rfl⟩
    obtain ⟨zs, hzs, hall⟩ := Option.bind_eq_some_iff.mp hall
    obtain ⟨zs', -, rfl⟩ := Option.map_eq_some_iff.mp hall
    rw [← List.append_assoc] at hroom
    exact absurd (hfront _ _ hroom) (hgo zs hzs)

/-- A loop whose body appends what its element gives, and never leaves early, appends what
all elements give. -/
theorem appends_forEach {body : α → σ → Option (Outcome σ σ)} {f : α → Option (List β)}
    (hfront : ∀ ys zs, fits (ys ++ zs) → fits ys) {xs : List α}
    (hbody : ∀ x ∈ xs, ∀ ys s, fits ys → Inv ys s →
      ∃ result, body x s = result.map .continues ∧ Appends Inv fits (f x) ys result)
    (hfits : fits ys) (h : Inv ys s) :
    Appends Inv fits (collect f xs) ys (forEach body xs s) := by
  induction xs generalizing ys s with
  | nil => exact appends_nil h hfits
  | cons x xs ih =>
    rw [List.forall_mem_cons] at hbody
    obtain ⟨result, hresult, happends⟩ := hbody.1 ys s hfits h
    have hloop : forEach body (x :: xs) s = result.bind (forEach body xs) := by
      rw [forEach, hresult]
      cases result <;> rfl
    rw [hloop, collect]
    exact happends.bind hfront fun zs s' hroom hinv => ih hbody.2 hroom hinv

end Append

end PartialLoop
