import Mathlib.Data.List.Basic
import Mathlib.Tactic

/-! Runs of a partial step function and their refinement of a specification relation.
A step without a result stands for an execution outside the defined behaviour; a guard
names the states and inputs at which the step is known to have one. -/
namespace PartialRun

variable {σ ι ο τ : Type*}

/-- Feed a list of inputs to `step`, collecting the outputs. -/
def run (step : σ → ι → Option (σ × ο)) : σ → List ι → Option (σ × List ο)
  | s, [] => some (s, [])
  | s, i :: is =>
    match step s i with
    | none => none
    | some (s', o) => (run step s' is).map fun r => (r.1, o :: r.2)

/-- The outputs of a run that the specification allows, with its end points. -/
inductive Allowed (spec : τ → ι → ο → τ → Prop) : τ → List ι → List ο → τ → Prop
  | nil (a : τ) : Allowed spec a [] [] a
  | cons {a b c : τ} {i : ι} {o : ο} {is : List ι} {os : List ο}
      (head : spec a i o b) (tail : Allowed spec b is os c) :
      Allowed spec a (i :: is) (o :: os) c

/-- Every input meets `guard` in the state in which the run applies it. -/
def Guarded (step : σ → ι → Option (σ × ο)) (guard : σ → ι → Prop) : σ → List ι → Prop
  | _, [] => True
  | s, i :: is => guard s i ∧ ∀ s' o, step s i = some (s', o) → Guarded step guard s' is

/-- One step at a guarded input has a result, which the specification allows. -/
def StepRefines (step : σ → ι → Option (σ × ο)) (spec : τ → ι → ο → τ → Prop)
    (coupled : σ → τ → Prop) (guard : σ → ι → Prop) : Prop :=
  ∀ s a i, coupled s a → guard s i →
    ∃ s' o b, step s i = some (s', o) ∧ spec a i o b ∧ coupled s' b

@[simp] theorem run_nil (step : σ → ι → Option (σ × ο)) (s : σ) :
    run step s [] = some (s, []) := rfl

theorem run_cons_of_step {step : σ → ι → Option (σ × ο)} {s s' : σ} {i : ι} {o : ο}
    (h : step s i = some (s', o)) (is : List ι) :
    run step s (i :: is) = (run step s' is).map fun r => (r.1, o :: r.2) := by
  simp only [run, h]

theorem run_cons_eq_some {step : σ → ι → Option (σ × ο)} {s t : σ} {i : ι} {is : List ι}
    {os : List ο} (h : run step s (i :: is) = some (t, os)) :
    ∃ s' o os', step s i = some (s', o) ∧ run step s' is = some (t, os') ∧ os = o :: os' := by
  cases hstep : step s i with
  | none => simp [run, hstep] at h
  | some r =>
    obtain ⟨s', o⟩ := r
    rw [run_cons_of_step hstep, Option.map_eq_some_iff] at h
    obtain ⟨⟨t', os'⟩, hrun, heq⟩ := h
    cases heq
    exact ⟨s', o, os', rfl, hrun, rfl⟩

theorem run_append {step : σ → ι → Option (σ × ο)} {s t u : σ} {is js : List ι} {os os' : List ο}
    (h : run step s is = some (t, os)) (h' : run step t js = some (u, os')) :
    run step s (is ++ js) = some (u, os ++ os') := by
  induction is generalizing s os with
  | nil =>
    cases h
    exact h'
  | cons i is ih =>
    obtain ⟨s', o, os₁, hstep, hrest, rfl⟩ := run_cons_eq_some h
    rw [List.cons_append, run_cons_of_step hstep, ih hrest]
    rfl

theorem run_append_eq_some {step : σ → ι → Option (σ × ο)} {s u : σ} {is js : List ι}
    {os : List ο} (h : run step s (is ++ js) = some (u, os)) :
    ∃ t os₁ os₂, run step s is = some (t, os₁) ∧ run step t js = some (u, os₂) ∧
      os = os₁ ++ os₂ := by
  induction is generalizing s os with
  | nil => exact ⟨s, [], os, rfl, h, rfl⟩
  | cons i is ih =>
    obtain ⟨s', o, os', hstep, hrest, rfl⟩ := run_cons_eq_some h
    obtain ⟨t, os₁, os₂, hfirst, hsecond, rfl⟩ := ih hrest
    exact ⟨t, o :: os₁, os₂, by rw [run_cons_of_step hstep, hfirst]; rfl, hsecond, rfl⟩

theorem run_length {step : σ → ι → Option (σ × ο)} {s t : σ} {is : List ι} {os : List ο}
    (h : run step s is = some (t, os)) : os.length = is.length := by
  induction is generalizing s os with
  | nil =>
    cases h
    rfl
  | cons i is ih =>
    obtain ⟨s', o, os', hstep, hrest, rfl⟩ := run_cons_eq_some h
    simp only [List.length_cons, ih hrest]

/-- What every step at an admitted input preserves, a run over admitted inputs preserves. -/
theorem run_preserves {step : σ → ι → Option (σ × ο)} {inv : σ → Prop} {admitted : ι → Prop}
    {good : ο → Prop}
    (hstep : ∀ s i s' o, inv s → admitted i → step s i = some (s', o) → inv s' ∧ good o)
    {s t : σ} {is : List ι} {os : List ο} (h : run step s is = some (t, os)) (hs : inv s)
    (his : ∀ i ∈ is, admitted i) : inv t ∧ ∀ o ∈ os, good o := by
  induction is generalizing s os with
  | nil =>
    cases h
    exact ⟨hs, by simp⟩
  | cons i is ih =>
    obtain ⟨s', o, os', hi, hrest, rfl⟩ := run_cons_eq_some h
    obtain ⟨hinv, hgood⟩ := hstep s i s' o hs (his i List.mem_cons_self) hi
    obtain ⟨hend, hgoods⟩ := ih hrest hinv fun j hj => his j (List.mem_cons_of_mem _ hj)
    exact ⟨hend, List.forall_mem_cons.mpr ⟨hgood, hgoods⟩⟩

theorem guarded_cons_of_step {step : σ → ι → Option (σ × ο)} {guard : σ → ι → Prop} {s s' : σ}
    {i : ι} {o : ο} (h : step s i = some (s', o)) (is : List ι) :
    Guarded step guard s (i :: is) ↔ guard s i ∧ Guarded step guard s' is := by
  refine and_congr_right fun _ => ⟨fun hg => hg s' o h, fun hg t o' ht => ?_⟩
  rw [h] at ht
  cases ht
  exact hg

theorem guarded_cons_of_stuck {step : σ → ι → Option (σ × ο)} {guard : σ → ι → Prop} {s : σ}
    {i : ι} (h : step s i = none) (is : List ι) :
    Guarded step guard s (i :: is) ↔ guard s i := by
  refine ⟨fun hg => hg.1, fun hg => ⟨hg, fun t o ht => ?_⟩⟩
  rw [h] at ht
  cases ht

/-- A finite run can be checked against a decidable guard. -/
instance decidableGuarded (step : σ → ι → Option (σ × ο)) (guard : σ → ι → Prop)
    [∀ s i, Decidable (guard s i)] : ∀ s is, Decidable (Guarded step guard s is)
  | _, [] => isTrue trivial
  | s, i :: is =>
    match h : step s i with
    | none => decidable_of_iff _ (guarded_cons_of_stuck h is).symm
    | some (s', _) =>
      have := decidableGuarded step guard s' is
      decidable_of_iff _ (guarded_cons_of_step h is).symm

theorem guarded_of_forall_mem {step : σ → ι → Option (σ × ο)} {guard : σ → ι → Prop}
    {is : List ι} (h : ∀ i ∈ is, ∀ s, guard s i) (s : σ) : Guarded step guard s is := by
  induction is generalizing s with
  | nil => trivial
  | cons i is ih =>
    exact ⟨h i List.mem_cons_self s,
      fun s' _ _ => ih (fun j hj => h j (List.mem_cons_of_mem _ hj)) s'⟩

theorem guarded_of_forall {step : σ → ι → Option (σ × ο)} {guard : σ → ι → Prop}
    (h : ∀ s i, guard s i) (s : σ) (is : List ι) : Guarded step guard s is :=
  guarded_of_forall_mem (fun i _ s => h s i) s

/-- A monitor reads the outputs of a run one by one: each must be acceptable in the state the
monitor has reached. -/
def Monitored {μ : Type*} (next : μ → ο → μ) (ok : μ → ο → Prop) : μ → List ο → Prop
  | _, [] => True
  | m, o :: os => ok m o ∧ Monitored next ok (next m o) os

theorem monitored_append {μ : Type*} {next : μ → ο → μ} {ok : μ → ο → Prop} {m : μ}
    {os os' : List ο} :
    Monitored next ok m (os ++ os') ↔
      Monitored next ok m os ∧ Monitored next ok (os.foldl next m) os' := by
  induction os generalizing m with
  | nil => simp [Monitored]
  | cons o os ih => simp only [List.cons_append, Monitored, List.foldl_cons, ih, and_assoc]

/-- What relates a system to its monitor at every guarded step relates them along a run, whose
outputs the monitor accepts. -/
theorem run_monitored {μ : Type*} {step : σ → ι → Option (σ × ο)} {guard : σ → ι → Prop}
    {next : μ → ο → μ} {ok : μ → ο → Prop} {inv : σ → μ → Prop} {admitted : ι → Prop}
    (hstep : ∀ s m i s' o, inv s m → admitted i → guard s i → step s i = some (s', o) →
      ok m o ∧ inv s' (next m o))
    {s t : σ} {m : μ} {is : List ι} {os : List ο} (hrun : run step s is = some (t, os))
    (hinv : inv s m) (his : ∀ i ∈ is, admitted i) (hguard : Guarded step guard s is) :
    Monitored next ok m os ∧ inv t (os.foldl next m) := by
  induction is generalizing s m os with
  | nil =>
    cases hrun
    exact ⟨trivial, hinv⟩
  | cons i is ih =>
    obtain ⟨s', o, os', hi, hrest, rfl⟩ := run_cons_eq_some hrun
    obtain ⟨hok, hinv'⟩ := hstep s m i s' o hinv (his i List.mem_cons_self) hguard.1 hi
    obtain ⟨hmonitored, hend⟩ :=
      ih hrest hinv' (fun j hj => his j (List.mem_cons_of_mem _ hj)) (hguard.2 s' o hi)
    exact ⟨⟨hok, hmonitored⟩, hend⟩

/-- A system that holds what enters until it leaves, in its order: if every guarded step does,
a guarded run does. -/
theorem run_conserved {α : Type*} {step : σ → ι → Option (σ × ο)} {guard : σ → ι → Prop}
    {contents : σ → List α} {entering leaving : ο → List α}
    (hstep : ∀ s i s' o, guard s i → step s i = some (s', o) →
      contents s ++ entering o = leaving o ++ contents s')
    {s t : σ} {is : List ι} {os : List ο} (hrun : run step s is = some (t, os))
    (hguard : Guarded step guard s is) :
    contents s ++ os.flatMap entering = os.flatMap leaving ++ contents t := by
  induction is generalizing s os with
  | nil =>
    cases hrun
    simp
  | cons i is ih =>
    obtain ⟨s', o, os', hi, hrest, rfl⟩ := run_cons_eq_some hrun
    rw [List.flatMap_cons, List.flatMap_cons, ← List.append_assoc,
      hstep s i s' o hguard.1 hi, List.append_assoc, ih hrest (hguard.2 s' o hi),
      List.append_assoc]

/-- The same with an invariant that every guarded step keeps; then a guarded run has a result. -/
theorem run_conserved_of_inv {α : Type*} {step : σ → ι → Option (σ × ο)} {inv : σ → Prop}
    {guard : σ → ι → Prop} {contents : σ → List α} {entering leaving : ο → List α}
    (hstep : ∀ s i, inv s → guard s i → ∃ s' o, step s i = some (s', o) ∧ inv s' ∧
      contents s ++ entering o = leaving o ++ contents s')
    {s : σ} {is : List ι} (hinv : inv s) (hguard : Guarded step guard s is) :
    ∃ t os, run step s is = some (t, os) ∧ inv t ∧
      contents s ++ os.flatMap entering = os.flatMap leaving ++ contents t := by
  induction is generalizing s with
  | nil => exact ⟨s, [], rfl, hinv, by simp⟩
  | cons i is ih =>
    obtain ⟨s', o, hs, hinv', hconserved⟩ := hstep s i hinv hguard.1
    obtain ⟨t, os, hrun, ht, hrest⟩ := ih hinv' (hguard.2 s' o hs)
    refine ⟨t, o :: os, by rw [run_cons_of_step hs, hrun, Option.map_some], ht, ?_⟩
    rw [List.flatMap_cons, List.flatMap_cons, ← List.append_assoc, hconserved,
      List.append_assoc, hrest, List.append_assoc]

/-- A guarded run has a result, and the specification allows its outputs. -/
theorem StepRefines.run {step : σ → ι → Option (σ × ο)} {spec : τ → ι → ο → τ → Prop}
    {coupled : σ → τ → Prop} {guard : σ → ι → Prop}
    (hstep : StepRefines step spec coupled guard) {s : σ} {a : τ} {is : List ι}
    (hc : coupled s a) (hg : Guarded step guard s is) :
    ∃ t os b, run step s is = some (t, os) ∧ Allowed spec a is os b ∧ coupled t b := by
  induction is generalizing s a with
  | nil => exact ⟨s, [], a, rfl, .nil a, hc⟩
  | cons i is ih =>
    obtain ⟨s', o, b, hs, ho, hc'⟩ := hstep s a i hc hg.1
    obtain ⟨t, os, c, hrun, hallowed, hct⟩ := ih hc' (hg.2 s' o hs)
    exact ⟨t, o :: os, c, by rw [run_cons_of_step hs, hrun, Option.map_some],
      .cons ho hallowed, hct⟩

/-- When only guarded steps have results, a run with a result was guarded. -/
theorem StepRefines.guarded_of_run {step : σ → ι → Option (σ × ο)}
    {spec : τ → ι → ο → τ → Prop} {coupled : σ → τ → Prop} {guard : σ → ι → Prop}
    (hstep : StepRefines step spec coupled guard)
    (honly : ∀ s a i, coupled s a → step s i ≠ none → guard s i)
    {s t : σ} {a : τ} {is : List ι} {os : List ο} (hc : coupled s a)
    (hrun : PartialRun.run step s is = some (t, os)) : Guarded step guard s is := by
  induction is generalizing s a os with
  | nil => trivial
  | cons i is ih =>
    obtain ⟨s', o, os', hs, hrun', -⟩ := run_cons_eq_some hrun
    have hguard : guard s i := honly s a i hc (by simp [hs])
    obtain ⟨s'', o', b, hs', -, hc'⟩ := hstep s a i hc hguard
    rw [hs] at hs'
    cases hs'
    refine ⟨hguard, fun s₂ o₂ h₂ => ?_⟩
    rw [hs] at h₂
    cases h₂
    exact ih hc' hrun'

/-- One step has a result, and is either a step of the abstract system with the same output or an
invisible one that leaves the abstract state. -/
def WeakStep {ι' : Type*} (step : σ → ι → Option (σ × ο)) (step' : τ → ι' → Option (τ × ο))
    (silent : ο) (coupled : σ → τ → Prop) : Prop :=
  ∀ s a i, coupled s a → ∃ s' o, step s i = some (s', o) ∧
    ((∃ j b, step' a j = some (b, o) ∧ coupled s' b) ∨ o = silent ∧ coupled s' a)

/-- Every run is a run of the abstract system with the same visible outputs. -/
theorem WeakStep.run {ι' : Type*} [DecidableEq ο] {step : σ → ι → Option (σ × ο)}
    {step' : τ → ι' → Option (τ × ο)} {silent : ο} {coupled : σ → τ → Prop}
    (h : WeakStep step step' silent coupled) {s : σ} {a : τ} (hc : coupled s a) (is : List ι) :
    ∃ t os js os' b, PartialRun.run step s is = some (t, os) ∧
      PartialRun.run step' a js = some (b, os') ∧ os.filter (· ≠ silent) = os'.filter (· ≠ silent) ∧
      coupled t b := by
  induction is generalizing s a with
  | nil => exact ⟨s, [], [], [], a, rfl, rfl, rfl, hc⟩
  | cons i is ih =>
    obtain ⟨s', o, hs, ⟨j, b, hj, hc'⟩ | ⟨rfl, hc'⟩⟩ := h s a i hc
    · obtain ⟨t, os, js, os', b', hrun, hrun', houts, hct⟩ := ih hc'
      refine ⟨t, o :: os, j :: js, o :: os', b', ?_, ?_, ?_, hct⟩
      · rw [run_cons_of_step hs, hrun, Option.map_some]
      · rw [run_cons_of_step hj, hrun', Option.map_some]
      · rw [List.filter_cons, List.filter_cons, houts]
    · obtain ⟨t, os, js, os', b', hrun, hrun', houts, hct⟩ := ih hc'
      refine ⟨t, o :: os, js, os', b', ?_, hrun', ?_, hct⟩
      · rw [run_cons_of_step hs, hrun, Option.map_some]
      · rw [List.filter_cons_of_neg (by simp), houts]

/-- What one specification allows another one allows that knows less of the state. -/
theorem Allowed.map {τ' : Type*} {spec : τ → ι → ο → τ → Prop} {spec' : τ' → ι → ο → τ' → Prop}
    (f : τ → τ') (inv : τ → Prop)
    (hspec : ∀ a i o b, inv a → spec a i o b → spec' (f a) i o (f b) ∧ inv b) {a b : τ}
    {is : List ι} {os : List ο} (h : Allowed spec a is os b) (ha : inv a) :
    Allowed spec' (f a) is os (f b) := by
  induction h with
  | nil a => exact .nil (f a)
  | cons head _ ih =>
    obtain ⟨hhead, hb⟩ := hspec _ _ _ _ ha head
    exact .cons hhead (ih hb)

/-- What every allowed step preserves, an allowed run preserves. -/
theorem Allowed.preserves {spec : τ → ι → ο → τ → Prop} (inv : τ → Prop)
    (hstep : ∀ a i o b, inv a → spec a i o b → inv b) {a b : τ} {is : List ι} {os : List ο}
    (h : Allowed spec a is os b) (ha : inv a) : inv b := by
  induction h with
  | nil a => exact ha
  | cons head _ ih => exact ih (hstep _ _ _ _ ha head)

end PartialRun
