import Mathlib

/-!
# Labelled transition systems

Runs of a step relation over arbitrary labels and states, and the rules that lift a fact about one
step to a fact about a run: invariants, invariants of steps that meet a condition, and simulation by
runs of another system.
-/

namespace Transition

variable {Λ σ τ : Type*}

/-- A finite run with the labels of its steps. -/
inductive Run (step : Λ → σ → σ → Prop) : List Λ → σ → σ → Prop where
  | nil (s : σ) : Run step [] s s
  | cons {label : Λ} {labels : List Λ} {s s' s'' : σ} :
      step label s s' → Run step labels s' s'' → Run step (label :: labels) s s''

variable {step : Λ → σ → σ → Prop}

namespace Run

theorem single {label : Λ} {s s' : σ} (h : step label s s') : Run step [label] s s' :=
  .cons h (.nil s')

theorem append {first second : List Λ} {s s' s'' : σ} (run : Run step first s s')
    (rest : Run step second s' s'') : Run step (first ++ second) s s'' := by
  induction run with
  | nil => exact rest
  | cons h _ inductionHypothesis => exact .cons h (inductionHypothesis rest)

theorem snoc {labels : List Λ} {label : Λ} {s s' s'' : σ} (run : Run step labels s s')
    (h : step label s' s'') : Run step (labels ++ [label]) s s'' :=
  run.append (single h)

/-- A run is split at any place of its labels. -/
theorem split {first second : List Λ} {s s'' : σ} (run : Run step (first ++ second) s s'') :
    ∃ s', Run step first s s' ∧ Run step second s' s'' := by
  induction first generalizing s with
  | nil => exact ⟨s, .nil s, run⟩
  | cons label first inductionHypothesis =>
    cases run with
    | cons h rest =>
      obtain ⟨s', front, back⟩ := inductionHypothesis rest
      exact ⟨s', .cons h front, back⟩

/-- A run whose labels are all allowed everywhere is a run of allowed steps. -/
theorem restrict {allowed : Λ → σ → Prop} {labels : List Λ} {s s' : σ} (run : Run step labels s s')
    (all : ∀ label ∈ labels, ∀ s, allowed label s) :
    Run (fun label s s' => step label s s' ∧ allowed label s) labels s s' := by
  induction run with
  | nil s => exact .nil s
  | cons h _ inductionHypothesis =>
    exact .cons ⟨h, all _ List.mem_cons_self _⟩
      (inductionHypothesis fun label member => all label (List.mem_cons_of_mem _ member))

/-- A property that holds at the start of a run holds all along it, or there is a first step that
loses it. -/
theorem until_lost {labels : List Λ} {s s' : σ} (holds : σ → Prop) (run : Run step labels s s')
    (start : holds s) :
    Run (fun label s s' => step label s s' ∧ holds s') labels s s' ∨
      ∃ front label back t t', labels = front ++ label :: back ∧
        Run (fun label s s' => step label s s' ∧ holds s') front s t ∧ holds t ∧ step label t t' ∧
        ¬ holds t' ∧ Run step back t' s' := by
  induction run with
  | nil s => exact Or.inl (.nil s)
  | @cons label labels s t s' h rest inductionHypothesis =>
    by_cases next : holds t
    · obtain all | ⟨front, lost, back, u, u', split, before, kept, after⟩ := inductionHypothesis next
      · exact Or.inl (.cons ⟨h, next⟩ all)
      · exact Or.inr ⟨label :: front, lost, back, u, u', by rw [split]; rfl, .cons ⟨h, next⟩ before, kept, after⟩
    · exact Or.inr ⟨[], label, labels, s, t, rfl, .nil s, start, h, next, rest⟩

/-- A run of a relation is a run of a weaker one. -/
theorem weaken {step' : Λ → σ → σ → Prop} {labels : List Λ} {s s' : σ} (run : Run step labels s s')
    (weaker : ∀ label s s', step label s s' → step' label s s') : Run step' labels s s' := by
  induction run with
  | nil s => exact .nil s
  | cons h _ inductionHypothesis => exact .cons (weaker _ _ _ h) inductionHypothesis

/-- What every step preserves, a run preserves. -/
theorem invariant (inv : σ → Prop) (preserved : ∀ label s s', step label s s' → inv s → inv s')
    {labels : List Λ} {s s' : σ} (run : Run step labels s s') (start : inv s) : inv s' := by
  induction run with
  | nil => exact start
  | cons h _ inductionHypothesis => exact inductionHypothesis (preserved _ _ _ h start)

/-- What steps do in states that satisfy an invariant, all steps of a run do. -/
theorem strengthen {step' : Λ → σ → σ → Prop} (inv : σ → Prop)
    (each : ∀ label s s', step label s s' → inv s → step' label s s' ∧ inv s')
    {labels : List Λ} {s s' : σ} (run : Run step labels s s') (start : inv s) : Run step' labels s s' ∧ inv s' := by
  induction run with
  | nil s => exact ⟨.nil s, start⟩
  | cons h _ inductionHypothesis =>
    obtain ⟨first, next⟩ := each _ _ _ h start
    obtain ⟨rest, last⟩ := inductionHypothesis next
    exact ⟨.cons first rest, last⟩

/-- What every step with an allowed label preserves, a run of allowed labels preserves. -/
theorem invariant_of_allowed (inv : σ → Prop) (allowed : Λ → Prop)
    (preserved : ∀ label s s', allowed label → step label s s' → inv s → inv s')
    {labels : List Λ} {s s' : σ} (run : Run step labels s s') (all : ∀ label ∈ labels, allowed label)
    (start : inv s) : inv s' := by
  induction run with
  | nil => exact start
  | cons h _ inductionHypothesis =>
    exact inductionHypothesis (fun label member => all label (List.mem_cons_of_mem _ member))
      (preserved _ _ _ (all _ List.mem_cons_self) h start)

end Run

/-! ## Executing labels -/

/-- The state after a list of steps of a system in which a label has at most one. -/
def exec (next : Λ → σ → Option σ) : List Λ → σ → Option σ
  | [], s => some s
  | label :: labels, s => (next label s).bind (exec next labels)

theorem run_exec {next : Λ → σ → Option σ} (does : ∀ label s s', next label s = some s' → step label s s')
    {labels : List Λ} {s s' : σ} (returns : exec next labels s = some s') : Run step labels s s' := by
  induction labels generalizing s with
  | nil => exact Option.some.inj returns ▸ .nil s
  | cons label labels inductionHypothesis =>
    obtain ⟨middle, taken, rest⟩ := Option.bind_eq_some_iff.mp returns
    exact .cons (does _ _ _ taken) (inductionHypothesis rest)

end Transition
