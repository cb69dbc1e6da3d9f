import Mathlib

/-!
# Merging sequences

One sequence made of the items of several, each kept in its order. The last item of a merge is the last one of the
sequence it comes from. Beside it, how a count over the sequences changes with one of them.
-/

namespace Merge

variable {ι α β : Type*}

section merges

variable [DecidableEq ι]

/-- The whole is a merge of the parts. -/
inductive Merges : (ι → List α) → List α → Prop where
  | nil : Merges (fun _ => []) []
  | snoc {parts : ι → List α} {whole : List α} (i : ι) (item : α) :
      Merges parts whole → Merges (Function.update parts i (parts i ++ [item])) (whole ++ [item])

namespace Merges

variable {parts : ι → List α} {whole front back : List α}

/-- A merge without its last item is a merge of parts of which one has lost its last item. -/
theorem init {item : α} (merges : Merges parts (whole ++ [item])) :
    ∃ parts', (∀ i, parts' i <+: parts i) ∧ Merges parts' whole := by
  generalize all : whole ++ [item] = items at merges
  cases merges with
  | nil => simp at all
  | @snoc parts' whole' i last before =>
    obtain ⟨rfl, -⟩ := List.append_inj' all rfl
    refine ⟨parts', fun j => ?_, before⟩
    by_cases same : j = i
    · rw [same, Function.update_self]
      exact List.prefix_append _ _
    · rw [Function.update_of_ne same]

/-- The front of a merge is a merge of fronts. -/
theorem take (merges : Merges parts (front ++ back)) :
    ∃ parts', (∀ i, parts' i <+: parts i) ∧ Merges parts' front := by
  induction back using List.reverseRecOn generalizing parts with
  | nil => exact ⟨parts, fun _ => List.prefix_rfl, by rwa [List.append_nil] at merges⟩
  | append_singleton back item inductionHypothesis =>
    rw [← List.append_assoc] at merges
    obtain ⟨shorter, before, rest⟩ := merges.init
    obtain ⟨parts', within, taken⟩ := inductionHypothesis rest
    exact ⟨parts', fun i => (within i).trans (before i), taken⟩

end Merges

end merges

/-! ## Counting -/

/-- How many of the indices have a value with a property. -/
def count (indices : Finset ι) (values : ι → β) (P : β → Prop) [DecidablePred P] : Nat :=
  (indices.filter fun i => P (values i)).card

variable {indices : Finset ι} {values : ι → β} {P : β → Prop} [DecidablePred P]

/-- A change of one value takes its property from the count and puts the new one in. -/
theorem count_update (values : ι → β) [DecidableEq ι] {i : ι} (member : i ∈ indices) (value : β) :
    count indices (Function.update values i value) P + (if P (values i) then 1 else 0) =
      count indices values P + (if P value then 1 else 0) := by
  have others : ∑ j ∈ indices.erase i, (if P (Function.update values i value j) then 1 else 0) =
      ∑ j ∈ indices.erase i, (if P (values j) then 1 else 0) := by
    refine Finset.sum_congr rfl fun j other => ?_
    rw [Function.update_of_ne (Finset.ne_of_mem_erase other)]
  simp only [count, Finset.card_filter]
  rw [← Finset.add_sum_erase _ _ member, ← Finset.add_sum_erase _ _ member, others, Function.update_self]
  omega

theorem count_pos {i : ι} (member : i ∈ indices) (has : P (values i)) : 0 < count indices values P :=
  Finset.card_pos.mpr ⟨i, Finset.mem_filter.mpr ⟨member, has⟩⟩

theorem count_eq_zero (none : ∀ i ∈ indices, ¬ P (values i)) : count indices values P = 0 :=
  Finset.card_eq_zero.mpr (Finset.filter_eq_empty_iff.mpr fun i member => none i member)

/-- Two properties that exclude each other. -/
theorem count_add_le [DecidableEq ι] {Q : β → Prop} [DecidablePred Q] (apart : ∀ value, P value → ¬ Q value) :
    count indices values P + count indices values Q ≤ indices.card := by
  rw [count, count, ← Finset.card_union_of_disjoint]
  · exact Finset.card_le_card (Finset.union_subset (Finset.filter_subset _ _) (Finset.filter_subset _ _))
  · exact Finset.disjoint_filter.mpr fun i _ has => apart _ has

end Merge
