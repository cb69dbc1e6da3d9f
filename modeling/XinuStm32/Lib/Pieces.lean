import Mathlib

/-!
# Lists cut into pieces

A list of lines is read from the front in pieces that stay within one line each.
-/

namespace Pieces

variable {α : Type*} {lines pieces left : List (List α)} {piece rest : List α}

/-- The pieces, in order, are cut off the front of the lines, none of them across the end of a line;
`left` is what is left of the lines. -/
inductive Cuts : List (List α) → List (List α) → List (List α) → Prop where
  | nothing (lines : List (List α)) : Cuts lines [] lines
  | part {piece rest : List α} {lines pieces left : List (List α)} (some : rest ≠ []) :
      Cuts (rest :: lines) pieces left → Cuts ((piece ++ rest) :: lines) (piece :: pieces) left
  | whole {piece : List α} {lines pieces left : List (List α)} :
      Cuts lines pieces left → Cuts (piece :: lines) (piece :: pieces) left

namespace Cuts

/-- Nothing is lost between the pieces and what is left. -/
theorem flatten (cuts : Cuts lines pieces left) : pieces.flatten ++ left.flatten = lines.flatten := by
  induction cuts with
  | nothing lines => rfl
  | part some _ inductionHypothesis =>
    rw [List.flatten_cons, List.flatten_cons, List.append_assoc, inductionHypothesis, List.flatten_cons,
      List.append_assoc]
  | whole _ inductionHypothesis => rw [List.flatten_cons, List.flatten_cons, List.append_assoc, inductionHypothesis]

/-- New lines join what is left. -/
theorem add_lines (cuts : Cuts lines pieces left) (more : List (List α)) :
    Cuts (lines ++ more) pieces (left ++ more) := by
  induction cuts with
  | nothing lines => exact .nothing _
  | part some _ inductionHypothesis => exact .part some inductionHypothesis
  | whole _ inductionHypothesis => exact .whole inductionHypothesis

/-- The next piece ends before its line does. -/
theorem snoc_part (cuts : Cuts lines pieces ((piece ++ rest) :: left)) (some : rest ≠ []) :
    Cuts lines (pieces ++ [piece]) (rest :: left) := by
  generalize split : (piece ++ rest) :: left = whole at cuts
  induction cuts with
  | nothing lines =>
    rw [← split]
    exact .part some (.nothing _)
  | part inside _ inductionHypothesis => exact .part inside (inductionHypothesis split)
  | whole _ inductionHypothesis => exact .whole (inductionHypothesis split)

/-- The next piece ends with its line. -/
theorem snoc_whole (cuts : Cuts lines pieces (piece :: left)) : Cuts lines (pieces ++ [piece]) left := by
  generalize split : piece :: left = whole at cuts
  induction cuts with
  | nothing lines =>
    rw [← split]
    exact .whole (.nothing _)
  | part inside _ inductionHypothesis => exact .part inside (inductionHypothesis split)
  | whole _ inductionHypothesis => exact .whole (inductionHypothesis split)

/-- What is left at the end was part of the lines. -/
theorem left_of_lines {P : List α → Prop} (suffix : ∀ piece rest, rest ≠ [] → P (piece ++ rest) → P rest)
    (cuts : Cuts lines pieces left) (all : ∀ line ∈ lines, P line) : ∀ line ∈ left, P line := by
  induction cuts with
  | nothing lines => exact all
  | part some _ inductionHypothesis =>
    apply inductionHypothesis
    intro line member
    cases member with
    | head => exact suffix _ _ some (all _ List.mem_cons_self)
    | tail _ member => exact all line (List.mem_cons_of_mem _ member)
  | whole _ inductionHypothesis =>
    exact inductionHypothesis fun line member => all line (List.mem_cons_of_mem _ member)

end Cuts

/-- Reading on in a line that ends at its only mark: the next item is the mark, or the line goes on. -/
theorem next_of_marked {mark item : α} {front body tail : List α} (notFront : mark ∉ front) (notBody : mark ∉ body)
    (same : front ++ item :: rest = body ++ mark :: tail) :
    (item = mark ∧ front = body ∧ rest = tail) ∨
      (item ≠ mark ∧ ∃ more, body = front ++ item :: more ∧ rest = more ++ mark :: tail) := by
  induction front generalizing body with
  | nil =>
    cases body with
    | nil =>
      obtain ⟨item, rest⟩ := List.cons.inj same
      exact Or.inl ⟨item, rfl, rest⟩
    | cons first body =>
      obtain ⟨item, rest⟩ := List.cons.inj same
      right
      refine ⟨?_, body, by rw [item]; rfl, rest⟩
      rw [item]
      rintro rfl
      exact notBody List.mem_cons_self
  | cons first front inductionHypothesis =>
    cases body with
    | nil =>
      have equal := (List.cons.inj same).1
      rw [equal] at notFront
      exact absurd List.mem_cons_self notFront
    | cons first' body =>
      obtain ⟨equal, same⟩ := List.cons.inj same
      rcases inductionHypothesis (fun member => notFront (List.mem_cons_of_mem _ member))
        (fun member => notBody (List.mem_cons_of_mem _ member)) same with ⟨item, front, rest⟩ |
          ⟨other, more, body, rest⟩
      · exact Or.inl ⟨item, by rw [equal, front], rest⟩
      · exact Or.inr ⟨other, more, by rw [equal, body]; rfl, rest⟩

end Pieces
