import Mathlib
import XinuStm32.Lib.Before

/-!
# Lines in order of rank

A line is descending when no one stands behind someone of lower rank. A newcomer goes behind everyone
of at least its own rank, which keeps the line descending and puts the newcomer behind its equals.
-/

namespace Line

variable {α κ : Type*} [LinearOrder κ] {rank rank' : α → κ} {p q : α} {l : List α} {c : κ}

def Descending (rank : α → κ) (l : List α) : Prop := l.Pairwise fun x y => rank y ≤ rank x

theorem Descending.congr (descending : Descending rank l) (same : ∀ x ∈ l, rank' x = rank x) :
    Descending rank' l :=
  List.Pairwise.imp_of_mem
    (fun first second ordered => by rw [same _ first, same _ second]; exact ordered) descending

theorem Descending.sublist {l' : List α} (descending : Descending rank l) (sublist : l'.Sublist l) :
    Descending rank l' :=
  List.Pairwise.sublist sublist descending

/-- No one ranks above the first. -/
theorem Descending.le_head (descending : Descending rank (p :: l)) (member : q ∈ p :: l) :
    rank q ≤ rank p := by
  obtain rfl | member := List.mem_cons.mp member
  · exact le_refl _
  · exact List.rel_of_pairwise_cons descending member

/-- Everyone of at least the newcomer's rank stands ahead of its place. -/
theorem Descending.mem_takeWhile (descending : Descending rank l) (member : q ∈ l) (high : c ≤ rank q) :
    q ∈ l.takeWhile (fun x => decide (c ≤ rank x)) := by
  induction l with
  | nil => cases member
  | cons x l inductionHypothesis =>
    have first : c ≤ rank x := le_trans high (descending.le_head member)
    rw [List.takeWhile_cons_of_pos (by simpa using first)]
    obtain rfl | member := List.mem_cons.mp member
    · exact List.mem_cons_self
    · exact List.mem_cons_of_mem x (inductionHypothesis (List.Pairwise.of_cons descending) member)

/-- Everyone behind the newcomer's place has a lower rank. -/
theorem Descending.lt_of_mem_dropWhile (descending : Descending rank l)
    (member : q ∈ l.dropWhile (fun x => decide (c ≤ rank x))) : rank q < c := by
  induction l with
  | nil => cases member
  | cons x l inductionHypothesis =>
    by_cases high : c ≤ rank x
    · rw [List.dropWhile_cons_of_pos (by simpa using high)] at member
      exact inductionHypothesis (List.Pairwise.of_cons descending) member
    · rw [List.dropWhile_cons_of_neg (by simpa using high)] at member
      exact lt_of_le_of_lt (descending.le_head member) (not_le.mp high)

/-- The newcomer's place depends only on the ranks of those in the line. -/
theorem place_congr (same : ∀ x ∈ l, rank' x = rank x) :
    l.takeWhile (fun x => decide (c ≤ rank' x)) = l.takeWhile (fun x => decide (c ≤ rank x)) ∧
      l.dropWhile (fun x => decide (c ≤ rank' x)) = l.dropWhile (fun x => decide (c ≤ rank x)) := by
  induction l with
  | nil => exact ⟨rfl, rfl⟩
  | cons x l inductionHypothesis =>
    have first := same x List.mem_cons_self
    have rest := inductionHypothesis fun y member => same y (List.mem_cons_of_mem x member)
    simp only [List.takeWhile_cons, List.dropWhile_cons, first, rest.1, rest.2, and_self]

theorem Descending.insert (descending : Descending rank l) (newcomer : rank' p = c)
    (same : ∀ x ∈ l, rank' x = rank x) :
    Descending rank' (l.takeWhile (fun x => decide (c ≤ rank x)) ++
      p :: l.dropWhile (fun x => decide (c ≤ rank x))) := by
  have all := descending.congr same
  refine List.pairwise_append.mpr ⟨all.sublist (List.takeWhile_sublist _),
    List.pairwise_cons.mpr ⟨fun y behind => ?_, all.sublist (List.dropWhile_sublist _)⟩,
    fun x ahead y behind => ?_⟩
  · rw [newcomer, same y (List.dropWhile_subset _ behind)]
    exact le_of_lt (descending.lt_of_mem_dropWhile behind)
  · have high : c ≤ rank x := by simpa using List.mem_takeWhile_imp ahead
    rw [same x (List.takeWhile_subset _ ahead)]
    obtain rfl | behind := List.mem_cons.mp behind
    · rw [newcomer]
      exact high
    · rw [same y (List.dropWhile_subset _ behind)]
      exact le_trans (le_of_lt (descending.lt_of_mem_dropWhile behind)) high

/-- The newcomer stands behind everyone of at least its own rank. -/
theorem Descending.before_newcomer (descending : Descending rank l) (member : q ∈ l) (high : c ≤ rank q) :
    Before q p (l.takeWhile (fun x => decide (c ≤ rank x)) ++
      p :: l.dropWhile (fun x => decide (c ≤ rank x))) :=
  before_append (descending.mem_takeWhile member high) List.mem_cons_self

end Line
