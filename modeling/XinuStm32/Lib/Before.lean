import Mathlib

/-!
# Order in a waiting line

`Before p q l` says that `p` stands ahead of `q` in the line `l`. Appending, dropping from the front,
taking someone out and letting someone in keep those who stay in order.
-/

namespace Line

variable {α : Type*} {p q r : α} {l front back : List α}

def Before (p q : α) (l : List α) : Prop := [p, q].Sublist l

theorem Before.mem_right (before : Before p q l) : q ∈ l :=
  before.subset (List.mem_cons_of_mem p List.mem_cons_self)

/-- Whoever comes last stands behind everyone else. -/
theorem before_concat (member : p ∈ l) : Before p q (l ++ [q]) :=
  (List.singleton_sublist.mpr member).append (List.Sublist.refl [q])

theorem Before.mono {l' : List α} (before : Before p q l) (sublist : l.Sublist l') : Before p q l' :=
  before.trans sublist

theorem before_append (first : p ∈ front) (second : q ∈ back) : Before p q (front ++ back) :=
  (List.singleton_sublist.mpr first).append (List.singleton_sublist.mpr second)

/-- Letting someone in keeps the others in order. -/
theorem Before.insert (before : Before p q (front ++ back)) : Before p q (front ++ r :: back) :=
  before.mono ((List.Sublist.refl front).append (List.sublist_cons_self r back))

/-- As long as one stays in the line, everyone behind stays too. -/
theorem Before.drop {n : Nat} (before : Before p q l) (distinct : l.Nodup) (stays : p ∈ l.drop n) :
    Before p q (l.drop n) := by
  induction n generalizing l with
  | zero => exact before
  | succ n inductionHypothesis =>
    cases l with
    | nil => cases stays
    | cons x l =>
      rw [List.nodup_cons] at distinct
      have other : p ≠ x := fun same => distinct.1 (same ▸ List.mem_of_mem_drop stays)
      refine inductionHypothesis ?_ distinct.2 stays
      cases before with
      | cons _ rest => exact rest
      | cons_cons _ _ => exact absurd rfl other

theorem Before.erase [DecidableEq α] (before : Before p q l) (left : r ≠ p) (right : r ≠ q) :
    Before p q (l.erase r) := by
  have taken := List.Sublist.erase r before
  rwa [List.erase_of_not_mem (by simp [left, right])] at taken

/-- Whoever stands behind someone is not the first. -/
theorem Before.ne_head {x : α} (before : Before p q (x :: l)) (distinct : (x :: l).Nodup) : q ≠ x := by
  rintro rfl
  rw [List.nodup_cons] at distinct
  cases before with
  | cons _ rest => exact distinct.1 (rest.subset (List.mem_cons_of_mem p List.mem_cons_self))
  | cons_cons _ rest => exact distinct.1 (List.singleton_sublist.mp rest)

end Line
