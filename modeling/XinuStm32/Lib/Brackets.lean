import Mathlib

/-!
# Traces with brackets

What an event of a trace begins, a later one has to end. A trace is closed when all that it begins is ended within it,
and quiet when its guarded events come only where nothing is open.
-/

namespace Brackets

variable {α : Type*} {ends : α → α → Prop} {guarded : α → Prop} {event start stop : α} {trace left right : List α}

/-- Every start is followed by its stop. -/
def Closed (ends : α → α → Prop) (trace : List α) : Prop :=
  ∀ before start after, trace = before ++ start :: after → ∀ stop, ends start stop → stop ∈ after

/-- A guarded event comes only when all that was begun has ended. -/
def Quiet (ends : α → α → Prop) (guarded : α → Prop) (trace : List α) : Prop :=
  ∀ before event after, trace = before ++ event :: after → guarded event → Closed ends before

theorem closed_cons_iff :
    Closed ends (event :: trace) ↔ (∀ stop, ends event stop → stop ∈ trace) ∧ Closed ends trace := by
  constructor
  · intro closed
    refine ⟨closed [] event trace rfl, ?_⟩
    intro before start after split
    exact closed (event :: before) start after (by rw [split, List.cons_append])
  · rintro ⟨first, rest⟩ before start after split stop ended
    cases before with
    | nil =>
      obtain ⟨rfl, rfl⟩ := List.cons.inj split
      exact first stop ended
    | cons event' before => exact rest before start after (List.cons.inj split).2 stop ended

/-- What begins nothing is closed. -/
theorem closed_of_forall (calm : ∀ event ∈ trace, ∀ stop, ¬ends event stop) : Closed ends trace := by
  rintro before start after rfl stop ended
  exact absurd ended (calm start (by simp) stop)

theorem closed_nil : Closed ends [] := closed_of_forall (by simp)

theorem Closed.append (closed : Closed ends left) (closed' : Closed ends right) : Closed ends (left ++ right) := by
  induction left with
  | nil => exact closed'
  | cons event left inductionHypothesis =>
    obtain ⟨first, rest⟩ := closed_cons_iff.mp closed
    apply closed_cons_iff.mpr
    refine ⟨?_, inductionHypothesis rest⟩
    exact fun stop ended => List.mem_append_left right (first stop ended)

theorem quiet_nil : Quiet ends guarded [] := by
  intro before event after split
  simp at split

/-- What is quiet stays so behind a closed trace. -/
theorem Quiet.append (quiet : Quiet ends guarded left) (closed : Closed ends left) (quiet' : Quiet ends guarded right) :
    Quiet ends guarded (left ++ right) := by
  intro before event after split guard
  obtain ⟨between, rfl, rest⟩ | ⟨between, rfl, rest⟩ := List.append_eq_append_iff.mp split
  · exact closed.append (quiet' between event after rest guard)
  · cases between with
    | nil =>
      rw [List.append_nil] at closed
      exact closed
    | cons event' between =>
      obtain ⟨rfl, -⟩ := List.cons.inj rest
      exact quiet before event between rfl guard

/-- Nothing is open where nothing is begun. -/
theorem quiet_of_forall (calm : ∀ event ∈ trace, ∀ stop, ¬ends event stop) : Quiet ends guarded trace := by
  rintro before event after rfl _
  exact closed_of_forall fun start mem => calm start (List.mem_append_left _ mem)

/-- Without guarded events behind it, a quiet trace may begin what it likes. -/
theorem quiet_append_of_forall (quiet : Quiet ends guarded left) (none : ∀ event ∈ right, ¬guarded event) :
    Quiet ends guarded (left ++ right) := by
  intro before event after split guard
  obtain ⟨between, rfl, rest⟩ | ⟨between, rfl, rest⟩ := List.append_eq_append_iff.mp split
  · exact absurd guard (none event (by rw [rest]; simp))
  · cases between with
    | nil =>
      rw [List.nil_append] at rest
      exact absurd guard (none event (by rw [← rest]; simp))
    | cons event' between =>
      obtain ⟨rfl, -⟩ := List.cons.inj rest
      exact quiet before event between rfl guard

end Brackets
