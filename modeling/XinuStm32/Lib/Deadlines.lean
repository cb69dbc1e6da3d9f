import XinuStm32.Lib.Agenda

/-!
# Deadlines

The keys of an agenda alone: the deadline of an entry is the sum of the keys up to and including its own. Entries
without a negative key are scheduled for their deadlines, and the other way around.
-/

namespace Agenda

variable {α : Type*} {key due : α → Int} {now : Int} {p : α} {l : List α}

/-- The entries in order, each with its deadline. -/
def deadlines (key : α → Int) (now : Int) : List α → List (α × Int)
  | [] => []
  | p :: rest => (p, now + key p) :: deadlines key (now + key p) rest

theorem map_fst_deadlines (key : α → Int) (now : Int) (l : List α) : (deadlines key now l).map Prod.fst = l := by
  induction l generalizing now with
  | nil => rfl
  | cons p rest inductionHypothesis => rw [deadlines, List.map_cons, inductionHypothesis]

theorem Scheduled.deadlines_eq (scheduled : Scheduled key due now l) :
    deadlines key now l = l.map fun p => (p, due p) := by
  induction l generalizing now with
  | nil => rfl
  | cons p rest inductionHypothesis =>
    obtain ⟨-, first, later⟩ := scheduled
    rw [deadlines, List.map_cons, ← first, inductionHypothesis later]

theorem Scheduled.nonnegative (scheduled : Scheduled key due now l) (member : p ∈ l) : 0 ≤ key p := by
  induction l generalizing now with
  | nil => cases member
  | cons q rest inductionHypothesis =>
    obtain ⟨nonnegative, -, later⟩ := scheduled
    cases List.mem_cons.mp member with
    | inl here => exact here ▸ nonnegative
    | inr behind => exact inductionHypothesis later behind

/-- Entries that occur once can be given their deadlines. -/
theorem exists_scheduled (distinct : l.Nodup) (nonnegative : ∀ p ∈ l, 0 ≤ key p) (now : Int) :
    ∃ due, Scheduled key due now l := by
  classical
  induction l generalizing now with
  | nil => exact ⟨key, trivial⟩
  | cons p rest inductionHypothesis =>
    obtain ⟨absent, distinct'⟩ := List.nodup_cons.mp distinct
    obtain ⟨due, later⟩ := inductionHypothesis distinct'
      (fun q member => nonnegative q (List.mem_cons_of_mem p member)) (now + key p)
    refine ⟨Function.update due p (now + key p), nonnegative p List.mem_cons_self, Function.update_self _ _ _, ?_⟩
    rw [Function.update_self]
    apply later.congr (fun _ _ => rfl)
    intro q member
    exact Function.update_of_ne (fun same : q = p => absent (same ▸ member)) _ _

/-- Every entry is due by the time the last one is. -/
theorem Scheduled.le_finish (scheduled : Scheduled key due now l) (member : p ∈ l) : due p ≤ finish due now l := by
  induction l generalizing now with
  | nil => cases member
  | cons q rest inductionHypothesis =>
    obtain ⟨-, -, later⟩ := scheduled
    cases List.mem_cons.mp member with
    | inl here => exact here ▸ later.now_le_finish
    | inr behind => exact inductionHypothesis later behind

end Agenda
