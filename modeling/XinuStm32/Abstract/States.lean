import XinuStm32.Abstract.Effects

/-!
# The states of a process

A move changes the state of at most one process. `Changes` is the diagram of these changes: which
move takes a process from which state to which. What a state survives is read off the diagram.
-/

namespace XinuStm32

open View

namespace Move

/-- The move takes process `p` from one state to another. -/
inductive Changes (p : Int) : Move → PrState → PrState → Prop where
  | spawn : Changes p (.spawn p) .free .susp
  | ready {old : PrState} : old = .susp ∨ old = .recv → Changes p (.ready p) old .ready
  | preempt : Changes p .preempt .curr .ready
  | dispatch : Changes p (.dispatch p) .ready .curr
  | release {sem : Int} : Changes p (.release sem) .wait .ready
  | drain {sem : Int} : Changes p (.drain sem) .wait .ready
  | block {sem : Int} : Changes p (.block sem) .curr .wait
  | abandon : Changes p (.abandon p) .wait .free
  | sleep {new : PrState} {delay : Int} :
      new = .sleep ∨ new = .rectim → Changes p (.sleep new delay) .curr new
  | wake {old : PrState} : old = .sleep ∨ old = .rectim → Changes p .wake old .ready
  | withdrawReady : Changes p (.withdraw p .ready) .rectim .ready
  | withdrawFree {old : PrState} :
      old = .sleep ∨ old = .rectim → Changes p (.withdraw p .free) old .free
  | leaveCurr {new : PrState} :
      new = .recv ∨ new = .susp ∨ new = .free → Changes p (.leave p new) .curr new
  | leaveIdle {old : PrState} : old = .susp ∨ old = .recv → Changes p (.leave p .free) old .free
  | take {new : PrState} : new = .susp ∨ new = .free → Changes p (.take p new) .ready new

/-- Every move leaves the state of a process as it is or changes it as the diagram says. -/
theorem Step.changes {move : Move} {a a' : View} (h : Step move a a') (inv : a.Inv) (p : Int) :
    a'.state p = a.state p ∨ Changes p move (a.state p) (a'.state p) := by
  cases h with
  | quiet quiet => exact Or.inl (quiet.state p)
  | accept | post | pass | setCount | close | tick => exact Or.inl rfl
  | chprio =>
    left
    rw [state_setProc]
    split
    · next same => rw [same]; rfl
    · rfl
  | @spawn _ p' _ _ free new =>
    rw [state_enroll]
    split
    · next same => subst same; rw [free, new]; exact Or.inr .spawn
    · exact Or.inl rfl
  | @ready _ p' _ idle =>
    rw [state_makeReady]
    split
    · next same => subst same; exact Or.inr (.ready idle)
    · exact Or.inl rfl
  | preempt runs =>
    rw [state_enterReady]
    split
    · next same => subst same; rw [runs]; exact Or.inr .preempt
    · exact Or.inl rfl
  | @dispatch _ p' _ _ front =>
    have ready := (inv.ready_of_mem (front ▸ List.mem_cons_self : p' ∈ a.members a.readylist)).2
    rw [state_run]
    split
    · next same => subst same; rw [ready]; exact Or.inr .dispatch
    · exact Or.inl rfl
  | @release _ sem p' _ valid _ front =>
    have waiting := (inv.waiting_of_mem valid (front ▸ List.mem_cons_self)).2.1
    simp only [state_makeReady, state_out, state_addCount]
    split
    · next same => subst same; rw [waiting]; exact Or.inr .release
    · exact Or.inl rfl
  | @drain _ sem p' _ valid front =>
    have waiting := (inv.waiting_of_mem valid (front ▸ List.mem_cons_self)).2.1
    simp only [state_makeReady, state_out]
    split
    · next same => subst same; rw [waiting]; exact Or.inr .drain
    · exact Or.inl rfl
  | block _ _ runs =>
    rw [state_block, state_addCount]
    split
    · next same =>
      have runs : a.state p = .curr := same ▸ runs
      rw [runs]
      exact Or.inr .block
    · exact Or.inl rfl
  | @abandon _ p' _ waiting =>
    simp only [state_settle, state_out, state_addCount]
    split
    · next same => subst same; rw [waiting]; exact Or.inr .abandon
    · exact Or.inl rfl
  | sleep new runs =>
    rw [state_sleep]
    split
    · next same =>
      subst same
      rw [runs]
      exact Or.inr (.sleep (by rcases new with ⟨new, -⟩ | ⟨new, -⟩ <;> simp [new]))
    · exact Or.inl rfl
  | @wake _ p' _ front =>
    have asleep := (inv.asleep_of_mem (front ▸ List.mem_cons_self : p' ∈ a.members a.sleepq)).2
    simp only [state_makeReady, state_out]
    split
    · next same => subst same; exact Or.inr (.wake asleep)
    · exact Or.inl rfl
  | @withdrawReady _ p' _ _ timed =>
    simp only [state_makeReady, state_out, state_bump]
    split
    · next same => subst same; rw [timed]; exact Or.inr .withdrawReady
    · exact Or.inl rfl
  | @withdrawFree _ p' front behind split =>
    have asleep := (inv.asleep_of_mem (by simp [split] : p' ∈ a.members a.sleepq)).2
    simp only [state_settle, state_out, state_bump]
    split
    · next same => subst same; exact Or.inr (.withdrawFree asleep)
    · exact Or.inl rfl
  | leaveCurr runs _ new =>
    simp only [state_pend, state_settle]
    split
    · next same => subst same; rw [runs]; exact Or.inr (.leaveCurr new)
    · exact Or.inl rfl
  | @leaveIdle _ p' _ idle =>
    rw [state_settle]
    split
    · next same => subst same; exact Or.inr (.leaveIdle idle)
    · exact Or.inl rfl
  | @take _ p' _ _ member new =>
    have ready := (inv.ready_of_mem member).2
    simp only [state_settle, state_out]
    split
    · next same => subst same; rw [ready]; exact Or.inr (.take new)
    · exact Or.inl rfl

/-- Only a dispatch changes which process is the current one. -/
theorem Step.currpid {move : Move} {a a' : View} (h : Step move a a') (other : ∀ p, move ≠ .dispatch p) :
    a'.currpid = a.currpid := by
  cases h with
  | quiet quiet => rw [quiet.rest]
  | dispatch => exact absurd rfl (other _)
  | @withdrawReady _ p _ behind => cases behind <;> rfl
  | @withdrawFree _ p _ behind => cases behind <;> rfl
  | @take _ p state _ _ new => rcases new with rfl | rfl <;> rfl
  | @leaveCurr _ state _ _ new => rcases new with rfl | rfl | rfl <;> rfl
  | _ => rfl

end Move

/-- What no allowed move changes about the state of a process, a run of them leaves as it is. -/
theorem Moves.keeps {allowed : Move → Prop} {p : Int} (holds : PrState → Prop)
    (kept : ∀ move old new, allowed move → move.Changes p old new → holds old → holds new)
    {moves : List Move} {a a' : View} (run : Moves moves a a') (inv : a.Inv)
    (all : ∀ move ∈ moves, allowed move) (start : holds (a.state p)) : holds (a'.state p) := by
  refine (Transition.Run.invariant_of_allowed (fun a => a.Inv ∧ holds (a.state p)) allowed ?_ run all
    ⟨inv, start⟩).2
  intro move b b' permitted h both
  refine ⟨both.1.step h, ?_⟩
  cases h.changes both.1 p with
  | inl same => exact same ▸ both.2
  | inr changes => exact kept move _ _ permitted changes both.2

end XinuStm32
