import XinuStm32.Abstract.Leader
import XinuStm32.Refinement.Mailbox

/-!
# The leader gets the processor

Nothing makes a process ready without asking for a context switch, and a switch never leaves the leader in the ready
list: while no switch is pending it runs or waits for something.
-/

namespace XinuStm32

open View

/-- If the process is ready, a context switch is pending. -/
def View.Prompt (p : Int) (a : View) : Prop := a.state p = .ready → a.pendsv = true

variable {top : Int} {leader : Option Int} {move : Move} {moves : List Move} {a a' : View} {p q : Int}

/-! ## Moves outside the switch -/

/-- A process is made ready together with a request for a switch, and only a switch answers the request. -/
theorem Move.Step.prompt (h : Move.Step move a a') (other : ¬ move.Switching) (prompt : Prompt p a) : Prompt p a' := by
  have moved {r : Int} {state : PrState} (new : state ≠ .ready)
      (ready : (if p = r then state else a.state p) = .ready) : a.state p = .ready := by
    split at ready
    · exact absurd ready new
    · exact ready
  intro ready
  cases h with
  | quiet quiet => exact quiet.pendsv (prompt ((quiet.state p).symm.trans ready))
  | accept => exact absurd (Or.inl rfl) other
  | preempt => exact absurd (Or.inr (Or.inl rfl)) other
  | dispatch => exact absurd (Or.inr (Or.inr ⟨_, rfl⟩)) other
  | ready | release | drain | block | sleep | wake | withdrawReady | leaveCurr => rfl
  | post | pass | setCount | close | tick => exact prompt ready
  | @chprio _ q prio =>
    rw [state_setProc] at ready
    split at ready
    · next same => exact prompt (same ▸ ready)
    · exact prompt ready
  | @spawn _ q entry _ _ new =>
    rw [state_enroll] at ready
    exact prompt (moved (by simp [new]) ready)
  | abandon =>
    simp only [state_settle, state_out, state_addCount] at ready
    have pending := prompt (moved (by simp) ready)
    exact pending
  | @withdrawFree _ q front behind split =>
    simp only [state_settle, state_out, state_bump] at ready
    have pending := prompt (moved (by simp) ready)
    cases behind with
    | nil => exact pending
    | cons => exact pending
  | leaveIdle =>
    rw [state_settle] at ready
    exact prompt (moved (by simp) ready)
  | take _ _ new =>
    rw [state_settle] at ready
    obtain rfl | rfl := new
    · exact prompt (moved (by simp) ready)
    · exact prompt (moved (by simp) ready)

/-- A run of moves that respects the leader keeps it in front. -/
theorem View.Led.run (led : Led top leader a) (run : Moves moves a a') (inv : a.Inv)
    (below : ∀ move ∈ moves, ∀ b, move.Below top leader b) : Led top leader a' :=
  (Transition.Run.invariant_of_allowed (fun a => a.Inv ∧ Led top leader a) (fun move => ∀ b, move.Below top leader b)
    (fun _ _ _ allowed h both => ⟨both.1.step h, both.2.step h both.1 (allowed _)⟩) run below ⟨inv, led⟩).2

theorem Moves.prompt (run : Moves moves a a') (others : ∀ move ∈ moves, ¬ move.Switching) (prompt : Prompt p a) :
    Prompt p a' :=
  Transition.Run.invariant_of_allowed (Prompt p) (fun move => ¬ move.Switching)
    (fun _ _ _ other h prompt => h.prompt other prompt) run others prompt

/-! ## The switch -/

/-- The leader is dispatched before anyone else. -/
theorem View.Led.dispatched (led : Led top leader a) (inv : a.Inv) (leads : leader = some p) (pid : IsPid p)
    (run : Moves [.dispatch q, .quiet] a a') : a'.state p ≠ .ready ∧ (a.state p = .ready → q = p) := by
  cases run with
  | cons dispatch rest =>
    cases rest with
    | cons quiet rest =>
      cases rest
      have inv' := inv.step dispatch
      cases dispatch with
      | @dispatch _ q waiting stopped front =>
        have front : a.readyList = q :: waiting := front
        have next (ready : a.state p = .ready) : q = p := by
          obtain ⟨-, rest, first⟩ := led.first leads (inv.mem_readyList.mpr ⟨pid, ready⟩)
          exact (List.cons.inj (front.symm.trans first)).1
        refine ⟨fun ready => ?_, next⟩
        cases quiet with
        | quiet quiet =>
          -- the one that was taken runs, so it is not the leader, who was in the list all the time
          have ready := (quiet.state p).symm.trans ready
          change (a.run q).state p = .ready at ready
          rw [state_run] at ready
          split at ready
          · cases ready
          · next other => exact other (next ready).symm

/-- A switch does not leave the leader in the list, and does not take the processor from it. -/
theorem View.Led.switched (led : Led top leader a) (inv : a.Inv) (leads : leader = some p) (pid : IsPid p)
    (kind : SwitchMoves a moves) (run : Moves moves a a') :
    a'.state p ≠ .ready ∧ (a.currpid = p → a.state p = .curr → a'.currpid = p ∧ a'.state p = .curr) := by
  have accepted (b : View) (h : Move.Step .accept a b) :
      Led top leader b ∧ b.Inv ∧ b.state = a.state ∧ b.currpid = a.currpid := by
    refine ⟨led.step h inv ⟨by simp, by simp⟩, inv.step h, ?_⟩
    cases h
    exact ⟨rfl, rfl⟩
  cases kind with
  | stays runs highest =>
    cases run with
    | cons accept rest =>
      cases rest
      cases accept
      refine ⟨fun ready => ?_, fun current runs => ⟨current, runs⟩⟩
      -- the leader would be in front, with a key that is not below the priority of the current process
      have ready : a.state p = .ready := ready
      obtain ⟨high, rest, front⟩ := led.first leads (inv.mem_readyList.mpr ⟨pid, ready⟩)
      have passed := highest p rest front
      have other : leader ≠ some a.currpid := by
        intro same
        obtain rfl := Option.some.inj (leads.symm.trans same)
        cases runs.symm.trans ready
      have low := led.lower inv.currpid (by simp [runs]) other
      rw [high] at passed
      exact absurd passed (Int.lt_asymm low)
  | preempts q runs =>
    cases run with
    | @cons _ _ _ b _ accept rest =>
      cases rest with
      | @cons _ _ _ c _ preempt rest =>
        obtain ⟨led', inv', state, currpid⟩ := accepted b accept
        obtain ⟨stopped, next⟩ :=
          (led'.step preempt inv' ⟨by simp, by simp⟩).dispatched (inv'.step preempt) leads pid rest
        refine ⟨stopped, fun current _ => ?_⟩
        have ready : c.state p = .ready := by
          cases preempt
          rw [state_enterReady, currpid, if_pos current.symm]
        obtain rfl := next ready
        exact Moves.dispatched rest
  | dispatches q stopped =>
    cases run with
    | @cons _ _ _ b _ accept rest =>
      obtain ⟨led', inv', -⟩ := accepted b accept
      refine ⟨(led'.dispatched inv' leads pid rest).1, fun current runs => ?_⟩
      rw [current] at stopped
      exact absurd runs stopped

/-! ## Becoming the leader, and leaving -/

/-- A process that is created with the highest priority leads. -/
theorem View.Led.created (led : Led top none a) (h : Move.Step (.spawn p) a a') (inv : a.Inv)
    (priority : a'.prio p = top) : Led top (some p) a' := by
  have same : a'.readyList = a.readyList ∧ a'.queuetab.key = a.queuetab.key := by
    cases h
    exact ⟨rfl, rfl⟩
  have stopped : a'.state p = .susp := by
    cases h with
    | spawn _ _ new => rw [state_enroll, if_pos rfl, new]
  refine ⟨?_, fun {q} pid live other => ?_, ?_, fun {q} member _ => ?_⟩
  · rintro q ⟨⟩
    exact priority
  · have notCreated : Move.spawn p ≠ .spawn q := by
      rintro ⟨⟩
      exact other rfl
    rw [h.prio_eq (by simp) notCreated]
    exact led.lower pid (h.live inv live notCreated) (by simp)
  · rintro q ⟨⟩ member
    have ready := ((inv.step h).mem_readyList.mp member).2
    cases stopped.symm.trans ready
  · rw [same.1] at member
    rw [same.2]
    exact led.behind member (by simp)

/-- Once the leader is gone no one leads. -/
theorem View.Led.vacate (led : Led top (some p) a) (inv : a.Inv) (gone : a.state p = .free) : Led top none a := by
  refine ⟨by simp, fun {q} pid live _ => led.lower pid live ?_, by simp, fun {q} member _ => led.behind member ?_⟩
  · rintro ⟨⟩
    exact live gone
  · rintro ⟨⟩
    cases gone.symm.trans (inv.mem_readyList.mp member).2

/-! ## Steps of the system -/

section Steps

variable {s s' : System} {label : Label} {ret : Ret}

/-- The step gives no one but the leader a priority that is not lower, and leaves that of the leader alone. -/
def Label.Below (top : Int) (leader : Option Int) : Label → Prop
  | .call (.chprio p newprio) => leader ≠ some p ∧ newprio.toInt < top
  | .call (.create _ _ priority _ _) => priority.toInt < top
  | _ => True

theorem prprio_create {s : Kernel} (procaddr ssize : UInt32) (priority : Int16) (name : List UInt8)
    (args : List UInt32) (success : (create procaddr ssize priority name args s).1 ≠ SYSERR) :
    ((create procaddr ssize priority name args s).2.proctab
      (create procaddr ssize priority name args s).1).prprio = priority := by
  revert success
  simp only [create]
  generalize roundew (if ssize.toNat < MINSTK then MINSTK else ssize.toNat) = size
  split
  · simp
  · split
    · simp
    · intro _
      simp [fillEntry, restore, Kernel.setProc, Kernel.touch]

/-- The move that `create` makes. -/
theorem Good.create_step (good : Good s a) {procaddr ssize : UInt32} {priority : Int16} {name : List UInt8}
    {args : List UInt32} (h : s.step (.call (.create procaddr ssize priority name args)) = some (ret, s')) :
    ret = .value SYSERR ∧ Good s' a ∨
      ∃ p a', ret = .value p ∧ p ≠ SYSERR ∧ IsPid p ∧ a.state p = .free ∧ Move.Step (.spawn p) a a' ∧ Good s' a' ∧
        a'.prio p = priority.toInt := by
  obtain ⟨-, -, -, pc, returns, -⟩ := System.call_cases h
  simp only [execCall, Option.some.injEq, Prod.mk.injEq] at returns
  obtain ⟨rfl, kernel, -⟩ := returns
  rcases create_follows good.tracks procaddr ssize priority name args with
    ⟨failed, follows⟩ | ⟨p, found, pid, free, follows⟩
  · obtain ⟨a', run, good'⟩ := good.follow ⟨_, h⟩ (by simp) (by simp) (kernel ▸ follows)
    cases run
    exact Or.inl ⟨by rw [failed], good'⟩
  · obtain ⟨a', run, good'⟩ := good.follow ⟨_, h⟩ (by simp) (by simp [Label.Permits]) (kernel ▸ follows)
    have success : p ≠ SYSERR := by
      rintro rfl
      exact absurd pid (by decide)
    have priority := prprio_create procaddr ssize priority name args (found ▸ success)
    rw [found, kernel, good'.tracks.proctab] at priority
    cases run with
    | cons spawn rest =>
      cases rest
      exact Or.inr ⟨p, a', by rw [found], success, pid, free, spawn, good', congrArg Int16.toInt priority⟩

/-- A step that respects the leader keeps it in front, and does not leave it in the list without a switch to come. -/
theorem Good.led_step (good : Good s a) (led : Led top leader a)
    (alive : ∀ p, leader = some p → IsPid p ∧ a.state p ≠ .free ∧ Prompt p a) (h : s.step label = some (ret, s'))
    (below : label.Below top leader) :
    ∃ a', Good s' a' ∧ Led top leader a' ∧ ∀ p, leader = some p → Prompt p a' := by
  by_cases switches : ∃ psp, label = .switch psp
  · obtain ⟨psp, rfl⟩ := switches
    obtain ⟨moves, a', kind, run, good'⟩ := good.switch ⟨ret, h⟩
    refine ⟨a', good', led.run run good.inv ?_, fun p leads ready => ?_⟩
    · intro move member b
      refine ⟨?_, ?_⟩
      · rintro p prio rfl
        cases Label.chprio (kind.permitted psp _ member)
      · rintro p rfl
        obtain ⟨_, _, _, _, _, same⟩ := (kind.permitted psp _ member).origin
        cases same
    · exact absurd ready (led.switched good.inv leads (alive p leads).1 kind run).1
  have prompts {moves : List Move} {a' : View} (permits : ∀ move ∈ moves, label.Permits move) (run : Moves moves a a')
      (p : Int) (leads : leader = some p) : Prompt p a' :=
    Moves.prompt run (fun move member => Label.not_switching (permits move member) fun psp same => switches ⟨psp, same⟩)
      (alive p leads).2.2
  by_cases creates : ∃ procaddr ssize priority name args, label = .call (.create procaddr ssize priority name args)
  · obtain ⟨procaddr, ssize, priority, name, args, rfl⟩ := creates
    obtain ⟨-, good'⟩ | ⟨p, a', -, -, -, free, spawn, good', prio⟩ := good.create_step h
    · exact ⟨a, good', led, fun p leads => (alive p leads).2.2⟩
    · have other : leader ≠ some p := fun leads => (alive p leads).2.1 free
      refine ⟨a', good', led.step spawn good.inv ⟨by simp, ?_⟩,
        prompts (by simp [Label.Permits]) (.single spawn)⟩
      rintro q ⟨⟩
      exact ⟨other, prio ▸ below⟩
  · obtain ⟨moves, a', permits, run, good'⟩ := good.step ⟨ret, h⟩
    refine ⟨a', good', led.run run good.inv ?_, prompts permits run⟩
    intro move member b
    refine ⟨?_, ?_⟩
    · rintro p prio rfl
      have cause := Label.chprio (permits _ member)
      rw [cause] at below
      exact below
    · rintro p rfl
      exact absurd (permits _ member).origin creates

/-- Only a switch changes which process is the current one. -/
theorem Good.step_currpid (good : Good s a) (h : s.step label = some (ret, s'))
    (notSwitch : ∀ psp, label ≠ .switch psp) :
    s'.kernel.currpid = s.kernel.currpid := by
  obtain ⟨moves, a', permits, run, good'⟩ := good.step ⟨ret, h⟩
  rw [good'.tracks.currpid, good.tracks.currpid]
  refine Transition.Run.invariant_of_allowed (fun b => b.currpid = a.currpid) (fun move => ∀ p, move ≠ .dispatch p)
    (fun _ _ _ other h same => (h.currpid other).trans same) run (fun move member p same => ?_) rfl
  obtain ⟨psp, switches⟩ := Label.dispatches (same ▸ permits move member)
  exact notSwitch psp switches

/-- A tick makes no one stop who is not asleep or waiting for a semaphore. -/
theorem Good.tick_state (good : Good s a) {rx : Option UInt8} (h : s.step (.tick rx) = some (ret, s')) {state : PrState}
    (other : state ≠ .wait ∧ state ≠ .sleep ∧ state ≠ .rectim)
    (before : (s.kernel.proctab p).prstate = state) :
    (s'.kernel.proctab p).prstate = state := by
  refine good.keeps ⟨ret, h⟩ (· = state) (fun move old new permits changes here => ?_) before
  subst here
  obtain (rfl | ⟨sem, rfl | rfl⟩) | rfl | rfl := permits
  all_goals cases changes
  · exact absurd rfl other.1
  · next asleep =>
    obtain rfl | rfl := asleep
    · exact absurd rfl other.2.1
    · exact absurd rfl other.2.2

/-- The leader keeps the processor through a tick and a switch. -/
theorem Good.led_stays (good : Good s a) (led : Led top leader a) (leads : leader = some p) (pid : IsPid p)
    (h : s.step label = some (ret, s')) (passive : (∃ rx, label = .tick rx) ∨ ∃ psp, label = .switch psp)
    (current : s.kernel.currpid = p) (runs : (s.kernel.proctab p).prstate = .curr) :
    s'.kernel.currpid = p ∧ (s'.kernel.proctab p).prstate = .curr := by
  cases passive with
  | inl tick =>
    obtain ⟨rx, rfl⟩ := tick
    exact ⟨(good.step_currpid h (by simp)).trans current, good.tick_state h (by simp) runs⟩
  | inr switch =>
    obtain ⟨psp, rfl⟩ := switch
    rw [good.tracks.currpid] at current
    rw [good.tracks.state] at runs
    obtain ⟨moves, a', kind, run, good'⟩ := good.switch ⟨ret, h⟩
    rw [good'.tracks.currpid, good'.tracks.state]
    exact (led.switched good.inv leads pid kind run).2 current runs

end Steps

end XinuStm32
