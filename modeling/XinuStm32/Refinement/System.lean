import XinuStm32.Abstract.States
import XinuStm32.Kernel.Frame
import XinuStm32.Refinement.Process
import XinuStm32.Refinement.Console

/-!
# Steps of the system as moves

`Good s a` is the invariant of the running system: the view `a` tracks it and satisfies the scheduler
invariant, nothing is deferred, and a process runs unless a switch is pending. Every step leads from
a good state to a good state by moves that its label permits.
-/

namespace XinuStm32

open View

/-- A run of the system. -/
abbrev System.Run : List Label → System → System → Prop := Transition.Run System.Step

/-- The state after a list of steps, if each of them can be taken. -/
def System.exec : List Label → System → Option System
  | [], s => some s
  | label :: labels, s => (s.step label).bind fun (_, s') => exec labels s'

theorem System.run_exec {labels : List Label} {s s' : System} (returns : exec labels s = some s') :
    System.Run labels s s' := by
  induction labels generalizing s with
  | nil => exact Option.some.inj returns ▸ .nil s
  | cons label labels inductionHypothesis =>
    obtain ⟨⟨ret, s₁⟩, taken, rest⟩ := Option.bind_eq_some_iff.mp returns
    exact .cons ⟨ret, taken⟩ (inductionHypothesis rest)

/-- Counting up from a negative count does not wrap around. -/
def Grows (counting : Int → Int) : Prop := ∀ x < 0, x + 1 ≤ counting (x + 1)

theorem grows_id : Grows id := fun x _ => Int.le_refl (x + 1)

theorem grows_int32 : Grows int32 := by
  intro x negative
  simp only [int32, Int.bmod]
  omega

structure Good (s : System) (a : View) : Prop where
  tracks : Tracks 0 s.kernel a
  inv : a.Inv
  grows : Grows s.kernel.counting
  ndefers : s.kernel.defer.ndefers = 0
  nextsem : 0 ≤ s.kernel.nextsem ∧ s.kernel.nextsem < NSEM
  nextqid : s.kernel.nextqid = NQENT
  readyPreemptive : s.kernel.readyPreemptive = true
  awake : a.pendsv = true ∨ a.state a.currpid = .curr

/-! ## Which moves a step makes -/

/-- The moves that a step with this label may make. -/
def Label.Permits : Label → Move → Prop
  | .call (.create ..), move => ∃ p, move = .spawn p
  | .call (.resume p), move => move = .ready p
  | .call (.suspend p), move => move = .leave p .susp ∨ move = .take p .susp
  | .call (.kill p), move =>
      move = .quiet ∨ (∃ parent, move = .ready parent ∨ move = .withdraw parent .ready) ∨ KillMove p move
  | .call (.wait sem), move => move = .pass sem ∨ move = .block sem
  | .call (.signal sem), move => move = .release sem ∨ move = .post sem
  | .call (.signaln sem _), move => move = .quiet ∨ move = .release sem ∨ move = .post sem
  | .call (.semcreate count), move => ∃ sem, move = .setCount sem count.toInt
  | .call (.semreset sem count), move =>
      move = .quiet ∨ move = .drain sem ∨ move = .setCount sem count.toInt
  | .call (.semdelete sem), move =>
      move = .quiet ∨ move = .close sem ∨ move = .release sem ∨ move = .post sem
  | .call (.semcount _), _ => False
  | .call (.sleepms delay), move => move = .quiet ∨ move = .sleep .sleep delay.toInt
  | .call .yield, move => move = .quiet
  | .call .receive, move => move = .quiet ∨ ∃ p, move = .leave p .recv
  | .call (.recvtime maxwait), move => move = .quiet ∨ move = .sleep .rectim maxwait.toInt
  | .call .recvclr, move => move = .quiet
  | .call (.send p _), move => move = .quiet ∨ move = .ready p ∨ move = .withdraw p .ready
  | .call (.chprio p prio), move => move = .chprio p prio
  | .goOn, move => move = .quiet
  | .tick _, move => move.Signals ∨ move = .tick ∨ move = .wake
  | .switch _, move =>
      move = .quiet ∨ move = .accept ∨ move = .preempt ∨ ∃ p, move = .dispatch p

/-- The steps that may make a move: the same table, read the other way. -/
def Move.Origin : Move → Label → Prop
  | .quiet, _ => True
  | .accept, label | .preempt, label | .dispatch _, label => ∃ psp, label = .switch psp
  | .chprio p prio, label => label = .call (.chprio p prio)
  | .spawn _, label =>
      ∃ procaddr ssize priority name args, label = .call (.create procaddr ssize priority name args)
  | .ready p, label =>
      label = .call (.resume p) ∨ (∃ msg, label = .call (.send p msg)) ∨ ∃ q, label = .call (.kill q)
  | .release sem, label | .post sem, label =>
      label = .call (.signal sem) ∨ (∃ count, label = .call (.signaln sem count)) ∨
        label = .call (.semdelete sem) ∨ ∃ rx, label = .tick rx
  | .drain sem, label => ∃ count, label = .call (.semreset sem count)
  | .pass sem, label | .block sem, label => label = .call (.wait sem)
  | .setCount sem _, label =>
      (∃ count, label = .call (.semcreate count)) ∨ ∃ count, label = .call (.semreset sem count)
  | .close sem, label => label = .call (.semdelete sem)
  | .abandon p, label => label = .call (.kill p)
  | .sleep state _, label =>
      state = .sleep ∧ (∃ delay, label = .call (.sleepms delay)) ∨
        state = .rectim ∧ ∃ maxwait, label = .call (.recvtime maxwait)
  | .tick, label | .wake, label => ∃ rx, label = .tick rx
  | .withdraw p state, label =>
      state = .ready ∧ ((∃ msg, label = .call (.send p msg)) ∨ ∃ q, label = .call (.kill q)) ∨
        state = .free ∧ label = .call (.kill p)
  | .leave p state, label =>
      state = .recv ∧ label = .call .receive ∨ state = .susp ∧ label = .call (.suspend p) ∨
        state = .free ∧ label = .call (.kill p)
  | .take p state, label =>
      state = .susp ∧ label = .call (.suspend p) ∨ state = .free ∧ label = .call (.kill p)

theorem Label.Permits.origin {label : Label} {move : Move} (permits : label.Permits move) :
    move.Origin label := by
  cases label with
  | goOn =>
    cases permits
    trivial
  | tick rx =>
    obtain signals | rfl | rfl := permits
    · obtain rfl | ⟨sem, rfl | rfl⟩ := signals
      all_goals simp [Move.Origin]
    all_goals simp [Move.Origin]
  | switch psp =>
    obtain rfl | rfl | rfl | ⟨p, rfl⟩ := permits
    all_goals simp [Move.Origin]
  | call call =>
    cases call with
    | kill p =>
      obtain rfl | ⟨parent, rfl | rfl⟩ | kill := permits
      · trivial
      · simp [Move.Origin]
      · simp [Move.Origin]
      · cases kill
        all_goals simp [Move.Origin]
    | create => obtain ⟨p, rfl⟩ := permits; simp [Move.Origin]
    | resume | chprio => cases permits; simp [Move.Origin]
    | yield | recvclr => cases permits; trivial
    | semcount => exact permits.elim
    | suspend | wait | signal | sleepms | recvtime =>
      obtain rfl | rfl := permits
      all_goals simp [Move.Origin]
    | signaln | send | semreset =>
      obtain rfl | rfl | rfl := permits
      all_goals simp [Move.Origin]
    | semdelete =>
      obtain rfl | rfl | rfl | rfl := permits
      all_goals simp [Move.Origin]
    | semcreate => obtain ⟨sem, rfl⟩ := permits; simp [Move.Origin]
    | receive =>
      obtain rfl | ⟨p, rfl⟩ := permits
      all_goals simp [Move.Origin]

/-- The moves that only a context switch makes. -/
def Move.Switching (move : Move) : Prop := move = .accept ∨ move = .preempt ∨ ∃ p, move = .dispatch p

theorem Label.not_switching {label : Label} {move : Move} (permits : label.Permits move)
    (notSwitch : ∀ psp, label ≠ .switch psp) : ¬ move.Switching := by
  have origin := permits.origin
  rintro (rfl | rfl | ⟨p, rfl⟩)
  all_goals
    obtain ⟨psp, same⟩ := origin
    exact notSwitch psp same

/-- Only `semreset` empties a line out of turn, and only `semdelete` closes a semaphore. -/
theorem Label.counts {label : Label} {move : Move} {sem : Int} (permits : label.Permits move)
    (notReset : ∀ count, label ≠ .call (.semreset sem count)) (notDelete : label ≠ .call (.semdelete sem)) :
    move ≠ .drain sem ∧ move ≠ .close sem := by
  have origin := permits.origin
  constructor
  · rintro rfl
    obtain ⟨count, same⟩ := origin
    exact notReset count same
  · rintro rfl
    exact notDelete origin

/-- Only `wait` makes a process wait for a semaphore. -/
theorem Label.waits {label : Label} {sem : Int} (permits : label.Permits (.block sem)) :
    label = .call (.wait sem) := permits.origin

/-- Only `kill` takes a process out of the middle of a line. -/
theorem Label.kills {label : Label} {p : Int} (permits : label.Permits (.abandon p)) :
    label = .call (.kill p) := permits.origin

/-- Only `chprio` changes a priority. -/
theorem Label.chprio {label : Label} {p : Int} {prio : Int16} (permits : label.Permits (.chprio p prio)) :
    label = .call (.chprio p prio) := permits.origin

/-- Only `suspend` and `kill` take a process out of the middle of the ready list. -/
theorem Label.takes {label : Label} {p : Int} {state : PrState} (permits : label.Permits (.take p state)) :
    label = .call (.suspend p) ∨ label = .call (.kill p) :=
  permits.origin.imp And.right And.right

/-- Only the context switch takes the first process of the ready list. -/
theorem Label.dispatches {label : Label} {p : Int} (permits : label.Permits (.dispatch p)) :
    ∃ psp, label = .switch psp := permits.origin

/-- Only `receive` makes a process wait for a message without a time limit. -/
theorem Label.awaits {label : Label} {move : Move} {p : Int} {old : PrState}
    (permits : label.Permits move) (changes : move.Changes p old .recv) : label = .call .receive := by
  have origin := permits.origin
  cases changes with
  | leaveCurr => simpa [Move.Origin] using origin
  | sleep new => simp at new
  | take new => simp at new

/-- Only `kill` clears an entry. -/
theorem Label.frees {label : Label} {move : Move} {p : Int} {old : PrState} (permits : label.Permits move)
    (changes : move.Changes p old .free) : label = .call (.kill p) := by
  have origin := permits.origin
  cases changes with
  | abandon => exact origin
  | sleep new => simp at new
  | withdrawFree | leaveCurr | leaveIdle | take => simpa [Move.Origin] using origin

/-- Only `create` takes a free entry. -/
theorem Label.spawns {label : Label} {move : Move} {p : Int} {new : PrState} (permits : label.Permits move)
    (changes : move.Changes p .free new) :
    ∃ procaddr ssize priority name args, label = .call (.create procaddr ssize priority name args) := by
  have origin := permits.origin
  cases changes with
  | spawn => exact origin
  | ready old | wake old | withdrawFree old | leaveIdle old => simp at old

/-- A process stops waiting for a message when it is made ready or killed. -/
theorem Label.unblocks {label : Label} {move : Move} {p : Int} {new : PrState} (permits : label.Permits move)
    (changes : move.Changes p .recv new) :
    label = .call (.resume p) ∨ (∃ msg, label = .call (.send p msg)) ∨ ∃ q, label = .call (.kill q) := by
  have origin := permits.origin
  cases changes with
  | ready => exact origin
  | wake old | withdrawFree old => simp at old
  | leaveIdle => exact Or.inr (Or.inr ⟨p, by simpa [Move.Origin] using origin⟩)

/-! ## A process runs or a switch is pending -/

/-- Moving a process that does not run leaves the running one alone. -/
theorem awake_other {a a' : View} (p : Int)
    (awake : a.pendsv = true ∨ a.state a.currpid = .curr) (stopped : a.state p ≠ .curr)
    (state : ∀ p', p' ≠ p → a'.state p' = a.state p') (currpid : a'.currpid = a.currpid)
    (pendsv : a.pendsv = true → a'.pendsv = true) :
    a'.pendsv = true ∨ a'.state a'.currpid = .curr := by
  cases awake with
  | inl pending => exact Or.inl (pendsv pending)
  | inr runs =>
    right
    rw [currpid, state a.currpid fun same => stopped (same ▸ runs)]
    exact runs

/-- A move outside the context switch takes the processor from no one without asking for a
switch. -/
theorem Move.Step.awake {move : Move} {a a' : View} (h : Move.Step move a a') (inv : a.Inv)
    (other : ¬ move.Switching) (awake : a.pendsv = true ∨ a.state a.currpid = .curr) :
    a'.pendsv = true ∨ a'.state a'.currpid = .curr := by
  cases h with
  | quiet quiet =>
    cases awake with
    | inl pending => exact Or.inl (quiet.pendsv pending)
    | inr runs =>
      right
      rw [quiet.rest]
      exact (quiet.state a.currpid).trans runs
  | accept => exact absurd (Or.inl rfl) other
  | preempt => exact absurd (Or.inr (Or.inl rfl)) other
  | dispatch => exact absurd (Or.inr (Or.inr ⟨_, rfl⟩)) other
  | chprio =>
    cases awake with
    | inl pending => exact Or.inl pending
    | inr runs =>
      right
      rw [state_setProc]
      split
      · next same => rw [← same]; exact runs
      · exact runs
  | @spawn _ p _ pid free =>
    exact awake_other p awake (by simp [free]) (fun p' other => by simp [other]) rfl id
  | post | pass | setCount | close | tick => exact awake
  | ready | release | drain | block | sleep | wake | withdrawReady | leaveCurr => exact Or.inl rfl
  | @abandon _ p pid waiting =>
    exact awake_other p awake (by simp [waiting]) (fun p' other => by simp [other]) rfl id
  | @withdrawFree _ p front behind split =>
    have member : p ∈ a.members a.sleepq := by simp [split]
    have stopped : a.state p ≠ .curr := by
      rcases (inv.asleep_of_mem member).2 with state | state <;> simp [state]
    refine awake_other p awake stopped (fun p' other => by simp [other]) ?_ ?_
    · cases behind <;> rfl
    · cases behind <;> exact id
  | @leaveIdle _ p pid idle =>
    refine awake_other p awake ?_ (fun p' other => by simp [other]) rfl id
    rcases idle with state | state <;> simp [state]
  | @take _ p _ notNull member new =>
    have ready := (inv.ready_of_mem member).2
    obtain rfl | rfl := new
    · exact awake_other p awake (by simp [ready]) (fun p' other => by simp [other]) rfl id
    · exact awake_other p awake (by simp [ready]) (fun p' other => by simp [other]) rfl id

theorem Moves.awake {moves : List Move} {a a' : View} (run : Moves moves a a') (inv : a.Inv)
    (others : ∀ move ∈ moves, ¬ move.Switching)
    (awake : a.pendsv = true ∨ a.state a.currpid = .curr) :
    a'.pendsv = true ∨ a'.state a'.currpid = .curr :=
  (Transition.Run.invariant_of_allowed
    (fun a => a.Inv ∧ (a.pendsv = true ∨ a.state a.currpid = .curr)) (fun move => ¬ move.Switching)
    (fun _ _ _ other h both => ⟨both.1.step h, h.awake both.1 other both.2⟩) run others
    ⟨inv, awake⟩).2

/-! ## Calls -/

variable {s : Kernel} {a : View}

theorem Follows.permitted {moves : List Move} {allowed : Move → Prop} (follows : Follows 0 moves s a)
    (all : ∀ move ∈ moves, allowed move) : Performs 0 allowed s a :=
  ⟨moves, all, follows⟩

/-- `kill` sends to the parent and then clears the entry. -/
theorem kill_permits {p parent : Int} {moves : List Move} {move : Move} (kind : SendMoves parent a moves)
    (last : KillMove p move) : ∀ move' ∈ moves ++ [move], Label.Permits (.call (.kill p)) move' := by
  intro move' member
  cases List.mem_append.mp member with
  | inl member =>
    cases kind with
    | refused => simp at member
    | stored => exact Or.inl (List.mem_singleton.mp member)
    | received =>
      simp only [List.mem_cons, List.not_mem_nil, or_false] at member
      obtain rfl | rfl := member
      · exact Or.inl rfl
      · exact Or.inr (Or.inl ⟨_, Or.inl rfl⟩)
    | timed =>
      simp only [List.mem_cons, List.not_mem_nil, or_false] at member
      obtain rfl | rfl := member
      · exact Or.inl rfl
      · exact Or.inr (Or.inl ⟨_, Or.inr rfl⟩)
  | inr member => exact Or.inr (Or.inr (List.mem_singleton.mp member ▸ last))

theorem kill_performs (track : Tracks 0 s a) (inv : a.Inv) (p : Int) {result : Int} {s' : Kernel}
    (returns : kill p s = some (result, s')) : Performs 0 (Label.Permits (.call (.kill p))) s' a := by
  rcases kill_follows track inv p returns with
    ⟨-, follows⟩ | ⟨-, -, -, -, moves, move, kind, last, follows⟩
  · exact follows.permitted (by simp)
  · exact follows.permitted (kill_permits kind last)

theorem send_performs (track : Tracks 0 s a) (inv : a.Inv) (p : Int) (msg : UInt32) :
    Performs 0 (Label.Permits (.call (.send p msg))) (send p msg s).2 a := by
  obtain ⟨moves, kind, follows⟩ := send_follows track inv p msg
  refine follows.permitted fun move member => ?_
  cases kind with
  | refused => simp at member
  | stored => exact Or.inl (List.mem_singleton.mp member)
  | received =>
    simp only [List.mem_cons, List.not_mem_nil, or_false] at member
    rcases member with rfl | rfl
    · exact Or.inl rfl
    · exact Or.inr (Or.inl rfl)
  | timed =>
    simp only [List.mem_cons, List.not_mem_nil, or_false] at member
    rcases member with rfl | rfl
    · exact Or.inl rfl
    · exact Or.inr (Or.inr rfl)

theorem semreset_performs (track : Tracks 0 s a) (inv : a.Inv) (sem : Int) (count : Int32) :
    Performs 0 (Label.Permits (.call (.semreset sem count))) (semreset sem count s).2 a := by
  rcases semreset_follows track inv sem count with
    ⟨-, follows⟩ | ⟨-, -, -, drains, quiet, kinds, quiets, follows⟩
  · exact follows.permitted (by simp)
  · refine follows.permitted fun move member => ?_
    simp only [List.mem_append, List.mem_cons] at member
    rcases member with member | rfl | member
    · exact Or.inr (Or.inl (kinds move member))
    · exact Or.inr (Or.inr rfl)
    · exact Or.inl (quiets move member)

theorem semdelete_performs (track : Tracks 0 s a) (inv : a.Inv) (grows : Grows a.counting) (sem : Int) :
    Performs 0 (Label.Permits (.call (.semdelete sem))) (semdelete sem s).2 a := by
  rcases semdelete_follows track inv grows sem with
    ⟨-, follows⟩ | ⟨-, -, -, moves, quiet, kinds, quiets, follows⟩
  · exact follows.permitted (by simp)
  · refine follows.permitted fun move member => ?_
    simp only [List.cons_append, List.append_assoc, List.mem_cons, List.mem_append, List.not_mem_nil,
      false_or] at member
    rcases member with rfl | member | rfl | member
    · exact Or.inr (Or.inl rfl)
    · exact Or.inr (Or.inr (kinds move member))
    · exact Or.inr (Or.inr (Or.inr rfl))
    · exact Or.inl (quiets move member)

/-- Every call makes only moves that its label permits. -/
theorem execCall_performs (track : Tracks 0 s a) (inv : a.Inv) (runs : a.state a.currpid = .curr)
    (nextsem : 0 ≤ s.nextsem ∧ s.nextsem < NSEM) (grows : Grows a.counting) {call : Call}
    (notNull : a.currpid = NULLPROC → call.blocking = false) {ret : Ret} {s' : Kernel} {pc : Pc}
    (returns : execCall call s = some (ret, s', pc)) :
    Performs 0 (Label.Permits (.call call)) s' a := by
  have blocks (blocking : call.blocking = true) : a.currpid ≠ NULLPROC := fun same =>
    absurd (notNull same) (by simp [blocking])
  cases call with
  | kill p =>
    simp only [execCall, Option.bind_eq_some_iff, Option.some.injEq, Prod.mk.injEq] at returns
    obtain ⟨result, killed, -, rfl, -⟩ := returns
    exact kill_performs track inv p killed
  | receive =>
    simp only [execCall] at returns
    split at returns <;> obtain ⟨-, rfl, -⟩ := returns
    · exact (receiveBlock_follows track runs (blocks rfl)).permitted (by simp [Label.Permits])
    · exact (receiveTake_follows track).permitted (by simp [Label.Permits])
  | create procaddr ssize priority name args =>
    obtain ⟨-, rfl, -⟩ := returns
    rcases create_follows track procaddr ssize priority name args with ⟨-, follows⟩ | ⟨p, -, -, -, follows⟩
    · exact follows.permitted (by simp)
    · exact follows.permitted (by simp [Label.Permits])
  | resume p =>
    obtain ⟨-, rfl, -⟩ := returns
    rcases resume_follows track inv p with follows | ⟨-, -, follows⟩
    · exact follows.permitted (by simp)
    · exact follows.permitted (by simp [Label.Permits])
  | suspend p =>
    obtain ⟨-, rfl, -⟩ := returns
    rcases suspend_follows track inv p with follows | follows | follows <;>
      exact follows.permitted (by simp [Label.Permits])
  | wait sem =>
    obtain ⟨-, rfl, -⟩ := returns
    rcases wait_follows track inv runs (blocks rfl) sem with ⟨-, follows⟩ | ⟨-, -, -, follows | follows⟩ <;>
      exact follows.permitted (by simp [Label.Permits])
  | signal sem =>
    obtain ⟨-, rfl, -⟩ := returns
    rcases signal_follows track inv sem with ⟨-, follows⟩ | ⟨-, -, -, follows | follows⟩ <;>
      exact follows.permitted (by simp [Label.Permits])
  | signaln sem count =>
    obtain ⟨-, rfl, -⟩ := returns
    rcases signaln_follows track inv sem count with
      ⟨-, follows⟩ | ⟨-, -, -, moves, quiet, -, kinds, quiets, follows⟩
    · exact follows.permitted (by simp)
    · refine follows.permitted fun move member => ?_
      rcases List.mem_append.mp member with member | member
      · exact Or.inr (kinds move member)
      · exact Or.inl (quiets move member)
  | semcreate count =>
    obtain ⟨-, rfl, -⟩ := returns
    rcases semcreate_follows track nextsem.1 nextsem.2 count with
      ⟨-, follows⟩ | ⟨sem, -, -, -, -, follows⟩ <;>
      exact follows.permitted (by simp [Label.Permits])
  | semreset sem count =>
    obtain ⟨-, rfl, -⟩ := returns
    exact semreset_performs track inv sem count
  | semdelete sem =>
    obtain ⟨-, rfl, -⟩ := returns
    exact semdelete_performs track inv grows sem
  | semcount sem =>
    obtain ⟨-, rfl, -⟩ := returns
    exact .nothing (semcount_tracks track sem)
  | sleepms delay =>
    obtain ⟨-, rfl, -⟩ := returns
    rcases sleepms_follows track inv runs (blocks rfl) delay with follows | follows | ⟨-, follows⟩ <;>
      exact follows.permitted (by simp [Label.Permits])
  | yield =>
    obtain ⟨-, rfl, -⟩ := returns
    exact (yield_follows track).permitted (by simp [Label.Permits])
  | recvtime maxwait =>
    obtain ⟨-, rfl, -⟩ := returns
    rcases recvtime_follows track inv runs (blocks rfl) maxwait with
      follows | follows | ⟨-, -, follows⟩ <;>
      exact follows.permitted (by simp [Label.Permits])
  | recvclr =>
    obtain ⟨-, rfl, -⟩ := returns
    exact recvclr_performs track
  | send p msg =>
    obtain ⟨-, rfl, -⟩ := returns
    exact send_performs track inv p msg
  | chprio p newprio =>
    obtain ⟨-, rfl, -⟩ := returns
    rcases chprio_follows track p newprio with follows | ⟨-, follows⟩ <;>
      exact follows.permitted (by simp [Label.Permits])

/-! ## Steps -/

theorem tick_performs (track : Tracks 0 s a) (inv : a.Inv) (rx : Option UInt8) :
    Performs 0 (Label.Permits (.tick rx)) (tim2Handler rx s) a := by
  have clock {s : Kernel} {a : View} (track : Tracks 0 s a) (inv : a.Inv) :
      Performs 0 (Label.Permits (.tick rx)) (clockTick s) a := by
    obtain ⟨-, quiet, quiets, follows⟩ | ⟨-, wakes, quiet, b, tick, follows⟩ := clockTick_follows track inv
    · exact follows.permitted fun move member => Or.inl (Or.inl (quiets move member))
    · obtain ⟨p, rest, front, run, -⟩ := tick.run
      obtain ⟨b', run', track'⟩ := follows
      refine ⟨.tick :: (wakes ++ quiet), fun move member => ?_, b', .cons (.tick front) (run.append run'),
        track'⟩
      obtain rfl | member := List.mem_cons.mp member
      · exact Or.inr (Or.inl rfl)
      · cases List.mem_append.mp member with
        | inl member => exact Or.inr (Or.inr (tick.allWake move member))
        | inr member => exact Or.inl (Or.inl (tick.allQuiet move member))
  cases rx with
  | none => exact clock track inv
  | some c =>
    apply ((ttyhandler_performs track inv c).mono fun move signals => Or.inl signals).append inv
    intro _ a' _ _ inv' track'
    exact clock track' inv'

/-- The ways a context switch may go: the running process stays, or is put back into the ready list,
or has given up the processor before. -/
inductive SwitchMoves (a : View) : List Move → Prop where
  | stays : a.state a.currpid = .curr →
      (∀ p rest, a.members a.readylist = p :: rest → a.queuetab.key p < a.prio a.currpid) →
      SwitchMoves a [.accept]
  | preempts (p : Int) : a.state a.currpid = .curr → SwitchMoves a [.accept, .preempt, .dispatch p, .quiet]
  | dispatches (p : Int) : a.state a.currpid ≠ .curr → SwitchMoves a [.accept, .dispatch p, .quiet]

theorem SwitchMoves.permitted {moves : List Move} (kind : SwitchMoves a moves) (psp : Nat) :
    ∀ move ∈ moves, Label.Permits (.switch psp) move := by
  cases kind <;> simp [Label.Permits]

/-- A context switch that is not deferred. -/
theorem switch_follows (track : Tracks 0 s a) (inv : a.Inv) (psp : Nat) (allowed : s.defer.ndefers ≤ 0) :
    ∃ moves, SwitchMoves a moves ∧ Follows 0 moves (pendSVHandler psp s) a := by
  have accepted := track.accept
  have invAccepted := inv.step (Move.Step.accept (a := a))
  simp only [pendSVHandler, gt_iff_lt, if_neg (Int.not_lt.mpr allowed)]
  rcases reschedule_follows accepted invAccepted (sub32 psp 32) with
    ⟨runs, highest, b, run, tracked⟩ | ⟨runs, -, p, b, run, tracked⟩ | ⟨stopped, p, b, run, tracked⟩
  · exact ⟨_, .stays runs highest, b, .cons .accept run, tracked⟩
  · exact ⟨_, .preempts p runs, b, .cons .accept run, tracked⟩
  · exact ⟨_, .dispatches p stopped, b, .cons .accept run, tracked⟩

/-- The process that is dispatched is the current one and runs. -/
theorem Moves.dispatched {p : Int} {b b' : View} (run : Moves [.dispatch p, .quiet] b b') :
    b'.currpid = p ∧ b'.state p = .curr := by
  cases run with
  | cons dispatch rest =>
    cases rest with
    | cons quiet rest =>
      cases rest
      cases dispatch
      cases quiet with
      | quiet quiet =>
        rw [quiet.rest]
        exact ⟨rfl, (quiet.state p).trans ((state_run p b p).trans (if_pos rfl))⟩

/-- After a context switch a process runs. -/
theorem SwitchMoves.runs {moves : List Move} {a' : View} (kind : SwitchMoves a moves)
    (run : Moves moves a a') : a'.state a'.currpid = .curr := by
  have dispatched {p : Int} {b b' : View} (run : Moves [.dispatch p, .quiet] b b') :
      b'.state b'.currpid = .curr := by
    obtain ⟨currpid, runs⟩ := Moves.dispatched run
    exact currpid ▸ runs
  cases kind with
  | stays runs =>
    cases run with
    | cons accept rest =>
      cases rest
      cases accept
      exact runs
  | preempts p =>
    cases run with
    | cons _ rest =>
      cases rest with
      | cons _ rest => exact dispatched rest
  | dispatches p =>
    cases run with
    | cons _ rest => exact dispatched rest

/-- A step that moves a good state leads to a good state if a process runs or a switch is pending. -/
theorem Good.advance {s s' : System} {label : Label} {moves : List Move} {a' : View} (good : Good s a)
    (h : System.Step label s s') (run : Moves moves a a') (track : Tracks 0 s'.kernel a')
    (awake : a'.pendsv = true ∨ a'.state a'.currpid = .curr) : Good s' a' := by
  have steady := h.steady (shallow_of_zero good.ndefers)
  exact
    { tracks := track
      inv := good.inv.moves run
      grows := steady.counting ▸ good.grows
      ndefers := steady.ndefers.trans good.ndefers
      nextsem := steady.nextsem good.nextsem
      nextqid := steady.nextqid.trans good.nextqid
      readyPreemptive := steady.readyPreemptive.trans good.readyPreemptive
      awake := awake }

/-- A step without a context switch leads from a good state to a good state. -/
theorem Good.follow {s s' : System} {label : Label} {moves : List Move} (good : Good s a)
    (h : System.Step label s s') (notSwitch : ∀ psp, label ≠ .switch psp)
    (permits : ∀ move ∈ moves, label.Permits move) (follows : Follows 0 moves s'.kernel a) :
    ∃ a', Moves moves a a' ∧ Good s' a' := by
  obtain ⟨a', run, track⟩ := follows
  exact ⟨a', run, good.advance h run track (Moves.awake run good.inv
    (fun move member => Label.not_switching (permits move member) notSwitch) good.awake)⟩

theorem Good.switch {s s' : System} {psp : Nat} (good : Good s a) (h : System.Step (.switch psp) s s') :
    ∃ moves a', SwitchMoves a moves ∧ Moves moves a a' ∧ Good s' a' := by
  obtain ⟨moves, kind, a', run, track⟩ :=
    switch_follows good.tracks good.inv psp (Int.le_of_eq good.ndefers)
  have same : s'.kernel = pendSVHandler psp s.kernel := by
    obtain ⟨_, _, _, other, -⟩ | ⟨other, -⟩ | ⟨_, other, -⟩ | ⟨_, here, -, same, -⟩ := h.cases
    · cases other
    · cases other
    · cases other
    · cases here
      exact same
  exact ⟨moves, a', kind, run, good.advance h run (same ▸ track) (Or.inr (kind.runs run))⟩

theorem Good.runs {s : System} (good : Good s a) (runs : running s.kernel.toSched) :
    a.state a.currpid = .curr := by
  rw [← good.tracks.state, ← good.tracks.currpid]
  exact runs

/-- Every step leads from a good state to a good state, by moves that its label permits. -/
theorem Good.step {s s' : System} {label : Label} (good : Good s a) (h : System.Step label s s') :
    ∃ moves a', (∀ move ∈ moves, label.Permits move) ∧ Moves moves a a' ∧ Good s' a' := by
  have passive (notSwitch : ∀ psp, label ≠ .switch psp)
      (performs : Performs 0 label.Permits s'.kernel a) :
      ∃ moves a', (∀ move ∈ moves, label.Permits move) ∧ Moves moves a a' ∧ Good s' a' := by
    obtain ⟨moves, permits, follows⟩ := performs
    obtain ⟨a', run, good'⟩ := good.follow h notSwitch permits follows
    exact ⟨moves, a', permits, run, good'⟩
  rcases h.cases with ⟨call, ret, pc, rfl, runs, -, notNull, returns, -⟩ | ⟨rfl, -, -, same, -⟩ |
    ⟨rx, rfl, same, -⟩ | ⟨psp, rfl, -, same, -⟩
  · rw [good.tracks.currpid] at notNull
    exact passive (by simp) (execCall_performs good.tracks good.inv (good.runs runs) good.nextsem
      (good.tracks.counting ▸ good.grows) notNull returns)
  · exact passive (by simp) (same ▸ (receiveTake_follows good.tracks).permitted (by simp [Label.Permits]))
  · exact passive (by simp) (same ▸ tick_performs good.tracks good.inv rx)
  · obtain ⟨moves, a', kind, run, good'⟩ := good.switch h
    exact ⟨moves, a', kind.permitted psp, run, good'⟩

theorem Good.run {s s' : System} {labels : List Label} (good : Good s a)
    (run : System.Run labels s s') : ∃ a', Good s' a' :=
  Transition.Run.invariant (fun s => ∃ a, Good s a)
    (fun _ _ _ h ⟨_, good⟩ => by
      obtain ⟨_, a', -, -, good'⟩ := good.step h
      exact ⟨a', good'⟩) run ⟨a, good⟩

end XinuStm32
