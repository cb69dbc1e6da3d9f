import XinuStm32.Abstract.Sleepers
import XinuStm32.Properties.Consistency
import XinuStm32.Refinement.Mailbox

/-!
# Sleepers wake on time

The clock counts ticks, and for each process that goes to sleep we note the tick by which it is to be ready
again: the first to come at the earliest. The keys of the sleep queue give the same ticks until a tick finds a
first sleeper whose key is already zero, which only `recvtime` with a limit of zero leaves there.
-/

namespace XinuStm32

open View Agenda

/-! ## One tick of the sleep queue -/

section Views

variable {a b : View} {due : Int → Int} {now : Int}

/-- If the first sleeper still has to wait, so have all. -/
theorem View.OnSchedule.later (onSchedule : OnSchedule due now a)
    (waits : ∀ p rest, a.sleepers = p :: rest → 0 < a.queuetab.key p) {p : Int} (member : p ∈ a.sleepers) :
    now < due p := by
  cases shape : a.sleepers with
  | nil =>
    rw [shape] at member
    cases member
  | cons first rest =>
    have scheduled := onSchedule.scheduled
    rw [shape] at scheduled member
    have least := scheduled.first_le member
    have positive := waits first rest shape
    have here := scheduled.2.1
    omega

/-- A tick on a queue whose first sleeper has to wait: exactly the sleepers that are due at it become ready. -/
theorem View.OnSchedule.tick (onSchedule : OnSchedule due now a) (inv : a.Inv) {wakes quiet : List Move}
    (tick : TickMoves wakes quiet a b) (waits : ∀ p rest, a.sleepers = p :: rest → 0 < a.queuetab.key p) :
    OnSchedule due (now + 1) b ∧ (∀ p ∈ b.sleepers, p ∈ a.sleepers ∧ now + 1 < due p) ∧ ∀ p ∈ a.sleepers,
      p ∈ b.sleepers ∧ b.state p = a.state p ∨ due p = now + 1 ∧ b.state p = .ready := by
  obtain ⟨p, rest, front, run, wakes⟩ := tick.run
  have front : a.sleepers = p :: rest := front
  obtain ⟨counted, key⟩ := onSchedule.countDown inv front (waits p rest front)
  have invCounted := inv.step (Move.Step.tick front)
  obtain ⟨onSchedule', absent, present⟩ := counted.wakes invCounted run tick.allWake
  have stored : (a.countDown p).queuetab.key p = int32 (a.queuetab.key p - 1) := by
    simp [View.countDown]
  have first : ∀ q rest, b.sleepers = q :: rest → 0 < b.queuetab.key q := by
    intro q rest' shape
    rw [← stored, key] at wakes
    split at wakes
    · next zero =>
      by_contra due
      exact wakes ⟨q, rest', shape, Int.not_lt.mp due⟩
    · next nonzero =>
      subst wakes
      cases run
      have same : (a.countDown p).sleepers = p :: rest := front
      rw [same] at shape
      obtain ⟨rfl, -⟩ := List.cons.inj shape
      have positive := waits p rest front
      rw [key]
      omega
  refine ⟨onSchedule', fun q member => ⟨?_, onSchedule'.later first member⟩, fun q member => ?_⟩
  · by_contra outside
    exact (absent q outside).1 member
  · obtain ⟨still, kept⟩ | ⟨-, arrived, ready⟩ := present q member
    · exact Or.inl ⟨still, kept⟩
    · exact Or.inr ⟨arrived, ready⟩

/-- A tick on a queue whose first sleeper is due already wakes no one. -/
theorem View.OnSchedule.overdue (onSchedule : OnSchedule due now a) {wakes quiet : List Move}
    (tick : TickMoves wakes quiet a b) {p : Int} {rest : List Int} (front : a.sleepers = p :: rest)
    (late : a.queuetab.key p ≤ 0) : due p = now ∧ b.state = a.state := by
  obtain ⟨p', rest', front', run, wakes⟩ := tick.run
  have front' : a.sleepers = p' :: rest' := front'
  rw [front] at front'
  obtain ⟨rfl, rfl⟩ := List.cons.inj front'
  have scheduled := onSchedule.scheduled
  rw [front] at scheduled
  obtain ⟨nonnegative, here, -⟩ := scheduled
  have zero : a.queuetab.key p = 0 := by omega
  rw [zero, if_neg (by decide)] at wakes
  subst wakes
  cases run
  exact ⟨by omega, rfl⟩

end Views

/-- What signals do leaves the sleepers alone. -/
structure Aside (a b : View) : Prop where
  sleepers : b.sleepers = a.sleepers
  key : ∀ p ∈ a.sleepers, b.queuetab.key p = a.queuetab.key p
  state : ∀ p ∈ a.sleepers, b.state p = a.state p

theorem Aside.moves {moves : List Move} (inv : a.Inv) (run : Moves moves a b)
    (all : ∀ move ∈ moves, move.Signals) : Aside a b := by
  refine (Transition.Run.invariant_of_allowed (fun b => b.Inv ∧ Aside a b) Move.Signals ?_ run all
    ⟨inv, ⟨rfl, fun _ _ => rfl, fun _ _ => rfl⟩⟩).2
  rintro move b c signals h ⟨inv, same⟩
  have aside : ¬ move.Clocked := by
    rcases signals with rfl | ⟨sem, rfl | rfl⟩ <;> exact id
  obtain ⟨sleepers, key⟩ := h.sleepers_kept inv aside
  rw [same.sleepers] at sleepers key
  refine ⟨inv.step h, sleepers, fun p member => (key p member).trans (same.key p member), fun p member => ?_⟩
  rw [← same.state p member]
  cases h.changes inv p with
  | inl unchanged => exact unchanged
  | inr changes =>
    exfalso
    have asleep := (inv.mem_sleepers.mp (same.sleepers ▸ member)).2
    generalize b.state p = old, c.state p = new at asleep changes
    obtain rfl | ⟨sem, rfl | rfl⟩ := signals
    all_goals
      cases changes
      try simp at asleep

theorem Aside.onSchedule (same : Aside a b) (onSchedule : OnSchedule due now a) : OnSchedule due now b := by
  apply onSchedule.part (fun p member => same.sleepers ▸ member)
  rw [same.sleepers]
  exact onSchedule.scheduled.congr same.key fun _ _ => rfl

/-! ## One tick of the system -/

/-- The clock counts down the sleepers if there are any. -/
inductive Ticked (quiet : List Move) (a b : View) : Prop where
  | idle : a.sleepers = [] → b = a → Ticked quiet a b
  | counted (wakes : List Move) : TickMoves wakes quiet a b → Ticked quiet a b

/-- Only moves of a tick lead from before it to after it. -/
theorem Ticked.moves {quiet : List Move} {a b : View} (ticked : Ticked quiet a b) (rx : Option UInt8) :
    ∃ moves, (∀ move ∈ moves, Label.Permits (.tick rx) move) ∧ Moves moves a b := by
  cases ticked with
  | idle _ same =>
    subst same
    exact ⟨[], by simp, .nil b⟩
  | counted wakes tick =>
    obtain ⟨p, rest, front, run, -⟩ := tick.run
    refine ⟨.tick :: wakes, fun move member => ?_, .cons (.tick front) run⟩
    obtain rfl | woken := List.mem_cons.mp member
    · exact Or.inr (Or.inl rfl)
    · exact Or.inr (Or.inr (tick.allWake move woken))

theorem clockTick_ticked {s : Kernel} {a : View} (track : Tracks 0 s a) (inv : a.Inv)
    (preemptive : s.readyPreemptive = true) :
    ∃ b quiet, Ticked quiet a b ∧ (∀ move ∈ quiet, move = Move.quiet) ∧ Follows 0 quiet (clockTick s) b := by
  obtain ⟨why, quiet, quiets, follows⟩ | ⟨-, wakes, quiet, b, tick, follows⟩ := clockTick_follows track inv
  · cases why with
    | inl off =>
      rw [preemptive] at off
      cases off
    | inr empty => exact ⟨a, quiet, .idle empty rfl, quiets, follows⟩
  · exact ⟨b, quiet, .counted wakes tick, tick.allQuiet, follows⟩

/-- What a tick does to the view: the console may signal semaphores, and then the clock ticks. -/
theorem Good.tick {s s' : System} {a : View} {rx : Option UInt8} (good : Good s a)
    (h : System.Step (.tick rx) s s') :
    ∃ signals b c quiet a', (∀ move ∈ signals, move.Signals) ∧ Moves signals a b ∧ Ticked quiet b c ∧
      (∀ move ∈ quiet, move = Move.quiet) ∧ Moves quiet c a' ∧ Good s' a' := by
  have shallow := good.shallow
  have same : s'.kernel = tim2Handler rx s.kernel := by
    obtain ⟨_, _, _, other, -⟩ | ⟨other, -⟩ | ⟨_, here, same, -⟩ | ⟨_, other, -⟩ := h.cases
    · cases other
    · cases other
    · cases here
      exact same
    · cases other
  have console : ∃ signals b k, (∀ move ∈ signals, move.Signals) ∧ Moves signals a b ∧ Tracks 0 k b ∧
      k.readyPreemptive = true ∧ s'.kernel = clockTick k := by
    cases rx with
    | none => exact ⟨[], a, s.kernel, by simp, .nil a, good.tracks, good.readyPreemptive, same⟩
    | some c =>
      obtain ⟨signals, all, b, run, track⟩ := ttyhandler_performs good.tracks good.inv c
      have frame := (frame_ttyhandleIn c shallow).trans frame_yield
      exact ⟨signals, b, ttyhandler c s.kernel, all, run, track, frame.readyPreemptive.trans good.readyPreemptive, same⟩
  obtain ⟨signals, b, k, all, before, track, preemptive, handled⟩ := console
  obtain ⟨c, quiet, ticked, quiets, a', after, track'⟩ := clockTick_ticked track (good.inv.moves before) preemptive
  obtain ⟨moves, permits, run⟩ := ticked.moves rx
  have whole := (before.append run).append after
  refine ⟨signals, b, c, quiet, a', all, before, ticked, quiets, after, ?_⟩
  rw [← handled] at track'
  have permitted : ∀ move ∈ signals ++ moves ++ quiet, Label.Permits (.tick rx) move := by
    intro move member
    cases List.mem_append.mp member with
    | inl member =>
      cases List.mem_append.mp member with
      | inl member => exact Or.inl (all move member)
      | inr member => exact permits move member
    | inr member => exact Or.inl (Or.inl (quiets move member))
  apply good.advance h whole track'
  exact Moves.awake whole good.inv (fun move member => Label.not_switching (permitted move member) (by simp)) good.awake

/-! ## Steps between ticks -/

/-- A sleeper may be taken out of the queue by a call that kills it or sends to it; `kill` sends to the parent. -/
def Removes (s : Kernel) (p : Int) : Label → Prop
  | .call (.kill q) => p = q ∨ p = (s.proctab q).prparent
  | .call (.send q _) => p = q
  | _ => False

/-- Between ticks a sleeper goes on sleeping unless it is removed. -/
theorem Good.sleeps_on {s s' : System} {a : View} {label : Label} (good : Good s a) (h : System.Step label s s')
    (between : ∀ rx, label ≠ .tick rx) {p : Int}
    (asleep : (s.kernel.proctab p).prstate = .sleep ∨ (s.kernel.proctab p).prstate = .rectim) :
    (s'.kernel.proctab p).prstate = (s.kernel.proctab p).prstate ∨ Removes s.kernel p label := by
  rw [or_iff_not_imp_right]
  intro stays
  by_contra moved
  have cause : (∃ msg, label = .call (.send p msg)) ∨ ∃ q, label = .call (.kill q) := by
    by_contra other
    refine moved (good.keeps h (· = (s.kernel.proctab p).prstate) ?_ rfl)
    rintro move old new permits changes rfl
    have origin := permits.origin
    exfalso
    generalize (s.kernel.proctab p).prstate = old at asleep changes
    cases changes with
    | wake =>
      obtain ⟨rx, same⟩ := origin
      exact between rx same
    | withdrawReady | withdrawFree =>
      simp only [Move.Origin] at origin
      grind
    | ready idle | leaveIdle idle =>
      rcases asleep with rfl | rfl <;> simp at idle
    | _ => simp at asleep
  obtain ⟨ret, taken⟩ := h
  obtain ⟨msg, rfl⟩ | ⟨q, rfl⟩ := cause
  · exact stays rfl
  · obtain ⟨status, rfl, killed⟩ := System.step_kill taken
    simp only [Removes, not_or] at stays
    rcases kill_follows good.tracks good.inv q killed with
      ⟨-, a', run, track⟩ | ⟨rfl, -, -, -, moves, move, kind, last, a', run, track⟩
    · cases run
      rw [track.state, good.tracks.state] at moved
      exact moved rfl
    · obtain ⟨b, told, rest⟩ := run.split
      cases rest with
      | cons clear rest =>
        cases rest
        rw [track.state, good.tracks.state] at moved
        obtain same | ⟨here, -⟩ := last.state clear (good.inv.moves told)
        · obtain ⟨same', -⟩ | ⟨parent, -⟩ := kind.state told p
          · exact moved (same.trans same')
          · rw [← good.tracks.proctab] at parent
            exact stays.2 parent
        · exact stays.1 here

/-- A call that puts its caller to sleep for a delay. -/
theorem Label.sleeps {label : Label} {state : PrState} {delay : Int} (permits : label.Permits (.sleep state delay)) :
    (∃ d : Int32, label = .call (.sleepms d) ∧ delay = d.toInt) ∨
      ∃ d : Int32, label = .call (.recvtime d) ∧ delay = d.toInt := by
  obtain ⟨-, d, rfl⟩ | ⟨-, d, rfl⟩ := permits.origin
  · simp only [Label.Permits, reduceCtorEq, false_or, Move.sleep.injEq] at permits
    exact Or.inl ⟨d, rfl, permits.2⟩
  · simp only [Label.Permits, reduceCtorEq, false_or, Move.sleep.injEq] at permits
    exact Or.inr ⟨d, rfl, permits.2⟩

/-! ## The clocked system -/

/-- The system with the number of ticks so far and, for each process, the tick by which its last call of `sleepms`
or `recvtime` is to end. -/
structure Clocked where
  system : System
  ticks : Int
  wake : Int → Int

namespace Clocked

def start (image : BootImage) (ram : Nat → UInt8) : Clocked := ⟨boot image int32 ram, 0, fun _ => 0⟩

def ticksAfter (label : Label) (s : Clocked) : Int :=
  match label with
  | .tick _ => s.ticks + 1
  | _ => s.ticks

def wakeAfter (label : Label) (s : Clocked) : Int → Int :=
  match label with
  | .call (.sleepms delay) | .call (.recvtime delay) =>
    Function.update s.wake s.system.kernel.currpid (s.ticks + max delay.toInt 1)
  | _ => s.wake

def step (label : Label) (s : Clocked) : Option (Ret × Clocked) :=
  (s.system.step label).map fun (ret, system) => (ret, ⟨system, s.ticksAfter label, s.wakeAfter label⟩)

def Step (label : Label) (s s' : Clocked) : Prop := ∃ ret, s.step label = some (ret, s')

abbrev state (s : Clocked) (p : Int) : PrState := (s.system.kernel.proctab p).prstate

def Asleep (s : Clocked) (p : Int) : Prop := IsPid p ∧ (s.state p = .sleep ∨ s.state p = .rectim)

/-- A step that treats the sleepers as their calls demand: a tick makes ready exactly those it is the tick for, and
any other step leaves a sleeper alone unless it removes it. -/
structure OnTime (label : Label) (s s' : Clocked) : Prop where
  ticked : ∀ rx, label = .tick rx → ∀ p, s.Asleep p →
    s'.state p = if s.wake p = s'.ticks then .ready else s.state p
  between : (∀ rx, label ≠ .tick rx) → ∀ p, s.Asleep p →
    s'.state p = s.state p ∨ Removes s.system.kernel p label

/-- No tick finds a first sleeper whose key is zero. -/
def Punctual (s : Clocked) (label : Label) : Prop :=
  ∀ rx, label = .tick rx → isempty s.system.kernel.sleepq s.system.kernel.toSched ∨
    0 < firstkey s.system.kernel.sleepq s.system.kernel.toSched

/-- The sleep queue is an agenda for the ticks that were noted; a caller of `recvtime` whose limit is zero is due
at once. -/
structure Timed (s : Clocked) (a : View) (due : Int → Int) : Prop where
  onSchedule : a.OnSchedule due s.ticks
  wake : ∀ p ∈ a.sleepers, s.wake p = max (due p) (s.ticks + 1)

variable {s s' : Clocked} {a : View} {due : Int → Int} {label : Label}

theorem Step.system (h : Step label s s') :
    System.Step label s.system s'.system ∧ s'.ticks = s.ticksAfter label ∧ s'.wake = s.wakeAfter label := by
  obtain ⟨ret, taken⟩ := h
  simp only [step, Option.map_eq_some_iff, Prod.mk.injEq, Prod.exists] at taken
  obtain ⟨ret', system, taken, -, rfl⟩ := taken
  exact ⟨⟨ret', taken⟩, rfl, rfl⟩

theorem asleep_iff (good : Good s.system a) (p : Int) : s.Asleep p ↔ p ∈ a.sleepers := by
  rw [good.inv.mem_sleepers, Asleep, state, good.tracks.state]

/-- The condition on a tick, read off the view. -/
theorem punctual_tick (good : Good s.system a) (rx : Option UInt8) :
    s.Punctual (.tick rx) ↔ ∀ p rest, a.sleepers = p :: rest → 0 < a.queuetab.key p := by
  have queue := good.inv.isQueue_sleepq
  have either : (isempty s.system.kernel.sleepq s.system.kernel.toSched ∨
      0 < firstkey s.system.kernel.sleepq s.system.kernel.toSched) ↔
        ∀ p rest, a.sleepers = p :: rest → 0 < a.queuetab.key p := by
    rw [good.tracks.sleepq, good.tracks.isempty_iff queue]
    change a.sleepers = [] ∨ _ ↔ _
    cases shape : a.sleepers with
    | nil => simp
    | cons p rest =>
      rw [good.tracks.firstkey_cons queue shape]
      constructor
      · rintro (empty | positive) p' rest' same
        · cases empty
        · obtain ⟨rfl, -⟩ := List.cons.inj same
          exact positive
      · exact fun positive => Or.inr (positive p rest rfl)
  rw [← either]
  exact ⟨fun punctual => punctual rx rfl, fun fine _ _ => fine⟩

/-- What a tick does to the noted ticks. -/
theorem Timed.tick {rx : Option UInt8} (timed : Timed s a due) (good : Good s.system a) (h : Step (.tick rx) s s')
    (punctual : s.Punctual (.tick rx)) : OnTime (.tick rx) s s' ∧ ∃ a', Good s'.system a' ∧ Timed s' a' due := by
  obtain ⟨step, ticks, wakes⟩ := h.system
  have ticks : s'.ticks = s.ticks + 1 := ticks
  have wakes : s'.wake = s.wake := wakes
  rw [punctual_tick good] at punctual
  obtain ⟨signals, b, c, quiet, a', all, before, ticked, quiets, after, good'⟩ := good.tick step
  have console := Aside.moves good.inv before all
  obtain ⟨moves, permits, run⟩ := ticked.moves rx
  have invB := good.inv.moves before
  have slice := Aside.moves (invB.moves run) after fun move member => Or.inl (quiets move member)
  have quietly := Quiet.moves after quiets
  have waits : ∀ p rest, b.sleepers = p :: rest → 0 < b.queuetab.key p := by
    intro p rest front
    rw [console.sleepers] at front
    rw [console.key p (front ▸ List.mem_cons_self)]
    exact punctual p rest front
  -- whoever sleeps is due at the next tick at the earliest, so what was noted for it is when it is due
  have noted : ∀ p ∈ a.sleepers, s.wake p = due p := by
    intro p member
    have later := timed.onSchedule.later punctual member
    rw [timed.wake p member]
    omega
  have effect : OnSchedule due (s.ticks + 1) c ∧ (∀ p ∈ c.sleepers, p ∈ a.sleepers ∧ s.ticks + 1 < due p) ∧
      ∀ p ∈ a.sleepers, p ∈ c.sleepers ∧ c.state p = a.state p ∨ due p = s.ticks + 1 ∧ c.state p = .ready := by
    have scheduled := console.onSchedule timed.onSchedule
    cases ticked with
    | idle empty same =>
      subst same
      have none : a.sleepers = [] := console.sleepers ▸ empty
      refine ⟨⟨?_, ?_⟩, ?_, ?_⟩
      · rw [empty]
        trivial
      all_goals simp [empty, none]
    | counted wakes tick =>
      obtain ⟨moved, left, rest⟩ := scheduled.tick invB tick waits
      rw [console.sleepers] at left rest
      refine ⟨moved, left, fun p member => ?_⟩
      rw [← console.state p member]
      exact rest p member
  obtain ⟨moved, left, split⟩ := effect
  refine ⟨⟨fun rx _ p asleep => ?_, fun between => absurd rfl (between rx)⟩, a', good', ?_, fun p member => ?_⟩
  · rw [asleep_iff good] at asleep
    have last : a'.state p = c.state p := quietly.state p
    rw [state, state, good'.tracks.state, good.tracks.state, last, ticks, noted p asleep]
    obtain ⟨still, kept⟩ | ⟨arrived, ready⟩ := split p asleep
    · have later := (left p still).2
      rw [if_neg (by omega)]
      exact kept
    · rw [if_pos arrived]
      exact ready
  · rw [ticks]
    exact slice.onSchedule moved
  · rw [slice.sleepers] at member
    obtain ⟨old, later⟩ := left p member
    rw [wakes, ticks, noted p old]
    omega

/-- A tick that finds a first sleeper with a zero key does not wake it, although it is the tick for it. -/
theorem Timed.late {rx : Option UInt8} (timed : Timed s a due) (good : Good s.system a) (h : Step (.tick rx) s s')
    (late : ¬ s.Punctual (.tick rx)) : ¬ OnTime (.tick rx) s s' := by
  intro onTime
  obtain ⟨step, ticks, -⟩ := h.system
  have ticks : s'.ticks = s.ticks + 1 := ticks
  rw [punctual_tick good] at late
  push Not at late
  obtain ⟨p, rest, front, zero⟩ := late
  obtain ⟨signals, b, c, quiet, a', all, before, ticked, quiets, after, good'⟩ := good.tick step
  have console := Aside.moves good.inv before all
  have member : p ∈ a.sleepers := front ▸ List.mem_cons_self
  have frontB : b.sleepers = p :: rest := console.sleepers.trans front
  cases ticked with
  | idle empty => cases empty.symm.trans frontB
  | counted wakes tick =>
    have zeroB : b.queuetab.key p ≤ 0 := (console.key p member).trans_le zero
    obtain ⟨arrived, kept⟩ := (console.onSchedule timed.onSchedule).overdue tick frontB zeroB
    have expected := onTime.ticked rx rfl p ((asleep_iff good p).mpr member)
    have noted : s.wake p = s'.ticks := by
      rw [timed.wake p member, arrived, ticks]
      omega
    have last : a'.state p = c.state p := (Quiet.moves after quiets).state p
    rw [if_pos noted, state, good'.tracks.state, last, kept, console.state p member] at expected
    have asleep := (good.inv.mem_sleepers.mp member).2
    simp [expected] at asleep

/-- The calls that note a tick. -/
def Notes (label : Label) : Prop := ∃ d : Int32, label = .call (.sleepms d) ∨ label = .call (.recvtime d)

theorem wakeAfter_other (p : Int) (other : Notes label → p ≠ s.system.kernel.currpid) :
    s.wakeAfter label p = s.wake p := by
  simp only [wakeAfter]
  split
  · next d => exact Function.update_of_ne (other ⟨d, Or.inl rfl⟩) _ _
  · next d => exact Function.update_of_ne (other ⟨d, Or.inr rfl⟩) _ _
  · rfl

/-- Going to sleep notes the tick for the delay. -/
theorem wakeAfter_sleep {state : PrState} {delay : Int} (permits : label.Permits (.sleep state delay)) :
    Notes label ∧ delay < 2147483648 ∧ s.wakeAfter label s.system.kernel.currpid = s.ticks + max delay 1 := by
  obtain ⟨d, rfl, rfl⟩ | ⟨d, rfl, rfl⟩ := Label.sleeps permits
  · exact ⟨⟨d, Or.inl rfl⟩, d.toInt_lt, Function.update_self _ _ _⟩
  · exact ⟨⟨d, Or.inr rfl⟩, d.toInt_lt, Function.update_self _ _ _⟩

/-- The sleep queue of a view on the way from one state to the next, with what is noted in the next. -/
structure Underway (label : Label) (s : Clocked) (a b : View) : Prop where
  inv : b.Inv
  timed : ∃ due, b.OnSchedule due s.ticks ∧ ∀ p ∈ b.sleepers, s.wakeAfter label p = max (due p) (s.ticks + 1)
  caller : Notes label → b.currpid = a.currpid

theorem Underway.move {b c : View} {move : Move} (underway : Underway label s a b) (good : Good s.system a)
    (between : ∀ rx, label ≠ .tick rx) (permits : label.Permits move) (h : Move.Step move b c) :
    Underway label s a c := by
  obtain ⟨due, onSchedule, noted⟩ := underway.timed
  have caller : Notes label → c.currpid = a.currpid := by
    rintro ⟨d, same⟩
    rw [← underway.caller ⟨d, same⟩]
    apply h.currpid
    rintro p rfl
    obtain ⟨psp, switch⟩ := permits.origin
    rcases same with rfl | rfl <;> cases switch
  refine ⟨underway.inv.step h, ?_, caller⟩
  by_cases clocked : move.Clocked
  · cases move with
    | sleep state delay =>
      obtain ⟨notes, range, later⟩ := wakeAfter_sleep (s := s) permits
      have here : s.system.kernel.currpid = b.currpid := by
        rw [good.tracks.currpid, underway.caller notes]
      have nonnegative : 0 ≤ delay := by
        cases h with
        | sleep new => omega
      have runs : b.state b.currpid = .curr := by
        cases h with
        | sleep _ runs => exact runs
      have effect : c = b.sleep state delay := by
        cases h
        rfl
      obtain ⟨asleep, members⟩ := onSchedule.sleep underway.inv runs state nonnegative range
      rw [← effect] at asleep members
      refine ⟨_, asleep, fun p member => ?_⟩
      by_cases new : p = b.currpid
      · subst new
        rw [Function.update_self, ← here, later]
        omega
      · rw [Function.update_of_ne new]
        exact noted p (((members p).mp member).resolve_left new)
    | tick | wake =>
      obtain ⟨rx, same⟩ := permits.origin
      exact absurd same (between rx)
    | withdraw p state =>
      obtain ⟨left, part⟩ := onSchedule.withdraw underway.inv h
      exact ⟨due, left, fun q member => noted q (part q member)⟩
    | _ => exact absurd clocked id
  · obtain ⟨same, -⟩ := h.sleepers_kept underway.inv clocked
    exact ⟨due, onSchedule.kept h underway.inv clocked, fun p member => noted p (same ▸ member)⟩

/-- Between ticks a sleeper keeps its tick, and a process that goes to sleep is put where its own belongs. -/
theorem Timed.between (timed : Timed s a due) (good : Good s.system a) (h : Step label s s')
    (between : ∀ rx, label ≠ .tick rx) :
    OnTime label s s' ∧ ∃ a' due', Good s'.system a' ∧ Timed s' a' due' := by
  obtain ⟨step, ticks, wakes⟩ := h.system
  have ticks : s'.ticks = s.ticks := by
    rw [ticks]
    cases label with
    | tick rx => exact absurd rfl (between rx)
    | _ => rfl
  obtain ⟨moves, a', permits, run, good'⟩ := good.step step
  have started : Underway label s a a := by
    refine ⟨good.inv, ⟨due, timed.onSchedule, fun p member => ?_⟩, fun _ => rfl⟩
    rw [← timed.wake p member]
    -- the caller runs, so it is not among the sleepers
    apply wakeAfter_other
    rintro ⟨d, same⟩ rfl
    have runs : running s.system.kernel.toSched := by
      rcases same with rfl | rfl <;> exact step.call.1
    have asleep := ((asleep_iff good _).mpr member).2
    rw [state, show (s.system.kernel.proctab s.system.kernel.currpid).prstate = .curr from runs] at asleep
    simp at asleep
  have arrived : Underway label s a a' :=
    Transition.Run.invariant_of_allowed (Underway label s a) label.Permits
      (fun _ _ _ permits h underway => underway.move good between permits h) run permits started
  obtain ⟨due', onSchedule, noted⟩ := arrived.timed
  refine ⟨⟨fun rx same => absurd same (between rx), fun _ p asleep => good.sleeps_on step between asleep.2⟩, a',
    due', good', ?_, ?_⟩
  · rw [ticks]
    exact onSchedule
  · rw [ticks, wakes]
    exact noted

/-! ## Runs -/

instance (s : Clocked) (label : Label) : Decidable (s.Punctual label) :=
  match label with
  | .tick rx => decidable_of_iff (isempty s.system.kernel.sleepq s.system.kernel.toSched ∨
      0 < firstkey s.system.kernel.sleepq s.system.kernel.toSched)
        ⟨fun fine _ _ => fine, fun punctual => punctual rx rfl⟩
  | .call _ | .goOn | .switch _ => isTrue (by intro _ other; cases other)

theorem timed_start (image : BootImage) (ram : Nat → UInt8) :
    ∃ a due, Good (start image ram).system a ∧ Timed (start image ram) a due := by
  have booted := boot_booted image int32 ram
  rw [start]
  generalize boot image int32 ram = booting at booted
  obtain ⟨a, good⟩ : ∃ a, Good booting a := ⟨_, booted.good grows_int32⟩
  have empty : a.sleepers = [] := by
    rw [List.eq_nil_iff_forall_not_mem]
    intro p member
    have asleep := (good.inv.mem_sleepers.mp member).2
    rw [← good.tracks.state, booted.prstate p] at asleep
    split at asleep <;> simp at asleep
  refine ⟨a, fun _ => 0, good, ⟨?_, ?_⟩, ?_⟩
  · rw [empty]
    trivial
  all_goals simp [empty]

theorem Timed.step (timed : Timed s a due) (good : Good s.system a) (h : Step label s s')
    (punctual : s.Punctual label) :
    OnTime label s s' ∧ ∃ a' due', Good s'.system a' ∧ Timed s' a' due' := by
  by_cases tick : ∃ rx, label = .tick rx
  · obtain ⟨rx, rfl⟩ := tick
    obtain ⟨onTime, a', good', timed'⟩ := timed.tick good h punctual
    exact ⟨onTime, a', due, good', timed'⟩
  · exact timed.between good h fun rx same => tick ⟨rx, same⟩

/-- One step treats the sleepers as it should exactly if it is not a tick that finds a first sleeper with key zero. -/
theorem Timed.punctual_iff (timed : Timed s a due) (good : Good s.system a) (h : Step label s s') :
    OnTime label s s' ↔ s.Punctual label := by
  constructor
  · intro onTime
    by_contra late
    obtain ⟨rx, rfl⟩ : ∃ rx, label = .tick rx := by
      rw [Punctual] at late
      push Not at late
      obtain ⟨rx, same, -⟩ := late
      exact ⟨rx, same⟩
    exact timed.late good h late onTime
  · exact fun punctual => (timed.step good h punctual).1

/-- In a run in which no tick finds a first sleeper with key zero, every step treats the sleepers as it should: each
becomes ready at the tick noted for it, which is still to come. The next step does so exactly if it meets the
condition too. -/
theorem onTime_iff (image : BootImage) (ram : Nat → UInt8) {labels : List Label}
    (run : Transition.Run (fun label s s' => Step label s s' ∧ s.Punctual label) labels (start image ram) s) :
    Transition.Run OnTime labels (start image ram) s ∧ (∀ p, s.Asleep p → s.ticks < s.wake p) ∧
      ∀ label s', Step label s s' → (OnTime label s s' ↔ s.Punctual label) := by
  have started := timed_start image ram
  generalize start image ram = s₀ at run started ⊢
  obtain ⟨onTime, a, due, good, timed⟩ := run.strengthen (fun s => ∃ a due, Good s.system a ∧ Timed s a due)
    (fun label s s' ⟨step, punctual⟩ ⟨a, due, good, timed⟩ => timed.step good step punctual) started
  refine ⟨onTime, fun p asleep => ?_, fun label s' step => timed.punctual_iff good step⟩
  rw [timed.wake p ((asleep_iff good p).mp asleep)]
  omega

/-- The steps one after the other, as long as no tick finds a first sleeper with key zero. -/
def exec : List Label → Clocked → Option Clocked
  | [], s => some s
  | label :: labels, s => if s.Punctual label then (s.step label).bind fun (_, s') => exec labels s' else none

theorem run_exec {labels : List Label} {s s' : Clocked} (returns : exec labels s = some s') :
    Transition.Run (fun label s s' => Step label s s' ∧ s.Punctual label) labels s s' := by
  induction labels generalizing s with
  | nil => exact Option.some.inj returns ▸ .nil s
  | cons label labels inductionHypothesis =>
    simp only [exec, Option.ite_none_right_eq_some] at returns
    obtain ⟨punctual, returns⟩ := returns
    obtain ⟨⟨ret, s₁⟩, taken, rest⟩ := Option.bind_eq_some_iff.mp returns
    exact .cons ⟨⟨ret, taken⟩, punctual⟩ (inductionHypothesis rest)

/-- A process is created and comes to run. -/
def oneStarted : List Label :=
  [.call (.create 0x08017000 1024 20 [] []), .call (.resume 1), .switch 0x2001e000]

set_option maxRecDepth 100000 in
/-- The process sleeps for two ticks. -/
theorem twoTicks_onTime : ∃ s, s.state 1 = .ready ∧
    Transition.Run OnTime (oneStarted ++ [.call (.sleepms 2), .switch 0x2001d000, .tick none, .tick none])
      (start smallImage fun _ => 0) s := by
  have runs : ((exec (oneStarted ++ [.call (.sleepms 2), .switch 0x2001d000, .tick none, .tick none])
      (start smallImage fun _ => 0)).map fun s => s.state 1) = some .ready := by decide +kernel
  obtain ⟨s, returns, ready⟩ := Option.map_eq_some_iff.mp runs
  exact ⟨s, ready, (onTime_iff smallImage _ (run_exec returns)).1⟩

set_option maxRecDepth 100000 in
/-- A process that waits for a message with a limit of zero is not made ready by the next tick. -/
theorem zeroLimit_late :
    ¬ ∀ {labels : List Label} {s s' : Clocked} {label : Label}, Transition.Run Step labels
      (start smallImage fun _ => 0) s →
      Step label s s' → OnTime label s s' := by
  intro claimed
  have runs : ((exec (oneStarted ++ [.call (.recvtime 0), .switch 0x2001d000]) (start smallImage fun _ => 0)).bind
      fun s => (s.step (.tick none)).map fun (_, s') => ((s.state 1, s.wake 1), s'.ticks, s'.state 1)) =
        some ((.rectim, 1), 1, .rectim) := by decide +kernel
  obtain ⟨s, returns, ticked⟩ := Option.bind_eq_some_iff.mp runs
  obtain ⟨⟨ret, s'⟩, taken, found⟩ := Option.map_eq_some_iff.mp ticked
  obtain ⟨before, after⟩ := Prod.mk.inj found
  obtain ⟨asleep, noted⟩ := Prod.mk.inj before
  obtain ⟨ticks, still⟩ := Prod.mk.inj after
  have onTime := claimed ((run_exec returns).weaken fun _ _ _ both => both.1) ⟨ret, taken⟩
  have ready := onTime.ticked none rfl 1 ⟨by decide, Or.inr asleep⟩
  rw [if_pos (noted.trans ticks.symm), still] at ready
  cases ready

end Clocked

end XinuStm32
