import XinuStm32.Abstract.Effects
import XinuStm32.Lib.Agenda

/-!
# The sleep queue

The sleep queue is an agenda: with the tick at which each sleeper is due, every key is the delay after the
sleeper in front. Only the moves of the clock and of sleepers touch it.
-/

namespace XinuStm32

open View Agenda

namespace View

/-- The sleeping processes, the next one to wake first. -/
def sleepers (a : View) : List Int := a.members a.sleepq

/-- The sleep queue is an agenda for these times, none of which is too far ahead for an `int32`. -/
structure OnSchedule (due : Int → Int) (now : Int) (a : View) : Prop where
  scheduled : Scheduled a.queuetab.key due now a.sleepers
  bounded : ∀ p ∈ a.sleepers, due p - now < 2147483648

theorem Inv.mem_sleepers {a : View} (inv : a.Inv) {p : Int} :
    p ∈ a.sleepers ↔ IsPid p ∧ (a.state p = .sleep ∨ a.state p = .rectim) := by
  refine ⟨inv.asleep_of_mem, fun asleep => inv.placed.mpr ⟨asleep.1, home_asleep asleep.2⟩⟩

theorem Inv.nodup_sleepers {a : View} (inv : a.Inv) : a.sleepers.Nodup := inv.wellFormed.nodup _

end View

/-! ## Moves that do not concern sleepers -/

/-- The moves that change the sleep queue. -/
def Move.Clocked : Move → Prop
  | .sleep .. | .tick | .wake | .withdraw .. => True
  | _ => False

/-- Any other move leaves the sleep queue and its keys as they are. -/
theorem Move.Step.sleepers_kept {move : Move} {a a' : View} (h : Move.Step move a a') (inv : a.Inv)
    (other : ¬ move.Clocked) :
    a'.sleepers = a.sleepers ∧ ∀ x ∈ a.sleepers, a'.queuetab.key x = a.queuetab.key x := by
  have apart {p : Int} (awake : ¬ (a.state p = .sleep ∨ a.state p = .rectim)) {x : Int} (member : x ∈ a.sleepers) :
      x ≠ p := fun same => awake (same ▸ (inv.mem_sleepers.mp member).2)
  cases h with
  | quiet quiet =>
    rw [quiet.rest]
    exact ⟨rfl, fun _ _ => rfl⟩
  | accept | chprio | spawn | post | pass | setCount | close => exact ⟨rfl, fun _ _ => rfl⟩
  | @ready _ p _ idle =>
    refine ⟨?_, fun x member => ?_⟩
    · simp [sleepers, inv.readylist_ne_sleepq.symm]
    · have different := apart (p := p) (by rcases idle with state | state <;> simp [state]) member
      simp [different]
  | preempt runs =>
    refine ⟨?_, fun x member => ?_⟩
    · simp [sleepers, inv.readylist_ne_sleepq.symm]
    · have different := apart (p := a.currpid) (by simp [runs]) member
      simp [different]
  | dispatch =>
    refine ⟨?_, fun x _ => rfl⟩
    simp [sleepers, inv.readylist_ne_sleepq.symm]
  | @release _ sem p _ valid _ front =>
    have queue := inv.squeue_ne_sleepq valid
    have waiting := inv.waiting_of_mem valid (front ▸ List.mem_cons_self)
    refine ⟨?_, fun x member => ?_⟩
    · simp [sleepers, addCount, inv.readylist_ne_sleepq.symm, queue.symm]
    · have different := apart (p := p) (by simp [waiting]) member
      simp [different]
  | @drain _ sem p _ valid front =>
    have queue := inv.squeue_ne_sleepq valid
    have waiting := inv.waiting_of_mem valid (front ▸ List.mem_cons_self)
    refine ⟨?_, fun x member => ?_⟩
    · simp [sleepers, inv.readylist_ne_sleepq.symm, queue.symm]
    · have different := apart (p := p) (by simp [waiting]) member
      simp [different]
  | block valid =>
    have queue := inv.squeue_ne_sleepq valid
    refine ⟨?_, fun x _ => rfl⟩
    simp [sleepers, addCount, queue.symm]
  | @abandon _ p _ waiting =>
    have queue := inv.squeue_ne_sleepq (inv.waits ‹_› waiting)
    refine ⟨?_, fun x _ => by simp⟩
    simp [sleepers, addCount, queue.symm]
  | leaveCurr | leaveIdle =>
    refine ⟨by simp [sleepers], fun x _ => by simp⟩
  | take =>
    refine ⟨?_, fun x _ => by simp⟩
    simp [sleepers, inv.readylist_ne_sleepq.symm]
  | sleep | tick | wake | withdrawReady | withdrawFree => exact absurd trivial other

namespace View

variable {a a' : View} {due : Int → Int} {now : Int}

theorem OnSchedule.kept (onSchedule : OnSchedule due now a) {move : Move} (h : Move.Step move a a') (inv : a.Inv)
    (other : ¬ move.Clocked) : OnSchedule due now a' := by
  obtain ⟨same, keys⟩ := h.sleepers_kept inv other
  refine ⟨?_, fun p member => onSchedule.bounded p (same ▸ member)⟩
  rw [same]
  exact onSchedule.scheduled.congr keys fun _ _ => rfl

/-! ## Going to sleep -/

/-- Where `insertd` puts a delay: the sleepers before it are due by then, and those behind it later. What is left
of the delay counts from the last before it. -/
theorem deltaSplit_scheduled {key : Int → Int} {members : List Int} {delay : Int}
    (scheduled : Scheduled key due now members) (nonnegative : 0 ≤ delay) (range : delay < 2147483648) :
    let split := Lists.deltaSplit key members delay
    finish due now split.1 ≤ now + delay ∧ (∀ p ∈ split.2.1, now + delay < due p) ∧
      split.2.2 = now + delay - finish due now split.1 := by
  induction members generalizing now delay with
  | nil =>
    simp only [Lists.deltaSplit, finish]
    exact ⟨by omega, by simp, by omega⟩
  | cons p rest inductionHypothesis =>
    obtain ⟨keyNonnegative, here, later⟩ := scheduled
    by_cases before : key p ≤ delay
    · have left : int32 (delay - key p) = delay - key p := int32_of_range (by omega) (by omega)
      have rest' := @inductionHypothesis (due p) (delay - key p) later (by omega) (by omega)
      have time : due p + (delay - key p) = now + delay := by omega
      rw [time] at rest'
      simp only [Lists.deltaSplit, if_pos before, left, finish]
      exact rest'
    · simp only [Lists.deltaSplit, if_neg before, finish]
      refine ⟨by omega, fun q member => ?_, by omega⟩
      have first := Scheduled.first_le ⟨keyNonnegative, here, later⟩ member
      omega

/-- A delay goes into a queue of sleepers in its place, and the first behind it waits that much less. -/
theorem insertDelta_scheduled {lists : Lists} {q p delay : Int}
    (scheduled : Scheduled lists.key due now (lists.elems q))
    (bounded : ∀ x ∈ lists.elems q, due x - now < 2147483648) (distinct : (lists.elems q).Nodup)
    (absent : p ∉ lists.elems q) (nonnegative : 0 ≤ delay) (range : delay < 2147483648) :
    Scheduled (lists.insertDelta p q delay).key (Function.update due p (now + delay)) now
      ((lists.insertDelta p q delay).elems q) := by
  have whole := Lists.deltaSplit_append lists.key (lists.elems q) delay
  obtain ⟨after, before, left⟩ := deltaSplit_scheduled scheduled nonnegative range
  simp only [Lists.insertDelta]
  generalize Lists.deltaSplit lists.key (lists.elems q) delay = split at whole after before left ⊢
  obtain ⟨front, back, rest⟩ := split
  simp only at whole after before left ⊢
  rw [← whole] at scheduled distinct absent bounded
  have dues : ∀ x ∈ front ++ back, Function.update due p (now + delay) x = due x := by
    intro x member
    exact Function.update_of_ne (fun same : x = p => absent (same ▸ member)) _ _
  have ahead : ∀ x ∈ front, x ≠ p := fun x member same => absent (same ▸ List.mem_append_left _ member)
  cases back with
  | nil =>
    simp only [Lists.elems_setKey, Lists.elems_setElems, if_pos]
    refine scheduled.insert after (fun x member => Int.le_of_lt (before x member)) ?_
      (Function.update_self _ _ _) ?_ trivial dues
    · simp [left]
    · intro x member
      simp [ahead x member]
  | cons next behind =>
    have notNext : p ≠ next := fun same => absent (same ▸ by simp)
    have nextOnly : next ∉ front ∧ next ∉ behind := by
      have parts := (List.nodup_middle.mp distinct)
      rw [List.nodup_cons, List.mem_append, not_or] at parts
      exact parts.1
    have key : lists.key next = due next - finish due now front := by
      have here := (scheduled_append.mp scheduled).2.2.1
      omega
    have soon := before next List.mem_cons_self
    have far := bounded next (by simp)
    have wraps : int32 (lists.key next - rest) = lists.key next - rest := by
      have start := (scheduled_append.mp scheduled).1
      apply int32_of_range <;> omega
    simp only [Lists.elems_setKey, Lists.elems_setElems, if_pos]
    refine scheduled.insert after (fun x member => Int.le_of_lt (before x member)) ?_ (Function.update_self _ _ _) ?_
      ⟨?_, ?_⟩ dues
    · simp [left, notNext]
    · intro x member
      have other : x ≠ next := fun same => nextOnly.1 (same ▸ member)
      simp [ahead x member, other]
    · rw [Lists.key_setKey, if_pos rfl, wraps]
      omega
    · intro x member
      have other : x ≠ next := fun same => nextOnly.2 (same ▸ member)
      have notNew : x ≠ p := fun same => absent (same ▸ by simp [member])
      simp [other, notNew]

theorem OnSchedule.sleep (onSchedule : OnSchedule due now a) (inv : a.Inv) (runs : a.state a.currpid = .curr)
    (state : PrState) {delay : Int} (nonnegative : 0 ≤ delay) (range : delay < 2147483648) :
    OnSchedule (Function.update due a.currpid (now + delay)) now (a.sleep state delay) ∧
      ∀ p, p ∈ (a.sleep state delay).sleepers ↔ p = a.currpid ∨ p ∈ a.sleepers := by
  have absent : a.currpid ∉ a.sleepers := fun member => by
    have asleep := (inv.mem_sleepers.mp member).2
    rw [runs] at asleep
    simp at asleep
  have members (p : Int) : p ∈ (a.sleep state delay).sleepers ↔ p = a.currpid ∨ p ∈ a.sleepers := by
    obtain ⟨front, back, split, elems⟩ := a.queuetab.elems_insertDelta a.currpid a.sleepq delay
    change p ∈ (a.queuetab.insertDelta a.currpid a.sleepq delay).elems a.sleepq ↔
      p = a.currpid ∨ p ∈ a.queuetab.elems a.sleepq
    rw [elems, Lists.elems_setElems, if_pos rfl, split]
    simp only [List.mem_append, List.mem_cons]
    tauto
  refine ⟨⟨?_, fun p member => ?_⟩, members⟩
  · exact insertDelta_scheduled onSchedule.scheduled onSchedule.bounded inv.nodup_sleepers absent nonnegative range
  · obtain rfl | before := (members p).mp member
    · rw [Function.update_self]
      omega
    · have other : p ≠ a.currpid := fun same => absent (same ▸ before)
      rw [Function.update_of_ne other]
      exact onSchedule.bounded p before

/-! ## Leaving the queue -/

/-- A view with part of the sleepers, whose keys are right. -/
theorem OnSchedule.part (onSchedule : OnSchedule due now a) (part : ∀ p ∈ a'.sleepers, p ∈ a.sleepers)
    (scheduled : Scheduled a'.queuetab.key due now a'.sleepers) : OnSchedule due now a' :=
  ⟨scheduled, fun p member => onSchedule.bounded p (part p member)⟩

/-- Taking a sleeper out, with the one behind it waiting for both delays. -/
theorem OnSchedule.bumpOut (onSchedule : OnSchedule due now a) (inv : a.Inv) {p : Int} {front behind : List Int}
    (split : a.sleepers = front ++ p :: behind) :
    OnSchedule due now ((a.bump p behind).out p a.sleepq) ∧
      ((a.bump p behind).out p a.sleepq).sleepers = front ++ behind := by
  have distinct := inv.nodup_sleepers
  rw [split, List.nodup_middle, List.nodup_cons, List.mem_append, not_or] at distinct
  have left : ((a.bump p behind).out p a.sleepq).sleepers = front ++ behind := by
    simp only [sleepers, sleepq_out, sleepq_bump, members_out, if_pos, members_bump]
    change a.sleepers.erase p = _
    rw [split, List.erase_append_right _ distinct.1.1, List.erase_cons_head]
  refine ⟨onSchedule.part (fun q member => ?_) ?_, left⟩
  · rw [left, List.mem_append] at member
    rw [split, List.mem_append, List.mem_cons]
    tauto
  have scheduled := onSchedule.scheduled
  have bounded := onSchedule.bounded
  rw [split] at scheduled bounded
  rw [left, key_out]
  cases behind with
  | nil => exact scheduled.remove (fun _ _ => rfl) trivial
  | cons next rest =>
    have apart := (List.nodup_middle.mp distinct.2)
    rw [List.nodup_cons, List.mem_append, not_or] at apart
    have sum : int32 (a.queuetab.key next + a.queuetab.key p) = a.queuetab.key next + a.queuetab.key p := by
      have far := bounded next (by simp)
      obtain ⟨start, nonnegative, here, nonnegative', there, -⟩ := scheduled_append.mp scheduled
      have first := start.now_le_finish
      apply int32_of_range <;> omega
    refine scheduled.remove (fun q member => ?_) ⟨?_, fun q member => ?_⟩
    · have other : q ≠ next := fun same => apart.1.1 (same ▸ member)
      simp [bump, other]
    · simp [bump, sum]
    · have other : q ≠ next := fun same => apart.1.2 (same ▸ member)
      simp [bump, other]

/-- A process that is not among the sleepers becomes ready. -/
theorem OnSchedule.makeReady (onSchedule : OnSchedule due now a) {p : Int} (absent : p ∉ a.sleepers)
    (other : a.sleepq ≠ a.readylist) :
    OnSchedule due now (a.makeReady p) ∧ (a.makeReady p).sleepers = a.sleepers := by
  have same : (a.makeReady p).sleepers = a.sleepers := by
    simp [sleepers, other]
  refine ⟨onSchedule.part (fun q member => same ▸ member) ?_, same⟩
  rw [same]
  refine onSchedule.scheduled.congr (fun q member => ?_) fun _ _ => rfl
  have different : q ≠ p := fun here => absent (here ▸ member)
  simp [different]

theorem OnSchedule.settle (onSchedule : OnSchedule due now a) (p : Int) (state : PrState) :
    OnSchedule due now (a.settle p state) ∧ (a.settle p state).sleepers = a.sleepers := by
  have same : (a.settle p state).sleepers = a.sleepers := by
    simp [sleepers]
  refine ⟨onSchedule.part (fun q member => same ▸ member) ?_, same⟩
  rw [same, key_settle]
  exact onSchedule.scheduled

/-- A sleeper that is withdrawn leaves the others due when they were. -/
theorem OnSchedule.withdraw (onSchedule : OnSchedule due now a) (inv : a.Inv) {p : Int} {state : PrState}
    (h : Move.Step (.withdraw p state) a a') :
    OnSchedule due now a' ∧ ∀ q ∈ a'.sleepers, q ∈ a.sleepers := by
  have distinct := inv.nodup_sleepers
  cases h with
  | @withdrawReady _ p front behind _ split =>
    have split : a.sleepers = front ++ p :: behind := split
    obtain ⟨taken, left⟩ := onSchedule.bumpOut inv split
    rw [split, List.nodup_middle, List.nodup_cons] at distinct
    obtain ⟨ready, same⟩ := taken.makeReady (left ▸ distinct.1) (by simpa using inv.readylist_ne_sleepq.symm)
    refine ⟨ready, fun q member => ?_⟩
    rw [same, left] at member
    rw [split]
    exact (List.sublist_cons_self p behind).append_left front |>.subset member
  | @withdrawFree _ p front behind split =>
    have split : a.sleepers = front ++ p :: behind := split
    obtain ⟨taken, left⟩ := onSchedule.bumpOut inv split
    obtain ⟨settled, same⟩ := taken.settle p .free
    refine ⟨settled, fun q member => ?_⟩
    rw [same, left] at member
    rw [split]
    exact (List.sublist_cons_self p behind).append_left front |>.subset member

/-! ## The clock -/

/-- Counting down a first sleeper that is not yet due moves the whole queue on by one tick. -/
theorem OnSchedule.countDown (onSchedule : OnSchedule due now a) (inv : a.Inv) {p : Int} {rest : List Int}
    (front : a.sleepers = p :: rest) (waits : 0 < a.queuetab.key p) :
    OnSchedule due (now + 1) (a.countDown p) ∧ (a.countDown p).queuetab.key p = a.queuetab.key p - 1 := by
  have distinct := inv.nodup_sleepers
  have scheduled := onSchedule.scheduled
  have bounded := onSchedule.bounded
  rw [front] at distinct scheduled bounded
  have far := bounded p List.mem_cons_self
  have here := scheduled.2.1
  have counted : int32 (a.queuetab.key p - 1) = a.queuetab.key p - 1 := int32_of_range (by omega) (by omega)
  have key : (a.countDown p).queuetab.key p = a.queuetab.key p - 1 := by
    simp [View.countDown, counted]
  have same : (a.countDown p).sleepers = p :: rest := front
  refine ⟨⟨?_, fun q member => ?_⟩, key⟩
  · rw [same]
    refine scheduled.tick waits key fun q member => ?_
    have other : q ≠ p := fun here => (List.nodup_cons.mp distinct).1 (here ▸ member)
    simp [View.countDown, other]
  · have before := bounded q (same ▸ member)
    omega

/-- A first sleeper whose delay has run out is due now. -/
theorem OnSchedule.wake (onSchedule : OnSchedule due now a) (inv : a.Inv) (h : Move.Step .wake a a') :
    OnSchedule due now a' ∧ ∃ p, a.sleepers = p :: a'.sleepers ∧ due p = now ∧ a'.state p = .ready ∧
      ∀ q, q ≠ p → a'.state q = a.state q := by
  cases h with
  | @wake _ p rest front runsOut =>
    have front : a.sleepers = p :: rest := front
    have distinct := inv.nodup_sleepers
    have scheduled := onSchedule.scheduled
    rw [front] at distinct scheduled
    obtain ⟨nonnegative, here, later⟩ := scheduled
    have arrived : due p = now := by omega
    have left : (a.out p a.sleepq).sleepers = rest := by
      simp only [sleepers, sleepq_out, members_out, if_pos]
      change a.sleepers.erase p = rest
      rw [front, List.erase_cons_head]
    have taken : OnSchedule due now (a.out p a.sleepq) := by
      refine onSchedule.part (fun q member => ?_) ?_
      · rw [left] at member
        rw [front]
        exact List.mem_cons_of_mem p member
      · rw [left, key_out]
        exact arrived ▸ later
    obtain ⟨ready, same⟩ := taken.makeReady (left ▸ (List.nodup_cons.mp distinct).1)
      (by simpa using inv.readylist_ne_sleepq.symm)
    refine ⟨ready, p, by rw [same, left, front], arrived, by simp, fun q other => by simp [other]⟩

/-- Waking sleepers from the front wakes some that are due now and no others. -/
theorem OnSchedule.wakes {moves : List Move} (onSchedule : OnSchedule due now a) (inv : a.Inv)
    (run : Moves moves a a') (all : ∀ move ∈ moves, move = .wake) :
    OnSchedule due now a' ∧ (∀ p ∉ a.sleepers, p ∉ a'.sleepers ∧ a'.state p = a.state p) ∧ ∀ p ∈ a.sleepers,
      p ∈ a'.sleepers ∧ a'.state p = a.state p ∨ p ∉ a'.sleepers ∧ due p = now ∧ a'.state p = .ready := by
  induction run with
  | nil a => exact ⟨onSchedule, fun p absent => ⟨absent, rfl⟩, fun p member => Or.inl ⟨member, rfl⟩⟩
  | @cons move moves a b a' h rest inductionHypothesis =>
    obtain rfl := all move List.mem_cons_self
    have distinct := inv.nodup_sleepers
    obtain ⟨next, p, front, here, ready, others⟩ := onSchedule.wake inv h
    obtain ⟨onSchedule', absent, present⟩ := inductionHypothesis next (inv.step h)
      fun move member => all move (List.mem_cons_of_mem _ member)
    rw [front] at distinct ⊢
    have gone := (List.nodup_cons.mp distinct).1
    refine ⟨onSchedule', fun q outside => ?_, fun q member => ?_⟩
    · rw [List.mem_cons, not_or] at outside
      obtain ⟨absent', kept⟩ := absent q outside.2
      exact ⟨absent', kept.trans (others q outside.1)⟩
    · by_cases first : q = p
      · subst first
        obtain ⟨absent', kept⟩ := absent q gone
        exact Or.inr ⟨absent', here, kept.trans ready⟩
      · obtain ⟨still, kept⟩ | woken := present q ((List.mem_cons.mp member).resolve_left first)
        · exact Or.inl ⟨still, kept.trans (others q first)⟩
        · exact Or.inr woken

end View

end XinuStm32
