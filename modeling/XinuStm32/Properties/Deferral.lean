import XinuStm32.Kernel.System
import XinuStm32.Kernel.Frame
import XinuStm32.Lib.Transition

/-!
# Deferred rescheduling

Deferrals are started and stopped in any nesting, with requests and activations of `PendSV_Handler` anywhere between
them. As long as the deferral counter does not overflow it counts the open deferrals, no activation switches while one
is open, and what was requested or attempted inside the outermost one is pending when it is closed.
-/

namespace XinuStm32

open Transition

/-- What happens around the deferrals; `work` is code that leaves them, the pending bit and `currpid` alone. -/
inductive DeferEvent where
  | start
  | stop
  | request
  | activation (psp : Nat)
  | work

namespace DeferEvent

variable {s s' t u : Kernel} {event : DeferEvent} {events front inside : List DeferEvent} {opened : Nat}

inductive Step : DeferEvent → Kernel → Kernel → Prop where
  | start {s : Kernel} : Step .start s (reschedCntl .start s).2
  | stop {s : Kernel} : Step .stop s (reschedCntl .stop s).2
  | request {s : Kernel} : Step .request s (pendSV s)
  | activation {s : Kernel} (psp : Nat) : Step (.activation psp) s (pendSVHandler psp s)
  | work {s s' : Kernel} (defer : s'.defer = s.defer) (pendsv : s'.pendsv = s.pendsv)
      (currpid : s'.currpid = s.currpid) : Step .work s s'

/-- A context switch is asked for. -/
def Schedules : DeferEvent → Prop
  | request => True
  | activation _ => True
  | _ => False

/-- The open deferrals after an event; a stop without one changes nothing. -/
def count (opened : Nat) : DeferEvent → Nat
  | start => opened + 1
  | stop => opened - 1
  | _ => opened

/-- The open deferrals after events that begin with `opened` of them. -/
def openFrom (opened : Nat) (events : List DeferEvent) : Nat := events.foldl count opened

/-- No more deferrals are open at a time than an `int32` can count. -/
def Countable (opened : Nat) (events : List DeferEvent) : Prop :=
  ∀ first, first <+: events → openFrom opened first < 2 ^ 31

/-- The events between the start that opens the outermost deferral and the stop that closes it. -/
structure Outermost (front inside : List DeferEvent) : Prop where
  outside : openFrom 0 front = 0
  stays : ∀ first, first <+: inside → 0 < openFrom 1 first
  closing : openFrom 1 inside = 1

@[simp] theorem openFrom_nil (opened : Nat) : openFrom opened [] = opened := rfl

@[simp] theorem openFrom_cons (opened : Nat) (event : DeferEvent) (events : List DeferEvent) :
    openFrom opened (event :: events) = openFrom (count opened event) events := rfl

@[simp] theorem openFrom_append (opened : Nat) (front back : List DeferEvent) :
    openFrom opened (front ++ back) = openFrom (openFrom opened front) back := List.foldl_append

theorem Countable.tail (countable : Countable opened (event :: events)) : Countable (count opened event) events :=
  fun first isPrefix => countable (event :: first) ((List.prefix_cons_inj event).mpr isPrefix)

theorem Countable.next (countable : Countable opened (event :: events)) : count opened event < 2 ^ 31 :=
  countable [event] ⟨events, rfl⟩

theorem Countable.before {back : List DeferEvent} (countable : Countable opened (front ++ back)) :
    Countable opened front := fun first isPrefix => countable first (isPrefix.trans (List.prefix_append _ _))

theorem Countable.behind {back : List DeferEvent} (countable : Countable opened (front ++ back)) :
    Countable (openFrom opened front) back := by
  intro first isPrefix
  rw [← openFrom_append]
  exact countable (front ++ first) ((List.prefix_append_right_inj front).mpr isPrefix)

theorem openFrom_le (opened : Nat) (events : List DeferEvent) : openFrom opened events ≤ opened + events.length := by
  induction events generalizing opened with
  | nil => exact Nat.le_refl opened
  | cons event events inductionHypothesis =>
    have rest := inductionHypothesis (count opened event)
    have step : count opened event ≤ opened + 1 := by
      cases event <;> simp only [count] <;> omega
    rw [openFrom_cons, List.length_cons]
    omega

/-- The counter does not overflow in short runs. -/
theorem countable_of_length (short : opened + events.length < 2 ^ 31) : Countable opened events := by
  intro first isPrefix
  have few := openFrom_le opened first
  have length := isPrefix.length_le
  omega

/-! ## The counter -/

/-- A step counts the open deferrals, as long as they fit. -/
theorem Step.ndefers (step : Step event s s') (counts : s.defer.ndefers = opened) (fits : count opened event < 2 ^ 31) :
    s'.defer.ndefers = count opened event := by
  cases step with
  | start =>
    change increment32 s.defer.ndefers = (opened + 1 : Nat)
    have room : s.defer.ndefers ≠ 2147483647 := by
      simp only [count] at fits
      omega
    rw [increment32, if_neg room, counts]
    rfl
  | stop =>
    change _ = ((opened - 1 : Nat) : Int)
    simp only [reschedCntl]
    split
    · change s.defer.ndefers = _
      omega
    · split
      · change s.defer.ndefers - 1 = _
        omega
      · change s.defer.ndefers - 1 = _
        omega
  | request => exact counts
  | activation psp => exact (frame_pendSVHandler psp).ndefers.trans counts
  | work defer => rw [defer]; exact counts

theorem run_ndefers (run : Run Step events s s') (counts : s.defer.ndefers = opened)
    (countable : Countable opened events) : s'.defer.ndefers = openFrom opened events := by
  induction run generalizing opened with
  | nil => exact counts
  | cons step _ inductionHypothesis => exact inductionHypothesis (step.ndefers counts countable.next) countable.tail

/-! ## Inside a deferral -/

/-- A deferred activation switches nothing. -/
theorem activation_deferred (deferred : 0 < s.defer.ndefers) (psp : Nat) :
    (pendSVHandler psp s).currpid = s.currpid ∧ (pendSVHandler psp s).defer.attempt = true := by
  have positive : ({ s with pendsv := false } : Kernel).defer.ndefers > 0 := deferred
  simp only [pendSVHandler]
  rw [if_pos positive]
  exact ⟨rfl, rfl⟩

/-- A request is pending or an attempt is recorded. -/
def Noted (s : Kernel) : Prop := s.pendsv = true ∨ s.defer.attempt = true

/-- Until the outermost deferral is closed, nothing that was noted is forgotten, and what is asked for is noted. -/
theorem Step.noted (step : Step event s s') (deferred : 0 < s.defer.ndefers) (stays : 0 < s'.defer.ndefers)
    (noted : Noted s ∨ event.Schedules) : Noted s' := by
  cases step with
  | start =>
    have nested : s.defer.ndefers ≠ 0 := by omega
    have kept : (reschedCntl .start s).2.defer.attempt = s.defer.attempt := if_neg nested
    have before := noted.resolve_right id
    rw [Noted, kept]
    exact before
  | stop =>
    have before := noted.resolve_right id
    have some : ¬s.defer.ndefers ≤ 0 := by omega
    simp only [reschedCntl] at stays ⊢
    rw [if_neg some] at stays ⊢
    split
    · exact Or.inl rfl
    · exact before
  | request => exact Or.inl rfl
  | activation psp => exact Or.inr (activation_deferred deferred psp).2
  | work defer pendsv =>
    have before := noted.resolve_right id
    rw [Noted, pendsv, defer]
    exact before

theorem run_noted (run : Run Step inside s s') (counts : s.defer.ndefers = opened)
    (countable : Countable opened inside) (stays : ∀ first, first <+: inside → 0 < openFrom opened first)
    (noted : Noted s ∨ ∃ event ∈ inside, event.Schedules) : Noted s' := by
  induction run generalizing opened with
  | nil => exact noted.resolve_right (by simp)
  | @cons event inside s t s' step rest inductionHypothesis =>
    have next := step.ndefers counts countable.next
    have deferred : 0 < s.defer.ndefers := by
      have here := stays [] (List.nil_prefix)
      rw [openFrom_nil] at here
      omega
    have still : 0 < t.defer.ndefers := by
      have here := stays [event] ⟨inside, rfl⟩
      rw [openFrom_cons, openFrom_nil] at here
      omega
    apply inductionHypothesis next countable.tail
      (fun first isPrefix => stays (event :: first) ((List.prefix_cons_inj event).mpr isPrefix))
    -- Whatever asks for a switch is this event or a later one.
    cases noted with
    | inl before => exact Or.inl (step.noted deferred still (Or.inl before))
    | inr later =>
      obtain ⟨asking, member, schedules⟩ := later
      cases List.mem_cons.mp member with
      | inl here => exact Or.inl (step.noted deferred still (Or.inr (here ▸ schedules)))
      | inr behind => exact Or.inr ⟨asking, behind, schedules⟩

/-- The stop that closes the outermost deferral requests what was attempted. -/
theorem stop_pending (last : s.defer.ndefers = 1) (noted : Noted s) : (reschedCntl .stop s).2.pendsv = true := by
  have some : ¬s.defer.ndefers ≤ 0 := by omega
  simp only [reschedCntl]
  rw [if_neg some]
  split
  · rfl
  · next quiet =>
    cases noted with
    | inl pending => exact pending
    | inr attempted => exact absurd ⟨by omega, attempted⟩ quiet

theorem stop_unmatched (none : s.defer.ndefers = 0) : reschedCntl .stop s = (SYSERR, s) := by
  simp only [reschedCntl]
  exact if_pos (by omega)

/-! ## Whole runs -/

/-- What is asked of the deferrals at the end of a run. -/
structure Keeps (events : List DeferEvent) (s : Kernel) : Prop where
  nonnegative : 0 ≤ s.defer.ndefers
  counted : s.defer.ndefers = openFrom 0 events
  deferred : 0 < s.defer.ndefers → ∀ psp, (pendSVHandler psp s).currpid = s.currpid
  unmatched : openFrom 0 events = 0 → reschedCntl .stop s = (SYSERR, s)
  pending : ∀ front inside, events = front ++ start :: (inside ++ [stop]) → Outermost front inside →
    (∃ event ∈ inside, event.Schedules) → s.pendsv = true

/-- The deferrals are kept in every run in which the counter can count them. -/
theorem deferral_kept (idle : s.defer.ndefers = 0) (run : Run Step events s s') (countable : Countable 0 events) :
    Keeps events s' := by
  have counts := run_ndefers run idle countable
  constructor
  · omega
  · exact counts
  · exact fun deferred psp => (activation_deferred deferred psp).1
  · intro none
    apply stop_unmatched
    rw [counts, none]
    rfl
  · rintro front inside rfl outermost asked
    obtain ⟨t, before, opening⟩ := run.split
    cases opening with
    | cons first rest =>
      obtain ⟨u, within, closing⟩ := rest.split
      -- One deferral is open behind the start, and one before the stop.
      have outside := run_ndefers before idle countable.before
      have behind := countable.behind
      rw [outermost.outside] at behind outside
      have one := first.ndefers outside behind.next
      have noted := run_noted within one behind.tail.before outermost.stays (Or.inr asked)
      have last := run_ndefers within one behind.tail.before
      rw [show count 0 start = 1 from rfl, outermost.closing] at last
      cases closing with
      | cons stopped done =>
        cases stopped
        cases done
        exact stop_pending last noted

/-- A kernel before anything is deferred. -/
def undeferred : Kernel := zeroed ⟨0x20007000, 0, by decide, by decide, by decide⟩ int32 fun _ => 0

/-- The kernel after an activation in an inner deferral. -/
def afterNested : Kernel :=
  (reschedCntl .stop (reschedCntl .stop
    (pendSVHandler 0x20010000 (reschedCntl .start (reschedCntl .start undeferred).2).2)).2).2

theorem nested_deferral_kept :
    Keeps [.start, .start, .activation 0x20010000, .stop, .stop] afterNested ∧ afterNested.pendsv = true := by
  have run : Run Step [.start, .start, .activation 0x20010000, .stop, .stop] undeferred afterNested :=
    .cons .start (.cons .start (.cons (.activation _) (.cons .stop (.cons .stop (.nil _)))))
  have keeps := deferral_kept rfl run (countable_of_length (by decide))
  refine ⟨keeps, keeps.pending [] [.start, .activation 0x20010000, .stop] rfl ⟨rfl, ?_, rfl⟩ ?_⟩
  · intro first isPrefix
    have all : ∀ first ∈ [.start, .activation 0x20010000, .stop].inits, 0 < openFrom 1 first := by decide
    exact all first ((List.mem_inits _ _).mpr isPrefix)
  · exact ⟨.activation 0x20010000, by simp, trivial⟩

/-! ## The overflow -/

theorem openFrom_replicate (opened number : Nat) :
    openFrom opened (List.replicate number .start) = opened + number := by
  induction number generalizing opened with
  | zero => rfl
  | succ number inductionHypothesis =>
    rw [List.replicate_succ, openFrom_cons, inductionHypothesis]
    simp only [count]
    omega

theorem run_starts (number : Nat) (s : Kernel) : ∃ s', Run Step (List.replicate number .start) s s' := by
  induction number generalizing s with
  | zero => exact ⟨s, .nil s⟩
  | succ number inductionHypothesis =>
    obtain ⟨s', run⟩ := inductionHypothesis (reschedCntl .start s).2
    exact ⟨s', .cons .start run⟩

theorem starts_counted {number : Nat} (fits : number < 2 ^ 31) (idle : s.defer.ndefers = 0) :
    ∃ s', Run Step (List.replicate number .start) s s' ∧ s'.defer.ndefers = number := by
  obtain ⟨s', run⟩ := run_starts number s
  have short : 0 + (List.replicate number DeferEvent.start).length < 2 ^ 31 := by
    rw [List.length_replicate]
    omega
  have counts := run_ndefers run idle (countable_of_length short)
  rw [openFrom_replicate, Nat.zero_add] at counts
  exact ⟨s', run, counts⟩

/-- After 2^31 starts the counter is negative. -/
theorem deferrals_overflow :
    ¬∀ (events : List DeferEvent) (s s' : Kernel), s.defer.ndefers = 0 → Run Step events s s' → Keeps events s' := by
  intro always
  have fits : 2147483647 < 2 ^ 31 := by decide
  have idle : undeferred.defer.ndefers = 0 := rfl
  obtain ⟨s, run, counts⟩ := starts_counted fits idle
  have keeps := always _ _ _ idle (run.snoc .start)
  have wraps : (reschedCntl .start s).2.defer.ndefers = -2147483648 := if_pos counts
  have nonnegative := keeps.nonnegative
  omega

end DeferEvent

end XinuStm32
