import XinuStm32.Properties.Messages

/-!
# `recvtime` and messages that come in time

`recvtime` tests for a message a second time to see why it was made ready. Interrupts are still masked
there, so the test comes before the switch and `recvtime` has its result before it waits.
-/

namespace XinuStm32

namespace Recorded

/-- A run in which a process waits with a time limit. It is ready again at the end at the earliest. -/
abbrev Wait (p : Int) : List Event → Recorded → Recorded → Prop :=
  Transition.Run fun event s s' =>
    (∃ ret, s.step event = some (ret, s')) ∧ (s.system.kernel.proctab p).prstate = .rectim

/-- No message was accepted for the process in between. -/
def Unsent (p : Int) (s t : Recorded) : Prop := (t.history p).accepted = (s.history p).accepted

/-- The result fits what happened in between: a message that was accepted is the result and leaves the mailbox
empty, and `TIMEOUT` says that there was none. -/
structure Answered (p : Int) (ret : Ret) (s t : Recorded) : Prop where
  message : ∀ {msg}, (t.history p).accepted = (s.history p).accepted ++ [msg] →
    ret = .msg msg ∧ (t.system.kernel.proctab p).prhasmsg = false
  timeout : ret = .msg TIMEOUT → Unsent p s t

variable {s s' t : Recorded} {p : Int}

/-- Nothing is returned to a process that waits. -/
theorem Sound.waiting (sound : Sound s) {event : Event} {ret : Ret} (h : s.step event = some (ret, s'))
    (timed : (s.system.kernel.proctab p).prstate = .rectim) :
    (s'.history p).returned = (s.history p).returned := by
  obtain ⟨a, good⟩ := sound.good
  rcases step_cases h with ⟨label, rfl, taken, history⟩ | ⟨q, -, -, -, -, history⟩
  · have delivers := good.step_delivers sound.receiving taken
    rw [history]
    cases post : s.system.post label ret with
    | none => rfl
    | some what =>
      rw [post] at delivers
      cases delivers with
      | accepted =>
        simp only [record, Function.update_apply]
        split
        · next same => rw [same, Channel.History.accept]
        · rfl
      | @returned q msg =>
        have other : p ≠ q := by
          rintro rfl
          -- only the process that runs is returned a message
          obtain ⟨here, -⟩ := System.post_returned taken post
          rcases System.step_cases taken with ⟨call, pc, -, runs, -⟩ | ⟨-, runs, -⟩ | ⟨rx, rfl, rfl, -⟩ |
            ⟨psp, rfl, -, rfl, -⟩
          · rw [running, ← here, timed] at runs
            cases runs
          · rw [running, ← here, timed] at runs
            cases runs
          · cases post
          · cases post
        simp only [record, Function.update_of_ne other]
      | @created q _ free =>
        have other : p ≠ q := by
          rintro rfl
          rw [timed] at free
          cases free
        simp only [record, Function.update_of_ne other]
  · rw [history]

/-- After a wait that began with an empty mailbox, the mailbox holds what was accepted. -/
theorem Sound.waited (sound : Sound s) {events : List Event} (wait : Wait p events s t)
    (vacant : s.system.kernel.mailbox p = none) :
    Sound t ∧ (t.history p).accepted = (s.history p).accepted ++ (t.system.kernel.mailbox p).toList := by
  have kept : Sound t ∧ (t.history p).returned = (s.history p).returned := by
    refine wait.invariant (fun t => Sound t ∧ (t.history p).returned = (s.history p).returned) ?_ ⟨sound, rfl⟩
    rintro event t t' ⟨⟨ret, h⟩, timed⟩ ⟨sound, same⟩
    exact ⟨sound.step h, (sound.waiting h timed).trans same⟩
  refine ⟨kept.1, ?_⟩
  rw [((sound.explains p).empty_iff).mp vacant, ← kept.2]
  exact kept.1.explains p

/-- Without a message `recvtime` returns `TIMEOUT` at once, and its caller then waits. -/
theorem Sound.recvtime (sound : Sound s) {maxwait : Int32} (nonnegative : 0 ≤ maxwait.toInt)
    (vacant : s.system.kernel.mailbox s.system.kernel.currpid = none) {ret : Ret}
    (call : s.step (.step (.call (.recvtime maxwait))) = some (ret, s')) :
    ret = .msg TIMEOUT ∧ (s'.system.kernel.proctab s.system.kernel.currpid).prstate = .rectim ∧
      s'.system.kernel.mailbox s.system.kernel.currpid = none ∧ Sound s' := by
  obtain ⟨a, good⟩ := sound.good
  have taken := step_label call
  obtain ⟨runs, -, notNull, pc, returns, -⟩ := System.call_cases taken
  simp only [execCall, Option.some.injEq, Prod.mk.injEq] at returns
  obtain ⟨rfl, kernel, -⟩ := returns
  have flag := (mailbox_none_iff _).mp vacant
  have notNull : a.currpid ≠ NULLPROC := by
    rw [← good.tracks.currpid]
    intro null
    cases notNull null
  have runs : a.state a.currpid = .curr := by
    rw [← good.tracks.state, ← good.tracks.currpid]
    exact runs
  rw [good.tracks.proctab, good.tracks.currpid] at flag
  obtain ⟨result, a', run, track⟩ := recvtime_sleeps good.tracks good.inv runs notNull nonnegative flag
  refine ⟨by rw [result], ?_, ?_, sound.step call⟩
  · rw [← kernel, track.state, good.tracks.currpid]
    cases run with
    | cons sleep rest =>
      cases rest
      cases sleep
      rw [View.state_sleep, if_pos rfl]
  · have delivers := recvtime_delivers (s := s.system.kernel) maxwait
    rw [if_neg (by simp [(mailbox_none_iff _).mp vacant]), kernel] at delivers
    cases delivers with
    | nothing kept => rw [kept, vacant]

theorem answered_timeout_iff {s t : Recorded} {p : Int} : Answered p (.msg TIMEOUT) s t ↔ Unsent p s t := by
  constructor
  · exact fun answered => answered.timeout rfl
  · intro unsent
    refine ⟨fun sent => ?_, fun _ => unsent⟩
    rw [unsent] at sent
    exact absurd sent (by simp)

end Recorded

/-- In every run, a call of `recvtime` that finds no message waits and returns `TIMEOUT`, and that is right exactly
if no message is accepted for its caller while it waits. One that is accepted stays in the mailbox. -/
theorem recvtime_answered_iff (image : BootImage) (ram : Nat → UInt8) {events : List Event} {s s' : Recorded}
    (run : Recorded.Run events (.start image ram) s) {maxwait : Int32} (nonnegative : 0 ≤ maxwait.toInt)
    (vacant : (s.system.kernel.proctab s.system.kernel.currpid).prhasmsg = false) {ret : Ret}
    (call : s.step (.step (.call (.recvtime maxwait))) = some (ret, s')) :
    (s'.system.kernel.proctab s.system.kernel.currpid).prstate = .rectim ∧
      ∀ {wait t}, Recorded.Wait s.system.kernel.currpid wait s' t →
        (Recorded.Answered s.system.kernel.currpid ret s' t ↔ Recorded.Unsent s.system.kernel.currpid s' t) ∧
          (t.history s.system.kernel.currpid).accepted =
            (s'.history s.system.kernel.currpid).accepted ++
              (t.system.kernel.mailbox s.system.kernel.currpid).toList := by
  have sound := (Recorded.sound_start image ram).run run
  obtain ⟨rfl, timed, empty, sound'⟩ := sound.recvtime nonnegative ((mailbox_none_iff _).mpr vacant) call
  exact ⟨timed, fun wait => ⟨Recorded.answered_timeout_iff, (sound'.waited wait empty).2⟩⟩

/-- The steps of a wait one after the other. -/
def Recorded.execWait (p : Int) : List Event → Recorded → Option Recorded
  | [], s => some s
  | event :: events, s =>
    if (s.system.kernel.proctab p).prstate = .rectim then (s.step event).bind fun (_, s') => execWait p events s'
    else none

theorem Recorded.wait_execWait {p : Int} {events : List Event} {s t : Recorded}
    (returns : execWait p events s = some t) : Wait p events s t := by
  induction events generalizing s with
  | nil => exact Option.some.inj returns ▸ .nil s
  | cons event events inductionHypothesis =>
    simp only [execWait, Option.ite_none_right_eq_some] at returns
    obtain ⟨timed, returns⟩ := returns
    obtain ⟨⟨ret, s₁⟩, taken, rest⟩ := Option.bind_eq_some_iff.mp returns
    exact .cons ⟨⟨ret, taken⟩, timed⟩ (inductionHypothesis rest)

/-- Process 1 runs, and process 2 has a lower priority. -/
def twoPriorities : List Event :=
  [.step (.call (.create 0x08017000 1024 30 [] [])), .step (.call (.resume 1)), .step (.switch 0x2001e000),
    .step (.call (.create 0x08018000 1024 20 [] [])), .step (.call (.resume 2))]

/-- Process 1 waits for a message, and process 2 runs. -/
def timedWait (wait : List Event) : Option (Recorded × Recorded × Recorded × Ret) :=
  (Recorded.exec twoPriorities (.start smallImage fun _ => 0)).bind fun s =>
    (s.step (.step (.call (.recvtime 50)))).bind fun (ret, s') =>
      (Recorded.execWait 1 (.step (.switch 0x2001d000) :: wait) s').map fun t => (s, s', t, ret)

theorem timedWait_spec {wait : List Event} {s s' t : Recorded} {ret : Ret}
    (returns : timedWait wait = some (s, s', t, ret)) :
    Recorded.Run twoPriorities (.start smallImage fun _ => 0) s ∧
      s.step (.step (.call (.recvtime 50))) = some (ret, s') ∧
      Recorded.Wait 1 (.step (.switch 0x2001d000) :: wait) s' t := by
  obtain ⟨s₀, started, returns⟩ := Option.bind_eq_some_iff.mp returns
  obtain ⟨⟨ret₀, s₁⟩, called, returns⟩ := Option.bind_eq_some_iff.mp returns
  obtain ⟨t₀, waited, same⟩ := Option.map_eq_some_iff.mp returns
  cases same
  exact ⟨Recorded.run_exec started, called, Recorded.wait_execWait waited⟩

set_option maxRecDepth 100000 in
/-- No message comes for a tick. -/
theorem timedWait_answered : ∃ s s' t : Recorded, ∃ ret, timedWait [.step (.tick none)] = some (s, s', t, ret) ∧
    (Recorded.Answered s.system.kernel.currpid ret s' t ↔ Recorded.Unsent s.system.kernel.currpid s' t) := by
  have runs : ((timedWait [.step (.tick none)]).map fun (s, _) =>
      (s.system.kernel.currpid, (s.system.kernel.proctab s.system.kernel.currpid).prhasmsg)) =
        some (1, false) := by decide +kernel
  obtain ⟨⟨s, s', t, ret⟩, returns, found⟩ := Option.map_eq_some_iff.mp runs
  obtain ⟨current, vacant⟩ := Prod.mk.inj found
  obtain ⟨run, call, wait⟩ := timedWait_spec returns
  have answered := recvtime_answered_iff smallImage _ run (show 0 ≤ (50 : Int32).toInt by decide) vacant call
  exact ⟨s, s', t, ret, returns, (answered.2 (current ▸ wait)).1⟩

set_option maxRecDepth 100000 in
/-- Process 2 sends a message in time, and `recvtime` returns `TIMEOUT` all the same. -/
theorem timedWait_overlooks :
    ¬ ∀ {events wait : List Event} {s s' t : Recorded} {maxwait : Int32} {ret : Ret},
      Recorded.Run events (.start smallImage fun _ => 0) s → 0 ≤ maxwait.toInt →
      (s.system.kernel.proctab s.system.kernel.currpid).prhasmsg = false →
      s.step (.step (.call (.recvtime maxwait))) = some (ret, s') →
      Recorded.Wait s.system.kernel.currpid wait s' t → Recorded.Answered s.system.kernel.currpid ret s' t := by
  intro claimed
  have runs : ((timedWait [.step (.call (.send 1 7))]).map fun (s, s', t, ret) =>
      ((s.system.kernel.currpid, (s.system.kernel.proctab s.system.kernel.currpid).prhasmsg),
        ret, (s'.history 1).accepted, (t.history 1).accepted)) =
      some ((1, false), .msg TIMEOUT, [], [7]) := by decide +kernel
  obtain ⟨⟨s, s', t, ret⟩, returns, found⟩ := Option.map_eq_some_iff.mp runs
  obtain ⟨here, rest⟩ := Prod.mk.inj found
  obtain ⟨current, vacant⟩ := Prod.mk.inj here
  obtain ⟨result, rest⟩ := Prod.mk.inj rest
  obtain ⟨before, after⟩ := Prod.mk.inj rest
  obtain ⟨run, call, wait⟩ := timedWait_spec returns
  have answered := claimed run (show 0 ≤ (50 : Int32).toInt by decide) vacant call (current ▸ wait)
  have unsent := answered.timeout result
  rw [Recorded.Unsent, current, before, after] at unsent
  cases unsent

end XinuStm32
