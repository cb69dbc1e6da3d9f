import XinuStm32.Lib.Channel
import XinuStm32.Refinement.Mailbox
import XinuStm32.Properties.Consistency

/-!
# Messages are delivered exactly once and in order

Beside the system we keep, for every entry of the process table, what was accepted for its process
and what was returned to it since the process was created. The mailbox is the difference, whatever
the order in which processes send, receive, create and kill.
-/

namespace XinuStm32

open Channel

/-! ## Recorded runs -/

/-- The system with the message history of each process. -/
structure Recorded where
  system : System
  history : Int → History UInt32

/-- The histories after a step, by what it did to the mailboxes. -/
def record (post : Option Post) (history : Int → History UInt32) : Int → History UInt32 :=
  match post with
  | none => history
  | some (.accepted p msg) => Function.update history p ((history p).accept msg)
  | some (.returned p msg) => Function.update history p ((history p).handOn msg)
  | some (.created p) => Function.update history p .opened

namespace Recorded

/-- A step, or a turn of any ready process, with the history kept. -/
def step (event : Event) (s : Recorded) : Option (Ret × Recorded) :=
  match event with
  | .step label => (s.system.step label).map fun (ret, system) =>
      (ret, ⟨system, record (s.system.post label ret) s.history⟩)
  | .turn p => (s.system.take (.turn p)).map fun (ret, system) => (ret, ⟨system, s.history⟩)

abbrev Run : List Event → Recorded → Recorded → Prop :=
  Transition.Run fun event s s' => ∃ ret, s.step event = some (ret, s')

def exec : List Event → Recorded → Option Recorded
  | [], s => some s
  | event :: events, s => (s.step event).bind fun (_, s') => exec events s'

theorem run_exec {events : List Event} {s s' : Recorded} (returns : exec events s = some s') :
    Run events s s' := by
  induction events generalizing s with
  | nil => exact Option.some.inj returns ▸ .nil s
  | cons event events inductionHypothesis =>
    obtain ⟨⟨ret, s₁⟩, taken, rest⟩ := Option.bind_eq_some_iff.mp returns
    exact .cons ⟨ret, taken⟩ (inductionHypothesis rest)

/-- The booted system, in which no message was sent yet. -/
def start (image : BootImage) (ram : Nat → UInt8) : Recorded :=
  ⟨boot image int32 ram, fun _ => .opened⟩

/-- The process that makes the next call. -/
def caller (s : Recorded) : History UInt32 := s.history s.system.kernel.currpid

/-- What the calls return in a state, read off the histories. -/
structure Exact (s : Recorded) : Prop where
  /-- What was accepted is what was returned, in the same order, and the message that waits. -/
  ordered : ∀ p, (s.history p).Explains (s.system.kernel.mailbox p)
  send : ∀ {p msg ret s'}, s.step (.step (.call (.send p msg))) = some (ret, s') →
    (ret = .value SYSERR ↔
      isbadpid p s.system.kernel.toSched ∨ (s.history p).accepted ≠ (s.history p).returned) ∧
      (ret = .value OK ∨ ret = .value SYSERR)
  receive : ∀ {ret s'}, s.step (.step (.call .receive)) = some (ret, s') →
    (∃ msg, ret = .msg msg ∧ s.caller.accepted = s.caller.returned ++ [msg]) ∨
      ret = .nothing ∧ s.caller.accepted = s.caller.returned ∧
        (s'.system.kernel.proctab s.system.kernel.currpid).prstate = .recv
  goOn : ∀ {ret s'}, s.step (.step .goOn) = some (ret, s') →
    ∃ msg, ret = .msg msg ∧ s.caller.accepted = s.caller.returned ++ [msg]
  recvclr : ∀ {ret s'}, s.step (.step (.call .recvclr)) = some (ret, s') →
    (∃ msg, ret = .msg msg ∧ s.caller.accepted = s.caller.returned ++ [msg]) ∨
      ret = .msg 1 ∧ s.caller.accepted = s.caller.returned

/-- Until a process is killed its history goes on, and a message that waits for it stays until it is
the next one returned. -/
def Keeps (s s' : Recorded) (p : Int) : Prop :=
  (s.history p).Extends (s'.history p) ∧
    ∀ msg, s.system.kernel.mailbox p = some msg →
      s'.system.kernel.mailbox p = some msg ∧ (s'.history p).returned = (s.history p).returned ∨
        (s.history p).returned ++ [msg] <+: (s'.history p).returned

/-! ## The invariant -/

structure Sound (s : Recorded) : Prop where
  good : ∃ a, Good s.system a
  receiving : Receiving s.system
  explains : ∀ p, (s.history p).Explains (s.system.kernel.mailbox p)

theorem explains_record {s s' : Kernel} {post : Option Post} {history : Int → History UInt32}
    (delivers : Delivers s s' post) (explains : ∀ p, (history p).Explains (s.mailbox p)) (p : Int) :
    (record post history p).Explains (s'.mailbox p) := by
  cases delivers with
  | nothing kept =>
    rw [kept]
    exact explains p
  | @accepted q msg _ vacant stored =>
    have before := explains q
    rw [vacant] at before
    simp only [record, stored, Function.update_apply]
    split
    · exact before.accept msg
    · exact explains p
  | @returned q msg full taken =>
    have before := explains q
    rw [full] at before
    simp only [record, taken, Function.update_apply]
    split
    · exact before.handOn
    · exact explains p
  | @created q _ _ emptied =>
    simp only [record, emptied, Function.update_apply]
    split
    · exact History.explains_opened
    · exact explains p

/-- What a recorded step is: a step of the system and its record, or a turn. -/
theorem step_cases {event : Event} {s s' : Recorded} {ret : Ret} (h : s.step event = some (ret, s')) :
    (∃ label, event = .step label ∧ s.system.step label = some (ret, s'.system) ∧
      s'.history = record (s.system.post label ret) s.history) ∨
    ∃ p, event = .turn p ∧ IsPid p ∧ (s.system.kernel.proctab p).prstate = .ready ∧
      s'.system = { s.system with kernel := turnTo p s.system.kernel } ∧ s'.history = s.history := by
  cases event with
  | step label =>
    simp only [step, Option.map_eq_some_iff, Prod.exists, Prod.mk.injEq] at h
    obtain ⟨ret', system, taken, rfl, rfl⟩ := h
    exact Or.inl ⟨label, rfl, taken, rfl⟩
  | turn p =>
    simp only [step, System.take, Option.map_eq_some_iff, Prod.exists, Prod.mk.injEq] at h
    obtain ⟨ret', system, taken, rfl, rfl⟩ := h
    split at taken
    · next guard =>
      obtain ⟨-, rfl⟩ := Prod.mk.inj (Option.some.inj taken)
      exact Or.inr ⟨p, rfl, guard.1, guard.2, rfl, rfl⟩
    · cases taken

theorem Sound.step {event : Event} {s s' : Recorded} {ret : Ret} (sound : Sound s)
    (h : s.step event = some (ret, s')) : Sound s' := by
  obtain ⟨a, good⟩ := sound.good
  obtain ⟨label, -, taken, history⟩ | ⟨p, -, pid, ready, system, history⟩ := step_cases h
  · obtain ⟨-, a', -, -, good'⟩ := good.step ⟨ret, taken⟩
    refine ⟨⟨a', good'⟩, sound.receiving.step good taken, ?_⟩
    rw [history]
    exact explains_record (good.step_delivers sound.receiving taken) sound.explains
  · obtain ⟨a', good', -⟩ := good.turn pid ready
    refine ⟨⟨a', system ▸ good'⟩, system ▸ sound.receiving.turn good pid ready, fun p' => ?_⟩
    have kept : s'.system.kernel.mailbox = s.system.kernel.mailbox := by
      rw [system]
      exact (frame_turnTo p).mailbox
    rw [history, kept]
    exact sound.explains p'

theorem Sound.run {events : List Event} {s s' : Recorded} (sound : Sound s) (run : Run events s s') :
    Sound s' :=
  Transition.Run.invariant Sound (fun _ _ _ ⟨_, h⟩ sound => sound.step h) run sound

theorem sound_of_booted {s : Recorded} (booted : Booted int32 s.system.kernel)
    (user : ∀ p, s.system.pc p = .user) (opened : ∀ p, s.history p = .opened) : Sound s := by
  have empty (p : Int) : s.system.kernel.mailbox p = none := (mailbox_none_iff p).mpr (booted.prhasmsg p)
  refine ⟨⟨_, booted.good grows_int32⟩, ⟨fun {p} _ waits => ?_, fun _ inside => ?_⟩, fun p => ?_⟩
  · rw [booted.prstate p] at waits
    split at waits <;> cases waits
  · cases (user _).symm.trans inside
  · rw [opened, empty]
    exact History.explains_opened

theorem sound_start (image : BootImage) (ram : Nat → UInt8) : Sound (start image ram) :=
  sound_of_booted (boot_booted image int32 ram) (fun _ => rfl) fun _ => rfl

/-! ## What the calls return -/

theorem step_label {label : Label} {s s' : Recorded} {ret : Ret}
    (h : s.step (.step label) = some (ret, s')) :
    s.system.step label = some (ret, s'.system) := by
  obtain ⟨label', same, taken, -⟩ | ⟨p, other, -⟩ := step_cases h
  · cases same
    exact taken
  · cases other

/-- A message is returned only if it is the next one that was accepted. -/
theorem Sound.returned {label : Label} {s s' : Recorded} {ret : Ret} {msg : UInt32} (sound : Sound s)
    (taken : s.system.step label = some (ret, s'.system))
    (post : s.system.post label ret = some (.returned s.system.kernel.currpid msg)) :
    s.caller.accepted = s.caller.returned ++ [msg] := by
  obtain ⟨a, good⟩ := sound.good
  have delivers := good.step_delivers sound.receiving taken
  rw [post] at delivers
  cases delivers with
  | returned full => exact ((sound.explains _).full_iff msg).mp full

theorem Sound.exact {s : Recorded} (sound : Sound s) : Exact s where
  ordered := sound.explains
  send := by
    intro p msg ret s' h
    obtain ⟨rfl, -⟩ := System.step_send (step_label h)
    have waits : (s.system.kernel.proctab p).prhasmsg = true ↔
        (s.history p).accepted ≠ (s.history p).returned := by
      rw [← Bool.not_eq_false, ← mailbox_none_iff, (sound.explains p).empty_iff]
    rw [← waits]
    rcases send_cases (s := s.system.kernel) p msg with ⟨why, refused, -⟩ | ⟨good, vacant, sent, -⟩
    · rw [refused]
      exact ⟨iff_of_true rfl why, Or.inr rfl⟩
    · rw [sent, vacant]
      exact ⟨iff_of_false (by simp) (by simp [good]), Or.inl rfl⟩
  receive := by
    intro ret s' h
    have taken := step_label h
    obtain ⟨-, -, -, pc, returns, -⟩ := System.call_cases taken
    simp only [execCall] at returns
    split at returns
    all_goals
      simp only [Option.some.injEq, Prod.mk.injEq] at returns
      obtain ⟨rfl, kernel, -⟩ := returns
    · next vacant =>
      right
      refine ⟨rfl, ((sound.explains _).empty_iff).mp ((mailbox_none_iff _).mpr vacant), ?_⟩
      rw [← kernel]
      simp [receiveBlock, pendSV, Kernel.setState, Kernel.setProc]
    · exact Or.inl ⟨_, rfl, sound.returned taken rfl⟩
  goOn := by
    intro ret s' h
    have taken := step_label h
    obtain ⟨-, -, rfl, -⟩ := System.goOn_cases taken
    exact ⟨_, rfl, sound.returned taken rfl⟩
  recvclr := by
    intro ret s' h
    have taken := step_label h
    obtain ⟨-, -, -, pc, returns, -⟩ := System.call_cases taken
    simp only [execCall, Option.some.injEq, Prod.mk.injEq] at returns
    obtain ⟨rfl, -, -⟩ := returns
    by_cases full : (s.system.kernel.proctab s.system.kernel.currpid).prhasmsg = true
    · exact Or.inl ⟨_, rfl, sound.returned taken (if_pos full)⟩
    · right
      have vacant := (mailbox_none_iff s.system.kernel.currpid).mpr (Bool.not_eq_true _ ▸ full)
      refine ⟨?_, ((sound.explains _).empty_iff).mp vacant⟩
      simp only [XinuStm32.recvclr]
      rw [if_neg (show ¬ ((disable s.system.kernel).2.proctab
        (disable s.system.kernel).2.currpid).prhasmsg = true from full)]

/-! ## Histories go on -/

/-- A live process keeps its history in every step that does not kill it. -/
theorem Sound.extends {event : Event} {s s' : Recorded} {ret : Ret} {p : Int} (sound : Sound s)
    (h : s.step event = some (ret, s')) (live : (s.system.kernel.proctab p).prstate ≠ .free)
    (notKill : event ≠ .step (.call (.kill p))) :
    (s.history p).Extends (s'.history p) ∧ (s'.system.kernel.proctab p).prstate ≠ .free := by
  obtain ⟨a, good⟩ := sound.good
  obtain ⟨label, rfl, taken, history⟩ | ⟨q, -, pid, ready, system, history⟩ := step_cases h
  · refine ⟨?_, good.freed ⟨ret, taken⟩ live fun same => notKill (by rw [same])⟩
    have delivers := good.step_delivers sound.receiving taken
    rw [history]
    generalize s.system.post label ret = post at delivers ⊢
    cases delivers with
    | nothing => exact .refl _
    | @accepted q msg =>
      simp only [record, Function.update_apply]
      split
      · next same => rw [same]; exact History.extends_accept msg _
      · exact .refl _
    | @returned q msg =>
      simp only [record, Function.update_apply]
      split
      · next same => rw [same]; exact History.extends_handOn msg _
      · exact .refl _
    | @created q _ free =>
      have other : p ≠ q := fun same => live (same ▸ free)
      simp only [record, Function.update_of_ne other]
      exact .refl _
  · obtain ⟨a', good', changes⟩ := good.turn pid ready
    refine ⟨history ▸ .refl _, ?_⟩
    have after : (s'.system.kernel.proctab p).prstate = a'.state p := by
      rw [system]
      exact good'.tracks.state p
    rw [good.tracks.state] at live
    rw [after]
    obtain same | moved | moved := changes p
    · rwa [same]
    all_goals
      generalize a.state p = old, a'.state p = new at moved
      cases moved
      decide

theorem Sound.keeps {events : List Event} {s s' : Recorded} {p : Int} (sound : Sound s)
    (run : Run events s s') (live : (s.system.kernel.proctab p).prstate ≠ .free)
    (notKilled : .step (.call (.kill p)) ∉ events) : s.Keeps s' p := by
  have sound' := sound.run run
  have whole := Transition.Run.invariant_of_allowed
    (fun t => Sound t ∧ (t.system.kernel.proctab p).prstate ≠ .free ∧ (s.history p).Extends (t.history p))
    (· ≠ .step (.call (.kill p)))
    (fun event t t' other ⟨_, h⟩ ⟨sound, live, extends'⟩ => by
      obtain ⟨next, live'⟩ := sound.extends h live other
      exact ⟨sound.step h, live', extends'.trans next⟩)
    run (fun event member same => notKilled (same ▸ member)) ⟨sound, live, .refl _⟩
  exact ⟨whole.2.2, fun msg full => (sound.explains p).kept (sound'.explains p) whole.2.2 full⟩

end Recorded

/-- However processes send, receive, create and kill, what is returned to a process is what was
accepted for it, in the same order and each message once, and a message that waits is lost only if
the process is killed. -/
theorem reachable_exact (image : BootImage) (ram : Nat → UInt8) {events : List Event} {s : Recorded}
    (run : Recorded.Run events (.start image ram) s) :
    s.Exact ∧ ∀ {p later s'}, Recorded.Run later s s' → (s.system.kernel.proctab p).prstate ≠ .free →
      .step (.call (.kill p)) ∉ later → s'.Exact ∧ s.Keeps s' p := by
  have sound := (Recorded.sound_start image ram).run run
  exact ⟨sound.exact, fun later live notKilled =>
    ⟨(sound.run later).exact, sound.keeps later live notKilled⟩⟩

/-- A process waits for a message, is sent two, of which the second is refused, and takes the first. -/
def twoMessages : List Event :=
  [.step (.call (.create 0x08017000 1024 20 [] [])), .step (.call (.resume 1)), .turn 1,
    .step (.call (.create 0x08018000 1024 30 [] [])), .step (.call (.resume 2)), .turn 2,
    .step (.call .receive), .step (.switch 0x2001d000), .step (.call (.send 2 7)), .step (.call (.send 2 8)),
    .turn 2]

set_option maxRecDepth 100000 in
theorem twoMessages_exact : ∃ s, Recorded.exec twoMessages (.start smallImage fun _ => 0) = some s ∧
    s.Exact ∧ (s.history 2).accepted = [7] ∧
      ∀ {p later s'}, Recorded.Run later s s' → (s.system.kernel.proctab p).prstate ≠ .free →
        .step (.call (.kill p)) ∉ later → s'.Exact ∧ s.Keeps s' p := by
  have runs : ((Recorded.exec twoMessages (.start smallImage fun _ => 0)).map
      fun s => (s.history 2).accepted) = some [7] := by decide +kernel
  obtain ⟨s, returns, accepted⟩ := Option.map_eq_some_iff.mp runs
  have exact' := reachable_exact smallImage _ (Recorded.run_exec returns)
  exact ⟨s, returns, exact'.1, accepted, exact'.2⟩

end XinuStm32
