import XinuStm32.Properties.Consistency
import XinuStm32.Refinement.Mailbox

/-!
# `receive` one statement at a time

`receive` does not mask interrupts, so a process can lose the processor between any two of its
statements. Here each statement is a step of its own, between any other steps of the kernel.
-/

namespace XinuStm32

/-- The statement of `receive` a process is at, or outside of it. -/
inductive ReceivePc where
  | user
  | mark
  | pend
  | read
  | clear (msg : UInt32)
  deriving DecidableEq

structure Interleaved where
  kernel : Kernel
  pc : Int → ReceivePc

namespace Interleaved

inductive Label where
  | call (call : Call)
  | tick (rx : Option UInt8)
  | switch (psp : Nat)
  | turn (p : Int)
  | test
  | mark
  | pend
  | read
  | clear
  deriving DecidableEq

/-- A process that was just created is at its start. -/
def spawned (call : Call) (ret : Ret) (points : Int → ReceivePc) : Int → ReceivePc :=
  match call, ret with
  | .create .., .value pid => Function.update points pid .user
  | _, _ => points

/-- One statement of `receive`, any other call of the running process, an interrupt, or a turn of any ready
process. -/
def step (label : Label) (s : Interleaved) : Option (Ret × Interleaved) :=
  let caller := s.kernel.currpid
  let goto (pc : ReceivePc) := Function.update s.pc caller pc
  match label with
  | .call call =>
    if running s.kernel.toSched ∧ s.pc caller = .user ∧ (caller = NULLPROC → call.blocking = false) ∧
        call ≠ .receive then
      (execCall call s.kernel).map fun (ret, kernel, _) => (ret, ⟨kernel, spawned call ret s.pc⟩)
    else none
  | .tick rx => some (.nothing, { s with kernel := tim2Handler rx s.kernel })
  | .switch psp =>
    if s.kernel.pendsv then some (.nothing, { s with kernel := pendSVHandler psp s.kernel }) else none
  | .turn p =>
    if IsPid p ∧ (s.kernel.proctab p).prstate = .ready then
      some (.nothing, { s with kernel := turnTo p s.kernel })
    else none
  | .test =>
    if running s.kernel.toSched ∧ s.pc caller = .user ∧ caller ≠ NULLPROC then
      some (.nothing, { s with pc := goto (if (s.kernel.proctab caller).prhasmsg = false then .mark else .read) })
    else none
  | .mark =>
    if running s.kernel.toSched ∧ s.pc caller = .mark then
      some (.nothing, ⟨receiveMark s.kernel, goto .pend⟩)
    else none
  | .pend => if s.pc caller = .pend then some (.nothing, ⟨pendSV s.kernel, goto .read⟩) else none
  | .read =>
    if running s.kernel.toSched ∧ s.pc caller = .read then
      some (.nothing, { s with pc := goto (.clear (receiveRead s.kernel)) })
    else none
  | .clear =>
    match s.pc caller with
    | .clear msg =>
      if running s.kernel.toSched then some (.msg msg, ⟨receiveClear s.kernel, goto .user⟩) else none
    | _ => none

def Step (label : Label) (s s' : Interleaved) : Prop := ∃ ret, s.step label = some (ret, s')

abbrev Run : List Label → Interleaved → Interleaved → Prop := Transition.Run Step

def start (image : BootImage) (ram : Nat → UInt8) : Interleaved := ⟨(boot image int32 ram).kernel, fun _ => .user⟩

/-- No process is blocked in `receive` while a message waits for it. -/
def NoneLost (s : Kernel) : Prop := ∀ p, (s.proctab p).prstate = .recv → (s.proctab p).prhasmsg = false

/-- A process that is about to block has not been sent a message since it tested. -/
def Undisturbed (s : Interleaved) (label : Label) : Prop :=
  label = .mark → (s.kernel.proctab s.kernel.currpid).prhasmsg = false

instance (s : Interleaved) (label : Label) : Decidable (Undisturbed s label) :=
  inferInstanceAs (Decidable (_ → _))

/-- The statements together are `receive` without interruption. -/
theorem receive_statements (s : Kernel) :
    receiveBlock s = pendSV (receiveMark s) ∧ receiveTake s = (receiveRead s, receiveClear s) := ⟨rfl, rfl⟩

variable {s s' : Kernel}

/-! ## What keeps the property -/

theorem NoneLost.frame (none : NoneLost s) (frame : Frame s s') : NoneLost s' := fun p waits => by
  rw [frame.prhasmsg]
  exact none p (frame.recv p waits)

/-- Clearing a mailbox, or storing an entry that does not wait. -/
theorem NoneLost.setProc (none : NoneLost s) (p : Int) {entry : Procent}
    (fine : entry.prstate = .recv → entry.prhasmsg = false) : NoneLost (s.setProc p entry) := by
  intro q waits
  simp only [Kernel.setProc, Function.update_apply] at waits ⊢
  split
  · next same =>
    rw [if_pos same] at waits
    exact fine waits
  · next other =>
    rw [if_neg other] at waits
    exact none q waits

theorem NoneLost.take (none : NoneLost s) : NoneLost (receiveTake s).2 := none.setProc _ fun _ => rfl

theorem ready_state {p : Int} (good : ¬ isbadpid p s.toSched) : ((ready p s).2.proctab p).prstate = .ready := by
  simp only [ready]
  rw [if_neg good]
  simp only [insert]
  split <;> simp [pendSV, Kernel.setState, Kernel.setProc, Kernel.touch, Kernel.setQueue]

theorem unsleep_proctab (p : Int) : (unsleep p s).2.proctab = s.proctab := by
  simp only [unsleep]
  split
  · rfl
  · split
    · rfl
    · split <;> rfl

/-- A process that a message was accepted for does not wait. -/
theorem send_awake {p : Int} {msg : UInt32} (good : ¬ isbadpid p s.toSched) (vacant : (s.proctab p).prhasmsg = false) :
    ((send p msg s).2.proctab p).prstate ≠ .recv := by
  have stored (t : Kernel) (entry : Procent) (live : entry.prstate ≠ .free) :
      isbadpid p (t.setProc p entry).toSched → False := by
    intro bad
    simp only [isbadpid, not_or] at good
    simp only [isbadpid, Kernel.setProc, Function.update_self] at bad
    obtain low | high | free := bad
    · exact good.1 low
    · exact good.2.1 high
    · exact live free
  have live : (s.proctab p).prstate ≠ .free := fun free => good (Or.inr (Or.inr free))
  simp only [send]
  rw [if_neg (show ¬ isbadpid p (disable s).2.toSched from good),
    if_neg (show ¬ ((disable s).2.proctab p).prhasmsg = true by simp [disable, vacant])]
  set filled : Procent := { (disable s).2.proctab p with prmsg := msg, prhasmsg := true } with entry
  have state : filled.prstate = (s.proctab p).prstate := rfl
  have found : ((disable s).2.setProc p filled).proctab p = filled := by
    simp only [Kernel.setProc, Function.update_self]
  have awake := stored (disable s).2 filled (state ▸ live)
  simp only [restore, found]
  split
  · -- it waited in `receive`
    rw [ready_state awake]
    decide
  · next notRecv =>
    split
    · -- it waited in `recvtime`: only its place in the sleep queue changes before it is readied
      have kept := unsleep_proctab (s := (disable s).2.setProc p filled) p
      have awake' : ¬ isbadpid p (unsleep p ((disable s).2.setProc p filled)).2.toSched := by
        simp only [isbadpid, kept]
        exact awake
      rw [ready_state awake']
      decide
    · rw [found]
      exact notRecv

/-! ## Calls -/

theorem NoneLost.send (none : NoneLost s) (p : Int) (msg : UInt32) : NoneLost (send p msg s).2 := by
  obtain ⟨-, -, frame⟩ | ⟨good, vacant, -, frame⟩ := send_cases (s := s) p msg
  · exact none.frame frame
  · intro q waits
    by_cases same : q = p
    · subst same
      exact absurd waits (send_awake good vacant)
    · have before := frame.recv q waits
      have other : ((disable s).2.setProc p { s.proctab p with prmsg := msg, prhasmsg := true }).proctab q =
          s.proctab q := by
        simp only [Kernel.setProc, Function.update_of_ne same]
        rfl
      rw [other] at before
      rw [frame.prhasmsg, other]
      exact none q before

theorem NoneLost.kill (none : NoneLost s) (p : Int) {status : Int} (returns : kill p s = some (status, s')) :
    NoneLost s' := by
  obtain ⟨-, frame⟩ | ⟨-, -, s₀, before, -, after⟩ := kill_cases p returns
  · exact none.frame frame
  · exact ((none.frame before).send _ _).frame after

theorem NoneLost.create (none : NoneLost s) (procaddr ssize : UInt32) (priority : Int16) (name : List UInt8)
    (args : List UInt32) : NoneLost (create procaddr ssize priority name args s).2 := by
  rcases create_cases (s := s) procaddr ssize priority name args with
    ⟨-, frame⟩ | ⟨s₀, saddr, size, got, -, -, frame⟩
  · exact none.frame frame
  · have searched : NoneLost (newpid s₀).2 := (none.frame got).frame (frame_newpidLoop _)
    refine NoneLost.frame ?_ frame
    exact NoneLost.setProc (fun q waits => searched q waits) _ fun _ => rfl

theorem NoneLost.recvclr (none : NoneLost s) : NoneLost (recvclr s).2 := by
  have masked : NoneLost (disable s).2 := none.frame frame_disable
  simp only [XinuStm32.recvclr]
  split
  · exact masked.take.frame (frame_restore _)
  · exact masked.frame (frame_restore _)

theorem NoneLost.recvtime (none : NoneLost s) (maxwait : Int32) : NoneLost (recvtime maxwait s).2 := by
  have blocked : NoneLost (recvtimeBlock maxwait (disable s).2).2 :=
    (none.frame frame_disable).frame (recvtimeBlock_frame maxwait).1
  simp only [XinuStm32.recvtime]
  split
  · exact none
  · split
    · exact blocked.frame (frame_restore _)
    · simp only [recvtimeCheck]
      split
      · exact blocked.take.frame (frame_restore _)
      · exact blocked.frame (frame_restore _)

/-- Every call but `receive` keeps the property. -/
theorem NoneLost.call (none : NoneLost s) (shallow : Shallow s.defer.ndefers) {call : Call} {ret : Ret} {pc : Pc}
    (other : call ≠ .receive) (returns : execCall call s = some (ret, s', pc)) : NoneLost s' := by
  cases messaging : call.messaging with
  | false => exact none.frame (frame_execCall shallow messaging returns)
  | true =>
    cases call with
    | create procaddr ssize priority name args =>
      obtain ⟨-, rfl, -⟩ := returns
      exact none.create procaddr ssize priority name args
    | kill p =>
      simp only [execCall, Option.bind_eq_some_iff, Option.some.injEq, Prod.mk.injEq] at returns
      obtain ⟨⟨status, kernel⟩, killed, -, rfl, -⟩ := returns
      exact none.kill p killed
    | receive => exact absurd rfl other
    | recvtime maxwait =>
      obtain ⟨-, rfl, -⟩ := returns
      exact none.recvtime maxwait
    | recvclr =>
      obtain ⟨-, rfl, -⟩ := returns
      exact none.recvclr
    | send p msg =>
      obtain ⟨-, rfl, -⟩ := returns
      exact none.send p msg
    | _ => cases messaging

/-- `prstate = PR_RECV` keeps the property exactly when no message waits for the caller. -/
theorem NoneLost.mark_iff (none : NoneLost s) :
    NoneLost (receiveMark s) ↔ (s.proctab s.currpid).prhasmsg = false := by
  constructor
  · intro after
    have here := after s.currpid
    simp only [receiveMark, Kernel.setState, Kernel.setProc, Function.update_self, forall_const] at here
    exact here
  · intro vacant
    exact none.setProc s.currpid fun _ => vacant

/-! ## Steps -/

variable {s s' : Interleaved} {label : Label}

/-- What each step does to the kernel. -/
theorem Step.cases (h : Step label s s') :
    (∃ call ret pc, label = .call call ∧ call ≠ .receive ∧ execCall call s.kernel = some (ret, s'.kernel, pc)) ∨
      (∃ rx, label = .tick rx ∧ s'.kernel = tim2Handler rx s.kernel) ∨
      (∃ psp, label = .switch psp ∧ s'.kernel = pendSVHandler psp s.kernel) ∨
      (∃ p, label = .turn p ∧ s'.kernel = turnTo p s.kernel) ∨
      label = .mark ∧ s'.kernel = receiveMark s.kernel ∨
      label = .pend ∧ s'.kernel = pendSV s.kernel ∨
      (label = .test ∨ label = .read) ∧ s'.kernel = s.kernel ∨
      label = .clear ∧ s'.kernel = receiveClear s.kernel := by
  obtain ⟨ret, taken⟩ := h
  cases label with
  | call call =>
    simp only [step, Option.ite_none_right_eq_some, Option.map_eq_some_iff, Prod.mk.injEq, Prod.exists] at taken
    obtain ⟨⟨-, -, -, other⟩, ret', kernel, pc, returns, rfl, rfl⟩ := taken
    exact Or.inl ⟨call, ret', pc, rfl, other, returns⟩
  | tick rx =>
    simp only [step, Option.some.injEq, Prod.mk.injEq] at taken
    obtain ⟨-, rfl⟩ := taken
    exact Or.inr (Or.inl ⟨rx, rfl, rfl⟩)
  | switch psp =>
    simp only [step, Option.ite_none_right_eq_some, Option.some.injEq, Prod.mk.injEq] at taken
    obtain ⟨-, -, rfl⟩ := taken
    exact Or.inr (Or.inr (Or.inl ⟨psp, rfl, rfl⟩))
  | turn p =>
    simp only [step, Option.ite_none_right_eq_some, Option.some.injEq, Prod.mk.injEq] at taken
    obtain ⟨-, -, rfl⟩ := taken
    exact Or.inr (Or.inr (Or.inr (Or.inl ⟨p, rfl, rfl⟩)))
  | mark =>
    simp only [step, Option.ite_none_right_eq_some, Option.some.injEq, Prod.mk.injEq] at taken
    obtain ⟨-, -, rfl⟩ := taken
    simp
  | pend =>
    simp only [step, Option.ite_none_right_eq_some, Option.some.injEq, Prod.mk.injEq] at taken
    obtain ⟨-, -, rfl⟩ := taken
    simp
  | test | read =>
    simp only [step, Option.ite_none_right_eq_some, Option.some.injEq, Prod.mk.injEq] at taken
    obtain ⟨-, -, rfl⟩ := taken
    simp
  | clear =>
    simp only [step] at taken
    split at taken
    · simp only [Option.ite_none_right_eq_some, Option.some.injEq, Prod.mk.injEq] at taken
      obtain ⟨-, -, rfl⟩ := taken
      simp
    · cases taken

/-- No step defers rescheduling. -/
theorem Step.ndefers (h : Step label s s') (shallow : Shallow s.kernel.defer.ndefers) :
    Shallow s'.kernel.defer.ndefers := by
  rcases h.cases with ⟨call, ret, pc, -, -, returns⟩ | ⟨rx, -, kernel⟩ | ⟨psp, -, kernel⟩ | ⟨p, -, kernel⟩ |
    ⟨-, kernel⟩ | ⟨-, kernel⟩ | ⟨-, kernel⟩ | ⟨-, kernel⟩
  · rwa [(steady_execCall shallow returns).ndefers]
  · rwa [kernel, (frame_tim2Handler rx shallow).ndefers]
  · rwa [kernel, (frame_pendSVHandler psp).ndefers]
  · rwa [kernel, (frame_turnTo p).ndefers]
  all_goals
    rw [kernel]
    exact shallow

/-- One step keeps the property exactly when it does not block a process that was sent a message. -/
theorem Step.undisturbed_iff (h : Step label s s') (shallow : Shallow s.kernel.defer.ndefers)
    (none : NoneLost s.kernel) : NoneLost s'.kernel ↔ Undisturbed s label := by
  have kept (other : label ≠ .mark) (after : NoneLost s'.kernel) :
      NoneLost s'.kernel ↔ Undisturbed s label :=
    iff_of_true after fun same => absurd same other
  rcases h.cases with ⟨call, ret, pc, rfl, other, returns⟩ | ⟨rx, rfl, kernel⟩ | ⟨psp, rfl, kernel⟩ |
    ⟨p, rfl, kernel⟩ | ⟨rfl, kernel⟩ | ⟨rfl, kernel⟩ | ⟨same, kernel⟩ | ⟨rfl, kernel⟩
  · exact kept (by simp) (none.call shallow other returns)
  · exact kept (by simp) (kernel ▸ none.frame (frame_tim2Handler rx shallow))
  · exact kept (by simp) (kernel ▸ none.frame (frame_pendSVHandler psp))
  · exact kept (by simp) (kernel ▸ none.frame (frame_turnTo p))
  · rw [kernel, none.mark_iff]
    exact ⟨fun vacant _ => vacant, fun undisturbed => undisturbed rfl⟩
  · exact kept (by simp) (kernel ▸ none.frame frame_pendSV)
  · refine kept ?_ (kernel ▸ none)
    rintro rfl
    simp at same
  · exact kept (by simp) (kernel ▸ none.take)

theorem noneLost_start (image : BootImage) (ram : Nat → UInt8) :
    NoneLost (start image ram).kernel ∧ Shallow (start image ram).kernel.defer.ndefers := by
  have booted := boot_booted image int32 ram
  rw [start]
  generalize boot image int32 ram = booting at booted
  exact ⟨fun p _ => booted.prhasmsg p, shallow_of_zero booted.ndefers⟩

/-! ## Runs -/

/-- In a run in which no process blocks after it was sent a message, no process waits with a message in its
mailbox, and the next step keeps it so exactly if it does not block one either. -/
theorem noneLost_iff (image : BootImage) (ram : Nat → UInt8) {labels : List Label}
    (run : Transition.Run (fun label s s' => Step label s s' ∧ Undisturbed s label) labels (start image ram) s) :
    NoneLost s.kernel ∧ ∀ label s', Step label s s' → (NoneLost s'.kernel ↔ Undisturbed s label) := by
  have started := noneLost_start image ram
  generalize start image ram = s₀ at run started
  have reached : NoneLost s.kernel ∧ Shallow s.kernel.defer.ndefers := by
    refine run.invariant (fun s => NoneLost s.kernel ∧ Shallow s.kernel.defer.ndefers) ?_ started
    rintro label s s' ⟨step, undisturbed⟩ ⟨none, shallow⟩
    exact ⟨(step.undisturbed_iff shallow none).mpr undisturbed, step.ndefers shallow⟩
  exact ⟨reached.1, fun label s' step => step.undisturbed_iff reached.2 reached.1⟩

/-- The steps one after the other, as long as none blocks a process that was sent a message. -/
def exec : List Label → Interleaved → Option Interleaved
  | [], s => some s
  | label :: labels, s => if Undisturbed s label then (s.step label).bind fun (_, s') => exec labels s' else none

theorem run_exec {labels : List Label} {s s' : Interleaved} (returns : exec labels s = some s') :
    Transition.Run (fun label s s' => Step label s s' ∧ Undisturbed s label) labels s s' := by
  induction labels generalizing s with
  | nil => exact Option.some.inj returns ▸ .nil s
  | cons label labels inductionHypothesis =>
    simp only [exec, Option.ite_none_right_eq_some] at returns
    obtain ⟨undisturbed, returns⟩ := returns
    obtain ⟨⟨ret, s₁⟩, taken, rest⟩ := Option.bind_eq_some_iff.mp returns
    exact .cons ⟨⟨ret, taken⟩, undisturbed⟩ (inductionHypothesis rest)

/-- A character arrives, and the other process of the same priority gets the processor. -/
def preempted : List Label := [.tick (some 97), .switch 0x2001d000]

/-- Two processes with one priority. The first gets the processor back from the second. -/
def twoStarted : List Label :=
  [.call (.create 0x08017000 1024 20 [] []), .call (.resume 1), .switch 0x2001e000,
    .call (.create 0x08018000 1024 20 [] []), .call (.resume 2), .switch 0x2001d000] ++ preempted

/-- The first process waits for a message, is sent one, and takes it. -/
def oneReceived : List Label :=
  [.test, .mark, .pend, .switch 0x2001d000, .call (.send 1 7), .switch 0x2001d000, .read, .clear]

set_option maxRecDepth 100000 in
theorem message_received : ∃ s, NoneLost s.kernel ∧
    ∀ label s', Step label s s' → (NoneLost s'.kernel ↔ Undisturbed s label) := by
  have runs : (exec (twoStarted ++ oneReceived) (start smallImage fun _ => 0)).isSome := by decide +kernel
  obtain ⟨s, returns⟩ := Option.isSome_iff_exists.mp runs
  exact ⟨s, noneLost_iff smallImage _ (run_exec returns)⟩

set_option maxRecDepth 100000 in
/-- The first process finds no message and loses the processor to the second, which sends it one. The first
goes on and waits for a message with that one in its mailbox. -/
theorem message_overlooked :
    ¬ ∀ {labels : List Label} {s : Interleaved}, Run labels (start smallImage fun _ => 0) s → NoneLost s.kernel := by
  intro claimed
  have runs : ((exec (twoStarted ++ [.test] ++ preempted ++ [.call (.send 1 7)] ++ preempted)
      (start smallImage fun _ => 0)).bind fun s =>
        (s.step .mark).map fun (_, s') => ((s'.kernel.proctab 1).prstate, (s'.kernel.proctab 1).prhasmsg)) =
          some (.recv, true) := by decide +kernel
  obtain ⟨s, returns, marked⟩ := Option.bind_eq_some_iff.mp runs
  obtain ⟨⟨ret, s'⟩, taken, found⟩ := Option.map_eq_some_iff.mp marked
  obtain ⟨waits, full⟩ := Prod.mk.inj found
  have reached := ((run_exec returns).weaken fun _ _ _ both => both.1).snoc ⟨ret, taken⟩
  rw [claimed reached 1 waits] at full
  cases full

end Interleaved

end XinuStm32
