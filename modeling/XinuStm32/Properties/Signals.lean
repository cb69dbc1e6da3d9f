import XinuStm32.Properties.Consistency

/-!
# A semaphore signalled many times

`signaln` releases processes inside one section and with rescheduling deferred, `signal` in a section for each.
Neither the masks nor the deferral counter decide what a release does to the tables, so the two agree on
everything else.
-/

namespace XinuStm32

/-- Equal in everything but the processor's masks and the deferral counter. -/
def Alike (s t : Kernel) : Prop := t = { s with cpu := t.cpu, defer := t.defer }

variable {s t u : Kernel}

namespace Alike

theorem refl (s : Kernel) : Alike s s := rfl

theorem symm (alike : Alike s t) : Alike t s := by
  rw [Alike] at alike
  rw [alike]
  rfl

theorem trans (first : Alike s t) (second : Alike t u) : Alike s u := by
  rw [Alike] at first second
  rw [first] at second
  rw [second]
  rfl

theorem queuetab (alike : Alike s t) : t.queuetab = s.queuetab := by
  rw [alike]

theorem proctab (alike : Alike s t) : t.proctab = s.proctab := by
  rw [alike]

theorem semtab (alike : Alike s t) : t.semtab = s.semtab := by
  rw [alike]

theorem readylist (alike : Alike s t) : t.readylist = s.readylist := by
  rw [alike]

theorem isbadpid_iff (alike : Alike s t) (p : Int) : isbadpid p t.toSched ↔ isbadpid p s.toSched := by
  rw [isbadpid, isbadpid, alike.proctab]

theorem firstid (alike : Alike s t) (q : Int) : firstid q t.toSched = firstid q s.toSched := by
  rw [XinuStm32.firstid, XinuStm32.firstid, alike.queuetab]

theorem isempty_iff (alike : Alike s t) (q : Int) : isempty q t.toSched ↔ isempty q s.toSched := by
  rw [isempty, isempty, alike.firstid]

theorem disable (s : Kernel) : Alike s (disable s).2 := rfl

theorem restore (mask : UInt32) (s : Kernel) : Alike s (restore mask s) := rfl

theorem reschedCntl_start (s : Kernel) : Alike s (reschedCntl .start s).2 := rfl

theorem setQueue (alike : Alike s t) (queues : QTab) : Alike (s.setQueue queues) (t.setQueue queues) := by
  rw [Alike] at alike
  rw [alike]
  rfl

theorem setState (alike : Alike s t) (p : Int) (state : PrState) : Alike (s.setState p state) (t.setState p state) := by
  rw [Alike] at alike
  rw [alike]
  rfl

theorem addCount (alike : Alike s t) (sem change : Int) : Alike (s.addCount sem change) (t.addCount sem change) := by
  rw [Alike] at alike
  rw [alike]
  rfl

theorem pendSV (alike : Alike s t) : Alike (pendSV s) (pendSV t) := by
  rw [Alike] at alike
  rw [alike]
  rfl

/-! ## What a release does to kernels that are alike -/

theorem dequeue (alike : Alike s t) (q : Int) :
    (dequeue q t).1 = (dequeue q s).1 ∧ Alike (dequeue q s).2 (dequeue q t).2 := by
  simp only [XinuStm32.dequeue, getfirst, alike.isempty_iff, alike.firstid]
  split
  · exact ⟨rfl, alike⟩
  · split
    · exact ⟨rfl, alike⟩
    · simp only [getitem, Kernel.setQueue, alike.queuetab]
      exact ⟨trivial, (alike.setQueue _).setQueue _⟩

theorem insert (alike : Alike s t) (p q key : Int) : Alike (insert p q key s).2 (insert p q key t).2 := by
  simp only [XinuStm32.insert, alike.isbadpid_iff, alike.queuetab]
  split
  · exact alike
  · exact alike.setQueue _

theorem ready (alike : Alike s t) (p : Int) : Alike (ready p s).2 (ready p t).2 := by
  have stored := alike.setState p .ready
  simp only [XinuStm32.ready, alike.isbadpid_iff, stored.readylist, stored.proctab]
  split
  · exact alike
  · exact (stored.insert _ _ _).pendSV

theorem signalOnce (alike : Alike s t) (sem : Int) : Alike (signalOnce sem s) (signalOnce sem t) := by
  have added := alike.addCount sem 1
  have taken := added.dequeue ((s.addCount sem 1).semtab sem).squeue
  simp only [XinuStm32.signalOnce, alike.semtab, added.semtab, taken.1]
  split
  · exact taken.2.ready _
  · exact added

theorem signalnLoop (alike : Alike s t) (sem : Int) (count : Nat) :
    Alike (signalnLoop sem count s) (signalnLoop sem count t) := by
  induction count generalizing s t with
  | zero => exact alike
  | succ count inductionHypothesis => exact inductionHypothesis (alike.signalOnce sem)

end Alike

/-! ## Deferral -/

theorem dequeue_rest (q : Int) (s : Kernel) :
    (dequeue q s).2.defer = s.defer ∧ (dequeue q s).2.semtab = s.semtab := by
  simp only [dequeue, getfirst]
  split
  · exact ⟨rfl, rfl⟩
  · split <;> exact ⟨rfl, rfl⟩

theorem insert_rest (p q key : Int) (s : Kernel) :
    (insert p q key s).2.defer = s.defer ∧ (insert p q key s).2.semtab = s.semtab := by
  simp only [insert]
  split <;> exact ⟨rfl, rfl⟩

theorem ready_rest (p : Int) (s : Kernel) : (ready p s).2.defer = s.defer ∧ (ready p s).2.semtab = s.semtab := by
  simp only [ready]
  split
  · exact ⟨rfl, rfl⟩
  · exact insert_rest ..

theorem signalOnce_defer (sem : Int) (s : Kernel) : (signalOnce sem s).defer = s.defer := by
  simp only [signalOnce]
  split
  · rw [(ready_rest _ _).1, (dequeue_rest _ _).1]
    rfl
  · rfl

theorem signalnLoop_defer (sem : Int) (count : Nat) (s : Kernel) : (signalnLoop sem count s).defer = s.defer := by
  induction count generalizing s with
  | zero => rfl
  | succ count inductionHypothesis => rw [signalnLoop, inductionHypothesis, signalOnce_defer]

/-- What was deferred since the start is requested at the stop only if it was attempted, so nothing is. -/
theorem alike_stop (started : t.defer = (reschedCntl .start s).2.defer) : Alike t (reschedCntl .stop t).2 := by
  have count : t.defer.ndefers = increment32 s.defer.ndefers := by
    rw [started]
    rfl
  simp only [reschedCntl]
  split
  · rfl
  · split
    · next last =>
      obtain ⟨none, attempted⟩ := last
      have first : s.defer.ndefers = 0 := by
        rw [increment32] at count
        split at count <;> omega
      simp [started, reschedCntl, first] at attempted
    · rfl

/-! ## One signal after the other -/

/-- `count` calls of `signal`, none of them interrupted by a context switch. -/
def signals (sem : Int) (count : Nat) : Kernel → Kernel := (fun s => (signal sem s).2)^[count]

/-- `signal` and `signaln` refuse the semaphore. -/
def RefusedSem (sem : Int) (s : Kernel) : Prop := isbadsem sem ∨ (s.semtab sem).sstate = .free

variable {sem : Int}

theorem signal_refused (refused : RefusedSem sem s) : (signal sem s).1 = SYSERR ∧ Alike s (signal sem s).2 := by
  have same : RefusedSem sem (disable s).2 := refused
  simp only [signal]
  split
  · exact ⟨rfl, rfl⟩
  · next good =>
    cases same with
    | inl bad => exact absurd bad good
    | inr free =>
      rw [if_pos free]
      exact ⟨rfl, rfl⟩

theorem signal_granted (granted : ¬ RefusedSem sem s) :
    (signal sem s).1 = OK ∧ Alike (signalOnce sem s) (signal sem s).2 := by
  rw [RefusedSem, not_or] at granted
  have once := (Alike.disable s).signalOnce sem
  simp only [signal]
  rw [if_neg granted.1, if_neg (show ((disable s).2.semtab sem).sstate ≠ .free from granted.2)]
  exact ⟨rfl, once.trans (.restore _ _)⟩

theorem signaln_refused (count : Int32) (refused : RefusedSem sem s) :
    (signaln sem count s).1 = SYSERR ∧ Alike s (signaln sem count s).2 := by
  have same : RefusedSem sem (disable s).2 := refused
  simp only [signaln]
  split
  · exact ⟨rfl, rfl⟩
  · next good =>
    cases same with
    | inl bad => exact absurd (Or.inl bad) good
    | inr free =>
      rw [if_pos free]
      exact ⟨rfl, rfl⟩

theorem signaln_granted {count : Int32} (nonnegative : 0 ≤ count.toInt) (granted : ¬ RefusedSem sem s) :
    (signaln sem count s).1 = OK ∧ Alike (signalnLoop sem count.toInt.toNat s) (signaln sem count s).2 := by
  rw [RefusedSem, not_or] at granted
  have good : ¬ (isbadsem sem ∨ count.toInt < 0) := not_or.mpr ⟨granted.1, Int.not_lt.mpr nonnegative⟩
  have used : ((disable s).2.semtab sem).sstate ≠ .free := granted.2
  have released := ((Alike.disable s).trans (.reschedCntl_start _)).signalnLoop sem count.toInt.toNat
  simp only [signaln]
  rw [if_neg good, if_neg used]
  exact ⟨rfl, (released.trans (alike_stop (signalnLoop_defer ..))).trans (.restore _ _)⟩

theorem RefusedSem.congr (alike : Alike s t) : RefusedSem sem t ↔ RefusedSem sem s := by
  rw [RefusedSem, RefusedSem, alike.semtab]

/-- A release keeps a semaphore in use. -/
theorem sstate_signalOnce (other : Int) : ((signalOnce sem s).semtab other).sstate = (s.semtab other).sstate := by
  have counted : ((s.addCount sem 1).semtab other).sstate = (s.semtab other).sstate := by
    simp only [Kernel.addCount, Kernel.setSem, Function.update_apply]
    split
    · next same => rw [same]
    · rfl
  simp only [signalOnce]
  split
  · rw [(ready_rest _ _).2, (dequeue_rest _ _).2]
    exact counted
  · exact counted

/-- A refused semaphore stays as it is, however often it is signalled. -/
theorem signals_refused (count : Nat) (refused : RefusedSem sem s) : Alike s (signals sem count s) := by
  induction count generalizing s with
  | zero => exact .refl s
  | succ count inductionHypothesis =>
    have once := (signal_refused refused).2
    exact once.trans (inductionHypothesis ((RefusedSem.congr once).mpr refused))

theorem signals_granted (count : Nat) (granted : ¬ RefusedSem sem s) :
    Alike (signalnLoop sem count s) (signals sem count s) := by
  induction count generalizing s with
  | zero => exact .refl s
  | succ count inductionHypothesis =>
    have once := (signal_granted granted).2
    have still : ¬ RefusedSem sem (signal sem s).2 := by
      rw [RefusedSem.congr once, RefusedSem, sstate_signalOnce]
      exact granted
    exact (once.signalnLoop sem count).trans (inductionHypothesis still)

/-- `signaln` leaves what as many calls of `signal` leave, in everything but the masks and the deferral counter,
and fails exactly when `signal` would. -/
theorem signaln_signals (sem : Int) (s : Kernel) {count : Int32} (nonnegative : 0 ≤ count.toInt) :
    Alike (signals sem count.toInt.toNat s) (signaln sem count s).2 ∧
      ((signaln sem count s).1 = SYSERR ↔ (signal sem s).1 = SYSERR) := by
  by_cases refused : RefusedSem sem s
  · obtain ⟨failed, same⟩ := signal_refused refused
    obtain ⟨failedAll, sameAll⟩ := signaln_refused count refused
    exact ⟨(signals_refused _ refused).symm.trans sameAll, iff_of_true failedAll failed⟩
  · obtain ⟨returned, -⟩ := signal_granted refused
    obtain ⟨returnedAll, released⟩ := signaln_granted nonnegative refused
    refine ⟨(signals_granted _ refused).symm.trans released, iff_of_false ?_ ?_⟩
    · rw [returnedAll]
      decide
    · rw [returned]
      decide

/-- A semaphore that processes 2 and 3 wait on. -/
def heldSemaphore : Kernel :=
  let s := (semcreate 0 (sysinit (zeroed smallImage.toImage int32 fun _ => 0))).2
  let s := (wait 2 { s.setState 2 .curr with currpid := 2 }).2
  (wait 2 { s.setState 3 .curr with currpid := 3 }).2

/-- Both are released in their order, and the third signal is counted. -/
theorem heldSemaphore_signaln :
    heldSemaphore.queuetab.members (heldSemaphore.semtab 2).squeue = [2, 3] ∧
      (signaln 2 3 heldSemaphore).2.queuetab.members heldSemaphore.readylist = [2, 3] ∧
      ((signaln 2 3 heldSemaphore).2.semtab 2).scount = 1 ∧
      Alike (signals 2 3 heldSemaphore) (signaln 2 3 heldSemaphore).2 ∧
      ((signaln 2 3 heldSemaphore).1 = SYSERR ↔ (signal 2 heldSemaphore).1 = SYSERR) := by
  have three : (3 : Int32).toInt.toNat = 3 := by decide
  have same := signaln_signals 2 heldSemaphore (show 0 ≤ (3 : Int32).toInt by decide)
  rw [three] at same
  exact ⟨by decide +kernel, by decide +kernel, by decide +kernel, same⟩

end XinuStm32
