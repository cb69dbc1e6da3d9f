import XinuStm32.Kernel.System

/-!
# What operations leave alone

`Steady` collects the variables that no operation but start-up changes for good. `Frame` adds the
mailboxes: only `send`, `receive`, `recvclr`, `recvtime` and `create` touch them, and only `receive`
puts a process in state `recv`. Who the parent of a process is, only `create` says.
-/

namespace XinuStm32

structure Steady (s s' : Kernel) : Prop where
  ndefers : s'.defer.ndefers = s.defer.ndefers
  nextqid : s'.nextqid = s.nextqid
  counting : s'.counting = s.counting
  readyPreemptive : s'.readyPreemptive = s.readyPreemptive
  nextsem : 0 ≤ s.nextsem ∧ s.nextsem < NSEM → 0 ≤ s'.nextsem ∧ s'.nextsem < NSEM

structure Frame (s s' : Kernel) : Prop extends Steady s s' where
  prmsg : ∀ p, (s'.proctab p).prmsg = (s.proctab p).prmsg
  prhasmsg : ∀ p, (s'.proctab p).prhasmsg = (s.proctab p).prhasmsg
  recv : ∀ p, (s'.proctab p).prstate = .recv → (s.proctab p).prstate = .recv
  prparent : ∀ p, (s'.proctab p).prparent = (s.proctab p).prparent

theorem Steady.refl (s : Kernel) : Steady s s := ⟨rfl, rfl, rfl, rfl, id⟩

theorem Steady.trans {s s' s'' : Kernel} (first : Steady s s') (second : Steady s' s'') :
    Steady s s'' :=
  ⟨second.ndefers.trans first.ndefers, second.nextqid.trans first.nextqid,
    second.counting.trans first.counting, second.readyPreemptive.trans first.readyPreemptive,
    fun bounds => second.nextsem (first.nextsem bounds)⟩

theorem Frame.refl (s : Kernel) : Frame s s := ⟨.refl s, fun _ => rfl, fun _ => rfl, fun _ => id, fun _ => rfl⟩

theorem Frame.trans {s s' s'' : Kernel} (first : Frame s s') (second : Frame s' s'') :
    Frame s s'' :=
  ⟨first.toSteady.trans second.toSteady, fun p => (second.prmsg p).trans (first.prmsg p),
    fun p => (second.prhasmsg p).trans (first.prhasmsg p),
    fun p waiting => first.recv p (second.recv p waiting),
    fun p => (second.prparent p).trans (first.prparent p)⟩

/-- An operation that does not touch the process table. -/
theorem Frame.of_proctab {s s' : Kernel} (steady : Steady s s') (proctab : s'.proctab = s.proctab) :
    Frame s s' :=
  ⟨steady, fun _ => by rw [proctab], fun _ => by rw [proctab], fun _ => by rw [proctab]; exact id,
    fun _ => by rw [proctab]⟩

/-! ## Stores -/

variable {s : Kernel}

theorem frame_disable : Frame s (disable s).2 := .of_proctab ⟨rfl, rfl, rfl, rfl, id⟩ rfl

theorem frame_restore (mask : UInt32) : Frame s (restore mask s) :=
  .of_proctab ⟨rfl, rfl, rfl, rfl, id⟩ rfl

theorem frame_pendSV : Frame s (pendSV s) := .of_proctab ⟨rfl, rfl, rfl, rfl, id⟩ rfl

theorem frame_setQueue (t : QTab) : Frame s (s.setQueue t) :=
  .of_proctab ⟨rfl, rfl, rfl, rfl, id⟩ rfl

theorem frame_setSem (sem : Int) (entry : Sentry) : Frame s (s.setSem sem entry) :=
  .of_proctab ⟨rfl, rfl, rfl, rfl, id⟩ rfl

theorem frame_addCount (sem change : Int) : Frame s (s.addCount sem change) := frame_setSem _ _

/-- A store to an entry that keeps its mailbox and its parent and does not start to wait for a message. -/
theorem frame_setProc {p : Int} {entry : Procent} (prmsg : entry.prmsg = (s.proctab p).prmsg)
    (prhasmsg : entry.prhasmsg = (s.proctab p).prhasmsg)
    (recv : entry.prstate = .recv → (s.proctab p).prstate = .recv)
    (prparent : entry.prparent = (s.proctab p).prparent) : Frame s (s.setProc p entry) := by
  refine ⟨⟨rfl, rfl, rfl, rfl, id⟩, fun p' => ?_, fun p' => ?_, fun p' => ?_, fun p' => ?_⟩
  all_goals
    simp only [Kernel.setProc, Function.update_apply]
    split
    · next same => subst same; assumption
    · first | rfl | exact id

theorem frame_setState (p : Int) {state : PrState} (other : state ≠ .recv) :
    Frame s (s.setState p state) :=
  frame_setProc rfl rfl (fun same => absurd same other) rfl

theorem frame_tty (tty : Ttycblk) : Frame s { s with tty := tty } :=
  .of_proctab ⟨rfl, rfl, rfl, rfl, id⟩ rfl

theorem frame_currpid (p : Int) : Frame s { s with currpid := p } :=
  .of_proctab ⟨rfl, rfl, rfl, rfl, id⟩ rfl

theorem frame_preempt (n : Nat) : Frame s { s with preempt := n } :=
  .of_proctab ⟨rfl, rfl, rfl, rfl, id⟩ rfl

/-! ## Queue operations -/

theorem frame_enqueue (p q : Int) : Frame s (enqueue p q s).2 := by
  simp only [enqueue]
  split
  · exact .refl s
  · exact frame_setQueue _

theorem frame_getitem (p : Int) : Frame s (getitem p s).2 := frame_setQueue _

theorem frame_getfirst (q : Int) : Frame s (getfirst q s).2 := by
  simp only [getfirst]
  split
  · exact .refl s
  · exact frame_getitem _

theorem frame_dequeue (q : Int) : Frame s (dequeue q s).2 := by
  simp only [dequeue]
  split
  · exact .refl s
  · split
    · exact .refl s
    · exact (frame_getfirst q).trans (frame_setQueue _)

theorem frame_insert (p q key : Int) : Frame s (insert p q key s).2 := by
  simp only [insert]
  split
  · exact .refl s
  · exact frame_setQueue _

theorem frame_insertd (p q key : Int) : Frame s (insertd p q key s).2 := by
  simp only [insertd]
  split
  · exact .refl s
  · exact frame_setQueue _

theorem frame_ready (p : Int) : Frame s (ready p s).2 := by
  simp only [ready]
  split
  · exact .refl s
  · exact ((frame_setState p (by decide)).trans (frame_insert _ _ _)).trans frame_pendSV

theorem frame_unsleep (p : Int) : Frame s (unsleep p s).2 := by
  simp only [unsleep]
  split
  · exact frame_disable.trans (frame_restore _)
  · split
    · exact frame_disable.trans (frame_restore _)
    · split
      · exact ((frame_disable.trans (frame_setQueue _)).trans (frame_getitem p)).trans
          (frame_restore _)
      · exact (frame_disable.trans (frame_getitem p)).trans (frame_restore _)

/-- A deferral counter that one more deferral does not overflow. -/
def Shallow (ndefers : Int) : Prop := 0 ≤ ndefers ∧ ndefers < 2147483647

theorem shallow_of_zero {ndefers : Int} (zero : ndefers = 0) : Shallow ndefers := by
  rw [zero]
  exact ⟨by decide, by decide⟩

theorem Shallow.increment {ndefers : Int} (shallow : Shallow ndefers) : increment32 ndefers = ndefers + 1 :=
  if_neg (Int.ne_of_lt shallow.2)

/-- What happens between the start and the stop of a deferral is all that happens. -/
theorem Frame.deferred {s' : Kernel} (shallow : Shallow s.defer.ndefers)
    (frame : Frame (reschedCntl .start s).2 s') : Frame s (reschedCntl .stop s').2 := by
  have count : s'.defer.ndefers = s.defer.ndefers + 1 := frame.ndefers.trans shallow.increment
  have nonnegative := shallow.1
  simp only [reschedCntl]
  rw [if_neg (by omega)]
  have back : s'.defer.ndefers - 1 = s.defer.ndefers := by omega
  split
  · exact ⟨⟨back, frame.nextqid, frame.counting, frame.readyPreemptive, frame.nextsem⟩, frame.prmsg,
      frame.prhasmsg, frame.recv, frame.prparent⟩
  · exact ⟨⟨back, frame.nextqid, frame.counting, frame.readyPreemptive, frame.nextsem⟩, frame.prmsg,
      frame.prhasmsg, frame.recv, frame.prparent⟩

/-! ## Scheduling and sleeping -/

theorem frame_yield : Frame s (yield s).2 := (frame_disable.trans frame_pendSV).trans (frame_restore _)

theorem frame_suspend (p : Int) : Frame s (suspend p s).2 := by
  simp only [suspend]
  split
  · exact frame_disable.trans (frame_restore _)
  · split
    · exact frame_disable.trans (frame_restore _)
    · split
      · exact ((frame_disable.trans (frame_getitem p)).trans (frame_setState p (by decide))).trans
          (frame_restore _)
      · exact ((frame_disable.trans (frame_setState p (by decide))).trans frame_pendSV).trans
          (frame_restore _)

theorem frame_resume (p : Int) : Frame s (resume p s).2 := by
  simp only [resume]
  split
  · exact .refl s
  · split
    · exact .refl s
    · exact frame_ready p

theorem frame_chprio (p : Int) (newprio : Int16) : Frame s (chprio p newprio s).2 := by
  simp only [chprio]
  split
  · exact frame_disable.trans (frame_restore _)
  · refine (frame_disable.trans ?_).trans (frame_restore _)
    exact frame_setProc rfl rfl id rfl

theorem frame_sleepms (delay : Int32) : Frame s (sleepms delay s).2 := by
  simp only [sleepms]
  split
  · exact .refl s
  · split
    · exact frame_yield
    · have inserted : Frame s
          (insertd (disable s).2.currpid (disable s).2.sleepq delay.toInt (disable s).2).2 :=
        frame_disable.trans (frame_insertd _ _ _)
      split
      · exact inserted.trans (frame_restore _)
      · exact ((inserted.trans (frame_setState _ (by decide))).trans frame_pendSV).trans
          (frame_restore _)

theorem frame_wakeupLoop (fuel : Nat) : Frame s (wakeupLoop fuel s) := by
  induction fuel generalizing s with
  | zero => exact .refl s
  | succ fuel inductionHypothesis =>
    simp only [wakeupLoop]
    split
    · exact ((frame_dequeue _).trans (frame_ready _)).trans inductionHypothesis
    · exact .refl s

theorem frame_wakeup (shallow : Shallow s.defer.ndefers) : Frame s (wakeup s) :=
  .deferred shallow (frame_wakeupLoop _)

theorem frame_tickSeconds : Frame s (tickSeconds s) := by
  simp only [tickSeconds]
  split <;> exact .of_proctab ⟨rfl, rfl, rfl, rfl, id⟩ rfl

theorem frame_tickSleepers (shallow : Shallow s.defer.ndefers) : Frame s (tickSleepers s) := by
  simp only [tickSleepers]
  split
  · split
    · exact (frame_setQueue _).trans (frame_wakeup shallow)
    · exact frame_setQueue _
  · exact .refl s

theorem frame_tickSlice : Frame s (tickSlice s) := by
  simp only [tickSlice]
  split <;> exact .of_proctab ⟨rfl, rfl, rfl, rfl, id⟩ rfl

theorem frame_clockTick (shallow : Shallow s.defer.ndefers) : Frame s (clockTick s) := by
  have seconds : Frame s (tickSeconds s) := frame_tickSeconds
  simp only [clockTick]
  split
  · exact (seconds.trans (frame_tickSleepers (seconds.ndefers ▸ shallow))).trans frame_tickSlice
  · exact seconds

theorem frame_switchTo (restorestk : Nat) : Frame s (switchTo restorestk s) := by
  simp only [switchTo]
  have running : Frame s _ := ((frame_dequeue s.readylist).trans
    (frame_currpid (dequeue s.readylist s).1)).trans
    (frame_setState (dequeue s.readylist s).1 (show PrState.curr ≠ .recv by decide))
  apply (running.trans (frame_preempt QUANTUM)).trans
  exact frame_setProc rfl rfl id rfl

theorem frame_reschedule (restorestk : Nat) : Frame s (reschedule restorestk s) := by
  simp only [reschedule]
  split
  · split
    · exact .refl s
    · exact ((frame_setState _ (by decide)).trans (frame_insert _ _ _)).trans (frame_switchTo _)
  · exact frame_switchTo _

theorem frame_pendSVHandler (psp : Nat) : Frame s (pendSVHandler psp s) := by
  have accepted : Frame s { s with pendsv := false } := .of_proctab ⟨rfl, rfl, rfl, rfl, id⟩ rfl
  simp only [pendSVHandler]
  split
  · exact .of_proctab ⟨rfl, rfl, rfl, rfl, id⟩ rfl
  · exact accepted.trans (frame_reschedule _)

/-! ## Semaphores -/

theorem frame_waitBlock (sem : Int) : Frame s (waitBlock sem s) := by
  refine .trans ?_ ((frame_enqueue _ _).trans frame_pendSV)
  exact frame_setProc rfl rfl (by simp) rfl

theorem frame_wait (sem : Int) : Frame s (wait sem s).2 := by
  simp only [wait]
  split
  · exact frame_disable.trans (frame_restore _)
  · split
    · exact frame_disable.trans (frame_restore _)
    · split
      · exact ((frame_disable.trans (frame_addCount sem (-1))).trans (frame_waitBlock sem)).trans
          (frame_restore _)
      · exact (frame_disable.trans (frame_addCount sem (-1))).trans (frame_restore _)

theorem frame_signalOnce (sem : Int) : Frame s (signalOnce sem s) := by
  simp only [signalOnce]
  split
  · exact ((frame_addCount sem 1).trans (frame_dequeue _)).trans (frame_ready _)
  · exact frame_addCount sem 1

theorem frame_signal (sem : Int) : Frame s (signal sem s).2 := by
  simp only [signal]
  split
  · exact frame_disable.trans (frame_restore _)
  · split
    · exact frame_disable.trans (frame_restore _)
    · exact (frame_disable.trans (frame_signalOnce sem)).trans (frame_restore _)

theorem frame_signalnLoop (sem : Int) (count : Nat) : Frame s (signalnLoop sem count s) := by
  induction count generalizing s with
  | zero => exact .refl s
  | succ count inductionHypothesis => exact (frame_signalOnce sem).trans inductionHypothesis

theorem frame_signaln (sem : Int) (count : Int32) (shallow : Shallow s.defer.ndefers) :
    Frame s (signaln sem count s).2 := by
  simp only [signaln]
  split
  · exact frame_disable.trans (frame_restore _)
  · split
    · exact frame_disable.trans (frame_restore _)
    · exact (frame_disable.trans (.deferred shallow (frame_signalnLoop sem _))).trans
        (frame_restore _)

theorem frame_semcount (sem : Int) : Frame s (semcount sem s).2 := by
  simp only [semcount]
  split <;> exact frame_disable.trans (frame_restore _)

theorem frame_semdeleteLoop (sem : Int) (fuel : Nat) : Frame s (semdeleteLoop sem fuel s) := by
  induction fuel generalizing s with
  | zero => exact frame_addCount sem 1
  | succ fuel inductionHypothesis =>
    simp only [semdeleteLoop]
    split
    · exact (((frame_addCount sem 1).trans (frame_getfirst _)).trans (frame_ready _)).trans
        inductionHypothesis
    · exact frame_addCount sem 1

theorem frame_semdelete (sem : Int) (shallow : Shallow s.defer.ndefers) :
    Frame s (semdelete sem s).2 := by
  simp only [semdelete]
  split
  · exact frame_disable.trans (frame_restore _)
  · split
    · exact frame_disable.trans (frame_restore _)
    · exact ((frame_disable.trans (frame_setSem sem _)).trans
        (.deferred shallow (frame_semdeleteLoop sem _))).trans (frame_restore _)

theorem frame_semresetLoop (q : Int) (fuel : Nat) : Frame s (semresetLoop q fuel s) := by
  induction fuel generalizing s with
  | zero => exact .refl s
  | succ fuel inductionHypothesis =>
    simp only [semresetLoop]
    split
    · exact ((frame_getfirst q).trans (frame_ready _)).trans inductionHypothesis
    · exact frame_getfirst q

theorem frame_semreset (sem : Int) (count : Int32) (shallow : Shallow s.defer.ndefers) :
    Frame s (semreset sem count s).2 := by
  simp only [semreset]
  split
  · exact frame_disable.trans (frame_restore _)
  · exact (frame_disable.trans (.deferred shallow
      ((frame_semresetLoop _ _).trans (frame_setSem sem _)))).trans (frame_restore _)

theorem steady_newsemLoop (fuel : Nat) :
    Steady s (newsemLoop fuel s).2 ∧ (newsemLoop fuel s).2.proctab = s.proctab := by
  induction fuel generalizing s with
  | zero => exact ⟨.refl s, rfl⟩
  | succ fuel inductionHypothesis =>
    have advanced : Steady s { s with nextsem := if s.nextsem + 1 ≥ NSEM then 0 else s.nextsem + 1 } := by
      refine ⟨rfl, rfl, rfl, rfl, fun bounds => ?_⟩
      simp only [NSEM] at *
      split <;> omega
    simp only [newsemLoop]
    split
    · exact ⟨advanced.trans ⟨rfl, rfl, rfl, rfl, id⟩, rfl⟩
    · exact ⟨advanced.trans inductionHypothesis.1, inductionHypothesis.2⟩

theorem frame_semcreate (count : Int32) : Frame s (semcreate count s).2 := by
  simp only [semcreate]
  split
  · exact frame_disable.trans (frame_restore _)
  · obtain ⟨steady, proctab⟩ := steady_newsemLoop (s := (disable s).2) NSEM.toNat
    have allotted := frame_disable.trans (.of_proctab steady proctab)
    split
    · exact allotted.trans (frame_restore _)
    · exact (allotted.trans (frame_setSem _ _)).trans (frame_restore _)

/-! ## Console input -/

theorem frame_eputc (c : UInt8) : Frame s (eputc c s) := .of_proctab ⟨rfl, rfl, rfl, rfl, id⟩ rfl

theorem frame_echoch (c : UInt8) : Frame s (echoch c s) := by
  simp only [echoch]
  split
  · exact (frame_eputc _).trans (frame_eputc _)
  · split
    · exact (frame_eputc _).trans (frame_eputc _)
    · exact frame_eputc _

theorem frame_eraseColumn : Frame s (eraseColumn s) := by
  simp only [eraseColumn]
  split
  · exact ((frame_eputc _).trans (frame_eputc _)).trans (frame_eputc _)
  · exact frame_eputc _

theorem frame_erase1 : Frame s (erase1 s) := by
  simp only [erase1]
  generalize (if s.tty.tyitail - 1 < 0 then s.tty.tyitail - 1 + TY_IBUFLEN
    else s.tty.tyitail - 1) = tail
  have moved : Frame s { s with tty := { s.tty with tyitail := tail } } := frame_tty _
  split
  · split
    · refine moved.trans (.trans ?_ frame_eraseColumn)
      split
      · exact frame_eraseColumn
      · exact .refl _
    · exact moved.trans frame_eraseColumn
  · exact moved

theorem frame_storeChar (c : UInt8) : Frame s (storeChar c s) := frame_tty _

theorem frame_wrapTail : Frame s (wrapTail s) := by
  simp only [wrapTail]
  split
  · exact frame_tty _
  · exact .refl s

theorem frame_echo (echo : Bool) (c : UInt8) : Frame s (if echo = true then echoch c s else s) := by
  split
  · exact frame_echoch c
  · exact .refl s

theorem frame_availChars : Frame s (availChars s).2 := frame_semcount _

theorem frame_ttyhandleInCooked (c : UInt8) (shallow : Shallow s.defer.ndefers) :
    Frame s (ttyhandleInCooked c s) := by
  simp only [ttyhandleInCooked]
  split
  · exact ((frame_tty _).trans (frame_eputc _)).trans (frame_eputc _)
  split
  · split
    · exact (frame_tty _).trans frame_erase1
    · exact .refl s
  split
  · have stored : Frame s (wrapTail (storeChar c (if s.tty.tyiecho = true then echoch c s else s))) :=
      ((frame_echo s.tty.tyiecho c).trans (frame_storeChar c)).trans frame_wrapTail
    generalize wrapTail (storeChar c (if s.tty.tyiecho = true then echoch c s else s)) = stored'
      at stored ⊢
    exact (stored.trans (frame_signaln _ _ (stored.ndefers ▸ shallow))).trans (frame_tty _)
  have available := frame_availChars (s := s)
  generalize availChars s = counted at available ⊢
  split
  · exact available.trans (frame_eputc _)
  have echoed := available.trans (frame_echo counted.2.tty.tyiecho c)
  generalize (if counted.2.tty.tyiecho = true then echoch c counted.2 else counted.2) = echo
    at echoed ⊢
  split
  · split
    · exact echoed
    · exact (echoed.trans (frame_storeChar c)).trans (frame_signal _)
  · exact ((echoed.trans (frame_tty _)).trans (frame_storeChar c)).trans frame_wrapTail

theorem frame_ttyhandleIn (c : UInt8) (shallow : Shallow s.defer.ndefers) :
    Frame s (ttyhandleIn c s) := by
  have available := frame_availChars (s := s)
  simp only [ttyhandleIn]
  generalize availChars s = counted at available ⊢
  split
  · split
    · exact available
    · exact ((available.trans (frame_storeChar c)).trans frame_wrapTail).trans (frame_signal _)
  generalize (if c = TY_RETURN ∧ counted.2.tty.tyicrlf = true then TY_NEWLINE else c) = ch
  have held : Frame s { counted.2 with tty := { counted.2.tty with tyoheld := false } } :=
    available.trans (frame_tty _)
  split
  · split
    · exact held.trans (frame_eputc _)
    · exact (((held.trans (frame_storeChar ch)).trans frame_wrapTail).trans (frame_echo _ ch)).trans
        (frame_signal _)
  · exact held.trans (frame_ttyhandleInCooked ch (held.ndefers ▸ shallow))

theorem frame_tim2Handler (rx : Option UInt8) (shallow : Shallow s.defer.ndefers) :
    Frame s (tim2Handler rx s) := by
  cases rx with
  | none => exact frame_clockTick shallow
  | some c =>
    have handled := (frame_ttyhandleIn c shallow).trans frame_yield
    exact handled.trans (frame_clockTick (handled.ndefers ▸ shallow))

/-! ## Messages -/

/-- `send` is refused, or it stores the message and then leaves the mailboxes alone. -/
theorem send_cases (p : Int) (msg : UInt32) :
    (isbadpid p s.toSched ∨ (s.proctab p).prhasmsg = true) ∧ (send p msg s).1 = SYSERR ∧
        Frame s (send p msg s).2 ∨
      ¬ isbadpid p s.toSched ∧ (s.proctab p).prhasmsg = false ∧ (send p msg s).1 = OK ∧
        Frame ((disable s).2.setProc p { s.proctab p with prmsg := msg, prhasmsg := true })
          (send p msg s).2 := by
  have bad : isbadpid p (disable s).2.toSched ↔ isbadpid p s.toSched := Iff.rfl
  simp only [send, bad]
  by_cases refused : isbadpid p s.toSched
  · rw [if_pos refused]
    exact Or.inl ⟨Or.inl refused, rfl, frame_disable.trans (frame_restore _)⟩
  rw [if_neg refused]
  cases full : (s.proctab p).prhasmsg with
  | true =>
    rw [if_pos (show ((disable s).2.proctab p).prhasmsg = true from full)]
    exact Or.inl ⟨Or.inr rfl, rfl, frame_disable.trans (frame_restore _)⟩
  | false =>
    rw [if_neg (show ¬ ((disable s).2.proctab p).prhasmsg = true by simp [disable, full])]
    refine Or.inr ⟨refused, rfl, rfl, ?_⟩
    split
    · exact (frame_ready p).trans (frame_restore _)
    · split
      · exact ((frame_unsleep p).trans (frame_ready p)).trans (frame_restore _)
      · exact frame_restore _

theorem steady_setProc (p : Int) (entry : Procent) : Steady s (s.setProc p entry) :=
  ⟨rfl, rfl, rfl, rfl, id⟩

theorem steady_send (p : Int) (msg : UInt32) : Steady s (send p msg s).2 := by
  obtain ⟨-, -, frame⟩ | ⟨-, -, -, frame⟩ := send_cases (s := s) p msg
  · exact frame.toSteady
  · exact (frame_disable.toSteady.trans (steady_setProc p _)).trans frame.toSteady

theorem steady_receiveTake : Steady s (receiveTake s).2 := steady_setProc _ _

theorem steady_receiveBlock : Steady s (receiveBlock s) := ⟨rfl, rfl, rfl, rfl, id⟩

theorem steady_recvclr : Steady s (recvclr s).2 := by
  simp only [recvclr]
  split <;> exact ⟨rfl, rfl, rfl, rfl, id⟩

theorem steady_recvtime (maxwait : Int32) : Steady s (recvtime maxwait s).2 := by
  have checked (s : Kernel) : Steady s (recvtimeCheck s).2 := by
    simp only [recvtimeCheck]
    split
    · exact steady_receiveTake
    · exact .refl s
  have blocked (s : Kernel) : Steady s (recvtimeBlock maxwait s).2 := by
    simp only [recvtimeBlock]
    split
    · split
      · exact (frame_insertd _ _ _).toSteady
      · exact (((frame_insertd s.currpid s.sleepq maxwait.toInt).trans
          (frame_setState _ (show PrState.rectim ≠ .recv by decide))).trans frame_pendSV).toSteady
    · exact .refl s
  simp only [recvtime]
  split
  · exact .refl s
  · have both := (frame_disable (s := s)).toSteady.trans (blocked _)
    split
    · exact both.trans (frame_restore _).toSteady
    · exact (both.trans (checked _)).trans (frame_restore _).toSteady

/-! ## Creation and termination -/

theorem frame_getstk (nbytes : Nat) : Frame s (getstk nbytes s).2 := by
  simp only [getstk]
  split <;> exact .of_proctab ⟨rfl, rfl, rfl, rfl, id⟩ rfl

theorem frame_newpidLoop (fuel : Nat) : Frame s (newpidLoop fuel s).2 := by
  induction fuel generalizing s with
  | zero => exact .refl s
  | succ fuel inductionHypothesis =>
    simp only [newpidLoop]
    split
    · exact .of_proctab ⟨rfl, rfl, rfl, rfl, id⟩ rfl
    · have advanced : Frame s { s with nextpid := s.nextpid % NPROC + 1 } :=
        .of_proctab ⟨rfl, rfl, rfl, rfl, id⟩ rfl
      exact advanced.trans inductionHypothesis

/-- `create` fails, or it empties the mailbox of the entry it takes. -/
theorem create_cases (procaddr ssize : UInt32) (priority : Int16) (name : List UInt8)
    (args : List UInt32) :
    (create procaddr ssize priority name args s).1 = SYSERR ∧
        Frame s (create procaddr ssize priority name args s).2 ∨
      ∃ s' saddr size, Frame s s' ∧ (create procaddr ssize priority name args s).1 = (newpid s').1 ∧
        (newpid s').1 ≠ SYSERR ∧
        Frame (fillEntry (newpid s').1 saddr size procaddr priority name args (newpid s').2)
          (create procaddr ssize priority name args s).2 := by
  simp only [create]
  generalize roundew (if ssize.toNat < MINSTK then MINSTK else ssize.toNat) = size
  have got := (frame_disable (s := s)).trans (frame_getstk size)
  generalize (getstk size (disable s).2).1 = saddr, (getstk size (disable s).2).2 = s' at got ⊢
  split
  · exact Or.inl ⟨rfl, got.trans (frame_restore _)⟩
  · split
    · exact Or.inl ⟨rfl, (got.trans (frame_newpidLoop _)).trans (frame_restore _)⟩
    · next good =>
      rw [not_or] at good
      exact Or.inr ⟨s', saddr, size, got, rfl, good.1, frame_restore _⟩

theorem steady_fillEntry (p : Int) (saddr size : Nat) (procaddr : UInt32) (priority : Int16)
    (name : List UInt8) (args : List UInt32) :
    Steady s (fillEntry p saddr size procaddr priority name args s) := ⟨rfl, rfl, rfl, rfl, id⟩

theorem steady_create (procaddr ssize : UInt32) (priority : Int16) (name : List UInt8)
    (args : List UInt32) : Steady s (create procaddr ssize priority name args s).2 := by
  rcases create_cases (s := s) procaddr ssize priority name args with
    ⟨-, frame⟩ | ⟨s', saddr, size, got, -, -, frame⟩
  · exact frame.toSteady
  · exact ((got.trans (frame_newpidLoop _)).toSteady.trans
      (steady_fillEntry _ _ _ _ _ _ _)).trans frame.toSteady

theorem frame_freemem (blkaddr nbytes : Nat) : Frame s (freemem blkaddr nbytes s).2 := by
  simp only [freemem]
  split <;> exact .of_proctab ⟨rfl, rfl, rfl, rfl, id⟩ rfl

theorem frame_free (pmem : Nat) : Frame s (free pmem s) := by
  simp only [free]
  split
  · exact .refl s
  · exact frame_freemem _ _

theorem frame_close (descrp : Int) : Frame s (close descrp s).2 := by
  simp only [close]
  split <;> exact frame_disable.trans (frame_restore _)

/-- After telling the parent, `kill` leaves the mailboxes alone. -/
theorem frame_killRelease (p : Int) :
    Frame (send (s.proctab p).prparent (UInt32.ofNat p.toNat) s).2 (killRelease p s) := by
  have closed (s : Kernel) : Frame s
      (close (((close (((close ((s.proctab p).prdesc 0) s).2.proctab p).prdesc 1)
        (close ((s.proctab p).prdesc 0) s).2).2.proctab p).prdesc 2)
        (close (((close ((s.proctab p).prdesc 0) s).2.proctab p).prdesc 1)
          (close ((s.proctab p).prdesc 0) s).2).2).2 :=
    ((frame_close _).trans (frame_close _)).trans (frame_close _)
  simp only [killRelease]
  split
  · exact ((closed _).trans (frame_freemem _ _)).trans (frame_free _)
  · exact (closed _).trans (frame_freemem _ _)

theorem frame_killState (p : Int) : Frame s (killState p s) := by
  have free (s : Kernel) : Frame s (s.setState p .free) := frame_setState p (by decide)
  simp only [killState]
  split
  · exact (((free s).trans frame_pendSV).trans (frame_unsleep p)).trans (free _)
  · exact (frame_unsleep p).trans (free _)
  · exact (frame_unsleep p).trans (free _)
  · exact ((frame_addCount _ 1).trans (frame_getitem p)).trans (free _)
  · exact (frame_getitem p).trans (free _)
  · exact free s

/-- `kill` is refused, or it sends the pid to the parent and leaves the mailboxes alone. -/
theorem kill_cases (p : Int) {result : Int} {s' : Kernel} (returns : kill p s = some (result, s')) :
    result = SYSERR ∧ Frame s s' ∨
      result = OK ∧ ¬ isbadpid p s.toSched ∧
        ∃ s₀, Frame s s₀ ∧ s₀.proctab = s.proctab ∧
          Frame (send (s.proctab p).prparent (UInt32.ofNat p.toNat) s₀).2 s' := by
  simp only [kill] at returns
  split at returns
  · obtain ⟨rfl, rfl⟩ := Prod.mk.inj (Option.some.inj returns)
    exact Or.inl ⟨rfl, frame_disable.trans (frame_restore _)⟩
  · next good =>
    rw [not_or] at good
    split at returns
    · cases returns
    · obtain ⟨rfl, rfl⟩ := Prod.mk.inj (Option.some.inj returns)
      refine Or.inr ⟨rfl, good.1, { (disable s).2 with prcount := (disable s).2.prcount - 1 }, ?_, rfl, ?_⟩
      · exact .of_proctab ⟨rfl, rfl, rfl, rfl, id⟩ rfl
      · have released := frame_killRelease
          (s := { (disable s).2 with prcount := (disable s).2.prcount - 1 }) p
        exact (released.trans (frame_killState p)).trans (frame_restore _)

theorem steady_kill (p : Int) {result : Int} {s' : Kernel}
    (returns : kill p s = some (result, s')) : Steady s s' := by
  obtain ⟨-, frame⟩ | ⟨-, -, s₀, frame, -, frame'⟩ := kill_cases p returns
  · exact frame.toSteady
  · exact (frame.toSteady.trans (steady_send _ _)).trans frame'.toSteady

/-! ## Steps -/

/-- Calls that are not about messages leave the mailboxes alone. -/
theorem frame_execCall {call : Call} {ret : Ret} {s' : Kernel} {pc : Pc} (shallow : Shallow s.defer.ndefers)
    (other : call.messaging = false) (returns : execCall call s = some (ret, s', pc)) : Frame s s' := by
  cases call with
  | create | kill | receive | recvtime | recvclr | send => cases other
  | resume => obtain ⟨-, rfl, -⟩ := returns; exact frame_resume _
  | suspend => obtain ⟨-, rfl, -⟩ := returns; exact frame_suspend _
  | wait => obtain ⟨-, rfl, -⟩ := returns; exact frame_wait _
  | signal => obtain ⟨-, rfl, -⟩ := returns; exact frame_signal _
  | signaln => obtain ⟨-, rfl, -⟩ := returns; exact frame_signaln _ _ shallow
  | semcreate => obtain ⟨-, rfl, -⟩ := returns; exact frame_semcreate _
  | semreset => obtain ⟨-, rfl, -⟩ := returns; exact frame_semreset _ _ shallow
  | semdelete => obtain ⟨-, rfl, -⟩ := returns; exact frame_semdelete _ shallow
  | semcount => obtain ⟨-, rfl, -⟩ := returns; exact frame_semcount _
  | sleepms => obtain ⟨-, rfl, -⟩ := returns; exact frame_sleepms _
  | yield => obtain ⟨-, rfl, -⟩ := returns; exact frame_yield
  | chprio => obtain ⟨-, rfl, -⟩ := returns; exact frame_chprio _ _

theorem steady_execCall {call : Call} {ret : Ret} {s' : Kernel} {pc : Pc}
    (shallow : Shallow s.defer.ndefers) (returns : execCall call s = some (ret, s', pc)) :
    Steady s s' := by
  cases messaging : call.messaging with
  | false => exact (frame_execCall shallow messaging returns).toSteady
  | true =>
    cases call with
    | kill p =>
      simp only [execCall, Option.bind_eq_some_iff, Option.some.injEq, Prod.mk.injEq] at returns
      obtain ⟨result, killed, -, rfl, -⟩ := returns
      exact steady_kill p killed
    | receive =>
      simp only [execCall] at returns
      split at returns <;> obtain ⟨-, rfl, -⟩ := returns
      · exact steady_receiveBlock
      · exact steady_receiveTake
    | create => obtain ⟨-, rfl, -⟩ := returns; exact steady_create _ _ _ _ _
    | recvtime => obtain ⟨-, rfl, -⟩ := returns; exact steady_recvtime _
    | recvclr => obtain ⟨-, rfl, -⟩ := returns; exact steady_recvclr
    | send => obtain ⟨-, rfl, -⟩ := returns; exact steady_send _ _
    | _ => cases messaging

/-- What a call does that is made. -/
theorem System.call_cases {call : Call} {s s' : System} {ret : Ret} (h : s.step (.call call) = some (ret, s')) :
    running s.kernel.toSched ∧ s.pc s.kernel.currpid = .user ∧ (s.kernel.currpid = NULLPROC → call.blocking = false) ∧
      ∃ pc, execCall call s.kernel = some (ret, s'.kernel, pc) ∧
        s'.pc = resumePoints call ret s.kernel.currpid pc s.pc := by
  simp only [System.step] at h
  split at h
  · next guard =>
    simp only [Option.map_eq_some_iff, Prod.exists, Prod.mk.injEq] at h
    obtain ⟨ret', kernel, pc, returns, rfl, rfl⟩ := h
    exact ⟨guard.1, guard.2.1, guard.2.2, pc, returns, rfl⟩
  · cases h

/-- A `receive` that goes on takes the message. -/
theorem System.goOn_cases {s s' : System} {ret : Ret} (h : s.step .goOn = some (ret, s')) :
    running s.kernel.toSched ∧ s.pc s.kernel.currpid = .receive ∧ ret = .msg (receiveTake s.kernel).1 ∧
      s'.kernel = (receiveTake s.kernel).2 ∧ s'.pc = Function.update s.pc s.kernel.currpid .user := by
  simp only [System.step] at h
  split at h
  · next guard =>
    obtain ⟨rfl, rfl⟩ := Prod.mk.inj (Option.some.inj h)
    exact ⟨guard.1, guard.2, rfl, rfl, rfl⟩
  · cases h

/-- What a step with each kind of label does to the kernel and returns. -/
theorem System.step_cases {label : Label} {s s' : System} {ret : Ret}
    (h : s.step label = some (ret, s')) :
    (∃ call pc, label = .call call ∧ running s.kernel.toSched ∧ s.pc s.kernel.currpid = .user ∧
      (s.kernel.currpid = NULLPROC → call.blocking = false) ∧
      execCall call s.kernel = some (ret, s'.kernel, pc) ∧
      s'.pc = resumePoints call ret s.kernel.currpid pc s.pc) ∨
    (label = .goOn ∧ running s.kernel.toSched ∧ s.pc s.kernel.currpid = .receive ∧
      ret = .msg (receiveTake s.kernel).1 ∧ s'.kernel = (receiveTake s.kernel).2 ∧
      s'.pc = Function.update s.pc s.kernel.currpid .user) ∨
    (∃ rx, label = .tick rx ∧ ret = .nothing ∧ s'.kernel = tim2Handler rx s.kernel ∧ s'.pc = s.pc) ∨
    (∃ psp, label = .switch psp ∧ s.kernel.pendsv = true ∧ ret = .nothing ∧
      s'.kernel = pendSVHandler psp s.kernel ∧ s'.pc = s.pc) := by
  cases label with
  | call call =>
    obtain ⟨runs, user, notNull, pc, returns, points⟩ := System.call_cases h
    exact Or.inl ⟨call, pc, rfl, runs, user, notNull, returns, points⟩
  | goOn => exact Or.inr (Or.inl ⟨rfl, System.goOn_cases h⟩)
  | tick rx =>
    obtain ⟨rfl, rfl⟩ := Prod.mk.inj (Option.some.inj h)
    exact Or.inr (Or.inr (Or.inl ⟨rx, rfl, rfl, rfl, rfl⟩))
  | switch psp =>
    simp only [System.step] at h
    split at h
    · next pending =>
      obtain ⟨rfl, rfl⟩ := Prod.mk.inj (Option.some.inj h)
      exact Or.inr (Or.inr (Or.inr ⟨psp, rfl, pending, rfl, rfl, rfl⟩))
    · cases h

/-- One step of the system, whatever it returns. -/
def System.Step (label : Label) (s s' : System) : Prop := ∃ ret, s.step label = some (ret, s')

/-- What a step with each kind of label does to the kernel. -/
theorem System.Step.cases {label : Label} {s s' : System} (h : System.Step label s s') :
    (∃ call ret pc, label = .call call ∧ running s.kernel.toSched ∧ s.pc s.kernel.currpid = .user ∧
      (s.kernel.currpid = NULLPROC → call.blocking = false) ∧
      execCall call s.kernel = some (ret, s'.kernel, pc) ∧
      s'.pc = resumePoints call ret s.kernel.currpid pc s.pc) ∨
    (label = .goOn ∧ running s.kernel.toSched ∧ s.pc s.kernel.currpid = .receive ∧
      s'.kernel = (receiveTake s.kernel).2 ∧ s'.pc = Function.update s.pc s.kernel.currpid .user) ∨
    (∃ rx, label = .tick rx ∧ s'.kernel = tim2Handler rx s.kernel ∧ s'.pc = s.pc) ∨
    (∃ psp, label = .switch psp ∧ s.kernel.pendsv = true ∧ s'.kernel = pendSVHandler psp s.kernel ∧
      s'.pc = s.pc) := by
  obtain ⟨ret, h⟩ := h
  rcases System.step_cases h with ⟨call, pc, call'⟩ | ⟨here, runs, at', -, rest⟩ | ⟨rx, here, -, rest⟩ |
    ⟨psp, here, pending, -, rest⟩
  · exact Or.inl ⟨call, ret, pc, call'⟩
  · exact Or.inr (Or.inl ⟨here, runs, at', rest⟩)
  · exact Or.inr (Or.inr (Or.inl ⟨rx, here, rest⟩))
  · exact Or.inr (Or.inr (Or.inr ⟨psp, here, pending, rest⟩))

/-- A call that is made returns what `execCall` says. -/
theorem System.Step.call {call : Call} {s s' : System} (h : System.Step (.call call) s s') :
    running s.kernel.toSched ∧ (s.kernel.currpid = NULLPROC → call.blocking = false) ∧
      ∃ ret pc, execCall call s.kernel = some (ret, s'.kernel, pc) := by
  obtain ⟨ret, h⟩ := h
  obtain ⟨runs, -, notNull, pc, returns, -⟩ := System.call_cases h
  exact ⟨runs, notNull, ret, pc, returns⟩

theorem System.Step.steady {label : Label} {s s' : System} (h : System.Step label s s')
    (shallow : Shallow s.kernel.defer.ndefers) : Steady s.kernel s'.kernel := by
  rcases h.cases with ⟨call, ret, pc, -, -, -, -, returns, -⟩ | ⟨-, -, -, same, -⟩ | ⟨rx, -, same, -⟩ |
    ⟨psp, -, -, same, -⟩
  · exact steady_execCall shallow returns
  · exact same ▸ steady_receiveTake
  · exact same ▸ (frame_tim2Handler rx shallow).toSteady
  · exact same ▸ (frame_pendSVHandler psp).toSteady

end XinuStm32
