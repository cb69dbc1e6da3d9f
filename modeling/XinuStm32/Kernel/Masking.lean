import XinuStm32.Kernel.System

/-!
# Masking on paths through the kernel

`Inside` is a piece of a path that neither masks nor unmasks, so every table it updates it updates under the
mask it started with. A path that masks once, stays inside and unmasks at its end is a `Section`. A path that is
only known to go on is `Onward`.
-/

namespace XinuStm32

/-- Nothing happens to the processor but updates of tables. -/
def Inside (s s' : Kernel) : Prop :=
  ∃ tables : List Table,
    s'.cpu = { s.cpu with accesses := tables.map (Access.update · s.cpu.primask) ++ s.cpu.accesses }

/-- A section of a path: interrupts are masked at its start and unmasked at its end only. -/
def Section (s s' : Kernel) : Prop := ∃ mask inner, Inside (disable s).2 inner ∧ s' = restore mask inner

/-- The record of accesses goes on. -/
def Onward (s s' : Kernel) : Prop := ∃ trace, s'.cpu.accesses = trace ++ s.cpu.accesses

/-- The record goes on, and interrupts are unmasked on the way. -/
def Unmasks (s s' : Kernel) : Prop :=
  ∃ trace, s'.cpu.accesses = trace ++ s.cpu.accesses ∧ ∃ access ∈ trace, access.unmasks

variable {s s' s'' : Kernel}

theorem Inside.of_cpu (same : s'.cpu = s.cpu) : Inside s s' := ⟨[], by simp [same]⟩

theorem Inside.refl (s : Kernel) : Inside s s := .of_cpu rfl

theorem Inside.trans (first : Inside s s') (second : Inside s' s'') : Inside s s'' := by
  obtain ⟨tables, cpu⟩ := first
  obtain ⟨tables', cpu'⟩ := second
  exact ⟨tables' ++ tables, by rw [cpu', cpu]; simp⟩

theorem Onward.refl (s : Kernel) : Onward s s := ⟨[], rfl⟩

theorem Onward.trans (first : Onward s s') (second : Onward s' s'') : Onward s s'' := by
  obtain ⟨trace, accesses⟩ := first
  obtain ⟨trace', accesses'⟩ := second
  exact ⟨trace' ++ trace, by rw [accesses', accesses, List.append_assoc]⟩

theorem Inside.onward (inside : Inside s s') : Onward s s' := by
  obtain ⟨tables, cpu⟩ := inside
  exact ⟨tables.map (Access.update · s.cpu.primask), by rw [cpu]⟩

theorem Unmasks.onward (unmasks : Unmasks s s') : Onward s s' := by
  obtain ⟨trace, accesses, -⟩ := unmasks
  exact ⟨trace, accesses⟩

theorem Onward.unmasks (before : Onward s s') (unmasks : Unmasks s' s'') : Unmasks s s'' := by
  obtain ⟨trace, accesses⟩ := before
  obtain ⟨trace', accesses', access, member, opens⟩ := unmasks
  exact ⟨trace' ++ trace, by rw [accesses', accesses, List.append_assoc], access, List.mem_append_left _ member, opens⟩

theorem Unmasks.then (unmasks : Unmasks s s') (after : Onward s' s'') : Unmasks s s'' := by
  obtain ⟨trace, accesses, access, member, opens⟩ := unmasks
  obtain ⟨trace', accesses'⟩ := after
  exact ⟨trace' ++ trace, by rw [accesses', accesses, List.append_assoc], access, List.mem_append_right _ member, opens⟩

theorem onward_disable : Onward s (disable s).2 := ⟨[.disable], rfl⟩

theorem unmasks_restore (mask : UInt32) : Unmasks s (restore mask s) :=
  ⟨[.restore], rfl, .restore, List.mem_singleton_self _, rfl⟩

theorem unmasks_enable : Unmasks s (enable s) := ⟨[.enable], rfl, .enable, List.mem_singleton_self _, rfl⟩

theorem Section.unmasks (path : Section s s') : Unmasks s s' := by
  obtain ⟨mask, inner, inside, rfl⟩ := path
  exact (onward_disable.trans inside.onward).unmasks (unmasks_restore mask)

theorem Section.leave (mask : UInt32) (inside : Inside (disable s).2 s') : Section s (restore mask s') :=
  ⟨mask, s', inside, rfl⟩

/-- A path that unmasks as soon as it has masked. -/
theorem Section.refuse (mask : UInt32) : Section s (restore mask (disable s).2) := .leave mask (.refl _)

/-! ## Stores -/

theorem inside_setProc (p : Int) (entry : Procent) : Inside s (s.setProc p entry) := ⟨[.proctab], rfl⟩

theorem inside_setState (p : Int) (state : PrState) : Inside s (s.setState p state) := inside_setProc p _

theorem inside_setSem (sem : Int) (entry : Sentry) : Inside s (s.setSem sem entry) := ⟨[.semtab], rfl⟩

theorem inside_addCount (sem change : Int) : Inside s (s.addCount sem change) := inside_setSem sem _

theorem inside_setQueue (queues : QTab) : Inside s (s.setQueue queues) := ⟨[.queuetab], rfl⟩

theorem inside_setMem (memory : Mem) : Inside s (s.setMem memory) := ⟨[.memlist], rfl⟩

theorem inside_pendSV : Inside s (pendSV s) := .of_cpu rfl

/-! ## Queues -/

theorem inside_enqueue (p q : Int) : Inside s (enqueue p q s).2 := by
  simp only [enqueue]
  split
  · exact .refl s
  · exact inside_setQueue _

theorem inside_getitem (p : Int) : Inside s (getitem p s).2 := inside_setQueue _

theorem inside_getfirst (q : Int) : Inside s (getfirst q s).2 := by
  simp only [getfirst]
  split
  · exact .refl s
  · exact inside_getitem _

theorem inside_dequeue (q : Int) : Inside s (dequeue q s).2 := by
  simp only [dequeue]
  split
  · exact .refl s
  · split
    · exact .refl s
    · exact (inside_getfirst q).trans (inside_setQueue _)

theorem inside_insert (p q key : Int) : Inside s (insert p q key s).2 := by
  simp only [insert]
  split
  · exact .refl s
  · exact inside_setQueue _

theorem inside_insertd (p q key : Int) : Inside s (insertd p q key s).2 := by
  simp only [insertd]
  split
  · exact .refl s
  · exact inside_setQueue _

theorem inside_ready (p : Int) : Inside s (ready p s).2 := by
  simp only [ready]
  split
  · exact .refl s
  · exact ((inside_setState p _).trans (inside_insert _ _ _)).trans inside_pendSV

theorem inside_reschedCntl (request : Deferral) : Inside s (reschedCntl request s).2 := by
  cases request with
  | start => exact .of_cpu rfl
  | stop =>
    simp only [reschedCntl]
    split
    · exact .refl s
    · split <;> exact .of_cpu rfl

/-! ## Operations that do not open a section of their own -/

theorem inside_resume (p : Int) : Inside s (resume p s).2 := by
  simp only [resume]
  split
  · exact .refl s
  · split
    · exact .refl s
    · exact inside_ready p

theorem inside_receiveBlock : Inside s (receiveBlock s) := (inside_setState _ _).trans inside_pendSV

theorem inside_receiveTake : Inside s (receiveTake s).2 := inside_setProc _ _

theorem inside_waitBlock (sem : Int) : Inside s (waitBlock sem s) :=
  ((inside_setProc _ _).trans (inside_enqueue _ _)).trans inside_pendSV

theorem inside_signalOnce (sem : Int) : Inside s (signalOnce sem s) := by
  simp only [signalOnce]
  split
  · exact ((inside_addCount sem 1).trans (inside_dequeue _)).trans (inside_ready _)
  · exact inside_addCount sem 1

theorem inside_signalnLoop (sem : Int) (count : Nat) : Inside s (signalnLoop sem count s) := by
  induction count generalizing s with
  | zero => exact .refl s
  | succ count inductionHypothesis => exact (inside_signalOnce sem).trans inductionHypothesis

theorem inside_semdeleteLoop (sem : Int) (fuel : Nat) : Inside s (semdeleteLoop sem fuel s) := by
  induction fuel generalizing s with
  | zero => exact inside_addCount sem 1
  | succ fuel inductionHypothesis =>
    simp only [semdeleteLoop]
    split
    · exact (((inside_addCount sem 1).trans (inside_getfirst _)).trans (inside_ready _)).trans inductionHypothesis
    · exact inside_addCount sem 1

theorem inside_semresetLoop (q : Int) (fuel : Nat) : Inside s (semresetLoop q fuel s) := by
  induction fuel generalizing s with
  | zero => exact .refl s
  | succ fuel inductionHypothesis =>
    simp only [semresetLoop]
    split
    · exact ((inside_getfirst q).trans (inside_ready _)).trans inductionHypothesis
    · exact inside_getfirst q

theorem inside_newsemLoop (fuel : Nat) : Inside s (newsemLoop fuel s).2 := by
  induction fuel generalizing s with
  | zero => exact .refl s
  | succ fuel inductionHypothesis =>
    simp only [newsemLoop]
    split
    · exact .trans (.of_cpu rfl) (inside_setSem _ _)
    · exact .trans (.of_cpu rfl) inductionHypothesis

theorem inside_newpidLoop (fuel : Nat) : Inside s (newpidLoop fuel s).2 := by
  induction fuel generalizing s with
  | zero => exact .refl s
  | succ fuel inductionHypothesis =>
    simp only [newpidLoop]
    split
    · exact .of_cpu rfl
    · exact .trans (.of_cpu rfl) inductionHypothesis

theorem inside_recvtimeBlock (maxwait : Int32) : Inside s (recvtimeBlock maxwait s).2 := by
  simp only [recvtimeBlock]
  split
  · split
    · exact inside_insertd _ _ _
    · exact ((inside_insertd _ _ _).trans (inside_setState _ _)).trans inside_pendSV
  · exact .refl s

theorem inside_recvtimeCheck : Inside s (recvtimeCheck s).2 := by
  simp only [recvtimeCheck]
  split
  · exact inside_receiveTake
  · exact .refl s

/-! ## Operations that are one section -/

theorem section_yield : Section s (yield s).2 := .leave _ inside_pendSV

theorem section_chprio (p : Int) (newprio : Int16) : Section s (chprio p newprio s).2 := by
  simp only [chprio]
  split
  · exact .refuse _
  · exact .leave _ (inside_setProc _ _)

theorem section_suspend (p : Int) : Section s (suspend p s).2 := by
  simp only [suspend]
  split
  · exact .refuse _
  · split
    · exact .refuse _
    · apply Section.leave
      split
      · exact (inside_getitem p).trans (inside_setState p _)
      · exact (inside_setState p _).trans inside_pendSV

theorem section_unsleep (p : Int) : Section s (unsleep p s).2 := by
  simp only [unsleep]
  split
  · exact .refuse _
  · split
    · exact .refuse _
    · apply Section.leave
      split
      · exact (inside_setQueue _).trans (inside_getitem p)
      · exact inside_getitem p

theorem section_wait (sem : Int) : Section s (wait sem s).2 := by
  simp only [wait]
  split
  · exact .refuse _
  · split
    · exact .refuse _
    · apply Section.leave
      split
      · exact (inside_addCount sem (-1)).trans (inside_waitBlock sem)
      · exact inside_addCount sem (-1)

theorem section_signal (sem : Int) : Section s (signal sem s).2 := by
  simp only [signal]
  split
  · exact .refuse _
  · split
    · exact .refuse _
    · exact .leave _ (inside_signalOnce sem)

theorem section_signaln (sem : Int) (count : Int32) : Section s (signaln sem count s).2 := by
  simp only [signaln]
  split
  · exact .refuse _
  · split
    · exact .refuse _
    · exact .leave _ (((inside_reschedCntl .start).trans (inside_signalnLoop sem _)).trans (inside_reschedCntl .stop))

theorem section_semcreate (count : Int32) : Section s (semcreate count s).2 := by
  simp only [semcreate]
  split
  · exact .refuse _
  · split
    · exact .leave _ (inside_newsemLoop _)
    · exact .leave _ ((inside_newsemLoop _).trans (inside_setSem _ _))

theorem section_semcount (sem : Int) : Section s (semcount sem s).2 := by
  simp only [semcount]
  split <;> exact .refuse _

theorem section_semdelete (sem : Int) : Section s (semdelete sem s).2 := by
  simp only [semdelete]
  split
  · exact .refuse _
  · split
    · exact .refuse _
    · exact .leave _ ((((inside_setSem sem _).trans (inside_reschedCntl .start)).trans
        (inside_semdeleteLoop sem _)).trans (inside_reschedCntl .stop))

theorem section_semreset (sem : Int) (count : Int32) : Section s (semreset sem count s).2 := by
  simp only [semreset]
  split
  · exact .refuse _
  · exact .leave _ ((((inside_reschedCntl .start).trans (inside_semresetLoop _ _)).trans
      (inside_setSem sem _)).trans (inside_reschedCntl .stop))

theorem section_recvclr : Section s (recvclr s).2 := by
  simp only [recvclr]
  split
  · exact .leave _ inside_receiveTake
  · exact .refuse _

theorem section_getprio (p : Int) : Section s (getprio p s).2 := by
  simp only [getprio]
  split <;> exact .refuse _

theorem section_getmem (nbytes : Nat) : Section s (getmem nbytes s).2 := by
  simp only [getmem]
  split
  · exact .refuse _
  · exact .leave _ (inside_setMem _)

theorem section_freemem (blkaddr nbytes : Nat) : Section s (freemem blkaddr nbytes s).2 := by
  simp only [freemem]
  apply Section.leave
  split
  · exact inside_setMem _
  · exact .refl _

theorem section_getstk (nbytes : Nat) : Section s (getstk nbytes s).2 := by
  simp only [getstk]
  split
  · exact .refuse _
  · exact .leave _ (inside_setMem _)

theorem section_close (descrp : Int) : Section s (close descrp s).2 := by
  simp only [close]
  split <;> exact .refuse _

/-! ## Operations with a way around their section -/

theorem section_sleepms (delay : Int32) : Section s (sleepms delay s).2 ∨ Inside s (sleepms delay s).2 := by
  simp only [sleepms]
  split
  · exact Or.inr (.refl s)
  · left
    split
    · exact section_yield
    · split
      · exact .leave _ (inside_insertd _ _ _)
      · exact .leave _ (((inside_insertd _ _ _).trans (inside_setState _ _)).trans inside_pendSV)

theorem section_recvtime (maxwait : Int32) : Section s (recvtime maxwait s).2 ∨ Inside s (recvtime maxwait s).2 := by
  simp only [recvtime]
  split
  · exact Or.inr (.refl s)
  · left
    split
    · exact .leave _ (inside_recvtimeBlock maxwait)
    · exact .leave _ ((inside_recvtimeBlock maxwait).trans inside_recvtimeCheck)

end XinuStm32
