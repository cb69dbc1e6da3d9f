import XinuStm32.Kernel.Queue

/-!
# Scheduling and time, `create.c` and `clkhandler.c`

`ready`, the deferral counter, the context switch `PendSV_Handler`, the calls that move a process
between running, ready, suspended and sleeping, and the wakeup of sleepers.
-/

namespace XinuStm32

def ready (pid : Int) (s : Kernel) : Int × Kernel :=
  if isbadpid pid s.toSched then (SYSERR, s)
  else
    let s := s.setState pid .ready
    let (_, s) := insert pid s.readylist (s.proctab pid).prprio.toInt s
    (OK, pendSV s)

inductive Deferral where
  | start | stop
  deriving DecidableEq, Repr

/-- `resched_cntl`. -/
def reschedCntl (request : Deferral) (s : Kernel) : Int × Kernel :=
  match request with
  | .start =>
    let attempt := if s.defer.ndefers = 0 then false else s.defer.attempt
    (OK, { s with defer := ⟨increment32 s.defer.ndefers, attempt⟩ })
  | .stop =>
    if s.defer.ndefers ≤ 0 then (SYSERR, s)
    else
      let s := { s with defer := { s.defer with ndefers := s.defer.ndefers - 1 } }
      if s.defer.ndefers = 0 ∧ s.defer.attempt then (OK, pendSV s) else (OK, s)

/-- The end of `PendSV_Handler`: the first ready process becomes the current one, and the stack
pointer of the old one is kept in its entry. -/
def switchTo (restorestk : Nat) (s : Kernel) : Kernel :=
  let old := s.currpid
  let (pid, s) := dequeue s.readylist s
  let s := { s with currpid := pid }
  let s := s.setState pid .curr
  let s := { s with preempt := QUANTUM }
  s.setProc old { s.proctab old with prstkptr := restorestk }

/-- The middle of `PendSV_Handler`: the running process keeps the processor only while its priority
is above that of every ready process. -/
def reschedule (restorestk : Nat) (s : Kernel) : Kernel :=
  let old := s.currpid
  if (s.proctab old).prstate = .curr then
    if (s.proctab old).prprio.toInt > firstkey s.readylist s.toSched then s
    else
      let s := s.setState old .ready
      switchTo restorestk (insert old s.readylist (s.proctab old).prprio.toInt s).2
  else switchTo restorestk s

/-- `PendSV_Handler`. Exception entry clears the pending bit; `psp` is the stack pointer of the
interrupted process, below which the handler pushes `r4` to `r11`. -/
def pendSVHandler (psp : Nat) (s : Kernel) : Kernel :=
  let s := { s with pendsv := false }
  let restorestk := sub32 psp 32
  if s.defer.ndefers > 0 then { s with defer := { s.defer with attempt := true } }
  else reschedule restorestk s

def getpid (s : Kernel) : Int := s.currpid

def yield (s : Kernel) : Int × Kernel :=
  let (mask, s) := disable s
  let s := pendSV s
  (OK, restore mask s)

def chprio (pid : Int) (newprio : Int16) (s : Kernel) : Int × Kernel :=
  let (mask, s) := disable s
  if isbadpid pid s.toSched then (SYSERR, restore mask s)
  else
    let oldprio := (s.proctab pid).prprio
    let s := s.setProc pid { s.proctab pid with prprio := newprio }
    (oldprio.toInt, restore mask s)

def getprio (pid : Int) (s : Kernel) : Int × Kernel :=
  let (mask, s) := disable s
  if isbadpid pid s.toSched then (SYSERR, restore mask s) else ((s.proctab pid).prprio.toInt, restore mask s)

def suspend (pid : Int) (s : Kernel) : Int × Kernel :=
  let (mask, s) := disable s
  if isbadpid pid s.toSched ∨ pid = NULLPROC then (SYSERR, restore mask s)
  else if (s.proctab pid).prstate ≠ .curr ∧ (s.proctab pid).prstate ≠ .ready then
    (SYSERR, restore mask s)
  else
    let s :=
      if (s.proctab pid).prstate = .ready then (getitem pid s).2.setState pid .susp
      else pendSV (s.setState pid .susp)
    ((s.proctab pid).prprio.toInt, restore mask s)

/-- `resume`, which runs without masking interrupts. -/
def resume (pid : Int) (s : Kernel) : Int × Kernel :=
  if isbadpid pid s.toSched then (SYSERR, s)
  else if (s.proctab pid).prstate ≠ .susp then (SYSERR, s)
  else
    let prio := (s.proctab pid).prprio
    let (_, s) := ready pid s
    (prio.toInt, s)

/-! ## Sleeping -/

/-- Remove a process from the sleep queue, giving its delay to the process behind it. -/
def unsleep (pid : Int) (s : Kernel) : Int × Kernel :=
  let (mask, s) := disable s
  if isbadpid pid s.toSched then (SYSERR, restore mask s)
  else if (s.proctab pid).prstate ≠ .sleep ∧ (s.proctab pid).prstate ≠ .rectim then
    (SYSERR, restore mask s)
  else
    let pidnext := (s.queuetab.entry pid).qnext
    let s :=
      if pidnext < NPROC then
        s.setQueue (s.queuetab.setKey pidnext
          (int32 ((s.queuetab.entry pidnext).qkey + (s.queuetab.entry pid).qkey)))
      else s
    let (_, s) := getitem pid s
    (OK, restore mask s)

def sleepms (delay : Int32) (s : Kernel) : Int × Kernel :=
  if delay.toInt < 0 then (SYSERR, s)
  else if delay.toInt = 0 then
    let (_, s) := yield s
    (OK, s)
  else
    let (mask, s) := disable s
    let (status, s) := insertd s.currpid s.sleepq delay.toInt s
    if status = SYSERR then (SYSERR, restore mask s)
    else
      let s := s.setState s.currpid .sleep
      let s := pendSV s
      (OK, restore mask s)

/-- The loop of `wakeup`; each round takes a process off the sleep queue. -/
def wakeupLoop : Nat → Kernel → Kernel
  | 0, s => s
  | fuel + 1, s =>
    if ¬ isempty s.sleepq s.toSched ∧ firstkey s.sleepq s.toSched ≤ 0 then
      let (pid, s) := dequeue s.sleepq s
      wakeupLoop fuel (ready pid s).2
    else s

def wakeup (s : Kernel) : Kernel :=
  let (_, s) := reschedCntl .start s
  let s := wakeupLoop NPROC.toNat s
  (reschedCntl .stop s).2

/-- The first part of the clock tick: the millisecond counter and the seconds since boot. -/
def tickSeconds (s : Kernel) : Kernel :=
  let s := { s with count1000 := (s.count1000 + 1) % 2 ^ 32 }
  if s.count1000 ≥ 1000 then { s with clktime := (s.clktime + 1) % 2 ^ 32, count1000 := 0 } else s

/-- The second part: the first sleeper is one tick nearer to its wakeup. -/
def tickSleepers (s : Kernel) : Kernel :=
  if ¬ isempty s.sleepq s.toSched then
    let first := firstid s.sleepq s.toSched
    let s := s.setQueue
      (s.queuetab.setKey first (int32 ((s.queuetab.entry first).qkey - 1)))
    if firstkey s.sleepq s.toSched = 0 then wakeup s else s
  else s

/-- The third part: the time slice of the running process. -/
def tickSlice (s : Kernel) : Kernel :=
  let s := { s with preempt := sub32 s.preempt 1 }
  if s.preempt = 0 then pendSV { s with preempt := QUANTUM } else s

/-- The clock part of `TIM2_Handler`. -/
def clockTick (s : Kernel) : Kernel :=
  let s := tickSeconds s
  if s.readyPreemptive then tickSlice (tickSleepers s) else s

/-- `clkinit`, without the timer registers. -/
def clkinit (s : Kernel) : Kernel :=
  let (q, s) := newqueue s
  { s with sleepq := q, preempt := QUANTUM, clktime := 0, count1000 := 0 }

end XinuStm32
