import XinuStm32.Kernel.Semaphore
import XinuStm32.Abstract.Queues
import XinuStm32.Lib.Transition

/-!
# The abstract scheduler

A `View` is the scheduler's state with the queues as lists. Every kernel operation moves it in the
few ways that `Step` lists: a process enters the ready list, is taken from the front of it to run,
blocks on a semaphore, is released, goes to sleep, is woken, leaves, and so on. What is true after
every move is true after every operation.
-/

namespace XinuStm32

/-- The scheduler with its queues as lists. -/
abbrev View := Sched Lists

namespace View

def state (a : View) (p : Int) : PrState := (a.proctab p).prstate
def prio (a : View) (p : Int) : Int := (a.proctab p).prprio.toInt
def members (a : View) (q : Int) : List Int := a.queuetab.elems q

/-! ## Edits -/

@[simps] def setProc (p : Int) (entry : Procent) (a : View) : View :=
  { a with proctab := Function.update a.proctab p entry }

def setState (p : Int) (state : PrState) (a : View) : View :=
  a.setProc p { a.proctab p with prstate := state }

@[simps] def setSem (sem : Int) (entry : Sentry) (a : View) : View :=
  { a with semtab := Function.update a.semtab sem entry }

@[simps] def setLists (lists : Lists) (a : View) : View := { a with queuetab := lists }

@[simps] def pend (a : View) : View := { a with pendsv := true }

def addCount (sem change : Int) (a : View) : View :=
  a.setSem sem { a.semtab sem with scount := a.counting ((a.semtab sem).scount + change) }

/-- Take a process out of a queue. -/
def out (p q : Int) (a : View) : View := a.setLists (a.queuetab.remove p q)

/-- Mark a process ready and put it into the ready list. -/
def enterReady (p : Int) (a : View) : View :=
  let a := a.setState p .ready
  a.setLists (a.queuetab.insertSorted p a.readylist (a.proctab p).prprio.toInt)

/-- `ready`. -/
def makeReady (p : Int) (a : View) : View := (a.enterReady p).pend

/-- Give a process that is in no queue a state in which it stays in none. -/
def settle (p : Int) (state : PrState) (a : View) : View :=
  let a := a.setState p state
  if state = .free then { a with prcount := a.prcount - 1 } else a

/-- A free entry becomes a process. -/
def enroll (p : Int) (entry : Procent) (a : View) : View :=
  { a.setProc p entry with prcount := a.prcount + 1 }

/-- The running process waits for a semaphore. -/
def block (sem : Int) (a : View) : View :=
  let a := a.setProc a.currpid { a.proctab a.currpid with prstate := .wait, prsem := sem }
  (a.setLists (a.queuetab.append a.currpid (a.semtab sem).squeue)).pend

/-- The running process sleeps. -/
def sleep (state : PrState) (delay : Int) (a : View) : View :=
  let a := a.setLists (a.queuetab.insertDelta a.currpid a.sleepq delay)
  (a.setState a.currpid state).pend

/-- The process behind a sleeper takes over its delay. -/
def bump (p : Int) (behind : List Int) (a : View) : View :=
  match behind with
  | [] => a
  | next :: _ =>
    a.setLists (a.queuetab.setKey next (int32 (a.queuetab.key next + a.queuetab.key p)))

/-- The first sleeper is one tick nearer to its wakeup. -/
def countDown (p : Int) (a : View) : View :=
  a.setLists (a.queuetab.setKey p (int32 (a.queuetab.key p - 1)))

/-- The first process of the ready list becomes the running one. -/
def run (p : Int) (a : View) : View :=
  setState p .curr { a.out p a.readylist with currpid := p }

/-- Nothing that scheduling depends on changes, except that a switch may be requested. -/
structure Quiet (a a' : View) : Prop where
  state : ∀ p, (a'.proctab p).prstate = (a.proctab p).prstate
  prio : ∀ p, (a'.proctab p).prprio = (a.proctab p).prprio
  prsem : ∀ p, (a'.proctab p).prsem = (a.proctab p).prsem
  rest : a' = { a with proctab := a'.proctab, pendsv := a'.pendsv }
  pendsv : a.pendsv = true → a'.pendsv = true

end View

/-! ## Moves -/

inductive Move where
  | quiet
  | accept
  | chprio (p : Int) (prio : Int16)
  | spawn (p : Int)
  | ready (p : Int)
  | preempt
  | dispatch (p : Int)
  | release (sem : Int)
  | drain (sem : Int)
  | post (sem : Int)
  | pass (sem : Int)
  | setCount (sem count : Int)
  | close (sem : Int)
  | block (sem : Int)
  | abandon (p : Int)
  | sleep (state : PrState) (delay : Int)
  | tick
  | wake
  | withdraw (p : Int) (state : PrState)
  | leave (p : Int) (state : PrState)
  | take (p : Int) (state : PrState)
  deriving DecidableEq

namespace Move

open View

/-- What each move requires and what it does. -/
inductive Step : Move → View → View → Prop where
  | quiet {a a' : View} : Quiet a a' → Step .quiet a a'
  | accept {a : View} : Step .accept a { a with pendsv := false }
  | chprio {a : View} {p : Int} {prio : Int16} :
      IsPid p → Step (.chprio p prio) a (a.setProc p { a.proctab p with prprio := prio })
  | spawn {a : View} {p : Int} {entry : Procent} :
      IsPid p → a.state p = .free → entry.prstate = .susp →
      Step (.spawn p) a (a.enroll p entry)
  | ready {a : View} {p : Int} :
      IsPid p → a.state p = .susp ∨ a.state p = .recv → Step (.ready p) a (a.makeReady p)
  | preempt {a : View} : a.state a.currpid = .curr → Step .preempt a (a.enterReady a.currpid)
  | dispatch {a : View} {p : Int} {rest : List Int} :
      a.state a.currpid ≠ .curr → a.members a.readylist = p :: rest → Step (.dispatch p) a (a.run p)
  | release {a : View} {sem p : Int} {rest : List Int} :
      ¬ isbadsem sem → (a.semtab sem).scount < 0 → a.members (a.semtab sem).squeue = p :: rest →
      Step (.release sem) a (((a.addCount sem 1).out p (a.semtab sem).squeue).makeReady p)
  | drain {a : View} {sem p : Int} {rest : List Int} :
      ¬ isbadsem sem → a.members (a.semtab sem).squeue = p :: rest →
      Step (.drain sem) a ((a.out p (a.semtab sem).squeue).makeReady p)
  | post {a : View} {sem : Int} :
      ¬ isbadsem sem → 0 ≤ (a.semtab sem).scount ∨ a.members (a.semtab sem).squeue = [] →
      Step (.post sem) a (a.addCount sem 1)
  | pass {a : View} {sem : Int} :
      ¬ isbadsem sem → 0 ≤ a.counting ((a.semtab sem).scount + -1) →
      Step (.pass sem) a (a.addCount sem (-1))
  | setCount {a : View} {sem count : Int} :
      ¬ isbadsem sem → 0 ≤ count →
      (a.semtab sem).sstate = .free ∨ a.members (a.semtab sem).squeue = [] →
      Step (.setCount sem count) a
        (a.setSem sem { a.semtab sem with sstate := .used, scount := count })
  | close {a : View} {sem : Int} :
      ¬ isbadsem sem → (a.semtab sem).sstate = .used →
      Step (.close sem) a (a.setSem sem { a.semtab sem with sstate := .free })
  | block {a : View} {sem : Int} :
      ¬ isbadsem sem → (a.semtab sem).sstate = .used → a.state a.currpid = .curr →
      a.currpid ≠ NULLPROC → a.counting ((a.semtab sem).scount + -1) < 0 →
      Step (.block sem) a ((a.addCount sem (-1)).block sem)
  | abandon {a : View} {p : Int} :
      IsPid p → a.state p = .wait →
      Step (.abandon p) a
        (((a.addCount (a.proctab p).prsem 1).out p (a.semtab (a.proctab p).prsem).squeue).settle
          p .free)
  | sleep {a : View} {state : PrState} {delay : Int} :
      state = .sleep ∧ 1 ≤ delay ∨ state = .rectim ∧ 0 ≤ delay → a.state a.currpid = .curr →
      a.currpid ≠ NULLPROC → Step (.sleep state delay) a (a.sleep state delay)
  | tick {a : View} {p : Int} {rest : List Int} :
      a.members a.sleepq = p :: rest → Step .tick a (a.countDown p)
  | wake {a : View} {p : Int} {rest : List Int} :
      a.members a.sleepq = p :: rest → a.queuetab.key p ≤ 0 →
      Step .wake a ((a.out p a.sleepq).makeReady p)
  | withdrawReady {a : View} {p : Int} {front behind : List Int} :
      a.state p = .rectim → a.members a.sleepq = front ++ p :: behind →
      Step (.withdraw p .ready) a (((a.bump p behind).out p a.sleepq).makeReady p)
  | withdrawFree {a : View} {p : Int} {front behind : List Int} :
      a.members a.sleepq = front ++ p :: behind →
      Step (.withdraw p .free) a (((a.bump p behind).out p a.sleepq).settle p .free)
  | leaveCurr {a : View} {state : PrState} :
      a.state a.currpid = .curr → a.currpid ≠ NULLPROC →
      state = .recv ∨ state = .susp ∨ state = .free →
      Step (.leave a.currpid state) a ((a.settle a.currpid state).pend)
  | leaveIdle {a : View} {p : Int} :
      IsPid p → a.state p = .susp ∨ a.state p = .recv →
      Step (.leave p .free) a (a.settle p .free)
  | take {a : View} {p : Int} {state : PrState} :
      p ≠ NULLPROC → p ∈ a.members a.readylist → state = .susp ∨ state = .free →
      Step (.take p state) a ((a.out p a.readylist).settle p state)

end Move

/-- A run of moves. -/
abbrev Moves : List Move → View → View → Prop := Transition.Run Move.Step

end XinuStm32
