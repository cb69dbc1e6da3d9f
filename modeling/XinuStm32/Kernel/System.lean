import XinuStm32.Kernel.Process
import XinuStm32.Kernel.Console

/-!
# The running system

`boot` is `nulluser` of `initialize.c` up to the point where the null process starts to run. From
there the system steps: the running process calls the kernel, a process that was switched out
inside `receive` goes on with it, the timer interrupts, or the pending context switch is taken.
-/

namespace XinuStm32

/-! ## Kernel calls -/

/-- A call of a kernel operation with its arguments. -/
inductive Call where
  | create (procaddr ssize : UInt32) (priority : Int16) (name : List UInt8) (args : List UInt32)
  | resume (pid : Int)
  | suspend (pid : Int)
  | kill (pid : Int)
  | wait (sem : Int)
  | signal (sem : Int)
  | signaln (sem : Int) (count : Int32)
  | semcreate (count : Int32)
  | semreset (sem : Int) (count : Int32)
  | semdelete (sem : Int)
  | semcount (sem : Int)
  | sleepms (delay : Int32)
  | yield
  | receive
  | recvtime (maxwait : Int32)
  | recvclr
  | send (pid : Int) (msg : UInt32)
  | chprio (pid : Int) (newprio : Int16)
  deriving DecidableEq

/-- What a step returns to the process that made it. -/
inductive Ret where
  | value (v : Int)
  | msg (m : UInt32)
  | nothing
  deriving DecidableEq

/-- Where a process that is not running goes on: after its last call, or inside `receive`, behind
the switch it asked for. -/
inductive Pc where
  | user
  | receive
  deriving DecidableEq

/-- Run a call from entry to the point where the caller goes on or is switched out; the third
component says where the caller goes on. `none` is a call that never returns. -/
def execCall (call : Call) (s : Kernel) : Option (Ret × Kernel × Pc) :=
  let value (r : Int × Kernel) : Option (Ret × Kernel × Pc) := some (.value r.1, r.2, .user)
  let message (r : UInt32 × Kernel) : Option (Ret × Kernel × Pc) := some (.msg r.1, r.2, .user)
  match call with
  | .create procaddr ssize priority name args => value (create procaddr ssize priority name args s)
  | .resume pid => value (resume pid s)
  | .suspend pid => value (suspend pid s)
  | .kill pid => (kill pid s).bind value
  | .wait sem => value (wait sem s)
  | .signal sem => value (signal sem s)
  | .signaln sem count => value (signaln sem count s)
  | .semcreate count => value (semcreate count s)
  | .semreset sem count => value (semreset sem count s)
  | .semdelete sem => value (semdelete sem s)
  | .semcount sem => value (semcount sem s)
  | .sleepms delay => value (sleepms delay s)
  | .yield => value (yield s)
  | .receive =>
    if (s.proctab s.currpid).prhasmsg = false then some (.nothing, receiveBlock s, .receive)
    else message (receiveTake s)
  | .recvtime maxwait => message (recvtime maxwait s)
  | .recvclr => message (recvclr s)
  | .send pid msg => value (send pid msg s)
  | .chprio pid newprio => value (chprio pid newprio s)

/-- The calls that can take the processor from the caller until another event. The null process
makes none of them: `nullprocess` calls `create` and `resume` and then loops. -/
def Call.blocking : Call → Bool
  | .wait _ | .sleepms _ | .receive | .recvtime _ => true
  | _ => false

/-- The calls that touch a mailbox. -/
def Call.messaging : Call → Bool
  | .create .. | .kill _ | .receive | .recvtime _ | .recvclr | .send .. => true
  | _ => false

/-! ## Steps -/

/-- The kernel and, for each process, where it goes on when it runs again. -/
structure System where
  kernel : Kernel
  pc : Int → Pc

inductive Label where
  | call (call : Call)
  | goOn
  | tick (rx : Option UInt8)
  | switch (psp : Nat)
  deriving DecidableEq

/-- The process the processor executes has not given it up. -/
def running {T : Type} (s : Sched T) : Prop := (s.proctab s.currpid).prstate = .curr

instance {T : Type} (s : Sched T) : Decidable (running s) := inferInstanceAs (Decidable (_ = _))

/-- Where each process goes on after a call: the caller at `pc`, a process just created at its
start. -/
def resumePoints (call : Call) (ret : Ret) (caller : Int) (pc : Pc) (points : Int → Pc) : Int → Pc :=
  let points := Function.update points caller pc
  match call, ret with
  | .create .., .value pid => Function.update points pid .user
  | _, _ => points

namespace System

def step (label : Label) (s : System) : Option (Ret × System) :=
  match label with
  | .call call =>
    let caller := s.kernel.currpid
    if running s.kernel.toSched ∧ s.pc caller = .user ∧
        (caller = NULLPROC → call.blocking = false) then
      (execCall call s.kernel).map fun (ret, kernel, pc) =>
        (ret, ⟨kernel, resumePoints call ret caller pc s.pc⟩)
    else none
  | .goOn =>
    let caller := s.kernel.currpid
    if running s.kernel.toSched ∧ s.pc caller = .receive then
      let (msg, kernel) := receiveTake s.kernel
      some (.msg msg, ⟨kernel, Function.update s.pc caller .user⟩)
    else none
  | .tick rx => some (.nothing, { s with kernel := tim2Handler rx s.kernel })
  | .switch psp =>
    if s.kernel.pendsv then some (.nothing, { s with kernel := pendSVHandler psp s.kernel })
    else none

end System

/-! ## Start-up -/

/-- Every variable zero, as the start-up code leaves `.bss`, and the processor unmasked. -/
def zeroed (image : Image) (counting : Int → Int) (ram : Nat → UInt8) : Kernel where
  proctab := fun _ => ⟨.free, 0, 0, 0, 0, fun _ => 0, 0, 0, 0, false, fun _ => 0, false, 0⟩
  prcount := 0
  currpid := 0
  semtab := fun _ => ⟨.free, 0, 0⟩
  queuetab := ⟨fun _ => ⟨0, 0, 0⟩⟩
  readylist := 0
  sleepq := 0
  defer := ⟨0, false⟩
  counting := counting
  pendsv := false
  nextpid := 0
  nextsem := 0
  nextqid := NPROC
  preempt := 0
  readyPreemptive := false
  count1000 := 0
  clktime := 0
  mem := Mem.meminit image.endAddr ram
  tty := ⟨0, 0, fun _ => 0, 0, 0, 0, false, false, false, false, false, false, 0, 0, false, 0, false,
    0, 0, false, 0⟩
  output := []
  userret := image.userret
  cpu := ⟨0, false, []⟩

/-- The semaphore loop of `sysinit`. -/
def initSemaphores : Nat → Int → Kernel → Kernel
  | 0, _, s => s
  | fuel + 1, i, s =>
    let (q, s) := newqueue s
    initSemaphores fuel (i + 1) (s.setSem i ⟨.free, 0, q⟩)

/-- `sysinit`. The process table is zero already; of the devices only the console touches kernel
tables. -/
def sysinit (s : Kernel) : Kernel :=
  let s := { s with prcount := 0, defer := { s.defer with ndefers := 0 } }
  let s := initSemaphores NSEM.toNat 0 s
  let (q, s) := newqueue s
  let s := { s with readylist := q }
  let (mask, s) := disable s
  restore mask (ttyinit s)

/-- "Null process". -/
def nullName : List UInt8 := [78, 117, 108, 108, 32, 112, 114, 111, 99, 101, 115, 115]

/-- `nulluser`: set up the tables, create the null process and make it current, start the clock. -/
def nulluser (nullprocess : UInt32) (s : Kernel) : Kernel :=
  let s := sysinit s
  let (pid, s) := create nullprocess 1024 10 nullName [] s
  let s := s.setState pid .curr
  let s := clkinit s
  { s with readyPreemptive := true }

/-- An image that leaves room for the stack of the null process. -/
structure BootImage extends Image where
  nullprocess : UInt32
  room : endAddr + 1024 ≤ MAXADDR - HANDLERSTACK

/-- The state in which the null process starts to run. -/
def boot (image : BootImage) (counting : Int → Int) (ram : Nat → UInt8) : System :=
  ⟨nulluser image.nullprocess (zeroed image.toImage counting ram), fun _ => .user⟩

end XinuStm32
