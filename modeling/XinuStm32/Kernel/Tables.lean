import Mathlib

/-!
# Kernel data

The constants of `conf.h`, `kernel.h`, `process.h`, `queue.h`, `semaphore.h` and `memory.h`, the
entries of the kernel tables, and the kernel state: every global variable that the operations of
`system/` read or write.

Tables are functions from the index; an operation only ever uses the indices the C array has.
The scheduler's variables take the representation of the queue table as a parameter: the kernel has
the linked table of `queue.c` there, an abstract view of it has plain lists.
-/

namespace XinuStm32

/-! ## Constants -/

@[simp] abbrev NPROC : Int := 12
@[simp] abbrev NSEM : Int := 12
@[simp] abbrev NQENT : Int := NPROC + 4 + NSEM + NSEM
@[simp] abbrev NDEVS : Int := 5
@[simp] abbrev PNMLEN : Nat := 20
@[simp] abbrev NULLPROC : Int := 0
@[simp] abbrev CONSOLE : Int := 0

@[simp] abbrev OK : Int := 1
@[simp] abbrev SYSERR : Int := -1
@[simp] abbrev EMPTY : Int := -1
@[simp] abbrev MAXKEY : Int := 0x7FFFFFFF
@[simp] abbrev MINKEY : Int := -0x80000000
@[simp] abbrev QUANTUM : Nat := 10

@[simp] abbrev MINSTK : Nat := 400
@[simp] abbrev MAXADDR : Nat := 0x2001f400
@[simp] abbrev HANDLERSTACK : Nat := 1024

/-- `SYSERR` returned through an unsigned 32-bit type. -/
@[simp] abbrev SYSERR32 : Nat := 0xFFFFFFFF

/-- `(umsg32) TIMEOUT`. -/
def TIMEOUT : UInt32 := 0xFFFFFFFD

/-! ## Machine arithmetic -/

/-- The value an `int32` variable holds after an integer is stored in it. -/
def int32 (value : Int) : Int := value.bmod (2 ^ 32)

/-- `++` on an `int32`. -/
def increment32 (value : Int) : Int := if value = 2147483647 then -2147483648 else value + 1

/-- Unsigned 32-bit addition. -/
def add32 (left right : Nat) : Nat := (left + right) % 2 ^ 32

/-- Unsigned 32-bit subtraction. -/
def sub32 (left right : Nat) : Nat := (left + (2 ^ 32 - right % 2 ^ 32)) % 2 ^ 32

theorem int32_of_range {value : Int} (low : -2147483648 ≤ value) (high : value < 2147483648) :
    int32 value = value := by
  simp only [int32, Int.bmod]
  omega

theorem add32_of_lt {left right : Nat} (fits : left + right < 4294967296) :
    add32 left right = left + right := Nat.mod_eq_of_lt fits

theorem sub32_of_le {left right : Nat} (ordered : right ≤ left) (fits : left < 4294967296) :
    sub32 left right = left - right := by
  simp only [sub32]
  omega

/-! ## Table entries -/

/-- Process states, `PR_FREE` to `PR_RECTIM`. -/
inductive PrState where
  | free | curr | ready | recv | sleep | susp | wait | rectim
  deriving DecidableEq, Repr

/-- `struct procent`. -/
structure Procent where
  prstate : PrState
  prprio : Int16
  prstkptr : Nat
  prstkbase : Nat
  prstklen : Nat
  prname : Nat → UInt8
  prsem : Int
  prparent : Int
  prmsg : UInt32
  prhasmsg : Bool
  prdesc : Nat → Int
  elf : Bool
  img : Nat

inductive SState where
  | free | used
  deriving DecidableEq, Repr

/-- `struct sentry`. -/
structure Sentry where
  sstate : SState
  scount : Int
  squeue : Int

/-- `struct defer`. -/
structure Defer where
  ndefers : Int
  attempt : Bool

/-- `struct qentry`. -/
structure Qentry where
  qkey : Int
  qnext : Int
  qprev : Int
  deriving DecidableEq, Repr

/-- `queuetab`. -/
structure QTab where
  entry : Int → Qentry

/-- The shared kernel tables, for the record of who wrote what under which mask. -/
inductive Table where
  | proctab | queuetab | semtab | memlist
  deriving DecidableEq, Repr

/-- What a path through the kernel does that interrupt masking is about. -/
inductive Access where
  | disable
  | restore
  | enable
  | update (table : Table) (masked : Bool)
  deriving DecidableEq, Repr

/-- The two that execute `cpsie i`. -/
def Access.unmasks : Access → Bool
  | .restore | .enable => true
  | .disable | .update _ _ => false

/-- The processor: the flags word read as `psr`, PRIMASK, and the record of accesses, newest
first. -/
structure Cpu where
  psr : UInt32
  primask : Bool
  accesses : List Access

/-- Memory as bytes, with the list header `memlist` and the heap bounds of `meminit.c`. -/
structure Mem where
  ram : Nat → UInt8
  mnext : Nat
  mlength : Nat
  minheap : Nat
  maxheap : Nat

/-- `struct ttycblk`, the fields the line discipline uses. Buffer pointers are offsets from the
start of their buffer. -/
structure Ttycblk where
  tyihead : Int
  tyitail : Int
  tyibuff : Int → UInt8
  tyisem : Int
  tyosem : Int
  tyimode : UInt8
  tyiecho : Bool
  tyieback : Bool
  tyevis : Bool
  tyecrlf : Bool
  tyicrlf : Bool
  tyierase : Bool
  tyierasec : UInt8
  tyierasec2 : UInt8
  tyeof : Bool
  tyeofch : UInt8
  tyikill : Bool
  tyikillc : UInt8
  tyicursor : Int
  tyoheld : Bool
  tyifullc : UInt8

/-! ## Kernel state -/

/-- The tables and variables that decide which process runs. -/
structure Sched (T : Type) where
  proctab : Int → Procent
  prcount : Int
  currpid : Int
  semtab : Int → Sentry
  queuetab : T
  readylist : Int
  sleepq : Int
  defer : Defer
  /-- How `scount` arithmetic is read: `int32` is the machine's, `id` the mathematical integer. -/
  counting : Int → Int
  /-- `PENDSVSET` of the interrupt control register. -/
  pendsv : Bool

/-- All kernel variables: the scheduler's, the search positions that `newpid`, `newsem` and
`newqueue` keep in static variables, the clock's, memory, the console line and the processor. -/
structure Kernel extends Sched QTab where
  nextpid : Int
  nextsem : Int
  nextqid : Int
  preempt : Nat
  readyPreemptive : Bool
  count1000 : Nat
  clktime : Nat
  mem : Mem
  tty : Ttycblk
  /-- Bytes handed to the USB console, oldest first. -/
  output : List UInt8
  userret : Nat
  cpu : Cpu

namespace Kernel

/-- Record a store to a kernel table together with the mask it happens under. -/
def touch (table : Table) (s : Kernel) : Kernel :=
  { s with cpu := { s.cpu with accesses := .update table s.cpu.primask :: s.cpu.accesses } }

def setProc (pid : Int) (entry : Procent) (s : Kernel) : Kernel :=
  { s.touch .proctab with proctab := Function.update s.proctab pid entry }

def setSem (sem : Int) (entry : Sentry) (s : Kernel) : Kernel :=
  { s.touch .semtab with semtab := Function.update s.semtab sem entry }

def setQueue (queues : QTab) (s : Kernel) : Kernel :=
  { s.touch .queuetab with queuetab := queues }

def setMem (memory : Mem) (s : Kernel) : Kernel :=
  { s.touch .memlist with mem := memory }

def setState (pid : Int) (state : PrState) (s : Kernel) : Kernel :=
  s.setProc pid { s.proctab pid with prstate := state }

end Kernel

/-! ## Interrupt masking, `intr.S` -/

/-- Return the program status word, then mask interrupts. -/
def disable (s : Kernel) : UInt32 × Kernel :=
  (s.cpu.psr, { s with cpu := { s.cpu with primask := true, accesses := .disable :: s.cpu.accesses } })

/-- Write the flags of the saved word back, then `cpsie i`. -/
def restore (mask : UInt32) (s : Kernel) : Kernel :=
  { s with cpu := { psr := mask, primask := false, accesses := .restore :: s.cpu.accesses } }

/-- `enable`, which is `cpsie i`. -/
def enable (s : Kernel) : Kernel :=
  { s with cpu := { s.cpu with primask := false, accesses := .enable :: s.cpu.accesses } }

/-- `PEND_SV()`: set the pending bit of the context-switch exception. -/
def pendSV (s : Kernel) : Kernel := { s with pendsv := true }

end XinuStm32
