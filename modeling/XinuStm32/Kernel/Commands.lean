import XinuStm32.Kernel.System

/-!
# The shell and its commands, `shell.c`

A command that is not built in runs as a process of its own: the shell creates it, forgets an old message, resumes it
and, unless the line ends with `&`, receives until the message is the child. `Phase` says how far the shell is; all the
other processes take their steps in between. A context switch that has been asked for is taken before the next call,
since only masked interrupts hold back PendSV.
-/

namespace XinuStm32

/-- The priority of the shell, in `start_process`. -/
def SHELLPRIO : Int16 := 52
def SHELL_CMDSTK : UInt32 := 2048
def SHELL_CMDPRIO : Int16 := 20

/-- "shell". -/
def shellName : List UInt8 := [115, 104, 101, 108, 108]

/-- Where the shell is with a command. -/
inductive Phase where
  | elsewhere
  | created (child : Int) (backgnd : Bool)
  | cleared (child : Int) (backgnd : Bool)
  | waiting (child : Int)
  deriving DecidableEq

namespace Phase

def child : Phase → Option Int
  | .elsewhere => none
  | .created child _ | .cleared child _ | .waiting child => some child

/-- The call that the shell makes next, if it is busy with a command. -/
def call : Phase → Option Call
  | .elsewhere => none
  | .created _ _ => some .recvclr
  | .cleared child _ => some (.resume child)
  | .waiting _ => some .receive

/-- What the shell does with the result of a call; `msg` is an `int32`. -/
def after (phase : Phase) (ret : Ret) : Phase :=
  match phase, ret with
  | .created child backgnd, _ => .cleared child backgnd
  | .cleared child backgnd, _ => if backgnd then .elsewhere else .waiting child
  | .waiting child, .msg msg => if int32 msg.toNat = child then .elsewhere else .waiting child
  | phase, _ => phase

end Phase

/-- The system, the process that is the shell, and whether the child of its phase has been killed. -/
structure ShellSystem where
  system : System
  shell : Option Int
  phase : Phase
  ended : Bool

/-- A step of the system, or the call that creates the shell, or the one in which the shell creates a command that it
goes on with; with `addargs` refused it makes the same call as a step like any other. -/
inductive ShellEvent where
  | step (label : Label)
  | start (shell : UInt32)
  | command (cfunc : UInt32) (cname : List UInt8) (ntok tmparg : UInt32) (backgnd : Bool)
  deriving DecidableEq

def ShellEvent.label : ShellEvent → Label
  | .step label => label
  | .start shell => .call (.create shell 4096 SHELLPRIO shellName [0])
  | .command cfunc cname ntok tmparg _ => .call (.create cfunc SHELL_CMDSTK SHELL_CMDPRIO cname [ntok, tmparg])

/-- Nobody sends to the shell, and only the shell gets its priority. -/
def Call.respects (shell : Option Int) : Call → Bool
  | .send pid _ => shell ≠ some pid
  | .create _ _ priority _ _ => priority.toInt < SHELLPRIO.toInt
  | .chprio pid newprio => shell ≠ some pid ∧ newprio.toInt < SHELLPRIO.toInt
  | _ => true

namespace ShellSystem

/-- The shell is the current process. -/
def Current (s : ShellSystem) : Prop := s.shell = some s.system.kernel.currpid

instance (s : ShellSystem) : Decidable s.Current := inferInstanceAs (Decidable (_ = _))

def Permits (s : ShellSystem) : ShellEvent → Prop
  | .step (.call call) =>
    s.system.kernel.pendsv = false ∧ call.respects s.shell ∧
      (s.Current → s.phase.call = none ∨ s.phase.call = some call)
  | .step .goOn => s.system.kernel.pendsv = false
  | .step _ => True
  | .start _ => s.system.kernel.pendsv = false ∧ s.shell = none
  | .command .. => s.system.kernel.pendsv = false ∧ s.Current ∧ s.phase = .elsewhere

instance (s : ShellSystem) (event : ShellEvent) : Decidable (s.Permits event) :=
  match event with
  | .step (.call _) => inferInstanceAs (Decidable (_ ∧ _ ∧ (_ → _)))
  | .step .goOn => inferInstanceAs (Decidable (_ = _))
  | .step (.tick _) | .step (.switch _) => inferInstanceAs (Decidable True)
  | .start _ => inferInstanceAs (Decidable (_ ∧ _))
  | .command .. => inferInstanceAs (Decidable (_ ∧ _ ∧ _))

/-- What a step does to the shell. -/
def record (event : ShellEvent) (ret : Ret) (system : System) (s : ShellSystem) : ShellSystem :=
  match event, ret with
  | .start _, .value pid => { s with system, shell := if pid = SYSERR then none else some pid }
  | .command _ _ _ _ backgnd, .value child =>
    { s with system, phase := if child = SYSERR then .elsewhere else .created child backgnd, ended := false }
  | .step (.call (.kill pid)), .value status =>
    if status ≠ OK then { s with system }
    else if s.shell = some pid then ⟨system, none, .elsewhere, false⟩
    else { s with system, ended := s.ended || decide (s.phase.child = some pid) }
  | .step (.call _), ret | .step .goOn, ret =>
    { s with system, phase := if s.Current then s.phase.after ret else s.phase }
  | _, _ => { s with system }

def step (event : ShellEvent) (s : ShellSystem) : Option (Ret × ShellSystem) :=
  if s.Permits event then
    (s.system.step event.label).map fun (ret, system) => (ret, s.record event ret system)
  else none

end ShellSystem

end XinuStm32
