import XinuStm32.Kernel.Commands
import XinuStm32.Kernel.Loader
import XinuStm32.Kernel.Paths

/-!
# Commands that work on processes, `xsh_kill.c` and `xsh_run.c`

An argument is the list of its characters before the NUL.
-/

namespace XinuStm32

/-- What a command prints. -/
inductive ShellMessage where
  | usage
  | incorrectArgument
  | nonDigit
  | nullProcess
  | cannotKill (pid : Int)
  deriving DecidableEq

/-! ## `xsh_kill` -/

/-- `"--help"`. -/
def helpOption : List UInt8 := [0x2D, 0x2D, 0x68, 0x65, 0x6C, 0x70]

/-- "compute process ID from argument string"; `none` at a character that is no digit. -/
def scanPid : List UInt8 → Int → Option Int
  | [], pid => some pid
  | ch :: rest, pid =>
    if ch < 0x30 ∨ ch > 0x39 then none else scanPid rest (int32 (10 * pid + (ch.toNat - 0x30)))

/-- What `xsh_kill` prints, the calls of `kill` that it makes, and its status with the kernel behind it: `none` when
`kill` does not return. -/
structure KillCommand where
  printed : List ShellMessage
  calls : List Int
  result : Option (Int × Kernel)

/-- `xsh_kill`; `args` has `nargs` entries. -/
def xshKill (args : List (List UInt8)) (s : Kernel) : KillCommand :=
  match args with
  | [_, arg] =>
    if arg = helpOption then ⟨[.usage], [], some (OK, s)⟩
    else
      match scanPid arg 0 with
      | none => ⟨[.nonDigit], [], some (1, s)⟩
      | some pid =>
        if pid = 0 then ⟨[.nullProcess], [], some (1, s)⟩
        else
          match kill pid s with
          | none => ⟨[], [pid], none⟩
          | some (retval, s) =>
            if retval = SYSERR then ⟨[.cannotKill pid], [pid], some (1, s)⟩ else ⟨[], [pid], some (0, s)⟩
  | _ => ⟨[.incorrectArgument], [], some (SYSERR, s)⟩

/-! ## `xsh_run` -/

/-- What `xsh_run` prints, "error loading elf process" with `ret` and the path, and what it leaves behind. -/
structure RunCommand where
  reported : Option (Int × List UInt8)
  paths : ShellPaths
  kernel : Kernel

/-- `prptr->elf = TRUE` and `prptr->img = img`. -/
def setImage (child : Int) (img : Nat) (s : Kernel) : Kernel :=
  s.setProc child { s.proctab child with elf := true, img := img }

/-- The process for an image: `create` at the entry point, the stores to its entry, whatever `create` returned, and
`resume`. The entry `-1` of the table stands for the bytes in front of it. -/
def launch (nargs args : UInt32) (tmp : List UInt8) (ret img : Nat) (s : Kernel) : Kernel :=
  let (child, s) := create (UInt32.ofNat ret) SHELL_CMDSTK SHELL_CMDPRIO tmp [nargs, args] s
  let s := setImage child img s
  (resume child s).2

/-- `xsh_run` of `args[1] = arg`, which passes its own arguments on. `fopen` finds a file by its path, `program` is what
the constructors in the file do, and `ximg` is what its local variable holds before the loader stores to it. -/
def xshRun (program : Loader.ProgramCode) (nargs args : UInt32) (arg : List UInt8)
    (fopen : List UInt8 → Option Loader.ProgramFile) (ximg : Nat)
    (paths : ShellPaths) (s : Kernel) : Except Loader.Stop RunCommand := do
  let paths := paths.useFullPath arg
  let tmp := paths.path
  let r ← Loader.elfExecve program tmp (fopen tmp) s
  let ret := int32 r.code
  if ret > 0 then
    let s := launch nargs args tmp r.code (r.start.getD ximg) r.kernel
    return { reported := none, paths := paths.updatePath, kernel := s }
  else
    return { reported := some (ret, tmp), paths := paths.updatePath, kernel := r.kernel }

end XinuStm32
