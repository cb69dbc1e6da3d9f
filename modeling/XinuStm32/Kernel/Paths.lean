import Mathlib

/-!
# Paths of the shell, `shell.c` and `xsh_cd.c`

`path` is a scratch buffer that every command with a file argument builds a path in, and `curdir` the current
directory. A string is the list of its characters before the NUL. `Fits` says that a command writes no string past
the end of its buffer; where one does not fit, nothing is said here about what the bytes behind the buffer were.
-/

namespace XinuStm32

@[simp] abbrev SLASH : UInt8 := 47
@[simp] abbrev DOT : UInt8 := 46

/-- The size of a `buf_t`. -/
@[simp] abbrev BUF : Nat := 128

/-- `strrchr`, for a character that is not NUL: the offset of its last occurrence. -/
def strrchr (c : UInt8) : List UInt8 → Option Nat
  | [] => none
  | x :: s =>
    match strrchr c s with
    | some i => some (i + 1)
    | none => if x = c then some 0 else none

/-- End a string at its last slash, if it has one. -/
def cutAtSlash (s : List UInt8) : List UInt8 :=
  match strrchr SLASH s with
  | some i => s.take i
  | none => s

/-- End a string behind its last slash, if it has one. -/
def cutBehindSlash (s : List UInt8) : List UInt8 :=
  match strrchr SLASH s with
  | some i => s.take (i + 1)
  | none => s

/-- `full_path`: the string it builds in `path`. -/
def fullPath (name curdir : List UInt8) : List UInt8 :=
  if name.head? = some SLASH then name
  else
    let name := if [DOT, SLASH] <+: name then name.drop 2 else name
    if ¬ [DOT, DOT, SLASH] <+: name then curdir ++ name
    else cutBehindSlash (cutAtSlash curdir) ++ name.drop 3

/-- `path` and `curdir`, and the paths that `fl_opendir` opens. -/
structure ShellPaths where
  path : List UInt8
  curdir : List UInt8
  dirs : List UInt8 → Bool

namespace ShellPaths

/-- `full_path(arg)`. -/
def useFullPath (arg : List UInt8) (s : ShellPaths) : ShellPaths := { s with path := fullPath arg s.curdir }

/-- `update_path`. -/
def updatePath (s : ShellPaths) : ShellPaths := { s with path := s.curdir }

/-! ## `xsh_cd` -/

/-- Add a slash to a string that does not end in one. -/
def withSlash (s : List UInt8) : List UInt8 := if s.getLast? = some SLASH then s else s ++ [SLASH]

/-- From the label `cd_done` on. -/
def cdDone (s : ShellPaths) : ShellPaths := { s with curdir := withSlash s.path }

/-- The case of `..`. -/
def cdUp (s : ShellPaths) : ShellPaths :=
  if s.curdir = [SLASH] then s
  else
    let s := { s with path := s.curdir }
    let s :=
      match strrchr SLASH s.path with
      | some i => { s with path := s.path.take i }
      | none => { s with curdir := [] }
    cdDone { s with path := cutBehindSlash s.path }

/-- `xsh_cd`. -/
def xshCd (arg : List UInt8) (s : ShellPaths) : ShellPaths :=
  if arg = [DOT] then cdDone s
  else if arg = [DOT, DOT] then cdUp s
  else
    let s := useFullPath arg s
    if s.dirs s.path then cdDone s else updatePath s

/-! ## Commands -/

/-- A command with the argument it takes a path from; `dump` also with whether its file is found, and a change of
what directories there are. -/
inductive Command where
  | cd (arg : List UInt8)
  | cat (arg : List UInt8)
  | touch (arg : List UInt8)
  | rm (arg : List UInt8)
  | mkdir (arg : List UInt8)
  | dump (arg : List UInt8) (found : Bool)
  | run (arg : List UInt8)
  | ls
  | pwd
  | files (dirs : List UInt8 → Bool)

/-- What a command does to the paths. -/
def exec : Command → ShellPaths → ShellPaths
  | .cd arg, s => xshCd arg s
  | .cat arg, s => updatePath (useFullPath arg s)
  | .touch arg, s => useFullPath arg s
  | .rm arg, s => useFullPath arg s
  | .mkdir arg, s => useFullPath arg s
  | .dump arg found, s => if found then updatePath (useFullPath arg s) else useFullPath arg s
  | .run arg, s => updatePath (useFullPath arg s)
  | .ls, s => useFullPath [] s
  | .pwd, s => useFullPath [] s
  | .files dirs, s => { s with dirs := dirs }

/-- What `cd_done` stores fits `curdir`, and the string has a last character. -/
def DoneFits (path : List UInt8) : Prop := path ≠ [] ∧ path.length < BUF ∧ (withSlash path).length < BUF

/-- Everything that a command stores in `path` and `curdir` fits there. -/
def Fits : Command → ShellPaths → Prop
  | .cd arg, s =>
    if arg = [DOT] then DoneFits s.path
    else if arg = [DOT, DOT] then
      s.curdir = [SLASH] ∨ s.curdir.length < BUF ∧ DoneFits (cutBehindSlash (cutAtSlash s.curdir))
    else
      (fullPath arg s.curdir).length < BUF ∧ (s.dirs (fullPath arg s.curdir) → DoneFits (fullPath arg s.curdir))
  | .cat arg, s | .touch arg, s | .rm arg, s | .mkdir arg, s | .dump arg _, s | .run arg, s =>
    (fullPath arg s.curdir).length < BUF
  | .ls, s | .pwd, s => (fullPath [] s.curdir).length < BUF
  | .files _, _ => True

end ShellPaths

end XinuStm32
