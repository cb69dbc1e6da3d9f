import XinuStm32.Kernel.Console

/-!
# Requests to the console, `ttycontrol.c`

`TC_NEXTC` looks at a character. Like a reading call it may be switched out in its `wait`, so that part is given by
itself; `ttycontrol` and `ttygetc` as a whole are calls whose `wait` finds a character.
-/

namespace XinuStm32

/-- `TC_NEXTC` and the requests that do not wait. -/
inductive TtyRequest where
  | nextc | moder | modec | modek | ichars | echo | noecho
  deriving DecidableEq, Repr

/-- `TC_NEXTC` behind its `wait`. -/
def nextcLook (s : Kernel) : Int × Kernel :=
  let ch := s.tty.byteAt s.tty.tyitail
  let (_, s) := signal s.tty.tyisem s
  (ch.toNat, s)

def setMode (mode : UInt8) (s : Kernel) : Kernel := { s with tty := { s.tty with tyimode := mode } }

def setEcho (echo : Bool) (s : Kernel) : Kernel := { s with tty := { s.tty with tyiecho := echo } }

/-- `ttycontrol`. -/
def ttycontrol (request : TtyRequest) (s : Kernel) : Int × Kernel :=
  match request with
  | .nextc =>
    let (_, s) := wait s.tty.tyisem s
    nextcLook s
  | .moder => (OK, setMode TY_IMRAW s)
  | .modec => (OK, setMode TY_IMCOOKED s)
  | .modek => (OK, setMode TY_IMCBREAK s)
  | .ichars => semcount s.tty.tyisem s
  | .echo => (OK, setEcho true s)
  | .noecho => (OK, setEcho false s)

/-- `ttygetc`. -/
def ttygetc (s : Kernel) : Int × Kernel :=
  let (_, s) := wait s.tty.tyisem s
  ttygetcTake s

end XinuStm32
