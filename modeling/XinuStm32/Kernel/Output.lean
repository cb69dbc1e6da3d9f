import XinuStm32.Kernel.Console

/-!
# Console output, `ttyputc.c`, `ttykickout.c` and `ttyhandle_out.c`

`ttyputc` puts a byte into the output ring and lets the transmitter take one. A process may be switched out in
`wait` and between any two of its parts, so that `ttyputc` is given by its parts.
-/

namespace XinuStm32

@[simp] abbrev TY_EBUFLEN : Int := 32

@[simp] abbrev UART_FIFO_SIZE : Nat := 1

/-- The fields of `struct ttycblk` for output, but the semaphore and `tyoheld`. -/
structure TtyOut where
  tyohead : Int
  tyotail : Int
  tyobuff : Int → UInt8
  tyehead : Int
  tyetail : Int
  tyocrlf : Bool

structure Terminal where
  kernel : Kernel
  out : TtyOut

namespace Terminal

/-! ## `ttyhandle_out` -/

/-- `semcount(typtr->tyosem)`. -/
def semcount (t : Terminal) : Int × Terminal :=
  let (count, kernel) := XinuStm32.semcount t.kernel.tty.tyosem t.kernel
  (count, { t with kernel := kernel })

/-- The test that there is nothing to send. -/
def idle (t : Terminal) : Bool × Terminal :=
  if t.out.tyehead = t.out.tyetail then
    let (count, t) := t.semcount
    (count ≥ TY_OBUFLEN.toInt, t)
  else (false, t)

/-- `kputc(*typtr->tyohead++)`, without the wrap that follows it. -/
def sendHead (t : Terminal) : Terminal where
  kernel := kputc (t.out.tyobuff t.out.tyohead) t.kernel
  out := { t.out with tyohead := t.out.tyohead + 1 }

/-- The loop over the echo queue, with the space it leaves. It sends from the head of the output ring. -/
def echoLoop : Nat → Terminal → Nat × Terminal
  | 0, t => (0, t)
  | uspace + 1, t =>
    if t.out.tyehead ≠ t.out.tyetail then
      let t := t.sendHead
      let t := if t.out.tyehead ≥ TY_EBUFLEN then { t with out := { t.out with tyehead := 0 } } else t
      echoLoop uspace t
    else (uspace + 1, t)

/-- The loop over the output ring, with `ochars`. -/
def outLoop : Nat → Int → Int32 → Terminal → Int32 × Terminal
  | 0, _, ochars, t => (ochars, t)
  | uspace + 1, avail, ochars, t =>
    if avail > 0 then
      let t := t.sendHead
      let t := if t.out.tyohead ≥ TY_OBUFLEN.toInt then { t with out := { t.out with tyohead := 0 } } else t
      outLoop uspace (avail - 1) (ochars + 1) t
    else (ochars, t)

/-- `ttyhandle_out`. -/
def ttyhandleOut (t : Terminal) : Terminal :=
  if t.kernel.tty.tyoheld then t
  else
    let (idle, t) := t.idle
    if idle then t
    else
      let (uspace, t) := t.echoLoop UART_FIFO_SIZE
      let (count, t) := t.semcount
      let avail := TY_OBUFLEN.toInt - count
      let (ochars, t) := t.outLoop uspace avail 0
      let t := if ochars > 0 then { t with kernel := (signaln t.kernel.tty.tyosem ochars t.kernel).2 } else t
      t.idle.2

/-! ## `ttyputc` -/

/-- The bytes that a call of `ttyputc` puts out, one after the other. The call for the return puts out that only. -/
def ttyputcBytes (tyocrlf : Bool) (ch : UInt8) : List UInt8 :=
  if ch = TY_NEWLINE ∧ tyocrlf then [TY_RETURN, ch] else [ch]

/-- `wait(typtr->tyosem)`. -/
def ttyputcWait (t : Terminal) : Terminal := { t with kernel := (wait t.kernel.tty.tyosem t.kernel).2 }

/-- `*typtr->tyotail++ = ch`, and the wrap. -/
def ttyputcStore (ch : UInt8) (t : Terminal) : Terminal :=
  let out := { t.out with
    tyobuff := Function.update t.out.tyobuff t.out.tyotail ch
    tyotail := t.out.tyotail + 1 }
  { t with out := if out.tyotail ≥ TY_OBUFLEN.toInt then { out with tyotail := 0 } else out }

/-- `ttykickout`, with the transmit path of `ttyhandler`. -/
def ttykickout (t : Terminal) : Terminal :=
  let t := { t with kernel := (disable t.kernel).2 }
  let t := t.ttyhandleOut
  let t := { t with kernel := (yield t.kernel).2 }
  { t with kernel := enable t.kernel }

/-- `ttyinit`. -/
def init (s : Kernel) (tyobuff : Int → UInt8) : Terminal where
  kernel := ttyinit s
  out := ⟨0, 0, tyobuff, 0, 0, true⟩

end Terminal

end XinuStm32
