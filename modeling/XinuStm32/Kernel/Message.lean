import XinuStm32.Kernel.Dispatch

/-!
# Messages, `message.c`

`receive` gives up the processor in its middle: `receiveBlock` is what it does before the switch
and `receiveTake` what it does once it runs again. `recvtime` masks interrupts, so the switch it
requests happens after its last statement and the whole body is one function.
-/

namespace XinuStm32

def send (pid : Int) (msg : UInt32) (s : Kernel) : Int × Kernel :=
  let (mask, s) := disable s
  if isbadpid pid s.toSched then (SYSERR, restore mask s)
  else if (s.proctab pid).prhasmsg then (SYSERR, restore mask s)
  else
    let s := s.setProc pid { s.proctab pid with prmsg := msg, prhasmsg := true }
    let s :=
      if (s.proctab pid).prstate = .recv then (ready pid s).2
      else if (s.proctab pid).prstate = .rectim then
        let (_, s) := unsleep pid s
        (ready pid s).2
      else s
    (OK, restore mask s)

/-- `prptr->prstate = PR_RECV; PEND_SV();` -/
def receiveBlock (s : Kernel) : Kernel := pendSV (s.setState s.currpid .recv)

/-- `msg = prptr->prmsg; prptr->prhasmsg = FALSE;` -/
def receiveTake (s : Kernel) : UInt32 × Kernel :=
  ((s.proctab s.currpid).prmsg,
    s.setProc s.currpid { s.proctab s.currpid with prhasmsg := false })

/-! `receive` runs unmasked. Its statements one at a time, with `prptr` the entry of the caller: -/

/-- `prptr->prstate = PR_RECV;` -/
def receiveMark (s : Kernel) : Kernel := s.setState s.currpid .recv

/-- `msg = prptr->prmsg;` -/
def receiveRead (s : Kernel) : UInt32 := (s.proctab s.currpid).prmsg

/-- `prptr->prhasmsg = FALSE;` -/
def receiveClear (s : Kernel) : Kernel :=
  s.setProc s.currpid { s.proctab s.currpid with prhasmsg := false }

def recvclr (s : Kernel) : UInt32 × Kernel :=
  let (mask, s) := disable s
  if (s.proctab s.currpid).prhasmsg then
    let (msg, s) := receiveTake s
    (msg, restore mask s)
  else (1, restore mask s)

/-- The first half of `recvtime`: schedule the wakeup if no message waits. -/
def recvtimeBlock (maxwait : Int32) (s : Kernel) : Int × Kernel :=
  if (s.proctab s.currpid).prhasmsg = false then
    let (status, s) := insertd s.currpid s.sleepq maxwait.toInt s
    if status = SYSERR then (SYSERR, s)
    else (OK, pendSV (s.setState s.currpid .rectim))
  else (OK, s)

/-- The second half of `recvtime`: either a message arrived or the timer expired. -/
def recvtimeCheck (s : Kernel) : UInt32 × Kernel :=
  if (s.proctab s.currpid).prhasmsg then receiveTake s else (TIMEOUT, s)

def recvtime (maxwait : Int32) (s : Kernel) : UInt32 × Kernel :=
  if maxwait.toInt < 0 then (0xFFFFFFFF, s)
  else
    let (mask, s) := disable s
    let (status, s) := recvtimeBlock maxwait s
    if status = SYSERR then (0xFFFFFFFF, restore mask s)
    else
      let (msg, s) := recvtimeCheck s
      (msg, restore mask s)

end XinuStm32
