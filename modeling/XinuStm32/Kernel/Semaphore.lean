import XinuStm32.Kernel.Dispatch

/-!
# Semaphores: `wait` of `create.c`, `signal.c` and `semcreate.c`
-/

namespace XinuStm32

/-- `isbadsem`. -/
def isbadsem (sem : Int) : Prop := sem < 0 ∨ sem ≥ NSEM

instance (sem : Int) : Decidable (isbadsem sem) := inferInstanceAs (Decidable (_ ∨ _))

/-- Add to `scount` in the arithmetic the count is read in. -/
def Kernel.addCount (sem change : Int) (s : Kernel) : Kernel :=
  s.setSem sem { s.semtab sem with scount := s.counting ((s.semtab sem).scount + change) }

/-- What `wait` does when the count has become negative. -/
def waitBlock (sem : Int) (s : Kernel) : Kernel :=
  let s := s.setProc s.currpid { s.proctab s.currpid with prstate := .wait, prsem := sem }
  let (_, s) := enqueue s.currpid (s.semtab sem).squeue s
  pendSV s

def wait (sem : Int) (s : Kernel) : Int × Kernel :=
  let (mask, s) := disable s
  if isbadsem sem then (SYSERR, restore mask s)
  else if (s.semtab sem).sstate = .free then (SYSERR, restore mask s)
  else
    let s := s.addCount sem (-1)
    let s :=
      if (s.semtab sem).scount < 0 then waitBlock sem s else s
    (OK, restore mask s)

/-- `if ((semptr->scount++) < 0) ready(dequeue(semptr->squeue));` -/
def signalOnce (sem : Int) (s : Kernel) : Kernel :=
  let scount := (s.semtab sem).scount
  let s := s.addCount sem 1
  if scount < 0 then
    let (pid, s) := dequeue (s.semtab sem).squeue s
    (ready pid s).2
  else s

def signal (sem : Int) (s : Kernel) : Int × Kernel :=
  let (mask, s) := disable s
  if isbadsem sem then (SYSERR, restore mask s)
  else if (s.semtab sem).sstate = .free then (SYSERR, restore mask s)
  else
    let s := signalOnce sem s
    (OK, restore mask s)

/-- The loop of `signaln`. -/
def signalnLoop (sem : Int) : Nat → Kernel → Kernel
  | 0, s => s
  | count + 1, s => signalnLoop sem count (signalOnce sem s)

def signaln (sem : Int) (count : Int32) (s : Kernel) : Int × Kernel :=
  let (mask, s) := disable s
  if isbadsem sem ∨ count.toInt < 0 then (SYSERR, restore mask s)
  else if (s.semtab sem).sstate = .free then (SYSERR, restore mask s)
  else
    let (_, s) := reschedCntl .start s
    let s := signalnLoop sem count.toInt.toNat s
    let (_, s) := reschedCntl .stop s
    (OK, restore mask s)

/-- The loop of `newsem`. -/
def newsemLoop : Nat → Kernel → Int × Kernel
  | 0, s => (SYSERR, s)
  | fuel + 1, s =>
    let sem := s.nextsem
    let s := { s with nextsem := if s.nextsem + 1 ≥ NSEM then 0 else s.nextsem + 1 }
    if (s.semtab sem).sstate = .free then
      (sem, s.setSem sem { s.semtab sem with sstate := .used })
    else newsemLoop fuel s

def newsem (s : Kernel) : Int × Kernel := newsemLoop NSEM.toNat s

def semcreate (count : Int32) (s : Kernel) : Int × Kernel :=
  let (mask, s) := disable s
  if count.toInt < 0 then (SYSERR, restore mask s)
  else
    let (sem, s) := newsem s
    if sem = SYSERR then (SYSERR, restore mask s)
    else
      let s := s.setSem sem { s.semtab sem with scount := count.toInt }
      (sem, restore mask s)

def semcount (sem : Int) (s : Kernel) : Int × Kernel :=
  let (mask, s) := disable s
  if isbadsem sem ∨ (s.semtab sem).sstate = .free then (SYSERR, restore mask s)
  else ((s.semtab sem).scount, restore mask s)

/-- The loop of `semdelete`. The count is read before each increment, so it ends one above zero;
a count of `-n` allows `n` rounds. -/
def semdeleteLoop (sem : Int) : Nat → Kernel → Kernel
  | 0, s => s.addCount sem 1
  | fuel + 1, s =>
    if (s.semtab sem).scount < 0 then
      let s := s.addCount sem 1
      let (pid, s) := getfirst (s.semtab sem).squeue s
      semdeleteLoop sem fuel (ready pid s).2
    else s.addCount sem 1

def semdelete (sem : Int) (s : Kernel) : Int × Kernel :=
  let (mask, s) := disable s
  if isbadsem sem then (SYSERR, restore mask s)
  else if (s.semtab sem).sstate = .free then (SYSERR, restore mask s)
  else
    let s := s.setSem sem { s.semtab sem with sstate := .free }
    let (_, s) := reschedCntl .start s
    let s := semdeleteLoop sem (-(s.semtab sem).scount).toNat s
    let (_, s) := reschedCntl .stop s
    (OK, restore mask s)

/-- The loop of `semreset`; each round takes a process off the queue. -/
def semresetLoop (semqueue : Int) : Nat → Kernel → Kernel
  | 0, s => s
  | fuel + 1, s =>
    let (pid, s) := getfirst semqueue s
    if pid ≠ EMPTY then semresetLoop semqueue fuel (ready pid s).2 else s

def semreset (sem : Int) (count : Int32) (s : Kernel) : Int × Kernel :=
  let (mask, s) := disable s
  if count.toInt < 0 ∨ isbadsem sem ∨ (s.semtab sem).sstate = .free then (SYSERR, restore mask s)
  else
    let semqueue := (s.semtab sem).squeue
    let (_, s) := reschedCntl .start s
    let s := semresetLoop semqueue NPROC.toNat s
    let s := s.setSem sem { s.semtab sem with scount := count.toInt }
    let (_, s) := reschedCntl .stop s
    (OK, restore mask s)

end XinuStm32
