import XinuStm32.Kernel.Memory
import XinuStm32.Kernel.Semaphore
import XinuStm32.Kernel.Message

/-!
# Process creation and termination, `create.c`
-/

namespace XinuStm32

/-- `roundew`; the sum is taken modulo `2 ^ 32`. -/
def roundew (x : Nat) : Nat := add32 x 3 / 4 * 4

/-- The loop of `newpid`; `nextpid` is its static variable. -/
def newpidLoop : Nat → Kernel → Int × Kernel
  | 0, s => (SYSERR, s)
  | fuel + 1, s =>
    let s := { s with nextpid := s.nextpid % NPROC }
    let pid := s.nextpid
    let s := { s with nextpid := s.nextpid + 1 }
    if (s.proctab pid).prstate = .free then (pid, s) else newpidLoop fuel s

def newpid (s : Kernel) : Int × Kernel := newpidLoop NPROC.toNat s

/-- The name loop of `create`: copy up to and including the terminating NUL, at most `PNMLEN-1`
characters. `name` holds the characters before the NUL. -/
def copyName (name : List UInt8) : Nat → Nat → (Nat → UInt8) → Nat → UInt8
  | 0, _, prname => prname
  | fuel + 1, i, prname =>
    let prname := Function.update prname i (name.getD i 0)
    if prname i = 0 then prname else copyName name fuel (i + 1) prname

/-- Store consecutive words from an address upward. -/
def pokeWords : Nat → List Nat → Mem → Mem
  | _, [], m => m
  | a, word :: words, m => pokeWords (add32 a 4) words (m.poke a word)

/-- The stack frame `create` builds below `saddr`: the arguments from `tmpstk` upward, then `lr`,
`pc` and the flags word over entries 5 to 7, and eight zero words for `r4` to `r11` below. -/
def buildFrame (saddr procaddr userret : Nat) (args : List Nat) (m : Mem) : Nat × Mem :=
  let tmpstk := sub32 saddr 0x1C
  let extraregs := sub32 tmpstk 0x20
  let m := pokeWords tmpstk args m
  let m := m.poke (add32 tmpstk 20) userret
  let m := m.poke (add32 tmpstk 24) procaddr
  let m := m.poke (add32 tmpstk 28) 0x01000000
  (extraregs, pokeWords extraregs (List.replicate 8 0) m)

/-- The registers of a process when it goes on: `r4` to `r11`, then the frame of the exception return. -/
structure Context where
  r4_r11 : List Nat
  r0_r3 : List Nat
  r12 : Nat
  lr : Nat
  pc : Nat
  psr : Nat
  sp : Nat
  deriving DecidableEq, Repr

/-- The end of `PendSV_Handler`: `ldmia r0!, {r4-r11}` from the saved stack pointer and `msr psp, r0`;
`bx lr` makes the processor pop eight more words, and one of padding where bit 9 of the flags says so. -/
def restoreContext (prstkptr : Nat) (m : Mem) : Context :=
  let word (i : Nat) := Words.load m.ram (add32 prstkptr (4 * i))
  { r4_r11 := (List.range 8).map word
    r0_r3 := [word 8, word 9, word 10, word 11]
    r12 := word 12
    lr := word 13
    pc := word 14
    psr := word 15
    sp := add32 prstkptr (if word 15 / 2 ^ 9 % 2 = 1 then 68 else 64) }

/-- The end of `create`: count the process, build its stack and fill in its entry. -/
def fillEntry (pid : Int) (saddr ssize : Nat) (procaddr : UInt32) (priority : Int16)
    (name : List UInt8) (args : List UInt32) (s : Kernel) : Kernel :=
  let s := { s with prcount := s.prcount + 1 }
  let (stkptr, memory) :=
    buildFrame saddr procaddr.toNat s.userret (args.map UInt32.toNat) s.mem
  let s := { s with mem := memory }
  let old := s.proctab pid
  s.setProc pid
    { prstate := .susp
      prprio := priority
      prstkptr := stkptr
      prstkbase := saddr
      prstklen := ssize
      prname := copyName name (PNMLEN - 1) 0 (Function.update old.prname (PNMLEN - 1) 0)
      prsem := -1
      prparent := getpid s
      prmsg := old.prmsg
      prhasmsg := false
      prdesc := fun _ => CONSOLE
      elf := false
      img := old.img }

def create (procaddr ssize : UInt32) (priority : Int16) (name : List UInt8) (args : List UInt32)
    (s : Kernel) : Int × Kernel :=
  let (mask, s) := disable s
  let ssize := if ssize.toNat < MINSTK then MINSTK else ssize.toNat
  let ssize := roundew ssize
  let (saddr, s) := getstk ssize s
  if saddr = SYSERR32 then (SYSERR, restore mask s)
  else
    let (pid, s) := newpid s
    if pid = SYSERR ∨ priority.toInt < 1 then (SYSERR, restore mask s)
    else
      let s := fillEntry pid saddr ssize procaddr priority name args s
      (pid, restore mask s)

/-! ## Devices, `device.c` and `conf.c` -/

/-- `isbaddev`. -/
def isbaddev (descrp : Int) : Prop := descrp < 0 ∨ descrp ≥ NDEVS

instance (descrp : Int) : Decidable (isbaddev descrp) := inferInstanceAs (Decidable (_ ∨ _))

/-- The `dvclose` column of `devtab`: `ioerr` for the name space device, `ionull` for the
others. -/
def dvclose (descrp : Int) : Int := if descrp = 2 then SYSERR else OK

def close (descrp : Int) (s : Kernel) : Int × Kernel :=
  let (mask, s) := disable s
  if isbaddev descrp then (SYSERR, restore mask s) else (dvclose descrp, restore mask s)

/-! ## `kill` -/

/-- The `switch` of `kill`. The first case falls through to `unsleep`, which by then sees a free
entry. -/
def killState (pid : Int) (s : Kernel) : Kernel :=
  match (s.proctab pid).prstate with
  | .curr =>
    let s := s.setState pid .free
    let s := pendSV s
    let (_, s) := unsleep pid s
    s.setState pid .free
  | .sleep | .rectim =>
    let (_, s) := unsleep pid s
    s.setState pid .free
  | .wait =>
    let s := s.addCount (s.proctab pid).prsem 1
    let (_, s) := getitem pid s
    s.setState pid .free
  | .ready =>
    let (_, s) := getitem pid s
    s.setState pid .free
  | _ => s.setState pid .free

/-- What `kill` does for a process between the check on `prcount` and its `switch`: tell the
parent, close the descriptors, give back the stack and the program image. -/
def killRelease (pid : Int) (s : Kernel) : Kernel :=
  let (_, s) := send (s.proctab pid).prparent (UInt32.ofNat pid.toNat) s
  let (_, s) := close ((s.proctab pid).prdesc 0) s
  let (_, s) := close ((s.proctab pid).prdesc 1) s
  let (_, s) := close ((s.proctab pid).prdesc 2) s
  let (_, s) := freestk (s.proctab pid).prstkbase (s.proctab pid).prstklen s
  if (s.proctab pid).elf then free (s.proctab pid).img s else s

/-- `kill`; `none` when it does not return, because the last user process went and `xdone` halted
the processor. -/
def kill (pid : Int) (s : Kernel) : Option (Int × Kernel) :=
  let (mask, s) := disable s
  if isbadpid pid s.toSched ∨ pid = NULLPROC ∨ (s.proctab pid).prstate = .free then
    some (SYSERR, restore mask s)
  else
    let s := { s with prcount := s.prcount - 1 }
    if s.prcount ≤ 1 then none
    else
      let s := killRelease pid s
      let s := killState pid s
      some (OK, restore mask s)

end XinuStm32
