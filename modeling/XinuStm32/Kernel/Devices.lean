import XinuStm32.Drivers.Flash
import XinuStm32.Kernel.Namespace
import XinuStm32.Kernel.Output
import XinuStm32.Kernel.Process
import XinuStm32.Kernel.TtyControl

/-!
# The device switch, `device.c` and `conf.c`

A call masks interrupts, looks its function up in the row of the descriptor and unmasks behind it. Other processes run
while a function waits; what they do is a parameter. `none` is a call that does not return.
-/

namespace XinuStm32

/-- The rows of `devtab`. -/
inductive Device where
  | console | nulldev | name | led | flash
  deriving DecidableEq

/-- The row of a descriptor; a bad one has none. -/
def devtab (descrp : Int) : Option Device :=
  if descrp = 0 then some .console
  else if descrp = 1 then some .nulldev
  else if descrp = 2 then some .name
  else if descrp = 3 then some .led
  else if descrp = 4 then some .flash
  else none

theorem devtab_eq_none_iff (descrp : Int) : devtab descrp = none ↔ isbaddev descrp := by
  simp only [devtab, isbaddev, NDEVS]
  grind

/-- The descriptor `NAMESPACE`. -/
def namespaceDev : Int := 2

/-- A text in memory, with zeros behind it. -/
def cstring (text : List UInt8) (i : Nat) : UInt8 := text.getD i 0

/-- `dvnum` and `dvname`: "CONSOLE", "NULLDEV", "NAMESPACE", "LED" and "W25Q128". -/
def devnames : List Dentry :=
  [⟨0, cstring [0x43, 0x4F, 0x4E, 0x53, 0x4F, 0x4C, 0x45]⟩,
    ⟨1, cstring [0x4E, 0x55, 0x4C, 0x4C, 0x44, 0x45, 0x56]⟩,
    ⟨2, cstring [0x4E, 0x41, 0x4D, 0x45, 0x53, 0x50, 0x41, 0x43, 0x45]⟩,
    ⟨3, cstring [0x4C, 0x45, 0x44]⟩,
    ⟨4, cstring [0x57, 0x32, 0x35, 0x51, 0x31, 0x32, 0x38]⟩]

/-- The kernel, the console, the table of names, the flash with `flashinfo.card_size`, and the outputs of port C. -/
structure Board extends Terminal where
  names : Namespace
  flash : W25q
  cardSize : UInt32
  odr : UInt32

/-- What runs while a process waits: it may change everything, but accesses that were made remain. -/
structure Meanwhile where
  run : Board → Board
  goesOn : ∀ b, b.kernel.cpu.accesses <:+ (run b).kernel.cpu.accesses

/-- What a call returns, and what it stores in the buffer of its caller. -/
structure Reply where
  retval : Int
  stored : List UInt8
  deriving DecidableEq

namespace Board

def onKernel (f : Kernel → Kernel) (b : Board) : Board := { b with kernel := f b.kernel }

def onTerminal (f : Terminal → Terminal) (b : Board) : Board := { b with toTerminal := f b.toTerminal }

def reply (retval : Int) (b : Board) : Reply × Board := (⟨retval, []⟩, b)

/-- `ioerr`. -/
def ioerr (b : Board) : Reply × Board := reply SYSERR b

/-- `ionull`. -/
def ionull (b : Board) : Reply × Board := reply OK b

/-! ## The console -/

section Console

variable (others : Meanwhile)

/-- A `wait` of the console, until it returns. -/
def waitFor (sem : Int) (b : Board) : Board := others.run (b.onKernel fun s => (wait sem s).2)

/-- `ttygetc`. -/
def ttygetc (b : Board) : Int × Board :=
  let b := b.waitFor others b.kernel.tty.tyisem
  let (ch, kernel) := ttygetcTake b.kernel
  (ch, { b with kernel })

/-- The loops of `ttyread`, which call `ttygetc` at most so often. -/
def ttyreadLoop (plan : ReadPlan) : Nat → List UInt8 → Board → Reply × Board
  | 0, buff, b => (⟨buff.length, buff⟩, b)
  | left + 1, buff, b =>
    let (got, b) := b.ttygetc others
    match ttyreadNext plan buff got with
    | .again buff => ttyreadLoop plan left buff b
    | .nread buff => (⟨buff.length, buff⟩, b)
    | .eof => reply EOF b

/-- `ttyread`. A line takes one character at least. -/
def ttyread (count : Int32) (b : Board) : Reply × Board :=
  let (plan, kernel) := ttyreadPlan count b.kernel
  let b := { b with kernel }
  match plan with
  | .error => reply SYSERR b
  | .chars count => b.ttyreadLoop others plan count.toNat []
  | .line count => b.ttyreadLoop others plan (max count 1).toNat []

/-- A call of `ttyputc` for one byte of its output. -/
def putByte (b : Board) (ch : UInt8) : Board :=
  let b := b.waitFor others b.kernel.tty.tyosem
  let b := b.onTerminal (Terminal.ttyputcStore ch)
  others.run (b.onTerminal Terminal.ttykickout)

/-- `ttyputc`. -/
def ttyputc (ch : UInt8) (b : Board) : Reply × Board :=
  reply OK ((Terminal.ttyputcBytes b.out.tyocrlf ch).foldl (putByte others) b)

/-- `ttywrite`. -/
def ttywrite (buff : Nat → UInt8) (count : Int32) (b : Board) : Reply × Board :=
  if count.toInt < 0 then reply SYSERR b
  else if count.toInt = 0 then reply OK b
  else reply OK (((List.range count.toInt.toNat).map buff).foldl (fun b ch => (b.ttyputc others ch).2) b)

/-- The function that `ttycontrol` performs. -/
def ttyRequest (func : Int) : Option TtyRequest :=
  if func = 3 then some .nextc
  else if func = 4 then some .moder
  else if func = 5 then some .modec
  else if func = 6 then some .modek
  else if func = 8 then some .ichars
  else if func = 9 then some .echo
  else if func = 10 then some .noecho
  else none

/-- `ttycontrol`. -/
def ttycontrol (func : Int) (b : Board) : Reply × Board :=
  match ttyRequest func with
  | none => reply SYSERR b
  | some .nextc =>
    let b := b.waitFor others b.kernel.tty.tyisem
    let (ch, kernel) := nextcLook b.kernel
    reply ch { b with kernel }
  | some request =>
    let (retval, kernel) := XinuStm32.ttycontrol request b.kernel
    reply retval { b with kernel }

end Console

/-- `ttyinit`. -/
def ttyinit (b : Board) : Reply × Board :=
  reply OK (b.onTerminal fun t => Terminal.init t.kernel t.out.tyobuff)

/-! ## Names -/

/-- `mount`. -/
def mount (nprefixStr replace : Nat → UInt8) (device : Int) (b : Board) : Reply × Board :=
  let (mask, kernel) := disable b.kernel
  let (retval, names) := XinuStm32.mount nprefixStr replace device b.names
  reply retval { b with kernel := restore mask kernel, names }

/-- "  %s\t\t id: %d\n". -/
def nameLine (tmpstr : Nat → UInt8) (dvnum : Int) : List UInt8 :=
  [TY_BLANK, TY_BLANK] ++ ((List.range NM_MAXLEN).map tmpstr).takeWhile (· ≠ NULLCH) ++
    [0x09, 0x09, TY_BLANK, 0x69, 0x64, 0x3A, TY_BLANK] ++
    (Nat.toDigits 10 dvnum.toNat).map (fun digit => UInt8.ofNat digit.toNat) ++ [TY_NEWLINE]

/-- No name is too long, and each is mounted: none of the complaints of `naminit` is printed. -/
theorem devnames_mounted (nametab : Nat → Nmentry) (tmpstr : Nat → UInt8) :
    (XinuStm32.naminit devnames nametab tmpstr).1.map NameTurn.outcome = List.replicate 5 (.mount OK) := rfl

/-- A turn of the loop of `naminit`. -/
def nameTurn (t : Board × (Nat → UInt8)) (device : Dentry) : Board × (Nat → UInt8) :=
  let (b, tmpstr) := t
  let (turn, names, tmpstr) := nameDevice device b.names tmpstr
  let b := b.onKernel (kprintf (nameLine turn.tmpstr device.dvnum))
  let (mask, kernel) := disable b.kernel
  ({ b with kernel := restore mask kernel, names }, tmpstr)

/-- `naminit`, with what is on its stack. -/
def naminit (tmpstr : Nat → UInt8) (b : Board) : Reply × Board :=
  let b := { b with names := { b.names with nnames := 0, ndevs := NDEVS } }
  reply OK (devnames.foldl nameTurn (b, tmpstr)).1

/-! ## The LED and the flash -/

/-- Pin 13. -/
def ledPin : UInt32 := 0x2000

/-- `hw_set_pin`. -/
def hwSetPin (state : UInt8) (b : Board) : Board :=
  { b with odr := (b.odr &&& ~~~ledPin) ||| ((state.toUInt32 &&& 1) <<< 13) }

/-- `hw_toggle_pin`. -/
def hwTogglePin (b : Board) : Board := { b with odr := b.odr ^^^ ((b.odr &&& ~~~ledPin) ||| ledPin) }

/-- `setLED`. -/
def setLED (c : UInt8) (b : Board) : Reply × Board := reply OK (b.hwSetPin c)

/-- `toggleLED`. -/
def toggleLED (b : Board) : Reply × Board := reply OK b.hwTogglePin

/-- `__disable_irq` at the start of a function of the driver of the flash, and `__enable_irq` at its end. -/
def irqs (b : Board) : Board := b.onKernel fun s => enable (disable s).2

/-- `initFlash`. -/
def initFlash (b : Board) : Reply × Board := reply OK { b.irqs with cardSize := 31250 }

/-- `flashControl`. -/
def flashControl (func : Int) (b : Board) : Reply × Board := reply (if func = 0 then b.cardSize.toNat else OK) b

/-- `flashRead`. -/
def flashRead (sector count : UInt32) (b : Board) : Reply × Board :=
  (⟨0, b.flash.diskRead sector count⟩, (irqs^[count.toNat] b).hwTogglePin)

/-- `flashWrite`. The functions that the driver calls mask and unmask as it does. -/
def flashWrite (buffer : Nat → UInt8) (sector count : UInt32) (b : Board) : Option (Reply × Board) :=
  (b.flash.diskWrite buffer sector count).map fun flash => reply 0 { (irqs^[count.toNat] b).hwTogglePin with flash }

/-! ## The calls -/

/-- What the calls have in common: `f` is the column of `devtab`. -/
def deviceCall (descrp : Int) (f : Device → Board → Option (Reply × Board)) (b : Board) : Option (Reply × Board) :=
  let (mask, kernel) := disable b.kernel
  let b := { b with kernel }
  match devtab descrp with
  | none => some (reply SYSERR (b.onKernel (restore mask)))
  | some device => (f device b).map fun (answer, b) => (answer, b.onKernel (restore mask))

/-- `nammap` never ends at the device it maps for. -/
theorem nammapLoop_found {fuel left : Nat} {s : Namespace} {namdev newdev : Int} {t t' : NameBuffers}
    (mapped : nammapLoop fuel s namdev left t = some (newdev, t')) : newdev ≠ namdev ∨ newdev = SYSERR := by
  induction left generalizing t with
  | zero =>
    cases mapped
    exact Or.inr rfl
  | succ left inductionHypothesis =>
    rw [nammapLoop] at mapped
    split at mapped
    · cases mapped
    · dsimp only at mapped
      split at mapped
      · next found =>
        cases mapped
        exact Or.inl found
      · exact inductionHypothesis mapped

theorem nammap_found {fuel : Nat} {s : Namespace} {name : Nat → UInt8} {namdev newdev : Int} {t t' : NameBuffers}
    (mapped : nammap fuel s name namdev t = some (newdev, t')) : newdev ≠ namdev ∨ newdev = SYSERR := by
  simp only [nammap] at mapped
  split at mapped
  · cases mapped
    exact Or.inr rfl
  · exact nammapLoop_found mapped

/-- `init`. What `initLED` configures is not here. -/
def init (descrp : Int) (tmpstr : Nat → UInt8) : Board → Option (Reply × Board) :=
  deviceCall descrp fun device b =>
    some (match device with
      | .console => b.ttyinit
      | .name => b.naminit tmpstr
      | .flash => b.initFlash
      | .nulldev | .led => b.ionull)

/-- `open` of a device that `namopen` finds, which is never `NAMESPACE`. No driver looks at the name or the mode. -/
def openFound (descrp : Int) : Board → Option (Reply × Board) :=
  deviceCall descrp fun device b =>
    match device with
    | .name => none
    | .console | .nulldev | .led | .flash => some b.ionull

/-- `namopen`, with what is in its buffers. -/
def namopen (fuel : Nat) (name : Nat → UInt8) (buffers : NameBuffers) (b : Board) : Option (Reply × Board) :=
  match nammap fuel b.names name namespaceDev buffers with
  | none => none
  | some (newdev, _) => if newdev = SYSERR then some (reply SYSERR b) else b.openFound newdev

/-- `open`. -/
def openDev (descrp : Int) (fuel : Nat) (name : Nat → UInt8) (buffers : NameBuffers) :
    Board → Option (Reply × Board) :=
  deviceCall descrp fun device b =>
    match device with
    | .name => b.namopen fuel name buffers
    | .console | .nulldev | .led | .flash => some b.ionull

/-- `close`. -/
def close (descrp : Int) : Board → Option (Reply × Board) :=
  deviceCall descrp fun device b =>
    some (match device with
      | .name => b.ioerr
      | .console | .nulldev | .led | .flash => b.ionull)

/-- `getc`. -/
def getc (others : Meanwhile) (descrp : Int) : Board → Option (Reply × Board) :=
  deviceCall descrp fun device b =>
    some (match device with
      | .console =>
        let (ch, b) := b.ttygetc others
        reply ch b
      | .name => b.ioerr
      | .nulldev | .led | .flash => b.ionull)

/-- `putc`. -/
def putc (others : Meanwhile) (descrp : Int) (ch : UInt8) : Board → Option (Reply × Board) :=
  deviceCall descrp fun device b =>
    some (match device with
      | .console => b.ttyputc others ch
      | .name => b.ioerr
      | .nulldev | .led | .flash => b.ionull)

/-- `read`. -/
def read (others : Meanwhile) (descrp : Int) (count : UInt32) : Board → Option (Reply × Board) :=
  deviceCall descrp fun device b =>
    some (match device with
      | .console => b.ttyread others count.toInt32
      | .name => b.ioerr
      | .nulldev | .led | .flash => b.ionull)

/-- `write`. -/
def write (others : Meanwhile) (descrp : Int) (buffer : Nat → UInt8) (count : UInt32) :
    Board → Option (Reply × Board) :=
  deviceCall descrp fun device b =>
    some (match device with
      | .console => b.ttywrite others buffer count.toInt32
      | .name => b.ioerr
      | .nulldev | .led | .flash => b.ionull)

/-- `seek`. -/
def seek (descrp : Int) : Board → Option (Reply × Board) := deviceCall descrp fun _ b => some b.ioerr

/-- `control`. -/
def control (others : Meanwhile) (descrp func : Int) : Board → Option (Reply × Board) :=
  deviceCall descrp fun device b =>
    some (match device with
      | .console => b.ttycontrol others func
      | .nulldev | .name => b.ioerr
      | .led => b.ionull
      | .flash => b.flashControl func)

/-- `set`. -/
def set (descrp : Int) (ch : UInt8) : Board → Option (Reply × Board) :=
  deviceCall descrp fun device b =>
    some (match device with
      | .led => b.setLED ch
      | .console | .nulldev | .name | .flash => b.ionull)

/-- `toggle`. -/
def toggle (descrp : Int) : Board → Option (Reply × Board) :=
  deviceCall descrp fun device b =>
    some (match device with
      | .led => b.toggleLED
      | .console | .nulldev | .name | .flash => b.ionull)

/-- `readSector`. Only the last row has an entry, and a call through a null pointer does not return. -/
def readSector (descrp : Int) (sector count : UInt32) : Board → Option (Reply × Board) :=
  deviceCall descrp fun device b =>
    match device with
    | .flash => some (b.flashRead sector count)
    | .console | .nulldev | .name | .led => none

/-- `writeSector`. -/
def writeSector (descrp : Int) (buffer : Nat → UInt8) (sector count : UInt32) : Board → Option (Reply × Board) :=
  deviceCall descrp fun device b =>
    match device with
    | .flash => b.flashWrite buffer sector count
    | .console | .nulldev | .name | .led => none

end Board

/-- `strncmp(...) != 0`, from the `i`th character on. -/
def differs (s p : Nat → UInt8) : Nat → Nat → Bool
  | 0, _ => false
  | n + 1, i => if s i = p i ∧ s i ≠ NULLCH then differs s p n (i + 1) else s i ≠ p i

/-- `getdev`: the first device whose name is not the given one. -/
def getdev (devname : Nat → UInt8) (s : Kernel) : Int × Kernel :=
  let (mask, s) := disable s
  match devnames.find? fun device => differs devname device.dvname 16 0 with
  | none => (SYSERR, restore mask s)
  | some device => (device.dvnum, restore mask s)

end XinuStm32
