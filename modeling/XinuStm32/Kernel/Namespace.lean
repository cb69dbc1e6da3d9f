import XinuStm32.Kernel.Lexan
import XinuStm32.Kernel.Tables

/-!
# The syntactic namespace, `mount.c`, `nammap.c` and `naminit.c`

A `char *` is the bytes from where it points on, and a buffer likewise: its size is not in it. The comparison with a
prefix goes on until the prefix ends, wherever that is; `fuel` bounds it.
-/

namespace XinuStm32

@[simp] abbrev NM_PRELEN : Nat := 16
@[simp] abbrev NM_REPLLEN : Nat := 1
@[simp] abbrev NM_MAXLEN : Nat := 16
@[simp] abbrev NNAMES : Int := 5

/-- `struct nmentry`. -/
structure Nmentry where
  nprefixStr : Nat → UInt8
  nreplace : Nat → UInt8
  ndevice : Int

/-- `nametab`, `nnames`, and the number `NDEVS` of the devices, which the generated device table comes with. -/
structure Namespace where
  nametab : Nat → Nmentry
  nnames : Int
  ndevs : Int

/-- `isbaddev`. -/
def Namespace.isbaddev (device : Int) (s : Namespace) : Prop := device < 0 ∨ device ≥ s.ndevs

instance decidableIsbaddevOf (device : Int) (s : Namespace) : Decidable (s.isbaddev device) :=
  inferInstanceAs (Decidable (_ ∨ _))

/-! ## `mount.c` -/

def namlenLoop (name : Nat → UInt8) : Nat → Nat → Int
  | 0, _ => SYSERR
  | left + 1, i => if name i = NULLCH then i + 1 else namlenLoop name left (i + 1)

/-- `namlen`. -/
def namlen (name : Nat → UInt8) (maxlen : Nat) : Int := namlenLoop name maxlen 0

/-- The loops that copy so many bytes, each from where its source and its target have come to. -/
def copyBytes (src : Nat → UInt8) : Nat → Nat → Nat → (Nat → UInt8) → Nat → UInt8
  | 0, _, _, buf => buf
  | left + 1, sptr, dptr, buf => copyBytes src left (sptr + 1) (dptr + 1) (Function.update buf dptr (src sptr))

/-- `mount`. -/
def mount (nprefixStr replace : Nat → UInt8) (device : Int) (s : Namespace) : Int × Namespace :=
  let psiz := namlen nprefixStr NM_PRELEN
  let rsiz := namlen replace NM_REPLLEN
  if psiz = SYSERR ∨ rsiz = SYSERR ∨ s.isbaddev device ∨ s.nnames ≥ NNAMES then (SYSERR, s)
  else
    let entry := s.nametab s.nnames.toNat
    let entry := { entry with nprefixStr := copyBytes nprefixStr psiz.toNat 0 0 entry.nprefixStr }
    let entry := { entry with nreplace := copyBytes replace rsiz.toNat 0 0 entry.nreplace }
    let entry := { entry with ndevice := device }
    (OK, { s with nametab := Function.update s.nametab s.nnames.toNat entry, nnames := s.nnames + 1 })

/-! ## `nammap.c` -/

def namcpyLoop (oldname : Nat → UInt8) : Nat → Nat → (Nat → UInt8) → Int × (Nat → UInt8)
  | 0, _, newname => (SYSERR, newname)
  | left + 1, cnt, newname =>
    let newname := Function.update newname cnt (oldname cnt)
    if oldname cnt = NULLCH then (OK, newname) else namcpyLoop oldname left (cnt + 1) newname

/-- `namcpy`, with what it leaves in the buffer. -/
def namcpy (newname oldname : Nat → UInt8) (buflen : Nat) : Int × (Nat → UInt8) := namcpyLoop oldname buflen 0 newname

/-- "Compare prefix to string and count prefix size": the count with which the loop ends. -/
def comparePrefix (nprefixStr name : Nat → UInt8) : Nat → Nat → Option Nat
  | 0, _ => none
  | fuel + 1, plen =>
    if nprefixStr plen = NULLCH then some plen
    else if nprefixStr plen ≠ name plen then some plen
    else comparePrefix nprefixStr name fuel (plen + 1)

/-- The part of `namrepl` behind a match, with what it leaves in `newname`. A `char` is not signed. -/
def substitute (entry : Nmentry) (name newname : Nat → UInt8) (plen : Nat) : Int × (Nat → UInt8) :=
  let olen := namlen name NM_MAXLEN % 256
  let rlen := namlen entry.nreplace NM_MAXLEN - 1
  let remain := olen - plen
  if rlen + remain > NM_MAXLEN then (SYSERR, newname)
  else
    let newname := copyBytes entry.nreplace rlen.toNat 0 0 newname
    let newname := copyBytes name remain.toNat plen rlen.toNat newname
    (entry.ndevice, newname)

/-- The loop of `namrepl` over the entries that are left. -/
def namreplLoop (fuel : Nat) (s : Namespace) (name newname : Nat → UInt8) : Nat → Nat → Option (Int × (Nat → UInt8))
  | 0, _ => some (SYSERR, newname)
  | left + 1, i =>
    match comparePrefix (s.nametab i).nprefixStr name fuel 0 with
    | none => none
    | some plen =>
      if (s.nametab i).nprefixStr plen ≠ NULLCH then namreplLoop fuel s name newname left (i + 1)
      else some (substitute (s.nametab i) name newname plen)

/-- `namrepl`. -/
def namrepl (fuel : Nat) (s : Namespace) (name newname : Nat → UInt8) : Option (Int × (Nat → UInt8)) :=
  namreplLoop fuel s name newname s.nnames.toNat 0

/-- The two buffers of `nammap`. -/
structure NameBuffers where
  tmpname : Nat → UInt8
  newname : Nat → UInt8

/-- The loop of `nammap`, with the iterations that are left. -/
def nammapLoop (fuel : Nat) (s : Namespace) (namdev : Int) : Nat → NameBuffers → Option (Int × NameBuffers)
  | 0, t => some (SYSERR, t)
  | left + 1, t =>
    match namrepl fuel s t.tmpname t.newname with
    | none => none
    | some (newdev, newname) =>
      let t := { t with newname }
      if newdev ≠ namdev then some (newdev, t)
      else nammapLoop fuel s namdev left { t with tmpname := (namcpy t.tmpname t.newname NM_MAXLEN).2 }

/-- `nammap`, with what it leaves in the buffers; `none` when `fuel` is not enough. -/
def nammap (fuel : Nat) (s : Namespace) (name : Nat → UInt8) (namdev : Int) (t : NameBuffers) :
    Option (Int × NameBuffers) :=
  let (copied, tmpname) := namcpy t.tmpname name NM_MAXLEN
  let t := { t with tmpname }
  if copied = SYSERR then some (SYSERR, t) else nammapLoop fuel s namdev s.nnames.toNat t

/-! ## `naminit.c` -/

/-- What `naminit` reads of an entry of `devtab`. -/
structure Dentry where
  dvnum : Int
  dvname : Nat → UInt8

/-- How the turn of a device ends: with the message that its name is too long, or with what `mount` returned. -/
inductive NameOutcome where
  | tooLong
  | mount (retval : Int)
  deriving DecidableEq

/-- The turn of a device: the `tmpstr` that is printed, and then mounted unless the name is too long. -/
structure NameTurn where
  tmpstr : Nat → UInt8
  outcome : NameOutcome

/-- `"/dev/"`. -/
def devprefixStr : List UInt8 := [0x2F, 0x64, 0x65, 0x76, 0x2F]

/-- "Copy prefix into tmpstr": the length, which is also where its zero stands. -/
def copyPrefix : List UInt8 → Nat → (Nat → UInt8) → Nat × (Nat → UInt8)
  | [], len, tmpstr => (len, Function.update tmpstr len NULLCH)
  | ch :: rest, len, tmpstr => copyPrefix rest (len + 1) (Function.update tmpstr len ch)

/-- A letter from `A` to `Z` becomes a small one. -/
def lowerCase (ch : UInt8) : UInt8 := if 0x41 ≤ ch ∧ ch ≤ 0x5A then ch + 0x20 else ch

/-- "Map device name to lower case and append", with the turns that `len` still permits. -/
def appendName (dvname : Nat → UInt8) : Nat → Nat → Nat → Nat → (Nat → UInt8) → Nat × (Nat → UInt8)
  | 0, len, _, _, tmpstr => (len + 1, tmpstr)
  | left + 1, len, nptr, tptr, tmpstr =>
    let ch := lowerCase (dvname nptr)
    let tmpstr := Function.update tmpstr tptr ch
    if ch = NULLCH then (len + 1, tmpstr) else appendName dvname left (len + 1) (nptr + 1) (tptr + 1) tmpstr

/-- The body of the loop of `naminit`. -/
def nameDevice (device : Dentry) (s : Namespace) (tmpstr : Nat → UInt8) : NameTurn × Namespace × (Nat → UInt8) :=
  let (len, tmpstr) := copyPrefix devprefixStr 0 tmpstr
  let (len, tmpstr) := appendName device.dvname (NM_MAXLEN - 1 - len) len 0 len tmpstr
  if len > NM_MAXLEN then (⟨tmpstr, .tooLong⟩, s, tmpstr)
  else
    let (retval, s) := mount tmpstr (fun _ => NULLCH) device.dvnum s
    (⟨tmpstr, .mount retval⟩, s, tmpstr)

/-- The loop of `naminit` over the devices that are left. -/
def naminitLoop : List Dentry → Namespace → (Nat → UInt8) → List NameTurn × Namespace × (Nat → UInt8)
  | [], s, tmpstr => ([], s, tmpstr)
  | device :: devices, s, tmpstr =>
    let (turn, s, tmpstr) := nameDevice device s tmpstr
    let (turns, s, tmpstr) := naminitLoop devices s tmpstr
    (turn :: turns, s, tmpstr)

/-- `naminit`, with its turns and with what was in the table and is on its stack. -/
def naminit (devtab : List Dentry) (nametab : Nat → Nmentry) (tmpstr : Nat → UInt8) :
    List NameTurn × Namespace × (Nat → UInt8) :=
  naminitLoop devtab { nametab, nnames := 0, ndevs := devtab.length } tmpstr

end XinuStm32
