import XinuStm32.Kernel.Semaphore

/-!
# Console input, `ttyinit.c`, `ttyhandle_in.c`, `ttygetc.c` and `ttyread.c`

The line discipline that the clock interrupt runs on each character the USB line delivers, and the
calls that read what it made available. A reading call may be switched out at each of its `wait`s, so
it is given by its parts between them.
-/

namespace XinuStm32

@[simp] abbrev TY_IBUFLEN : Int := 32
@[simp] abbrev TY_OBUFLEN : Int32 := 32
@[simp] abbrev TY_BACKSP : UInt8 := 8
@[simp] abbrev TY_BACKSP2 : UInt8 := 127
@[simp] abbrev TY_BELL : UInt8 := 7
@[simp] abbrev TY_EOFCH : UInt8 := 4
@[simp] abbrev TY_BLANK : UInt8 := 32
@[simp] abbrev TY_NEWLINE : UInt8 := 10
@[simp] abbrev TY_RETURN : UInt8 := 13
@[simp] abbrev TY_KILLCH : UInt8 := 21
@[simp] abbrev TY_UPARROW : UInt8 := 94
@[simp] abbrev TY_IMRAW : UInt8 := 82
@[simp] abbrev TY_IMCOOKED : UInt8 := 67
@[simp] abbrev TY_IMCBREAK : UInt8 := 75

/-- `kputc`: hand one byte to the USB endpoint, which retries until it is taken. -/
def kputc (c : UInt8) (s : Kernel) : Kernel :=
  let (mask, s) := disable s
  restore mask { s with output := s.output ++ [c] }

/-- `kprintf` of a text in which its arguments are put in. -/
def kprintf (text : List UInt8) (s : Kernel) : Kernel := text.foldl (fun s c => kputc c s) s

/-- `eputc`. -/
def eputc (ch : UInt8) (s : Kernel) : Kernel := kputc ch s

/-- `echoch`. -/
def echoch (ch : UInt8) (s : Kernel) : Kernel :=
  if (ch = TY_NEWLINE ∨ ch = TY_RETURN) ∧ s.tty.tyecrlf then
    eputc TY_NEWLINE (eputc TY_RETURN s)
  else if (ch < TY_BLANK ∨ ch = TY_BACKSP2) ∧ s.tty.tyevis then
    eputc (ch + 64) (eputc TY_UPARROW s)
  else eputc ch s

/-- Back over one echoed column. -/
def eraseColumn (s : Kernel) : Kernel :=
  let s := eputc TY_BACKSP s
  if s.tty.tyieback then eputc TY_BACKSP (eputc TY_BLANK s) else s

/-- A byte of a word in memory, the lowest first. -/
def byteOfWord (word : Int) (k : Nat) : UInt8 := UInt8.ofInt (word / 256 ^ k)

/-- The word with one of its bytes overwritten. -/
def setByteOfWord (word : Int) (k : Nat) (c : UInt8) : Int :=
  int32 (word + ((c.toNat : Int) - (byteOfWord word k).toNat) * 256 ^ k)

/-- The byte at a place counted from the start of `tyibuff`: behind the last slot lies `tyisem`. What lies behind that
word, the output pointers and their buffer, is not in this record. -/
def Ttycblk.byteAt (tty : Ttycblk) (place : Int) : UInt8 :=
  if TY_IBUFLEN ≤ place ∧ place < TY_IBUFLEN + 4 then byteOfWord tty.tyisem (place - TY_IBUFLEN).toNat
  else tty.tyibuff place

/-- A store to the byte at such a place. -/
def Ttycblk.storeAt (place : Int) (c : UInt8) (tty : Ttycblk) : Ttycblk :=
  if TY_IBUFLEN ≤ place ∧ place < TY_IBUFLEN + 4 then
    { tty with tyisem := setByteOfWord tty.tyisem (place - TY_IBUFLEN).toNat c }
  else { tty with tyibuff := Function.update tty.tyibuff place c }

theorem Ttycblk.byteAt_inside {tty : Ttycblk} {place : Int} (inside : place < TY_IBUFLEN) :
    tty.byteAt place = tty.tyibuff place :=
  if_neg fun behind => Int.not_le.mpr inside behind.1

theorem Ttycblk.storeAt_inside {tty : Ttycblk} {place : Int} (inside : place < TY_IBUFLEN) (c : UInt8) :
    tty.storeAt place c = { tty with tyibuff := Function.update tty.tyibuff place c } :=
  if_neg fun behind => Int.not_le.mpr inside behind.1

/-- `erase1`. -/
def erase1 (s : Kernel) : Kernel :=
  let tail := s.tty.tyitail - 1
  let tail := if tail < 0 then tail + TY_IBUFLEN else tail
  let s := { s with tty := { s.tty with tyitail := tail } }
  let ch := s.tty.byteAt tail
  if s.tty.tyiecho then
    if ch < TY_BLANK ∨ ch = TY_BACKSP2 then
      let s := if s.tty.tyevis then eraseColumn s else s
      eraseColumn s
    else eraseColumn s
  else s

/-- `*typtr->tyitail++ = ch`, without the wrap that follows it. -/
def storeChar (ch : UInt8) (s : Kernel) : Kernel :=
  { s with tty := { s.tty.storeAt s.tty.tyitail ch with tyitail := s.tty.tyitail + 1 } }

/-- Wrap the tail pointer at the end of the buffer. -/
def wrapTail (s : Kernel) : Kernel :=
  if s.tty.tyitail ≥ TY_IBUFLEN then { s with tty := { s.tty with tyitail := 0 } } else s

/-- The characters available: the input semaphore's count, zero when processes wait on it. -/
def availChars (s : Kernel) : Int × Kernel :=
  let (avail, s) := semcount s.tty.tyisem s
  (if avail < 0 then 0 else avail, s)

/-- The part of `ttyhandle_in` for cooked mode. -/
def ttyhandleInCooked (ch : UInt8) (s : Kernel) : Kernel :=
  if ch = s.tty.tyikillc ∧ s.tty.tyikill then
    let tail := s.tty.tyitail - s.tty.tyicursor
    let tail := if tail < 0 then tail + TY_IBUFLEN else tail
    let s := { s with tty := { s.tty with tyitail := tail, tyicursor := 0 } }
    eputc TY_NEWLINE (eputc TY_RETURN s)
  else if (ch = s.tty.tyierasec ∨ ch = s.tty.tyierasec2) ∧ s.tty.tyierase then
    if s.tty.tyicursor > 0 then
      erase1 { s with tty := { s.tty with tyicursor := s.tty.tyicursor - 1 } }
    else s
  else if ch = TY_NEWLINE ∨ ch = TY_RETURN then
    let s := if s.tty.tyiecho then echoch ch s else s
    let s := wrapTail (storeChar ch s)
    let (_, s) := signaln s.tty.tyisem (Int32.ofInt (s.tty.tyicursor + 1)) s
    { s with tty := { s.tty with tyicursor := 0 } }
  else
    let (avail, s) := availChars s
    if avail + s.tty.tyicursor ≥ TY_IBUFLEN - 1 then eputc s.tty.tyifullc s
    else if ch = s.tty.tyeofch ∧ s.tty.tyeof then
      let s := if s.tty.tyiecho then echoch ch s else s
      if s.tty.tyicursor ≠ 0 then s
      else
        let s := storeChar ch s
        (signal s.tty.tyisem s).2
    else
      let s := if s.tty.tyiecho then echoch ch s else s
      let s := { s with tty := { s.tty with tyicursor := s.tty.tyicursor + 1 } }
      wrapTail (storeChar ch s)

/-- `ttyhandle_in`. -/
def ttyhandleIn (c : UInt8) (s : Kernel) : Kernel :=
  let (avail, s) := availChars s
  if s.tty.tyimode = TY_IMRAW then
    if avail ≥ TY_IBUFLEN then s
    else
      let s := wrapTail (storeChar c s)
      (signal s.tty.tyisem s).2
  else
    let ch := if c = TY_RETURN ∧ s.tty.tyicrlf then TY_NEWLINE else c
    let s := { s with tty := { s.tty with tyoheld := false } }
    if s.tty.tyimode = TY_IMCBREAK then
      if avail ≥ TY_IBUFLEN then eputc s.tty.tyifullc s
      else
        let s := wrapTail (storeChar ch s)
        let s := if s.tty.tyiecho then echoch ch s else s
        (signal s.tty.tyisem s).2
    else ttyhandleInCooked ch s

/-! ## Reading -/

@[simp] abbrev EOF : Int := -2

/-- `ttygetc` behind its `wait`: extract one character, then look for the end-of-file character. -/
def ttygetcTake (s : Kernel) : Int × Kernel :=
  let ch := s.tty.tyibuff s.tty.tyihead
  let head := s.tty.tyihead + 1
  let head := if head ≥ TY_IBUFLEN then 0 else head
  let s := { s with tty := { s.tty with tyihead := head } }
  if s.tty.tyimode = TY_IMCOOKED ∧ s.tty.tyeof ∧ ch = s.tty.tyeofch then (EOF, s)
  else (ch.toNat, s)

/-- What a call of `ttyread` is going to read: a number of characters, or up to that many of a line. -/
inductive ReadPlan where
  | error
  | chars (count : Int)
  | line (count : Int)
  deriving DecidableEq

/-- `ttyread` before its first `ttygetc`. -/
def ttyreadPlan (count : Int32) (s : Kernel) : ReadPlan × Kernel :=
  if count.toInt < 0 then (.error, s)
  else if s.tty.tyimode ≠ TY_IMCOOKED then
    if count = 0 then
      let (avail, s) := semcount s.tty.tyisem s
      (.chars avail, s)
    else (.chars count.toInt, s)
  else (.line count.toInt, s)

/-- Where `ttyread` is behind a `ttygetc`: it calls it again, returns the number of characters it
stored, or returns `EOF`. -/
inductive ReadNext where
  | again (buff : List UInt8)
  | nread (buff : List UInt8)
  | eof
  deriving DecidableEq

/-- `ttyread` behind a `ttygetc` that returned `got`; `buff` is what it stored so far. -/
def ttyreadNext (plan : ReadPlan) (buff : List UInt8) (got : Int) : ReadNext :=
  let ch := UInt8.ofInt got
  match plan with
  | .error => .nread buff
  | .chars count =>
    let buff := buff ++ [ch]
    if buff.length < count then .again buff else .nread buff
  | .line count =>
    if buff = [] ∧ got = EOF then .eof
    else
      let buff := buff ++ [ch]
      if buff.length < count ∧ ch ≠ TY_NEWLINE ∧ ch ≠ TY_RETURN then .again buff else .nread buff

/-! ## The interrupt handler and initialization -/

/-- The receive path of `ttyhandler`. -/
def ttyhandler (c : UInt8) (s : Kernel) : Kernel :=
  let s := ttyhandleIn c s
  (yield s).2

/-- `TIM2_Handler`; `rx` is the character `usb_getc` returns when `usb_available` is true. -/
def tim2Handler (rx : Option UInt8) (s : Kernel) : Kernel :=
  let s :=
    match rx with
    | some c => ttyhandler c s
    | none => s
  clockTick s

/-- `ttyinit`, the fields of `Ttycblk`. -/
def ttyinit (s : Kernel) : Kernel :=
  let (isem, s) := semcreate 0 s
  let (osem, s) := semcreate TY_OBUFLEN s
  { s with tty := { s.tty with
      tyihead := 0
      tyitail := 0
      tyisem := isem
      tyosem := osem
      tyimode := TY_IMCOOKED
      tyiecho := true
      tyieback := true
      tyevis := true
      tyecrlf := true
      tyicrlf := true
      tyierase := true
      tyierasec := TY_BACKSP
      tyierasec2 := TY_BACKSP2
      tyeof := true
      tyeofch := TY_EOFCH
      tyikill := true
      tyikillc := TY_KILLCH
      tyicursor := 0
      tyoheld := false
      tyifullc := TY_BELL } }

end XinuStm32
