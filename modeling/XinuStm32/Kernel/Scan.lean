import XinuStm32.Kernel.Format

/-!
# The scanner, `doscan.c`

`getch` and `ungetch` are the caller's, as is what they read from. The format is the list of its characters up to the
NUL, and what is stored is kept as the list of the stores. `none` stands for an access outside `numbuf`, `_sctab`,
`_ctype_` or the format, and for a loop over blanks that has not ended within its fuel.
-/

namespace XinuStm32.Scan

open Format (readFlag numberLoop)

def EOF : Int := -2

def SPC : UInt8 := 1

def STP : UInt8 := 2

/-- A character as an `int`. -/
def code (c : Char) : Int := c.toNat

/-- `getch` and `ungetch`, with `arg1` and `arg2` applied. -/
structure Input (σ : Type*) where
  getch : σ → Int × σ
  ungetch : σ → σ

inductive Size where
  | short | regular | long
  deriving DecidableEq

/-- A store through a pointer among the arguments. -/
inductive Store where
  | short (address : UInt32) (value : UInt16)
  | word (address value : UInt32)
  | text (address : UInt32) (chars : List UInt8)
  deriving DecidableEq

variable {σ : Type*}

/-- `(char) getch(arg1, arg2)`; a `char` has no sign. -/
def Input.char (input : Input σ) (s : σ) : Int × σ := ((input.getch s).1 % 256, (input.getch s).2)

def isBlank (c : Int) : Bool := c == code ' ' || c == code '\t' || c == code '\n'

/-- The loops over blanks. -/
def skipBlanks (read : σ → Int × σ) : Nat → σ → Option (Int × σ)
  | 0, _ => none
  | fuel + 1, s => if isBlank (read s).1 then skipBlanks read fuel (read s).2 else some (read s)

/-- What `_innum` and `_instr` return, store and leave. -/
structure Scanned (σ : Type*) where
  found : Bool
  stores : List Store
  s : σ
  ended : Bool

/-! ## Numbers -/

def isDigit (c : Int) : Bool := code '0' ≤ c && c ≤ code '9'

/-- `('a' <= c && c <= 'f') || ('A' <= c && c <= 'F')`. -/
def isLetter (c : Int) : Bool := code 'a' ≤ c && c ≤ code 'f' || code 'A' ≤ c && c ≤ code 'F'

/-- The condition of the loop over the digits. Outside `_ctype_` the letters decide. -/
def accepts (base : Nat) (c : Int) : Bool := (isDigit c || base == 16) && isLetter c

def shiftIn (base : Nat) (lcval : UInt32) : UInt32 :=
  if base = 8 then lcval <<< 3 else if base = 10 then (lcval <<< 2 + lcval) <<< 1 else lcval <<< 4

def digitValue (c : Int) : Int :=
  if isDigit c then c - code '0'
  else if code 'a' ≤ c && c ≤ code 'f' then c - (code 'a' - 10)
  else c - (code 'A' - 10)

/-- The variables of the loop; `np` counts the characters in `numbuf`. -/
structure Digits (σ : Type*) where
  c : Int
  np : Nat
  lcval : UInt32
  s : σ

/-- The loop over the digits, with the rounds that `len` allows. -/
def digitLoop (input : Input σ) (base : Nat) : Nat → Digits σ → Option (Digits σ)
  | 0, digits => some digits
  | len + 1, digits =>
    if accepts base digits.c then
      if 64 ≤ digits.np then none
      else
        digitLoop input base len
          ⟨(input.char digits.s).1, digits.np + 1, shiftIn base digits.lcval + UInt32.ofInt (digitValue digits.c),
            (input.char digits.s).2⟩
    else some digits

def storeNumber (size : Size) (address lcval : UInt32) : Store :=
  match size with
  | .short => .short address lcval.toUInt16
  | .regular => .word address lcval
  | .long => .word address lcval

/-- From behind the loop over the digits to the end of `_innum`. -/
def finish (input : Input σ) (address : Option UInt32) (size : Size) (negflg : Bool) (digits : Digits σ) :
    Option (Scanned σ) :=
  let lcval := if negflg then -digits.lcval else digits.lcval
  let (s, ended) := if digits.c ≠ EOF then (input.ungetch digits.s, false) else (digits.s, true)
  if digits.np = 0 then some ⟨false, [], s, ended⟩
  else
    match address with
    | none => some ⟨false, [], s, ended⟩
    | some address => if 64 ≤ digits.np then none else some ⟨true, [storeNumber size address lcval], s, ended⟩

def baseOf (type : UInt8) : Nat := if type = ch 'o' then 8 else if type = ch 'x' then 16 else 10

/-- `_innum` without its strings; `address` is `*ptr`. -/
def innum (input : Input σ) (fuel : Nat) (address : Option UInt32) (type : UInt8) (len : Int) (size : Size) (s : σ) :
    Option (Scanned σ) :=
  (skipBlanks input.char fuel s).bind fun (c, s) =>
    let negflg := c == code '-'
    let digits : Digits σ := ⟨c, if negflg then 1 else 0, 0, s⟩
    let (digits, len) :=
      if negflg || c == code '+' then
        ({ digits with c := (input.char s).1, s := (input.char s).2 }, int32 (len - 1))
      else (digits, len)
    (digitLoop input (baseOf type) len.toNat digits).bind (finish input address size negflg)

/-! ## Strings -/

/-- `_sctab[ch] & ignstp`; without flags it is zero wherever it is read. -/
def flagged (sctab : Nat → UInt8) (c : Int) (ignstp : UInt8) : Option Bool :=
  if ignstp = 0 then some false
  else if 0 ≤ c ∧ c < 128 then some (sctab c.toNat &&& ignstp != 0)
  else none

/-- The first loop of `_instr`. -/
def skipFlagged (input : Input σ) (sctab : Nat → UInt8) (ignstp : UInt8) : Nat → σ → Option (Int × σ)
  | 0, _ => none
  | fuel + 1, s =>
    (flagged sctab (input.getch s).1 ignstp).bind fun skip =>
      if skip then
        if (input.getch s).1 = EOF then some (input.getch s)
        else skipFlagged input sctab ignstp fuel (input.getch s).2
      else some (input.getch s)

/-- The variables of the second loop. -/
structure Chars (σ : Type*) where
  c : Int
  stored : List UInt8
  len : Int
  s : σ

def charLoop (input : Input σ) (sctab : Nat → UInt8) (ignstp : UInt8) : Nat → Chars σ → Option (Chars σ)
  | 0, _ => none
  | fuel + 1, chars =>
    if chars.c = EOF then some chars
    else
      (flagged sctab chars.c ignstp).bind fun stop =>
        if stop then some chars
        else
          let stored := chars.stored ++ [UInt8.ofInt chars.c]
          let len := int32 (chars.len - 1)
          if len ≤ 0 then some { chars with stored := stored, len := len }
          else charLoop input sctab ignstp fuel ⟨(input.getch chars.s).1, stored, len, (input.getch chars.s).2⟩

/-- `_instr`; `ptr` is 0 where the pointer is `NULL`. -/
def instr (input : Input σ) (sctab : Nat → UInt8) (fuel : Nat) (ptr : UInt32) (type : UInt8) (len : Int) (s : σ) :
    Option (Scanned σ) :=
  let len := if type = ch 'c' ∧ len = 30000 then 1 else len
  (skipFlagged input sctab (if type = ch 's' then SPC else 0) fuel s).bind fun (c, s) =>
    let ignstp := if type = ch 'c' then 0 else if type = ch '[' then STP else SPC
    (charLoop input sctab ignstp fuel ⟨c, [], len, s⟩).bind fun chars =>
      let s := if chars.c ≠ EOF ∧ chars.len > 0 then input.ungetch chars.s else chars.s
      let stored := if type ≠ ch 'c' then chars.stored ++ [0] else chars.stored
      if ptr ≠ 0 ∧ chars.stored ≠ [] then some ⟨true, [.text ptr stored], s, chars.c == EOF⟩
      else some ⟨false, [], s, chars.c == EOF⟩

/-! ## The format -/

def mark (set : Bool) (place : Nat) (sctab : Nat → UInt8) : Nat → UInt8 :=
  Function.update sctab place (if set then sctab place ||| STP else sctab place &&& ~~~STP)

/-- The second loop of `_getccl`. Its test for the NUL comes after `c++`. -/
def getcclLoop (t : Bool) : List UInt8 → (Nat → UInt8) → Option (List UInt8 × (Nat → UInt8))
  | [], _ => none
  | c :: s, sctab =>
    if c &&& 127 = ch ']' then some (s, sctab)
    else if 128 ≤ c then none
    else getcclLoop t s (mark t c.toNat sctab)

/-- `_getccl`. -/
def getccl (s : List UInt8) (sctab : Nat → UInt8) : Option (List UInt8 × (Nat → UInt8)) :=
  let (t, s) := readFlag (ch '^') s
  getcclLoop t s fun c => if c < 128 then (if t then sctab c &&& ~~~STP else sctab c ||| STP) else sctab c

/-- `*`, the width and the size; the format that is left begins with the conversion character. -/
structure Directive where
  suppressed : Bool
  len : Int
  size : Size
  fmt : List UInt8
  sctab : Nat → UInt8

def readDirective (sctab : Nat → UInt8) (fmt : List UInt8) : Option Directive :=
  let (suppressed, fmt) := readFlag (ch '*') fmt
  let (len, fmt) := numberLoop 0 fmt
  let len := if len = 0 then 30000 else len
  if fmt.head? = some (ch 'l') then some ⟨suppressed, len, .long, fmt.tail, sctab⟩
  else if fmt.head? = some (ch 'h') then some ⟨suppressed, len, .short, fmt.tail, sctab⟩
  else if fmt.head? = some (ch '[') then
    (getccl fmt.tail sctab).map fun (fmt, sctab) => ⟨suppressed, len, .regular, ch '[' :: fmt, sctab⟩
  else some ⟨suppressed, len, .regular, fmt, sctab⟩

/-- What a call works on and returns. -/
structure State (σ : Type*) where
  nmatch : Int
  argp : Nat
  stores : List Store
  sctab : Nat → UInt8
  s : σ

/-- The call of `_innum` for a conversion character that is no capital letter. -/
def convert (input : Input σ) (sctab : Nat → UInt8) (fuel : Nat) (address : Option UInt32) (type : UInt8) (len : Int)
    (size : Size) (s : σ) : Option (Scanned σ) :=
  if type = ch 'c' ∨ type = ch 's' ∨ type = ch '[' then instr input sctab fuel (address.getD 0) type len s
  else innum input fuel address type len size s

/-- The default case of the `switch`: the value to return, if the characters differ. -/
def literal (input : Input σ) (c : UInt8) (scan : State σ) : Option Int × σ :=
  if (input.getch scan.s).1 = c.toNat then (none, (input.getch scan.s).2)
  else if (input.getch scan.s).1 = EOF then (some (-1), (input.getch scan.s).2)
  else (some scan.nmatch, input.ungetch (input.getch scan.s).2)

/-- The loop of `_doscan`. Every round takes a character of the format. -/
def doscanLoop (input : Input σ) (args : Nat → UInt32) (fuel : Nat) :
    Nat → List UInt8 → State σ → Option (Int × State σ)
  | 0, _, _ => none
  | _ + 1, [], scan => some (scan.nmatch, scan)
  | rounds + 1, c :: fmt, scan =>
    if c = ch '%' ∧ fmt.head? ≠ some (ch '%') then
      (readDirective scan.sctab fmt).bind fun directive =>
        match directive.fmt with
        | [] => some (-1, { scan with sctab := directive.sctab })
        | type :: fmt =>
          if 128 ≤ type then none
          else
            let upper := decide (ch 'A' ≤ type ∧ type ≤ ch 'Z')
            let address := if directive.suppressed then none else some (args scan.argp)
            (convert input directive.sctab fuel address (if upper then type - ch 'A' + ch 'a' else type) directive.len
                (if upper then .long else directive.size) scan.s).bind fun scanned =>
              let scan : State σ :=
                { nmatch := if scanned.found ∧ ¬directive.suppressed then scan.nmatch + 1 else scan.nmatch
                  argp := if directive.suppressed then scan.argp else scan.argp + 1
                  stores := scan.stores ++ scanned.stores
                  sctab := directive.sctab
                  s := scanned.s }
              if scanned.ended then some (if scan.nmatch ≠ 0 then scan.nmatch else -1, scan)
              else doscanLoop input args fuel rounds fmt scan
    else if c = ch ' ' ∨ c = ch '\n' ∨ c = ch '\t' then
      (skipBlanks input.getch fuel scan.s).bind fun (ch1, s) =>
        doscanLoop input args fuel rounds fmt { scan with s := if ch1 ≠ EOF then input.ungetch s else s }
    else
      match literal input c scan with
      | (some returned, s) => some (returned, { scan with s := s })
      | (none, s) => doscanLoop input args fuel rounds (if c = ch '%' then fmt.tail else fmt) { scan with s := s }

/-- `_doscan`; `args` are the pointers at `argp`. -/
def doscan (input : Input σ) (sctab : Nat → UInt8) (fuel : Nat) (fmt : List UInt8) (args : Nat → UInt32) (s : σ) :
    Option (Int × State σ) :=
  doscanLoop input args fuel (fmt.length + 1) fmt ⟨0, 0, [], sctab, s⟩

/-- `_sctab` as it is initialized. -/
def initialSctab (c : Nat) : UInt8 := if c = 9 ∨ c = 10 ∨ c = 32 then SPC else 0

end XinuStm32.Scan
