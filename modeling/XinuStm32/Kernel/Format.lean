import XinuStm32.Kernel.Tables
import XinuStm32.Lib.Numerals

/-!
# The formatters, `doprnt.c`, `fdoprnt.c` and `sprintf.c`

A format is the list of its characters up to the NUL, `text` gives the characters of the string at an address, and
what the output function is called with is a list. All arguments are passed as 4 bytes; `long` is an `Int` with 32-bit
wrap-around, so that `&` with a mask of low bits is `%` and `>>` is the arithmetic shift. Of the buffer `string` only
the characters up to its first NUL are kept, since every conversion stores from its start and ends with a NUL. How many
bytes a conversion stores is kept too: behind the twenty of the buffer lie other variables of the stack.
-/

namespace XinuStm32

open Numerals (unpadded)

/-- A character literal. -/
def ch (c : Char) : UInt8 := UInt8.ofNat c.toNat

/-- `va_list`: the arguments not taken so far. -/
abbrev VaList := Nat → UInt32

/-- The arguments behind the next one. -/
def VaList.behind (ap : VaList) : VaList := fun n => ap (n + 1)

/-- An argument taken as an `int` or a `long`. -/
def long (word : UInt32) : Int := int32 word.toNat

/-- The characters before the NUL. -/
def cString (stored : List UInt8) : List UInt8 := stored.takeWhile (· ≠ 0)

namespace Format

@[simp] abbrev MAXSTR : Int := 80

/-- `char string[20]`. -/
def stringSize : Nat := 20

/-! ## The converters -/

/-- The end of every converter: what `*str++` stores of `temp`, given from `temp[1]` on. The index stops at the highest
digit that is not `'0'`, or at 1, and then goes down to the NUL in `temp[0]`. -/
def fromTemp (temp : List UInt8) : List UInt8 := unpadded (ch '0') temp.reverse ++ [0]

/-- The loop of the converters that shift. -/
def shiftLoop (symbol : Int → UInt8) (bits : Nat) : Nat → Int → List UInt8
  | 0, _ => []
  | count + 1, num => symbol num :: shiftLoop symbol bits count (num >>> bits)

/-- `(num & 07) + '0'`. -/
def octalSymbol (num : Int) : UInt8 := UInt8.ofInt (num % 8) + ch '0'

/-- `temp[11] &= '3'`. -/
def maskLast (temp : List UInt8) : List UInt8 := temp.modify 10 (· &&& ch '3')

def prtl8 (num : Int) : List UInt8 := fromTemp (maskLast (shiftLoop octalSymbol 3 11 num))

/-- `table[num & 0x0F]`. -/
def tableSymbol (table : List Char) (num : Int) : UInt8 := ch (table.getD (num % 16).toNat '0')

def prtl16 (num : Int) : List UInt8 := fromTemp (shiftLoop (tableSymbol "0123456789abcdef".toList) 4 8 num)

def prtX16 (num : Int) : List UInt8 := fromTemp (shiftLoop (tableSymbol "0123456789ABCDEF".toList) 4 8 num)

def binarySymbol (num : Int) : UInt8 := if num.tmod 2 = 0 then ch '0' else ch '1'

def prtl2 (num : Int) : List UInt8 := fromTemp (shiftLoop binarySymbol 1 32 num)

/-- The loop of `_prtl10`: `temp[i] = num % 10 + '0'; num /= 10`. -/
def decimalLoop : Nat → Int → List UInt8
  | 0, _ => []
  | count + 1, num => UInt8.ofInt (num.tmod 10 + 48) :: decimalLoop count (num.tdiv 10)

/-- `_prtl10` of `doprnt.c`. -/
def doprntPrtl10 (num : Int) : List UInt8 :=
  let first := (if num < 0 then -num.tmod 10 else num.tmod 10) + 48
  fromTemp (UInt8.ofInt first :: decimalLoop 9 (num.tdiv (if num < 0 then -10 else 10)))

/-- `_prtl10` of `fdoprnt.c`. -/
def fdoprntPrtl10 (num : Int) : List UInt8 := fromTemp (decimalLoop 10 num)

/-- `while (larg < 0) { larg -= 1000000000L; ++digit1; }`: from no `long` are there more than three rounds. -/
def positiveLoop : Nat → Int → UInt8 → Int × UInt8
  | 0, larg, digit1 => (larg, digit1)
  | fuel + 1, larg, digit1 =>
    if larg < 0 then positiveLoop fuel (int32 (larg - 1000000000)) (digit1 + 1) else (larg, digit1)

/-- What the case for `%u` stores: `str[0] += digit1` after `_prtl10`. -/
def unsignedDigits (prtl10 : Int → List UInt8) (larg : Int) : List UInt8 :=
  let (larg, digit1) := positiveLoop 3 larg 0
  (prtl10 larg).modify 0 (· + digit1)

/-! ## The fields -/

/-- The local variables that a directive sets. -/
structure Spec where
  leftjust : Bool
  fill : UInt8
  fmin : Int
  fmax : Int

/-- `while ('0' <= *fmt && *fmt <= '9')`. -/
def numberLoop (value : Int) : List UInt8 → Int × List UInt8
  | [] => (value, [])
  | c :: fmt =>
    if ch '0' ≤ c ∧ c ≤ ch '9' then numberLoop (int32 (value * 10 + c.toNat - 48)) fmt else (value, c :: fmt)

/-- A field width or a precision: `*` takes it from the arguments. -/
def readExtent (ap : VaList) (fmt : List UInt8) : Int × VaList × List UInt8 :=
  if fmt.head? = some (ch '*') then (long (ap 0), ap.behind, fmt.tail)
  else
    let (value, fmt) := numberLoop 0 fmt
    (value, ap, fmt)

/-- A flag, if the format goes on with it. -/
def readFlag (flag : UInt8) (fmt : List UInt8) : Bool × List UInt8 :=
  if fmt.head? = some flag then (true, fmt.tail) else (false, fmt)

def readPrecision (ap : VaList) (fmt : List UInt8) : Int × VaList × List UInt8 :=
  if fmt.head? = some (ch '.') then readExtent ap fmt.tail else (0, ap, fmt)

/-- From behind the `%` to the conversion character. -/
def readSpec (ap : VaList) (fmt : List UInt8) : Spec × VaList × List UInt8 :=
  let (leftjust, fmt) := readFlag (ch '-') fmt
  let (zero, fmt) := readFlag (ch '0') fmt
  let (fmin, ap, fmt) := readExtent ap fmt
  let (fmax, ap, fmt) := readPrecision ap fmt
  (⟨leftjust, if zero then ch '0' else ch ' ', fmin, fmax⟩, ap, fmt)

/-- What the `switch` leaves: the characters it has output itself, those at `str` and in `string`, how many bytes it has
stored from the start of `string` on, and the variables. -/
structure Converted where
  echo : List UInt8
  str : List UInt8
  string : List UInt8
  stored : Nat
  sign : Bool
  fill : UInt8
  fmax : Int
  ap : VaList

/-- A case that has stored a number in `string`. -/
def number (stored : List UInt8) (sign : Bool) (fill : UInt8) (fmax : Int) (ap : VaList) : Converted :=
  ⟨[], cString stored, cString stored, stored.length, sign, fill, fmax, ap⟩

/-- `string` after a numeral at its start and one at `string + 8`. -/
def pairString (high low : List UInt8) : List UInt8 :=
  if (cString high).length < 8 then cString high else cString high ++ cString low

/-- The cases for `%H` and `%h`. -/
def pair (convert : Int → List UInt8) (fill : UInt8) (ap : VaList) : Converted :=
  let high := convert (long (ap 0))
  let low := convert (long (ap 1))
  let both := pairString high low
  ⟨[], both, both, max high.length (8 + low.length), false, fill, 0, ap.behind.behind⟩

/-- The cases that the two formatters write alike, without `%d`, and with `_prtl10` as a parameter. -/
def commonSwitch (prtl10 : Int → List UInt8) (text : UInt32 → List UInt8) (f fill : UInt8) (fmax : Int) (ap : VaList)
    (string : List UInt8) : Converted :=
  let larg := long (ap 0)
  if f = ch 'c' then
    let string := cString [(ap 0).toUInt8, 0]
    ⟨[], string, string, 2, false, ch ' ', 0, ap.behind⟩
  else if f = ch 's' then
    let str := if ap 0 = 0 then "(null)".toList.map ch else text (ap 0)
    ⟨[], str, string, 0, false, ch ' ', fmax, ap.behind⟩
  else if f = ch 'f' then ⟨[], string, string, 0, false, fill, fmax, ap⟩
  else if f = ch 'u' then number (unsignedDigits prtl10 larg) false fill 0 ap.behind
  else if f = ch 'o' then number (prtl8 larg) false fill 0 ap.behind
  else if f = ch 'X' then number (prtX16 larg) false fill 0 ap.behind
  else if f = ch 'x' then number (prtl16 larg) false fill 0 ap.behind
  else if f = ch 'b' then number (prtl2 larg) false fill 0 ap.behind
  else ⟨[f], string, string, 0, false, fill, fmax, ap⟩

/-- The `switch` of `_doprnt`. -/
def doprntSwitch (text : UInt32 → List UInt8) (f fill : UInt8) (fmax : Int) (ap : VaList) (string : List UInt8) :
    Converted :=
  let larg := long (ap 0)
  if f = ch 'd' then number (doprntPrtl10 larg) (decide (larg < 0)) fill fmax ap.behind
  else if f = ch 'H' then pair prtX16 fill ap
  else if f = ch 'h' then pair prtl16 fill ap
  else commonSwitch doprntPrtl10 text f fill fmax ap string

/-- The `switch` of `_fdoprnt`: `%d` negates before `_prtl10`. -/
def fdoprntSwitch (text : UInt32 → List UInt8) (f fill : UInt8) (fmax : Int) (ap : VaList) (string : List UInt8) :
    Converted :=
  let larg := long (ap 0)
  if f = ch 'd' then
    number (fdoprntPrtl10 (if larg < 0 then int32 (-larg) else larg)) (decide (larg < 0)) fill fmax ap.behind
  else commonSwitch fdoprntPrtl10 text f fill fmax ap string

/-- A width or precision out of range counts as none. -/
def checked (extent : Int) : Int := if extent > MAXSTR ∨ extent < 0 then 0 else extent

/-- What is output of `str` with `length` characters of it and `leading` fill characters. -/
def layout (leftjust sign : Bool) (fill : UInt8) (leading : Nat) (str : List UInt8) : List UInt8 :=
  (if sign ∧ fill = ch '0' then [ch '-'] else []) ++
    (if leftjust then [] else List.replicate leading fill) ++
    (if sign ∧ fill = ch ' ' then [ch '-'] else []) ++
    str ++
    (if leftjust then List.replicate leading fill else [])

/-- From the computation of `length` to the end of the loop's body. -/
def putField (leftjust : Bool) (fmin : Int) (converted : Converted) : List UInt8 :=
  let fmin := checked fmin
  let fmax := checked converted.fmax
  let length : Int := converted.str.length
  let length := if fmax ≠ 0 ∧ length > fmax then fmax else length
  let leading := if fmin ≠ 0 then fmin - length else 0
  let leading := if (fmax ≠ 0 ∨ fmin ≠ 0) ∧ converted.sign then leading - 1 else leading
  layout leftjust converted.sign converted.fill leading.toNat (converted.str.take length.toNat)

/-- The loop of a formatter. Every round takes a character of the format. `none` is a conversion that has stored behind
the end of `string`. -/
def formatLoop (convert : UInt8 → UInt8 → Int → VaList → List UInt8 → Converted) :
    Nat → List UInt8 → VaList → List UInt8 → Option (List UInt8)
  | 0, _, _, _ => some []
  | _ + 1, [], _, _ => some []
  | fuel + 1, c :: fmt, ap, string =>
    if c ≠ ch '%' then (formatLoop convert fuel fmt ap string).map (c :: ·)
    else if fmt.head? = some (ch '%') then (formatLoop convert fuel fmt.tail ap string).map (ch '%' :: ·)
    else
      let (spec, ap, fmt) := readSpec ap fmt
      match fmt with
      | [] => some [ch '%']
      | f :: fmt =>
        let converted := convert f spec.fill spec.fmax ap string
        if stringSize < converted.stored then none
        else
          (formatLoop convert fuel fmt converted.ap converted.string).map fun rest =>
            converted.echo ++ putField spec.leftjust spec.fmin converted ++ rest

/-- `_doprnt`; `string` is what the buffer holds at the start, which is not initialized. -/
def doprnt (text : UInt32 → List UInt8) (string fmt : List UInt8) (ap : VaList) : Option (List UInt8) :=
  formatLoop (doprntSwitch text) (fmt.length + 1) fmt ap string

/-- `_fdoprnt`. -/
def fdoprnt (text : UInt32 → List UInt8) (string fmt : List UInt8) (ap : VaList) : Option (List UInt8) :=
  formatLoop (fdoprntSwitch text) (fmt.length + 1) fmt ap string

/-! ## Output to a string -/

/-- `sprntf`, called for one character: the pointer and the memory it leaves. -/
def sprntf (s : Nat × (Nat → UInt8)) (ac : UInt8) : Nat × (Nat → UInt8) := (s.1 + 1, Function.update s.2 s.1 ac)

/-- `_fdoprnt` with `sprntf` as its output function. -/
def formatTo (text : UInt32 → List UInt8) (string fmt : List UInt8) (ap : VaList) (s : Nat × (Nat → UInt8)) :
    Option (Nat × (Nat → UInt8)) :=
  (fdoprnt text string fmt ap).map fun output => output.foldl sprntf s

/-- `sprintf`: the value returned and the memory. -/
def sprintf (text : UInt32 → List UInt8) (string : List UInt8) (str : Nat) (fmt : List UInt8) (ap : VaList)
    (ram : Nat → UInt8) : Option (Nat × (Nat → UInt8)) :=
  (formatTo text string fmt ap (str, ram)).map fun (s, ram) => (str, Function.update ram s 0)

/-- `snprintf`. `ret` and `size` are compared as `size_t`. -/
def snprintf (text : UInt32 → List UInt8) (string : List UInt8) (str : Nat) (size : Int) (fmt : List UInt8)
    (ap : VaList) (ram : Nat → UInt8) : Option (Int × (Nat → UInt8)) :=
  if str = 0 ∨ size = 0 then some (-1, ram)
  else
    (formatTo text string fmt ap (str, ram)).map fun (s, ram) =>
      let ret := int32 (s - str : Nat)
      if ret % 2 ^ 32 ≥ size % 2 ^ 32 then (size - 1, Function.update ram (str + size - 1).toNat 0)
      else (ret, Function.update ram s 0)

end Format

end XinuStm32
