import XinuStm32.Lib.BitFields

/-!
# Base 64, `app/mark1/main.c`

A `char *` is the bytes from where it points on. What is written behind `dst` is a list, without the zero that ends it;
what is read of `src` in encoding is recorded by its place. The lengths of what is in memory are numbers: none of them
is near the end of an `unsigned int`.
-/

namespace XinuStm32

open BitFields

/-- `struct base64_t`: the four bytes of a word, and the bit fields over them. -/
abbrev Base64 := BitVec 32

namespace Base64

def c3 (t : Base64) : UInt8 := ⟨field 0 8 t⟩
def c2 (t : Base64) : UInt8 := ⟨field 8 8 t⟩
def c1 (t : Base64) : UInt8 := ⟨field 16 8 t⟩

def e4 (t : Base64) : BitVec 6 := field 0 6 t
def e3 (t : Base64) : BitVec 6 := field 6 6 t
def e2 (t : Base64) : BitVec 6 := field 12 6 t
def e1 (t : Base64) : BitVec 6 := field 18 6 t

/-- The assignments `t.c1 = c1; t.c2 = c2; t.c3 = c3`. -/
def setBytes (c1 c2 c3 : UInt8) (t : Base64) : Base64 :=
  setField 0 c3.toBitVec (setField 8 c2.toBitVec (setField 16 c1.toBitVec t))

/-- The assignments `t.e1 = e1; t.e2 = e2; t.e3 = e3; t.e4 = e4`, each of the six bits that are left of a byte. -/
def setSextets (e1 e2 e3 e4 : UInt8) (t : Base64) : Base64 :=
  setField 0 (e4.toBitVec.setWidth 6) (setField 6 (e3.toBitVec.setWidth 6)
    (setField 12 (e2.toBitVec.setWidth 6) (setField 18 (e1.toBitVec.setWidth 6) t)))

end Base64

def enctblList : List UInt8 :=
  [0x41, 0x42, 0x43, 0x44, 0x45, 0x46, 0x47, 0x48,
    0x49, 0x4A, 0x4B, 0x4C, 0x4D, 0x4E, 0x4F, 0x50,
    0x51, 0x52, 0x53, 0x54, 0x55, 0x56, 0x57, 0x58,
    0x59, 0x5A, 0x61, 0x62, 0x63, 0x64, 0x65, 0x66,
    0x67, 0x68, 0x69, 0x6A, 0x6B, 0x6C, 0x6D, 0x6E,
    0x6F, 0x70, 0x71, 0x72, 0x73, 0x74, 0x75, 0x76,
    0x77, 0x78, 0x79, 0x7A, 0x30, 0x31, 0x32, 0x33,
    0x34, 0x35, 0x36, 0x37, 0x38, 0x39, 0x2B, 0x2F]

/-- `enctbl[e]`. -/
def enctbl (e : BitVec 6) : UInt8 := enctblList.getD e.toNat 0

def dectblList : List UInt8 :=
  [0xFF, 0xFF, 0xFF, 0xFF, 0xFF, 0xFF, 0xFF, 0xFF,
    0xFF, 0xFF, 0xFF, 0xFF, 0xFF, 0xFF, 0xFF, 0xFF,
    0xFF, 0xFF, 0xFF, 0xFF, 0xFF, 0xFF, 0xFF, 0xFF,
    0xFF, 0xFF, 0xFF, 0xFF, 0xFF, 0xFF, 0xFF, 0xFF,
    0xFF, 0xFF, 0xFF, 0xFF, 0xFF, 0xFF, 0xFF, 0xFF,
    0xFF, 0xFF, 0xFF, 62, 0xFF, 0xFF, 0xFF, 63,
    52, 53, 54, 55, 56, 57, 58, 59,
    60, 61, 0xFF, 0xFF, 0xFF, 64, 0xFF, 0xFF,
    0xFF, 0, 1, 2, 3, 4, 5, 6,
    7, 8, 9, 10, 11, 12, 13, 14,
    15, 16, 17, 18, 19, 20, 21, 22,
    23, 24, 25, 0xFF, 0xFF, 0xFF, 0xFF, 0xFF,
    0xFF, 26, 27, 28, 29, 30, 31, 32,
    33, 34, 35, 36, 37, 38, 39, 40,
    41, 42, 43, 44, 45, 46, 47, 48,
    49, 50, 51, 0xFF, 0xFF, 0xFF, 0xFF, 0xFF]

/-- `dectbl[ch]`; `none` is a read outside the table. -/
def dectbl (ch : UInt8) : Option UInt8 := dectblList[ch.toNat]?

/-- `'='`. -/
def padding : UInt8 := 0x3D

/-! ## `base64_encode` -/

/-- What was written, and which places of the source were read. -/
structure Encoding where
  dst : List UInt8
  read : List Nat
  deriving DecidableEq

/-- The loop over the whole groups, `i` being also where `src` points to. -/
def encodeGroups (src : Nat → UInt8) : Nat → Nat → Base64 → Base64 × Encoding
  | 0, _, t => (t, ⟨[], []⟩)
  | left + 1, i, t =>
    let t := t.setBytes (src i) (src (i + 1)) (src (i + 2))
    let (t', rest) := encodeGroups src left (i + 3) t
    (t', ⟨enctbl t.e1 :: enctbl t.e2 :: enctbl t.e3 :: enctbl t.e4 :: rest.dst, i :: (i + 1) :: (i + 2) :: rest.read⟩)

/-- What is written for the bytes behind the last whole group. -/
def encodeRest (src : Nat → UInt8) (slen i : Nat) (t : Base64) : Encoding :=
  let t := t.setBytes (src i) (UInt8.ofNat (slen - (i + 1)) * src (i + 1)) 0
  ⟨[enctbl t.e1, enctbl t.e2, if t.e3 ≠ 0 then enctbl t.e3 else padding, padding], [i, i + 1]⟩

/-- `base64_encode`; `t` is what is on its stack. -/
def base64Encode (src : Nat → UInt8) (slen : Nat) (t : Base64) : Encoding :=
  if slen = 0 then ⟨[], []⟩
  else
    let n := slen / 3 * 3
    let (t, groups) := encodeGroups src (slen / 3) 0 t
    if n < slen then
      let rest := encodeRest src slen n t
      ⟨groups.dst ++ rest.dst, groups.read ++ rest.read⟩
    else groups

/-! ## `base64_decode` -/

/-- `for (n = slen; src[n - 1] == '='; n--)`; `none` is a read in front of the source. -/
def skipPadding (src : Nat → UInt8) : Nat → Option Nat
  | 0 => none
  | n + 1 => if src n = padding then skipPadding src n else some (n + 1)

/-- The loop over the whole groups. -/
def decodeGroups (src : Nat → UInt8) : Nat → Nat → Base64 → Option (Base64 × List UInt8)
  | 0, _, t => some (t, [])
  | left + 1, i, t => do
    let e1 ← dectbl (src i)
    let e2 ← dectbl (src (i + 1))
    let e3 ← dectbl (src (i + 2))
    let e4 ← dectbl (src (i + 3))
    let t := t.setSextets e1 e2 e3 e4
    let (t', rest) ← decodeGroups src left (i + 4) t
    return (t', t.c1 :: t.c2 :: t.c3 :: rest)

/-- The three bytes that are written for a group that is not whole. -/
def decodeRest (src : Nat → UInt8) (slen i : Nat) (t : Base64) : Option (List UInt8) := do
  let e1 ← dectbl (src i)
  let e2 ← dectbl (src (i + 1))
  let e3 ← if i + 1 < slen then dectbl (src (i + 2)) else some 0
  let t := t.setSextets e1 e2 e3 0
  return [t.c1, t.c2, t.c3]

/-- `base64_decode`: what it writes, and the length that it returns. -/
def base64Decode (src : Nat → UInt8) (slen : Nat) (t : Base64) : Option (List UInt8 × Int) :=
  if slen = 0 then some ([], 0)
  else do
    let n ← skipPadding src slen
    let r := slen - n
    let (t, groups) ← decodeGroups src (n / 4) 0 t
    if n / 4 * 4 < slen then
      let rest ← decodeRest src slen (n / 4 * 4) t
      return (groups ++ rest, (groups ++ rest).length - r)
    else return (groups, groups.length - r)

end XinuStm32
