import XinuStm32.Kernel.Console
import XinuStm32.Kernel.Memory
import XinuStm32.Lib.FreeBlocks
import XinuStm32.Lib.Patch

/-!
# The program loader, `elf.c`

`elf_execve` reads a file into a buffer, copies the loadable segment into a block of its own and relocates it there. An
access that leaves the block its pointer points into ends the run: the loader does not check, and what follows depends
on what is there. A pointer into the buffer is written as its distance from `elfData`. What the constructors of a
program do is not known here: a call of one is a parameter.
-/

namespace XinuStm32

namespace Loader

open FreeBlocks

/-- A file that was opened: its content, and how many bytes of it `fread` delivers. -/
structure ProgramFile where
  bytes : List UInt8
  arrives : Nat
  length_lt : bytes.length < 2 ^ 32
  arrives_le : arrives ≤ bytes.length

/-- Why a run of the loader does not come to its end. -/
inductive Stop where
  | outside
  | endless
  deriving DecidableEq

/-- What a call of the function at an address does, for code that was loaded into a block. It has no pointer to the
buffer of the file. -/
abbrev ProgramCode := Option Block → Nat → Kernel → Except Stop Kernel

/-! ## The file in its buffer -/

def PT_LOAD : Nat := 1

/-- The signature, `EI_MAG0` to `EI_MAG3`. -/
def ELFMAG : List UInt8 := [0x7f, 69, 76, 70]

-- Offsets in `ELF32_hdr`.
def e_entry : Nat := 24
def e_phoff : Nat := 28
def e_shoff : Nat := 32
def e_phentsize : Nat := 42
def e_phnum : Nat := 44
def e_shentsize : Nat := 46
def e_shnum : Nat := 48
def e_shstrndx : Nat := 50

-- Offsets in `Elf32_Phdr`.
def p_type : Nat := 0
def p_offset : Nat := 4
def p_vaddr : Nat := 8
def p_filesz : Nat := 16
def p_memsz : Nat := 20

-- Offsets in `ELF32_shdr`.
def sh_name : Nat := 0
def sh_addr : Nat := 12
def sh_off : Nat := 16
def sh_size : Nat := 20

/-- The bytes as memory. -/
def contents (bytes : List UInt8) (a : Nat) : UInt8 := bytes.getD a 0

def readByte (bytes : List UInt8) (a : Nat) : Except Stop UInt8 :=
  if a < bytes.length then .ok (contents bytes a) else .error .outside

def halfAt (bytes : List UInt8) (a : Nat) : Nat := (contents bytes a).toNat + 2 ^ 8 * (contents bytes (a + 1)).toNat

def readHalf (bytes : List UInt8) (a : Nat) : Except Stop Nat :=
  if a + 2 ≤ bytes.length then .ok (halfAt bytes a) else .error .outside

def wordAt (bytes : List UInt8) (a : Nat) : Nat := Words.load (contents bytes) a

def readWord (bytes : List UInt8) (a : Nat) : Except Stop Nat :=
  if a + 4 ≤ bytes.length then .ok (wordAt bytes a) else .error .outside

/-- Compare with a text from the front, up to the first difference: the test of the signature, and `strcmp` with a
literal and the zero behind it. -/
def agree : List UInt8 → List UInt8 → Except Stop Bool
  | [], _ => .ok true
  | _ :: _, [] => .error .outside
  | c :: text, b :: bytes => if b = c then agree text bytes else .ok false

/-! ## The block of the image -/

/-- The `count` bytes at `a` lie in the block. -/
def Inside (block : Option Block) (a count : Nat) : Prop :=
  ∃ b ∈ block, b.addr ≤ a ∧ a + count ≤ b.limit

instance (block : Option Block) (a count : Nat) : Decidable (Inside block a count) :=
  match block with
  | none => isFalse (by rintro ⟨b, member, -⟩; cases member)
  | some b => decidable_of_iff (b.addr ≤ a ∧ a + count ≤ b.limit) (by simp [Inside])

/-- The loop that copies the segment: from its `j`th byte on, `count` bytes. -/
def copySegment (bytes : List UInt8) (block : Option Block) (src dst : Nat) :
    Nat → Nat → (Nat → UInt8) → Except Stop (Nat → UInt8)
  | 0, _, ram => .ok ram
  | count + 1, j, ram => do
    let value ← readByte bytes (add32 src j)
    if Inside block (add32 dst j) 1 then
      copySegment bytes block src dst count (j + 1) (Function.update ram (add32 dst j) value)
    else .error .outside

/-- A loop over the words of a section in the image: from the `i`th on, `count` words. -/
def eachWord (block : Option Block) (f : Nat → Nat) (array : Nat) :
    Nat → Nat → (Nat → UInt8) → Except Stop (Nat → UInt8)
  | 0, _, ram => .ok ram
  | count + 1, i, ram =>
    let a := add32 array (4 * i)
    if Inside block a 4 then
      eachWord block f array count (i + 1) (Words.store a (f (Words.load ram a)) ram)
    else .error .outside

/-! ## Sections -/

/-- ".bss". -/
def bssName : List UInt8 := [46, 98, 115, 115]

/-- ".got". -/
def gotName : List UInt8 := [46, 103, 111, 116]

/-- ".init_array". -/
def initArrayName : List UInt8 := [46, 105, 110, 105, 116, 95, 97, 114, 114, 97, 121]

/-- The loop of `elf_find_section`. -/
def findSectionLoop (bytes : List UInt8) (entsize shdrStr : Nat) (name : List UInt8) :
    Nat → Nat → Except Stop (Option Nat)
  | 0, _ => .ok none
  | count + 1, shdr => do
    let strings ← readWord bytes (add32 shdrStr sh_off)
    let index ← readWord bytes (add32 shdr sh_name)
    let same ← agree (name ++ [0]) (bytes.drop (add32 strings index))
    if same then .ok (some shdr) else findSectionLoop bytes entsize shdrStr name count (add32 shdr entsize)

/-- `elf_find_section`; `none` is `NULL`. -/
def findSection (bytes : List UInt8) (name : List UInt8) : Except Stop (Option Nat) := do
  let shoff ← readWord bytes e_shoff
  let shstrndx ← readHalf bytes e_shstrndx
  let shentsize ← readHalf bytes e_shentsize
  let shnum ← readHalf bytes e_shnum
  findSectionLoop bytes shentsize (add32 shoff (shstrndx * shentsize)) name shnum shoff

/-- Do something with each word of a section, if there is one with the name. -/
def eachSectionWord (bytes : List UInt8) (name : List UInt8) (f : Nat → Nat) (base : Nat) (block : Option Block)
    (ram : Nat → UInt8) : Except Stop (Nat → UInt8) := do
  match ← findSection bytes name with
  | none => .ok ram
  | some shdr =>
    let addr ← readWord bytes (add32 shdr sh_addr)
    let size ← readWord bytes (add32 shdr sh_size)
    eachWord block f (add32 base addr) (size / 4) 0 ram

/-! ## Segments -/

/-- What the loader has done so far: `ELF_OFFSET`, `res->start`, the block of the image, the pointers `malloc` returned,
the ones it gave back, and the constructors that were called. -/
structure Loading where
  kernel : Kernel
  base : Nat
  start : Option Nat
  image : Option Block
  allocated : List Nat
  freed : List Nat
  called : List Nat

/-- `malloc`, with the block behind the header that it takes. Where the size wraps to nothing, the header has no place
in what was taken. -/
def allocate (nbytes : Nat) (s : Kernel) : Except Stop (Option Block × Kernel) :=
  let (pointer, s) := malloc nbytes s
  let size := roundmb (add32 nbytes 8)
  if pointer = 0 then .ok (none, s)
  else if size = 0 then .error .outside
  else .ok (some ⟨pointer, size - 8⟩, s)

def setRam (ram : Nat → UInt8) (s : Kernel) : Kernel := s.setMem { s.mem with ram }

/-- A `PT_LOAD` segment. "There should only be one PT_LOAD section...": at a second one it loops. -/
def loadSegment (bytes : List UInt8) (phdr : Nat) (t : Loading) : Except Stop Loading := do
  if t.base ≠ 0 then .error .endless
  else
    let memsz ← readWord bytes (add32 phdr p_memsz)
    let (image, kernel) ← allocate (add32 memsz 8) t.kernel
    let pointer := (image.map Block.addr).getD 0
    let base := pointer / 8 * 8
    let offset ← readWord bytes (add32 phdr p_offset)
    let vaddr ← readWord bytes (add32 phdr p_vaddr)
    let filesz ← readWord bytes (add32 phdr p_filesz)
    let ram ← copySegment bytes image offset (add32 base vaddr) filesz 0 kernel.mem.ram
    .ok { kernel := setRam ram kernel, base, start := some base, image,
          allocated := t.allocated ++ (image.map Block.addr).toList, freed := t.freed, called := t.called }

/-- The loop over the program headers. -/
def loadSegments (bytes : List UInt8) (entsize : Nat) : Nat → Nat → Loading → Except Stop Loading
  | 0, _, t => .ok t
  | count + 1, phdr, t => do
    let type ← readWord bytes (add32 phdr p_type)
    let t ← if type = PT_LOAD then loadSegment bytes phdr t else .ok t
    loadSegments bytes entsize count (add32 phdr entsize) t

/-! ## Constructors -/

/-- The loop over `.init_array`, from the `i`th word on: each is moved, and what it then points to is called. -/
def runConstructors (program : ProgramCode) (initArray : Nat) : Nat → Nat → Loading → Except Stop Loading
  | 0, _, t => .ok t
  | count + 1, i, t =>
    let a := add32 initArray (4 * i)
    if Inside t.image a 4 then do
      let constructor := add32 (Words.load t.kernel.mem.ram a) t.base
      let kernel ← program t.image constructor (setRam (Words.store a constructor t.kernel.mem.ram) t.kernel)
      runConstructors program initArray count (i + 1) { t with kernel, called := t.called ++ [constructor] }
    else .error .outside

/-- "Run any initial constructors". -/
def callConstructors (program : ProgramCode) (bytes : List UInt8) (t : Loading) : Except Stop Loading := do
  match ← findSection bytes initArrayName with
  | none => .ok t
  | some shdr =>
    let addr ← readWord bytes (add32 shdr sh_addr)
    let size ← readWord bytes (add32 shdr sh_size)
    runConstructors program (add32 t.base addr) (size / 4) 0 t

/-! ## `elf_execve` -/

/-- What it returns and what it leaves behind; `stale`: it reads the buffer after it gave it back. -/
structure Execve extends Loading where
  code : Nat
  stale : Bool

/-- `fread` into the buffer: what it returns and the memory after it. Without a buffer it returns -1. -/
def fread (file : ProgramFile) (elfData : Option Block) (s : Kernel) : Except Stop (Nat × Kernel) :=
  match elfData with
  | none => .ok (2 ^ 32 - 1, s)
  | some b =>
    if file.arrives ≤ b.size then
      .ok (file.arrives, setRam (Patch.patch b.addr file.arrives (contents file.bytes) s.mem.ram) s)
    else .error .outside

/-- The ways out: the buffer goes back and interrupts are as before. `free` reads the header in front of its pointer,
and there is none in front of `NULL`. -/
def leave (mask : UInt32) (elfData : Option Block) (code : Nat) (stale : Bool) (t : Loading) : Except Stop Execve :=
  match elfData with
  | none => .error .outside
  | some b => .ok { t with kernel := restore mask (free b.addr t.kernel), freed := b.addr :: t.freed, code, stale }

/-- The image of a file that was read and has the signature. -/
def loadImage (program : ProgramCode) (bytes : List UInt8) (t : Loading) : Except Stop Loading := do
  let phoff ← readWord bytes e_phoff
  let phnum ← readHalf bytes e_phnum
  let phentsize ← readHalf bytes e_phentsize
  let t ← loadSegments bytes phentsize phnum phoff t
  let ram ← eachSectionWord bytes bssName (fun _ => 0) t.base t.image t.kernel.mem.ram
  let ram ← eachSectionWord bytes gotName (add32 · t.base) t.base t.image ram
  callConstructors program bytes { t with kernel := setRam ram t.kernel }

/-- "not found %s\n". -/
def notFound (name : List UInt8) : List UInt8 :=
  [0x6E, 0x6F, 0x74, 0x20, 0x66, 0x6F, 0x75, 0x6E, 0x64, 0x20] ++ name ++ [TY_NEWLINE]

/-- `elf_execve` of the file of a name; no file is one that cannot be opened. -/
def elfExecve (program : ProgramCode) (name : List UInt8) (file : Option ProgramFile) (s : Kernel) :
    Except Stop Execve :=
  let (mask, s) := disable s
  match file with
  | none =>
    let s := kprintf (notFound name) s
    .ok { kernel := restore mask s, base := 0, start := none, image := none, allocated := [], freed := [],
          called := [], code := 2 ^ 32 - 1, stale := false }
  | some file => do
    let (elfData, s) ← allocate file.bytes.length s
    -- without a buffer there is nothing to read at `elfData`
    let bytes := if elfData = none then [] else file.bytes
    let (count, s) ← fread file elfData s
    let t : Loading :=
      { kernel := s, base := 0, start := none, image := none, allocated := (elfData.map Block.addr).toList,
        freed := [], called := [] }
    if count ≠ file.bytes.length then leave mask elfData (2 ^ 32 - 2) false t
    else
      let signed ← agree ELFMAG bytes
      if signed = false then leave mask elfData (2 ^ 32 - 3) false t
      else
        let t ← loadImage program bytes t
        let entry ← readWord bytes e_entry
        -- `free` leaves the bytes of the buffer, and the entry is read behind it
        leave mask elfData (add32 t.base entry ||| 1) true t

end Loader

end XinuStm32
