import XinuStm32.Kernel.Tables
import XinuStm32.Lib.Words

/-!
# The heap, `meminit.c` and `memory.h`

The free list is threaded through the free memory itself: a free block at address `a` keeps
`mnext` in the word at `a` and `mlength` in the word at `a + 4`. A `struct memblk *` is `none` when
it points at the list header `memlist`, and `some a` when it points into the heap.
-/

namespace XinuStm32

/-- `roundmb`; `/ 8 * 8` clears the low three bits. -/
def roundmb (x : Nat) : Nat := add32 7 x / 8 * 8

/-- What the linker decides: the symbol `end`, a multiple of four in RAM with the supervisor stack
still above it, and the address of `userret`. -/
structure Image where
  endAddr : Nat
  userret : Nat
  inRam : 0x20000000 ≤ endAddr
  belowStack : endAddr < MAXADDR - HANDLERSTACK
  aligned : endAddr % 4 = 0

namespace Mem

def next (p : Option Nat) (m : Mem) : Nat :=
  match p with
  | none => m.mnext
  | some a => Words.load m.ram a

def length (p : Option Nat) (m : Mem) : Nat :=
  match p with
  | none => m.mlength
  | some a => Words.load m.ram (a + 4)

def poke (a value : Nat) (m : Mem) : Mem := { m with ram := Words.store a value m.ram }

def setNext (p : Option Nat) (value : Nat) (m : Mem) : Mem :=
  match p with
  | none => { m with mnext := value }
  | some a => m.poke a value

def setLength (p : Option Nat) (value : Nat) (m : Mem) : Mem :=
  match p with
  | none => { m with mlength := value }
  | some a => m.poke (a + 4) value

/-- As many nodes as there are addresses; no list in memory has that many. -/
def walkFuel : Nat := 2 ^ 32

/-- `meminit`. -/
def meminit (endAddr : Nat) (ram : Nat → UInt8) : Mem :=
  let minheap := endAddr
  let maxheap := MAXADDR - HANDLERSTACK
  let length := sub32 maxheap minheap
  let m : Mem := { ram, mnext := minheap, mlength := length, minheap, maxheap }
  let m := m.setNext (some minheap) 0
  m.setLength (some minheap) length

/-! ## `freemem` -/

/-- Walk along the free list: the last node before `block` and the first one not before it. -/
def freememScan (block : Nat) (m : Mem) : Nat → Option Nat → Nat → Option Nat × Nat
  | 0, prev, next => (prev, next)
  | fuel + 1, prev, next =>
    if next ≠ 0 ∧ next < block then freememScan block m fuel (some next) (m.next (some next))
    else (prev, next)

/-- End of the block before the freed one, `NULL` when that is `memlist`. -/
def topOf (prev : Option Nat) (m : Mem) : Nat :=
  match prev with
  | none => 0
  | some a => add32 a (m.length prev)

/-- "Either coalesce with previous block or add to free list"; also the block to go on with. -/
def joinPrev (top : Nat) (prev : Option Nat) (block next nbytes : Nat) (m : Mem) : Nat × Mem :=
  match prev with
  | some a =>
    if top = block then (a, m.setLength prev (add32 (m.length prev) nbytes))
    else (block, ((m.setNext (some block) next).setLength (some block) nbytes).setNext prev block)
  -- `top` is `NULL` here, and no block of the heap is at address 0
  | none => (block, ((m.setNext (some block) next).setLength (some block) nbytes).setNext prev block)

/-- "Coalesce with next block if adjacent". -/
def joinNext (block next : Nat) (m : Mem) : Mem :=
  if add32 block (m.length (some block)) = next then
    let m := m.setLength (some block) (add32 (m.length (some block)) (m.length (some next)))
    m.setNext (some block) (m.next (some next))
  else m

/-- The block goes onto the list between `prev` and `next`. -/
def release (prev : Option Nat) (block next nbytes : Nat) (m : Mem) : Mem :=
  let top := m.topOf prev
  let m := { m with mlength := add32 m.mlength nbytes }
  let (block, m) := m.joinPrev top prev block next nbytes
  m.joinNext block next

def freemem (blkaddr nbytes : Nat) (m : Mem) : Int × Mem :=
  if nbytes = 0 ∨ blkaddr < m.minheap ∨ blkaddr > m.maxheap then (SYSERR, m)
  else
    let nbytes := roundmb nbytes
    let (prev, next) := freememScan blkaddr m walkFuel none m.mnext
    if (prev ≠ none ∧ blkaddr < m.topOf prev) ∨ (next ≠ 0 ∧ add32 blkaddr nbytes > next) then
      (SYSERR, m)
    else (OK, m.release prev blkaddr next nbytes)

/-! ## `getmem` -/

/-- "Block is exact match". -/
def takeExact (nbytes : Nat) (prev : Option Nat) (curr : Nat) (m : Mem) : Mem :=
  let m := m.setNext prev (m.next (some curr))
  { m with mlength := sub32 m.mlength nbytes }

/-- "Split big block": the low end is taken, and the rest is a block of its own. -/
def takeLow (nbytes : Nat) (prev : Option Nat) (curr : Nat) (m : Mem) : Mem :=
  let leftover := add32 curr nbytes
  let m := m.setNext prev leftover
  let m := m.setNext (some leftover) (m.next (some curr))
  let m := m.setLength (some leftover) (sub32 (m.length (some curr)) nbytes)
  { m with mlength := sub32 m.mlength nbytes }

/-- The search loop of `getmem`; `none` when it reaches the end of the list. -/
def getmemScan (nbytes : Nat) (m : Mem) : Nat → Option Nat → Nat → Option (Nat × Mem)
  | 0, _, _ => none
  | fuel + 1, prev, curr =>
    if curr = 0 then none
    else if m.length (some curr) = nbytes then some (curr, m.takeExact nbytes prev curr)
    else if m.length (some curr) > nbytes then some (curr, m.takeLow nbytes prev curr)
    else getmemScan nbytes m fuel (some curr) (m.next (some curr))

/-- `getmem`; `none` is `SYSERR`. -/
def getmem (nbytes : Nat) (m : Mem) : Option (Nat × Mem) :=
  if nbytes = 0 then none
  else getmemScan (roundmb nbytes) m walkFuel none m.mnext

/-! ## `getstk` -/

/-- The search loop of `getstk`: the last block that fits and the node before it. -/
def getstkScan (nbytes : Nat) (m : Mem) :
    Nat → Option Nat → Nat → Option (Option Nat × Nat) → Option (Option Nat × Nat)
  | 0, _, _, fits => fits
  | fuel + 1, prev, curr, fits =>
    if curr = 0 then fits
    else
      let fits := if m.length (some curr) ≥ nbytes then some (prev, curr) else fits
      getstkScan nbytes m fuel (some curr) (m.next (some curr)) fits

/-- "Remove top section": the high end of the block is taken. -/
def takeHigh (nbytes fits : Nat) (m : Mem) : Nat × Mem :=
  let m := m.setLength (some fits) (sub32 (m.length (some fits)) nbytes)
  (add32 fits (m.length (some fits)), m)

/-- `getstk`; `none` is `SYSERR`. -/
def getstk (nbytes : Nat) (m : Mem) : Option (Nat × Mem) :=
  if nbytes = 0 then none
  else
    let nbytes := roundmb nbytes
    match getstkScan nbytes m walkFuel none m.mnext none with
    | none => none
    | some (fitsprev, fits) =>
      let (fits, m) :=
        if nbytes = m.length (some fits) then (fits, m.setNext fitsprev (m.next (some fits)))
        else m.takeHigh nbytes fits
      some (sub32 (add32 fits nbytes) 4, { m with mlength := sub32 m.mlength nbytes })

/-! ## `heap_free` -/

/-- The loop of `heap_free`. -/
def heapFreeScan (m : Mem) : Nat → Nat → Nat → Nat
  | 0, _, free => free
  | fuel + 1, memptr, free =>
    if memptr = 0 then free
    else heapFreeScan m fuel (m.next (some memptr)) (add32 free (m.length (some memptr)))

def heapFree (m : Mem) : Nat := heapFreeScan m walkFuel m.mnext 0

/-- The block `freestk` passes to `freemem`, given the address `getstk` returned. -/
def stackBase (p len : Nat) : Nat := add32 (sub32 p (roundmb len)) 4

end Mem

namespace Mem

/-! ## `malloc.c` -/

/-- `malloc`; 0 is `NULL`. The header of the block points at the block and holds its size. -/
def malloc (nbytes : Nat) (m : Mem) : Nat × Mem :=
  if nbytes = 0 then (0, m)
  else
    let nbytes := add32 nbytes 8
    match m.getmem nbytes with
    | none => (0, m)
    | some (pmem, m) => (add32 pmem 8, (m.setNext (some pmem) pmem).setLength (some pmem) nbytes)

/-- The loop of `memset` over `count` bytes. -/
def fill (value : UInt8) : Nat → Nat → (Nat → UInt8) → Nat → UInt8
  | 0, _, ram => ram
  | count + 1, p, ram => fill value count (p + 1) fun x => if x = p then value else ram x

/-- `memset` of `string.c`: up to the end, which is computed in 32 bits. -/
def memset (p : Nat) (value : UInt8) (size : Nat) (m : Mem) : Mem :=
  { m with ram := fill value (add32 p size - p) p m.ram }

/-- `calloc`; 0 is `NULL`. -/
def calloc (nmemb size : Nat) (m : Mem) : Nat × Mem :=
  let s := nmemb * size % 2 ^ 32
  let (ptr, m) := m.malloc s
  if ptr = 0 then (0, m) else (ptr, m.memset ptr 0 s)

end Mem

/-! ## The calls, with their masking -/

def freemem (blkaddr nbytes : Nat) (s : Kernel) : Int × Kernel :=
  let (mask, s) := disable s
  let (result, memory) := s.mem.freemem blkaddr nbytes
  let s := if result = OK then s.setMem memory else s
  (result, restore mask s)

def getmem (nbytes : Nat) (s : Kernel) : Nat × Kernel :=
  let (mask, s) := disable s
  match s.mem.getmem nbytes with
  | none => (SYSERR32, restore mask s)
  | some (address, memory) => (address, restore mask (s.setMem memory))

def getstk (nbytes : Nat) (s : Kernel) : Nat × Kernel :=
  let (mask, s) := disable s
  match s.mem.getstk nbytes with
  | none => (SYSERR32, restore mask s)
  | some (address, memory) => (address, restore mask (s.setMem memory))

def freestk (p len : Nat) (s : Kernel) : Int × Kernel :=
  freemem (Mem.stackBase p len) (roundmb len) s

/-- `malloc`: without the section of `getmem` when nothing is asked for. The header lies in a block that is no longer in
the list. -/
def malloc (nbytes : Nat) (s : Kernel) : Nat × Kernel :=
  let (pointer, memory) := s.mem.malloc nbytes
  if nbytes = 0 then (pointer, s) else (pointer, { (getmem (add32 nbytes 8) s).2 with mem := memory })

/-- `free` of `malloc.c`: release only a block whose header still points at itself. -/
def free (pmem : Nat) (s : Kernel) : Kernel :=
  let block := sub32 pmem 8
  if s.mem.next (some block) ≠ block then s
  else (freemem block (s.mem.length (some block)) s).2

end XinuStm32
