import Mathlib

/-!
# The serial flash, `w25qxxx.c`

The chip is an array of bytes that carries out commands: a read from an address on, the program of a page, which can
only clear bits, and the erase of a sector, which sets them all. Above it are the functions of the driver. They wait
for the chip to finish each command; the interrupt masking around them is left out.

A buffer is what its pointer points at, by offset. `while(1)` loops have a number of rounds and are `none` when it
does not suffice.
-/

namespace XinuStm32

@[simp] abbrev FLASH_SECTOR_SIZE : UInt32 := 512

/-- The cells of the chip, below `2 ^ 24`, and `SPI_FLASH_BUF`. -/
structure W25q where
  cells : Nat → UInt8
  flashBuf : Nat → UInt8

/-! ## Commands of the chip -/

/-- The three bytes of an address that a command carries. -/
def address24 (address : UInt32) : Nat := address.toNat % 2 ^ 24

/-- The cell that a program puts a byte in: behind the last cell of a page comes its first. -/
def pageCell (address offset : Nat) : Nat := address / 256 * 256 + (address + offset) % 256

/-- `W25X_PageProgram`: the bytes from an offset on clear bits of the cells. -/
def pageProgram (address : Nat) : Nat → List UInt8 → (Nat → UInt8) → Nat → UInt8
  | _, [], cells => cells
  | offset, byte :: bytes, cells =>
    pageProgram address (offset + 1) bytes
      (Function.update cells (pageCell address offset) (cells (pageCell address offset) &&& byte))

/-- `W25X_SectorErase`. -/
def sectorErase (address : Nat) (cells : Nat → UInt8) : Nat → UInt8 := fun place =>
  if place / 4096 = address / 4096 then 0xFF else cells place

/-- `W25X_ReadData`: the byte that is the answer at an offset from the address. -/
def readData (address offset : Nat) (cells : Nat → UInt8) : UInt8 := cells ((address + offset) % 2 ^ 24)

namespace W25q

/-! ## Reading and programming -/

/-- `SPI_Flash_Read`: what it stores in its buffer, by offset. -/
def spiFlashRead (readAddr : UInt32) (numByteToRead : UInt16) (s : W25q) : List UInt8 :=
  (List.range numByteToRead.toNat).map fun i => readData (address24 readAddr) i s.cells

/-- `SPI_Flash_Write_Page`. -/
def spiFlashWritePage (pBuffer : Nat → UInt8) (writeAddr : UInt32) (numByteToWrite : UInt16) (s : W25q) : W25q :=
  { s with
    cells := pageProgram (address24 writeAddr) 0 ((List.range numByteToWrite.toNat).map pBuffer) s.cells }

/-- The loop of `SPI_Flash_Write_NoCheck`. -/
def writeNoCheckLoop : Nat → (Nat → UInt8) → UInt32 → UInt16 → UInt16 → W25q → Option W25q
  | 0, _, _, _, _, _ => none
  | rounds + 1, pBuffer, writeAddr, numByteToWrite, pageremain, s =>
    let s := s.spiFlashWritePage pBuffer writeAddr pageremain
    if numByteToWrite = pageremain then some s
    else
      let pBuffer := fun i => pBuffer (pageremain.toNat + i)
      let writeAddr := writeAddr + pageremain.toUInt32
      let numByteToWrite := numByteToWrite - pageremain
      let pageremain := if numByteToWrite > 256 then 256 else numByteToWrite
      writeNoCheckLoop rounds pBuffer writeAddr numByteToWrite pageremain s

/-- `SPI_Flash_Write_NoCheck`. -/
def spiFlashWriteNoCheck (pBuffer : Nat → UInt8) (writeAddr : UInt32) (numByteToWrite : UInt16) (s : W25q) :
    Option W25q :=
  let pageremain := (256 - writeAddr % 256).toUInt16
  let pageremain := if numByteToWrite ≤ pageremain then numByteToWrite else pageremain
  writeNoCheckLoop (numByteToWrite.toNat + 1) pBuffer writeAddr numByteToWrite pageremain s

/-- `SPI_Flash_Erase_Sector`. -/
def spiFlashEraseSector (dstAddr : UInt32) (s : W25q) : W25q :=
  { s with cells := sectorErase (address24 (dstAddr * 4096)) s.cells }

/-! ## Writing -/

/-- `SPI_Flash_Read(SPI_FLASH_BUF,secpos*4096,4096)`. -/
def loadSector (secpos : UInt32) (s : W25q) : W25q :=
  { s with flashBuf := fun i => (s.spiFlashRead (secpos * 4096) 4096).getD i 0 }

/-- The first loop finds a byte of `SPI_FLASH_BUF` that is not erased before it has looked at all. -/
def needsErase (secoff secremain : UInt16) (s : W25q) : Bool :=
  (List.range secremain.toNat).any fun i => s.flashBuf (secoff.toNat + i) ≠ 0xFF

/-- `SPI_FLASH_BUF[i+secoff]=pBuffer[i]` for each of the bytes. -/
def copyIn (pBuffer : Nat → UInt8) (secoff secremain : UInt16) (s : W25q) : W25q :=
  { s with
    flashBuf := fun j =>
      if secoff.toNat ≤ j ∧ j < secoff.toNat + secremain.toNat then pBuffer (j - secoff.toNat) else s.flashBuf j }

/-- What `SPI_Flash_Write` does in one sector. -/
def writeSector (pBuffer : Nat → UInt8) (secpos : UInt32) (secoff secremain : UInt16) (writeAddr : UInt32)
    (s : W25q) : Option W25q :=
  let s := s.loadSector secpos
  if s.needsErase secoff secremain then
    let s := s.spiFlashEraseSector secpos
    let s := s.copyIn pBuffer secoff secremain
    s.spiFlashWriteNoCheck s.flashBuf (secpos * 4096) 4096
  else s.spiFlashWriteNoCheck pBuffer writeAddr secremain

/-- The loop of `SPI_Flash_Write`. -/
def writeLoop : Nat → (Nat → UInt8) → UInt32 → UInt16 → UInt16 → UInt32 → UInt16 → W25q → Option W25q
  | 0, _, _, _, _, _, _, _ => none
  | rounds + 1, pBuffer, secpos, secoff, secremain, writeAddr, numByteToWrite, s =>
    (s.writeSector pBuffer secpos secoff secremain writeAddr).bind fun s =>
      if numByteToWrite = secremain then some s
      else
        let secpos := secpos + 1
        let pBuffer := fun i => pBuffer (secremain.toNat + i)
        let writeAddr := writeAddr + secremain.toUInt32
        let numByteToWrite := numByteToWrite - secremain
        let secremain := if numByteToWrite > 4096 then 4096 else numByteToWrite
        writeLoop rounds pBuffer secpos 0 secremain writeAddr numByteToWrite s

/-- `SPI_Flash_Write`. -/
def spiFlashWrite (pBuffer : Nat → UInt8) (writeAddr : UInt32) (numByteToWrite : UInt16) (s : W25q) : Option W25q :=
  let secpos := writeAddr / 4096
  let secoff := (writeAddr % 4096).toUInt16
  let secremain := 4096 - secoff
  let secremain := if numByteToWrite ≤ secremain then numByteToWrite else secremain
  writeLoop (numByteToWrite.toNat + 1) pBuffer secpos secoff secremain writeAddr numByteToWrite s

/-! ## `w25qxxx_drv` -/

/-- The loop of `disk_read`: what it stores in its buffer. -/
def diskReadLoop : Nat → UInt32 → W25q → List UInt8
  | 0, _, _ => []
  | count + 1, sector, s => s.spiFlashRead (sector * FLASH_SECTOR_SIZE) 512 ++ diskReadLoop count (sector + 1) s

/-- `disk_read`. -/
def diskRead (sector count : UInt32) (s : W25q) : List UInt8 := diskReadLoop count.toNat sector s

/-- The loop of `disk_write`. -/
def diskWriteLoop : Nat → (Nat → UInt8) → UInt32 → W25q → Option W25q
  | 0, _, _, s => some s
  | count + 1, txbuf, sector, s =>
    (s.spiFlashWrite txbuf (sector * FLASH_SECTOR_SIZE) 512).bind fun s =>
      diskWriteLoop count (fun i => txbuf (512 + i)) (sector + 1) s

/-- `disk_write`. -/
def diskWrite (txbuf : Nat → UInt8) (sector count : UInt32) (s : W25q) : Option W25q :=
  diskWriteLoop count.toNat txbuf sector s

end W25q

end XinuStm32
