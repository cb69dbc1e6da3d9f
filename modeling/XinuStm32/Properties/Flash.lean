import XinuStm32.Drivers.Flash
import XinuStm32.Lib.Patch

/-!
# Writing to the flash

A program only clears bits, so the driver may program what is erased, and it reads, erases and programs a whole
sector otherwise. Either way the flash ends up with the buffer patched in.
-/

namespace XinuStm32

open Patch

/-! ## Commands of the chip -/

variable {cells : Nat → UInt8}

/-- Inside a page a program puts the bytes one after the other. -/
theorem pageCell_inside {address offset : Nat} (inside : address % 256 + offset < 256) :
    pageCell address offset = address + offset := by
  rw [pageCell]
  omega

/-- A program of erased cells that does not reach the end of their page. -/
theorem pageProgram_erased {address offset : Nat} {bytes : List UInt8}
    (fits : address % 256 + offset + bytes.length ≤ 256)
    (erased : ∀ i < bytes.length, cells (address + offset + i) = 0xFF) :
    pageProgram address offset bytes cells =
      patch (address + offset) bytes.length (fun i => bytes.getD i 0) cells := by
  induction bytes generalizing offset cells with
  | nil => simp [pageProgram]
  | cons byte bytes inductionHypothesis =>
    rw [List.length_cons] at fits erased
    have first : cells (address + offset) &&& byte = byte := by
      rw [show cells (address + offset) = -1 from erased 0 (Nat.zero_lt_succ _), UInt8.neg_one_and]
    rw [pageProgram, pageCell_inside (by omega), first, inductionHypothesis (by omega)]
    · exact patch_cons _ _ (fun i => (byte :: bytes).getD i 0) cells
    · intro i inside
      rw [Function.update_of_ne (by omega)]
      exact (congrArg cells (by omega)).trans (erased (i + 1) (by omega))

namespace W25q

variable {s : W25q}

/-! ## Programming -/

theorem spiFlashWritePage_erased {pBuffer : Nat → UInt8} {writeAddr : UInt32} {numByteToWrite : UInt16}
    (fits : writeAddr.toNat % 256 + numByteToWrite.toNat ≤ 256)
    (inside : writeAddr.toNat + numByteToWrite.toNat ≤ 2 ^ 24)
    (erased : ∀ i < numByteToWrite.toNat, s.cells (writeAddr.toNat + i) = 0xFF) :
    s.spiFlashWritePage pBuffer writeAddr numByteToWrite =
      { s with cells := patch writeAddr.toNat numByteToWrite.toNat pBuffer s.cells } := by
  simp only [spiFlashWritePage]
  congr 1
  by_cases none : numByteToWrite.toNat = 0
  · simp [none, pageProgram]
  · have address : address24 writeAddr = writeAddr.toNat := Nat.mod_eq_of_lt (by omega)
    have length : ((List.range numByteToWrite.toNat).map pBuffer).length = numByteToWrite.toNat := by simp
    rw [address, pageProgram_erased (by rw [length]; omega) (by rw [length]; exact erased), length]
    refine patch_congr fun i within => ?_
    rw [List.getD_eq_getElem _ _ (by omega)]
    simp

/-- The length of the next round: as much as a piece has, or the rest. -/
theorem toNat_min (rest piece : UInt16) :
    (if rest > piece then piece else rest).toNat = min piece.toNat rest.toNat := by
  split
  · next large => exact (Nat.min_eq_left (Nat.le_of_lt (UInt16.lt_iff_toNat_lt.mp large))).symm
  · next small => exact (Nat.min_eq_right (UInt16.le_iff_toNat_le.mp (UInt16.not_lt.mp small))).symm

/-- The length of the first round. -/
theorem toNat_least (length piece : UInt16) :
    (if length ≤ piece then length else piece).toNat = min length.toNat piece.toNat := by
  split
  · next short => exact (Nat.min_eq_left (UInt16.le_iff_toNat_le.mp short)).symm
  · next long => exact (Nat.min_eq_right (Nat.le_of_not_le (mt UInt16.le_iff_toNat_le.mpr long))).symm

/-- Programming erased cells. Each round but the last goes to the end of a page. -/
theorem writeNoCheckLoop_erased {rounds : Nat} {pBuffer : Nat → UInt8} {writeAddr : UInt32}
    {numByteToWrite pageremain : UInt16} (enough : numByteToWrite.toNat < rounds)
    (least : pageremain.toNat ≤ numByteToWrite.toNat) (some : pageremain.toNat = 0 → numByteToWrite.toNat = 0)
    (fits : writeAddr.toNat % 256 + pageremain.toNat ≤ 256)
    (whole : pageremain.toNat < numByteToWrite.toNat → writeAddr.toNat % 256 + pageremain.toNat = 256)
    (inside : writeAddr.toNat + numByteToWrite.toNat ≤ 2 ^ 24)
    (erased : ∀ i < numByteToWrite.toNat, s.cells (writeAddr.toNat + i) = 0xFF) :
    writeNoCheckLoop rounds pBuffer writeAddr numByteToWrite pageremain s =
      .some { s with cells := patch writeAddr.toNat numByteToWrite.toNat pBuffer s.cells } := by
  induction rounds generalizing pBuffer writeAddr numByteToWrite pageremain s with
  | zero => omega
  | succ rounds inductionHypothesis =>
    rw [writeNoCheckLoop,
      spiFlashWritePage_erased fits (by omega) fun i within => erased i (by omega)]
    split
    · next last => rw [last]
    · next more =>
      have less : pageremain.toNat < numByteToWrite.toNat :=
        Nat.lt_of_le_of_ne least fun same => more (UInt16.toNat_inj.mp same.symm)
      have advanced : (writeAddr + pageremain.toUInt32).toNat = writeAddr.toNat + pageremain.toNat := by
        rw [UInt32.toNat_add, UInt16.toNat_toUInt32]
        omega
      have rest : (numByteToWrite - pageremain).toNat = numByteToWrite.toNat - pageremain.toNat :=
        UInt16.toNat_sub_of_le _ _ (UInt16.le_iff_toNat_le.mpr least)
      have page := whole less
      have next := toNat_min (numByteToWrite - pageremain) 256
      have page256 : (256 : UInt16).toNat = 256 := rfl
      rw [inductionHypothesis (by omega) (by omega) (by omega) (by omega) (by omega) (by omega)]
      · rw [advanced, rest]
        simp only [patch_append, Nat.add_sub_cancel' least]
      · intro i within
        rw [rest] at within
        change patch _ _ _ s.cells ((writeAddr + pageremain.toUInt32).toNat + i) = 0xFF
        rw [advanced, patch_outside (by omega), Nat.add_assoc]
        exact erased _ (by omega)

theorem spiFlashWriteNoCheck_erased {pBuffer : Nat → UInt8} {writeAddr : UInt32} {numByteToWrite : UInt16}
    (inside : writeAddr.toNat + numByteToWrite.toNat ≤ 2 ^ 24)
    (erased : ∀ i < numByteToWrite.toNat, s.cells (writeAddr.toNat + i) = 0xFF) :
    s.spiFlashWriteNoCheck pBuffer writeAddr numByteToWrite =
      some { s with cells := patch writeAddr.toNat numByteToWrite.toNat pBuffer s.cells } := by
  have toEnd : (256 - writeAddr % 256).toUInt16.toNat = 256 - writeAddr.toNat % 256 := by
    have offset : (writeAddr % 256).toNat = writeAddr.toNat % 256 := UInt32.toNat_mod ..
    have part : writeAddr % 256 ≤ 256 := by
      rw [UInt32.le_iff_toNat_le, offset]
      exact Nat.le_of_lt (Nat.mod_lt _ (by decide))
    rw [UInt32.toNat_toUInt16, UInt32.toNat_sub_of_le _ _ part, offset]
    change (256 - writeAddr.toNat % 256) % 2 ^ 16 = _
    omega
  have first := toNat_least numByteToWrite (256 - writeAddr % 256).toUInt16
  rw [toEnd] at first
  exact writeNoCheckLoop_erased (Nat.lt_succ_self _) (by omega) (by omega) (by omega) (by omega) inside erased

/-! ## One sector -/

theorem spiFlashRead_inside {readAddr : UInt32} {numByteToRead : UInt16}
    (inside : readAddr.toNat + numByteToRead.toNat ≤ 2 ^ 24) :
    s.spiFlashRead readAddr numByteToRead =
      (List.range numByteToRead.toNat).map fun i => s.cells (readAddr.toNat + i) := by
  refine List.map_congr_left fun i member => ?_
  have within := List.mem_range.mp member
  have address : address24 readAddr = readAddr.toNat := Nat.mod_eq_of_lt (by omega)
  rw [readData, address, Nat.mod_eq_of_lt (by omega)]

theorem toNat_sector {secpos : UInt32} (inside : secpos.toNat < 4096) :
    (secpos * 4096).toNat = secpos.toNat * 4096 := by
  rw [UInt32.toNat_mul]
  change secpos.toNat * 4096 % 2 ^ 32 = _
  omega

theorem cells_loadSector (secpos : UInt32) (s : W25q) : (s.loadSector secpos).cells = s.cells := by
  simp only [loadSector]

theorem flashBuf_loadSector {secpos : UInt32} (inside : secpos.toNat < 4096) {i : Nat} (within : i < 4096) :
    (s.loadSector secpos).flashBuf i = s.cells (secpos.toNat * 4096 + i) := by
  have sector := toNat_sector inside
  have fits : (secpos * 4096).toNat + (4096 : UInt16).toNat ≤ 2 ^ 24 := by
    rw [sector]
    change _ + 4096 ≤ _
    omega
  simp only [loadSector]
  rw [spiFlashRead_inside fits, List.getD_eq_getElem _ _ (by simpa using within)]
  simp [sector]

theorem needsErase_eq_false_iff {secoff secremain : UInt16} :
    s.needsErase secoff secremain = false ↔ ∀ i < secremain.toNat, s.flashBuf (secoff.toNat + i) = 0xFF := by
  simp [needsErase]

/-- The erased sector, with what it held and the bytes programmed again. -/
theorem eraseAndWrite_patches (pBuffer : Nat → UInt8) {secpos : UInt32} {secoff secremain : UInt16}
    (sector : secpos.toNat < 4096) (fits : secoff.toNat + secremain.toNat ≤ 4096)
    (loaded : ∀ i < 4096, s.flashBuf i = s.cells (secpos.toNat * 4096 + i)) :
    ∃ buf, ((s.spiFlashEraseSector secpos).copyIn pBuffer secoff secremain).spiFlashWriteNoCheck
        ((s.spiFlashEraseSector secpos).copyIn pBuffer secoff secremain).flashBuf (secpos * 4096) 4096 =
      some ⟨patch (secpos.toNat * 4096 + secoff.toNat) secremain.toNat pBuffer s.cells, buf⟩ := by
  have start := toNat_sector sector
  have address : address24 (secpos * 4096) = secpos.toNat * 4096 := by
    rw [address24, start]
    omega
  have length : (4096 : UInt16).toNat = 4096 := rfl
  have erasedCell (place : Nat) : ((s.spiFlashEraseSector secpos).copyIn pBuffer secoff secremain).cells place =
      if place / 4096 = secpos.toNat then 0xFF else s.cells place := by
    change sectorErase (address24 (secpos * 4096)) s.cells place = _
    rw [address, sectorErase, Nat.mul_div_cancel _ (by decide)]
  rw [spiFlashWriteNoCheck_erased]
  · refine ⟨_, congrArg some (congrArg (W25q.mk · _) ?_)⟩
    rw [start, length]
    refine patch_within (by omega) (by omega) ?_ ?_
    · intro place outside
      rw [erasedCell, if_neg (by omega)]
    · intro i within
      have offset : secpos.toNat * 4096 + i - (secpos.toNat * 4096 + secoff.toNat) = i - secoff.toNat := by omega
      simp only [copyIn, spiFlashEraseSector, offset]
      by_cases written : secoff.toNat ≤ i ∧ i < secoff.toNat + secremain.toNat
      · rw [if_pos written, if_pos (by omega)]
      · rw [if_neg written, if_neg (by omega), loaded i within]
  · rw [start, length]
    omega
  · intro i within
    rw [length] at within
    rw [erasedCell, start, if_pos (by omega)]

/-- In one sector: the bytes are programmed where the cells are erased, and else the sector is erased and programmed
with what it held and the bytes. -/
theorem writeSector_patches {pBuffer : Nat → UInt8} {secpos writeAddr : UInt32} {secoff secremain : UInt16}
    (place : writeAddr.toNat = secpos.toNat * 4096 + secoff.toNat) (fits : secoff.toNat + secremain.toNat ≤ 4096)
    (inside : writeAddr.toNat + secremain.toNat ≤ 2 ^ 24) :
    ∃ buf, s.writeSector pBuffer secpos secoff secremain writeAddr =
      some ⟨patch writeAddr.toNat secremain.toNat pBuffer s.cells, buf⟩ := by
  simp only [writeSector]
  cases needs : (s.loadSector secpos).needsErase secoff secremain with
  | false =>
    have erased : ∀ i < secremain.toNat, (s.loadSector secpos).cells (writeAddr.toNat + i) = 0xFF := by
      intro i within
      rw [← needsErase_eq_false_iff.mp needs i within, flashBuf_loadSector (by omega) (by omega), place, Nat.add_assoc,
        cells_loadSector]
    rw [if_neg Bool.false_ne_true, spiFlashWriteNoCheck_erased (s := s.loadSector secpos) inside erased,
      cells_loadSector]
    exact ⟨_, rfl⟩
  | true =>
    have sector : secpos.toNat < 4096 := by
      by_contra outside
      have none : secremain.toNat = 0 := by omega
      simp [needsErase, none] at needs
    have loaded : ∀ i < 4096, (s.loadSector secpos).flashBuf i =
        (s.loadSector secpos).cells (secpos.toNat * 4096 + i) := by
      intro i within
      rw [flashBuf_loadSector sector within, cells_loadSector]
    obtain ⟨buf, written⟩ := eraseAndWrite_patches pBuffer sector fits loaded
    rw [place, if_pos rfl, written, cells_loadSector]
    exact ⟨buf, rfl⟩

/-! ## Writing -/

/-- Each round but the last goes to the end of a sector. -/
theorem writeLoop_patches {rounds : Nat} {pBuffer : Nat → UInt8} {secpos writeAddr : UInt32}
    {secoff secremain numByteToWrite : UInt16} (enough : numByteToWrite.toNat < rounds)
    (least : secremain.toNat ≤ numByteToWrite.toNat) (more : secremain.toNat = 0 → numByteToWrite.toNat = 0)
    (place : writeAddr.toNat = secpos.toNat * 4096 + secoff.toNat) (fits : secoff.toNat + secremain.toNat ≤ 4096)
    (whole : secremain.toNat < numByteToWrite.toNat → secoff.toNat + secremain.toNat = 4096)
    (inside : writeAddr.toNat + numByteToWrite.toNat ≤ 2 ^ 24) :
    ∃ buf, writeLoop rounds pBuffer secpos secoff secremain writeAddr numByteToWrite s =
      some ⟨patch writeAddr.toNat numByteToWrite.toNat pBuffer s.cells, buf⟩ := by
  induction rounds generalizing pBuffer secpos writeAddr secoff secremain numByteToWrite s with
  | zero => omega
  | succ rounds inductionHypothesis =>
    have patches : ∃ buf, s.writeSector pBuffer secpos secoff secremain writeAddr =
        some ⟨patch writeAddr.toNat secremain.toNat pBuffer s.cells, buf⟩ := writeSector_patches place fits (by omega)
    obtain ⟨buf, sector⟩ := patches
    rw [writeLoop, sector, Option.bind_some]
    split
    · next last =>
      rw [last]
      exact ⟨buf, rfl⟩
    · next notLast =>
      have less : secremain.toNat < numByteToWrite.toNat :=
        Nat.lt_of_le_of_ne least fun same => notLast (UInt16.toNat_inj.mp same.symm)
      have advanced : (writeAddr + secremain.toUInt32).toNat = writeAddr.toNat + secremain.toNat := by
        rw [UInt32.toNat_add, UInt16.toNat_toUInt32]
        omega
      have nextSector : (secpos + 1).toNat = secpos.toNat + 1 := by
        rw [UInt32.toNat_add]
        change (secpos.toNat + 1) % 2 ^ 32 = _
        omega
      have rest : (numByteToWrite - secremain).toNat = numByteToWrite.toNat - secremain.toNat :=
        UInt16.toNat_sub_of_le _ _ (UInt16.le_iff_toNat_le.mpr least)
      have toEnd := whole less
      have next := toNat_min (numByteToWrite - secremain) 4096
      have next4096 : (4096 : UInt16).toNat = 4096 := rfl
      have start : (0 : UInt16).toNat = 0 := rfl
      have joined := patch_append writeAddr.toNat secremain.toNat (numByteToWrite - secremain).toNat pBuffer s.cells
      rw [rest, Nat.add_sub_cancel' least, ← rest, ← advanced] at joined
      rw [← joined]
      exact inductionHypothesis (by omega) (by omega) (by omega) (by omega) (by omega) (by omega) (by omega)

theorem spiFlashWrite_patches {writeAddr : UInt32} {numByteToWrite : UInt16}
    (inside : writeAddr.toNat + numByteToWrite.toNat ≤ 2 ^ 24) (pBuffer : Nat → UInt8) (s : W25q) :
    ∃ buf, s.spiFlashWrite pBuffer writeAddr numByteToWrite =
      some ⟨patch writeAddr.toNat numByteToWrite.toNat pBuffer s.cells, buf⟩ := by
  have position : (writeAddr / 4096).toNat = writeAddr.toNat / 4096 := UInt32.toNat_div ..
  have offset : (writeAddr % 4096).toUInt16.toNat = writeAddr.toNat % 4096 := by
    rw [UInt32.toNat_toUInt16, UInt32.toNat_mod]
    change writeAddr.toNat % 4096 % 2 ^ 16 = _
    omega
  have toEnd : (4096 - (writeAddr % 4096).toUInt16).toNat = 4096 - writeAddr.toNat % 4096 := by
    have part : (writeAddr % 4096).toUInt16 ≤ 4096 := by
      rw [UInt16.le_iff_toNat_le, offset]
      exact Nat.le_of_lt (Nat.mod_lt _ (by decide))
    rw [UInt16.toNat_sub_of_le _ _ part, offset]
    rfl
  have first := toNat_least numByteToWrite (4096 - (writeAddr % 4096).toUInt16)
  rw [toEnd] at first
  exact writeLoop_patches (Nat.lt_succ_self _) (by omega) (by omega) (by omega) (by omega) (by omega) inside

/-- What is written can be read back. -/
theorem spiFlashRead_patched {readAddr : UInt32} {numByteToRead : UInt16}
    (inside : readAddr.toNat + numByteToRead.toNat ≤ 2 ^ 24) (pBuffer cells buf : Nat → UInt8) :
    (⟨patch readAddr.toNat numByteToRead.toNat pBuffer cells, buf⟩ : W25q).spiFlashRead readAddr numByteToRead =
      (List.range numByteToRead.toNat).map pBuffer := by
  rw [spiFlashRead_inside inside]
  refine List.map_congr_left fun i member => ?_
  have within := List.mem_range.mp member
  exact (patch_inside (by omega) (by omega)).trans (congrArg pBuffer (Nat.add_sub_cancel_left ..))

/-! ## Sectors of the file system -/

theorem toNat_fileSector {sector : UInt32} (inside : sector.toNat ≤ 32768) :
    (sector * FLASH_SECTOR_SIZE).toNat = sector.toNat * 512 := by
  rw [UInt32.toNat_mul]
  change sector.toNat * 512 % 2 ^ 32 = _
  omega

theorem toNat_nextSector {sector : UInt32} (inside : sector.toNat ≤ 32768) :
    (sector + 1).toNat = sector.toNat + 1 := by
  rw [UInt32.toNat_add]
  change (sector.toNat + 1) % 2 ^ 32 = _
  omega

theorem diskWriteLoop_patches {count : Nat} {sector : UInt32} (inside : sector.toNat + count ≤ 32768)
    (txbuf : Nat → UInt8) (s : W25q) :
    ∃ buf, diskWriteLoop count txbuf sector s =
      some ⟨patch (sector.toNat * 512) (count * 512) txbuf s.cells, buf⟩ := by
  induction count generalizing txbuf sector s with
  | zero => exact ⟨s.flashBuf, by rw [Nat.zero_mul, patch_zero]; rfl⟩
  | succ count inductionHypothesis =>
    have address : (sector * FLASH_SECTOR_SIZE).toNat = sector.toNat * 512 := toNat_fileSector (by omega)
    have next : (sector + 1).toNat = sector.toNat + 1 := toNat_nextSector (by omega)
    have length : (512 : UInt16).toNat = 512 := rfl
    have first : (sector * FLASH_SECTOR_SIZE).toNat + (512 : UInt16).toNat ≤ 2 ^ 24 := by omega
    obtain ⟨buf, written⟩ := spiFlashWrite_patches first txbuf s
    have joined := patch_append (sector.toNat * 512) 512 (count * 512) txbuf s.cells
    rw [show sector.toNat * 512 + 512 = (sector + 1).toNat * 512 by omega,
      show 512 + count * 512 = (count + 1) * 512 by omega] at joined
    rw [diskWriteLoop, written, Option.bind_some, address, length, ← joined]
    exact inductionHypothesis (by omega) _ _

theorem diskReadLoop_inside {count : Nat} {sector : UInt32} (inside : sector.toNat + count ≤ 32768) :
    diskReadLoop count sector s = (List.range (count * 512)).map fun i => s.cells (sector.toNat * 512 + i) := by
  induction count generalizing sector with
  | zero => simp [diskReadLoop]
  | succ count inductionHypothesis =>
    have address : (sector * FLASH_SECTOR_SIZE).toNat = sector.toNat * 512 := toNat_fileSector (by omega)
    have next : (sector + 1).toNat = sector.toNat + 1 := toNat_nextSector (by omega)
    have length : (512 : UInt16).toNat = 512 := rfl
    have first : (sector * FLASH_SECTOR_SIZE).toNat + (512 : UInt16).toNat ≤ 2 ^ 24 := by omega
    have split : (count + 1) * 512 = 512 + count * 512 := by omega
    rw [diskReadLoop, spiFlashRead_inside first, inductionHypothesis (by omega), address, length, next, split,
      List.range_add, List.map_append, List.map_map]
    have shifted (i : Nat) : (sector.toNat + 1) * 512 + i = sector.toNat * 512 + (512 + i) := by ring
    simp only [shifted, Function.comp_def]

/-! ## What is written -/

/-- The cells from an address on hold the buffer, and all others what they held. -/
def Written (start length : Nat) (buffer : Nat → UInt8) (s s' : W25q) : Prop :=
  ∀ place, s'.cells place = if start ≤ place ∧ place < start + length then buffer (place - start) else s.cells place

/-- `SPI_Flash_Write` and `disk_write` return with the addressed bytes written and no other, and the read of the same
bytes returns the buffer. -/
theorem flashWrite_exact (s : W25q) (buffer : Nat → UInt8) :
    (∀ writeAddr numByteToWrite, writeAddr.toNat + numByteToWrite.toNat ≤ 2 ^ 24 →
      ∃ s', s.spiFlashWrite buffer writeAddr numByteToWrite = some s' ∧
        Written writeAddr.toNat numByteToWrite.toNat buffer s s' ∧
          s'.spiFlashRead writeAddr numByteToWrite = (List.range numByteToWrite.toNat).map buffer) ∧
      ∀ sector count, (sector.toNat + count.toNat) * 512 ≤ 2 ^ 24 →
        ∃ s', s.diskWrite buffer sector count = some s' ∧
          Written (sector.toNat * 512) (count.toNat * 512) buffer s s' ∧
            s'.diskRead sector count = (List.range (count.toNat * 512)).map buffer := by
  constructor
  · intro writeAddr numByteToWrite inside
    obtain ⟨buf, returns⟩ := spiFlashWrite_patches inside buffer s
    exact ⟨_, returns, fun _ => rfl, spiFlashRead_patched inside ..⟩
  · intro sector count below
    have inside : sector.toNat + count.toNat ≤ 32768 := by
      refine le_of_mul_le_mul_right (below.trans ?_) (by decide : 0 < 512)
      norm_num
    obtain ⟨buf, returns⟩ := diskWriteLoop_patches inside buffer s
    refine ⟨_, returns, fun _ => rfl, ?_⟩
    rw [diskRead, diskReadLoop_inside inside]
    refine List.map_congr_left fun i member => ?_
    have within := List.mem_range.mp member
    exact (patch_inside (Nat.le_add_right ..) (Nat.add_lt_add_left within _)).trans
      (congrArg buffer (Nat.add_sub_cancel_left ..))

/-- Seven bytes over the end of a sector of a chip that holds zeros. -/
theorem acrossSectors_written : ∃ s', (⟨fun _ => 0, fun _ => 0⟩ : W25q).spiFlashWrite (fun _ => 7) 4093 7 = some s' ∧
    Written 4093 7 (fun _ => 7) ⟨fun _ => 0, fun _ => 0⟩ s' ∧
      s'.spiFlashRead 4093 7 = (List.range 7).map fun _ => 7 :=
  (flashWrite_exact ⟨fun _ => 0, fun _ => 0⟩ fun _ => 7).1 4093 7 (by decide)

end W25q

end XinuStm32
