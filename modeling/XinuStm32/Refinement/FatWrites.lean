import XinuStm32.Refinement.FatStream

/-!
# Writing a file

A round of the loop either stores whole sectors on the volume or changes a part of one sector in the buffer. Either way
the file has the new bytes where they are written and its old ones elsewhere.
-/

namespace XinuStm32

namespace Handle

variable {region : Region} {h h' h'' : Handle} {front back : List (List Nat)} {cells cells' cells'' : List Nat}
  {extent k length bytesWritten : Nat} {buffer : Nat → UInt8}

/-- Bytes are put from a place on, and the others up to an extent stay. -/
def Puts (h h' : Handle) (cells cells' : List Nat) (start count extent : Nat) (bytes : Nat → UInt8) : Prop :=
  ∀ p < extent, h'.byteAt cells' p = if start ≤ p ∧ p < start + count then bytes (p - start) else h.byteAt cells p

theorem Puts.trans {start first second : Nat} {bytes : Nat → UInt8}
    (before : Puts h h' cells cells' start first (max extent (start + first)) bytes)
    (after : Puts h' h'' cells' cells'' (start + first) second
      (max (max extent (start + first)) (start + first + second))
      fun i => bytes (first + i)) :
    Puts h h'' cells cells'' start (first + second) (max extent (start + (first + second))) bytes := by
  intro p inside
  rw [after p (by omega)]
  by_cases later : start + first ≤ p ∧ p < start + first + second
  · rw [if_pos later, if_pos (by omega)]
    change bytes _ = bytes _
    congr 1
    omega
  · rw [if_neg later, before p (by omega)]
    by_cases early : start ≤ p ∧ p < start + first
    · rw [if_pos early, if_pos (by omega)]
    · rw [if_neg early, if_neg (by omega)]

/-! ## Whole sectors -/

namespace Stream

/-- The buffer is given up once the volume has what it holds. -/
theorem drop (stream : Stream region h front cells back extent) (room : Room region front cells back extent) :
    ∃ cells', Goes region front back extent h h.dropBuffer cells cells' ∧
      Stream region h.dropBuffer front cells' back extent ∧ h.dropBuffer.file.fileDataAddress = 0xFFFFFFFF ∧
      h.dropBuffer.file.fileDataDirty = false ∧ h.dropBuffer.file.bytenum = h.file.bytenum ∧
      ∀ m, m * FAT_SECTOR_SIZE < extent → ∀ i < FAT_SECTOR_SIZE,
        h.dropBuffer.sectorAt cells' m i = h.sectorAt cells m i := by
  have bound := stream.bound
  by_cases invalid : h.file.fileDataAddress = 0xFFFFFFFF
  · have same : h.dropBuffer = h := by rw [dropBuffer, if_neg (not_not.mpr invalid)]
    rw [same]
    refine ⟨cells, Goes.refl h cells, stream, invalid, ?_, rfl, fun _ _ _ _ => rfl⟩
    -- a sector that has changed lies in the file
    cases changed : h.file.fileDataDirty with
    | false => rfl
    | true =>
      have before := stream.dirty changed
      simp only [invalid, FAT_SECTOR_SIZE] at before
      omega
  · obtain ⟨cells', goes, flushed, ⟨lookup, file⟩, same⟩ := stream.flush room
    have cleared : h.flushDirty.file.fileDataDirty = false := by rw [file]
    have dropped : h.dropBuffer = { h.flushDirty with
        file := { h.flushDirty.file with fileDataAddress := 0xFFFFFFFF, fileDataDirty := false } } := by
      rw [dropBuffer, if_pos invalid]
    rw [dropped]
    refine ⟨cells', ⟨goes.used, goes.filelength, goes.flags⟩, ?_, rfl, rfl, ?_, ?_⟩
    · constructor
      · exact flushed.volume
      · exact flushed.onVolume
      · exact ⟨flushed.along.start, flushed.along.lookup⟩
      · intro m inside
        exact Or.inl (flushed.disk_sector inside fun dirty => by rw [cleared] at dirty; cases dirty).1
      · intro dirty
        cases dirty
      · intro _ valid
        exact absurd rfl valid
      · exact bound
    · change h.flushDirty.file.bytenum = _
      rw [file]
    · intro m inside i within
      have onDisk := (flushed.disk_sector inside fun dirty => by rw [cleared] at dirty; cases dirty).2 i within
      rw [← same m inside, ← onDisk, sectorAt, if_neg]
      intro here
      change 0xFFFFFFFF = m at here
      simp only [← here, FAT_SECTOR_SIZE] at inside
      omega

/-- Whole sectors are stored where the buffer holds nothing. -/
theorem store (stream : Stream region h front cells back extent) (invalid : h.file.fileDataAddress = 0xFFFFFFFF)
    (clean : h.file.fileDataDirty = false) (buf : Nat → UInt8) {count target : Nat}
      (start : k * FAT_SECTOR_SIZE ≤ extent)
    (some_ : 0 < count) (within : (k + count) * FAT_SECTOR_SIZE ≤ target) (bound : target < 2 ^ 31)
    (room : Room region front cells back target) :
    ∃ cells' h' n, h.writeSectors k buf count = (n, h') ∧ 0 < n ∧ n ≤ count ∧
      Goes region front back target h h' cells cells' ∧
      Stream region h' front cells' back (max extent ((k + n) * FAT_SECTOR_SIZE)) ∧ h'.file.bytenum = h.file.bytenum ∧
      h'.file.fileDataDirty = false ∧
      Puts h h' cells cells' (k * FAT_SECTOR_SIZE) (n * FAT_SECTOR_SIZE)
        (max extent ((k + n) * FAT_SECTOR_SIZE)) buf := by
  have has : ∀ m, m * FAT_SECTOR_SIZE < extent → h.fs.HasSector cells m := fun m inside =>
    (stream.disk_sector inside fun dirty => by rw [clean] at dirty; cases dirty).1
  have below : ∀ m, m < k → h.fs.HasSector cells m := fun m less =>
    has m ((Nat.mul_lt_mul_of_pos_right less (by decide)).trans_le start)
  obtain ⟨cells', h', wrote, has', longer, effect, goes⟩ := stream.write buf target (stream.reach below) some_
    (by simp only [FAT_SECTOR_SIZE] at within; omega) (by simp only [FAT_SECTOR_SIZE] at within ⊢; omega) room
  have positive := moved_pos stream.onVolume k some_
  have fewer : moved h.fs.toGeometry k count ≤ count := Nat.min_le_left _ _
  have moved_ : ∀ j, j < moved h.fs.toGeometry k count → h.fs.HasSector cells' (k + j) := fun j =>
    hasSector_moved stream.onVolume has'
  have others := fun m => stream.other_sector (m := m) effect longer has'
  have stored := effect.stored
  generalize moved h.fs.toGeometry k count = n at *
  obtain ⟨lookup, file⟩ := effect.found.file
  have top : (k + n) * FAT_SECTOR_SIZE ≤ target := (Nat.mul_le_mul_right _ (by omega)).trans within
  refine ⟨cells', h', n, wrote, positive, fewer, goes, ?_, by rw [file], by rw [file, clean], ?_⟩
  · constructor
    · exact effect.volume
    · exact effect.geometry ▸ stream.onVolume
    · exact effect.found.along
    · intro m inside
      left
      rw [effect.geometry]
      by_cases new : k ≤ m ∧ m < k + n
      · have place := moved_ (m - k) (by omega)
        rwa [Nat.add_sub_cancel' new.1] at place
      · apply (has m _).mono longer
        simp only [FAT_SECTOR_SIZE] at *
        omega
    · rw [file, clean]
      intro dirty
      cases dirty
    · rw [file, invalid]
      intro _ valid
      exact absurd rfl valid
    · have extentBound := stream.bound
      omega
  · intro p inside
    have split := Nat.div_add_mod p FAT_SECTOR_SIZE
    have low := Nat.mod_lt p (show 0 < FAT_SECTOR_SIZE by decide)
    have extentBound := stream.bound
    have seen : h'.byteAt cells' p = h'.fs.disk (h.fs.fileLba cells' (p / FAT_SECTOR_SIZE)) (p % FAT_SECTOR_SIZE) := by
      rw [byteAt, sectorAt, if_neg, effect.geometry]
      rw [file]
      change ¬ h.file.fileDataAddress = _
      rw [invalid]
      simp only [FAT_SECTOR_SIZE] at *
      omega
    rw [seen]
    by_cases new : k * FAT_SECTOR_SIZE ≤ p ∧ p < k * FAT_SECTOR_SIZE + n * FAT_SECTOR_SIZE
    · have index : p / FAT_SECTOR_SIZE = k + (p / FAT_SECTOR_SIZE - k) := by
        simp only [FAT_SECTOR_SIZE] at *
        omega
      have inNew : p / FAT_SECTOR_SIZE - k < n := by
        simp only [FAT_SECTOR_SIZE] at *
        omega
      rw [if_pos new, index, stored _ inNew]
      change buf _ = buf _
      congr 1
      simp only [FAT_SECTOR_SIZE] at *
      omega
    · have before : p < extent := by
        simp only [FAT_SECTOR_SIZE] at *
        omega
      have sector : p / FAT_SECTOR_SIZE * FAT_SECTOR_SIZE < extent := by
        rw [Nat.mul_comm]
        omega
      rw [if_neg new, others _ (has _ sector) (by simp only [FAT_SECTOR_SIZE] at *; omega)]
      exact (stream.disk_sector sector fun dirty => by rw [clean] at dirty; cases dirty).2 _ low

/-! ## A part of a sector -/

/-- The sector is in the buffer, as far as the file has it, but need not have a cluster. -/
structure Prepared (region : Region) (h : Handle) (front : List (List Nat)) (cells : List Nat) (back : List (List Nat))
    (extent k : Nat) : Prop where
  volume : Volume region h.fs (front ++ cells :: back)
  onVolume : region.OnVolume h.fs.toGeometry
  along : h.file.Along cells
  placed : ∀ m, m * FAT_SECTOR_SIZE < extent → m ≠ k → h.fs.HasSector cells m
  address : h.file.fileDataAddress = k

/-- Behind the end of the file the buffer is zero. -/
theorem prepare (stream : Stream region h front cells back extent) (room : Room region front cells back extent)
    (start : k * FAT_SECTOR_SIZE ≤ extent) {copyCount : Nat} (part : copyCount ≠ FAT_SECTOR_SIZE) :
    ∃ cells' h', h.prepareSector k copyCount = h' ∧ Goes region front back extent h h' cells cells' ∧
      Prepared region h' front cells' back extent k ∧ h'.file.bytenum = h.file.bytenum ∧
      ∀ p < extent, h'.byteAt cells' p = h.byteAt cells p := by
  by_cases here : h.file.fileDataAddress = k
  · refine ⟨cells, h, by rw [prepareSector, if_neg (not_not.mpr here)], Goes.refl h cells, ?_, rfl, fun _ _ => rfl⟩
    refine ⟨stream.volume, stream.onVolume, stream.along, ?_, here⟩
    intro m inside other
    exact (stream.disk_sector inside fun _ same => other (same.symm.trans here)).1
  · obtain ⟨cells', goes, flushed, ⟨lookup, file⟩, same⟩ := stream.flush room
    have sameBytes := byteAt_of_sectorAt fun m inside i _ => congrFun (same m inside) i
    have cleared : h.flushDirty.file.fileDataDirty = false := by rw [file]
    have onDisk := fun m inside => flushed.disk_sector (k := m) inside fun dirty =>
      by rw [cleared] at dirty; cases dirty
    have below : ∀ m, m < k → h.flushDirty.fs.HasSector cells' m := fun m less =>
      (onDisk m ((Nat.mul_lt_mul_of_pos_right less (by decide)).trans_le start)).1
    -- what comes into the buffer, from the volume or zero
    obtain ⟨content, h₁, loaded, keeps, found, seen⟩ : ∃ content h₁,
        h.prepareSector k copyCount = { h₁ with file :=
          { h₁.file with fileDataSector := content, fileDataAddress := k, fileDataDirty := false } } ∧
        h.flushDirty.fs.Keeps h₁.fs ∧ h.flushDirty.Found h₁ cells' ∧
        (k * FAT_SECTOR_SIZE < extent → ∀ i < FAT_SECTOR_SIZE, content i = h.flushDirty.sectorAt cells' k i) := by
      cases flushed.reach below with
      | inl has =>
        obtain ⟨bytes, h₁, read, keeps, found, loaded⟩ := readSectors_inside 1 flushed.volume flushed.onVolume
          (by simp) flushed.along has (by decide)
        rw [moved_one flushed.onVolume] at read loaded
        refine ⟨bytes, h₁, ?_, keeps, found, ?_⟩
        · simp only [prepareSector, ne_eq, here, not_false_eq_true, if_true, part, read, one_ne_zero, if_false]
        · intro inside i within
          have first := loaded 0 Nat.one_pos i within
          simp only [Nat.mul_zero, Nat.zero_add, Nat.add_zero] at first
          rw [first, (onDisk k inside).2 i within]
      | inr ends =>
        have positive := flushed.onVolume.cluster.1
        obtain ⟨bytes, h₁, read, keeps, found⟩ := readSectors_end 1 flushed.volume (by simp) flushed.along
          (show k / _ = _ by rw [ends, Nat.mul_div_cancel _ positive])
        refine ⟨fun _ => 0, h₁, ?_, keeps, found, ?_⟩
        · simp only [prepareSector, ne_eq, here, not_false_eq_true, if_true, part, read]
        · intro inside
          have has := (onDisk k inside).1
          rw [Geometry.HasSector, ends, Nat.mul_div_cancel _ positive] at has
          omega
    obtain ⟨stream₁, goes₁, same₁⟩ := flushed.found keeps found
    obtain ⟨lookup₁, file₁⟩ := found.file
    have both := goes.trans goes₁
    refine ⟨cells', _, loaded, ⟨both.used, both.filelength, both.flags⟩, ?_, ?_, ?_⟩
    · refine ⟨stream₁.volume, stream₁.onVolume, ⟨stream₁.along.start, stream₁.along.lookup⟩, ?_, rfl⟩
      intro m inside _
      exact (stream₁.disk_sector inside fun dirty => by rw [file₁, cleared] at dirty; cases dirty).1
    · change h₁.file.bytenum = _
      rw [file₁, file]
    · intro p inside
      have low := Nat.mod_lt p (show 0 < FAT_SECTOR_SIZE by decide)
      have split := Nat.div_add_mod p FAT_SECTOR_SIZE
      have sector : p / FAT_SECTOR_SIZE * FAT_SECTOR_SIZE < extent := by
        rw [Nat.mul_comm]
        omega
      rw [← sameBytes p inside, byteAt, byteAt, ← same₁, sectorAt]
      by_cases buffered : k = p / FAT_SECTOR_SIZE
      · rw [if_pos buffered, ← buffered, same₁]
        exact seen (buffered ▸ sector) _ low
      · rw [if_neg buffered]
        exact (stream₁.disk_sector sector fun dirty => by rw [file₁, cleared] at dirty; cases dirty).2 _ low

/-- The bytes that are copied in are the file's from then on. -/
theorem Prepared.copyIn (prepared : Prepared region h front cells back extent k) {offset copyCount : Nat}
    (bytes : Nat → UInt8) (start : k * FAT_SECTOR_SIZE + offset ≤ extent) (some_ : 0 < copyCount)
    (within : offset + copyCount ≤ FAT_SECTOR_SIZE) (extentBound : extent < 2 ^ 31)
    (bound : k * FAT_SECTOR_SIZE + offset + copyCount < 2 ^ 31) :
    Stream region (h.copyIn offset copyCount bytes) front cells back
        (max extent (k * FAT_SECTOR_SIZE + offset + copyCount)) ∧
      Puts h (h.copyIn offset copyCount bytes) cells cells (k * FAT_SECTOR_SIZE + offset) copyCount
        (max extent (k * FAT_SECTOR_SIZE + offset + copyCount)) bytes := by
  constructor
  · constructor
    · exact prepared.volume
    · exact prepared.onVolume
    · exact ⟨prepared.along.start, prepared.along.lookup⟩
    · intro m inside
      by_cases here : m = k
      · exact Or.inr ⟨rfl, prepared.address.trans here.symm⟩
      · apply Or.inl (prepared.placed m _ here)
        clear bound extentBound
        simp only [FAT_SECTOR_SIZE] at *
        omega
    · intro _
      change h.file.fileDataAddress * _ < _
      rw [prepared.address]
      clear bound extentBound
      omega
    · intro clean
      cases clean
    · omega
  · intro p inside
    have split := Nat.div_add_mod p FAT_SECTOR_SIZE
    have low := Nat.mod_lt p (show 0 < FAT_SECTOR_SIZE by decide)
    have address : (h.copyIn offset copyCount bytes).file.fileDataAddress = h.file.fileDataAddress := rfl
    clear bound extentBound
    rw [byteAt, sectorAt, byteAt, sectorAt, address]
    by_cases here : h.file.fileDataAddress = p / FAT_SECTOR_SIZE
    · have index := prepared.address.symm.trans here
      rw [if_pos here, if_pos here]
      change (if _ then _ else _) = _
      by_cases new : offset ≤ p % FAT_SECTOR_SIZE ∧ p % FAT_SECTOR_SIZE < offset + copyCount
      · rw [if_pos new, if_pos (by simp only [FAT_SECTOR_SIZE] at *; omega)]
        congr 1
        simp only [FAT_SECTOR_SIZE] at *
        omega
      · rw [if_neg new, if_neg (by simp only [FAT_SECTOR_SIZE] at *; omega)]
    · rw [if_neg here, if_neg here, if_neg]
      · rfl
      · rw [prepared.address] at here
        simp only [FAT_SECTOR_SIZE] at *
        omega

/-! ## The loop -/

/-- A round puts bytes at the position of the file, which has not moved yet. -/
structure Round (region : Region) (front back : List (List Nat)) (target : Nat) (h h' : Handle)
    (cells cells' : List Nat) (extent n : Nat) (bytes : Nat → UInt8) : Prop where
  goes : Goes region front back target h h' cells cells'
  stream : Stream region h' front cells' back (max extent (h.file.bytenum + n))
  behind : h'.file.fileDataDirty = true → h'.file.fileDataAddress * FAT_SECTOR_SIZE < h.file.bytenum + n
  bytenum : h'.file.bytenum = h.file.bytenum
  puts : Puts h h' cells cells' h.file.bytenum n (max extent (h.file.bytenum + n)) bytes

/-- A round that stores whole sectors. -/
theorem writeLoop_direct (rounds : Nat) (buffer : Nat → UInt8) (stream : Stream region h front cells back extent)
    (start : h.file.bytenum ≤ extent) (bound : h.file.bytenum + (length - bytesWritten) < 2 ^ 31)
    (room : Room region front cells back (max extent (h.file.bytenum + (length - bytesWritten))))
    (less : bytesWritten < length) (aligned : h.file.bytenum % FAT_SECTOR_SIZE = 0)
    (whole : length - bytesWritten ≥ FAT_SECTOR_SIZE) :
    ∃ cells' h' n next, 0 < n ∧ n ≤ length - bytesWritten ∧ next = (h.file.bytenum + n) / FAT_SECTOR_SIZE ∧
      (h.file.bytenum + n) % FAT_SECTOR_SIZE = 0 ∧
      writeLoop (rounds + 1) length buffer (h.file.bytenum / FAT_SECTOR_SIZE) 0 bytesWritten h =
        writeLoop rounds length buffer next 0 (bytesWritten + n) (h'.forward n) ∧
      Round region front back (max extent (h.file.bytenum + (length - bytesWritten))) h h' cells cells' extent n
        fun i => buffer (bytesWritten + i) := by
  have position : h.file.bytenum / FAT_SECTOR_SIZE * FAT_SECTOR_SIZE = h.file.bytenum :=
    Nat.div_mul_cancel (Nat.dvd_of_mod_eq_zero aligned)
  obtain ⟨cells₁, goes₁, stream₁, invalid, clean, bytenum₁, same₁⟩ :=
    stream.drop (room.mono (Nat.le_max_left _ _))
  have some_ : 0 < (length - bytesWritten) / FAT_SECTOR_SIZE := Nat.div_pos whole (by decide)
  have most := Nat.div_mul_le_self (length - bytesWritten) FAT_SECTOR_SIZE
  have top : (h.file.bytenum / FAT_SECTOR_SIZE + (length - bytesWritten) / FAT_SECTOR_SIZE) * FAT_SECTOR_SIZE ≤
      h.file.bytenum + (length - bytesWritten) := by
    rw [Nat.add_mul, position]
    exact Nat.add_le_add_left most _
  obtain ⟨cells', h', n, wrote, positive, fewer, goes', stream', bytenum', clean', puts⟩ :=
    stream₁.store invalid clean (fun i => buffer (bytesWritten + i)) (position.trans_le start) some_ top bound
      ((room.goes goes₁).mono (Nat.le_max_right _ _))
  have count : n * FAT_SECTOR_SIZE ≤ length - bytesWritten := (Nat.mul_le_mul_right _ fewer).trans most
  rw [Nat.add_mul, position] at stream' puts
  have sector : h.file.bytenum / FAT_SECTOR_SIZE + n = (h.file.bytenum + n * FAT_SECTOR_SIZE) / FAT_SECTOR_SIZE :=
    (Nat.add_mul_div_right _ _ (by decide)).symm
  have nonzero : n ≠ 0 := by omega
  refine ⟨cells', h', n * FAT_SECTOR_SIZE, _, Nat.mul_pos positive (by decide), count, sector, ?_, ?_, ?_⟩
  · rw [Nat.add_mul_mod_self_right, aligned]
  · rw [Nat.mul_comm n]
    simp only [writeLoop, if_pos less, true_and, whole, if_true, wrote, nonzero, if_false]
  · refine ⟨(goes₁.mono (Nat.le_max_left _ _)).trans (goes'.mono (Nat.le_max_right _ _)), stream', ?_,
      bytenum'.trans bytenum₁, ?_⟩
    · intro dirty
      rw [clean'] at dirty
      cases dirty
    · intro p inside
      rw [puts p inside]
      by_cases new : h.file.bytenum ≤ p ∧ p < h.file.bytenum + n * FAT_SECTOR_SIZE
      · rw [if_pos new, if_pos new]
      · rw [if_neg new, if_neg new]
        exact byteAt_of_sectorAt same₁ p (by omega)

/-- A round that changes a part of a sector in the buffer. It is the last one unless it ends with the sector. -/
theorem writeLoop_buffered (rounds : Nat) (buffer : Nat → UInt8) (stream : Stream region h front cells back extent)
    (start : h.file.bytenum ≤ extent) (bound : h.file.bytenum + (length - bytesWritten) < 2 ^ 31)
    (room : Room region front cells back (max extent (h.file.bytenum + (length - bytesWritten))))
    (less : bytesWritten < length)
    (part : ¬ (h.file.bytenum % FAT_SECTOR_SIZE = 0 ∧ length - bytesWritten ≥ FAT_SECTOR_SIZE)) :
    ∃ cells' h' n next, 0 < n ∧ n ≤ length - bytesWritten ∧
      (n < length - bytesWritten → next = (h.file.bytenum + n) / FAT_SECTOR_SIZE ∧
        (h.file.bytenum + n) % FAT_SECTOR_SIZE = 0) ∧
      writeLoop (rounds + 1) length buffer (h.file.bytenum / FAT_SECTOR_SIZE) (h.file.bytenum % FAT_SECTOR_SIZE)
          bytesWritten h =
        writeLoop rounds length buffer next 0 (bytesWritten + n) (h'.forward n) ∧
      Round region front back (max extent (h.file.bytenum + (length - bytesWritten))) h h' cells cells' extent n
        fun i => buffer (bytesWritten + i) := by
  have low := Nat.mod_lt h.file.bytenum (show 0 < FAT_SECTOR_SIZE by decide)
  have position := Nat.div_add_mod' h.file.bytenum FAT_SECTOR_SIZE
  have bound_ := stream.bound
  have copyCount : (if FAT_SECTOR_SIZE - h.file.bytenum % FAT_SECTOR_SIZE > length - bytesWritten then
      length - bytesWritten else FAT_SECTOR_SIZE - h.file.bytenum % FAT_SECTOR_SIZE) =
        min (FAT_SECTOR_SIZE - h.file.bytenum % FAT_SECTOR_SIZE) (length - bytesWritten) := by
    split <;> omega
  generalize count_ : min (FAT_SECTOR_SIZE - h.file.bytenum % FAT_SECTOR_SIZE) (length - bytesWritten) = n at *
  have most : n ≤ length - bytesWritten := by omega
  have some_ : 0 < n := by omega
  have within : h.file.bytenum % FAT_SECTOR_SIZE + n ≤ FAT_SECTOR_SIZE := by omega
  have notWhole : n ≠ FAT_SECTOR_SIZE := by omega
  have begins : h.file.bytenum / FAT_SECTOR_SIZE * FAT_SECTOR_SIZE ≤ extent :=
    (Nat.div_mul_le_self _ _).trans start
  obtain ⟨cells', h₁, loaded, goes, prepared, bytenum, same⟩ :=
    stream.prepare (room.mono (Nat.le_max_left _ _)) begins notWhole
  obtain ⟨stream', puts⟩ := prepared.copyIn (fun i => buffer (bytesWritten + i)) (by rwa [position]) some_ within bound_
    (by rw [position]; omega)
  rw [position] at stream' puts
  refine ⟨cells', h₁.copyIn (h.file.bytenum % FAT_SECTOR_SIZE) n fun i => buffer (bytesWritten + i), n,
    h.file.bytenum / FAT_SECTOR_SIZE + 1, some_, most, ?_, ?_, ?_⟩
  · intro more
    clear bound bound_ position
    simp only [FAT_SECTOR_SIZE] at *
    omega
  · simp only [writeLoop, if_pos less, if_neg part, copyCount, loaded]
  · have copied := goes.mono (Nat.le_max_left extent (h.file.bytenum + (length - bytesWritten)))
    refine ⟨⟨copied.used, copied.filelength, copied.flags⟩, stream', ?_, bytenum, ?_⟩
    · intro _
      change h₁.file.fileDataAddress * _ < _
      rw [prepared.address]
      omega
    · intro p inside
      rw [puts p inside]
      by_cases new : h.file.bytenum ≤ p ∧ p < h.file.bytenum + n
      · rw [if_pos new, if_pos new]
      · rw [if_neg new, if_neg new]
        exact same p (by omega)

/-- The loop puts the bytes of the caller from the position of the file on. -/
theorem writeLoop_spec (sector offset bytesWritten : Nat) (buffer : Nat → UInt8)
    (stream : Stream region h front cells back extent) (start : h.file.bytenum ≤ extent)
    (bound : h.file.bytenum + (length - bytesWritten) < 2 ^ 31)
    (room : Room region front cells back (max extent (h.file.bytenum + (length - bytesWritten))))
    (behind : h.file.fileDataDirty = true → h.file.fileDataAddress * FAT_SECTOR_SIZE < h.file.bytenum)
    (most : bytesWritten ≤ length) {rounds : Nat} (enough : length - bytesWritten ≤ rounds)
    (sector_ : bytesWritten < length → sector = h.file.bytenum / FAT_SECTOR_SIZE)
    (offset_ : bytesWritten < length → offset = h.file.bytenum % FAT_SECTOR_SIZE) :
    ∃ cells' h', writeLoop rounds length buffer sector offset bytesWritten h = h' ∧
      Goes region front back (max extent (h.file.bytenum + (length - bytesWritten))) h h' cells cells' ∧
      Stream region h' front cells' back (max extent (h.file.bytenum + (length - bytesWritten))) ∧
      (h'.file.fileDataDirty = true → h'.file.fileDataAddress * FAT_SECTOR_SIZE < h'.file.bytenum) ∧
      h'.file.bytenum = h.file.bytenum + (length - bytesWritten) ∧
      Puts h h' cells cells' h.file.bytenum (length - bytesWritten)
        (max extent (h.file.bytenum + (length - bytesWritten))) fun i => buffer (bytesWritten + i) := by
  induction rounds generalizing h cells extent sector offset bytesWritten with
  | zero =>
    have done : length - bytesWritten = 0 := by omega
    rw [done, Nat.add_zero, Nat.max_eq_left start]
    refine ⟨cells, h, rfl, Goes.refl h cells, stream, behind, rfl, fun p _ => ?_⟩
    rw [if_neg (by omega)]
  | succ rounds inductionHypothesis =>
    by_cases less : bytesWritten < length
    · rw [sector_ less, offset_ less]
      -- either kind of round puts some of the bytes
      obtain ⟨cells₁, h₁, n, next, some_, fits, place, step, round⟩ :
          ∃ cells₁ h₁ n next, 0 < n ∧ n ≤ length - bytesWritten ∧
            (n < length - bytesWritten → next = (h.file.bytenum + n) / FAT_SECTOR_SIZE ∧
              (h.file.bytenum + n) % FAT_SECTOR_SIZE = 0) ∧
            writeLoop (rounds + 1) length buffer (h.file.bytenum / FAT_SECTOR_SIZE)
                (h.file.bytenum % FAT_SECTOR_SIZE) bytesWritten h =
              writeLoop rounds length buffer next 0 (bytesWritten + n) (h₁.forward n) ∧
            Round region front back (max extent (h.file.bytenum + (length - bytesWritten))) h h₁ cells cells₁ extent n
        fun i => buffer (bytesWritten + i) := by
        by_cases direct : h.file.bytenum % FAT_SECTOR_SIZE = 0 ∧ length - bytesWritten ≥ FAT_SECTOR_SIZE
        · obtain ⟨cells₁, h₁, n, next, some_, fits, sector, offset, step, round⟩ :=
            writeLoop_direct rounds buffer stream start bound room less direct.1 direct.2
          rw [direct.1]
          exact ⟨cells₁, h₁, n, next, some_, fits, fun _ => ⟨sector, offset⟩, step, round⟩
        · exact writeLoop_buffered rounds buffer stream start bound room less direct
      have moved_ : (h₁.forward n).file.bytenum = h.file.bytenum + n := by
        change add32 h₁.file.bytenum _ = _
        rw [round.bytenum, add32, Nat.mod_eq_of_lt (by omega)]
      have left : h.file.bytenum + n + (length - (bytesWritten + n)) = h.file.bytenum + (length - bytesWritten) := by
        omega
      have whole : max (max extent (h.file.bytenum + n)) (h.file.bytenum + (length - bytesWritten)) =
          max extent (h.file.bytenum + (length - bytesWritten)) := by omega
      obtain ⟨cells', h', rest, later, stream', behind', end_, puts'⟩ := inductionHypothesis next 0 (bytesWritten + n)
        (round.stream.forward n) (by omega) (by omega) (by rw [moved_, left, whole]; exact room.goes round.goes)
        (by rw [moved_]; exact round.behind) (by omega) (by omega)
        (fun more => by rw [moved_]; exact (place (by omega)).1)
        (fun more => by rw [moved_]; exact (place (by omega)).2.symm)
      rw [moved_] at stream' puts' end_
      rw [moved_, left, whole] at later
      refine ⟨cells', h', step.trans rest, (round.goes.trans (goes_forward h₁ cells₁ n)).trans later, ?_, behind', ?_,
        ?_⟩
      · rwa [left, whole] at stream'
      · rwa [left] at end_
      · have parts : length - bytesWritten = n + (length - (bytesWritten + n)) := by omega
        rw [parts]
        apply round.puts.trans
        simp only [← Nat.add_assoc]
        exact puts'
    · have done : length - bytesWritten = 0 := by omega
      rw [done, Nat.add_zero h.file.bytenum, Nat.max_eq_left start]
      refine ⟨cells, h, by rw [writeLoop, if_neg less], Goes.refl h cells, stream, behind, rfl, fun p _ => ?_⟩
      rw [if_neg (by omega)]

end Stream

end Handle

end XinuStm32
