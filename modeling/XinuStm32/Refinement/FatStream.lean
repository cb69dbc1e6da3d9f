import XinuStm32.Abstract.ByteFile
import XinuStm32.Refinement.FatFile

/-!
# Bytes of an open file

The bytes of a file are what its buffer holds of one sector and what the volume holds of the others. Flushing, reading
and writing keep the bytes of the file that they do not write, whether the sector in the buffer has a cluster already or
not, and store nothing outside of the file's own clusters and the table.
-/

namespace XinuStm32

theorem Region.lt_clustersFor {region : Region} (positive : 0 < region.clusterSize) {bytes clusters : Nat} :
    clusters < region.clustersFor bytes ↔ clusters * region.clusterSize < bytes := by
  rw [clustersFor, ← Nat.succ_le_iff, Nat.le_div_iff_mul_le positive, Nat.succ_mul]
  omega

namespace Handle

variable {region : Region} {h h' h'' : Handle} {front back : List (List Nat)} {cells cells' cells'' : List Nat}
  {extent k p count : Nat} {buf : Nat → UInt8}

/-- A sector of the file. -/
def sectorAt (h : Handle) (cells : List Nat) (k : Nat) : Sector :=
  if h.file.fileDataAddress = k then h.file.fileDataSector else h.fs.disk (h.fs.fileLba cells k)

/-- A byte of the file. -/
def byteAt (h : Handle) (cells : List Nat) (p : Nat) : UInt8 :=
  h.sectorAt cells (p / FAT_SECTOR_SIZE) (p % FAT_SECTOR_SIZE)

/-- The bytes of the file from a place on. -/
def bytesAt (h : Handle) (cells : List Nat) (start count : Nat) : List UInt8 :=
  (List.range count).map fun i => h.byteAt cells (start + i)

/-- Every sector of the file up to an extent has its cluster, but for the one in the buffer when that has changed; a
buffer that has not changed holds what the volume does. -/
structure Stream (region : Region) (h : Handle) (front : List (List Nat)) (cells : List Nat) (back : List (List Nat))
    (extent : Nat) : Prop where
  volume : Volume region h.fs (front ++ cells :: back)
  onVolume : region.OnVolume h.fs.toGeometry
  along : h.file.Along cells
  placed : ∀ k, k * FAT_SECTOR_SIZE < extent →
    h.fs.HasSector cells k ∨ (h.file.fileDataDirty = true ∧ h.file.fileDataAddress = k)
  dirty : h.file.fileDataDirty = true → h.file.fileDataAddress * FAT_SECTOR_SIZE < extent
  clean : h.file.fileDataDirty = false → h.file.fileDataAddress ≠ 0xFFFFFFFF →
    h.fs.HasSector cells h.file.fileDataAddress ∧
      ∀ i < FAT_SECTOR_SIZE, h.file.fileDataSector i = h.fs.disk (h.fs.fileLba cells h.file.fileDataAddress) i
  bound : extent < 2 ^ 31

/-- The chain, with the clusters that are free, has enough for a number of bytes. -/
def Room (region : Region) (front : List (List Nat)) (cells : List Nat) (back : List (List Nat)) (bytes : Nat) : Prop :=
  region.clustersFor bytes ≤ cells.length + (region.free (front ++ cells :: back)).ncard

/-- What happens to the file system when one file is used: its chain may get as long as a number of bytes takes, with
clusters that are free, and nothing is stored but in the table and in its own sectors. -/
structure Used (region : Region) (front back : List (List Nat)) (target : Nat) (fs fs' : Fatfs)
    (cells cells' : List Nat) : Prop where
  geometry : fs'.toGeometry = fs.toGeometry
  longer : cells <+: cells'
  kept : cells'.length + (region.free (front ++ cells' :: back)).ncard =
    cells.length + (region.free (front ++ cells :: back)).ncard
  outside : ∀ a, ¬ fs.InFat a → ¬ fs.IsInfo a → (∀ k, fs.HasSector cells' k → a ≠ fs.fileLba cells' k) →
    fs'.disk a = fs.disk a
  fewer : cells'.length ≤ max cells.length (region.clustersFor target)

/-- The file is the same one, with the same length. -/
structure Goes (region : Region) (front back : List (List Nat)) (target : Nat) (h h' : Handle)
    (cells cells' : List Nat) : Prop where
  used : Used region front back target h.fs h'.fs cells cells'
  filelength : h'.file.filelength = h.file.filelength
  flags : h'.file.flags = h.file.flags

theorem Used.refl (fs : Fatfs) (cells : List Nat) : Used region front back extent fs fs cells cells :=
  ⟨rfl, List.prefix_refl cells, rfl, fun _ _ _ _ => rfl, Nat.le_max_left _ _⟩

theorem Used.trans {fs fs' fs'' : Fatfs} (first : Used region front back extent fs fs' cells cells')
    (second : Used region front back extent fs' fs'' cells' cells'') :
    Used region front back extent fs fs'' cells cells'' where
  geometry := second.geometry.trans first.geometry
  longer := first.longer.trans second.longer
  kept := second.kept.trans first.kept
  outside a outside notInfo notOwn := by
    have later := second.outside a (first.geometry ▸ outside) (first.geometry ▸ notInfo) (first.geometry ▸ notOwn)
    rw [later]
    apply first.outside a outside notInfo
    intro k has
    rw [← Geometry.fileLba_isPrefix has second.longer]
    exact notOwn k (has.mono second.longer)
  fewer := second.fewer.trans (max_le first.fewer (Nat.le_max_right _ _))

theorem Goes.refl (h : Handle) (cells : List Nat) : Goes region front back extent h h cells cells :=
  ⟨Used.refl h.fs cells, rfl, rfl⟩

theorem Goes.trans (first : Goes region front back extent h h' cells cells')
    (second : Goes region front back extent h' h'' cells' cells'') :
    Goes region front back extent h h'' cells cells'' :=
  ⟨first.used.trans second.used, second.filelength.trans first.filelength, second.flags.trans first.flags⟩

theorem Region.clustersFor_mono {less more : Nat} (le : less ≤ more) :
    region.clustersFor less ≤ region.clustersFor more := Nat.div_le_div_right (by omega)

theorem Goes.mono {less more : Nat} (goes : Goes region front back less h h' cells cells') (le : less ≤ more) :
    Goes region front back more h h' cells cells' :=
  ⟨⟨goes.used.geometry, goes.used.longer, goes.used.kept, goes.used.outside,
    goes.used.fewer.trans (max_le_max_left _ (Region.clustersFor_mono le))⟩, goes.filelength, goes.flags⟩

theorem Room.mono {bytes : Nat} (room : Room region front cells back extent) (less : bytes ≤ extent) :
    Room region front cells back bytes :=
  (Region.clustersFor_mono less).trans room

theorem Room.goes {target : Nat} (room : Room region front cells back extent)
    (goes : Goes region front back target h h' cells cells') :
    Room region front cells' back extent := by
  rw [Room] at room ⊢
  exact goes.used.kept ▸ room

namespace Stream

theorem nonempty (stream : Stream region h front cells back extent) : cells ≠ [] :=
  List.ne_nil_of_length_pos stream.along.nonempty

theorem low (stream : Stream region h front cells back extent) : ∀ c ∈ cells, 2 ≤ c := fun c among =>
  stream.volume.fits.low c (stream.volume.usable_of_mem (by simp) among)

theorem apart (stream : Stream region h front cells back extent) : cells.Nodup :=
  stream.volume.allocation.apart_of_mem (by simp)

theorem finite (stream : Stream region h front cells back extent) :
    (region.free (front ++ cells :: back)).Finite := by
  apply (Set.finite_lt_nat h.fs.linkBound).subset
  intro c isFree
  exact stream.volume.fits.high c isFree.1

/-- Looking a cluster up changes nothing in the file. -/
theorem found (stream : Stream region h front cells back extent) (keeps : h.fs.Keeps h'.fs)
    (found : h.Found h' cells) :
    Stream region h' front cells back extent ∧ Goes region front back extent h h' cells cells ∧
      ∀ k, h'.sectorAt cells k = h.sectorAt cells k := by
  obtain ⟨⟨lookup, file⟩, along⟩ := found
  have same : ∀ k, h'.fs.disk (h.fs.fileLba cells k) = h.fs.disk (h.fs.fileLba cells k) := fun k =>
    keeps.outside _ (stream.onVolume.outside cells k).1
  refine ⟨?_, ?_, ?_⟩
  · constructor
    · exact (stream.volume.keeps keeps).volume
    · exact keeps.geometry ▸ stream.onVolume
    · exact along
    · intro k before
      rw [keeps.geometry, file]
      exact stream.placed k before
    · rw [file]
      exact stream.dirty
    · rw [file, keeps.geometry]
      intro clean valid
      obtain ⟨has, bytes⟩ := stream.clean clean valid
      exact ⟨has, fun i inside => (bytes i inside).trans (congrFun (same _) i).symm⟩
    · exact stream.bound
  · exact ⟨⟨keeps.geometry, List.prefix_refl cells, rfl, fun a outside _ _ => keeps.outside a outside,
      Nat.le_max_left _ _⟩, by rw [file], by rw [file]⟩
  · intro k
    rw [sectorAt, sectorAt, file, keeps.geometry, same]

end Stream


/-! ## Storing sectors -/

theorem hasSector_moved (onVolume : region.OnVolume h.fs.toGeometry) (has : h.fs.HasSector cells k) {j : Nat}
    (inside : j < moved h.fs.toGeometry k count) : h.fs.HasSector cells (k + j) := by
  rw [Geometry.HasSector, (within_cluster cells onVolume inside).1]
  exact has

namespace Stream

/-- The sectors of a file that are not written stay. -/
theorem other_sector (stream : Stream region h front cells back extent)
    (wrote : Wrote region h h' front cells' back k (moved h.fs.toGeometry k count) buf) (longer : cells <+: cells')
    (has' : h.fs.HasSector cells' k) {m : Nat} (has : h.fs.HasSector cells m)
    (other : m < k ∨ k + moved h.fs.toGeometry k count ≤ m) :
    h'.fs.disk (h.fs.fileLba cells' m) = h.fs.disk (h.fs.fileLba cells m) := by
  have usable' : ∀ c ∈ cells', region.usable c := fun c => wrote.volume.usable_of_mem (by simp)
  have low' : ∀ c ∈ cells', 2 ≤ c := fun c among => wrote.volume.fits.low c (usable' c among)
  have apart' : cells'.Nodup := wrote.volume.allocation.apart_of_mem (by simp)
  obtain ⟨outside, notInfo⟩ := stream.onVolume.outside cells' m
  rw [wrote.outside _ outside notInfo, Geometry.fileLba_isPrefix has longer]
  intro j inside
  apply Geometry.fileLba_ne stream.onVolume.cluster.1 low' apart' (has.mono longer)
    (hasSector_moved stream.onVolume has' inside)
  omega

theorem goes_of_wrote (stream : Stream region h front cells back extent)
    (wrote : Wrote region h h' front cells' back k (moved h.fs.toGeometry k count) buf) (longer : cells <+: cells')
    (kept : cells'.length + (region.free (front ++ cells' :: back)).ncard =
      cells.length + (region.free (front ++ cells :: back)).ncard)
    (has' : h.fs.HasSector cells' k) {target : Nat}
    (fewer : cells'.length ≤ max cells.length (region.clustersFor target)) :
    Goes region front back target h h' cells cells' := by
  obtain ⟨lookup, file⟩ := wrote.found.file
  refine ⟨⟨wrote.geometry, longer, kept, ?_, fewer⟩, by rw [file], by rw [file]⟩
  intro a outside notInfo notOwn
  exact wrote.outside a outside notInfo fun j inside =>
    notOwn (k + j) (hasSector_moved stream.onVolume has' inside)

/-- Sectors are stored inside the chain or right behind it, where the free clusters suffice. -/
theorem write (buf : Nat → UInt8) (target : Nat) (stream : Stream region h front cells back extent)
    (reach : h.fs.HasSector cells k ∨ k = cells.length * h.fs.sectorsPerCluster) (some_ : 0 < count)
    (small : count < 2 ^ 31) (covered : (k + count - 1) * FAT_SECTOR_SIZE < target)
    (room : Room region front cells back target) :
    ∃ cells' h', h.writeSectors k buf count = (moved h.fs.toGeometry k count, h') ∧ h.fs.HasSector cells' k ∧
      cells <+: cells' ∧ Wrote region h h' front cells' back k (moved h.fs.toGeometry k count) buf ∧
      Goes region front back target h h' cells cells' := by
  have positive := stream.onVolume.cluster.1
  cases reach with
  | inl has =>
    obtain ⟨h', wrote, effect⟩ := writeSectors_inside buf stream.volume stream.onVolume stream.along has small
    exact ⟨cells, h', wrote, has, List.prefix_refl cells, effect,
      stream.goes_of_wrote effect (List.prefix_refl cells) rfl has (Nat.le_max_left _ _)⟩
  | inr ends =>
    have quotient : k / h.fs.sectorsPerCluster = cells.length := by rw [ends, Nat.mul_div_cancel _ positive]
    -- the clusters that the sectors take are free
    have size := stream.volume.fits.size
    have enough : cells.length + (count + h.fs.sectorsPerCluster - 1) / h.fs.sectorsPerCluster ≤
        region.clustersFor target := by
      have up := Nat.div_mul_le_self (count + h.fs.sectorsPerCluster - 1) h.fs.sectorsPerCluster
      have one : 0 < (count + h.fs.sectorsPerCluster - 1) / h.fs.sectorsPerCluster :=
        Nat.div_pos (by omega) positive
      generalize (count + h.fs.sectorsPerCluster - 1) / h.fs.sectorsPerCluster = more at up one
      have last : cells.length + more - 1 < region.clustersFor target := by
        rw [Region.lt_clustersFor stream.volume.fits.positive, size, ← Nat.mul_assoc]
        apply lt_of_le_of_lt _ covered
        apply Nat.mul_le_mul_right
        have split : (cells.length + more - 1) * h.fs.sectorsPerCluster + h.fs.sectorsPerCluster =
            cells.length * h.fs.sectorsPerCluster + more * h.fs.sectorsPerCluster := by
          rw [← Nat.succ_mul, ← Nat.add_mul]
          congr 1
          omega
        omega
      omega
    obtain ⟨cells', grows, length, kept⟩ := Region.exists_grows stream.finite (Nat.le_of_add_le_add_left
      (enough.trans room))
    have one : 0 < (count + h.fs.sectorsPerCluster - 1) / h.fs.sectorsPerCluster := Nat.div_pos (by omega) positive
    obtain ⟨h', wrote, effect⟩ := writeSectors_end buf stream.volume stream.onVolume stream.along quotient
      some_ small grows (by omega)
    have has : h.fs.HasSector cells' k := by
      rw [Geometry.HasSector, quotient]
      omega
    exact ⟨cells', h', wrote, has, grows.isPrefix, effect,
      stream.goes_of_wrote effect grows.isPrefix (by omega) has (by omega)⟩

/-- A sector up to the extent that has no cluster yet comes right behind the last one. -/
theorem reach (stream : Stream region h front cells back extent)
    (before : ∀ m, m < k → h.fs.HasSector cells m) :
    h.fs.HasSector cells k ∨ k = cells.length * h.fs.sectorsPerCluster := by
  have positive := stream.onVolume.cluster.1
  by_cases has : h.fs.HasSector cells k
  · exact Or.inl has
  · right
    have behind : cells.length * h.fs.sectorsPerCluster ≤ k := by
      rw [Geometry.HasSector, Nat.not_lt] at has
      exact (Nat.le_div_iff_mul_le positive).mp has
    by_contra more
    have last := before (cells.length * h.fs.sectorsPerCluster) (by omega)
    rw [Geometry.HasSector, Nat.mul_div_cancel _ positive] at last
    omega

/-! ## Flushing -/

/-- The buffer is written back into its sector, which gets a cluster if it has none. -/
theorem flush (stream : Stream region h front cells back extent) (room : Room region front cells back extent) :
    ∃ cells', Goes region front back extent h h.flushDirty cells cells' ∧
      Stream region h.flushDirty front cells' back extent ∧
      (∃ lookup, h.flushDirty.file = { h.file with lastFatLookup := lookup, fileDataDirty := false }) ∧
      ∀ k, k * FAT_SECTOR_SIZE < extent → h.flushDirty.sectorAt cells' k = h.sectorAt cells k := by
  cases changed : h.file.fileDataDirty with
  | false =>
    have same : h.flushDirty = h := by rw [flushDirty, changed]; rfl
    rw [same]
    refine ⟨cells, Goes.refl h cells, stream, ⟨h.file.lastFatLookup, ?_⟩, fun _ _ => rfl⟩
    rw [← changed]
  | true =>
    have before := stream.dirty changed
    have below : ∀ m, m < h.file.fileDataAddress → h.fs.HasSector cells m := by
      intro m less
      have inside : m * FAT_SECTOR_SIZE < extent := (Nat.mul_le_mul_right _ less.le).trans_lt before
      cases stream.placed m inside with
      | inl has => exact has
      | inr buffered => omega
    obtain ⟨cells', h', wrote, has, longer, effect, goes⟩ := stream.write h.file.fileDataSector extent
      (stream.reach below) Nat.one_pos (by decide) (by simpa using before) room
    have one := moved_one stream.onVolume h.file.fileDataAddress
    obtain ⟨lookup, file⟩ := effect.found.file
    have flushed : h.flushDirty = { h' with file := { h'.file with fileDataDirty := false } } := by
      rw [flushDirty, changed, if_pos rfl, flFflush, changed, if_pos rfl, wrote, one]
    have stored := effect.stored 0 (by omega)
    have others : ∀ m, m ≠ h.file.fileDataAddress → h.fs.HasSector cells m →
        h'.fs.disk (h.fs.fileLba cells' m) = h.fs.disk (h.fs.fileLba cells m) := by
      intro m other hasOther
      exact stream.other_sector effect longer has hasOther (by omega)
    rw [flushed]
    refine ⟨cells', ⟨goes.used, goes.filelength, goes.flags⟩,
      ?_, ⟨lookup, by rw [file]⟩, ?_⟩
    · constructor
      · exact effect.volume
      · exact effect.geometry ▸ stream.onVolume
      · exact ⟨effect.found.along.start, effect.found.along.lookup⟩
      · intro m inside
        left
        change h'.fs.HasSector cells' m
        rw [effect.geometry]
        cases stream.placed m inside with
        | inl hasOther => exact hasOther.mono longer
        | inr buffered => exact buffered.2 ▸ has
      · intro dirty
        cases dirty
      · intro _ _
        change h'.fs.HasSector cells' h'.file.fileDataAddress ∧ ∀ i < FAT_SECTOR_SIZE, h'.file.fileDataSector i =
          h'.fs.disk (h'.fs.fileLba cells' h'.file.fileDataAddress) i
        rw [effect.geometry, file]
        refine ⟨has, fun i _ => ?_⟩
        change h.file.fileDataSector i = h'.fs.disk (h.fs.fileLba cells' h.file.fileDataAddress) i
        rw [Nat.add_zero] at stored
        simp only [stored, Nat.mul_zero, Nat.zero_add]
      · exact stream.bound
    · intro m inside
      simp only [sectorAt]
      rw [file]
      by_cases here : h.file.fileDataAddress = m
      · rw [if_pos here, if_pos here]
      · rw [if_neg here, if_neg here, effect.geometry]
        apply others m (Ne.symm here)
        cases stream.placed m inside with
        | inl hasOther => exact hasOther
        | inr buffered => exact absurd buffered.2 here

end Stream


/-! ## Reading -/

namespace Stream

variable {rounds bytesRead sector offset : Nat} {bytes : List UInt8}

/-- What the volume has of a sector is what is seen of it, unless the buffer has changed it. -/
theorem disk_sector (stream : Stream region h front cells back extent) (inside : k * FAT_SECTOR_SIZE < extent)
    (unchanged : h.file.fileDataDirty = true → h.file.fileDataAddress ≠ k) :
    h.fs.HasSector cells k ∧ ∀ i < FAT_SECTOR_SIZE, h.fs.disk (h.fs.fileLba cells k) i = h.sectorAt cells k i := by
  constructor
  · cases stream.placed k inside with
    | inl has => exact has
    | inr buffered => exact absurd buffered.2 (unchanged buffered.1)
  · intro i within
    rw [sectorAt]
    by_cases here : h.file.fileDataAddress = k
    · rw [if_pos here]
      cases changed : h.file.fileDataDirty with
      | true => exact absurd here (unchanged changed)
      | false =>
        have bound := stream.bound
        have valid : h.file.fileDataAddress ≠ 0xFFFFFFFF := by
          simp only [FAT_SECTOR_SIZE] at inside
          omega
        exact here ▸ ((stream.clean changed valid).2 i within).symm
    · rw [if_neg here]

/-- The sector comes into the buffer, and the file is what it was. -/
theorem reread (stream : Stream region h front cells back extent) (room : Room region front cells back extent)
    (inside : k * FAT_SECTOR_SIZE < extent) :
    ∃ cells' h', h.rereadSector k = (true, h') ∧ Goes region front back extent h h' cells cells' ∧
      Stream region h' front cells' back extent ∧ h'.file.fileDataAddress = k ∧
      (h'.file.fileDataDirty = true → h.file.fileDataDirty = true) ∧ h'.file.bytenum = h.file.bytenum ∧
      ∀ m, m * FAT_SECTOR_SIZE < extent → ∀ i < FAT_SECTOR_SIZE, h'.sectorAt cells' m i = h.sectorAt cells m i := by
  by_cases here : h.file.fileDataAddress = k
  · refine ⟨cells, h, ?_, Goes.refl h cells, stream, here, id, rfl, fun _ _ _ _ => rfl⟩
    rw [rereadSector, if_neg (not_not.mpr here)]
  · obtain ⟨cells', goes, flushed, ⟨lookup, file⟩, same⟩ := stream.flush room
    have cleared : h.flushDirty.file.fileDataDirty = false := by rw [file]
    obtain ⟨has, onDisk⟩ := flushed.disk_sector inside fun dirty => by rw [cleared] at dirty; cases dirty
    obtain ⟨bytes, h₁, read, keeps, found, loaded⟩ := readSectors_inside 1 flushed.volume flushed.onVolume
      (by simp) flushed.along has (by decide)
    have one := moved_one flushed.onVolume k
    obtain ⟨stream₁, goes₁, same₁⟩ := flushed.found keeps found
    obtain ⟨lookup₁, file₁⟩ := found.file
    rw [one] at read
    have content : ∀ i < FAT_SECTOR_SIZE, bytes i = h₁.fs.disk (h₁.fs.fileLba cells' k) i := by
      intro i within
      have first := loaded 0 (by omega) i within
      simp only [Nat.mul_zero, Nat.zero_add, Nat.add_zero] at first
      rw [first, keeps.geometry, keeps.outside _ (flushed.onVolume.outside cells' k).1]
    refine ⟨cells', { h₁ with file := { h₁.file with
      fileDataSector := bytes, fileDataAddress := k, fileDataDirty := false } }, ?_, ?_, ?_, rfl, ?_, ?_, ?_⟩
    · simp only [rereadSector, ne_eq, here, not_false_eq_true, if_true, read, one_ne_zero, if_false]
    · have both := goes.trans goes₁
      exact ⟨both.used, both.filelength, both.flags⟩
    · constructor
      · exact stream₁.volume
      · exact stream₁.onVolume
      · exact ⟨stream₁.along.start, stream₁.along.lookup⟩
      · intro m before
        exact Or.inl (stream₁.disk_sector before fun dirty => by rw [file₁, cleared] at dirty; cases dirty).1
      · intro dirty
        cases dirty
      · intro _ _
        refine ⟨?_, content⟩
        change h₁.fs.HasSector cells' k
        rw [keeps.geometry]
        exact has
      · exact stream₁.bound
    · intro dirty
      cases dirty
    · change h₁.file.bytenum = h.file.bytenum
      rw [file₁, file]
    · intro m before i within
      rw [← congrFun (same m before) i, ← congrFun (same₁ m) i]
      simp only [sectorAt]
      by_cases loadedHere : k = m
      · -- the buffer holds what the volume does
        subst loadedHere
        rw [if_pos rfl, content i within]
        have seen := (stream₁.disk_sector before fun dirty => by rw [file₁, cleared] at dirty; cases dirty).2 i within
        rw [seen, sectorAt]
      · rw [if_neg loadedHere]
        have seen := (stream₁.disk_sector before fun dirty => by rw [file₁, cleared] at dirty; cases dirty).2 i within
        rw [seen, sectorAt]

theorem bytesAt_add (start first second : Nat) :
    bytesAt h cells start (first + second) = bytesAt h cells start first ++ bytesAt h cells (start + first) second := by
  simp only [bytesAt, List.range_add, List.map_append, List.map_map, Function.comp_def, Nat.add_assoc]

theorem bytesAt_congr {start : Nat} (within : start + count ≤ extent)
    (same : ∀ p < extent, h'.byteAt cells' p = h.byteAt cells p) :
    bytesAt h' cells' start count = bytesAt h cells start count := by
  apply List.map_congr_left
  intro i inside
  exact same _ (by have := List.mem_range.mp inside; omega)

theorem byteAt_of_sectorAt
    (same : ∀ m, m * FAT_SECTOR_SIZE < extent → ∀ i < FAT_SECTOR_SIZE, h'.sectorAt cells' m i = h.sectorAt cells m i) :
    ∀ p < extent, h'.byteAt cells' p = h.byteAt cells p := by
  intro p inside
  have split := Nat.div_add_mod p FAT_SECTOR_SIZE
  have low := Nat.mod_lt p (show 0 < FAT_SECTOR_SIZE by decide)
  exact same _ (by rw [Nat.mul_comm]; omega) _ low

theorem forward (stream : Stream region h front cells back extent) (n : Nat) :
    Stream region (h.forward n) front cells back extent where
  volume := stream.volume
  onVolume := stream.onVolume
  along := ⟨stream.along.start, stream.along.lookup⟩
  placed := stream.placed
  dirty := stream.dirty
  clean := stream.clean
  bound := stream.bound

theorem goes_forward (h : Handle) (cells : List Nat) (n : Nat) :
    Goes region front back extent h (h.forward n) cells cells :=
  ⟨Used.refl h.fs cells, rfl, rfl⟩

/-- A place in a sector. -/
theorem place {p i : Nat} (inside : p % FAT_SECTOR_SIZE + i < FAT_SECTOR_SIZE) :
    (p + i) / FAT_SECTOR_SIZE = p / FAT_SECTOR_SIZE ∧ (p + i) % FAT_SECTOR_SIZE = p % FAT_SECTOR_SIZE + i := by
  simp only [FAT_SECTOR_SIZE] at inside ⊢
  omega

/-- A round that reads whole sectors right into the buffer of the caller. -/
theorem readLoop_direct (rounds : Nat) (bytes : List UInt8) (stream : Stream region h front cells back extent)
    (behind : h.file.fileDataDirty = true → h.file.fileDataAddress * FAT_SECTOR_SIZE < h.file.bytenum)
    (within : h.file.bytenum + (count - bytesRead) ≤ extent) (less : bytesRead < count)
    (aligned : h.file.bytenum % FAT_SECTOR_SIZE = 0) (whole : count - bytesRead ≥ FAT_SECTOR_SIZE) :
    ∃ n h', 0 < n ∧ FAT_SECTOR_SIZE * n ≤ count - bytesRead ∧
      readLoop (rounds + 1) count (h.file.bytenum / FAT_SECTOR_SIZE) 0 bytesRead bytes h =
        readLoop rounds count (h.file.bytenum / FAT_SECTOR_SIZE + n) 0 (bytesRead + FAT_SECTOR_SIZE * n)
          (bytes ++ bytesAt h cells h.file.bytenum (FAT_SECTOR_SIZE * n)) (h'.forward (FAT_SECTOR_SIZE * n)) ∧
      Goes region front back extent h h' cells cells ∧ Stream region h' front cells back extent ∧
      h'.file.fileDataDirty = h.file.fileDataDirty ∧ h'.file.fileDataAddress = h.file.fileDataAddress ∧
      h'.file.bytenum = h.file.bytenum ∧ ∀ k, h'.sectorAt cells k = h.sectorAt cells k := by
  have bound := stream.bound
  have start : h.file.bytenum / FAT_SECTOR_SIZE * FAT_SECTOR_SIZE = h.file.bytenum :=
    Nat.div_mul_cancel (Nat.dvd_of_mod_eq_zero aligned)
  have ahead : h.file.fileDataDirty = true → ∀ j, h.file.fileDataAddress ≠ h.file.bytenum / FAT_SECTOR_SIZE + j := by
    intro dirty j here
    have before := behind dirty
    rw [here, Nat.add_mul, start] at before
    omega
  generalize sector_ : h.file.bytenum / FAT_SECTOR_SIZE = sector at *
  generalize count_ : (count - bytesRead) / FAT_SECTOR_SIZE = sectors
  have some_ : 0 < sectors := count_ ▸ Nat.div_pos whole (by decide)
  have most : FAT_SECTOR_SIZE * sectors ≤ count - bytesRead := count_ ▸ Nat.mul_div_le _ _
  have small : sectors < 2 ^ 31 := by
    simp only [FAT_SECTOR_SIZE] at most
    omega
  obtain ⟨has, -⟩ := stream.disk_sector (k := sector) (by simp only [FAT_SECTOR_SIZE] at *; omega)
    fun dirty => ahead dirty 0
  obtain ⟨f, h', read, keeps, found, loaded⟩ := readSectors_inside sectors stream.volume stream.onVolume
    (by simp) stream.along has small
  have positive := moved_pos stream.onVolume sector some_
  have fewer : moved h.fs.toGeometry sector sectors ≤ sectors := Nat.min_le_left _ _
  generalize moved_ : moved h.fs.toGeometry sector sectors = n at *
  obtain ⟨stream', goes, same⟩ := stream.found keeps found
  obtain ⟨lookup, file⟩ := found.file
  have fits : FAT_SECTOR_SIZE * n ≤ count - bytesRead := (Nat.mul_le_mul_left _ fewer).trans most
  refine ⟨n, h', positive, fits, ?_, goes, stream', by rw [file], by rw [file], by rw [file], same⟩
  have copied : (List.range (FAT_SECTOR_SIZE * n)).map f = bytesAt h cells h.file.bytenum (FAT_SECTOR_SIZE * n) := by
    apply List.map_congr_left
    intro i inside
    rw [List.mem_range] at inside
    have j : i / FAT_SECTOR_SIZE < n := Nat.div_lt_of_lt_mul inside
    have low := Nat.mod_lt i (show 0 < FAT_SECTOR_SIZE by decide)
    have split := Nat.div_add_mod i FAT_SECTOR_SIZE
    have onDisk := loaded (i / FAT_SECTOR_SIZE) j (i % FAT_SECTOR_SIZE) low
    rw [split] at onDisk
    have inFile : (sector + i / FAT_SECTOR_SIZE) * FAT_SECTOR_SIZE < extent := by
      simp only [FAT_SECTOR_SIZE] at *
      omega
    rw [onDisk, (stream.disk_sector inFile fun dirty => ahead dirty _).2 _ low, byteAt]
    congr 1
    · simp only [FAT_SECTOR_SIZE] at *
      omega
    · simp only [FAT_SECTOR_SIZE] at *
      omega
  have nonzero : n ≠ 0 := by omega
  simp only [readLoop, if_pos less, true_and, whole, if_true, count_,
    read, ne_eq, nonzero, not_false_eq_true, copied]

/-- A round that copies bytes out of the buffer of the file. -/
theorem readLoop_buffered (rounds : Nat) (bytes : List UInt8) (stream : Stream region h front cells back extent)
    (room : Room region front cells back extent)
    (within : h.file.bytenum + (count - bytesRead) ≤ extent) (less : bytesRead < count)
    (part : ¬ (h.file.bytenum % FAT_SECTOR_SIZE = 0 ∧ count - bytesRead ≥ FAT_SECTOR_SIZE)) :
    ∃ cells' h' n, n = min (FAT_SECTOR_SIZE - h.file.bytenum % FAT_SECTOR_SIZE) (count - bytesRead) ∧
      readLoop (rounds + 1) count (h.file.bytenum / FAT_SECTOR_SIZE)
        (h.file.bytenum % FAT_SECTOR_SIZE) bytesRead bytes h =
        readLoop rounds count (h.file.bytenum / FAT_SECTOR_SIZE + 1) 0 (bytesRead + n)
          (bytes ++ bytesAt h cells h.file.bytenum n) (h'.forward n) ∧
      Goes region front back extent h h' cells cells' ∧ Stream region h' front cells' back extent ∧
      h'.file.fileDataAddress = h.file.bytenum / FAT_SECTOR_SIZE ∧
      (h'.file.fileDataDirty = true → h.file.fileDataDirty = true) ∧ h'.file.bytenum = h.file.bytenum ∧
      ∀ p < extent, h'.byteAt cells' p = h.byteAt cells p := by
  have split := Nat.div_add_mod h.file.bytenum FAT_SECTOR_SIZE
  have low := Nat.mod_lt h.file.bytenum (show 0 < FAT_SECTOR_SIZE by decide)
  obtain ⟨cells', h', reread, goes, stream', address, dirty, bytenum, same⟩ :=
    stream.reread (k := h.file.bytenum / FAT_SECTOR_SIZE) room (by rw [Nat.mul_comm]; omega)
  have sameBytes := byteAt_of_sectorAt same
  refine ⟨cells', h', _, rfl, ?_, goes, stream', address, dirty, bytenum, sameBytes⟩
  have copied : (List.range (min (FAT_SECTOR_SIZE - h.file.bytenum % FAT_SECTOR_SIZE) (count - bytesRead))).map
      (fun i => h'.file.fileDataSector (h.file.bytenum % FAT_SECTOR_SIZE + i)) = bytesAt h cells h.file.bytenum
        (min (FAT_SECTOR_SIZE - h.file.bytenum % FAT_SECTOR_SIZE) (count - bytesRead)) := by
    apply List.map_congr_left
    intro i inside
    rw [List.mem_range] at inside
    obtain ⟨quotient, rest⟩ := place (p := h.file.bytenum) (i := i) (by omega)
    rw [← sameBytes _ (by omega), byteAt, quotient, rest, sectorAt, if_pos address]
  have copyCount : (if FAT_SECTOR_SIZE - h.file.bytenum % FAT_SECTOR_SIZE > count - bytesRead then count - bytesRead
      else FAT_SECTOR_SIZE - h.file.bytenum % FAT_SECTOR_SIZE) =
        min (FAT_SECTOR_SIZE - h.file.bytenum % FAT_SECTOR_SIZE) (count - bytesRead) := by
    split <;> omega
  simp only [readLoop, if_pos less, if_neg part, reread, copyCount, copied]

/-- The loop reads the bytes of the file from its position on. -/
theorem readLoop_spec (sector offset bytesRead : Nat) (bytes : List UInt8)
    (stream : Stream region h front cells back extent) (room : Room region front cells back extent)
    (behind : h.file.fileDataDirty = true → h.file.fileDataAddress * FAT_SECTOR_SIZE < h.file.bytenum)
    (within : h.file.bytenum + (count - bytesRead) ≤ extent) (most : bytesRead ≤ count)
    (enough : count - bytesRead ≤ rounds) (sector_ : bytesRead < count → sector = h.file.bytenum / FAT_SECTOR_SIZE)
    (offset_ : bytesRead < count → offset = h.file.bytenum % FAT_SECTOR_SIZE) :
    ∃ cells' h', readLoop rounds count sector offset bytesRead bytes h =
        ((count, bytes ++ bytesAt h cells h.file.bytenum (count - bytesRead)), h') ∧
      Goes region front back extent h h' cells cells' ∧ Stream region h' front cells' back extent ∧
      (h'.file.fileDataDirty = true →
        h.file.fileDataDirty = true ∧ h'.file.fileDataAddress * FAT_SECTOR_SIZE < h'.file.bytenum) ∧
      h'.file.bytenum = h.file.bytenum + (count - bytesRead) ∧
      ∀ p < extent, h'.byteAt cells' p = h.byteAt cells p := by
  induction rounds generalizing h cells sector offset bytesRead bytes with
  | zero =>
    have done : bytesRead = count := by omega
    subst done
    refine ⟨cells, h, ?_, Goes.refl h cells, stream, fun dirty => ⟨dirty, behind dirty⟩, by omega, fun _ _ => rfl⟩
    rw [readLoop, Nat.sub_self, bytesAt, List.range_zero, List.map_nil, List.append_nil]
  | succ rounds inductionHypothesis =>
    by_cases less : bytesRead < count
    · rw [sector_ less, offset_ less]
      have bound := stream.bound
      by_cases direct : h.file.bytenum % FAT_SECTOR_SIZE = 0 ∧ count - bytesRead ≥ FAT_SECTOR_SIZE
      · obtain ⟨n, h₁, some_, fits, step, goes, stream₁, dirty, address, bytenum, same⟩ :=
          readLoop_direct rounds bytes stream behind within less direct.1 direct.2
        have moved_ : (h₁.forward (FAT_SECTOR_SIZE * n)).file.bytenum = h.file.bytenum + FAT_SECTOR_SIZE * n := by
          change add32 h₁.file.bytenum _ = _
          rw [bytenum, add32, Nat.mod_eq_of_lt (by omega)]
        obtain ⟨cells', h', rest, later, stream', behind', end_, same'⟩ := inductionHypothesis
          (h.file.bytenum / FAT_SECTOR_SIZE + n) 0 (bytesRead + FAT_SECTOR_SIZE * n)
          (bytes ++ bytesAt h cells h.file.bytenum (FAT_SECTOR_SIZE * n)) (stream₁.forward _) room
          (by
            intro isDirty
            rw [moved_]
            exact (address ▸ behind (dirty ▸ isDirty)).trans_le (Nat.le_add_right _ _))
          (by rw [moved_]; omega) (by omega) (by simp only [FAT_SECTOR_SIZE] at *; omega)
          (by intro _; rw [moved_]; simp only [FAT_SECTOR_SIZE] at *; omega)
          (by intro _; rw [moved_]; simp only [FAT_SECTOR_SIZE] at *; omega)
        have sameBytes : ∀ p, (h₁.forward (FAT_SECTOR_SIZE * n)).byteAt cells p = h.byteAt cells p :=
          fun p => congrFun (same _) _
        refine ⟨cells', h', ?_, (goes.trans (goes_forward h₁ cells _)).trans later, stream',
          fun isDirty => ⟨dirty ▸ (behind' isDirty).1, (behind' isDirty).2⟩, ?_, ?_⟩
        · rw [direct.1, step, rest, moved_, List.append_assoc]
          have shape : count - bytesRead = FAT_SECTOR_SIZE * n + (count - (bytesRead + FAT_SECTOR_SIZE * n)) := by omega
          rw [shape, bytesAt_add]
          congr 4
          exact List.map_congr_left fun i _ => sameBytes _
        · rw [end_, moved_]
          omega
        · intro p inside
          rw [same' p inside, sameBytes]
      · obtain ⟨cells₁, h₁, n, least, step, goes, stream₁, address, dirty, bytenum, same⟩ :=
          readLoop_buffered rounds bytes stream room within less direct
        have low := Nat.mod_lt h.file.bytenum (show 0 < FAT_SECTOR_SIZE by decide)
        have split := Nat.div_add_mod h.file.bytenum FAT_SECTOR_SIZE
        have moved_ : (h₁.forward n).file.bytenum = h.file.bytenum + n := by
          change add32 h₁.file.bytenum _ = _
          rw [bytenum, add32, Nat.mod_eq_of_lt (by omega)]
        obtain ⟨cells', h', rest, later, stream', behind', end_, same'⟩ := inductionHypothesis
          (h.file.bytenum / FAT_SECTOR_SIZE + 1) 0 (bytesRead + n)
          (bytes ++ bytesAt h cells h.file.bytenum n) (stream₁.forward _) (room.goes goes)
          (by
            intro _
            rw [moved_]
            change h₁.file.fileDataAddress * _ < _
            rw [address, Nat.mul_comm]
            omega)
          (by rw [moved_]; omega) (by omega) (by omega)
          (by intro _; rw [moved_]; simp only [FAT_SECTOR_SIZE] at *; omega)
          (by intro _; rw [moved_]; simp only [FAT_SECTOR_SIZE] at *; omega)
        have sameBytes : ∀ p < extent, (h₁.forward n).byteAt cells₁ p = h.byteAt cells p := same
        refine ⟨cells', h', ?_, (goes.trans (goes_forward h₁ cells₁ _)).trans later, stream',
          fun isDirty => ⟨dirty (behind' isDirty).1, (behind' isDirty).2⟩, ?_, ?_⟩
        · rw [step, rest, moved_, List.append_assoc]
          have shape : count - bytesRead = n + (count - (bytesRead + n)) := by omega
          rw [shape, bytesAt_add]
          congr 4
          exact bytesAt_congr (by omega) sameBytes
        · rw [end_, moved_]
          omega
        · intro p inside
          rw [same' p inside, sameBytes p inside]
    · have done : bytesRead = count := by omega
      subst done
      refine ⟨cells, h, ?_, Goes.refl h cells, stream, fun dirty => ⟨dirty, behind dirty⟩, by omega, fun _ _ => rfl⟩
      rw [readLoop, if_neg less, Nat.sub_self, bytesAt, List.range_zero, List.map_nil, List.append_nil]

end Stream

end Handle

end XinuStm32
