import XinuStm32.Drivers.FatTable
import XinuStm32.Lib.Chains

/-!
# What the functions of the table do

The entries of the table as they are seen through the buffers, and one lemma for each function on what it does to
them. Nothing outside the table is stored, but for the information sector.
-/

namespace XinuStm32

/-- A sector of the table. -/
def Geometry.InFat (g : Geometry) (sector : Nat) : Prop :=
  g.fatBeginLba ≤ sector ∧ sector < g.fatBeginLba + g.fatSectors

/-- The sector with the hint for the next free cluster. -/
def Geometry.infoLba (g : Geometry) : Nat := g.lbaBegin + g.fsInfoSector

/-- Only FAT32 has it. On FAT16, `fatfs_init` takes its number from bytes that mean something else. -/
def Geometry.IsInfo (g : Geometry) (sector : Nat) : Prop := g.fatType = .fat32 ∧ sector = g.infoLba

/-- A sector that comes into a buffer of the table. -/
def Geometry.Buffered (g : Geometry) (sector : Nat) : Prop := g.InFat sector ∨ g.IsInfo sector

namespace Fatfs

/-- An address that a sector can have. -/
def Valid (a : Nat) : Prop := a < FAT32_INVALID_CLUSTER

/-- The volume as it is seen through the buffers. -/
def image (fs : Fatfs) : Nat → Sector := WriteBack.view fs.fatBuffers fs.disk

/-- The buffers agree with the volume; they hold sectors of the table and the information sector, and only those of the
table have changed in them. -/
structure Mounted (fs : Fatfs) : Prop where
  buffered : fs.fatBuffers ≠ []
  coherent : WriteBack.Coherent Valid fs.fatBuffers fs.disk
  bounded : ∀ b ∈ fs.fatBuffers, b.address ≤ FAT32_INVALID_CLUSTER
  holds : ∀ b ∈ fs.fatBuffers, Valid b.address → fs.Buffered b.address
  changed : ∀ b ∈ fs.fatBuffers, b.dirty = true → fs.InFat b.address
  fits : fs.fatBeginLba + fs.fatSectors ≤ FAT32_INVALID_CLUSTER
  info : ∀ a, fs.IsInfo a → Valid a
  infoOutside : ∀ a, fs.IsInfo a → ¬ fs.InFat a

/-- The table is inside the volume, the information sector is, and it is not in the table. -/
theorem Mounted.valid {fs : Fatfs} (mounted : fs.Mounted) {sector : Nat} (inside : fs.InFat sector) :
    Valid sector := by
  have fits := mounted.fits
  simp only [Geometry.InFat, Valid, FAT32_INVALID_CLUSTER] at *
  omega

theorem Mounted.buffered_valid {fs : Fatfs} (mounted : fs.Mounted) {sector : Nat} (near : fs.Buffered sector) :
    Valid sector := by
  cases near with
  | inl inFat => exact mounted.valid inFat
  | inr info => exact mounted.info sector info

/-- A buffer of the list holds a sector. -/
def BufferOf (fs : Fatfs) (pbuf sector : Nat) : Prop :=
  ∃ front b back, fs.fatBuffers = front ++ b :: back ∧ front.length = pbuf ∧ b.address = sector

/-- What changes when a function only moves sectors between the buffers and the volume: nothing that is seen. -/
structure Keeps (fs fs' : Fatfs) : Prop where
  geometry : fs'.toGeometry = fs.toGeometry
  mounted : fs'.Mounted
  image : ∀ a, Valid a → fs'.image a = fs.image a
  outside : ∀ a, ¬ fs.InFat a → fs'.disk a = fs.disk a
  currentsector : fs'.currentsector = fs.currentsector
  nextFreeCluster : fs'.nextFreeCluster = fs.nextFreeCluster

variable {fs fs' : Fatfs} {sector pbuf : Nat}

theorem Keeps.refl (mounted : fs.Mounted) : fs.Keeps fs :=
  ⟨rfl, mounted, fun _ _ => rfl, fun _ _ => rfl, rfl, rfl⟩

/-! ## Buffers -/

theorem holdsSector_iff {b : FatBuffer} (bounded : b.address ≤ FAT32_INVALID_CLUSTER) (valid : Valid sector) :
    holdsSector sector b = true ↔ b.address = sector := by
  rw [holdsSector, decide_eq_true_iff]
  simp only [add32, Valid, FAT32_INVALID_CLUSTER, FAT_BUFFER_SECTORS] at *
  omega

/-- The one sector of a buffer is written, as it lies in the table. -/
theorem fatfsFatWriteback_eq (mounted : fs.Mounted) {pcur : FatBuffer} (inside : pcur ∈ fs.fatBuffers) :
    fs.fatfsFatWriteback pcur =
      (1, { pcur with dirty := false }, { fs with disk := WriteBack.settle fs.disk pcur }) := by
  obtain ⟨address, block, dirty⟩ := pcur
  cases dirty with
  | false => rfl
  | true =>
    have inFat := mounted.changed _ inside rfl
    have fits := mounted.fits
    have one : add32 (sub32 address fs.fatBeginLba) FAT_BUFFER_SECTORS ≤ fs.fatSectors := by
      simp only [Geometry.InFat, add32, sub32, FAT32_INVALID_CLUSTER, FAT_BUFFER_SECTORS] at *
      omega
    simp only [fatfsFatWriteback, if_true, if_pos one, sdWritesector, writeBlocks, WriteBack.settle]
    rfl

/-- The sector is in the buffer that is returned, and all is seen as before. -/
theorem fatfsFatReadSector_keeps (mounted : fs.Mounted) (near : fs.Buffered sector) :
    ∃ pbuf fs', fs.fatfsFatReadSector sector = (some pbuf, fs') ∧ fs'.BufferOf pbuf sector ∧ fs.Keeps fs' := by
  have valid := mounted.buffered_valid near
  cases found : fs.fatBuffers.findIdx? (holdsSector sector) with
  | some pbuf =>
    refine ⟨pbuf, fs, by simp only [fatfsFatReadSector, found], ?_, Keeps.refl mounted⟩
    obtain ⟨inside, holds, -⟩ := List.findIdx?_eq_some_iff_getElem.mp found
    refine ⟨fs.fatBuffers.take pbuf, fs.fatBuffers[pbuf], fs.fatBuffers.drop (pbuf + 1), by simp, ?_, ?_⟩
    · exact List.length_take_of_le inside.le
    · exact (holdsSector_iff (mounted.bounded _ (List.getElem_mem inside)) valid).mp holds
  | none =>
    -- the last buffer is written back and takes the sector
    have split := List.dropLast_append_getLast mounted.buffered
    have last := List.getLast_mem mounted.buffered
    generalize fs.fatBuffers.dropLast = others at split
    generalize fs.fatBuffers.getLast mounted.buffered = pcur at split last
    have absent : ∀ c ∈ others ++ [pcur], c.address ≠ sector := by
      intro c inside here
      rw [split] at inside
      have holds := (holdsSector_iff (mounted.bounded c inside) valid).mpr here
      exact absurd (List.findIdx?_eq_none_iff.mp found c inside) (by simp [holds])
    have step : fs.fatfsFatReadSector sector =
        (some 0, { fs with
          fatBuffers := ⟨sector, WriteBack.settle fs.disk pcur sector, false⟩ :: others
          disk := WriteBack.settle fs.disk pcur }) := by
      have end_ : fs.fatBuffers.getLast? = some pcur := by rw [← split, List.getLast?_concat]
      have front : fs.fatBuffers.dropLast = others := by rw [← split, List.dropLast_concat]
      simp only [fatfsFatReadSector, found, end_, front, fatfsFatWriteback_eq mounted last, sdReadsector]
      rfl
    have coherent := mounted.coherent
    rw [← split] at coherent
    refine ⟨0, _, step, ⟨[], _, others, rfl, rfl, rfl⟩, ?_⟩
    have shown : ∀ a, Valid a → WriteBack.view (⟨sector, WriteBack.settle fs.disk pcur sector, false⟩ :: others)
        (WriteBack.settle fs.disk pcur) a = fs.image a := by
      intro a validAt
      rw [coherent.view_load absent validAt, split]
      rfl
    constructor
    · rfl
    · constructor
      · exact List.cons_ne_nil _ _
      · exact coherent.load absent
      · intro b inside
        cases List.mem_cons.mp inside with
        | inl loaded => rw [loaded]; exact valid.le
        | inr other => exact mounted.bounded b (by rw [← split]; simp [other])
      · intro b inside validAt
        cases List.mem_cons.mp inside with
        | inl loaded => rw [loaded]; exact near
        | inr other => exact mounted.holds b (by rw [← split]; simp [other]) validAt
      · intro b inside dirty
        cases List.mem_cons.mp inside with
        | inl loaded => rw [loaded] at dirty; cases dirty
        | inr other => exact mounted.changed b (by rw [← split]; simp [other]) dirty
      · exact mounted.fits
      · exact mounted.info
      · exact mounted.infoOutside
    · exact shown
    · intro a outside
      simp only [WriteBack.settle]
      split
      next dirty =>
        apply Function.update_of_ne
        intro here
        exact outside (here ▸ mounted.changed pcur last dirty)
      · rfl
    · rfl
    · rfl


/-! ## What lies behind a buffer -/

theorem BufferOf.mem (mounted : fs.Mounted) (valid : Valid sector) (of : fs.BufferOf pbuf sector) :
    fs.ptr pbuf = fs.image sector := by
  obtain ⟨front, b, back, split, place, address⟩ := of
  have inside : b ∈ fs.fatBuffers := by simp [split]
  have found : fs.fatBuffers[pbuf]? = some b := by
    rw [split, ← place, List.getElem?_append_right (Nat.le_refl _), Nat.sub_self, List.getElem?_cons_zero]
  rw [ptr, found, image, ← address, mounted.coherent.view_mem inside (address ▸ valid)]
  rfl

theorem setPtr_eq {front back : List FatBuffer} {b : FatBuffer} (split : fs.fatBuffers = front ++ b :: back)
    (place : front.length = pbuf) (edit : Sector → Sector) :
    fs.setPtr pbuf edit = { fs with fatBuffers := front ++ ⟨b.address, edit b.block, true⟩ :: back } := by
  subst place
  rw [setPtr, split, List.modify_eq_take_cons_drop (by simp)]
  simp

/-- Bytes of a sector of the table are changed, and nothing goes to the volume yet. -/
theorem BufferOf.setPtr (mounted : fs.Mounted) (inFat : fs.InFat sector) (of : fs.BufferOf pbuf sector)
    (edit : Sector → Sector) :
    (fs.setPtr pbuf edit).Mounted ∧
      ∀ a, Valid a → (fs.setPtr pbuf edit).image a =
        Function.update fs.image sector (edit (fs.image sector)) a := by
  have shown := of.mem mounted (mounted.valid inFat)
  obtain ⟨front, b, back, split, place, rfl⟩ := of
  have valid := mounted.valid inFat
  have coherent := mounted.coherent
  have block : fs.image b.address = b.block := mounted.coherent.view_mem (by simp [split]) valid
  rw [setPtr_eq split place, block]
  rw [split] at coherent
  constructor
  · constructor
    · simp
    · exact coherent.change valid _
    · intro c inside
      rw [List.mem_append, List.mem_cons] at inside
      obtain before | rfl | behind := inside
      · exact mounted.bounded c (by simp [split, before])
      · exact valid.le
      · exact mounted.bounded c (by simp [split, behind])
    · intro c inside validAt
      rw [List.mem_append, List.mem_cons] at inside
      obtain before | rfl | behind := inside
      · exact mounted.holds c (by simp [split, before]) validAt
      · exact Or.inl inFat
      · exact mounted.holds c (by simp [split, behind]) validAt
    · intro c inside dirty
      rw [List.mem_append, List.mem_cons] at inside
      obtain before | rfl | behind := inside
      · exact mounted.changed c (by simp [split, before]) dirty
      · exact inFat
      · exact mounted.changed c (by simp [split, behind]) dirty
    · exact mounted.fits
    · exact mounted.info
    · exact mounted.infoOutside
  · intro a validAt
    rw [image, image, coherent.view_change valid _ validAt, split]

end Fatfs

/-! ## Entries -/

namespace Geometry

variable {g : Geometry} {c d : Nat}

theorem type_cases (g : Geometry) : g.fatType = .fat16 ∨ g.fatType = .fat32 := by
  cases g.fatType with
  | fat16 => exact Or.inl rfl
  | fat32 => exact Or.inr rfl

/-- The table has an entry for the cluster. -/
def HasEntry (g : Geometry) (cluster : Nat) : Prop := g.fatSectorOffset cluster < g.fatSectors

/-- The sector with the entry of a cluster. -/
def entryLba (g : Geometry) (cluster : Nat) : Nat := g.fatBeginLba + g.fatSectorOffset cluster

theorem HasEntry.inFat (has : g.HasEntry c) : g.InFat (g.entryLba c) := by
  simp only [HasEntry, InFat, entryLba] at has ⊢
  omega

/-- The word in a sector at a position. -/
def loadEntry (g : Geometry) (sector : Sector) (position : Nat) : Nat :=
  match g.fatType with
  | .fat16 => Words.load16 sector position
  | .fat32 => Words.load sector position

/-- What of a number an entry can hold. -/
def trim (g : Geometry) (value : Nat) : Nat :=
  match g.fatType with
  | .fat16 => value % 2 ^ 16
  | .fat32 => value % 2 ^ 32

def storeEntry (g : Geometry) (position value : Nat) : Sector → Sector :=
  match g.fatType with
  | .fat16 => Words.store16 position (value % 2 ^ 16)
  | .fat32 => Words.store position value

/-- What a number in an entry says, where those from a bound on are ends. -/
def entryOf (bound value : Nat) : Chains.Entry Nat :=
  if value = 0 then .free else if value ≥ bound then .last else .link value

/-- What an entry says about its cluster. -/
def decode (g : Geometry) (raw : Nat) : Chains.Entry Nat :=
  match g.fatType with
  | .fat16 => entryOf 0xFFF8 raw
  | .fat32 => entryOf 0x0FFFFFF8 (raw % 2 ^ 28)

@[simp]
theorem entryOf_eq_free_iff {bound value : Nat} : entryOf bound value = .free ↔ value = 0 := by
  by_cases zero : value = 0
  · simp [entryOf, zero]
  · by_cases last : value ≥ bound
    · simp [entryOf, zero, last]
    · simp [entryOf, zero, last]

theorem decode_eq_free_iff {raw : Nat} :
    g.decode raw = .free ↔ (if g.fatType = .fat16 then raw else raw % 2 ^ 28) = 0 := by
  cases g.type_cases with
  | inl type => simp only [decode, type, if_true, entryOf_eq_free_iff]
  | inr type => simp only [decode, type, reduceCtorEq, if_false, entryOf_eq_free_iff]

/-- Clusters that an entry can have as the next one. -/
def linkBound (g : Geometry) : Nat :=
  match g.fatType with
  | .fat16 => 0xFFF8
  | .fat32 => 0x0FFFFFF8

theorem loadEntry_storeEntry (g : Geometry) (sector : Sector) (position value : Nat) (fits : value < 2 ^ 32) :
    g.loadEntry (g.storeEntry position value sector) position = g.trim value := by
  simp only [loadEntry, storeEntry, trim]
  cases g.fatType with
  | fat16 => exact Words.load16_store16 (Nat.mod_lt _ (by decide))
  | fat32 => exact (Words.load_store fits).trans (Nat.mod_eq_of_lt fits).symm

/-- Two clusters with their entries in the same sector have them at positions that do not overlap. -/
theorem loadEntry_other (other : c ≠ d) (same : g.fatSectorOffset c = g.fatSectorOffset d) (sector : Sector)
    (value : Nat) :
    g.loadEntry (g.storeEntry (g.entryPosition c) value sector) (g.entryPosition d) =
      g.loadEntry sector (g.entryPosition d) := by
  cases g.type_cases with
  | inl type =>
    simp only [loadEntry, storeEntry, entryPosition, fatSectorOffset, type] at same ⊢
    exact Words.load16_store16_apart (by omega)
  | inr type =>
    simp only [loadEntry, storeEntry, entryPosition, fatSectorOffset, type] at same ⊢
    exact Words.load_store_apart (by omega)

@[simp]
theorem decode_zero (g : Geometry) : g.decode (g.trim 0) = .free := by
  cases g.type_cases with
  | inl type => simp [decode, entryOf, trim, type]
  | inr type => simp [decode, entryOf, trim, type]

@[simp]
theorem decode_last (g : Geometry) : g.decode (g.trim FAT32_LAST_CLUSTER) = .last := by
  cases g.type_cases with
  | inl type => simp [decode, entryOf, trim, type, FAT32_LAST_CLUSTER]
  | inr type => simp [decode, entryOf, trim, type, FAT32_LAST_CLUSTER]

theorem decode_link (positive : 0 < c) (below : c < g.linkBound) : g.decode (g.trim c) = .link c := by
  cases g.type_cases with
  | inl type =>
    simp only [decode, entryOf, trim, linkBound, type] at below ⊢
    rw [Nat.mod_eq_of_lt (by omega), if_neg (by omega), if_neg (by omega)]
  | inr type =>
    simp only [decode, entryOf, trim, linkBound, type] at below ⊢
    rw [Nat.mod_eq_of_lt (by omega), Nat.mod_eq_of_lt (by omega), if_neg (by omega), if_neg (by omega)]

end Geometry

namespace Fatfs

/-- The entry of a cluster as it is seen. -/
def entry (fs : Fatfs) (cluster : Nat) : Nat :=
  fs.loadEntry (fs.image (fs.entryLba cluster)) (fs.entryPosition cluster)

/-- What the table says about a cluster. -/
def table (fs : Fatfs) (cluster : Nat) : Chains.Entry Nat := fs.decode (fs.entry cluster)

/-- What changes when a function stores entries: these, in the buffers or in the volume, and the hint. -/
structure Edits (fs fs' : Fatfs) (entry' : Nat → Nat) : Prop where
  geometry : fs'.toGeometry = fs.toGeometry
  mounted : fs'.Mounted
  entry : ∀ c, fs.HasEntry c → fs'.entry c = entry' c
  outside : ∀ a, ¬ fs.InFat a → ¬ fs.IsInfo a → fs'.disk a = fs.disk a
  currentsector : fs'.currentsector = fs.currentsector

variable {fs fs' fs'' : Fatfs} {pbuf c value : Nat} {entry' entry'' : Nat → Nat}

theorem Keeps.entry (keeps : fs.Keeps fs') (mounted : fs.Mounted) (has : fs.HasEntry c) :
    fs'.entry c = fs.entry c := by
  rw [Fatfs.entry, Fatfs.entry, keeps.geometry, keeps.image _ (mounted.valid has.inFat)]

theorem Keeps.edits (keeps : fs.Keeps fs') (mounted : fs.Mounted) : fs.Edits fs' fs.entry where
  geometry := keeps.geometry
  mounted := keeps.mounted
  entry _ has := keeps.entry mounted has
  outside a outside _ := keeps.outside a outside
  currentsector := keeps.currentsector

theorem Edits.congr (edits : fs.Edits fs' entry') (same : ∀ c, fs.HasEntry c → entry'' c = entry' c) :
    fs.Edits fs' entry'' where
  geometry := edits.geometry
  mounted := edits.mounted
  entry c has := (edits.entry c has).trans (same c has).symm
  outside := edits.outside
  currentsector := edits.currentsector

theorem Edits.trans (first : fs.Edits fs' entry') (second : fs'.Edits fs'' entry'') : fs.Edits fs'' entry'' where
  geometry := second.geometry.trans first.geometry
  mounted := second.mounted
  entry c has := second.entry c (first.geometry ▸ has)
  outside a outside notInfo :=
    (second.outside a (first.geometry ▸ outside) (first.geometry ▸ notInfo)).trans (first.outside a outside notInfo)
  currentsector := second.currentsector.trans first.currentsector

/-- An edit of one entry after other edits. -/
theorem Edits.update (first : fs.Edits fs' entry') (second : fs'.Edits fs'' (Function.update fs'.entry c value)) :
    fs.Edits fs'' (Function.update entry' c value) := by
  apply (first.trans second).congr
  intro d has
  by_cases here : d = c
  · rw [here, Function.update_self, Function.update_self]
  · rw [Function.update_of_ne here, Function.update_of_ne here, first.entry d has]

theorem Edits.table (edits : fs.Edits fs' entry') (has : fs.HasEntry c) : fs'.table c = fs.decode (entry' c) := by
  rw [Fatfs.table, edits.geometry, edits.entry c has]

theorem add32_entryLba (mounted : fs.Mounted) (has : fs.HasEntry c) :
    add32 fs.fatBeginLba (fs.fatSectorOffset c) = fs.entryLba c := by
  have valid := mounted.valid has.inFat
  simp only [Valid, Geometry.entryLba, FAT32_INVALID_CLUSTER] at valid
  exact Nat.mod_eq_of_lt (by omega)

theorem BufferOf.setEntry (mounted : fs.Mounted) (has : fs.HasEntry c) (of : fs.BufferOf pbuf (fs.entryLba c))
    (fits : value < 2 ^ 32) :
    fs.Edits (fs.setPtr pbuf (fs.storeEntry (fs.entryPosition c) value))
      (Function.update fs.entry c (fs.trim value)) := by
  obtain ⟨isMounted, seen⟩ := of.setPtr mounted has.inFat (fs.storeEntry (fs.entryPosition c) value)
  constructor
  · rfl
  · exact isMounted
  · intro d hasOther
    have sector := seen _ (mounted.valid hasOther.inFat)
    change fs.loadEntry ((fs.setPtr pbuf _).image (fs.entryLba d)) (fs.entryPosition d) = _
    rw [sector]
    by_cases here : d = c
    · subst here
      rw [Function.update_self, Function.update_self, Geometry.loadEntry_storeEntry _ _ _ _ fits]
    · rw [Function.update_of_ne here]
      by_cases together : fs.entryLba d = fs.entryLba c
      · -- another entry of the same sector
        have offsets : fs.fatSectorOffset c = fs.fatSectorOffset d := by
          simp only [Geometry.entryLba] at together
          omega
        rw [together, Function.update_self, Geometry.loadEntry_other (Ne.symm here) offsets, Fatfs.entry, together]
      · rw [Function.update_of_ne together]
        rfl
  · exact fun _ _ _ => rfl
  · rfl

/-! ## Following a link -/

/-- The cluster that an entry leads to, as `fatfs_find_next_cluster` gives it. -/
def nextOf : Chains.Entry Nat → Nat
  | .free => 0
  | .link next => next
  | .last => FAT32_LAST_CLUSTER

theorem nextClusterAt_eq (mounted : fs.Mounted) (has : fs.HasEntry c) (of : fs.BufferOf pbuf (fs.entryLba c)) :
    fs.nextClusterAt pbuf (fs.entryPosition c) = if fs.fatType = .fat16 then fs.entry c else fs.entry c % 2 ^ 28 := by
  rw [nextClusterAt, of.mem mounted (mounted.valid has.inFat)]
  cases fs.type_cases with
  | inl type =>
    rw [if_pos type]
    simp only [entry, Geometry.loadEntry, type]
  | inr type =>
    rw [if_neg (by rw [type]; decide)]
    simp only [entry, Geometry.loadEntry, type]
    exact Nat.and_two_pow_sub_one_eq_mod _ 28

theorem entry_lt (fs : Fatfs) (type : fs.fatType = .fat16) : fs.entry c < 2 ^ 16 := by
  simp only [entry, Geometry.loadEntry, type]
  exact Words.load16_lt _ _

/-- The entry is free exactly when what is read of it is 0. -/
theorem nextClusterAt_eq_zero_iff (mounted : fs.Mounted) (has : fs.HasEntry c)
    (of : fs.BufferOf pbuf (fs.entryLba c)) :
    fs.nextClusterAt pbuf (fs.entryPosition c) = 0 ↔ fs.table c = .free := by
  rw [nextClusterAt_eq mounted has of, table, Geometry.decode_eq_free_iff]

theorem fatfsFindNextCluster_keeps (mounted : fs.Mounted) (has : fs.HasEntry c) (nonzero : c ≠ 0) :
    ∃ fs', fs.fatfsFindNextCluster c = (nextOf (fs.table c), fs') ∧ fs.Keeps fs' := by
  obtain ⟨pbuf, fs', read, of, keeps⟩ := fatfsFatReadSector_keeps mounted (Or.inl has.inFat)
  have has' : fs'.HasEntry c := keeps.geometry ▸ has
  have of' : fs'.BufferOf pbuf (fs'.entryLba c) := by rwa [keeps.geometry]
  have next := nextClusterAt_eq keeps.mounted has' of'
  rw [keeps.entry mounted has, keeps.geometry] at next
  refine ⟨fs', ?_, keeps⟩
  simp only [fatfsFindNextCluster, if_neg nonzero, add32_entryLba mounted has, read]
  rw [keeps.geometry, next, table]
  cases fs.type_cases with
  | inl type =>
    have small := entry_lt (c := c) fs type
    simp only [Geometry.decode, Geometry.entryOf, type, if_true]
    by_cases free : fs.entry c = 0
    · rw [if_neg (by omega), if_pos free, free]
      rfl
    · by_cases last : fs.entry c ≥ 0xFFF8
      · rw [if_pos (by omega), if_neg free, if_pos last]
        rfl
      · rw [if_neg (by omega), if_neg free, if_neg last]
        rfl
  | inr type =>
    simp only [Geometry.decode, Geometry.entryOf, type, reduceCtorEq, if_false]
    by_cases free : fs.entry c % 2 ^ 28 = 0
    · rw [if_neg (by omega), if_pos free, free]
      rfl
    · by_cases last : fs.entry c % 2 ^ 28 ≥ 0x0FFFFFF8
      · rw [if_pos (by omega), if_neg free, if_pos last]
        rfl
      · rw [if_neg (by omega), if_neg free, if_neg last]
        rfl

/-! ## Storing an entry -/

theorem fatfsFatSetCluster_edits (value : Nat) (mounted : fs.Mounted) (has : fs.HasEntry c) (fits : value < 2 ^ 32) :
    ∃ fs', fs.fatfsFatSetCluster c value = (1, fs') ∧
      fs.Edits fs' (Function.update fs.entry c (fs.trim value)) := by
  obtain ⟨pbuf, fs', read, of, keeps⟩ := fatfsFatReadSector_keeps mounted (Or.inl has.inFat)
  have has' : fs'.HasEntry c := keeps.geometry ▸ has
  have of' : fs'.BufferOf pbuf (fs'.entryLba c) := by rwa [keeps.geometry]
  have stored := of'.setEntry keeps.mounted has' fits
  refine ⟨fs'.setPtr pbuf (fs'.storeEntry (fs'.entryPosition c) value), ?_, ?_⟩
  · simp only [fatfsFatSetCluster, add32_entryLba mounted has, read, Geometry.storeEntry]
    cases fs'.type_cases with
    | inl type => simp only [type]
    | inr type => simp only [type]
  · have edits := (keeps.edits mounted).update stored
    rw [keeps.geometry] at edits ⊢
    exact edits

end Fatfs

/-! ## Looking for a free entry -/

namespace Geometry

variable {g : Geometry} {c d : Nat}

theorem HasEntry.of_le (has : g.HasEntry d) (le : c ≤ d) : g.HasEntry c := by
  cases g.type_cases with
  | inl type =>
    simp only [HasEntry, fatSectorOffset, type] at has ⊢
    omega
  | inr type =>
    simp only [HasEntry, fatSectorOffset, type] at has ⊢
    omega

theorem HasEntry.lt (has : g.HasEntry c) : c < g.fatSectors * 256 := by
  cases g.type_cases with
  | inl type =>
    simp only [HasEntry, fatSectorOffset, type] at has
    omega
  | inr type =>
    simp only [HasEntry, fatSectorOffset, type] at has
    omega

end Geometry

namespace Fatfs

variable {fs fs' fs'' : Fatfs} {c start rounds : Nat}

theorem Keeps.trans (first : fs.Keeps fs') (second : fs'.Keeps fs'') : fs.Keeps fs'' where
  geometry := second.geometry.trans first.geometry
  mounted := second.mounted
  image a valid := (second.image a valid).trans (first.image a valid)
  outside a outside := (second.outside a (first.geometry ▸ outside)).trans (first.outside a outside)
  currentsector := second.currentsector.trans first.currentsector
  nextFreeCluster := second.nextFreeCluster.trans first.nextFreeCluster

theorem Keeps.table (keeps : fs.Keeps fs') (mounted : fs.Mounted) (has : fs.HasEntry c) :
    fs'.table c = fs.table c := by
  rw [Fatfs.table, Fatfs.table, keeps.geometry, keeps.entry mounted has]

/-- One round: the answer is at hand, or the search goes on behind the cluster. -/
theorem findBlankLoop_step (rounds : Nat) (mounted : fs.Mounted) (has : fs.HasEntry c) :
    ∃ fs', fs.Keeps fs' ∧ fs.findBlankLoop (rounds + 1) c =
      if fs.table c = .free then (some c, fs') else fs'.findBlankLoop rounds (add32 c 1) := by
  obtain ⟨pbuf, fs', read, of, keeps⟩ := fatfsFatReadSector_keeps mounted (Or.inl has.inFat)
  have has' : fs'.HasEntry c := keeps.geometry ▸ has
  have of' : fs'.BufferOf pbuf (fs'.entryLba c) := by rwa [keeps.geometry]
  have free := nextClusterAt_eq_zero_iff keeps.mounted has' of'
  rw [keeps.table mounted has] at free
  have inside : fs.fatSectorOffset c < fs.fatSectors := has
  refine ⟨fs', keeps, ?_⟩
  simp only [findBlankLoop, if_pos inside, add32_entryLba mounted has, read]
  by_cases isFree : fs.table c = .free
  · rw [if_neg (not_not.mpr (free.mpr isFree)), if_pos isFree]
  · rw [if_pos (mt free.mp isFree), if_neg isFree]

/-- The first free entry from the start on is found. -/
theorem findBlankLoop_found (mounted : fs.Mounted) (has : fs.HasEntry c) (low : start ≤ c) (near : c < start + rounds)
    (small : c < 2 ^ 32) (free : fs.table c = .free) (used : ∀ d, start ≤ d → d < c → fs.table d ≠ .free) :
    ∃ fs', fs.findBlankLoop rounds start = (some c, fs') ∧ fs.Keeps fs' := by
  induction rounds generalizing start fs with
  | zero => omega
  | succ rounds inductionHypothesis =>
    obtain ⟨fs', keeps, step⟩ := findBlankLoop_step rounds mounted (has.of_le low)
    rw [step]
    by_cases here : start = c
    · subst here
      exact ⟨fs', if_pos free, keeps⟩
    · rw [if_neg (used start (Nat.le_refl _) (by omega)), add32, Nat.mod_eq_of_lt (by omega)]
      obtain ⟨fs'', found, later⟩ := @inductionHypothesis _ (start + 1) keeps.mounted (keeps.geometry ▸ has)
        (by omega) (by omega) ((keeps.table mounted has).trans free) (by
          intro d behind before
          rw [keeps.table mounted (has.of_le before.le)]
          exact used d (by omega) before)
      exact ⟨fs'', found, keeps.trans later⟩

theorem fatfsFindBlankCluster_found (mounted : fs.Mounted) (has : fs.HasEntry c) (low : start ≤ c)
    (small : c < 2 ^ 32) (free : fs.table c = .free) (used : ∀ d, start ≤ d → d < c → fs.table d ≠ .free) :
    ∃ fs', fs.fatfsFindBlankCluster start = (some c, fs') ∧ fs.Keeps fs' := by
  have bound := has.lt
  exact findBlankLoop_found mounted has low (by omega) small free used

/-- Without a free entry from the start on there is no answer. -/
theorem findBlankLoop_none (rounds : Nat) (mounted : fs.Mounted) (numbered : ∀ d, fs.HasEntry d → d + 1 < 2 ^ 32)
    (used : ∀ d, start ≤ d → fs.HasEntry d → fs.table d ≠ .free) :
    ∃ fs', fs.findBlankLoop rounds start = (none, fs') ∧ fs.Keeps fs' := by
  induction rounds generalizing start fs with
  | zero => exact ⟨fs, rfl, .refl mounted⟩
  | succ rounds inductionHypothesis =>
    by_cases has : fs.HasEntry start
    · obtain ⟨fs', keeps, step⟩ := findBlankLoop_step rounds mounted has
      obtain ⟨fs'', found, later⟩ := @inductionHypothesis _ (start + 1) keeps.mounted (keeps.geometry ▸ numbered) (by
        intro d behind has'
        rw [keeps.geometry] at has'
        rw [keeps.table mounted has']
        exact used d (by omega) has')
      refine ⟨fs'', ?_, keeps.trans later⟩
      rw [step, if_neg (used start (Nat.le_refl _) has), add32, Nat.mod_eq_of_lt (numbered start has), found]
    · have outside : ¬ fs.fatSectorOffset start < fs.fatSectors := has
      exact ⟨fs, by rw [findBlankLoop, if_neg outside], .refl mounted⟩

/-! ## Counting -/

/-- How many entries a sector of the table has. -/
def perSector (g : Geometry) : Nat :=
  match g.fatType with
  | .fat16 => 256
  | .fat32 => 128

theorem countZeros_eq (load : Nat → Nat) (size words j : Nat) :
    countZeros load size words j = (List.range words).countP fun w => load (j + w * size) = 0 := by
  induction words generalizing j with
  | zero => rfl
  | succ words inductionHypothesis =>
    rw [countZeros, inductionHypothesis, List.range_succ_eq_map, List.countP_cons, List.countP_map, Nat.add_comm]
    simp only [Nat.zero_mul, Nat.add_zero, decide_eq_true_eq, Function.comp_def, Nat.succ_mul]
    congr 2
    funext w
    congr 3
    omega

/-- What is counted in a sector is its entries that are zero. -/
theorem countSector_eq (g : Geometry) (sector : Sector) (i : Nat) :
    countSector g sector = (List.range (perSector g)).countP fun w =>
      g.loadEntry sector (g.entryPosition (i * perSector g + w)) = 0 := by
  cases g.type_cases with
  | inl type =>
    simp only [countSector, perSector, type, countZeros_eq, Geometry.loadEntry, Geometry.entryPosition,
      Geometry.fatSectorOffset]
    apply List.countP_congr
    intro w inside
    have less := List.mem_range.mp inside
    rw [show (i * 256 + w - (i * 256 + w) / 256 * 256) * 2 = 0 + w * 2 by omega]
  | inr type =>
    simp only [countSector, perSector, type, countZeros_eq, Geometry.loadEntry, Geometry.entryPosition,
      Geometry.fatSectorOffset]
    apply List.countP_congr
    intro w inside
    have less := List.mem_range.mp inside
    rw [show (i * 128 + w - (i * 128 + w) / 128 * 128) * 4 = 0 + w * 4 by omega]

theorem sectorOffset_eq (g : Geometry) (i : Nat) {w : Nat} (inside : w < perSector g) :
    g.fatSectorOffset (i * perSector g + w) = i := by
  cases g.type_cases with
  | inl type =>
    simp only [perSector, type] at inside ⊢
    simp only [Geometry.fatSectorOffset, type]
    omega
  | inr type =>
    simp only [perSector, type] at inside ⊢
    simp only [Geometry.fatSectorOffset, type]
    omega

theorem hasEntry_of_lt {g : Geometry} {cluster : Nat} (less : cluster < g.fatSectors * perSector g) :
    g.HasEntry cluster := by
  rw [Geometry.HasEntry]
  cases g.type_cases with
  | inl type =>
    simp only [perSector, type] at less
    simp only [Geometry.fatSectorOffset, type]
    omega
  | inr type =>
    simp only [perSector, type] at less
    simp only [Geometry.fatSectorOffset, type]
    omega

theorem countFreeLoop_eq (sectors i count : Nat) (mounted : fs.Mounted) (small : fs.fatSectors * 256 < 2 ^ 32)
    (fits : i + sectors ≤ fs.fatSectors) (below : count ≤ i * perSector fs.toGeometry) :
    ∃ fs', fs.countFreeLoop sectors i count =
        (count + (List.range (sectors * perSector fs.toGeometry)).countP fun w =>
          fs.entry (i * perSector fs.toGeometry + w) = 0, fs') ∧ fs.Keeps fs' := by
  induction sectors generalizing fs i count with
  | zero =>
    refine ⟨fs, ?_, Keeps.refl mounted⟩
    rw [countFreeLoop, Nat.zero_mul, List.range_zero, List.countP_nil, Nat.add_zero]
  | succ sectors inductionHypothesis =>
    have inFat : fs.InFat (fs.fatBeginLba + i) := by
      simp only [Geometry.InFat]
      omega
    have valid := mounted.valid inFat
    obtain ⟨pbuf, fs₁, read, of, keeps⟩ := fatfsFatReadSector_keeps mounted (Or.inl inFat)
    have shown : fs₁.ptr pbuf = fs.image (fs.fatBeginLba + i) :=
      (of.mem keeps.mounted valid).trans (keeps.image _ valid)
    have most : perSector fs.toGeometry ≤ 256 := by
      cases fs.type_cases with
      | inl type => simp [perSector, type]
      | inr type => simp [perSector, type]
    -- the entries of this sector
    obtain ⟨here, here_⟩ : ∃ here, here = (List.range (perSector fs.toGeometry)).countP fun w =>
      fs.entry (i * perSector fs.toGeometry + w) = 0 := ⟨_, rfl⟩
    have counted : countSector fs₁.toGeometry (fs₁.ptr pbuf) = here := by
      rw [keeps.geometry, shown, countSector_eq fs.toGeometry _ i, here_]
      apply List.countP_congr
      intro w inside
      rw [entry, Geometry.entryLba, sectorOffset_eq fs.toGeometry i (List.mem_range.mp inside)]
    have hereSmall : here ≤ perSector fs.toGeometry := by
      rw [here_]
      exact List.countP_le_length.trans (Nat.le_of_eq List.length_range)
    have next : (i + 1) * perSector fs.toGeometry = i * perSector fs.toGeometry + perSector fs.toGeometry :=
      Nat.succ_mul _ _
    have top : i * perSector fs.toGeometry + perSector fs.toGeometry ≤ fs.fatSectors * 256 := by
      rw [← next]
      exact Nat.mul_le_mul (by omega) most
    have lba : add32 fs.fatBeginLba i = fs.fatBeginLba + i := by
      have bound : fs.fatBeginLba + i < 2 ^ 32 := Nat.lt_trans valid (by decide)
      exact Nat.mod_eq_of_lt bound
    obtain ⟨fs', rest, later⟩ := inductionHypothesis (i + 1) (count + here) keeps.mounted
      (keeps.geometry ▸ small) (by rw [keeps.geometry]; omega) (by rw [keeps.geometry, next]; omega)
    refine ⟨fs', ?_, keeps.trans later⟩
    simp only [countFreeLoop, lba, read, counted]
    rw [add32, Nat.mod_eq_of_lt (by omega), rest, keeps.geometry]
    have behind : (List.range (sectors * perSector fs.toGeometry)).countP (fun w =>
          fs₁.entry ((i + 1) * perSector fs.toGeometry + w) = 0) =
        (List.range (sectors * perSector fs.toGeometry)).countP fun w =>
          fs.entry (i * perSector fs.toGeometry + (perSector fs.toGeometry + w)) = 0 := by
      apply List.countP_congr
      intro w inside
      have less := List.mem_range.mp inside
      have place : (i + 1) * perSector fs.toGeometry + w =
          i * perSector fs.toGeometry + (perSector fs.toGeometry + w) := by rw [next, Nat.add_assoc]
      have has : fs.HasEntry ((i + 1) * perSector fs.toGeometry + w) := by
        apply hasEntry_of_lt
        have room := Nat.mul_le_mul_right (perSector fs.toGeometry) fits
        rw [Nat.add_mul, Nat.add_mul, Nat.one_mul] at room
        omega
      rw [keeps.entry mounted has, place]
    rw [behind, Nat.succ_mul, Nat.add_comm (sectors * _), List.range_add, List.countP_append, List.countP_map, here_,
      Nat.add_assoc]
    rfl

/-- The entries that are counted are the zero entries of the whole table, with what has not been written back. -/
theorem fatfsCountFreeClusters_eq (mounted : fs.Mounted) (small : fs.fatSectors * 256 < 2 ^ 32) :
    ∃ fs', fs.fatfsCountFreeClusters =
        ((List.range (fs.fatSectors * perSector fs.toGeometry)).countP fun c => fs.entry c = 0, fs') ∧
      fs.Keeps fs' := by
  obtain ⟨fs', counted, keeps⟩ := countFreeLoop_eq fs.fatSectors 0 0 mounted small
    (Nat.le_of_eq (Nat.zero_add _)) (Nat.zero_le _)
  refine ⟨fs', ?_, keeps⟩
  rw [fatfsCountFreeClusters, counted]
  simp only [Nat.zero_add, Nat.zero_mul]

/-! ## The information sector -/

theorem fatfsSetFsInfoNextFreeCluster_edits (mounted : fs.Mounted) (newValue : Nat) :
    fs.Edits (fs.fatfsSetFsInfoNextFreeCluster newValue) fs.entry := by
  cases fs.type_cases with
  | inl type =>
    simp only [fatfsSetFsInfoNextFreeCluster, type]
    exact (Keeps.refl mounted).edits mounted
  | inr type =>
    have isInfo : fs.IsInfo fs.infoLba := ⟨type, rfl⟩
    have info : add32 fs.lbaBegin fs.fsInfoSector = fs.infoLba := by
      have valid := mounted.info fs.infoLba isInfo
      simp only [Valid, Geometry.infoLba, FAT32_INVALID_CLUSTER] at valid
      exact Nat.mod_eq_of_lt (by omega)
    obtain ⟨pbuf, fs', read, of, keeps⟩ := fatfsFatReadSector_keeps mounted (Or.inr isInfo)
    obtain ⟨front, b, back, split, place, address⟩ := of
    have coherent := keeps.mounted.coherent
    rw [split] at coherent
    have valid : Valid b.address := address ▸ mounted.info _ isInfo
    have outside : ¬ fs.InFat b.address := address ▸ mounted.infoOutside _ isInfo
    have stored : fs.fatfsSetFsInfoNextFreeCluster newValue =
        { fs' with
          nextFreeCluster := newValue
          fatBuffers := front ++ ⟨FAT32_INVALID_CLUSTER, Words.store 492 newValue b.block, false⟩ :: back
          disk := Function.update fs'.disk b.address (Words.store 492 newValue b.block) } := by
      simp only [fatfsSetFsInfoNextFreeCluster, type, info, read, setPtr_eq split place]
      subst place
      simp [ptr, sdWritesector, writeBlocks, List.modify_eq_take_cons_drop]
    have seen : ∀ a, Valid a → a ≠ b.address → (fs.fatfsSetFsInfoNextFreeCluster newValue).image a = fs.image a := by
      intro a validAt other
      rw [stored, ← keeps.image a validAt]
      simp only [image]
      rw [coherent.view_forget valid (Nat.lt_irrefl _) _ validAt, Function.update_of_ne other, split]
    constructor
    · rw [stored]
      exact keeps.geometry
    · rw [stored]
      constructor
      · simp
      · exact coherent.forget valid (Nat.lt_irrefl _) _
      · intro c inside
        rw [List.mem_append, List.mem_cons] at inside
        obtain before | rfl | behind := inside
        · exact keeps.mounted.bounded c (by simp [split, before])
        · exact Nat.le_refl _
        · exact keeps.mounted.bounded c (by simp [split, behind])
      · intro c inside validAt
        rw [List.mem_append, List.mem_cons] at inside
        obtain before | rfl | behind := inside
        · exact keeps.mounted.holds c (by simp [split, before]) validAt
        · exact absurd validAt (Nat.lt_irrefl _)
        · exact keeps.mounted.holds c (by simp [split, behind]) validAt
      · intro c inside dirty
        rw [List.mem_append, List.mem_cons] at inside
        obtain before | rfl | behind := inside
        · exact keeps.mounted.changed c (by simp [split, before]) dirty
        · cases dirty
        · exact keeps.mounted.changed c (by simp [split, behind]) dirty
      · exact keeps.mounted.fits
      · exact keeps.mounted.info
      · exact keeps.mounted.infoOutside
    · intro c has
      have geometry : (fs.fatfsSetFsInfoNextFreeCluster newValue).toGeometry = fs.toGeometry := by
        rw [stored]
        exact keeps.geometry
      rw [entry, entry, geometry, seen _ (mounted.valid has.inFat)]
      intro here
      exact outside (here ▸ has.inFat)
    · intro a outsideAt notInfo
      rw [stored]
      exact (Function.update_of_ne (fun here => notInfo ⟨type, here.trans address⟩) _ _).trans
        (keeps.outside a outsideAt)
    · rw [stored]
      exact keeps.currentsector

theorem forgetNextFree_edits (mounted : fs.Mounted) : fs.Edits fs.forgetNextFree fs.entry := by
  rw [forgetNextFree]
  split
  · exact fatfsSetFsInfoNextFreeCluster_edits mounted _
  · exact (Keeps.refl mounted).edits mounted

/-! ## Writing all back -/

theorem purgeLoop_keeps (front : List FatBuffer) {buffers : List FatBuffer} (mounted : fs.Mounted)
    (split : fs.fatBuffers = front ++ buffers) (clean : ∀ b ∈ front, b.dirty = false) :
    ∃ fs', fs.purgeLoop front buffers = (1, fs') ∧ fs.Keeps fs' ∧ ∀ b ∈ fs'.fatBuffers, b.dirty = false := by
  induction buffers generalizing fs front with
  | nil =>
    rw [List.append_nil] at split
    subst split
    exact ⟨fs, rfl, Keeps.refl mounted, clean⟩
  | cons pcur buffers inductionHypothesis =>
    have inside : pcur ∈ fs.fatBuffers := by simp [split]
    have coherent := mounted.coherent
    rw [split] at coherent
    -- the buffer that is written back stays in its place
    let fs' : Fatfs := { fs with
      fatBuffers := front ++ { pcur with dirty := false } :: buffers
      disk := WriteBack.settle fs.disk pcur }
    have keeps : fs.Keeps fs' := by
      constructor
      · rfl
      · constructor
        · simp [fs']
        · exact coherent.settled
        · intro b among
          rw [List.mem_append, List.mem_cons] at among
          obtain before | rfl | behind := among
          · exact mounted.bounded b (by simp [split, before])
          · exact mounted.bounded pcur inside
          · exact mounted.bounded b (by simp [split, behind])
        · intro b among validAt
          rw [List.mem_append, List.mem_cons] at among
          obtain before | rfl | behind := among
          · exact mounted.holds b (by simp [split, before]) validAt
          · exact mounted.holds pcur inside validAt
          · exact mounted.holds b (by simp [split, behind]) validAt
        · intro b among dirty
          rw [List.mem_append, List.mem_cons] at among
          obtain before | rfl | behind := among
          · exact mounted.changed b (by simp [split, before]) dirty
          · cases dirty
          · exact mounted.changed b (by simp [split, behind]) dirty
        · exact mounted.fits
        · exact mounted.info
        · exact mounted.infoOutside
      · intro a valid
        change WriteBack.view (front ++ { pcur with dirty := false } :: buffers) _ a = _
        rw [WriteBack.view_undirtied, ← split]
        exact mounted.coherent.view_settle inside valid
      · intro a outside
        simp only [fs', WriteBack.settle]
        split
        next dirty =>
          apply Function.update_of_ne
          intro here
          exact outside (here ▸ mounted.changed pcur inside dirty)
        · rfl
      · rfl
      · rfl
    obtain ⟨fs'', rest, later, allClean⟩ := inductionHypothesis (front ++ [{ pcur with dirty := false }])
      keeps.mounted (by simp [fs']) (by
        intro b among
        cases List.mem_append.mp among with
        | inl before => exact clean b before
        | inr last => rw [List.mem_singleton.mp last])
    refine ⟨fs'', ?_, keeps.trans later, allClean⟩
    rw [← rest]
    simp only [purgeLoop, fatfsFatWriteback_eq mounted inside]
    rfl

/-- After a purge the volume itself has all that is seen. -/
theorem fatfsFatPurge_keeps (mounted : fs.Mounted) :
    ∃ fs', fs.fatfsFatPurge = (1, fs') ∧ fs.Keeps fs' ∧ ∀ a, Valid a → fs'.disk a = fs.image a := by
  obtain ⟨fs', purge, keeps, clean⟩ := purgeLoop_keeps [] mounted rfl (by simp)
  refine ⟨fs', purge, keeps, ?_⟩
  intro a valid
  rw [← keeps.image a valid]
  exact (keeps.mounted.coherent.view_clean clean valid).symm

end Fatfs

end XinuStm32
