import XinuStm32.Kernel.Tables
import XinuStm32.Lib.WordUpdates
import XinuStm32.Lib.WriteBack

/-!
# The file allocation table, `fat_table.c` and the allocation in `fat_write.c`

The volume is a function from sectors to their bytes, by offset. The table is read and written through
`fat_buffers`, a list in the order of `fat_buffer_head` and the `next` pointers; a buffer is named by its place in the
list, and its `block` is the `sector` of `struct fat_buffer`. Its `ptr` is the start of the block, as there is one
sector in each. Functions that answer through a pointer return the value behind it too.

The media functions are those of `disk.c`, which always answer 1. Loops along a chain have a number of rounds and are
`none` when it does not suffice.
-/

namespace XinuStm32

abbrev FAT_SECTOR_SIZE : Nat := 512
abbrev FAT_BUFFERS : Nat := 1
abbrev FAT_BUFFER_SECTORS : Nat := 1
abbrev FAT32_LAST_CLUSTER : Nat := 0xFFFFFFFF
abbrev FAT32_INVALID_CLUSTER : Nat := 0xFFFFFFFF

/-- The bytes of a sector, by offset. -/
abbrev Sector := Nat → UInt8

inductive FatType where
  | fat16
  | fat32
deriving DecidableEq

abbrev FatBuffer := WriteBack.Buffer Nat Sector

/-- The fields of `struct fatfs` that `fatfs_init` gives their values and that nothing changes later. -/
structure Geometry where
  sectorsPerCluster : Nat
  clusterBeginLba : Nat
  rootdirFirstCluster : Nat
  rootdirFirstSector : Nat
  rootdirSectors : Nat
  fatBeginLba : Nat
  fsInfoSector : Nat
  lbaBegin : Nat
  fatSectors : Nat
  rootEntryCount : Nat
  fatType : FatType
deriving DecidableEq

/-- `struct fatfs`, and the volume behind its media functions. -/
structure Fatfs extends Geometry where
  nextFreeCluster : Nat
  currentsector : FatBuffer
  fatBuffers : List FatBuffer
  disk : Nat → Sector

/-! ## Places -/

namespace Geometry

/-- Which sector of the table has the entry of a cluster. -/
def fatSectorOffset (cluster : Nat) (g : Geometry) : Nat :=
  match g.fatType with
  | .fat16 => cluster / 256
  | .fat32 => cluster / 128

/-- Where in that sector it is. -/
def entryPosition (cluster : Nat) (g : Geometry) : Nat :=
  match g.fatType with
  | .fat16 => (cluster - g.fatSectorOffset cluster * 256) * 2
  | .fat32 => (cluster - g.fatSectorOffset cluster * 128) * 4

/-- The clusters that `size` bytes take. -/
def clusterCount (size : Nat) (g : Geometry) : Nat :=
  let clusterSize := g.sectorsPerCluster * FAT_SECTOR_SIZE
  let clusterCount := size / clusterSize
  if size - clusterSize * clusterCount ≠ 0 then clusterCount + 1 else clusterCount

def fatfsLbaOfCluster (clusterNumber : Nat) (g : Geometry) : Nat :=
  let sectors := sub32 clusterNumber 2 * g.sectorsPerCluster % 2 ^ 32
  match g.fatType with
  | .fat16 => add32 (add32 g.clusterBeginLba (g.rootEntryCount * 32 / FAT_SECTOR_SIZE)) sectors
  | .fat32 => add32 g.clusterBeginLba sectors

end Geometry

/-! ## Media -/

/-- What `disk_write` stores: the blocks of a buffer in the sectors from a first one on. -/
def writeBlocks : Nat → Nat → (Nat → UInt8) → (Nat → Sector) → Nat → Sector
  | 0, _, _, disk => disk
  | count + 1, sector, buffer, disk =>
    writeBlocks count (add32 sector 1) (fun i => buffer (FAT_SECTOR_SIZE + i)) (Function.update disk sector buffer)

namespace Fatfs

/-- `sd_readsector` of one sector. -/
def sdReadsector (startBlock : Nat) (fs : Fatfs) : Nat × Sector := (1, fs.disk startBlock)

/-- `sd_writesector`. -/
def sdWritesector (startBlock : Nat) (buffer : Nat → UInt8) (sectorCount : Nat) (fs : Fatfs) : Nat × Fatfs :=
  (1, { fs with disk := writeBlocks sectorCount startBlock buffer fs.disk })

/-! ## Buffers -/

def fatfsFatInit (fs : Fatfs) : Fatfs :=
  { fs with fatBuffers := List.replicate FAT_BUFFERS ⟨FAT32_INVALID_CLUSTER, fun _ => 0, false⟩ }

/-- The buffer comes back with its flag cleared. -/
def fatfsFatWriteback (pcur : FatBuffer) (fs : Fatfs) : Nat × FatBuffer × Fatfs :=
  if pcur.dirty then
    let offset := sub32 pcur.address fs.fatBeginLba
    let sectors :=
      if add32 offset FAT_BUFFER_SECTORS ≤ fs.fatSectors then FAT_BUFFER_SECTORS else sub32 fs.fatSectors offset
    let (done, fs) := fs.sdWritesector pcur.address pcur.block sectors
    if done = 0 then (0, pcur, fs) else (1, { pcur with dirty := false }, fs)
  else (1, pcur, fs)

/-- The buffer holds the sector. -/
def holdsSector (sector : Nat) (pcur : FatBuffer) : Bool :=
  sector ≥ pcur.address ∧ sector < add32 pcur.address FAT_BUFFER_SECTORS

/-- A sector that no buffer holds takes the place of the last one and moves to the front. -/
def fatfsFatReadSector (sector : Nat) (fs : Fatfs) : Option Nat × Fatfs :=
  match fs.fatBuffers.findIdx? (holdsSector sector) with
  | some pcur => (some pcur, fs)
  | none =>
    match fs.fatBuffers.getLast? with
    | none => (none, fs)
    | some last =>
      let others := fs.fatBuffers.dropLast
      let (done, pcur, fs) := fs.fatfsFatWriteback last
      if done = 0 then (none, { fs with fatBuffers := pcur :: others })
      else
        let (read, block) := fs.sdReadsector sector
        if read = 0 then
          (none, { fs with fatBuffers := { pcur with address := FAT32_INVALID_CLUSTER } :: others })
        else (some 0, { fs with fatBuffers := { pcur with address := sector, block := block } :: others })

/-- The loop of `fatfs_fat_purge`, over the buffers from the head on, behind those it is done with. -/
def purgeLoop : List FatBuffer → List FatBuffer → Fatfs → Nat × Fatfs
  | _, [], fs => (1, fs)
  | front, pcur :: buffers, fs =>
    let (done, pcur, fs) := fs.fatfsFatWriteback pcur
    let fs := { fs with fatBuffers := front ++ pcur :: buffers }
    if done = 0 then (0, fs) else purgeLoop (front ++ [pcur]) buffers fs

def fatfsFatPurge (fs : Fatfs) : Nat × Fatfs := purgeLoop [] fs.fatBuffers fs

/-- The bytes behind `pbuf->ptr`. -/
def ptr (pbuf : Nat) (fs : Fatfs) : Sector := (fs.fatBuffers[pbuf]?.map WriteBack.Buffer.block).getD fun _ => 0

/-- Bytes stored through `pbuf->ptr`, and `pbuf->dirty = 1`. -/
def setPtr (pbuf : Nat) (edit : Sector → Sector) (fs : Fatfs) : Fatfs :=
  { fs with fatBuffers := fs.fatBuffers.modify pbuf fun pcur => ⟨pcur.address, edit pcur.block, true⟩ }

/-! ## Entries -/

/-- The entry at a position of a buffer, without the upper four bits. -/
def nextClusterAt (pbuf position : Nat) (fs : Fatfs) : Nat :=
  match fs.fatType with
  | .fat16 => Words.load16 (fs.ptr pbuf) position
  | .fat32 => Words.load (fs.ptr pbuf) position &&& 0x0FFFFFFF

def fatfsFindNextCluster (currentCluster : Nat) (fs : Fatfs) : Nat × Fatfs :=
  let currentCluster := if currentCluster = 0 then 2 else currentCluster
  match fs.fatfsFatReadSector (add32 fs.fatBeginLba (fs.fatSectorOffset currentCluster)) with
  | (none, fs) => (FAT32_LAST_CLUSTER, fs)
  | (some pbuf, fs) =>
    let nextcluster := fs.nextClusterAt pbuf (fs.entryPosition currentCluster)
    match fs.fatType with
    | .fat16 =>
      if nextcluster ≥ 0xFFF8 ∧ nextcluster ≤ 0xFFFF then (FAT32_LAST_CLUSTER, fs) else (nextcluster, fs)
    | .fat32 =>
      if nextcluster ≥ 0x0FFFFFF8 ∧ nextcluster ≤ 0x0FFFFFFF then (FAT32_LAST_CLUSTER, fs) else (nextcluster, fs)

def fatfsSetFsInfoNextFreeCluster (newValue : Nat) (fs : Fatfs) : Fatfs :=
  match fs.fatType with
  | .fat16 => fs
  | .fat32 =>
    match fs.fatfsFatReadSector (add32 fs.lbaBegin fs.fsInfoSector) with
    | (none, fs) => fs
    | (some pbuf, fs) =>
      let fs := fs.setPtr pbuf (Words.store 492 newValue)
      let fs := { fs with nextFreeCluster := newValue }
      let address := (fs.fatBuffers[pbuf]?.map WriteBack.Buffer.address).getD FAT32_INVALID_CLUSTER
      let (_, fs) := fs.sdWritesector address (fs.ptr pbuf) 1
      { fs with
        fatBuffers := fs.fatBuffers.modify pbuf fun pcur => ⟨FAT32_INVALID_CLUSTER, pcur.block, false⟩ }

/-- The loop of `fatfs_find_blank_cluster`. Each round but the last looks at another entry of the table. -/
def findBlankLoop : Nat → Nat → Fatfs → Option Nat × Fatfs
  | 0, _, fs => (none, fs)
  | rounds + 1, currentCluster, fs =>
    if fs.fatSectorOffset currentCluster < fs.fatSectors then
      match fs.fatfsFatReadSector (add32 fs.fatBeginLba (fs.fatSectorOffset currentCluster)) with
      | (none, fs) => (none, fs)
      | (some pbuf, fs) =>
        let nextcluster := fs.nextClusterAt pbuf (fs.entryPosition currentCluster)
        if nextcluster ≠ 0 then findBlankLoop rounds (add32 currentCluster 1) fs else (some currentCluster, fs)
    else (none, fs)

/-- `none` is the answer 0. -/
def fatfsFindBlankCluster (startCluster : Nat) (fs : Fatfs) : Option Nat × Fatfs :=
  findBlankLoop (fs.fatSectors * 256 + 1) startCluster fs

def fatfsFatSetCluster (cluster nextCluster : Nat) (fs : Fatfs) : Nat × Fatfs :=
  match fs.fatfsFatReadSector (add32 fs.fatBeginLba (fs.fatSectorOffset cluster)) with
  | (none, fs) => (0, fs)
  | (some pbuf, fs) =>
    match fs.fatType with
    | .fat16 => (1, fs.setPtr pbuf (Words.store16 (fs.entryPosition cluster) (nextCluster % 2 ^ 16)))
    | .fat32 => (1, fs.setPtr pbuf (Words.store (fs.entryPosition cluster) nextCluster))

/-! ## Chains -/

/-- `fatfs_free_cluster_chain`, which answers 1. -/
def fatfsFreeClusterChain : Nat → Nat → Fatfs → Option Fatfs
  | 0, _, _ => none
  | rounds + 1, nextCluster, fs =>
    if nextCluster ≠ FAT32_LAST_CLUSTER ∧ nextCluster ≠ 0 then
      let lastCluster := nextCluster
      let (nextCluster, fs) := fs.fatfsFindNextCluster nextCluster
      let (_, fs) := fs.fatfsFatSetCluster lastCluster 0
      fatfsFreeClusterChain rounds nextCluster fs
    else some fs

/-- The loop of `fatfs_fat_add_cluster_to_chain`: the last cluster, or `none` inside for the answer 0. -/
def lastOfChain : Nat → Nat → Nat → Fatfs → Option (Option Nat × Fatfs)
  | 0, _, _, _ => none
  | rounds + 1, lastCluster, nextCluster, fs =>
    if nextCluster ≠ FAT32_LAST_CLUSTER then
      let lastCluster := nextCluster
      let (nextCluster, fs) := fs.fatfsFindNextCluster nextCluster
      if nextCluster = 0 then some (none, fs) else lastOfChain rounds lastCluster nextCluster fs
    else some (some lastCluster, fs)

def fatfsFatAddClusterToChain (rounds startCluster newEntry : Nat) (fs : Fatfs) : Option (Nat × Fatfs) :=
  if startCluster = FAT32_LAST_CLUSTER then some (0, fs)
  else
    (lastOfChain rounds FAT32_LAST_CLUSTER startCluster fs).map fun
      | (none, fs) => (0, fs)
      | (some lastCluster, fs) =>
        let (_, fs) := fs.fatfsFatSetCluster lastCluster newEntry
        let (_, fs) := fs.fatfsFatSetCluster newEntry FAT32_LAST_CLUSTER
        (1, fs)

/-! ## Counting -/

/-- The inner loop of `fatfs_count_free_clusters`, for the words of a size from a position on. -/
def countZeros (load : Nat → Nat) (size : Nat) : Nat → Nat → Nat
  | 0, _ => 0
  | words + 1, j => (if load j = 0 then 1 else 0) + countZeros load size words (j + size)

/-- All of that loop, over a sector. -/
def countSector (g : Geometry) (sector : Sector) : Nat :=
  match g.fatType with
  | .fat16 => countZeros (Words.load16 sector) 2 256 0
  | .fat32 => countZeros (Words.load sector) 4 128 0

/-- The outer loop, from sector `i` on. -/
def countFreeLoop : Nat → Nat → Nat → Fatfs → Nat × Fatfs
  | 0, _, count, fs => (count, fs)
  | sectors + 1, i, count, fs =>
    match fs.fatfsFatReadSector (add32 fs.fatBeginLba i) with
    | (none, fs) => (count, fs)
    | (some pbuf, fs) => countFreeLoop sectors (i + 1) (add32 count (countSector fs.toGeometry (fs.ptr pbuf))) fs

def fatfsCountFreeClusters (fs : Fatfs) : Nat × Fatfs := countFreeLoop fs.fatSectors 0 0 fs

/-! ## Allocation -/

/-- The loop of `fatfs_add_free_space`, with what it answers and `*startCluster`. -/
def addFreeSpaceLoop : Nat → Nat → Nat → Nat → Fatfs → (Nat × Nat) × Fatfs
  | 0, _, _, startCluster, fs => ((1, startCluster), fs)
  | clusters + 1, i, start, startCluster, fs =>
    match fs.fatfsFindBlankCluster fs.rootdirFirstCluster with
    | (none, fs) => ((0, startCluster), fs)
    | (some nextcluster, fs) =>
      let (_, fs) := fs.fatfsFatSetCluster start nextcluster
      let (_, fs) := fs.fatfsFatSetCluster nextcluster FAT32_LAST_CLUSTER
      addFreeSpaceLoop clusters (i + 1) nextcluster (if i = 0 then nextcluster else startCluster) fs

/-- `fs->next_free_cluster` is set to unknown. -/
def forgetNextFree (fs : Fatfs) : Fatfs :=
  if fs.nextFreeCluster ≠ FAT32_LAST_CLUSTER then fs.fatfsSetFsInfoNextFreeCluster FAT32_LAST_CLUSTER else fs

def fatfsAddFreeSpace (startCluster clusters : Nat) (fs : Fatfs) : (Nat × Nat) × Fatfs :=
  addFreeSpaceLoop clusters 0 startCluster startCluster fs.forgetNextFree

/-- What it answers and `*startCluster`, which a new file of several clusters does not get. -/
def fatfsAllocateFreeSpace (newFile : Bool) (startCluster size : Nat) (fs : Fatfs) : (Nat × Nat) × Fatfs :=
  if size = 0 then ((0, startCluster), fs)
  else
    let fs := fs.forgetNextFree
    let clusterCount := fs.clusterCount size
    if newFile then
      match fs.fatfsFindBlankCluster fs.rootdirFirstCluster with
      | (none, fs) => ((0, startCluster), fs)
      | (some nextcluster, fs) =>
        if clusterCount = 1 then ((1, nextcluster), (fs.fatfsFatSetCluster nextcluster FAT32_LAST_CLUSTER).2)
        else
          let (answer, fs) := fs.fatfsAddFreeSpace nextcluster clusterCount
          ((if answer.1 = 0 then 0 else 1, startCluster), fs)
    else
      let (answer, fs) := fs.fatfsAddFreeSpace startCluster clusterCount
      ((if answer.1 = 0 then 0 else 1, startCluster), fs)

end Fatfs

end XinuStm32
