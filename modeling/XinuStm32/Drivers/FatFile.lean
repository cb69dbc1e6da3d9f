import XinuStm32.Drivers.FatTable

/-!
# Open files, `fat_filelib.c`

A file that is open is read and written through a buffer of one sector, `file_data_sector`, and the last cluster that
was looked up. Its name and its place in the directory are left out, as is the cluster cache, which is not compiled in.
A buffer of the caller is what its pointer points at, by offset; what is read into one comes back as a list.
-/

namespace XinuStm32

abbrev FILE_READ : Nat := 1
abbrev FILE_WRITE : Nat := 2
abbrev FILE_APPEND : Nat := 4
abbrev SEEK_SET : Int := 0
abbrev SEEK_CUR : Int := 1
abbrev SEEK_END : Int := 2

structure ClusterLookup where
  clusterIdx : Nat
  currentCluster : Nat

/-- `FL_FILE`. -/
structure FlFile where
  startcluster : Nat
  bytenum : Nat
  filelength : Nat
  filelengthChanged : Bool
  lastFatLookup : ClusterLookup
  fileDataSector : Sector
  fileDataAddress : Nat
  fileDataDirty : Bool
  flags : Nat

/-- What `_open_file` sets, for the start and the length in the directory entry. -/
def openFile (startcluster filelength flags : Nat) (fileDataSector : Sector) : FlFile where
  startcluster := startcluster
  bytenum := 0
  filelength := filelength
  filelengthChanged := false
  lastFatLookup := ⟨0xFFFFFFFF, 0xFFFFFFFF⟩
  fileDataSector := fileDataSector
  fileDataAddress := 0xFFFFFFFF
  fileDataDirty := false
  flags := flags

/-- What `sd_readsector` stores in its buffer, from a sector on. -/
def readBlocks (sector : Nat) (disk : Nat → Sector) : Nat → UInt8 := fun i =>
  disk (add32 sector (i / FAT_SECTOR_SIZE)) (i % FAT_SECTOR_SIZE)

/-- A file that is open, and `_fs`. -/
structure Handle where
  fs : Fatfs
  file : FlFile

namespace Handle

/-! ## Sectors of a file -/

/-- Where the search for a cluster of the file begins: its index and the cluster there. -/
def walkFrom (clusterIdx : Nat) (file : FlFile) : Nat × Nat :=
  if clusterIdx ≠ 0 ∧ clusterIdx = add32 file.lastFatLookup.clusterIdx 1 then
    (file.lastFatLookup.clusterIdx, file.lastFatLookup.currentCluster)
  else (0, file.startcluster)

/-- The loop of `_read_sectors`. -/
def readWalk : Nat → Nat → Fatfs → Nat × Fatfs
  | 0, cluster, fs => (cluster, fs)
  | steps + 1, cluster, fs =>
    let (nextCluster, fs) := fs.fatfsFindNextCluster cluster
    readWalk steps nextCluster fs

/-- The lookup is recorded. -/
def record (clusterIdx cluster : Nat) (fs : Fatfs) (h : Handle) : Handle :=
  { fs := fs, file := { h.file with lastFatLookup := ⟨clusterIdx, cluster⟩ } }

/-- The cluster that `_read_sectors` reads from. -/
def readCluster (clusterIdx : Nat) (h : Handle) : Nat × Handle :=
  if clusterIdx = h.file.lastFatLookup.clusterIdx then (h.file.lastFatLookup.currentCluster, h)
  else
    let (i, cluster) := walkFrom clusterIdx h.file
    let (cluster, fs) := readWalk (clusterIdx - i) cluster h.fs
    if cluster ≠ FAT32_LAST_CLUSTER then (cluster, h.record clusterIdx cluster fs)
    else (cluster, { h with fs := fs })

/-- No more sectors than the cluster has from the first one on. -/
def limitToCluster (sector count sectorsPerCluster : Nat) : Nat :=
  if add32 sector count > sectorsPerCluster then sectorsPerCluster - sector else count

/-- `_read_sectors`: how many, and what is stored in the buffer. -/
def readSectors (offset count : Nat) (h : Handle) : (Nat × (Nat → UInt8)) × Handle :=
  let clusterIdx := offset / h.fs.sectorsPerCluster
  let sector := offset - clusterIdx * h.fs.sectorsPerCluster
  let count := limitToCluster sector count h.fs.sectorsPerCluster
  let (cluster, h) := h.readCluster clusterIdx
  if cluster = FAT32_LAST_CLUSTER then ((0, fun _ => 0), h)
  else
    let lba := add32 (h.fs.fatfsLbaOfCluster cluster) sector
    ((count, readBlocks lba h.fs.disk), h)

/-- What the loop of `_write_sectors` comes to: the last good cluster, and the one that is found. -/
structure Walked where
  lastCluster : Nat
  cluster : Nat
  fs : Fatfs

/-- The loop of `_write_sectors`. -/
def writeWalk : Nat → Nat → Nat → Fatfs → Walked
  | 0, lastCluster, cluster, fs => ⟨lastCluster, cluster, fs⟩
  | steps + 1, _, cluster, fs =>
    let next := fs.fatfsFindNextCluster cluster
    if next.1 = FAT32_LAST_CLUSTER then ⟨cluster, next.1, next.2⟩ else writeWalk steps cluster next.1 next.2

/-- More clusters behind the last good one, for some sectors. -/
def addClusters (lastCluster totalWriteCount : Nat) (fs : Fatfs) : (Nat × Nat) × Fatfs :=
  fs.fatfsAddFreeSpace lastCluster
    (sub32 (add32 totalWriteCount fs.sectorsPerCluster) 1 / fs.sectorsPerCluster)

/-- The cluster that `_write_sectors` writes to, which may be new. -/
def writeCluster (clusterIdx totalWriteCount : Nat) (h : Handle) : Option Nat × Handle :=
  if clusterIdx = h.file.lastFatLookup.clusterIdx then (some h.file.lastFatLookup.currentCluster, h)
  else
    let start := walkFrom clusterIdx h.file
    let found := writeWalk (clusterIdx - start.1) FAT32_LAST_CLUSTER start.2 h.fs
    if found.cluster = FAT32_LAST_CLUSTER then
      let added := addClusters found.lastCluster totalWriteCount found.fs
      if added.1.1 = 0 then (none, { h with fs := added.2 })
      else (some added.1.2, h.record clusterIdx added.1.2 added.2)
    else (some found.cluster, h.record clusterIdx found.cluster found.fs)

/-- `_write_sectors`. -/
def writeSectors (offset : Nat) (buf : Nat → UInt8) (count : Nat) (h : Handle) : Nat × Handle :=
  let totalWriteCount := count
  let clusterIdx := offset / h.fs.sectorsPerCluster
  let sectorNumber := offset - clusterIdx * h.fs.sectorsPerCluster
  let count := limitToCluster sectorNumber count h.fs.sectorsPerCluster
  match h.writeCluster clusterIdx totalWriteCount with
  | (none, h) => (0, h)
  | (some cluster, h) =>
    let lba := add32 (h.fs.fatfsLbaOfCluster cluster) sectorNumber
    let (written, fs) := h.fs.sdWritesector lba buf count
    (if written ≠ 0 then count else 0, { h with fs := fs })

/-- `fl_fflush`, which returns 0. -/
def flFflush (h : Handle) : Handle :=
  if h.file.fileDataDirty then
    match h.writeSectors h.file.fileDataAddress h.file.fileDataSector 1 with
    | (0, h) => h
    | (_ + 1, h) => { h with file := { h.file with fileDataDirty := false } }
  else h

/-! ## Reading -/

/-- `file->bytenum += copyCount`. -/
def forward (copyCount : Nat) (h : Handle) : Handle :=
  { h with file := { h.file with bytenum := add32 h.file.bytenum copyCount } }

/-- Un-written data is flushed. -/
def flushDirty (h : Handle) : Handle := if h.file.fileDataDirty then h.flFflush else h

/-- The sector comes into the buffer, unless it is out of range. -/
def rereadSector (sector : Nat) (h : Handle) : Bool × Handle :=
  if h.file.fileDataAddress ≠ sector then
    let h := h.flushDirty
    let ((read, bytes), h) := h.readSectors sector 1
    if read = 0 then (false, h)
    else
      (true, { h with file :=
        { h.file with fileDataSector := bytes, fileDataAddress := sector, fileDataDirty := false } })
  else (true, h)

/-- The loop of `fl_fread`: each round reads at least a byte. -/
def readLoop : Nat → Nat → Nat → Nat → Nat → List UInt8 → Handle → (Nat × List UInt8) × Handle
  | 0, _, _, _, bytesRead, buffer, h => ((bytesRead, buffer), h)
  | rounds + 1, count, sector, offset, bytesRead, buffer, h =>
    if bytesRead < count then
      if offset = 0 ∧ count - bytesRead ≥ FAT_SECTOR_SIZE then
        let ((sectorsRead, bytes), h) := h.readSectors sector ((count - bytesRead) / FAT_SECTOR_SIZE)
        if sectorsRead ≠ 0 then
          let copyCount := FAT_SECTOR_SIZE * sectorsRead
          readLoop rounds count (sector + sectorsRead) 0 (bytesRead + copyCount)
            (buffer ++ (List.range copyCount).map bytes) (h.forward copyCount)
        else ((bytesRead, buffer), h)
      else
        match h.rereadSector sector with
        | (false, h) => ((bytesRead, buffer), h)
        | (true, h) =>
          let copyCount := FAT_SECTOR_SIZE - offset
          let copyCount := if copyCount > count - bytesRead then count - bytesRead else copyCount
          readLoop rounds count (sector + 1) 0 (bytesRead + copyCount)
            (buffer ++ (List.range copyCount).map fun i => h.file.fileDataSector (offset + i)) (h.forward copyCount)
    else ((bytesRead, buffer), h)

/-- `fl_fread`: what it returns and the bytes that are stored. -/
def flFread (size length : Int) (h : Handle) : (Int × List UInt8) × Handle :=
  let count := int32 (size * length)
  if h.file.flags &&& FILE_READ = 0 then ((-1, []), h)
  else if count = 0 then ((0, []), h)
  else if h.file.bytenum ≥ h.file.filelength then ((-1, []), h)
  else
    let count :=
      if add32 h.file.bytenum (count % 2 ^ 32).toNat > h.file.filelength then
        int32 (h.file.filelength - h.file.bytenum)
      else count
    let sector := h.file.bytenum / FAT_SECTOR_SIZE
    let offset := h.file.bytenum % FAT_SECTOR_SIZE
    let ((bytesRead, buffer), h) := readLoop count.toNat count.toNat sector offset 0 [] h
    ((bytesRead, buffer), h)

/-! ## Writing -/

/-- The buffer is given up, once its data is flushed. -/
def dropBuffer (h : Handle) : Handle :=
  if h.file.fileDataAddress ≠ 0xFFFFFFFF then
    let h := h.flushDirty
    { h with file := { h.file with fileDataAddress := 0xFFFFFFFF, fileDataDirty := false } }
  else h

/-- The sector of the file that is about to change comes into the buffer; past the end it is zero. -/
def prepareSector (sector copyCount : Nat) (h : Handle) : Handle :=
  if h.file.fileDataAddress ≠ sector then
    let h := h.flushDirty
    let h :=
      if copyCount ≠ FAT_SECTOR_SIZE then
        let ((read, bytes), h) := h.readSectors sector 1
        { h with file := { h.file with fileDataSector := if read = 0 then fun _ => 0 else bytes } }
      else h
    { h with file := { h.file with fileDataAddress := sector, fileDataDirty := false } }
  else h

/-- Bytes are copied into the buffer. -/
def copyIn (offset copyCount : Nat) (bytes : Nat → UInt8) (h : Handle) : Handle :=
  { h with file := { h.file with
    fileDataSector := fun i =>
      if offset ≤ i ∧ i < offset + copyCount then bytes (i - offset) else h.file.fileDataSector i
    fileDataDirty := true } }

/-- The loop of `fl_fwrite`: each round writes at least a byte. -/
def writeLoop : Nat → Nat → (Nat → UInt8) → Nat → Nat → Nat → Handle → Handle
  | 0, _, _, _, _, _, h => h
  | rounds + 1, length, buffer, sector, offset, bytesWritten, h =>
    if bytesWritten < length then
      if offset = 0 ∧ length - bytesWritten ≥ FAT_SECTOR_SIZE then
        let (sectorsWrote, h) := h.dropBuffer.writeSectors sector (fun i => buffer (bytesWritten + i))
          ((length - bytesWritten) / FAT_SECTOR_SIZE)
        let copyCount := FAT_SECTOR_SIZE * sectorsWrote
        let h := h.forward copyCount
        if sectorsWrote = 0 then h
        else writeLoop rounds length buffer (sector + sectorsWrote) 0 (bytesWritten + copyCount) h
      else
        let copyCount := FAT_SECTOR_SIZE - offset
        let copyCount := if copyCount > length - bytesWritten then length - bytesWritten else copyCount
        let h := h.prepareSector sector copyCount
        let h := h.copyIn offset copyCount fun i => buffer (bytesWritten + i)
        writeLoop rounds length buffer (sector + 1) 0 (bytesWritten + copyCount) (h.forward copyCount)
    else h

/-- `fl_fwrite`. -/
def flFwrite (data : Nat → UInt8) (size count : Int) (h : Handle) : Int × Handle :=
  let length := (size * count % 2 ^ 32).toNat
  if h.file.flags &&& FILE_WRITE = 0 then (-1, h)
  else
    let h :=
      if h.file.flags &&& FILE_APPEND ≠ 0 then { h with file := { h.file with bytenum := h.file.filelength } } else h
    let sector := h.file.bytenum / FAT_SECTOR_SIZE
    let offset := h.file.bytenum % FAT_SECTOR_SIZE
    let h := writeLoop length length data sector offset 0 h
    let h :=
      if h.file.bytenum > h.file.filelength then
        { h with file := { h.file with filelength := h.file.bytenum, filelengthChanged := true } }
      else h
    (int32 (size * count), h)

/-! ## Positions -/

/-- `fl_fseek`. -/
def flFseek (offset origin : Int) (h : Handle) : Int × Handle :=
  if origin = SEEK_END ∧ offset ≠ 0 then (-1, h)
  else
    let file := { h.file with fileDataAddress := 0xFFFFFFFF, fileDataDirty := false }
    if origin = SEEK_SET then
      let bytenum := (offset % 2 ^ 32).toNat
      let bytenum := if bytenum > file.filelength then file.filelength else bytenum
      (0, { h with file := { file with bytenum := bytenum } })
    else if origin = SEEK_CUR then
      if offset ≥ 0 then
        let bytenum := add32 file.bytenum (offset % 2 ^ 32).toNat
        let bytenum := if bytenum > file.filelength then file.filelength else bytenum
        (0, { h with file := { file with bytenum := bytenum } })
      else
        let offset := (int32 (-offset) % 2 ^ 32).toNat
        let bytenum := if offset > file.bytenum then 0 else file.bytenum - offset
        (0, { h with file := { file with bytenum := bytenum } })
    else if origin = SEEK_END then (0, { h with file := { file with bytenum := file.filelength } })
    else (-1, { h with file := file })

/-- `fl_ftell`. -/
def flFtell (h : Handle) : Int := int32 h.file.bytenum

end Handle

end XinuStm32
