import XinuStm32.Abstract.Clusters
import XinuStm32.Drivers.FatFile

/-!
# Files of bytes

What an open file is for: a sequence of bytes and a position in it, where bytes are read and written. Sectors, clusters
and buffers are not seen, but for two things. A position may be chosen only while nothing is left to flush, as choosing
it gives up the sector in the buffer. And files share the clusters of the volume, of which each takes as many as it has
had bytes.
-/

namespace XinuStm32

/-- The clusters that a number of bytes take. -/
def Region.clustersFor (region : Region) (bytes : Nat) : Nat := (bytes + region.clusterSize - 1) / region.clusterSize

inductive FileRequest where
  | read (size length : Int)
  | write (data : Nat → UInt8) (size count : Int)
  | flush
  | seek (offset origin : Int)
  | tell

/-- What is returned, and the bytes that are stored for the caller. -/
structure FileAnswer where
  result : Int
  bytes : List UInt8
deriving DecidableEq

/-- `flushed` says that nothing was written since the last flush, `clusters` how many the file may have. -/
structure ByteFile where
  content : List UInt8
  position : Nat
  flags : Nat
  flushed : Bool
  clusters : Nat
deriving DecidableEq

namespace ByteFile

variable {region : Region}

def read (count : Nat) (file : ByteFile) : FileAnswer × ByteFile :=
  if file.flags &&& FILE_READ = 0 then (⟨-1, []⟩, file)
  else if count = 0 then (⟨0, []⟩, file)
  else if file.position ≥ file.content.length then (⟨-1, []⟩, file)
  else
    let bytes := (file.content.drop file.position).take count
    (⟨bytes.length, bytes⟩, { file with position := file.position + bytes.length })

/-- Where the next byte is written. -/
def start (file : ByteFile) : Nat :=
  if file.flags &&& FILE_APPEND ≠ 0 then file.content.length else file.position

def write (region : Region) (bytes : List UInt8) (file : ByteFile) : FileAnswer × ByteFile :=
  if file.flags &&& FILE_WRITE = 0 then (⟨-1, []⟩, file)
  else
    let content := file.content.take file.start ++ bytes ++ file.content.drop (file.start + bytes.length)
    (⟨bytes.length, []⟩, { file with
      content := content
      position := file.start + bytes.length
      flushed := file.flushed && bytes.isEmpty
      clusters := max file.clusters (region.clustersFor content.length) })

/-- Positions before the beginning are the end of the file when they are counted from the beginning, and the beginning
when they are counted from the current one. -/
def seek (offset origin : Int) (file : ByteFile) : FileAnswer × ByteFile :=
  if origin = SEEK_SET then
    (⟨0, []⟩, { file with
      position := if offset < 0 then file.content.length else min offset.toNat file.content.length })
  else if origin = SEEK_CUR then
    (⟨0, []⟩, { file with position := min (file.position + offset).toNat file.content.length })
  else if origin = SEEK_END ∧ offset = 0 then (⟨0, []⟩, { file with position := file.content.length })
  else (⟨-1, []⟩, file)

def perform (region : Region) : FileRequest → ByteFile → FileAnswer × ByteFile
  | .read size length, file => file.read (size * length).toNat
  | .write data size count, file => file.write region ((List.range (size * count).toNat).map data)
  | .flush, file => (⟨0, []⟩, { file with flushed := true })
  | .seek offset origin, file => file.seek offset origin
  | .tell, file => (⟨file.position, []⟩, file)

/-- A request that the functions are made for: sizes fit an `int`, the file stays below two gigabytes, and a position is
chosen with nothing left to flush. -/
def Legal (file : ByteFile) : FileRequest → Prop
  | .read size length => 0 ≤ size * length ∧ size * length < 2 ^ 31
  | .write _ size count => 0 ≤ size * count ∧ file.start + size * count < 2 ^ 31
  | .flush => True
  | .seek offset origin =>
    -2 ^ 31 ≤ offset ∧ offset < 2 ^ 31 ∧ (file.flushed = true ∨ (origin = SEEK_END ∧ offset ≠ 0))
  | .tell => True

theorem read_content (count : Nat) (file : ByteFile) : (file.read count).2.content = file.content := by
  simp only [read]
  split
  · rfl
  · split
    · rfl
    · split <;> rfl

/-- The clusters that a file may have are enough for its bytes. -/
theorem clusters_perform (request : FileRequest) {file : ByteFile}
    (enough : region.clustersFor file.content.length ≤ file.clusters) :
    region.clustersFor (file.perform region request).2.content.length ≤ (file.perform region request).2.clusters := by
  cases request with
  | read size length =>
    simp only [perform, read]
    split
    · exact enough
    · split
      · exact enough
      · split <;> exact enough
  | write data size count =>
    simp only [perform, write]
    split
    · exact enough
    · exact Nat.le_max_right _ _
  | flush => exact enough
  | seek offset origin =>
    simp only [perform, seek]
    split
    · exact enough
    · split
      · exact enough
      · split <;> exact enough
  | tell => exact enough

/-- Requests to several files, each with the index of its file. -/
def performAll (region : Region) : List (Nat × FileRequest) → List ByteFile → Option (List FileAnswer × List ByteFile)
  | [], files => some ([], files)
  | (index, request) :: requests, files =>
    files[index]?.bind fun file =>
      let (answer, file) := file.perform region request
      (performAll region requests (files.set index file)).map fun (answers, files) => (answer :: answers, files)

end ByteFile

/-! ## The functions that answer -/

namespace Handle

def perform : FileRequest → Handle → FileAnswer × Handle
  | .read size length, h =>
    let ((result, bytes), h) := h.flFread size length
    (⟨result, bytes⟩, h)
  | .write data size count, h =>
    let (result, h) := h.flFwrite data size count
    (⟨result, []⟩, h)
  | .flush, h => (⟨0, []⟩, h.flFflush)
  | .seek offset origin, h =>
    let (result, h) := h.flFseek offset origin
    (⟨result, []⟩, h)
  | .tell, h => (⟨h.flFtell, []⟩, h)

end Handle

/-- The files that are open on a volume. -/
structure OpenFiles where
  fs : Fatfs
  files : List FlFile

namespace OpenFiles

def performAll : List (Nat × FileRequest) → OpenFiles → Option (List FileAnswer × OpenFiles)
  | [], s => some ([], s)
  | (index, request) :: requests, s =>
    s.files[index]?.bind fun file =>
      let (answer, h) := Handle.perform request ⟨s.fs, file⟩
      (performAll requests ⟨h.fs, s.files.set index h.file⟩).map fun (answers, s) => (answer :: answers, s)

end OpenFiles

end XinuStm32
