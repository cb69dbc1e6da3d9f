import XinuStm32.Refinement.FatWrites

/-!
# Open files are files of bytes

Each of the functions that reads, writes, flushes or positions an open file does to it what is done to its bytes, and
nothing to other files on the volume. The last lemma goes over all requests to all open files, in any order.
-/

namespace XinuStm32

namespace Handle

variable {region : Region} {h h' : Handle} {front back : List (List Nat)} {cells cells' : List Nat} {file : ByteFile}

/-- The handle has the bytes of the file, and clusters within those that the file may have. -/
structure Tracks (region : Region) (h : Handle) (front : List (List Nat)) (cells : List Nat) (back : List (List Nat))
    (file : ByteFile) : Prop where
  stream : Stream region h front cells back file.content.length
  length : h.file.filelength = file.content.length
  position : h.file.bytenum = file.position
  within : file.position ≤ file.content.length
  flags : h.file.flags = file.flags
  content : h.bytesAt cells 0 file.content.length = file.content
  behind : h.file.fileDataDirty = true → h.file.fileDataAddress * FAT_SECTOR_SIZE < h.file.bytenum
  flushed : file.flushed = true → h.file.fileDataDirty = false
  clusters : region.clustersFor file.content.length ≤ file.clusters
  taken : cells.length ≤ file.clusters

/-- What an answer to a request means: the file system is used for the bytes that the file has afterwards. -/
def Answers (region : Region) (front back : List (List Nat)) (cells : List Nat) (request : FileRequest) (h : Handle)
    (file : ByteFile) : Prop :=
  ∃ cells' h', h.perform request = ((file.perform region request).1, h') ∧
    Used region front back (file.perform region request).2.content.length h.fs h'.fs cells cells' ∧
    Tracks region h' front cells' back (file.perform region request).2

namespace Tracks

/-! ## Reading -/

theorem bytesAt_take (tracks : Tracks region h front cells back file) {count : Nat}
    (within : file.position + count ≤ file.content.length) :
    h.bytesAt cells h.file.bytenum count = (file.content.drop file.position).take count := by
  have whole := tracks.content
  have parts : file.content.length = file.position + (count + (file.content.length - (file.position + count))) := by
    omega
  rw [parts, Stream.bytesAt_add, Stream.bytesAt_add, Nat.zero_add] at whole
  have first : (h.bytesAt cells 0 file.position).length = file.position := by simp [bytesAt]
  have second : (h.bytesAt cells file.position count).length = count := by simp [bytesAt]
  rw [← whole, tracks.position, List.drop_left' first, List.take_left' second]

theorem read (tracks : Tracks region h front cells back file)
    (room : Room region front cells back file.content.length) {size length : Int} (low : 0 ≤ size * length)
    (high : size * length < 2 ^ 31) : Answers region front back cells (.read size length) h file := by
  have bound := tracks.stream.bound
  have position := tracks.position
  have filelength := tracks.length
  obtain ⟨count, count_⟩ := Int.eq_ofNat_of_zero_le low
  have fits : int32 (size * length) = count := by rw [count_]; exact int32_of_range (by omega) (by omega)
  have unsigned : ((count : Int) % 2 ^ 32).toNat = count := by omega
  rw [Answers]
  simp only [Handle.perform, flFread, ByteFile.perform, ByteFile.read, fits, tracks.flags, filelength, position,
    unsigned]
  rw [count_, Int.toNat_natCast]
  by_cases denied : file.flags &&& FILE_READ = 0
  · simp only [if_pos denied]
    exact ⟨cells, h, rfl, Used.refl h.fs cells, tracks⟩
  simp only [if_neg denied]
  by_cases nothing : count = 0
  · simp only [nothing, Nat.cast_zero, if_true]
    exact ⟨cells, h, rfl, Used.refl h.fs cells, tracks⟩
  have notZero : (count : Int) ≠ 0 := by omega
  simp only [if_neg nothing, if_neg notZero]
  by_cases ends : file.position ≥ file.content.length
  · simp only [if_pos ends]
    exact ⟨cells, h, rfl, Used.refl h.fs cells, tracks⟩
  simp only [if_neg ends]
  -- as many bytes are read as the file has
  obtain ⟨least, least_⟩ : ∃ least, least = min count (file.content.length - file.position) := ⟨_, rfl⟩
  have limited : (if add32 file.position count > file.content.length then
      int32 ((file.content.length : Int) - file.position) else (count : Int)) = least := by
    rw [add32_of_lt (by omega)]
    split
    · rw [int32_of_range (by omega) (by omega)]
      omega
    · omega
  have taken : (file.content.drop file.position).take count = (file.content.drop file.position).take least := by
    rw [least_, List.take_eq_take_iff, List.length_drop]
    omega
  have most : ((file.content.drop file.position).take least).length = least := by
    rw [List.length_take, List.length_drop]
    omega
  obtain ⟨cells', h', loop, goes, stream', behind', bytenum', same⟩ := tracks.stream.readLoop_spec
    (h.file.bytenum / FAT_SECTOR_SIZE) (h.file.bytenum % FAT_SECTOR_SIZE) 0 [] room tracks.behind
    (by omega) (Nat.zero_le least) (Nat.le_refl least) (fun _ => rfl) fun _ => rfl
  rw [Nat.sub_zero, List.nil_append, tracks.bytesAt_take (by omega), position] at loop
  rw [Nat.sub_zero] at bytenum'
  simp only [limited, Int.toNat_natCast, loop, taken, most]
  refine ⟨cells', h', rfl, goes.used, ?_⟩
  constructor
  · exact stream'
  · exact goes.filelength.trans filelength
  · exact bytenum'.trans (by rw [position])
  · change file.position + least ≤ file.content.length
    omega
  · exact goes.flags.trans tracks.flags
  · exact (Stream.bytesAt_congr (Nat.le_of_eq (Nat.zero_add _)) same).trans tracks.content
  · exact fun dirty => (behind' dirty).2
  · intro flushed
    have clean := tracks.flushed flushed
    cases dirty : h'.file.fileDataDirty with
    | false => rfl
    | true => rw [(behind' dirty).1] at clean; cases clean
  · exact tracks.clusters
  · have grown := goes.used.fewer
    have first := tracks.clusters
    have second := tracks.taken
    change cells'.length ≤ file.clusters
    omega

/-! ## Writing -/

/-- The bytes that are put come between the ones before and the ones behind. -/
theorem bytesAt_puts {start count extent : Nat} {bytes : Nat → UInt8} (within : start ≤ extent)
    (puts : Puts h h' cells cells' start count (max extent (start + count)) bytes) :
    h'.bytesAt cells' 0 (max extent (start + count)) = (h.bytesAt cells 0 extent).take start ++
      (List.range count).map bytes ++ (h.bytesAt cells 0 extent).drop (start + count) := by
  apply List.ext_getElem
  · simp only [bytesAt, List.length_map, List.length_range, List.length_append, List.length_take, List.length_drop]
    omega
  · intro p inside _
    have below : p < max extent (start + count) := by simpa [bytesAt] using inside
    have seen := puts p below
    simp only [bytesAt, List.getElem_map, List.getElem_range, Nat.zero_add, List.getElem_append, List.length_append,
      List.length_take, List.length_map, List.length_range, List.getElem_take, List.getElem_drop, seen]
    rw [Nat.min_eq_left within]
    by_cases early : p < start
    · rw [dif_pos (by omega), dif_pos early, if_neg (by omega)]
    · by_cases new : p < start + count
      · rw [dif_pos new, dif_neg early, if_pos (by omega)]
      · rw [dif_neg new, if_neg (by omega)]
        congr 1
        omega

/-- The parts of `fl_fwrite`, once writing is allowed. -/
theorem flFwrite_eq {data : Nat → UInt8} {size count : Int} {length : Nat} {h₀ : Handle}
    (allowed : h.file.flags &&& FILE_WRITE ≠ 0) (length_ : (size * count % 2 ^ 32).toNat = length)
    (begins : (if h.file.flags &&& FILE_APPEND ≠ 0 then
      { h with file := { h.file with bytenum := h.file.filelength } } else h) = h₀)
    (loop : writeLoop length length data (h₀.file.bytenum / FAT_SECTOR_SIZE) (h₀.file.bytenum % FAT_SECTOR_SIZE) 0 h₀ =
      h') :
    h.flFwrite data size count = (int32 (size * count), if h'.file.bytenum > h'.file.filelength then
      { h' with file := { h'.file with filelength := h'.file.bytenum, filelengthChanged := true } } else h') := by
  subst length_ begins loop
  rw [flFwrite, if_neg allowed]

theorem write (tracks : Tracks region h front cells back file) {data : Nat → UInt8} {size count : Int}
    (low : 0 ≤ size * count) (high : file.start + size * count < 2 ^ 31)
    (room : Room region front cells back (file.perform region (.write data size count)).2.content.length) :
    Answers region front back cells (.write data size count) h file := by
  have bound := tracks.stream.bound
  have within := tracks.within
  have filelength := tracks.length
  obtain ⟨length, length_⟩ := Int.eq_ofNat_of_zero_le low
  have unsigned : ((length : Int) % 2 ^ 32).toNat = length := by omega
  have signed : int32 (length : Int) = length := int32_of_range (by omega) (by omega)
  rw [Answers]
  simp only [ByteFile.perform, ByteFile.write, length_, Int.toNat_natCast, List.length_map, List.length_range] at room ⊢
  by_cases denied : file.flags &&& FILE_WRITE = 0
  · simp only [if_pos denied]
    refine ⟨cells, h, ?_, Used.refl h.fs cells, tracks⟩
    rw [Handle.perform, flFwrite, tracks.flags, if_pos denied]
  simp only [if_neg denied] at room ⊢
  -- where the bytes go
  obtain ⟨h₀, h₀_⟩ : ∃ h₀ : Handle, h₀ = { h with file := { h.file with bytenum := file.start } } := ⟨_, rfl⟩
  have begins : (if h.file.flags &&& FILE_APPEND ≠ 0 then
      { h with file := { h.file with bytenum := h.file.filelength } } else h) = h₀ := by
    rw [h₀_, ByteFile.start, tracks.flags]
    split
    · rw [filelength]
    · rw [← tracks.position]
  have start : file.position ≤ file.start ∧ file.start ≤ file.content.length := by
    rw [ByteFile.start]
    split <;> omega
  have bytenum : h₀.file.bytenum = file.start := by rw [h₀_]
  have stream₀ : Stream region h₀ front cells back file.content.length := by
    rw [h₀_]
    exact ⟨tracks.stream.volume, tracks.stream.onVolume, ⟨tracks.stream.along.start, tracks.stream.along.lookup⟩,
      tracks.stream.placed, tracks.stream.dirty, tracks.stream.clean, bound⟩
  have behind₀ : h₀.file.fileDataDirty = true → h₀.file.fileDataAddress * FAT_SECTOR_SIZE < h₀.file.bytenum := by
    rw [bytenum, h₀_]
    intro dirty
    have behind := tracks.behind dirty
    rw [tracks.position] at behind
    exact behind.trans_le start.1
  have total : (file.content.take file.start ++ (List.range length).map data ++
      file.content.drop (file.start + length)).length = max file.content.length (file.start + length) := by
    simp only [List.length_append, List.length_take, List.length_map, List.length_range, List.length_drop]
    omega
  rw [total] at room
  obtain ⟨cells', h', loop, goes, stream', behind', bytenum', puts⟩ := stream₀.writeLoop_spec
    (h₀.file.bytenum / FAT_SECTOR_SIZE) (h₀.file.bytenum % FAT_SECTOR_SIZE) 0 data (by rw [bytenum]; exact start.2)
    (by rw [bytenum]; omega) (by rwa [bytenum, Nat.sub_zero]) behind₀ (Nat.zero_le length) (Nat.le_refl length)
    (fun _ => rfl) fun _ => rfl
  have performed := flFwrite_eq (tracks.flags ▸ denied) (length_ ▸ unsigned) begins loop
  simp only [Nat.sub_zero, bytenum, Nat.zero_add] at goes stream' bytenum' puts
  have sameFs : h₀.fs = h.fs := by rw [h₀_]
  have sameLength : h₀.file.filelength = file.content.length := by rw [h₀_]; exact filelength
  have sameBytes : h₀.bytesAt cells 0 file.content.length = file.content := by
    rw [h₀_]
    exact tracks.content
  have content := bytesAt_puts start.2 puts
  rw [sameBytes] at content
  -- the length is changed at the end
  have ended : (if h'.file.bytenum > h'.file.filelength then { h' with file :=
      { h'.file with filelength := h'.file.bytenum, filelengthChanged := true } } else h') =
      { h' with file := { h'.file with
        filelength := max file.content.length (file.start + length)
        filelengthChanged := h'.file.filelengthChanged || decide (h'.file.bytenum > h'.file.filelength) } } := by
    rw [goes.filelength, sameLength, bytenum']
    by_cases longer : file.start + length > file.content.length
    · rw [if_pos longer, Nat.max_eq_right (Nat.le_of_lt longer), decide_eq_true longer, Bool.or_true]
    · rw [if_neg longer, Nat.max_eq_left (Nat.le_of_not_lt longer), decide_eq_false longer, Bool.or_false,
        ← sameLength, ← goes.filelength]
  rw [length_, signed, ended] at performed
  rw [total]
  refine ⟨cells', (h.flFwrite data size count).2, by rw [Handle.perform, performed], ?_⟩
  rw [performed]
  refine ⟨sameFs ▸ goes.used, ?_⟩
  constructor
  · rw [total]
    exact ⟨stream'.volume, stream'.onVolume, ⟨stream'.along.start, stream'.along.lookup⟩, stream'.placed,
      stream'.dirty, stream'.clean, stream'.bound⟩
  · exact total.symm
  · exact bytenum'
  · rw [total]
    exact Nat.le_max_right _ _
  · change h'.file.flags = file.flags
    rw [goes.flags, h₀_, tracks.flags]
  · rw [total]
    exact content
  · exact behind'
  · intro flushed
    rw [Bool.and_eq_true, List.isEmpty_iff, List.map_eq_nil_iff, List.range_eq_nil] at flushed
    have clean := tracks.flushed flushed.1
    have same : h' = h₀ := by
      rw [← loop, flushed.2]
      rfl
    change h'.file.fileDataDirty = false
    rw [same, h₀_]
    exact clean
  · change _ ≤ max file.clusters _
    rw [total]
    exact Nat.le_max_right _ _
  · have grown := goes.used.fewer
    have before := tracks.taken
    change cells'.length ≤ max file.clusters _
    omega

/-! ## Flushing and positions -/

theorem flush (tracks : Tracks region h front cells back file)
    (room : Room region front cells back file.content.length) : Answers region front back cells .flush h file := by
  have same : h.flFflush = h.flushDirty := by
    rw [flushDirty, flFflush]
    by_cases dirty : h.file.fileDataDirty = true
    · rw [if_pos dirty, if_pos dirty]
    · rw [if_neg dirty, if_neg dirty]
  obtain ⟨cells', goes, stream', ⟨lookup, file'⟩, same'⟩ := tracks.stream.flush room
  have sameBytes := Stream.byteAt_of_sectorAt fun m inside i _ => congrFun (same' m inside) i
  refine ⟨cells', h.flushDirty, by simp only [Handle.perform, ByteFile.perform, same], goes.used, ?_⟩
  constructor
  · exact stream'
  · exact goes.filelength.trans tracks.length
  · rw [file']
    exact tracks.position
  · exact tracks.within
  · exact goes.flags.trans tracks.flags
  · exact (Stream.bytesAt_congr (Nat.le_of_eq (Nat.zero_add _)) sameBytes).trans tracks.content
  · rw [file']
    intro dirty
    cases dirty
  · intro _
    rw [file']
  · exact tracks.clusters
  · have grown := goes.used.fewer
    have first := tracks.clusters
    have second := tracks.taken
    change cells'.length ≤ file.clusters
    omega

/-- A buffer that has not changed may be given up. -/
theorem giveUp (tracks : Tracks region h front cells back file) (clean : h.file.fileDataDirty = false) {bytenum : Nat}
    (within : bytenum ≤ file.content.length) :
    Tracks region { h with file :=
        { h.file with fileDataAddress := 0xFFFFFFFF, fileDataDirty := false, bytenum := bytenum } } front cells back
      { file with position := bytenum } := by
  have onDisk := fun m inside => tracks.stream.disk_sector (k := m) inside fun dirty =>
    by rw [clean] at dirty; cases dirty
  have bound := tracks.stream.bound
  constructor
  · constructor
    · exact tracks.stream.volume
    · exact tracks.stream.onVolume
    · exact ⟨tracks.stream.along.start, tracks.stream.along.lookup⟩
    · exact fun m inside => Or.inl (onDisk m inside).1
    · intro dirty
      cases dirty
    · exact fun _ valid => absurd rfl valid
    · exact bound
  · exact tracks.length
  · rfl
  · exact within
  · exact tracks.flags
  · refine Eq.trans (Stream.bytesAt_congr (Nat.le_of_eq (Nat.zero_add _)) ?_) tracks.content
    intro p inside
    change p < file.content.length at inside
    have low := Nat.mod_lt p (show 0 < FAT_SECTOR_SIZE by decide)
    have sector : p / FAT_SECTOR_SIZE * FAT_SECTOR_SIZE < file.content.length := by
      have split := Nat.div_add_mod p FAT_SECTOR_SIZE
      rw [Nat.mul_comm]
      omega
    rw [byteAt, byteAt, ← (onDisk _ sector).2 _ low, sectorAt, if_neg]
    intro here
    change 0xFFFFFFFF = _ at here
    simp only [← here, FAT_SECTOR_SIZE] at sector
    omega
  · intro dirty
    cases dirty
  · exact fun _ => rfl
  · exact tracks.clusters
  · exact tracks.taken

theorem seek (tracks : Tracks region h front cells back file) {offset origin : Int} (low : -2 ^ 31 ≤ offset)
    (high : offset < 2 ^ 31) (flushed : file.flushed = true ∨ (origin = SEEK_END ∧ offset ≠ 0)) :
    Answers region front back cells (.seek offset origin) h file := by
  have bound := tracks.stream.bound
  have within := tracks.within
  have position := tracks.position
  have filelength := tracks.length
  rw [Answers]
  simp only [Handle.perform, flFseek, ByteFile.perform, ByteFile.seek]
  by_cases refused : origin = SEEK_END ∧ offset ≠ 0
  · have notSet : origin ≠ SEEK_SET := by rw [refused.1]; decide
    have notCur : origin ≠ SEEK_CUR := by rw [refused.1]; decide
    simp only [if_pos refused, if_neg notSet, if_neg notCur, refused.2, and_false, if_false]
    exact ⟨cells, h, rfl, Used.refl h.fs cells, tracks⟩
  have clean : h.file.fileDataDirty = false := by
    cases flushed with
    | inl flushed => exact tracks.flushed flushed
    | inr other => exact absurd other refused
  simp only [if_neg refused]
  by_cases isSet : origin = SEEK_SET
  · simp only [if_pos isSet]
    have place : (if (offset % 2 ^ 32).toNat > h.file.filelength then h.file.filelength else
        (offset % 2 ^ 32).toNat) =
        if offset < 0 then file.content.length else min offset.toNat file.content.length := by
      rw [filelength]
      split <;> split <;> omega
    rw [place]
    refine ⟨cells, _, rfl, Used.refl h.fs cells, tracks.giveUp clean ?_⟩
    split <;> omega
  simp only [if_neg isSet]
  by_cases isCur : origin = SEEK_CUR
  · simp only [if_pos isCur]
    by_cases ahead : offset ≥ 0
    · have place : (if add32 h.file.bytenum (offset % 2 ^ 32).toNat > h.file.filelength then h.file.filelength else
          add32 h.file.bytenum (offset % 2 ^ 32).toNat) = min (file.position + offset).toNat file.content.length := by
        rw [position, filelength, add32_of_lt (by omega)]
        split <;> omega
      simp only [if_pos ahead]
      rw [place]
      exact ⟨cells, _, rfl, Used.refl h.fs cells, tracks.giveUp clean (Nat.min_le_right _ _)⟩
    · have shift : (int32 (-offset) % 2 ^ 32).toNat = (-offset).toNat := by
        simp only [int32, Int.bmod]
        omega
      have place : (if (int32 (-offset) % 2 ^ 32).toNat > h.file.bytenum then 0 else
          h.file.bytenum - (int32 (-offset) % 2 ^ 32).toNat) =
          min (file.position + offset).toNat file.content.length := by
        rw [shift, position]
        split <;> omega
      simp only [if_neg ahead]
      rw [place]
      exact ⟨cells, _, rfl, Used.refl h.fs cells, tracks.giveUp clean (Nat.min_le_right _ _)⟩
  simp only [if_neg isCur]
  by_cases isEnd : origin = SEEK_END
  · have zero : offset = 0 := by
      by_contra other
      exact refused ⟨isEnd, other⟩
    have kept := tracks.giveUp clean (Nat.le_of_eq filelength)
    have same : ({ file with position := h.file.filelength } : ByteFile) =
        { file with position := file.content.length } := by rw [filelength]
    rw [same] at kept
    simp only [isEnd, zero, and_self, if_true]
    exact ⟨cells, _, rfl, Used.refl h.fs cells, kept⟩
  · simp only [isEnd, false_and, if_false]
    have kept := tracks.giveUp clean (position.trans_le within)
    have same : ({ file with position := h.file.bytenum } : ByteFile) = file := by rw [position]
    rw [same] at kept
    exact ⟨cells, _, rfl, Used.refl h.fs cells, kept⟩

theorem tell (tracks : Tracks region h front cells back file) : Answers region front back cells .tell h file := by
  have bound := tracks.stream.bound
  have within := tracks.within
  refine ⟨cells, h, ?_, Used.refl h.fs cells, tracks⟩
  simp only [Handle.perform, flFtell, ByteFile.perform, tracks.position]
  rw [int32_of_range (by omega) (by omega)]

theorem perform (tracks : Tracks region h front cells back file) {request : FileRequest} (legal : file.Legal request)
    (room : Room region front cells back (file.perform region request).2.content.length) :
    Answers region front back cells request h file := by
  cases request with
  | read size length =>
    rw [ByteFile.perform, ByteFile.read_content] at room
    exact tracks.read room legal.1 legal.2
  | write data size count => exact tracks.write legal.1 legal.2 room
  | flush => exact tracks.flush room
  | seek offset origin => exact tracks.seek legal.1 legal.2.1 legal.2.2
  | tell => exact tracks.tell

/-! ## Files apart -/

variable {fs fs' : Fatfs} {own : FlFile} {others : List Nat} {front' back' : List (List Nat)} {target : Nat}

/-- A file stays as it is when another one is used. -/
theorem frame (tracks : Tracks region ⟨fs, own⟩ front others back file)
    (used : Used region front' back' target fs fs' cells cells') {front₁ back₁ : List (List Nat)}
    (volume : Volume region fs' (front₁ ++ others :: back₁)) (low : ∀ c ∈ cells', 2 ≤ c)
    (apart : ∀ c ∈ others, c ∉ cells') :
    Tracks region ⟨fs', own⟩ front₁ others back₁ file ∧
      ∀ k, fs.HasSector others k → fs'.disk (fs.fileLba others k) = fs.disk (fs.fileLba others k) := by
  have stream := tracks.stream
  have same : ∀ k, fs.HasSector others k → fs'.disk (fs.fileLba others k) = fs.disk (fs.fileLba others k) := by
    intro k has
    obtain ⟨outside, notInfo⟩ := stream.onVolume.outside others k
    apply used.outside _ outside notInfo
    intro j has'
    exact Geometry.fileLba_apart stream.onVolume.cluster.1 stream.low low apart has has'
  refine ⟨?_, same⟩
  have sameBytes : ∀ p < file.content.length, byteAt ⟨fs', own⟩ others p = byteAt ⟨fs, own⟩ others p := by
    intro p inside
    have sector : p / FAT_SECTOR_SIZE * FAT_SECTOR_SIZE < file.content.length :=
      (Nat.div_mul_le_self _ _).trans_lt inside
    simp only [byteAt, sectorAt]
    by_cases here : own.fileDataAddress = p / FAT_SECTOR_SIZE
    · rw [if_pos here, if_pos here]
    · rw [if_neg here, if_neg here]
      cases stream.placed _ sector with
      | inl has => rw [used.geometry, same _ has]
      | inr buffered => exact absurd buffered.2 here
  constructor
  · constructor
    · exact volume
    · exact used.geometry ▸ stream.onVolume
    · exact stream.along
    · exact used.geometry ▸ stream.placed
    · exact stream.dirty
    · intro clean valid
      obtain ⟨has, bytes⟩ := stream.clean clean valid
      change fs'.HasSector others _ ∧ ∀ i < FAT_SECTOR_SIZE, _ = fs'.disk (fs'.fileLba others _) i
      rw [used.geometry]
      exact ⟨has, fun i within => (bytes i within).trans (congrFun (same _ has) i).symm⟩
    · exact stream.bound
  · exact tracks.length
  · exact tracks.position
  · exact tracks.within
  · exact tracks.flags
  · exact (Stream.bytesAt_congr (Nat.le_of_eq (Nat.zero_add _)) sameBytes).trans tracks.content
  · exact tracks.behind
  · exact tracks.flushed
  · exact tracks.clusters
  · exact tracks.taken

/-- A file that has just been opened shows what the volume has. -/
theorem opened {startcluster filelength flags : Nat} {sector : Sector}
    (volume : Volume region fs (front ++ cells :: back))
    (onVolume : region.OnVolume fs.toGeometry) (start : cells[0]? = some startcluster)
    (enough : region.clustersFor filelength ≤ cells.length) (bound : filelength < 2 ^ 31) :
    Tracks region ⟨fs, openFile startcluster filelength flags sector⟩ front cells back
      ⟨bytesAt ⟨fs, openFile startcluster filelength flags sector⟩ cells 0 filelength, 0, flags, true,
        cells.length⟩ := by
  have length : (bytesAt ⟨fs, openFile startcluster filelength flags sector⟩ cells 0 filelength).length =
    filelength := by
    rw [bytesAt, List.length_map, List.length_range]
  constructor
  · rw [length]
    constructor
    · exact volume
    · exact onVolume
    · exact ⟨start, Or.inl rfl⟩
    · intro k inside
      left
      have positive := onVolume.cluster.1
      have size := volume.fits.size
      apply (Nat.div_lt_iff_lt_mul positive).mpr
      by_contra beyond
      have needed : cells.length < region.clustersFor filelength := by
        apply (Region.lt_clustersFor volume.fits.positive).mpr
        rw [size, ← Nat.mul_assoc]
        exact (Nat.mul_le_mul_right _ (Nat.le_of_not_lt beyond)).trans_lt inside
      omega
    · intro dirty
      cases dirty
    · exact fun _ valid => absurd rfl valid
    · exact bound
  · exact length.symm
  · rfl
  · exact Nat.zero_le _
  · rfl
  · rw [length]
  · intro dirty
    cases dirty
  · exact fun _ => rfl
  · rw [length]
    exact enough
  · exact Nat.le_refl _

end Tracks

end Handle

/-! ## All open files -/

/-- A file that is open, its chain and the file of bytes that it is. -/
structure OpenFile where
  file : FlFile
  cells : List Nat
  view : ByteFile

/-- Every open file is its file of bytes, and there are clusters for what all of them may have. The other chains of the
volume belong to no open file. -/
structure OpenFiles.Tracks (region : Region) (fs : Fatfs) (table : List OpenFile) (others : List (List Nat))
    (capacity : Nat) : Prop where
  each : ∀ before item after, table = before ++ item :: after →
    Handle.Tracks region ⟨fs, item.file⟩ (before.map OpenFile.cells) item.cells (after.map OpenFile.cells ++ others)
      item.view
  shared : (table.map fun item => item.cells.length).sum +
    (region.free (table.map OpenFile.cells ++ others)).ncard = capacity
  fits : (table.map fun item => item.view.clusters).sum ≤ capacity

/-- The chains that belong to no open file keep their sectors. -/
def OpenFiles.Spares (fs fs' : Fatfs) (others : List (List Nat)) : Prop :=
  fs'.toGeometry = fs.toGeometry ∧ ∀ cells ∈ others, ∀ k, fs.HasSector cells k →
    fs'.disk (fs.fileLba cells k) = fs.disk (fs.fileLba cells k)

namespace OpenFiles

variable {region : Region} {fs : Fatfs} {before after table : List OpenFile} {item : OpenFile}
  {others : List (List Nat)} {capacity : Nat} {request : FileRequest}

/-- A request to one file leaves the others as they are. -/
theorem Tracks.perform (tracks : Tracks region fs (before ++ item :: after) others capacity)
    (legal : item.view.Legal request)
    (fits : (before.map fun item => item.view.clusters).sum + ((item.view.perform region request).2.clusters +
      (after.map fun item => item.view.clusters).sum) ≤ capacity) :
    ∃ cells' h', Handle.perform request ⟨fs, item.file⟩ = ((item.view.perform region request).1, h') ∧
      Tracks region h'.fs (before ++ ⟨h'.file, cells', (item.view.perform region request).2⟩ :: after) others
        capacity ∧ Spares fs h'.fs others := by
  have own := tracks.each before item after rfl
  have shared := tracks.shared
  simp only [List.map_append, List.map_cons, List.sum_append, List.sum_cons, List.append_assoc, List.cons_append]
    at shared
  -- the clusters that the other files have are among those that they may have
  have taken : ∀ other ∈ before ++ after, other.cells.length ≤ other.view.clusters := by
    intro other among
    cases List.mem_append.mp among with
    | inl early =>
      obtain ⟨first, last, split⟩ := List.append_of_mem early
      exact (tracks.each first other (last ++ item :: after) (by rw [split]; simp)).taken
    | inr late =>
      obtain ⟨first, last, split⟩ := List.append_of_mem late
      exact (tracks.each (before ++ item :: first) other last (by rw [split]; simp)).taken
  have early : (before.map fun item => item.cells.length).sum ≤ (before.map fun item => item.view.clusters).sum :=
    List.sum_le_sum fun other among => taken other (List.mem_append_left _ among)
  have late : (after.map fun item => item.cells.length).sum ≤ (after.map fun item => item.view.clusters).sum :=
    List.sum_le_sum fun other among => taken other (List.mem_append_right _ among)
  have enough := ByteFile.clusters_perform request own.clusters
  have room : Handle.Room region (before.map OpenFile.cells) item.cells (after.map OpenFile.cells ++ others)
      (item.view.perform region request).2.content.length := by
    rw [Handle.Room]
    omega
  obtain ⟨cells', h', performed, used, own'⟩ := own.perform legal room
  have volume := own'.stream.volume
  have low := own'.stream.low
  have spares : ∀ cells ∈ before.map OpenFile.cells ++ (after.map OpenFile.cells ++ others),
      ∀ c ∈ cells, c ∉ cells' := fun cells among c inside =>
    volume.allocation.other_chain among inside
  refine ⟨cells', h', performed, ⟨?_, ?_, ?_⟩, used.geometry, ?_⟩
  · intro first other last split
    obtain ⟨rest, first_, rest_⟩ | ⟨rest, before_, rest_⟩ := List.append_eq_append_iff.mp split
    · cases rest with
      | nil =>
        rw [List.nil_append, List.cons.injEq] at rest_
        rw [List.append_nil] at first_
        rw [first_, ← rest_.1, ← rest_.2]
        exact own'
      | cons changed rest =>
        -- the other file comes behind
        rw [List.cons_append, List.cons.injEq] at rest_
        obtain ⟨rfl, after_⟩ := rest_
        have old := tracks.each (before ++ item :: rest) other last (by rw [after_]; simp)
        subst first_ after_
        refine (old.frame used (by simpa using volume) low (spares _ ?_)).1
        simp
    · cases rest with
      | nil =>
        rw [List.nil_append, List.cons.injEq] at rest_
        rw [List.append_nil] at before_
        rw [← before_, rest_.1, rest_.2]
        exact own'
      | cons changed rest =>
        -- the other file comes before
        rw [List.cons_append, List.cons.injEq] at rest_
        obtain ⟨rfl, last_⟩ := rest_
        have old := tracks.each first other (rest ++ item :: after) (by rw [before_]; simp)
        subst before_ last_
        refine (old.frame used (by simpa using volume) low (spares _ ?_)).1
        simp
  · have kept := used.kept
    simp only [List.map_append, List.map_cons, List.sum_append, List.sum_cons, List.append_assoc, List.cons_append]
    omega
  · simpa using fits
  · intro cells among k has
    obtain ⟨outside, notInfo⟩ := own.stream.onVolume.outside cells k
    apply used.outside _ outside notInfo
    intro j has'
    have isLow : ∀ c ∈ cells, 2 ≤ c := fun c inside =>
      volume.fits.low c (volume.usable_of_mem (by simp [among]) inside)
    exact Geometry.fileLba_apart own.stream.onVolume.cluster.1 isLow low (spares _ (by simp [among])) has has'

theorem Spares.trans {fs fs' fs'' : Fatfs} (first : Spares fs fs' others) (second : Spares fs' fs'' others) :
    Spares fs fs'' others := by
  obtain ⟨geometry, first⟩ := first
  obtain ⟨geometry', second⟩ := second
  refine ⟨geometry'.trans geometry, ?_⟩
  intro cells among k has
  rw [geometry] at second
  rw [second cells among k has, first cells among k has]

end OpenFiles

end XinuStm32
