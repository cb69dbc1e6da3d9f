import XinuStm32.Drivers.FatFile
import XinuStm32.Properties.FatChains

/-!
# Sectors of a file

A file has a chain of clusters. Its sectors, numbered from 0, lie in the clusters one after another; distinct sectors of
all files lie in distinct places, outside the table. One lemma for each of the functions that find, read and write
sectors: which they are, and that nothing else is stored.
-/

namespace XinuStm32

/-! ## Places -/

/-- The sector of the first data cluster. -/
def Geometry.dataLba (g : Geometry) : Nat :=
  match g.fatType with
  | .fat16 => g.clusterBeginLba + g.rootEntryCount * 32 / FAT_SECTOR_SIZE
  | .fat32 => g.clusterBeginLba

/-- The clusters that may be used are on the volume, behind the table. -/
structure Region.OnVolume (region : Region) (g : Geometry) : Prop where
  cluster : 0 < g.sectorsPerCluster ∧ g.sectorsPerCluster < 256
  data : ∀ c, region.usable c → g.dataLba + (c - 2) * g.sectorsPerCluster + g.sectorsPerCluster ≤ 2 ^ 32
  table : g.fatBeginLba + g.fatSectors ≤ g.dataLba
  info : g.fatType = .fat32 → g.infoLba < g.dataLba

/-- Where a sector of a chain lies. -/
def Geometry.fileLba (g : Geometry) (cells : List Nat) (k : Nat) : Nat :=
  g.dataLba + (cells.getD (k / g.sectorsPerCluster) 2 - 2) * g.sectorsPerCluster + k % g.sectorsPerCluster

/-- The chain has the sector. -/
def Geometry.HasSector (g : Geometry) (cells : List Nat) (k : Nat) : Prop := k / g.sectorsPerCluster < cells.length

variable {region : Region} {g : Geometry} {cells cells' : List Nat} {c d k : Nat}

theorem Geometry.HasSector.mono (has : g.HasSector cells k) (longer : cells <+: cells') : g.HasSector cells' k :=
  has.trans_le longer.length_le

theorem Geometry.fileLba_isPrefix (has : g.HasSector cells k) (longer : cells <+: cells') :
    g.fileLba cells' k = g.fileLba cells k := by
  obtain ⟨rest, rfl⟩ := longer
  rw [fileLba, fileLba, List.getD_append _ _ _ _ has]

/-- The address that the code computes. -/
theorem Region.OnVolume.lba_eq (onVolume : region.OnVolume g) (low : 2 ≤ c) (usable : region.usable c) {s : Nat}
    (inside : s < g.sectorsPerCluster) :
    add32 (g.fatfsLbaOfCluster c) s = g.dataLba + (c - 2) * g.sectorsPerCluster + s := by
  have bound := onVolume.data c usable
  have small : c - 2 < 2 ^ 32 := by
    by_contra large
    have big : (c - 2) * 1 ≤ (c - 2) * g.sectorsPerCluster := Nat.mul_le_mul_left _ onVolume.cluster.1
    omega
  have minus : sub32 c 2 = c - 2 := by
    simp only [sub32]
    omega
  cases g.type_cases with
  | inl type =>
    simp only [Geometry.dataLba, type, FAT_SECTOR_SIZE] at bound ⊢
    simp only [Geometry.fatfsLbaOfCluster, type, minus, add32, FAT_SECTOR_SIZE]
    omega
  | inr type =>
    simp only [Geometry.dataLba, type] at bound ⊢
    simp only [Geometry.fatfsLbaOfCluster, type, minus, add32]
    omega

theorem Region.OnVolume.outside (onVolume : region.OnVolume g) (cells : List Nat) (k : Nat) :
    ¬ g.InFat (g.fileLba cells k) ∧ ¬ g.IsInfo (g.fileLba cells k) := by
  have table := onVolume.table
  constructor
  · simp only [Geometry.InFat, Geometry.fileLba]
    omega
  · intro isInfo
    have info := onVolume.info isInfo.1
    have here := isInfo.2
    simp only [Geometry.fileLba] at here
    omega

/-- Sectors in the same place are the same sector of the same cluster. -/
theorem Geometry.fileLba_inj {others : List Nat} {j : Nat} (positive : 0 < g.sectorsPerCluster)
    (low : ∀ c ∈ cells, 2 ≤ c) (low' : ∀ c ∈ others, 2 ≤ c) (has : g.HasSector cells k) (has' : g.HasSector others j)
    (same : g.fileLba cells k = g.fileLba others j) :
    cells.get ⟨k / g.sectorsPerCluster, has⟩ = others.get ⟨j / g.sectorsPerCluster, has'⟩ ∧
      k % g.sectorsPerCluster = j % g.sectorsPerCluster := by
  have first := low _ (List.get_mem cells ⟨_, has⟩)
  have second := low' _ (List.get_mem others ⟨_, has'⟩)
  simp only [fileLba, List.getD_eq_getElem _ _ has, List.getD_eq_getElem _ _ has'] at same
  simp only [List.get_eq_getElem] at first second ⊢
  have small := Nat.mod_lt k positive
  have small' := Nat.mod_lt j positive
  generalize k % g.sectorsPerCluster = s at *
  generalize j % g.sectorsPerCluster = t at *
  generalize cells[k / g.sectorsPerCluster] = c at *
  generalize others[j / g.sectorsPerCluster] = d at *
  have equal : (c - 2) * g.sectorsPerCluster + s = (d - 2) * g.sectorsPerCluster + t := by omega
  have quotient : c - 2 = d - 2 := by
    have left : ((c - 2) * g.sectorsPerCluster + s) / g.sectorsPerCluster = c - 2 := by
      rw [Nat.mul_comm, Nat.mul_add_div positive, Nat.div_eq_of_lt small, Nat.add_zero]
    have right : ((d - 2) * g.sectorsPerCluster + t) / g.sectorsPerCluster = d - 2 := by
      rw [Nat.mul_comm, Nat.mul_add_div positive, Nat.div_eq_of_lt small', Nat.add_zero]
    rw [← left, ← right, equal]
  rw [quotient] at equal
  omega

/-- Different sectors of a chain are in different places. -/
theorem Geometry.fileLba_ne {j : Nat} (positive : 0 < g.sectorsPerCluster) (low : ∀ c ∈ cells, 2 ≤ c)
    (apart : cells.Nodup) (has : g.HasSector cells k) (has' : g.HasSector cells j) (other : k ≠ j) :
    g.fileLba cells k ≠ g.fileLba cells j := by
  intro same
  obtain ⟨clusters, sectors⟩ := fileLba_inj positive low low has has' same
  have index : k / g.sectorsPerCluster = j / g.sectorsPerCluster :=
    Fin.mk.inj (List.nodup_iff_injective_get.mp apart clusters)
  exact other (by rw [← Nat.div_add_mod k g.sectorsPerCluster, ← Nat.div_add_mod j g.sectorsPerCluster, index, sectors])

/-- Sectors of chains that have no cluster in common are in different places. -/
theorem Geometry.fileLba_apart {others : List Nat} {j : Nat} (positive : 0 < g.sectorsPerCluster)
    (low : ∀ c ∈ cells, 2 ≤ c) (low' : ∀ c ∈ others, 2 ≤ c) (apart : ∀ c ∈ cells, c ∉ others)
    (has : g.HasSector cells k) (has' : g.HasSector others j) : g.fileLba cells k ≠ g.fileLba others j := by
  intro same
  obtain ⟨clusters, -⟩ := fileLba_inj positive low low' has has' same
  exact apart _ (List.get_mem cells ⟨_, has⟩) (clusters ▸ List.get_mem others ⟨_, has'⟩)


/-! ## Finding a cluster -/

/-- The file begins where its chain does, and the last lookup is one of the chain. -/
structure FlFile.Along (file : FlFile) (cells : List Nat) : Prop where
  start : cells[0]? = some file.startcluster
  lookup : file.lastFatLookup.clusterIdx = 0xFFFFFFFF ∨
    cells[file.lastFatLookup.clusterIdx]? = some file.lastFatLookup.currentCluster

theorem FlFile.Along.nonempty {file : FlFile} (along : file.Along cells) : 0 < cells.length :=
  (List.getElem?_eq_some_iff.mp along.start).1

theorem FlFile.Along.mono {file : FlFile} (along : file.Along cells) (longer : cells <+: cells') :
    file.Along cells' := by
  obtain ⟨rest, rfl⟩ := longer
  constructor
  · exact List.getElem?_append_left (along.nonempty) ▸ along.start
  · cases along.lookup with
    | inl none_ => exact Or.inl none_
    | inr found =>
      have inside := (List.getElem?_eq_some_iff.mp found).1
      exact Or.inr ((List.getElem?_append_left inside).trans found)

namespace Handle

variable {fs fs' : Fatfs} {h h' : Handle} {chains front back : List (List Nat)} {i steps idx count : Nat}

/-- The search begins at a cell of the chain. -/
theorem walkFrom_spec (idx : Nat) {file : FlFile} (along : file.Along cells) (small : cells.length < 2 ^ 28) :
    ∃ i c, walkFrom idx file = (i, c) ∧ cells[i]? = some c ∧ i ≤ idx := by
  rw [walkFrom]
  by_cases next : idx ≠ 0 ∧ idx = add32 file.lastFatLookup.clusterIdx 1
  · rw [if_pos next]
    cases along.lookup with
    | inl none_ =>
      rw [none_] at next
      exact absurd (next.2.trans (by decide)) next.1
    | inr found =>
      have inside := (List.getElem?_eq_some_iff.mp found).1
      have index : idx = file.lastFatLookup.clusterIdx + 1 := by
        rw [next.2, add32]
        omega
      exact ⟨_, _, rfl, found, by omega⟩
  · rw [if_neg next]
    exact ⟨0, file.startcluster, rfl, along.start, Nat.zero_le _⟩

theorem find_at (volume : Volume region fs chains) (inside : cells ∈ chains) (at_ : cells[i]? = some c) :
    ∃ fs', fs.fatfsFindNextCluster c = (cells.getD (i + 1) FAT32_LAST_CLUSTER, fs') ∧ fs.Keeps fs' := by
  obtain ⟨bound, rfl⟩ := List.getElem?_eq_some_iff.mp at_
  exact volume.find_next inside bound

theorem readWalk_spec (steps : Nat) (volume : Volume region fs chains) (inside : cells ∈ chains)
    (at_ : cells[i]? = some c)
    (within : i + steps ≤ cells.length) :
    ∃ fs', readWalk steps c fs = (cells.getD (i + steps) FAT32_LAST_CLUSTER, fs') ∧ fs.Keeps fs' := by
  induction steps generalizing fs i c with
  | zero =>
    have here : cells.getD i FAT32_LAST_CLUSTER = c := by rw [List.getD_eq_getElem?_getD, at_, Option.getD_some]
    exact ⟨fs, by rw [readWalk, Nat.add_zero, here], Fatfs.Keeps.refl volume.mounted⟩
  | succ steps inductionHypothesis =>
    obtain ⟨fs₁, find, keeps⟩ := find_at volume inside at_
    simp only [readWalk, find]
    by_cases more : i + 1 < cells.length
    · have next : cells[i + 1]? = some (cells.getD (i + 1) FAT32_LAST_CLUSTER) := by
        rw [List.getD_eq_getElem _ _ more, List.getElem?_eq_getElem more]
      obtain ⟨fs', rest, later⟩ := inductionHypothesis (volume.keeps keeps).volume next (by omega)
      rw [rest, Nat.add_right_comm, Nat.add_assoc]
      exact ⟨fs', rfl, keeps.trans later⟩
    · -- the end of the chain is the last thing that is looked up
      have ends : steps = 0 := by omega
      subst ends
      exact ⟨fs₁, rfl, keeps⟩

/-- The same search, as far as it meets no end. -/
theorem writeWalk_inside (steps last : Nat) (volume : Volume region fs chains) (inside : cells ∈ chains)
    (at_ : cells[i]? = some c) (within : i + steps < cells.length) :
    ∃ last' fs', writeWalk steps last c fs = ⟨last', cells[i + steps], fs'⟩ ∧ fs.Keeps fs' := by
  induction steps generalizing fs i c last with
  | zero =>
    obtain ⟨bound, rfl⟩ := List.getElem?_eq_some_iff.mp at_
    exact ⟨last, fs, rfl, Fatfs.Keeps.refl volume.mounted⟩
  | succ steps inductionHypothesis =>
    obtain ⟨fs₁, find, keeps⟩ := find_at volume inside at_
    have more : i + 1 < cells.length := by omega
    rw [List.getD_eq_getElem _ _ more] at find
    have notLast := (volume.placed inside _ (List.getElem_mem more)).2.1
    obtain ⟨last', fs', rest, later⟩ := inductionHypothesis c (volume.keeps keeps).volume
      (List.getElem?_eq_getElem more) (by omega)
    refine ⟨last', fs', ?_, keeps.trans later⟩
    simp only [writeWalk, find, if_neg notLast, rest]
    congr 2
    omega

/-- The search that meets the end of the chain comes back with its last cell. -/
theorem writeWalk_end (steps last : Nat) (volume : Volume region fs chains) (inside : cells ∈ chains)
    (nonempty : cells ≠ []) (at_ : cells[i]? = some c) (ends : i + steps = cells.length) :
    ∃ fs', writeWalk steps last c fs = ⟨cells.getLast nonempty, FAT32_LAST_CLUSTER, fs'⟩ ∧ fs.Keeps fs' := by
  induction steps generalizing fs i c last with
  | zero =>
    have bound := (List.getElem?_eq_some_iff.mp at_).1
    omega
  | succ steps inductionHypothesis =>
    obtain ⟨fs₁, find, keeps⟩ := find_at volume inside at_
    by_cases more : i + 1 < cells.length
    · rw [List.getD_eq_getElem _ _ more] at find
      have notLast := (volume.placed inside _ (List.getElem_mem more)).2.1
      obtain ⟨fs', rest, later⟩ := inductionHypothesis c (volume.keeps keeps).volume
        (List.getElem?_eq_getElem more) (by omega)
      refine ⟨fs', ?_, keeps.trans later⟩
      simp only [writeWalk, find, if_neg notLast, rest]
    · obtain ⟨bound, rfl⟩ := List.getElem?_eq_some_iff.mp at_
      rw [List.getD_eq_default _ _ (by omega)] at find
      refine ⟨fs₁, ?_, keeps⟩
      simp only [writeWalk, find, if_true]
      rw [List.getLast_eq_getElem]
      congr 2
      omega

/-- What finding a cluster does to the handle: the lookup is another one of the chain. -/
structure Found (h h' : Handle) (cells' : List Nat) : Prop where
  file : ∃ lookup, h'.file = { h.file with lastFatLookup := lookup }
  along : h'.file.Along cells'

/-- The cluster is the cell at its index, or the end behind the last. -/
theorem readCluster_spec (idx : Nat) (volume : Volume region h.fs chains) (inside : cells ∈ chains)
    (along : h.file.Along cells)
    (within : idx ≤ cells.length) :
    ∃ h', h.readCluster idx = (cells.getD idx FAT32_LAST_CLUSTER, h') ∧ h.fs.Keeps h'.fs ∧ h.Found h' cells := by
  have small := volume.length_lt inside
  rw [readCluster]
  by_cases known : idx = h.file.lastFatLookup.clusterIdx
  · rw [if_pos known]
    refine ⟨h, ?_, Fatfs.Keeps.refl volume.mounted, ⟨_, rfl⟩, along⟩
    cases along.lookup with
    | inl none_ => omega
    | inr found => rw [known, List.getD_eq_getElem?_getD, found, Option.getD_some]
  · rw [if_neg known]
    obtain ⟨i, c, begins, at_, low⟩ := walkFrom_spec idx along small
    obtain ⟨fs', walk, keeps⟩ := readWalk_spec (idx - i) volume inside at_ (by omega)
    rw [Nat.add_sub_cancel' low] at walk
    simp only [begins, walk]
    by_cases more : idx < cells.length
    · have notLast := (volume.placed inside _ (List.getElem_mem more)).2.1
      rw [List.getD_eq_getElem _ _ more]
      simp only [ne_eq, notLast, not_false_eq_true, if_true]
      exact ⟨_, rfl, keeps, ⟨_, rfl⟩, along.start, Or.inr (List.getElem?_eq_getElem more)⟩
    · rw [List.getD_eq_default _ _ (by omega)]
      simp only [ne_eq, not_true_eq_false, if_false]
      exact ⟨_, rfl, keeps, ⟨_, rfl⟩, along⟩

theorem writeCluster_inside (volume : Volume region h.fs chains) (inside : cells ∈ chains)
    (along : h.file.Along cells) (more : idx < cells.length) (total : Nat) :
    ∃ h', h.writeCluster idx total = (some cells[idx], h') ∧ h.fs.Keeps h'.fs ∧ h.Found h' cells := by
  have small := volume.length_lt inside
  rw [writeCluster]
  by_cases known : idx = h.file.lastFatLookup.clusterIdx
  · rw [if_pos known]
    refine ⟨h, ?_, Fatfs.Keeps.refl volume.mounted, ⟨_, rfl⟩, along⟩
    cases along.lookup with
    | inl none_ => omega
    | inr found =>
      rw [← known, List.getElem?_eq_getElem more, Option.some.injEq] at found
      rw [found]
  · rw [if_neg known]
    obtain ⟨i, c, begins, at_, low⟩ := walkFrom_spec idx along small
    obtain ⟨last, fs', walk, keeps⟩ := writeWalk_inside (idx - i) FAT32_LAST_CLUSTER volume inside
      at_ (by omega)
    simp only [Nat.add_sub_cancel' low] at walk
    have notLast := (volume.placed inside _ (List.getElem_mem more)).2.1
    simp only [begins, walk, if_neg notLast]
    exact ⟨_, rfl, keeps, ⟨_, rfl⟩, along.start, Or.inr (List.getElem?_eq_getElem more)⟩

/-- Behind the last cluster the chain gets as many as the sectors take. -/
theorem writeCluster_end (volume : Volume region h.fs (front ++ cells :: back))
    (onVolume : region.OnVolume h.fs.toGeometry)
    (along : h.file.Along cells) {total : Nat} (some_ : 0 < total) (small : total < 2 ^ 31)
    (grows : region.Grows front back ((total + h.fs.sectorsPerCluster - 1) / h.fs.sectorsPerCluster) cells cells')
    (longer : cells.length < cells'.length) :
    ∃ h', h.writeCluster cells.length total = (some cells'[cells.length], h') ∧
      Rewritten region h.fs h'.fs (front ++ cells' :: back) ∧ h.Found h' cells' := by
  have inside : cells ∈ front ++ cells :: back := by simp
  have bounded := volume.length_lt inside
  have nonempty : cells ≠ [] := List.ne_nil_of_length_pos along.nonempty
  have cluster := onVolume.cluster
  rw [writeCluster]
  have unknown : cells.length ≠ h.file.lastFatLookup.clusterIdx := by
    cases along.lookup with
    | inl none_ => omega
    | inr found => exact (Nat.ne_of_lt (List.getElem?_eq_some_iff.mp found).1).symm
  rw [if_neg unknown]
  obtain ⟨i, c, begins, at_, low⟩ := walkFrom_spec cells.length along bounded
  obtain ⟨fs₁, walk, keeps⟩ := writeWalk_end (cells.length - i) FAT32_LAST_CLUSTER volume inside
    nonempty at_ (by omega)
  have kept := volume.keeps keeps
  obtain ⟨fs₂, added, rewritten⟩ := kept.volume.add_space nonempty grows
  have counted : addClusters (cells.getLast nonempty) total fs₁ =
      ((1, cells'[cells.length]), fs₂) := by
    have same : fs₁.sectorsPerCluster = h.fs.sectorsPerCluster :=
      congrArg Geometry.sectorsPerCluster keeps.geometry
    have sum : sub32 (add32 total fs₁.sectorsPerCluster) 1 = total + h.fs.sectorsPerCluster - 1 := by
      simp only [same, add32, sub32]
      omega
    rw [addClusters, sum, same, added, List.getD_eq_getElem _ _ longer]
  simp only [begins, walk, if_true, counted, one_ne_zero, if_false]
  refine ⟨_, rfl, kept.trans rewritten, ⟨_, rfl⟩, ?_, Or.inr (List.getElem?_eq_getElem longer)⟩
  exact (along.mono grows.isPrefix).start

end Handle


namespace Handle

variable {h h' : Handle} {chains front back : List (List Nat)} {count : Nat}

/-! ## Reading sectors -/

/-- How many sectors are moved: no more than the cluster has. -/
def moved (g : Geometry) (k count : Nat) : Nat := min count (g.sectorsPerCluster - k % g.sectorsPerCluster)

theorem moved_pos (onVolume : region.OnVolume g) (k : Nat) (some_ : 0 < count) : 0 < moved g k count := by
  have inside := Nat.mod_lt k onVolume.cluster.1
  simp only [moved]
  omega

theorem limitToCluster_eq (onVolume : region.OnVolume g) (small : count < 2 ^ 31) :
    limitToCluster (k - k / g.sectorsPerCluster * g.sectorsPerCluster) count g.sectorsPerCluster = moved g k count := by
  have split := Nat.div_add_mod k g.sectorsPerCluster
  have inside := Nat.mod_lt k onVolume.cluster.1
  have cluster := onVolume.cluster
  rw [Nat.mul_comm] at split
  have place : k - k / g.sectorsPerCluster * g.sectorsPerCluster = k % g.sectorsPerCluster := by omega
  rw [place, limitToCluster, moved, add32, Nat.mod_eq_of_lt (by omega)]
  split
  · omega
  · omega

/-- Sectors that are moved together are in the same cluster. -/
theorem within_cluster (cells : List Nat) (onVolume : region.OnVolume g) {j : Nat} (inside : j < moved g k count) :
    (k + j) / g.sectorsPerCluster = k / g.sectorsPerCluster ∧ g.fileLba cells (k + j) = g.fileLba cells k + j := by
  have positive := onVolume.cluster.1
  have small : k % g.sectorsPerCluster + j < g.sectorsPerCluster := by
    have low := Nat.mod_lt k positive
    simp only [moved] at inside
    omega
  have shape : k + j = g.sectorsPerCluster * (k / g.sectorsPerCluster) + (k % g.sectorsPerCluster + j) := by
    rw [← Nat.add_assoc, Nat.div_add_mod]
  have quotient : (k + j) / g.sectorsPerCluster = k / g.sectorsPerCluster := by
    rw [shape, Nat.mul_add_div positive, Nat.div_eq_of_lt small, Nat.add_zero]
  have rest : (k + j) % g.sectorsPerCluster = k % g.sectorsPerCluster + j := by
    rw [shape, Nat.mul_add_mod, Nat.mod_eq_of_lt small]
  exact ⟨quotient, by rw [Geometry.fileLba, Geometry.fileLba, quotient, rest, ← Nat.add_assoc]⟩

theorem lba_small (onVolume : region.OnVolume g) (usable : ∀ c ∈ cells, region.usable c)
    (has : g.HasSector cells k) {j : Nat} (inside : j < moved g k count) : g.fileLba cells k + j < 2 ^ 32 := by
  have bound := onVolume.data _ (usable _ (List.getElem_mem has))
  have low := Nat.mod_lt k onVolume.cluster.1
  simp only [moved] at inside
  rw [Geometry.fileLba, List.getD_eq_getElem _ _ has]
  omega

theorem moved_one (onVolume : region.OnVolume g) (k : Nat) : moved g k 1 = 1 := by
  have positive := moved_pos onVolume k Nat.one_pos
  have most : moved g k 1 ≤ 1 := Nat.min_le_left _ _
  omega

/-- The address that `_read_sectors` and `_write_sectors` compute. -/
theorem lba_of_sector (onVolume : region.OnVolume g) (usable : region.usable c) (low : 2 ≤ c)
    (at_ : cells[k / g.sectorsPerCluster]? = some c) :
    add32 (g.fatfsLbaOfCluster c) (k - k / g.sectorsPerCluster * g.sectorsPerCluster) = g.fileLba cells k := by
  have split := Nat.div_add_mod k g.sectorsPerCluster
  rw [Nat.mul_comm] at split
  have place : k - k / g.sectorsPerCluster * g.sectorsPerCluster = k % g.sectorsPerCluster := by omega
  rw [place, onVolume.lba_eq low usable (Nat.mod_lt k onVolume.cluster.1), Geometry.fileLba,
    List.getD_eq_getElem?_getD, at_, Option.getD_some]

/-- The sectors are read that the chain has from one on, in its cluster. -/
theorem readSectors_inside (count : Nat) (volume : Volume region h.fs chains)
    (onVolume : region.OnVolume h.fs.toGeometry)
    (inside : cells ∈ chains) (along : h.file.Along cells) (has : h.fs.HasSector cells k) (small : count < 2 ^ 31) :
    ∃ bytes h', h.readSectors k count = ((moved h.fs.toGeometry k count, bytes), h') ∧ h.fs.Keeps h'.fs ∧
      h.Found h' cells ∧ ∀ j < moved h.fs.toGeometry k count, ∀ i < FAT_SECTOR_SIZE,
        bytes (FAT_SECTOR_SIZE * j + i) = h.fs.disk (h.fs.fileLba cells (k + j)) i := by
  obtain ⟨c, at_⟩ : ∃ c, cells[k / h.fs.sectorsPerCluster]? = some c := ⟨_, List.getElem?_eq_getElem has⟩
  have among := List.mem_of_getElem? at_
  have usable := volume.usable_of_mem inside among
  have low := volume.fits.low _ usable
  have notLast := (volume.placed inside _ among).2.1
  obtain ⟨h', find, keeps, found⟩ := readCluster_spec (k / h.fs.sectorsPerCluster) volume inside along
    (Nat.le_of_lt has)
  rw [List.getD_eq_getElem?_getD, at_, Option.getD_some] at find
  have lba := lba_of_sector onVolume usable low at_
  rw [← keeps.geometry] at lba
  refine ⟨readBlocks (h.fs.fileLba cells k) h'.fs.disk, h', ?_, keeps, found, ?_⟩
  · simp only [readSectors, limitToCluster_eq onVolume small, find, if_neg notLast]
    rw [keeps.geometry] at lba ⊢
    rw [lba]
  · intro j before i within
    have bound := lba_small onVolume (fun c => volume.usable_of_mem inside) has before
    have place := (within_cluster cells onVolume before).2
    obtain ⟨outside, notInfo⟩ := onVolume.outside cells (k + j)
    rw [readBlocks, Nat.mul_add_div (by decide), Nat.div_eq_of_lt within, Nat.add_zero, Nat.mul_add_mod,
      Nat.mod_eq_of_lt within, add32, Nat.mod_eq_of_lt bound, ← place, keeps.outside _ outside]

/-- Behind the last cluster there is nothing to read. -/
theorem readSectors_end (count : Nat) (volume : Volume region h.fs chains) (inside : cells ∈ chains)
    (along : h.file.Along cells)
    (ends : k / h.fs.sectorsPerCluster = cells.length) :
    ∃ bytes h', h.readSectors k count = ((0, bytes), h') ∧ h.fs.Keeps h'.fs ∧ h.Found h' cells := by
  obtain ⟨h', find, keeps, found⟩ := readCluster_spec (k / h.fs.sectorsPerCluster) volume inside along
    (Nat.le_of_eq ends)
  rw [List.getD_eq_default _ _ (Nat.le_of_eq ends.symm)] at find
  exact ⟨_, h', by simp only [readSectors, find, if_true]; rfl, keeps, found⟩

end Handle

/-! ## Writing sectors -/

/-- Data sectors are in no buffer of the table. -/
theorem Volume.of_disk {fs : Fatfs} {chains : List (List Nat)} (volume : Volume region fs chains)
    {disk : Nat → Sector} (same : ∀ a, fs.Buffered a → disk a = fs.disk a) :
    Volume region { fs with disk := disk } chains := by
  have mounted := volume.mounted
  have seen : ∀ a, fs.InFat a → WriteBack.view fs.fatBuffers disk a = fs.image a := fun a inFat =>
    WriteBack.view_congr (same a (Or.inl inFat))
  have table : ∀ c, fs.HasEntry c → Fatfs.table { fs with disk := disk } c = fs.table c := by
    intro c has
    rw [Fatfs.table, Fatfs.table, Fatfs.entry, Fatfs.entry]
    exact congrArg (fun sector => fs.decode (fs.loadEntry sector (fs.entryPosition c))) (seen _ has.inFat)
  constructor
  · constructor
    · exact mounted.buffered
    · constructor
      · exact mounted.coherent.apart
      · intro b inside valid clean
        exact (mounted.coherent.clean b inside valid clean).trans (same _ (mounted.holds b inside valid)).symm
      · exact mounted.coherent.dirty
    · exact mounted.bounded
    · exact mounted.holds
    · exact mounted.changed
    · exact mounted.fits
    · exact mounted.info
    · exact mounted.infoOutside
  · exact volume.fits
  · intro c low has notUsable
    rw [table c has]
    exact volume.taken c low has notUsable
  · exact volume.allocation.congr fun c usable => table c (volume.fits.entry c usable)

/-- Each block of the buffer is in its sector. -/
theorem writeBlocks_eq {count start : Nat} (fits : start + count ≤ 2 ^ 32) (buffer : Nat → UInt8)
    (disk : Nat → Sector) (a : Nat) :
    writeBlocks count start buffer disk a =
      if start ≤ a ∧ a < start + count then fun i => buffer (FAT_SECTOR_SIZE * (a - start) + i) else disk a := by
  induction count generalizing start buffer disk with
  | zero => rw [writeBlocks, if_neg (by omega)]
  | succ count inductionHypothesis =>
    rw [writeBlocks]
    cases count with
    | zero =>
      rw [writeBlocks]
      by_cases here : a = start
      · subst here
        rw [Function.update_self, if_pos (by omega), Nat.sub_self, Nat.mul_zero]
        simp only [Nat.zero_add]
      · rw [Function.update_of_ne here, if_neg (by omega)]
    | succ count =>
      rw [add32, Nat.mod_eq_of_lt (by omega), inductionHypothesis (by omega)]
      by_cases later : start + 1 ≤ a ∧ a < start + 1 + (count + 1)
      · rw [if_pos later, if_pos (by omega)]
        funext i
        congr 1
        have shift : a - start = a - (start + 1) + 1 := by omega
        rw [shift, Nat.mul_add]
        omega
      · rw [if_neg later]
        by_cases here : a = start
        · subst here
          rw [Function.update_self, if_pos (by omega), Nat.sub_self, Nat.mul_zero]
          simp only [Nat.zero_add]
        · rw [Function.update_of_ne here, if_neg (by omega)]

namespace Handle

variable {h h' h₁ : Handle} {chains front back : List (List Nat)} {count : Nat} {buf : Nat → UInt8}

/-- Sectors of a file are stored from one on, in a chain that may be longer, and no other data is. -/
structure Wrote (region : Region) (h h' : Handle) (front : List (List Nat)) (cells' : List Nat)
    (back : List (List Nat)) (k count : Nat) (buf : Nat → UInt8) : Prop where
  geometry : h'.fs.toGeometry = h.fs.toGeometry
  volume : Volume region h'.fs (front ++ cells' :: back)
  found : h.Found h' cells'
  stored : ∀ j < count, h'.fs.disk (h.fs.fileLba cells' (k + j)) = fun i => buf (FAT_SECTOR_SIZE * j + i)
  outside : ∀ a, ¬ h.fs.InFat a → ¬ h.fs.IsInfo a → (∀ j < count, a ≠ h.fs.fileLba cells' (k + j)) →
    h'.fs.disk a = h.fs.disk a

/-- Once the cluster is found the blocks go into its sectors. -/
theorem writeSectors_of_cluster (onVolume : region.OnVolume h.fs.toGeometry) (small : count < 2 ^ 31)
    (find : h.writeCluster (k / h.fs.sectorsPerCluster) count = (some c, h₁))
    (rewritten : Rewritten region h.fs h₁.fs (front ++ cells' :: back)) (found : h.Found h₁ cells')
    (at_ : cells'[k / h.fs.sectorsPerCluster]? = some c) :
    ∃ h', h.writeSectors k buf count = (moved h.fs.toGeometry k count, h') ∧
      Wrote region h h' front cells' back k (moved h.fs.toGeometry k count) buf := by
  have inside : cells' ∈ front ++ cells' :: back := by simp
  have volume := rewritten.volume
  have among := List.mem_of_getElem? at_
  have usable := volume.usable_of_mem inside among
  have lba := lba_of_sector onVolume usable (volume.fits.low _ usable) at_
  have has : h.fs.HasSector cells' k := (List.getElem?_eq_some_iff.mp at_).1
  -- all the blocks fit below the last address
  have room : ∀ j < moved h.fs.toGeometry k count, h.fs.fileLba cells' k + j < 2 ^ 32 := fun j before =>
    lba_small onVolume (fun c => volume.usable_of_mem inside) has before
  have fits : h.fs.fileLba cells' k + moved h.fs.toGeometry k count ≤ 2 ^ 32 := by
    cases any : moved h.fs.toGeometry k count with
    | zero =>
      have bound := onVolume.data c usable
      have low := Nat.mod_lt k onVolume.cluster.1
      rw [Geometry.fileLba, List.getD_eq_getElem?_getD, at_, Option.getD_some]
      omega
    | succ last =>
      have bound := room last (by omega)
      omega
  have place : ∀ j < moved h.fs.toGeometry k count, h.fs.fileLba cells' (k + j) = h.fs.fileLba cells' k + j :=
    fun j before => (within_cluster cells' onVolume before).2
  refine ⟨{ h₁ with fs := { h₁.fs with
    disk := writeBlocks (moved h.fs.toGeometry k count) (h.fs.fileLba cells' k) buf h₁.fs.disk } }, ?_, ?_⟩
  · simp only [writeSectors, find, limitToCluster_eq onVolume small, rewritten.geometry, lba, Fatfs.sdWritesector,
      one_ne_zero, ne_eq, not_false_eq_true, if_true]
  · constructor
    · exact rewritten.geometry
    · apply volume.of_disk
      intro a near
      rw [writeBlocks_eq fits, if_neg]
      intro within
      -- the buffers of the table lie before the data
      have table := onVolume.table
      have low : h.fs.dataLba ≤ h.fs.fileLba cells' k := by
        simp only [Geometry.fileLba]
        omega
      rw [rewritten.geometry] at near
      cases near with
      | inl inFat =>
        have high := inFat.2
        omega
      | inr isInfo =>
        have info := onVolume.info isInfo.1
        have here := isInfo.2
        omega
    · exact ⟨found.file, found.along⟩
    · intro j before
      rw [place j before]
      change writeBlocks _ _ buf h₁.fs.disk _ = _
      rw [writeBlocks_eq fits, if_pos ⟨by omega, by omega⟩, Nat.add_sub_cancel_left]
    · intro a outside notInfo other
      change writeBlocks _ _ buf h₁.fs.disk _ = _
      rw [writeBlocks_eq fits, if_neg, rewritten.outside a outside notInfo]
      intro within
      have at_ := place (a - h.fs.fileLba cells' k) (by omega)
      exact other (a - h.fs.fileLba cells' k) (by omega) (by omega)

theorem writeSectors_inside (buf : Nat → UInt8) (volume : Volume region h.fs (front ++ cells :: back))
    (onVolume : region.OnVolume h.fs.toGeometry) (along : h.file.Along cells) (has : h.fs.HasSector cells k)
    (small : count < 2 ^ 31) :
    ∃ h', h.writeSectors k buf count = (moved h.fs.toGeometry k count, h') ∧
      Wrote region h h' front cells back k (moved h.fs.toGeometry k count) buf := by
  obtain ⟨h₁, find, keeps, found⟩ := writeCluster_inside volume (by simp) along has count
  exact writeSectors_of_cluster onVolume small find (volume.keeps keeps) found (List.getElem?_eq_getElem has)

/-- A sector behind the last cluster is written into new ones. -/
theorem writeSectors_end (buf : Nat → UInt8) (volume : Volume region h.fs (front ++ cells :: back))
    (onVolume : region.OnVolume h.fs.toGeometry) (along : h.file.Along cells)
    (ends : k / h.fs.sectorsPerCluster = cells.length) (some_ : 0 < count) (small : count < 2 ^ 31)
    (grows : region.Grows front back ((count + h.fs.sectorsPerCluster - 1) / h.fs.sectorsPerCluster) cells cells')
    (longer : cells.length < cells'.length) :
    ∃ h', h.writeSectors k buf count = (moved h.fs.toGeometry k count, h') ∧
      Wrote region h h' front cells' back k (moved h.fs.toGeometry k count) buf := by
  obtain ⟨h₁, find, rewritten, found⟩ := writeCluster_end volume onVolume along some_ small grows longer
  have at_ : cells'[k / h.fs.sectorsPerCluster]? = some cells'[cells.length] := by
    rw [ends]
    exact List.getElem?_eq_getElem longer
  exact writeSectors_of_cluster onVolume small (by rw [ends]; exact find) rewritten found at_

end Handle
end XinuStm32
