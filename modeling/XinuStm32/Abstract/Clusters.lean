import XinuStm32.Drivers.FatTable

/-!
# Clusters that are handed out

What the file allocation table is for. The clusters of a volume that may be used are either free or in one chain. A
request creates a chain, makes one longer, releases one or follows a link; what it takes is the first free cluster from
the root directory on.
-/

namespace XinuStm32

/-- The clusters that may be handed out, and where the search for them starts. -/
structure Region where
  root : Nat
  usable : Nat → Prop
  clusterSize : Nat

/-- What is asked of the table, with the values that the functions are called with. -/
inductive ClusterRequest where
  | follow (cluster : Nat)
  | create (size : Nat)
  | extend (lastCluster clusters : Nat)
  | append (startCluster : Nat)
  | release (startCluster : Nat)
  | purge
  | remount

/-- A cluster, or what a function returns and the cluster behind its pointer. -/
inductive ClusterAnswer where
  | cluster (next : Nat)
  | status (result cluster : Nat)
deriving DecidableEq

namespace Region

variable {region : Region} {chains front back : List (List Nat)} {cells cells' : List Nat} {new count : Nat}

/-- The first cluster from the root on that no chain has. -/
structure IsFirst (region : Region) (chains : List (List Nat)) (new : Nat) : Prop where
  usable : region.usable new
  low : region.root ≤ new
  fresh : new ∉ chains.flatten
  used : ∀ c, region.root ≤ c → c < new → region.usable c → c ∈ chains.flatten

/-- No cluster from the root on can be handed out. -/
def IsFull (region : Region) (chains : List (List Nat)) : Prop := ∀ new, ¬ region.IsFirst chains new

/-- A chain among others gets the first free cluster again and again. -/
inductive Grows (region : Region) (front back : List (List Nat)) : Nat → List Nat → List Nat → Prop where
  | done (cells : List Nat) : Grows region front back 0 cells cells
  | more {cells cells' : List Nat} {new count : Nat} (first : region.IsFirst (front ++ cells :: back) new)
      (grows : Grows region front back count (cells ++ [new]) cells') :
      Grows region front back (count + 1) cells cells'

/-- A chain gets all the clusters it asks for, or all that are left. -/
theorem grows_or_full (region : Region) (front back : List (List Nat)) (cells : List Nat) (clusters : Nat) :
    (∃ cells', Grows region front back clusters cells cells') ∨
      ∃ count < clusters, ∃ cells', Grows region front back count cells cells' ∧
        region.IsFull (front ++ cells' :: back) := by
  induction clusters generalizing cells with
  | zero => exact .inl ⟨cells, .done cells⟩
  | succ clusters inductionHypothesis =>
    by_cases full : region.IsFull (front ++ cells :: back)
    · exact .inr ⟨0, Nat.succ_pos clusters, cells, .done cells, full⟩
    · obtain ⟨new, first⟩ := not_forall_not.mp full
      cases inductionHypothesis (cells ++ [new]) with
      | inl all =>
        obtain ⟨cells', grows⟩ := all
        exact .inl ⟨cells', .more first grows⟩
      | inr short =>
        obtain ⟨count, less, cells', grows, full⟩ := short
        exact .inr ⟨count + 1, Nat.succ_lt_succ less, cells', .more first grows, full⟩

theorem Grows.isPrefix (grows : region.Grows front back count cells cells') : cells <+: cells' := by
  induction grows with
  | done cells => exact List.prefix_refl cells
  | more _ _ inductionHypothesis => exact (List.prefix_append _ _).trans inductionHypothesis

/-- The clusters that may be handed out to chains. -/
def free (region : Region) (chains : List (List Nat)) : Set Nat :=
  {c | region.usable c ∧ region.root ≤ c ∧ c ∉ chains.flatten}

/-- The first of them. -/
theorem exists_first (some_ : (region.free chains).Nonempty) : ∃ new, region.IsFirst chains new := by
  obtain ⟨usable, low, fresh⟩ := Nat.sInf_mem some_
  refine ⟨sInf (region.free chains), usable, low, fresh, ?_⟩
  intro c low before isUsable
  by_contra absent
  exact Nat.notMem_of_lt_sInf before ⟨isUsable, low, absent⟩

theorem free_extend (front back : List (List Nat)) (cells : List Nat) (new : Nat) :
    region.free (front ++ (cells ++ [new]) :: back) = region.free (front ++ cells :: back) \ {new} := by
  ext c
  simp only [free, Set.mem_ofPred_eq, Set.mem_sdiff, Set.mem_singleton_iff, List.flatten_append, List.flatten_cons,
    List.mem_append, List.mem_singleton]
  tauto

/-- A chain can get as many clusters as are free, and leaves the others free. -/
theorem exists_grows (finite : (region.free (front ++ cells :: back)).Finite)
    (room : count ≤ (region.free (front ++ cells :: back)).ncard) :
    ∃ cells', Grows region front back count cells cells' ∧ cells'.length = cells.length + count ∧
      (region.free (front ++ cells' :: back)).ncard + count = (region.free (front ++ cells :: back)).ncard := by
  induction count generalizing cells with
  | zero => exact ⟨cells, .done cells, rfl, rfl⟩
  | succ count inductionHypothesis =>
    have some_ : (region.free (front ++ cells :: back)).Nonempty := by
      apply (Set.ncard_pos finite).mp
      omega
    obtain ⟨new, first⟩ := exists_first some_
    have member : new ∈ region.free (front ++ cells :: back) := ⟨first.usable, first.low, first.fresh⟩
    have left := Set.ncard_sdiff_singleton_add_one member finite
    rw [← free_extend] at left
    have finite' : (region.free (front ++ (cells ++ [new]) :: back)).Finite := by
      rw [free_extend]
      exact finite.sdiff
    obtain ⟨cells', grows, length, counted⟩ := inductionHypothesis finite' (by omega)
    refine ⟨cells', .more first grows, ?_, by omega⟩
    rw [length, List.length_append, List.length_singleton]
    omega

/-- A request, what is answered and the chains behind it. -/
inductive Step (region : Region) :
    ClusterRequest → List (List Nat) → ClusterAnswer → List (List Nat) → Prop where
  | follow {chains : List (List Nat)} {cells : List Nat} {i : Nat} (inside : cells ∈ chains) (at_ : i < cells.length) :
      Step region (.follow cells[i]) chains (.cluster (cells.getD (i + 1) FAT32_LAST_CLUSTER)) chains
  | create {chains : List (List Nat)} {size new : Nat} (positive : 0 < size) (one : size ≤ region.clusterSize)
      (first : region.IsFirst chains new) :
      Step region (.create size) chains (.status 1 new) (chains ++ [[new]])
  /-- A chain of several clusters, whose first is not told. -/
  | createMany {chains : List (List Nat)} {cells : List Nat} {size new : Nat} (more : region.clusterSize < size)
      (first : region.IsFirst chains new)
      (grows : Grows region chains [] ((size + region.clusterSize - 1) / region.clusterSize - 1) [new] cells) :
      Step region (.create size) chains (.status 1 0) (chains ++ [cells])
  /-- Nothing is asked for. -/
  | createNone {chains : List (List Nat)} : Step region (.create 0) chains (.status 0 0) chains
  | createFull {chains : List (List Nat)} {size : Nat} (full : region.IsFull chains) :
      Step region (.create size) chains (.status 0 0) chains
  /-- The clusters that there were stay in a chain that is not told. -/
  | createShort {chains : List (List Nat)} {cells : List Nat} {size new count : Nat}
      (short : count < (size + region.clusterSize - 1) / region.clusterSize - 1) (first : region.IsFirst chains new)
      (grows : Grows region chains [] count [new] cells) (full : region.IsFull (chains ++ [cells])) :
      Step region (.create size) chains (.status 0 0) (chains ++ [cells])
  /-- The first of the new clusters is told. -/
  | extend {front back : List (List Nat)} {cells cells' : List Nat} {count : Nat} (nonempty : cells ≠ [])
      (grows : Grows region front back count cells cells') :
      Step region (.extend (cells.getLast nonempty) count) (front ++ cells :: back)
        (.status 1 (cells'.getD cells.length (cells.getLast nonempty))) (front ++ cells' :: back)
  /-- The chain keeps the clusters that there were. -/
  | extendShort {front back : List (List Nat)} {cells cells' : List Nat} {count clusters : Nat} (nonempty : cells ≠ [])
      (short : count < clusters) (grows : Grows region front back count cells cells')
      (full : region.IsFull (front ++ cells' :: back)) :
      Step region (.extend (cells.getLast nonempty) clusters) (front ++ cells :: back)
        (.status 0 (cells'.getD cells.length (cells.getLast nonempty))) (front ++ cells' :: back)
  | append {front back : List (List Nat)} {cells : List Nat} {new : Nat} (nonempty : cells ≠ [])
      (first : region.IsFirst (front ++ cells :: back) new) :
      Step region (.append (cells.head nonempty)) (front ++ cells :: back) (.status 1 new)
        (front ++ (cells ++ [new]) :: back)
  | appendFull {front back : List (List Nat)} {cells : List Nat} (nonempty : cells ≠ [])
      (full : region.IsFull (front ++ cells :: back)) :
      Step region (.append (cells.head nonempty)) (front ++ cells :: back) (.status 0 0) (front ++ cells :: back)
  | release {front back : List (List Nat)} {cells : List Nat} (nonempty : cells ≠ []) :
      Step region (.release (cells.head nonempty)) (front ++ cells :: back) (.status 1 0) (front ++ back)
  | purge {chains : List (List Nat)} : Step region .purge chains (.status 1 0) chains
  | remount {chains : List (List Nat)} : Step region .remount chains (.status 1 0) chains

/-- The request names a cluster of a chain, the last or the first of one where the function is for that. -/
def Legal (chains : List (List Nat)) : ClusterRequest → Prop
  | .follow cluster => cluster ∈ chains.flatten
  | .extend lastCluster _ => ∃ cells ∈ chains, ∃ nonempty, cells.getLast nonempty = lastCluster
  | .append startCluster | .release startCluster => ∃ cells ∈ chains, ∃ nonempty, cells.head nonempty = startCluster
  | .create _ | .purge | .remount => True

theorem exists_create (region : Region) (positive : 0 < region.clusterSize) (chains : List (List Nat)) (size : Nat) :
    ∃ answer chains', region.Step (.create size) chains answer chains' := by
  cases size.eq_zero_or_pos with
  | inl none_ => exact none_ ▸ ⟨_, _, .createNone⟩
  | inr some_ =>
    by_cases full : region.IsFull chains
    · exact ⟨_, _, .createFull full⟩
    · obtain ⟨new, first⟩ := not_forall_not.mp full
      by_cases one : size ≤ region.clusterSize
      · exact ⟨_, _, .create some_ one first⟩
      · cases grows_or_full region chains [] [new] ((size + region.clusterSize - 1) / region.clusterSize - 1) with
        | inl all =>
          obtain ⟨cells, grows⟩ := all
          exact ⟨_, _, .createMany (Nat.lt_of_not_le one) first grows⟩
        | inr short =>
          obtain ⟨count, less, cells, grows, full⟩ := short
          exact ⟨_, _, .createShort less first grows full⟩

/-- Every legal request has its step, also when nothing is left. -/
theorem exists_step {request : ClusterRequest} (positive : 0 < region.clusterSize) (legal : Legal chains request) :
    ∃ answer chains', region.Step request chains answer chains' := by
  cases request with
  | follow cluster =>
    obtain ⟨cells, inside, among⟩ := List.mem_flatten.mp legal
    obtain ⟨i, at_, rfl⟩ := List.mem_iff_getElem.mp among
    exact ⟨_, _, .follow inside at_⟩
  | create size => exact exists_create region positive chains size
  | extend lastCluster clusters =>
    obtain ⟨cells, inside, nonempty, rfl⟩ := legal
    obtain ⟨front, back, rfl⟩ := List.append_of_mem inside
    cases grows_or_full region front back cells clusters with
    | inl all =>
      obtain ⟨cells', grows⟩ := all
      exact ⟨_, _, .extend nonempty grows⟩
    | inr short =>
      obtain ⟨count, less, cells', grows, full⟩ := short
      exact ⟨_, _, .extendShort nonempty less grows full⟩
  | append startCluster =>
    obtain ⟨cells, inside, nonempty, rfl⟩ := legal
    obtain ⟨front, back, rfl⟩ := List.append_of_mem inside
    by_cases full : region.IsFull (front ++ cells :: back)
    · exact ⟨_, _, .appendFull nonempty full⟩
    · obtain ⟨new, first⟩ := not_forall_not.mp full
      exact ⟨_, _, .append nonempty first⟩
  | release startCluster =>
    obtain ⟨cells, inside, nonempty, rfl⟩ := legal
    obtain ⟨front, back, rfl⟩ := List.append_of_mem inside
    exact ⟨_, _, .release nonempty⟩
  | purge => exact ⟨_, _, .purge⟩
  | remount => exact ⟨_, _, .remount⟩

/-- Requests of which each is legal whatever the ones before it made of the chains. -/
def AllLegal (region : Region) : List ClusterRequest → List (List Nat) → Prop
  | [], _ => True
  | request :: requests, chains => Legal chains request ∧
      ∀ answer chains', region.Step request chains answer chains' → AllLegal region requests chains'

/-- Requests one after another. -/
inductive Run (region : Region) :
    List ClusterRequest → List (List Nat) → List ClusterAnswer → List (List Nat) → Prop where
  | nil (chains : List (List Nat)) : Run region [] chains [] chains
  | cons {request : ClusterRequest} {requests : List ClusterRequest} {answer : ClusterAnswer}
      {answers : List ClusterAnswer} {chains between chains' : List (List Nat)}
      (step : region.Step request chains answer between) (run : Run region requests between answers chains') :
      Run region (request :: requests) chains (answer :: answers) chains'

end Region

namespace Fatfs

/-- More rounds than a chain of an intact table takes. -/
def chainRounds : Nat := 2 ^ 28

/-- The calls that answer a request. A cluster is appended the way a directory gets longer; to mount a volume again is
what `fatfs_init` does to the buffers, once all is written back. -/
def perform (fs : Fatfs) : ClusterRequest → Option (ClusterAnswer × Fatfs)
  | .follow cluster =>
    let (next, fs) := fs.fatfsFindNextCluster cluster
    some (.cluster next, fs)
  | .create size =>
    let ((result, startCluster), fs) := fs.fatfsAllocateFreeSpace true 0 size
    some (.status result startCluster, fs)
  | .extend lastCluster clusters =>
    let ((result, startCluster), fs) := fs.fatfsAddFreeSpace lastCluster clusters
    some (.status result startCluster, fs)
  | .append startCluster =>
    match fs.fatfsFindBlankCluster fs.rootdirFirstCluster with
    | (none, fs) => some (.status 0 0, fs)
    | (some newCluster, fs) =>
      (fs.fatfsFatAddClusterToChain chainRounds startCluster newCluster).map fun (result, fs) =>
        (.status result newCluster, fs)
  | .release startCluster => (fs.fatfsFreeClusterChain chainRounds startCluster).map fun fs => (.status 1 0, fs)
  | .purge =>
    let (result, fs) := fs.fatfsFatPurge
    some (.status result 0, fs)
  | .remount =>
    let (result, fs) := fs.fatfsFatPurge
    let fs := fs.fatfsFatInit
    some (.status result 0, { fs with
      nextFreeCluster := 0
      currentsector := { fs.currentsector with address := FAT32_INVALID_CLUSTER, dirty := false } })

def performAll : List ClusterRequest → Fatfs → Option (List ClusterAnswer × Fatfs)
  | [], fs => some ([], fs)
  | request :: requests, fs =>
    (fs.perform request).bind fun (answer, fs) =>
      (performAll requests fs).map fun (answers, fs) => (answer :: answers, fs)

end Fatfs

end XinuStm32
