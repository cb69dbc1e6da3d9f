import XinuStm32.Abstract.Clusters
import XinuStm32.Refinement.FatTable

/-!
# The table keeps the chains

A volume records an allocation when the entries that are seen through the buffers are its chains. Each function of the
table takes such a volume to one that records what the abstract step says, whichever sectors are in the buffers, which
of them have changed and which are on the volume.
-/

namespace XinuStm32

/-- The region lies in the table of the volume. -/
structure Region.Fits (region : Region) (g : Geometry) : Prop where
  root : region.root = g.rootdirFirstCluster
  size : region.clusterSize = g.sectorsPerCluster * FAT_SECTOR_SIZE
  positive : 0 < region.clusterSize
  low : ∀ c, region.usable c → 2 ≤ c
  high : ∀ c, region.usable c → c < g.linkBound
  entry : ∀ c, region.usable c → g.HasEntry c
  numbered : ∀ c, g.HasEntry c → c + 1 < 2 ^ 32

/-- The table that is seen through the buffers holds the chains. From the root on, no other entry looks free. -/
structure Volume (region : Region) (fs : Fatfs) (chains : List (List Nat)) : Prop where
  mounted : fs.Mounted
  fits : region.Fits fs.toGeometry
  taken : ∀ c, region.root ≤ c → fs.HasEntry c → ¬ region.usable c → fs.table c ≠ .free
  allocation : Chains.Allocation region.usable fs.table chains

/-- The table comes to hold other chains, and nothing outside it and the information sector is stored. -/
structure Rewritten (region : Region) (fs fs' : Fatfs) (chains : List (List Nat)) : Prop where
  geometry : fs'.toGeometry = fs.toGeometry
  outside : ∀ a, ¬ fs.InFat a → ¬ fs.IsInfo a → fs'.disk a = fs.disk a
  volume : Volume region fs' chains

theorem Rewritten.trans {region : Region} {fs fs' fs'' : Fatfs} {chains chains' : List (List Nat)}
    (first : Rewritten region fs fs' chains) (second : Rewritten region fs' fs'' chains') :
    Rewritten region fs fs'' chains' where
  geometry := second.geometry.trans first.geometry
  outside a outside notInfo :=
    (second.outside a (first.geometry ▸ outside) (first.geometry ▸ notInfo)).trans (first.outside a outside notInfo)
  volume := second.volume

theorem Geometry.linkBound_lt (g : Geometry) : g.linkBound < 2 ^ 28 := by
  cases g.type_cases with
  | inl type => simp [linkBound, type]
  | inr type => simp [linkBound, type]

namespace Volume

variable {region : Region} {fs fs' : Fatfs} {chains front back : List (List Nat)} {cells cells' : List Nat}
  {c new count : Nat} {entry' : Nat → Nat}

theorem usable_small (volume : Volume region fs chains) (usable : region.usable c) : c < 2 ^ 28 :=
  (volume.fits.high c usable).trans fs.linkBound_lt

theorem usable_of_mem (volume : Volume region fs chains) (inside : cells ∈ chains) (among : c ∈ cells) :
    region.usable c :=
  volume.allocation.within c (Chains.Allocation.mem_flatten inside among)

/-- A chain has fewer cells than there are rounds. -/
theorem length_lt (volume : Volume region fs chains) (inside : cells ∈ chains) : cells.length < 2 ^ 28 := by
  have apart := volume.allocation.apart_of_mem inside
  have bounded : cells.toFinset ⊆ Finset.range fs.linkBound := by
    intro c among
    exact Finset.mem_range.mpr (volume.fits.high c (volume.usable_of_mem inside (List.mem_toFinset.mp among)))
  have count := Finset.card_le_card bounded
  rw [List.toFinset_card_of_nodup apart, Finset.card_range] at count
  exact count.trans_lt fs.linkBound_lt

/-- Entries that are not usable stay, and the others hold the new chains. -/
theorem edits (volume : Volume region fs chains) {chains' : List (List Nat)} (edits : fs.Edits fs' entry')
    (others : ∀ c, fs.HasEntry c → ¬ region.usable c → entry' c = fs.entry c)
    (allocation : Chains.Allocation region.usable (fun c => fs.decode (entry' c)) chains') :
    Rewritten region fs fs' chains' := by
  constructor
  · exact edits.geometry
  · exact edits.outside
  constructor
  · exact edits.mounted
  · exact edits.geometry ▸ volume.fits
  · intro c low has notUsable
    rw [edits.geometry] at has
    rw [edits.table has, others c has notUsable]
    exact volume.taken c low has notUsable
  · exact allocation.congr fun c usable => edits.table (volume.fits.entry c usable)

theorem same (volume : Volume region fs chains) (edits : fs.Edits fs' fs.entry) : Rewritten region fs fs' chains :=
  volume.edits edits (fun _ _ _ => rfl) volume.allocation

/-! ## Following -/

theorem find_next (volume : Volume region fs chains) (inside : cells ∈ chains) {i : Nat} (at_ : i < cells.length) :
    ∃ fs', fs.fatfsFindNextCluster cells[i] = (cells.getD (i + 1) FAT32_LAST_CLUSTER, fs') ∧ fs.Keeps fs' := by
  have usable := volume.usable_of_mem inside (List.getElem_mem at_)
  have low := volume.fits.low _ usable
  obtain ⟨fs', find, keeps⟩ :=
    Fatfs.fatfsFindNextCluster_keeps volume.mounted (volume.fits.entry _ usable) (by omega)
  have chain := volume.allocation.chain cells inside
  refine ⟨fs', ?_, keeps⟩
  rw [find]
  by_cases more : i + 1 < cells.length
  · rw [chain.link more, List.getD_eq_getElem _ _ more]
    rfl
  · have last : cells[i] = cells.getLast chain.ne_nil := by
      rw [List.getLast_eq_getElem]
      congr 1
      omega
    rw [last, chain.getLast, List.getD_eq_default _ _ (by omega)]
    rfl

/-! ## Looking for a free cluster -/

theorem find_blank (volume : Volume region fs chains) (first : region.IsFirst chains new) :
    ∃ fs', fs.fatfsFindBlankCluster fs.rootdirFirstCluster = (some new, fs') ∧ fs.Keeps fs' := by
  have small := volume.usable_small first.usable
  apply Fatfs.fatfsFindBlankCluster_found volume.mounted (volume.fits.entry new first.usable)
  · exact volume.fits.root ▸ first.low
  · omega
  · exact (volume.allocation.free_iff first.usable).mpr first.fresh
  · intro d low before
    rw [← volume.fits.root] at low
    by_cases usable : region.usable d
    · exact fun free => (volume.allocation.free_iff usable).mp free (first.used d low before usable)
    · exact volume.taken d low ((volume.fits.entry new first.usable).of_le before.le) usable

theorem full_entries (volume : Volume region fs chains) (full : region.IsFull chains) {d : Nat} (low : region.root ≤ d)
    (has : fs.HasEntry d) : fs.table d ≠ .free := by
  intro free
  by_cases usable : region.usable d
  · obtain ⟨new, first⟩ := Region.exists_first ⟨d, usable, low, (volume.allocation.free_iff usable).mp free⟩
    exact full new first
  · exact volume.taken d low has usable free

theorem find_none (volume : Volume region fs chains) (full : region.IsFull chains) :
    ∃ fs', fs.fatfsFindBlankCluster fs.rootdirFirstCluster = (none, fs') ∧ fs.Keeps fs' := by
  apply Fatfs.findBlankLoop_none _ volume.mounted volume.fits.numbered
  intro d low has
  rw [← volume.fits.root] at low
  exact volume.full_entries full low has

theorem keeps (volume : Volume region fs chains) (keeps : fs.Keeps fs') : Rewritten region fs fs' chains :=
  volume.same (keeps.edits volume.mounted)

theorem forget (volume : Volume region fs chains) : Rewritten region fs fs.forgetNextFree chains :=
  volume.same (Fatfs.forgetNextFree_edits volume.mounted)

/-! ## New cells -/

theorem decode_update (table : Nat → Chains.Entry Nat) (entry : Nat → Nat) (g : Geometry) (new value : Nat)
    (same : ∀ c, g.decode (entry c) = table c) :
    (fun c => g.decode (Function.update entry new value c)) = Function.update table new (g.decode value) := by
  funext c
  by_cases here : c = new
  · subst here
    rw [Function.update_self, Function.update_self]
  · rw [Function.update_of_ne here, Function.update_of_ne here, same]

/-- A free cluster gets the mark of a last one. -/
theorem insert (volume : Volume region fs chains) (usable : region.usable new) (fresh : new ∉ chains.flatten)
    (edits : fs.Edits fs' (Function.update fs.entry new (fs.trim FAT32_LAST_CLUSTER))) :
    Rewritten region fs fs' (chains ++ [[new]]) := by
  apply volume.edits edits
  · intro c _ notUsable
    exact Function.update_of_ne (fun here : c = new => notUsable (here ▸ usable)) _ _
  · rw [decode_update fs.table fs.entry fs.toGeometry _ _ (fun _ => rfl), Geometry.decode_last]
    exact volume.allocation.insert usable fresh

/-- A link from the last cell of a chain to a free cluster, and the mark of a last one there. -/
theorem extend (volume : Volume region fs (front ++ cells :: back)) (nonempty : cells ≠ [])
    (usable : region.usable new) (fresh : new ∉ (front ++ cells :: back).flatten)
    (edits : fs.Edits fs' (Function.update (Function.update fs.entry (cells.getLast nonempty) (fs.trim new)) new
      (fs.trim FAT32_LAST_CLUSTER))) :
    Rewritten region fs fs' (front ++ (cells ++ [new]) :: back) := by
  have last := volume.usable_of_mem (by simp) (List.getLast_mem nonempty)
  have low := volume.fits.low new usable
  apply volume.edits edits
  · intro c _ notUsable
    have notNew : c ≠ new := fun here => notUsable (here ▸ usable)
    have notLast : c ≠ cells.getLast nonempty := fun here => notUsable (here ▸ last)
    rw [Function.update_of_ne notNew, Function.update_of_ne notLast]
  · have linked : fs.decode (fs.trim new) = .link new :=
      Geometry.decode_link (by omega) (volume.fits.high new usable)
    have inner := decode_update fs.table fs.entry fs.toGeometry (cells.getLast nonempty) (fs.trim new) fun _ => rfl
    rw [decode_update _ _ fs.toGeometry _ _ fun c => congrFun inner c, Geometry.decode_last, linked]
    exact volume.allocation.extend nonempty usable fresh

/-- The two calls that put a cluster behind another. -/
theorem set_both (volume : Volume region fs chains) {last : Nat} (lastUsable : region.usable last)
    (usable : region.usable new) :
    ∃ fs₁ fs₂, fs.fatfsFatSetCluster last new = (1, fs₁) ∧
      fs₁.fatfsFatSetCluster new FAT32_LAST_CLUSTER = (1, fs₂) ∧
      fs.Edits fs₂ (Function.update (Function.update fs.entry last (fs.trim new)) new
        (fs.trim FAT32_LAST_CLUSTER)) := by
  have small := volume.usable_small usable
  obtain ⟨fs₁, link, first⟩ := Fatfs.fatfsFatSetCluster_edits new volume.mounted
    (volume.fits.entry last lastUsable) (by omega)
  obtain ⟨fs₂, mark, second⟩ := Fatfs.fatfsFatSetCluster_edits FAT32_LAST_CLUSTER first.mounted
    (first.geometry ▸ volume.fits.entry new usable) (by decide)
  have both := first.update second
  rw [first.geometry] at both
  exact ⟨fs₁, fs₂, link, mark, both⟩

/-- A round of the loop puts the first free cluster behind the chain. -/
theorem add_one (volume : Volume region fs (front ++ cells :: back)) (nonempty : cells ≠ [])
    (first : region.IsFirst (front ++ cells :: back) new) :
    ∃ put, Rewritten region fs put (front ++ (cells ++ [new]) :: back) ∧ ∀ clusters i startCluster,
      fs.addFreeSpaceLoop (clusters + 1) i (cells.getLast nonempty) startCluster =
        put.addFreeSpaceLoop clusters (i + 1) new (if i = 0 then new else startCluster) := by
  obtain ⟨fs₀, found, keeps⟩ := volume.find_blank first
  have kept := volume.keeps keeps
  have last := volume.usable_of_mem (by simp) (List.getLast_mem nonempty)
  obtain ⟨fs₁, fs₂, link, mark, both⟩ := kept.volume.set_both last first.usable
  refine ⟨fs₂, kept.trans (kept.volume.extend nonempty first.usable first.fresh both), ?_⟩
  intro clusters i startCluster
  simp only [Fatfs.addFreeSpaceLoop, found, link, mark]

/-- The first of the new cells stays where it is. -/
theorem first_told (grows : region.Grows front back count (cells ++ [new]) cells') (i startCluster : Nat) :
    (if i + 1 = 0 then cells'.getD (cells ++ [new]).length (if i = 0 then new else startCluster)
      else if i = 0 then new else startCluster) =
      if i = 0 then cells'.getD cells.length startCluster else startCluster := by
  rw [if_neg (Nat.succ_ne_zero i)]
  by_cases begins : i = 0
  · obtain ⟨rest, rfl⟩ := grows.isPrefix
    simp [begins]
  · rw [if_neg begins, if_neg begins]

/-- The loop makes the chain longer, one free cluster after another. -/
theorem add_free (grows : region.Grows front back count cells cells') (nonempty : cells ≠ []) (i startCluster : Nat)
    (volume : Volume region fs (front ++ cells :: back)) :
    ∃ fs', fs.addFreeSpaceLoop count i (cells.getLast nonempty) startCluster =
        ((1, if i = 0 then cells'.getD cells.length startCluster else startCluster), fs') ∧
      Rewritten region fs fs' (front ++ cells' :: back) := by
  induction grows generalizing fs i startCluster with
  | done cells =>
    refine ⟨fs, ?_, volume.keeps (Fatfs.Keeps.refl volume.mounted)⟩
    rw [Fatfs.addFreeSpaceLoop, List.getD_eq_default _ _ (Nat.le_refl _), ite_self]
  | @more cells cells' new count first grows inductionHypothesis =>
    obtain ⟨put, extended, linked⟩ := volume.add_one nonempty first
    obtain ⟨fs', rest, done⟩ := inductionHypothesis (by simp) (i + 1)
      (if i = 0 then new else startCluster) extended.volume
    refine ⟨fs', ?_, extended.trans done⟩
    rw [linked, ← first_told grows, ← rest, List.getLast_append_singleton]

/-- The loop ends early when no cluster is left. -/
theorem add_short (grows : region.Grows front back count cells cells') (full : region.IsFull (front ++ cells' :: back))
    {clusters : Nat} (short : count < clusters) (nonempty : cells ≠ []) (i startCluster : Nat)
    (volume : Volume region fs (front ++ cells :: back)) :
    ∃ fs', fs.addFreeSpaceLoop clusters i (cells.getLast nonempty) startCluster =
        ((0, if i = 0 then cells'.getD cells.length startCluster else startCluster), fs') ∧
      Rewritten region fs fs' (front ++ cells' :: back) := by
  induction grows generalizing fs clusters i startCluster with
  | done cells =>
    obtain ⟨clusters, rfl⟩ : ∃ fewer, clusters = fewer + 1 := ⟨clusters - 1, by omega⟩
    obtain ⟨fs', found, keeps⟩ := volume.find_none full
    refine ⟨fs', ?_, volume.keeps keeps⟩
    rw [Fatfs.addFreeSpaceLoop, found, List.getD_eq_default _ _ (Nat.le_refl _), ite_self]
  | @more cells cells' new count first grows inductionHypothesis =>
    obtain ⟨clusters, rfl⟩ : ∃ fewer, clusters = fewer + 1 := ⟨clusters - 1, by omega⟩
    obtain ⟨put, extended, linked⟩ := volume.add_one nonempty first
    obtain ⟨fs', rest, done⟩ := inductionHypothesis full (Nat.lt_of_succ_lt_succ short) (by simp) (i + 1)
      (if i = 0 then new else startCluster) extended.volume
    refine ⟨fs', ?_, extended.trans done⟩
    rw [linked, ← first_told grows, ← rest, List.getLast_append_singleton]

/-! ## Allocation -/

theorem clusterCount_eq (volume : Volume region fs chains) (size : Nat) :
    fs.clusterCount size = (size + region.clusterSize - 1) / region.clusterSize := by
  have positive := volume.fits.positive
  have split := Nat.div_add_mod size region.clusterSize
  have small := Nat.mod_lt size positive
  rw [Geometry.clusterCount, ← volume.fits.size]
  by_cases exact_ : size % region.clusterSize = 0
  · rw [if_neg (by omega)]
    have shape : size + region.clusterSize - 1 =
        region.clusterSize * (size / region.clusterSize) + (region.clusterSize - 1) := by omega
    have none_ : (region.clusterSize - 1) / region.clusterSize = 0 := Nat.div_eq_of_lt (by omega)
    rw [shape, Nat.mul_add_div positive, none_, Nat.add_zero]
  · rw [if_pos (by omega)]
    have shape : size + region.clusterSize - 1 =
        region.clusterSize * (size / region.clusterSize + 1) + (size % region.clusterSize - 1) := by
      rw [Nat.mul_add]
      omega
    have none_ : (size % region.clusterSize - 1) / region.clusterSize = 0 := Nat.div_eq_of_lt (by omega)
    rw [shape, Nat.mul_add_div positive, none_, Nat.add_zero]

theorem allocate_one (volume : Volume region fs chains) {size : Nat} (positive : 0 < size)
    (one : size ≤ region.clusterSize) (first : region.IsFirst chains new) (startCluster : Nat) :
    ∃ fs', fs.fatfsAllocateFreeSpace true startCluster size = ((1, new), fs') ∧
      Rewritten region fs fs' (chains ++ [[new]]) := by
  have forgotten := volume.forget
  obtain ⟨fs₀, found, keeps⟩ := forgotten.volume.find_blank first
  have kept := forgotten.trans (forgotten.volume.keeps keeps)
  obtain ⟨fs', mark, edits⟩ := Fatfs.fatfsFatSetCluster_edits FAT32_LAST_CLUSTER kept.volume.mounted
    (kept.volume.fits.entry new first.usable) (by decide)
  refine ⟨fs', ?_, kept.trans (kept.volume.insert first.usable first.fresh edits)⟩
  have count : fs.forgetNextFree.clusterCount size = 1 := by
    rw [forgotten.volume.clusterCount_eq]
    exact Nat.div_eq_of_lt_le (by omega) (by omega)
  have nonzero : size ≠ 0 := by omega
  simp only [Fatfs.fatfsAllocateFreeSpace, if_neg nonzero, if_true, found, count, mark]

/-- A new chain of several clusters begins with the first free one. It is found a second time, as it has not been marked
yet, and the loop goes on from there. -/
theorem allocate_begin (volume : Volume region fs chains) {size : Nat} (more : region.clusterSize < size)
    (first : region.IsFirst chains new) (startCluster : Nat) :
    ∃ begun, Rewritten region fs begun (chains ++ [[new]]) ∧ ∀ result start fs',
      begun.addFreeSpaceLoop ((size + region.clusterSize - 1) / region.clusterSize - 1) 1 new new =
        ((result, start), fs') →
      fs.fatfsAllocateFreeSpace true startCluster size = ((if result = 0 then 0 else 1, startCluster), fs') := by
  have forgotten := volume.forget
  obtain ⟨fs₀, found, keeps⟩ := forgotten.volume.find_blank first
  have looked := forgotten.trans (forgotten.volume.keeps keeps)
  have kept := looked.trans looked.volume.forget
  obtain ⟨fs₁, foundAgain, keepsAgain⟩ := kept.volume.find_blank first
  have ready := kept.trans (kept.volume.keeps keepsAgain)
  obtain ⟨fs₂, fs₃, link, mark, both⟩ := ready.volume.set_both first.usable first.usable
  rw [Function.update_idem] at both
  refine ⟨fs₃, ready.trans (ready.volume.insert first.usable first.fresh both), ?_⟩
  intro result start fs' rest
  have positive := volume.fits.positive
  have count : ∃ count, fs.forgetNextFree.clusterCount size = count + 2 ∧
      (size + region.clusterSize - 1) / region.clusterSize - 1 = count + 1 := by
    have two : 2 ≤ (size + region.clusterSize - 1) / region.clusterSize := by
      apply (Nat.le_div_iff_mul_le positive).mpr
      omega
    rw [forgotten.volume.clusterCount_eq]
    exact ⟨(size + region.clusterSize - 1) / region.clusterSize - 2, by omega, by omega⟩
  obtain ⟨count, counted, left⟩ := count
  have nonzero : size ≠ 0 := by omega
  have notOne : count + 2 ≠ 1 := by omega
  rw [left] at rest
  have again : fs₀.fatfsAddFreeSpace new (count + 2) = ((result, start), fs') := by
    rw [Fatfs.fatfsAddFreeSpace, Fatfs.addFreeSpaceLoop, foundAgain]
    simp only [link, mark]
    exact rest
  simp only [Fatfs.fatfsAllocateFreeSpace, if_neg nonzero, if_true, found, counted, if_neg notOne, again]

theorem allocate_many (volume : Volume region fs chains) {size : Nat} (more : region.clusterSize < size)
    (first : region.IsFirst chains new)
    (grows : region.Grows chains [] ((size + region.clusterSize - 1) / region.clusterSize - 1) [new] cells)
    (startCluster : Nat) :
    ∃ fs', fs.fatfsAllocateFreeSpace true startCluster size = ((1, startCluster), fs') ∧
      Rewritten region fs fs' (chains ++ [cells]) := by
  obtain ⟨begun, inserted, rest⟩ := volume.allocate_begin more first startCluster
  obtain ⟨fs', added, done⟩ := add_free grows (by simp) 1 new inserted.volume
  exact ⟨fs', rest _ _ _ added, inserted.trans done⟩

theorem allocate_short (volume : Volume region fs chains) {size : Nat}
    (short : count < (size + region.clusterSize - 1) / region.clusterSize - 1) (first : region.IsFirst chains new)
    (grows : region.Grows chains [] count [new] cells) (full : region.IsFull (chains ++ [cells])) (startCluster : Nat) :
    ∃ fs', fs.fatfsAllocateFreeSpace true startCluster size = ((0, startCluster), fs') ∧
      Rewritten region fs fs' (chains ++ [cells]) := by
  have more : region.clusterSize < size := by
    have positive := volume.fits.positive
    have two : 2 ≤ (size + region.clusterSize - 1) / region.clusterSize := by omega
    have enough := (Nat.le_div_iff_mul_le positive).mp two
    omega
  obtain ⟨begun, inserted, rest⟩ := volume.allocate_begin more first startCluster
  obtain ⟨fs', added, done⟩ := add_short grows full short (by simp) 1 new inserted.volume
  exact ⟨fs', rest _ _ _ added, inserted.trans done⟩

/-- Without a free cluster the pointer keeps its value. -/
theorem allocate_full (volume : Volume region fs chains) (full : region.IsFull chains) (size startCluster : Nat) :
    ∃ fs', fs.fatfsAllocateFreeSpace true startCluster size = ((0, startCluster), fs') ∧
      Rewritten region fs fs' chains := by
  by_cases none_ : size = 0
  · exact ⟨fs, by rw [Fatfs.fatfsAllocateFreeSpace, if_pos none_], volume.keeps (.refl volume.mounted)⟩
  · have forgotten := volume.forget
    obtain ⟨fs', found, keeps⟩ := forgotten.volume.find_none full
    refine ⟨fs', ?_, forgotten.trans (forgotten.volume.keeps keeps)⟩
    simp only [Fatfs.fatfsAllocateFreeSpace, if_neg none_, if_true, found]

theorem add_space (volume : Volume region fs (front ++ cells :: back)) (nonempty : cells ≠ [])
    (grows : region.Grows front back count cells cells') :
    ∃ fs', fs.fatfsAddFreeSpace (cells.getLast nonempty) count =
        ((1, cells'.getD cells.length (cells.getLast nonempty)), fs') ∧
      Rewritten region fs fs' (front ++ cells' :: back) := by
  obtain ⟨fs', added, done⟩ := add_free grows nonempty 0 (cells.getLast nonempty)
    volume.forget.volume
  exact ⟨fs', by rw [Fatfs.fatfsAddFreeSpace, added, if_pos rfl], volume.forget.trans done⟩

theorem add_some (volume : Volume region fs (front ++ cells :: back)) (nonempty : cells ≠ []) {clusters : Nat}
    (short : count < clusters) (grows : region.Grows front back count cells cells')
    (full : region.IsFull (front ++ cells' :: back)) :
    ∃ fs', fs.fatfsAddFreeSpace (cells.getLast nonempty) clusters =
        ((0, cells'.getD cells.length (cells.getLast nonempty)), fs') ∧
      Rewritten region fs fs' (front ++ cells' :: back) := by
  obtain ⟨fs', added, done⟩ := add_short grows full short nonempty 0 (cells.getLast nonempty)
    volume.forget.volume
  exact ⟨fs', by rw [Fatfs.fatfsAddFreeSpace, added, if_pos rfl], volume.forget.trans done⟩

/-! ## Chains as a whole -/

/-- The loop goes along a chain to its end. -/
theorem last_of_chain (rounds last : Nat) (mounted : fs.Mounted) (nonempty : cells ≠ [])
    (chain : Chains.Chain fs.table cells)
    (placed : ∀ c ∈ cells, c ≠ 0 ∧ c ≠ FAT32_LAST_CLUSTER ∧ fs.HasEntry c) (enough : cells.length < rounds) :
    ∃ fs', fs.lastOfChain rounds last (cells.head nonempty) = some (some (cells.getLast nonempty), fs') ∧
      fs.Keeps fs' := by
  induction cells generalizing fs rounds last with
  | nil => exact absurd rfl nonempty
  | cons c cells inductionHypothesis =>
    obtain ⟨nonzero, notLast, has⟩ := placed c (by simp)
    obtain ⟨fs₁, find, keeps⟩ := Fatfs.fatfsFindNextCluster_keeps mounted has nonzero
    obtain ⟨rounds, rfl⟩ : ∃ more, rounds = more + 1 := ⟨rounds - 1, by omega⟩
    cases cells with
    | nil =>
      have marked : fs.table c = .last := chain
      obtain ⟨rounds, rfl⟩ : ∃ more, rounds = more + 1 := ⟨rounds - 1, by simp at enough; omega⟩
      rw [marked] at find
      refine ⟨fs₁, ?_, keeps⟩
      simp [Fatfs.lastOfChain, find, notLast, Fatfs.nextOf]
    | cons next cells =>
      have nextNonzero := (placed next (by simp)).1
      rw [chain.1] at find
      obtain ⟨fs', rest, later⟩ := inductionHypothesis rounds c keeps.mounted (by simp)
        (chain.2.congr fun d among =>
          keeps.table mounted (placed d (List.mem_cons_of_mem _ among)).2.2)
        (fun d among => by
          obtain ⟨nonzero, notLast, has⟩ := placed d (List.mem_cons_of_mem _ among)
          exact ⟨nonzero, notLast, keeps.geometry ▸ has⟩)
        (by simp only [List.length_cons] at enough ⊢; omega)
      refine ⟨fs', ?_, keeps.trans later⟩
      simp only [List.head_cons, Fatfs.lastOfChain, ne_eq, notLast, not_false_eq_true, if_true, find, Fatfs.nextOf,
        nextNonzero, if_false]
      exact rest

/-- The loop goes along a chain and clears each entry behind it. -/
theorem free_chain (rounds : Nat) (mounted : fs.Mounted) (nonempty : cells ≠ [])
    (chain : Chains.Chain fs.table cells) (apart : cells.Nodup)
    (placed : ∀ c ∈ cells, c ≠ 0 ∧ c ≠ FAT32_LAST_CLUSTER ∧ fs.HasEntry c) (enough : cells.length < rounds) :
    ∃ fs', fs.fatfsFreeClusterChain rounds (cells.head nonempty) = some fs' ∧
      fs.Edits fs' fun c => if c ∈ cells then fs.trim 0 else fs.entry c := by
  induction cells generalizing fs rounds with
  | nil => exact absurd rfl nonempty
  | cons c cells inductionHypothesis =>
    obtain ⟨nonzero, notLast, has⟩ := placed c (by simp)
    obtain ⟨fs₁, find, keeps⟩ := Fatfs.fatfsFindNextCluster_keeps mounted has nonzero
    obtain ⟨fs₂, clear, cleared⟩ := Fatfs.fatfsFatSetCluster_edits 0 keeps.mounted
      (keeps.geometry ▸ has) (by decide)
    have edits := (keeps.edits mounted).update cleared
    rw [keeps.geometry] at edits
    obtain ⟨rounds, rfl⟩ : ∃ more, rounds = more + 1 := ⟨rounds - 1, by omega⟩
    have step : fs.fatfsFreeClusterChain (rounds + 1) c =
        fs₂.fatfsFreeClusterChain rounds (Fatfs.nextOf (fs.table c)) := by
      simp only [Fatfs.fatfsFreeClusterChain, ne_eq, notLast, nonzero, not_false_eq_true, and_self, if_true, find,
        clear]
    rw [List.head_cons, step]
    cases cells with
    | nil =>
      have marked : fs.table c = .last := chain
      obtain ⟨rounds, rfl⟩ : ∃ more, rounds = more + 1 := ⟨rounds - 1, by simp at enough; omega⟩
      refine ⟨fs₂, by rw [marked]; rfl, edits.congr fun d _ => ?_⟩
      by_cases here : d = c
      · simp [here]
      · simp [here]
    | cons next cells =>
      obtain ⟨fresh, apart⟩ := List.nodup_cons.mp apart
      obtain ⟨fs', rest, later⟩ := inductionHypothesis rounds edits.mounted (by simp)
        (chain.2.congr fun d among => by
          have other : d ≠ c := fun here => fresh (here ▸ among)
          rw [edits.table (placed d (List.mem_cons_of_mem _ among)).2.2, Function.update_of_ne other]
          rfl)
        apart
        (fun d among => by
          obtain ⟨nonzero, notLast, has⟩ := placed d (List.mem_cons_of_mem _ among)
          exact ⟨nonzero, notLast, edits.geometry ▸ has⟩)
        (by simp only [List.length_cons] at enough ⊢; omega)
      rw [chain.1]
      refine ⟨fs', rest, (edits.trans later).congr fun d hasOther => ?_⟩
      rw [edits.entry d hasOther, edits.geometry]
      by_cases here : d = c
      · simp [here]
      · simp [here]

theorem placed (volume : Volume region fs chains) (inside : cells ∈ chains) :
    ∀ c ∈ cells, c ≠ 0 ∧ c ≠ FAT32_LAST_CLUSTER ∧ fs.HasEntry c := by
  intro c among
  have usable := volume.usable_of_mem inside among
  have low := volume.fits.low c usable
  have small := volume.usable_small usable
  exact ⟨by omega, by simp only [FAT32_LAST_CLUSTER]; omega, volume.fits.entry c usable⟩

/-- The chain is released as a whole, and no other. -/
theorem release (volume : Volume region fs (front ++ cells :: back)) (nonempty : cells ≠ []) :
    ∃ fs', fs.fatfsFreeClusterChain Fatfs.chainRounds (cells.head nonempty) = some fs' ∧
      Rewritten region fs fs' (front ++ back) := by
  have inside : cells ∈ front ++ cells :: back := by simp
  obtain ⟨fs', freed, edits⟩ := free_chain Fatfs.chainRounds volume.mounted nonempty
    (volume.allocation.chain cells inside) (volume.allocation.apart_of_mem inside) (volume.placed inside)
    (volume.length_lt inside)
  refine ⟨fs', freed, volume.edits edits ?_ ?_⟩
  · intro c _ notUsable
    exact if_neg fun among => notUsable (volume.usable_of_mem inside among)
  · apply volume.allocation.remove.congr
    intro c _
    rw [Chains.release]
    split
    · exact Geometry.decode_zero _
    · rfl

/-- A cluster is put behind the last one of a chain that is given by its first. -/
theorem add_to_chain (volume : Volume region fs (front ++ cells :: back)) (nonempty : cells ≠ [])
    (usable : region.usable new) (fresh : new ∉ (front ++ cells :: back).flatten) :
    ∃ fs', fs.fatfsFatAddClusterToChain Fatfs.chainRounds (cells.head nonempty) new = some (1, fs') ∧
      Rewritten region fs fs' (front ++ (cells ++ [new]) :: back) := by
  have inside : cells ∈ front ++ cells :: back := by simp
  obtain ⟨fs₀, last, keeps⟩ := last_of_chain Fatfs.chainRounds FAT32_LAST_CLUSTER
    volume.mounted nonempty (volume.allocation.chain cells inside) (volume.placed inside) (volume.length_lt inside)
  have kept := volume.keeps keeps
  obtain ⟨fs₁, fs₂, link, mark, both⟩ :=
    kept.volume.set_both (kept.volume.usable_of_mem inside (List.getLast_mem nonempty)) usable
  refine ⟨fs₂, ?_, kept.trans (kept.volume.extend nonempty usable fresh both)⟩
  have notLast := (volume.placed inside _ (List.head_mem nonempty)).2.1
  rw [Fatfs.fatfsFatAddClusterToChain, if_neg notLast, last]
  simp only [Option.map_some, link, mark]

/-! ## Writing back and mounting again -/

/-- All buffers are given up once the volume has what is seen. -/
theorem init (volume : Volume region fs chains) (settled : ∀ a, Fatfs.Valid a → fs.disk a = fs.image a)
    (nextFreeCluster : Nat) (currentsector : FatBuffer) :
    Rewritten region fs { fs.fatfsFatInit with nextFreeCluster := nextFreeCluster, currentsector := currentsector }
      chains := by
  have seen : ∀ a, Fatfs.Valid a → Fatfs.image { fs.fatfsFatInit with
      nextFreeCluster := nextFreeCluster, currentsector := currentsector } a = fs.image a := by
    intro a valid
    rw [← settled a valid]
    apply WriteBack.view_absent
    intro b inside here
    rw [List.eq_of_mem_replicate inside] at here
    exact absurd valid (by rw [← here]; exact Nat.lt_irrefl _)
  have mounted : Fatfs.Mounted { fs.fatfsFatInit with
      nextFreeCluster := nextFreeCluster, currentsector := currentsector } := by
    constructor
    · exact List.cons_ne_nil _ _
    · constructor
      · exact List.pairwise_singleton _ _
      · intro b inside valid _
        rw [List.eq_of_mem_replicate inside] at valid
        exact absurd valid (Nat.lt_irrefl _)
      · intro b inside dirty
        rw [List.eq_of_mem_replicate inside] at dirty
        cases dirty
    · intro b inside
      rw [List.eq_of_mem_replicate inside]
    · intro b inside valid
      rw [List.eq_of_mem_replicate inside] at valid
      exact absurd valid (Nat.lt_irrefl _)
    · intro b inside dirty
      rw [List.eq_of_mem_replicate inside] at dirty
      cases dirty
    · exact volume.mounted.fits
    · exact volume.mounted.info
    · exact volume.mounted.infoOutside
  have table : ∀ c, fs.HasEntry c → Fatfs.table { fs.fatfsFatInit with
      nextFreeCluster := nextFreeCluster, currentsector := currentsector } c = fs.table c := by
    intro c has
    have same := seen _ (volume.mounted.valid has.inFat)
    rw [Fatfs.table, Fatfs.table, Fatfs.entry, Fatfs.entry]
    exact congrArg (fun sector => fs.decode (fs.loadEntry sector (fs.entryPosition c))) same
  constructor
  · rfl
  · exact fun _ _ _ => rfl
  constructor
  · exact mounted
  · exact volume.fits
  · intro c low has notUsable
    rw [table c has]
    exact volume.taken c low has notUsable
  · exact volume.allocation.congr fun c usable => table c (volume.fits.entry c usable)

/-! ## Requests -/

/-- Each request is answered as the step says, and the table holds its chains. -/
theorem perform {request : ClusterRequest} {answer : ClusterAnswer} {chains' : List (List Nat)}
    (step : region.Step request chains answer chains') (volume : Volume region fs chains) :
    ∃ fs', fs.perform request = some (answer, fs') ∧ Rewritten region fs fs' chains' := by
  cases step with
  | follow inside at_ =>
    obtain ⟨fs', find, keeps⟩ := volume.find_next inside at_
    exact ⟨fs', by simp only [Fatfs.perform, find], volume.keeps keeps⟩
  | create positive one first =>
    obtain ⟨fs', allocated, rewritten⟩ := volume.allocate_one positive one first 0
    exact ⟨fs', by simp only [Fatfs.perform, allocated], rewritten⟩
  | createMany more first grows =>
    obtain ⟨fs', allocated, rewritten⟩ := volume.allocate_many more first grows 0
    exact ⟨fs', by simp only [Fatfs.perform, allocated], rewritten⟩
  | createNone => exact ⟨fs, rfl, volume.keeps (.refl volume.mounted)⟩
  | @createFull _ size full =>
    obtain ⟨fs', allocated, rewritten⟩ := volume.allocate_full full size 0
    exact ⟨fs', by simp only [Fatfs.perform, allocated], rewritten⟩
  | createShort short first grows full =>
    obtain ⟨fs', allocated, rewritten⟩ := volume.allocate_short short first grows full 0
    exact ⟨fs', by simp only [Fatfs.perform, allocated], rewritten⟩
  | extend nonempty grows =>
    obtain ⟨fs', added, rewritten⟩ := volume.add_space nonempty grows
    exact ⟨fs', by simp only [Fatfs.perform, added], rewritten⟩
  | extendShort nonempty short grows full =>
    obtain ⟨fs', added, rewritten⟩ := volume.add_some nonempty short grows full
    exact ⟨fs', by simp only [Fatfs.perform, added], rewritten⟩
  | append nonempty first =>
    obtain ⟨fs₀, found, keeps⟩ := volume.find_blank first
    have kept := volume.keeps keeps
    obtain ⟨fs', added, rewritten⟩ := kept.volume.add_to_chain nonempty first.usable first.fresh
    exact ⟨fs', by simp only [Fatfs.perform, found, added, Option.map_some], kept.trans rewritten⟩
  | appendFull nonempty full =>
    obtain ⟨fs', found, keeps⟩ := volume.find_none full
    exact ⟨fs', by simp only [Fatfs.perform, found], volume.keeps keeps⟩
  | release nonempty =>
    obtain ⟨fs', released, rewritten⟩ := volume.release nonempty
    exact ⟨fs', by simp only [Fatfs.perform, released, Option.map_some], rewritten⟩
  | purge =>
    obtain ⟨fs', purged, keeps, -⟩ := Fatfs.fatfsFatPurge_keeps volume.mounted
    exact ⟨fs', by simp only [Fatfs.perform, purged], volume.keeps keeps⟩
  | remount =>
    obtain ⟨fs', purged, keeps, settled⟩ := Fatfs.fatfsFatPurge_keeps volume.mounted
    have kept := volume.keeps keeps
    have settled' : ∀ a, Fatfs.Valid a → fs'.disk a = fs'.image a := fun a valid =>
      (settled a valid).trans (keeps.image a valid).symm
    refine ⟨_, ?_, kept.trans (kept.volume.init settled' 0
      { fs'.currentsector with address := FAT32_INVALID_CLUSTER, dirty := false })⟩
    simp only [Fatfs.perform, purged]
    rfl

end Volume

/-- What a run of the chains answers, the functions answer. -/
theorem performAll_run {region : Region} {requests : List ClusterRequest} {answers : List ClusterAnswer}
    {chains chains' : List (List Nat)} (run : region.Run requests chains answers chains') {fs : Fatfs}
    (volume : Volume region fs chains) :
    ∃ fs', fs.performAll requests = some (answers, fs') ∧ Rewritten region fs fs' chains' := by
  induction run generalizing fs with
  | nil chains => exact ⟨fs, rfl, volume.keeps (Fatfs.Keeps.refl volume.mounted)⟩
  | cons step run inductionHypothesis =>
    obtain ⟨between, performed, first⟩ := volume.perform step
    obtain ⟨fs', rest, later⟩ := inductionHypothesis first.volume
    refine ⟨fs', ?_, first.trans later⟩
    simp only [Fatfs.performAll, performed, Option.bind_some, rest, Option.map_some]

/-- Legal requests have a run, full table or not. -/
theorem exists_run {region : Region} (positive : 0 < region.clusterSize) {requests : List ClusterRequest}
    {chains : List (List Nat)} (legal : region.AllLegal requests chains) :
    ∃ answers chains', region.Run requests chains answers chains' := by
  induction requests generalizing chains with
  | nil => exact ⟨[], chains, .nil chains⟩
  | cons request requests inductionHypothesis =>
    obtain ⟨answer, between, step⟩ := Region.exists_step positive legal.1
    obtain ⟨answers, chains', run⟩ := inductionHypothesis (legal.2 answer between step)
    exact ⟨answer :: answers, chains', .cons step run⟩

/-- The table functions refine the allocation of chains. Every sequence of requests that name cells of chains has a run
of the chains, also when the table is full or gets full on the way; and whichever sectors of the table are in buffers,
the functions give the answers of the run, and the table holds its chains at the end. Only the table and the information
sector are stored. -/
theorem performAll_chains {region : Region} {chains : List (List Nat)} {fs : Fatfs} (volume : Volume region fs chains) :
    (∀ requests, region.AllLegal requests chains → ∃ answers chains', region.Run requests chains answers chains') ∧
      ∀ requests answers chains', region.Run requests chains answers chains' →
        ∃ fs', fs.performAll requests = some (answers, fs') ∧ Rewritten region fs fs' chains' := by
  constructor
  · intro requests legal
    exact exists_run volume.fits.positive legal
  · intro requests answers chains' run
    exact performAll_run run volume

/-! ## A volume that gets full -/

/-- One sector of table, with a chain from cluster 2 to cluster 3 and one of cluster 4. -/
def smallFat : Fatfs where
  sectorsPerCluster := 1
  clusterBeginLba := 2
  rootdirFirstCluster := 0
  rootdirFirstSector := 2
  rootdirSectors := 1
  fatBeginLba := 1
  fsInfoSector := 0x2020
  lbaBegin := 0
  fatSectors := 1
  rootEntryCount := 16
  fatType := .fat16
  nextFreeCluster := 0
  currentsector := ⟨FAT32_INVALID_CLUSTER, fun _ => 0, false⟩
  fatBuffers := [⟨FAT32_INVALID_CLUSTER, fun _ => 0, false⟩]
  disk := fun sector i => if sector = 1 ∧ (i < 4 ∨ 6 ≤ i ∧ i < 10) then 0xFF else if sector = 1 ∧ i = 4 then 3 else 0

/-- All entries of the sector but the first two. -/
def smallRegion : Region := ⟨0, fun c => 2 ≤ c ∧ c < 256, 512⟩

theorem smallFat_small {c : Nat} (has : smallFat.HasEntry c) : c < 256 := by
  have inside : c / 256 < 1 := has
  omega

theorem smallFat_free {c : Nat} (low : 5 ≤ c) (high : c < 256) : smallFat.table c = .free := by
  have offset : c / 256 = 0 := Nat.div_eq_of_lt high
  have first : smallFat.image 1 = smallFat.disk 1 := rfl
  have bytes : smallFat.disk 1 (c * 2) = 0 ∧ smallFat.disk 1 (c * 2 + 1) = 0 := by
    simp only [smallFat, true_and]
    constructor
    · rw [if_neg (by omega), if_neg (by omega)]
    · rw [if_neg (by omega), if_neg (by omega)]
  have zero : smallFat.entry c = 0 := by
    change Words.load16 (smallFat.image (1 + c / 256)) ((c - c / 256 * 256) * 2) = 0
    rw [offset, Nat.zero_mul, Nat.sub_zero, first, Words.load16, bytes.1, bytes.2]
    rfl
  rw [Fatfs.table, zero]
  rfl

theorem smallFat_volume : Volume smallRegion smallFat [[2, 3], [4]] := by
  constructor
  · constructor
    · decide
    · constructor
      · exact List.pairwise_singleton _ _
      · intro b inside valid
        rw [List.mem_singleton.mp inside] at valid
        exact absurd valid (Nat.lt_irrefl _)
      · intro b inside dirty
        rw [List.mem_singleton.mp inside] at dirty
        cases dirty
    · intro b inside
      rw [List.mem_singleton.mp inside]
    · intro b inside valid
      rw [List.mem_singleton.mp inside] at valid
      exact absurd valid (Nat.lt_irrefl _)
    · intro b inside dirty
      rw [List.mem_singleton.mp inside] at dirty
      cases dirty
    · decide
    · exact fun a isInfo => absurd isInfo.1 (by decide)
    · exact fun a isInfo => absurd isInfo.1 (by decide)
  · constructor
    · rfl
    · rfl
    · decide
    · exact fun c usable => usable.1
    · intro c usable
      exact usable.2.trans (by decide)
    · intro c usable
      have small : c / 256 = 0 := Nat.div_eq_of_lt usable.2
      exact (show c / 256 < 1 by omega)
    · intro c has
      have small := smallFat_small has
      omega
  · intro c _ has notUsable
    have low : c < 2 := by
      by_contra high
      exact notUsable ⟨by omega, smallFat_small has⟩
    interval_cases c
    · decide
    · decide
  · constructor
    · intro cells inside
      have either : cells = [2, 3] ∨ cells = [4] := by simpa using inside
      cases either with
      | inl two => exact two ▸ ⟨by decide, (by decide : smallFat.table 3 = .last)⟩
      | inr one => exact one ▸ (by decide : smallFat.table 4 = .last)
    · decide
    · intro c inside
      have among : c = 2 ∨ c = 3 ∨ c = 4 := by simpa using inside
      exact ⟨by omega, by omega⟩
    · intro c usable absent
      have others : c ≠ 2 ∧ c ≠ 3 ∧ c ≠ 4 := by simpa using absent
      have low := usable.1
      exact smallFat_free (by omega) usable.2

/-- The clusters below `n` are in chains. -/
def smallRegion.Below (chains : List (List Nat)) (n : Nat) : Prop := ∀ c, c ∈ chains.flatten ↔ 2 ≤ c ∧ c < n

theorem smallRegion_first {chains : List (List Nat)} {n : Nat} (below : smallRegion.Below chains n) (low : 2 ≤ n)
    (high : n < 256) : smallRegion.IsFirst chains n := by
  constructor
  · exact ⟨low, high⟩
  · exact Nat.zero_le n
  · exact fun inside => Nat.lt_irrefl n ((below n).mp inside).2
  · exact fun c _ before usable => (below c).mpr ⟨usable.1, before⟩

theorem smallRegion_full {chains : List (List Nat)} (below : smallRegion.Below chains 256) :
    smallRegion.IsFull chains :=
  fun new first => first.fresh ((below new).mpr first.usable)

theorem smallRegion_grows (front back : List (List Nat)) (cells : List Nat) (n count : Nat)
    (below : smallRegion.Below (front ++ cells :: back) n) (low : 2 ≤ n) (room : n + count ≤ 256) :
    smallRegion.Grows front back count cells (cells ++ List.range' n count) := by
  induction count generalizing cells n with
  | zero =>
    rw [List.range'_zero, List.append_nil]
    exact .done cells
  | succ count inductionHypothesis =>
    have next : smallRegion.Below (front ++ (cells ++ [n]) :: back) (n + 1) := by
      intro c
      have before := below c
      simp only [List.flatten_append, List.flatten_cons, List.mem_append, List.mem_singleton] at before ⊢
      grind
    have rest := inductionHypothesis (cells ++ [n]) (n + 1) next (by omega) (by omega)
    rw [List.append_assoc] at rest
    exact .more (smallRegion_first below low (by omega)) rest

/-- A chain takes all clusters that are left, and nothing is free until it is released. Then a file of one cluster fits,
and a larger one takes what is left. The chain of cluster 4 stays as it is. -/
theorem smallFat_chains :
    ∃ fs', smallFat.performAll [.create 0, .extend 3 300, .follow 3, .create 512, .append 4, .release 2, .create 512,
          .create 153600, .remount] =
        some ([.status 0 0, .status 0 5, .cluster 5, .status 0 0, .status 0 0, .status 1 0, .status 1 2, .status 0 0,
          .status 1 0], fs') ∧
      Rewritten smallRegion smallFat fs' [[4], [2], 3 :: List.range' 5 251] := by
  have start : smallRegion.Below ([] ++ [2, 3] :: [[4]]) 5 := by
    intro c
    simp only [List.nil_append, List.flatten_cons, List.flatten_nil, List.append_nil, List.mem_append, List.mem_cons,
      List.not_mem_nil, or_false]
    omega
  have all : smallRegion.Below ([] ++ (2 :: 3 :: List.range' 5 251) :: [[4]]) 256 := by
    intro c
    simp only [List.nil_append, List.flatten_cons, List.flatten_nil, List.append_nil, List.mem_append, List.mem_cons,
      List.not_mem_nil, or_false, List.mem_range'_1]
    omega
  have two : smallRegion.IsFirst [[4]] 2 := by
    refine ⟨⟨by decide, by decide⟩, by decide, by decide, ?_⟩
    intro c _ before usable
    exact absurd before (Nat.not_lt_of_le usable.1)
  have three : smallRegion.IsFirst [[4], [2]] 3 := by
    refine ⟨⟨by decide, by decide⟩, by decide, by decide, ?_⟩
    intro c _ before usable
    have here : c = 2 := Nat.le_antisymm (Nat.le_of_lt_succ before) usable.1
    simp [here]
  have five : smallRegion.Below ([[4], [2]] ++ [3] :: []) 5 := by
    intro c
    simp only [List.cons_append, List.nil_append, List.flatten_cons, List.flatten_nil, List.append_nil, List.mem_cons,
      List.not_mem_nil, or_false]
    omega
  have rest : smallRegion.Below ([[4], [2]] ++ [3 :: List.range' 5 251]) 256 := by
    intro c
    simp only [List.cons_append, List.nil_append, List.flatten_cons, List.flatten_nil, List.append_nil, List.mem_cons,
      List.not_mem_nil, or_false, List.mem_range'_1]
    omega
  have followed : smallRegion.Step (.follow 3) ([] ++ (2 :: 3 :: List.range' 5 251) :: [[4]]) (.cluster 5)
      ([] ++ (2 :: 3 :: List.range' 5 251) :: [[4]]) := by
    have step := @Region.Step.follow smallRegion ([] ++ (2 :: 3 :: List.range' 5 251) :: [[4]])
      (2 :: 3 :: List.range' 5 251) 1 (by simp) (by simp)
    simpa using step
  apply (performAll_chains smallFat_volume).2
  apply Region.Run.cons .createNone
  apply Region.Run.cons (@Region.Step.extendShort smallRegion [] [[4]] [2, 3] (2 :: 3 :: List.range' 5 251) 251 300
    (by decide) (by decide) (smallRegion_grows [] [[4]] [2, 3] 5 251 start (by decide) (by decide))
    (smallRegion_full all))
  apply Region.Run.cons followed
  apply Region.Run.cons (.createFull (smallRegion_full all))
  apply Region.Run.cons (@Region.Step.appendFull smallRegion [2 :: 3 :: List.range' 5 251] [] [4] (by simp)
    (smallRegion_full all))
  apply Region.Run.cons (@Region.Step.release smallRegion [] [[4]] (2 :: 3 :: List.range' 5 251) (by simp))
  apply Region.Run.cons (.create (by decide) (by decide) two)
  apply Region.Run.cons (@Region.Step.createShort smallRegion [[4], [2]] (3 :: List.range' 5 251) _ 3 251 (by decide)
    three (smallRegion_grows [[4], [2]] [] [3] 5 251 five (by decide) (by decide)) (smallRegion_full rest))
  apply Region.Run.cons .remount
  exact Region.Run.nil _

end XinuStm32
