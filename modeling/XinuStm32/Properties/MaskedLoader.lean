import XinuStm32.Kernel.Operations
import XinuStm32.Properties.LoaderHeap
import XinuStm32.Properties.MaskedDevices

/-!
# Masking in the loader

`elf_execve` never stays masked: without a file it prints a message, and with one it takes a buffer from the heap.
-/

namespace XinuStm32

namespace Loader

variable {s k : Kernel} {t t' : Loading} {bytes : List UInt8} {others : Surroundings} {n : Nat}
  {block : Option FreeBlocks.Block} {r : Execve}

theorem onward_setRam (ram : Nat → UInt8) : Onward s (setRam ram s) := (inside_setMem _).onward

theorem malloc_unmasks (asked : n ≠ 0) : Unmasks s (malloc n s).2 := by
  simp only [malloc, if_neg asked]
  exact (section_getmem (add32 n 8)).unmasks.then (onward_of_cpu rfl)

theorem onward_malloc (n : Nat) : Onward s (malloc n s).2 := by
  by_cases asked : n = 0
  · simp only [malloc, if_pos asked]
    exact .refl s
  · exact (malloc_unmasks asked).onward

theorem allocate_kernel (allocated : allocate n s = .ok (block, k)) : k = (malloc n s).2 := by
  rw [allocate_eq] at allocated
  split at allocated
  · cases allocated
    rfl
  · split at allocated
    · cases allocated
    · cases allocated
      rfl

/-- No block is given for nothing. -/
theorem allocate_asked {b : FreeBlocks.Block} (allocated : allocate n s = .ok (some b, k)) : n ≠ 0 := by
  rintro rfl
  rw [allocate_eq] at allocated
  cases allocated

theorem onward_loadSegment {phdr : Nat} (loaded : loadSegment bytes phdr t = .ok t') : Onward t.kernel t'.kernel := by
  rw [loadSegment] at loaded
  split at loaded
  · cases loaded
  · obtain ⟨memsz, -, loaded⟩ := bind_ok.mp loaded
    obtain ⟨⟨image, kernel⟩, allocated, loaded⟩ := bind_ok.mp loaded
    obtain ⟨offset, -, loaded⟩ := bind_ok.mp loaded
    obtain ⟨vaddr, -, loaded⟩ := bind_ok.mp loaded
    obtain ⟨filesz, -, loaded⟩ := bind_ok.mp loaded
    obtain ⟨ram, -, loaded⟩ := bind_ok.mp loaded
    cases loaded
    rw [allocate_kernel allocated]
    exact (onward_malloc _).trans (onward_setRam ram)

theorem onward_loadSegments {entsize count phdr : Nat} (loaded : loadSegments bytes entsize count phdr t = .ok t') :
    Onward t.kernel t'.kernel := by
  induction count generalizing phdr t with
  | zero =>
    cases loaded
    exact .refl _
  | succ count inductionHypothesis =>
    rw [loadSegments] at loaded
    obtain ⟨type, -, loaded⟩ := bind_ok.mp loaded
    dsimp only at loaded
    split at loaded
    · obtain ⟨next, step, loaded⟩ := bind_ok.mp loaded
      exact (onward_loadSegment step).trans (inductionHypothesis loaded)
    · exact inductionHypothesis loaded

theorem onward_runConstructors {initArray count i : Nat}
    (ran : runConstructors others.program initArray count i t = .ok t') : Onward t.kernel t'.kernel := by
  induction count generalizing i t with
  | zero =>
    cases ran
    exact .refl _
  | succ count inductionHypothesis =>
    rw [runConstructors] at ran
    dsimp only at ran
    split at ran
    · obtain ⟨kernel, called, ran⟩ := bind_ok.mp ran
      have constructed := onward_of_suffix (others.constructsOn _ _ _ _ called)
      exact ((onward_setRam _).trans constructed).trans (inductionHypothesis ran)
    · cases ran

theorem onward_callConstructors (ran : callConstructors others.program bytes t = .ok t') :
    Onward t.kernel t'.kernel := by
  rw [callConstructors] at ran
  obtain ⟨found, -, ran⟩ := bind_ok.mp ran
  cases found with
  | none =>
    cases ran
    exact .refl _
  | some shdr =>
    obtain ⟨addr, -, ran⟩ := bind_ok.mp ran
    obtain ⟨size, -, ran⟩ := bind_ok.mp ran
    exact onward_runConstructors ran

theorem onward_loadImage (loaded : loadImage others.program bytes t = .ok t') : Onward t.kernel t'.kernel := by
  rw [loadImage] at loaded
  obtain ⟨phoff, -, loaded⟩ := bind_ok.mp loaded
  obtain ⟨phnum, -, loaded⟩ := bind_ok.mp loaded
  obtain ⟨phentsize, -, loaded⟩ := bind_ok.mp loaded
  obtain ⟨segments, copied, loaded⟩ := bind_ok.mp loaded
  obtain ⟨cleared, -, loaded⟩ := bind_ok.mp loaded
  obtain ⟨moved, -, loaded⟩ := bind_ok.mp loaded
  exact (onward_loadSegments copied).trans ((onward_setRam moved).trans (onward_callConstructors loaded))

/-- The way out restores the mask behind whatever was done before it. -/
theorem leave_broken {b : FreeBlocks.Block} {code : Nat} {stale : Bool} (mask : UInt32)
    (unmasked : Unmasks (disable s).2 t.kernel) (left : leave mask (some b) code stale t = .ok r) :
    Broken s r.kernel := by
  cases left
  exact ⟨mask, _, unmasked.then (onward_free _), rfl⟩

theorem elfExecve_broken {name : List UInt8} {file : Option ProgramFile}
    (run : elfExecve others.program name file s = .ok r) : Broken s r.kernel := by
  cases file with
  | none =>
    have printed : Unmasks (disable s).2 (kprintf (notFound name) (disable s).2) :=
      kprintf_unmasks (by simp [notFound])
    rw [elfExecve] at run
    dsimp only at run
    generalize kprintf (notFound name) (disable s).2 = k at run printed
    cases run
    exact ⟨_, k, printed, rfl⟩
  | some file =>
    rw [elfExecve] at run
    obtain ⟨⟨elfData, k⟩, allocated, run⟩ := bind_ok.mp run
    obtain ⟨⟨length, k'⟩, read, run⟩ := bind_ok.mp run
    dsimp only at run
    cases elfData with
    | none =>
      -- no buffer, and `free` of no pointer
      split at run
      · cases run
      · obtain ⟨signed, compared, -⟩ := bind_ok.mp run
        cases compared
    | some b =>
      have buffer : Unmasks (disable s).2 k := by
        rw [allocate_kernel allocated]
        exact malloc_unmasks (allocate_asked allocated)
      have filled : Unmasks (disable s).2 k' := by
        rw [fread] at read
        split at read
        · cases read
          exact buffer.then (onward_setRam _)
        · cases read
      split at run
      · exact leave_broken _ filled run
      · obtain ⟨signed, -, run⟩ := bind_ok.mp run
        split at run
        · exact leave_broken _ filled run
        · obtain ⟨t, loaded, run⟩ := bind_ok.mp run
          obtain ⟨entry, -, run⟩ := bind_ok.mp run
          exact leave_broken _ (filled.then (onward_loadImage loaded)) run

end Loader

end XinuStm32
