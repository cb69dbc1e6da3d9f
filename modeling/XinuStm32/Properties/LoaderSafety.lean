import XinuStm32.Properties.LoaderHeap

/-!
# Which files the loader handles

`elf_execve` trusts the file: what it reads from the headers it uses as it is, and the entry point it reads from the
buffer after it gave the buffer back. It keeps to its memory only where it leaves before any of this: with a file that
it cannot open, or one that does not arrive as a whole or does not have the signature. For that it needs the buffer,
since without one it frees `NULL`, and a file that is at least as long as its beginning agrees with the signature.
-/

namespace XinuStm32

namespace Loader

open FreeBlocks MallocState

variable {s k : Kernel} {live blocks : List Block} {name : List UInt8}
  {file : Option ProgramFile} {r : Execve}
  {program : ProgramCode}

/-- What a run has to keep to: it reads the file in its buffer only, and where there is no image, or the return value is
one of failure, then both are so and the heap has its blocks back. -/
structure Contained (s : Kernel) (r : Execve) : Prop where
  fresh : r.stale = false
  failure : r.image = none ∨ int32 r.code < 0 → int32 r.code < 0 ∧ r.kernel.mem.freeList = s.mem.freeList

/-- There is a buffer for the file, and the bytes that arrive fit behind the header. -/
structure Buffered (file : ProgramFile) (s : Kernel) : Prop where
  granted : (s.mem.malloc file.bytes.length).1 ≠ 0
  unwrapped : roundmb (add32 file.bytes.length 8) ≠ 0
  fits : file.arrives ≤ roundmb (add32 file.bytes.length 8) - 8

/-- The loader turns the file down before it looks at the headers. -/
def LeavesEarly (file : Option ProgramFile) (s : Kernel) : Prop :=
  ∀ f ∈ file, Buffered f s ∧
    (f.arrives ≠ f.bytes.length ∨ (¬ ELFMAG <+: f.bytes ∧ ¬ f.bytes <+: ELFMAG))

/-! ## The signature -/

/-- The comparison finds a difference inside both texts exactly when neither begins with the other. -/
theorem agree_false_iff {text bytes : List UInt8} :
    agree text bytes = .ok false ↔ ¬ text <+: bytes ∧ ¬ bytes <+: text := by
  induction text generalizing bytes with
  | nil => simp [agree]
  | cons c text inductionHypothesis =>
    cases bytes with
    | nil => simp [agree]
    | cons b bytes =>
      rw [agree]
      by_cases same : b = c
      · rw [if_pos same, inductionHypothesis, same, List.cons_prefix_cons, List.cons_prefix_cons]
        simp
      · rw [if_neg same, List.cons_prefix_cons, List.cons_prefix_cons]
        simp [same, Ne.symm same]

/-! ## The buffer -/

theorem allocate_some {n : Nat} {b : Block} (allocated : allocate n s = .ok (some b, k)) :
    (s.mem.malloc n).1 ≠ 0 ∧ roundmb (add32 n 8) ≠ 0 ∧ b = ⟨(s.mem.malloc n).1, roundmb (add32 n 8) - 8⟩ := by
  rw [allocate_eq] at allocated
  split at allocated
  · cases allocated
  · next granted =>
    split at allocated
    · cases allocated
    · next unwrapped =>
      cases allocated
      exact ⟨granted, unwrapped, rfl⟩

theorem allocate_granted {n : Nat} (granted : (s.mem.malloc n).1 ≠ 0) (unwrapped : roundmb (add32 n 8) ≠ 0) :
    allocate n s =
      .ok (some ⟨(s.mem.malloc n).1, roundmb (add32 n 8) - 8⟩, (malloc n s).2) := by
  rw [allocate_eq, if_neg granted, if_neg unwrapped]

/-- A run that does not read the buffer too late left early. -/
theorem leavesEarly_of_fresh (run : elfExecve program name file s = .ok r)
    (fresh : r.stale = false) : LeavesEarly file s := by
  intro f member
  rw [Option.mem_def.mp member, elfExecve] at run
  obtain ⟨⟨elfData, k⟩, allocated, run⟩ := bind_ok.mp run
  obtain ⟨⟨length, k'⟩, read, run⟩ := bind_ok.mp run
  dsimp only at run
  cases elfData with
  | none =>
    -- no buffer, and `free` of no pointer
    split at run
    · cases run
    · obtain ⟨signed, compared, -⟩ := bind_ok.mp run
      cases compared
  | some b =>
    obtain ⟨granted, unwrapped, rfl⟩ := allocate_some allocated
    rw [fread] at read
    split at read
    · next fits =>
      cases read
      refine ⟨⟨granted, unwrapped, fits⟩, ?_⟩
      split at run
      · next short => exact .inl short
      · obtain ⟨signed, compared, run⟩ := bind_ok.mp run
        split at run
        · next unsigned =>
          rw [unsigned] at compared
          exact .inr (agree_false_iff.mp compared)
        · obtain ⟨t, -, run⟩ := bind_ok.mp run
          obtain ⟨entry, -, run⟩ := bind_ok.mp run
          cases run
          cases fresh
    · cases read

/-- A file that is turned down early, before any of its code is called. -/
theorem elfExecve_early (early : LeavesEarly file s) :
    ∃ r, (∀ program, elfExecve program name file s = .ok r) ∧ r.stale = false ∧ r.image = none ∧ int32 r.code < 0 := by
  cases file with
  | none =>
    have negative : int32 (2 ^ 32 - 1 : Nat) < 0 := by decide
    exact ⟨_, fun _ => rfl, rfl, rfl, negative⟩
  | some f =>
    obtain ⟨⟨granted, unwrapped, fits⟩, reason⟩ := early f rfl
    have allocated := allocate_granted (s := (disable s).2) granted unwrapped
    have left (mask : UInt32) (b : Block) (code : Nat) (t : Loading) (image : t.image = none)
        (negative : int32 code < 0) :
        ∃ r, leave mask (some b) code false t = .ok r ∧ r.stale = false ∧ r.image = none ∧ int32 r.code < 0 :=
      ⟨_, rfl, rfl, image, negative⟩
    by_cases short : f.arrives ≠ f.bytes.length
    · obtain ⟨r, ran, result⟩ := left (disable s).1 _ (2 ^ 32 - 2) ⟨_, 0, none, none, _, [], []⟩ rfl (by decide)
      refine ⟨r, fun program => ?_, result⟩
      rw [elfExecve]
      refine bind_ok.mpr ⟨_, allocated, bind_ok.mpr ⟨_, if_pos fits, ?_⟩⟩
      exact (if_pos short).trans ran
    · obtain ⟨r, ran, result⟩ := left (disable s).1 _ (2 ^ 32 - 3) ⟨_, 0, none, none, _, [], []⟩ rfl (by decide)
      refine ⟨r, fun program => ?_, result⟩
      rw [elfExecve]
      refine bind_ok.mpr ⟨_, allocated, bind_ok.mpr ⟨_, if_pos fits, ?_⟩⟩
      refine (if_neg short).trans (bind_ok.mpr ⟨false, agree_false_iff.mpr (reason.resolve_left short), ?_⟩)
      exact (if_pos rfl).trans ran

/-- `elf_execve` keeps to its memory and reports its failures exactly when it leaves early, whatever the constructors
do. -/
theorem elfExecve_contained_iff (program : ProgramCode) (sound : MallocState.Sound 8 ⟨s.mem, live⟩ blocks)
    (file : Option ProgramFile) : (∃ r, elfExecve program name file s = .ok r ∧ Contained s r) ↔
      LeavesEarly file s := by
  constructor
  · rintro ⟨r, run, contained⟩
    exact leavesEarly_of_fresh run contained.fresh
  · intro early
    obtain ⟨r, run, fresh, image, negative⟩ := elfExecve_early early
    have restored := ((elfExecve_leaves idle_stays sound (run idle)).freeList_iff sound).mpr image
    exact ⟨r, run program, fresh, fun _ => ⟨negative, restored⟩⟩

/-! ## Two short files -/

/-- A kernel with nothing in its heap. -/
def emptyHeap : Kernel := zeroed heapImage int32 fun _ => 0

/-- Two bytes that are no beginning of the signature. -/
def twoBytes : ProgramFile where
  bytes := [0x23, 0x21]
  arrives := 2
  length_lt := by decide
  arrives_le := by decide

/-- The signature and nothing behind it. -/
def signatureOnly : ProgramFile where
  bytes := ELFMAG
  arrives := 4
  length_lt := by decide
  arrives_le := by decide

theorem twoBytes_contained : ∃ r, elfExecve idle [0x61] (some twoBytes) emptyHeap = .ok r ∧ Contained emptyHeap r := by
  obtain ⟨blocks, sound⟩ := start_aligned heapImage (by decide) fun _ => 0
  apply (elfExecve_contained_iff (s := emptyHeap) idle sound (some twoBytes)).mpr
  rintro f member
  cases member
  exact ⟨⟨by decide +kernel, by decide, by decide⟩, .inr (by decide)⟩

/-- The offset of the program headers is read behind the end of the file. -/
theorem signatureOnly_outside : ¬ ∃ r, elfExecve idle [0x61] (some signatureOnly) emptyHeap = .ok r ∧
    Contained emptyHeap r := by
  rintro ⟨r, run, -⟩
  have stopped : (elfExecve idle [0x61] (some signatureOnly) emptyHeap).toOption.isSome = false := by decide +kernel
  rw [run] at stopped
  cases stopped

end Loader

end XinuStm32
