import XinuStm32.Properties.ImageLoops
import XinuStm32.Properties.LoaderSafety

/-!
# The image that the loader leaves

For a file in the format with one loadable segment: when does `elf_execve` leave the segment at the base it returns,
with the words of `.got` and `.init_array` moved by the base and zeros behind the bytes of the file? It has `p_memsz`
bytes and uses them from `p_vaddr` on; it zeroes what `.bss` names, in whole words, and not what the segment has beyond
its bytes; and its base is the pointer with the last bits cut off. Constructors return, and store at places of their own
in the image.
-/

namespace XinuStm32

namespace Loader

open FreeBlocks

/-! ## What is asked of the image -/

/-- A segment: where it is in the file and in the image, and how long in each. -/
structure Segment where
  offset : Nat
  vaddr : Nat
  filesz : Nat
  memsz : Nat

def segmentAt (bytes : List UInt8) (phdr : Nat) : Segment :=
  ⟨wordAt bytes (phdr + p_offset), wordAt bytes (phdr + p_vaddr), wordAt bytes (phdr + p_filesz),
    wordAt bytes (phdr + p_memsz)⟩

/-- The words that are moved by the base. -/
def relocated (bytes : List UInt8) : List Nat := sectionWords bytes gotName ++ sectionWords bytes initArrayName

/-- How much is behind the header of a block for `nbytes`. -/
def payload (nbytes : Nat) : Nat := roundmb (add32 nbytes 8) - 8

/-- The memory when the file is in its buffer. -/
def filled (file : ProgramFile) (m : Mem) : Mem :=
  let (pointer, m) := m.malloc file.bytes.length
  { m with ram := Patch.patch pointer file.bytes.length (contents file.bytes) m.ram }

/-- The pointer that `malloc` returns for the image. -/
def imagePointer (file : ProgramFile) (segment : Segment) (s : Kernel) : Nat :=
  ((filled file s.mem).malloc (add32 segment.memsz 8)).1

/-- The words that are moved lie apart, in the bytes of the file, and no constructor stores there. -/
structure Relocatable (bytes : List UInt8) (segment : Segment) (own : Set Nat) : Prop where
  once : (relocated bytes).Pairwise Words.Apart
  inside : ∀ a ∈ relocated bytes, segment.vaddr ≤ a ∧ a + 4 ≤ segment.vaddr + segment.filesz
  spared : ∀ a ∈ relocated bytes, ∀ x, Words.Under a x → x ∉ own

/-- What the file has at a place of the image, moved by the base. -/
def movedWord (file : ProgramFile) (segment : Segment) (pointer a : Nat) : Nat :=
  add32 (wordAt file.bytes (segment.offset + (a - segment.vaddr))) pointer

/-- The image is as the file says, but where constructors have stored, and all other memory is as before. -/
structure Placed (file : ProgramFile) (segment : Segment) (s : Kernel) (pointer : Nat) (own : Set Nat) (r : Execve) :
    Prop where
  start : r.start = some pointer
  entry : r.code = add32 pointer (wordAt file.bytes e_entry) ||| 1
  allocated : ∀ x < segment.memsz, Inside r.image (pointer + (segment.vaddr + x)) 1
  moved : ∀ a ∈ relocated file.bytes,
    Words.load r.kernel.mem.ram (pointer + a) = movedWord file segment pointer a
  called : r.called = (sectionWords file.bytes initArrayName).map (movedWord file segment pointer)
  copied : ∀ x < segment.filesz, segment.vaddr + x ∉ own →
    (∀ a ∈ relocated file.bytes, ¬ Words.Under a (segment.vaddr + x)) →
    r.kernel.mem.ram (pointer + (segment.vaddr + x)) = contents file.bytes (segment.offset + x)
  cleared : ∀ x, segment.filesz ≤ x → x < segment.memsz → segment.vaddr + x ∉ own →
    r.kernel.mem.ram (pointer + (segment.vaddr + x)) = 0
  freed : r.freed = [(s.mem.malloc file.bytes.length).1]
  others : ∀ live blocks, MallocState.Sound 8 ⟨s.mem, live⟩ blocks →
    ∀ x, ¬ Covers blocks x → r.kernel.mem.ram x = s.mem.ram x
  released : ∀ live blocks, MallocState.Sound 8 ⟨s.mem, live⟩ blocks →
    (free pointer r.kernel).mem.freeList = s.mem.freeList

/-- The file arrives and its layout suits the loader. -/
structure Suits (file : ProgramFile) (segment : Segment) (s : Kernel) (pointer : Nat) (own : Set Nat) : Prop where
  whole : file.arrives = file.bytes.length
  fits : file.bytes.length ≤ payload file.bytes.length
  aligned : 8 ∣ pointer
  inside : ∀ x < segment.memsz, segment.vaddr + x < payload (add32 segment.memsz 8)
  bss : ∀ a ∈ sectionWords file.bytes bssName, a + 4 ≤ payload (add32 segment.memsz 8)
  kept : ∀ x < segment.filesz, segment.vaddr + x ∉ own →
    (∃ a ∈ sectionWords file.bytes bssName, Words.Under a (segment.vaddr + x)) →
      contents file.bytes (segment.offset + x) = 0
  zero : ∀ x, segment.filesz ≤ x → x < segment.memsz → segment.vaddr + x ∉ own →
    (∃ a ∈ sectionWords file.bytes bssName, Words.Under a (segment.vaddr + x)) ∨
      s.mem.ram (pointer + (segment.vaddr + x)) = 0

/-! ## The bytes of the image -/

variable {bytes : List UInt8} {ram : Nat → UInt8} {phdr : Nat} {t t' : Loading} {segment : Segment} {p x : Nat}
  {program : ProgramCode} {own : Set Nat}

/-- The image before its words are moved. -/
def unmovedRam (bytes : List UInt8) (segment : Segment) (p : Nat) (ram : Nat → UInt8) : Nat → UInt8 :=
  Words.update (fun _ => 0) ((sectionWords bytes bssName).map (p + ·))
    (Patch.patch (p + segment.vaddr) segment.filesz (fun i => contents bytes (segment.offset + i)) ram)

/-- What the loader stores behind the base. -/
def imageRam (bytes : List UInt8) (segment : Segment) (p : Nat) (ram : Nat → UInt8) : Nat → UInt8 :=
  Words.update (add32 · p) ((relocated bytes).map (p + ·)) (unmovedRam bytes segment p ram)

theorem under_add {a : Nat} : Words.Under (p + a) (p + x) ↔ Words.Under a x := by
  simp only [Words.Under]
  omega

theorem unmovedRam_eq : unmovedRam bytes segment p ram (p + x) =
    if ∃ a ∈ sectionWords bytes bssName, Words.Under a x then 0
    else Patch.patch (p + segment.vaddr) segment.filesz (fun i => contents bytes (segment.offset + i)) ram (p + x) := by
  have words : (∃ a ∈ (sectionWords bytes bssName).map (p + ·), Words.Under a (p + x)) ↔
      ∃ a ∈ sectionWords bytes bssName, Words.Under a x := by
    simp only [List.mem_map, exists_exists_and_eq_and, under_add]
  rw [unmovedRam, Words.update_zero]
  simp only [words]

/-- Before the words are moved the bytes of the file are there exactly when no word of `.bss` covers one that is not
zero. -/
theorem unmoved_copied_iff :
    (∀ x < segment.filesz, segment.vaddr + x ∉ own → unmovedRam bytes segment p ram (p + (segment.vaddr + x)) =
        contents bytes (segment.offset + x)) ↔
      ∀ x < segment.filesz, segment.vaddr + x ∉ own →
        (∃ a ∈ sectionWords bytes bssName, Words.Under a (segment.vaddr + x)) →
        contents bytes (segment.offset + x) = 0 := by
  have copied (x : Nat) (less : x < segment.filesz) :
      Patch.patch (p + segment.vaddr) segment.filesz (fun i => contents bytes (segment.offset + i)) ram
        (p + (segment.vaddr + x)) = contents bytes (segment.offset + x) := by
    rw [Patch.patch_inside (by omega) (by omega)]
    congr 2
    omega
  apply forall₃_congr
  intro x less _
  rw [unmovedRam_eq, copied x less]
  by_cases under : ∃ a ∈ sectionWords bytes bssName, Words.Under a (segment.vaddr + x)
  · rw [if_pos under]
    exact ⟨fun same _ => same.symm, fun zero => (zero under).symm⟩
  · rw [if_neg under]
    exact iff_of_true rfl fun covered => absurd covered under

theorem unmoved_cleared_iff :
    (∀ x, segment.filesz ≤ x → x < segment.memsz → segment.vaddr + x ∉ own →
        unmovedRam bytes segment p ram (p + (segment.vaddr + x)) = 0) ↔
      ∀ x, segment.filesz ≤ x → x < segment.memsz → segment.vaddr + x ∉ own →
        (∃ a ∈ sectionWords bytes bssName, Words.Under a (segment.vaddr + x)) ∨
          ram (p + (segment.vaddr + x)) = 0 := by
  apply forall₄_congr
  intro x low high _
  rw [unmovedRam_eq, Patch.patch_outside (by omega)]
  by_cases under : ∃ a ∈ sectionWords bytes bssName, Words.Under a (segment.vaddr + x)
  · rw [if_pos under]
    exact iff_of_true rfl (.inl under)
  · rw [if_neg under]
    exact (or_iff_right under).symm

theorem load_imageRam (once : (relocated bytes).Pairwise Words.Apart) {a : Nat} (member : a ∈ relocated bytes) :
    Words.load (imageRam bytes segment p ram) (p + a) =
      add32 (Words.load (unmovedRam bytes segment p ram) (p + a)) p := by
  apply Words.load_update fun value => Nat.mod_lt _ (by decide)
  · rw [List.pairwise_map]
    apply once.imp
    intro a b apart
    simp only [Words.Apart] at apart ⊢
    omega
  · exact List.mem_map_of_mem member

theorem imageRam_outside (outside : ∀ a ∈ relocated bytes, ¬ Words.Under a x) :
    imageRam bytes segment p ram (p + x) = unmovedRam bytes segment p ram (p + x) := by
  apply Words.update_outside
  intro b member
  obtain ⟨a, among, rfl⟩ := List.mem_map.mp member
  rw [under_add]
  exact outside a among

/-- A sum with the base determines the word. -/
theorem add32_right_cancel {v w : Nat} (small : v < 2 ^ 32) (small' : w < 2 ^ 32) :
    add32 v p = add32 w p ↔ v = w := by
  simp only [add32]
  omega

/-- The words are moved and everything else is as in the file exactly when all was as in the file before. -/
theorem imageRam_copied_iff (words : Relocatable bytes segment own) :
    ((∀ a ∈ relocated bytes, Words.load (imageRam bytes segment p ram) (p + a) =
          add32 (wordAt bytes (segment.offset + (a - segment.vaddr))) p) ∧
        ∀ x < segment.filesz, segment.vaddr + x ∉ own →
          (∀ a ∈ relocated bytes, ¬ Words.Under a (segment.vaddr + x)) →
          imageRam bytes segment p ram (p + (segment.vaddr + x)) = contents bytes (segment.offset + x)) ↔
      ∀ x < segment.filesz, segment.vaddr + x ∉ own →
        unmovedRam bytes segment p ram (p + (segment.vaddr + x)) = contents bytes (segment.offset + x) := by
  have word (a : Nat) (member : a ∈ relocated bytes) :
      Words.load (imageRam bytes segment p ram) (p + a) =
          add32 (wordAt bytes (segment.offset + (a - segment.vaddr))) p ↔
        Words.load (unmovedRam bytes segment p ram) (p + a) =
          wordAt bytes (segment.offset + (a - segment.vaddr)) := by
    rw [load_imageRam words.once member, add32_right_cancel (Words.load_lt _ _) (wordAt_lt _ _)]
  constructor
  · rintro ⟨moved, rest⟩ x less free
    by_cases under : ∃ a ∈ relocated bytes, Words.Under a (segment.vaddr + x)
    · -- a byte of a word that was moved: the word determines it
      obtain ⟨a, member, first, last⟩ := under
      obtain ⟨low, high⟩ := words.inside a member
      have byte := Words.bytes_of_load ((word a member).mp (moved a member))
        (show segment.vaddr + x - a < 4 by omega)
      rwa [show p + a + (segment.vaddr + x - a) = p + (segment.vaddr + x) by omega,
        show segment.offset + (a - segment.vaddr) + (segment.vaddr + x - a) = segment.offset + x by omega] at byte
    · have outside : ∀ a ∈ relocated bytes, ¬ Words.Under a (segment.vaddr + x) :=
        fun a member here => under ⟨a, member, here⟩
      rw [← imageRam_outside outside]
      exact rest x less free outside
  · intro copied
    refine ⟨fun a member => (word a member).mpr ?_, fun x less free outside => ?_⟩
    · obtain ⟨low, high⟩ := words.inside a member
      apply Words.load_of_bytes
      intro i below
      have place : segment.vaddr + (a - segment.vaddr + i) = a + i := by omega
      have free : segment.vaddr + (a - segment.vaddr + i) ∉ own := by
        rw [place]
        exact words.spared a member (a + i) ⟨by omega, by omega⟩
      have byte := copied (a - segment.vaddr + i) (by omega) free
      rwa [place, ← Nat.add_assoc p, ← Nat.add_assoc] at byte
    · rw [imageRam_outside outside]
      exact copied x less free

/-- No word that is moved lies behind the bytes of the file. -/
theorem imageRam_behind (moved : ∀ a ∈ relocated bytes, segment.vaddr ≤ a ∧ a + 4 ≤ segment.vaddr + segment.filesz)
    (behind : segment.filesz ≤ x) : imageRam bytes segment p ram (p + (segment.vaddr + x)) =
      unmovedRam bytes segment p ram (p + (segment.vaddr + x)) := by
  apply imageRam_outside
  intro a member under
  obtain ⟨low, high⟩ := moved a member
  simp only [Words.Under] at under
  omega

/-- Nothing is stored outside the block. -/
theorem imageRam_kept {size : Nat} (inside : ∀ x < segment.filesz, segment.vaddr + x < size)
    (bss : ∀ a ∈ sectionWords bytes bssName, a + 4 ≤ size) (placed : ∀ a ∈ relocated bytes, a + 4 ≤ size)
    (outside : x < p ∨ p + size ≤ x) : imageRam bytes segment p ram x = ram x := by
  have apart {words : List Nat} (below : ∀ a ∈ words, a + 4 ≤ size) :
      ∀ b ∈ words.map (p + ·), ¬ Words.Under b x := by
    intro b member
    obtain ⟨a, among, rfl⟩ := List.mem_map.mp member
    have limit := below a among
    simp only [Words.Under]
    omega
  rw [imageRam, Words.update_outside (apart placed), unmovedRam, Words.update_outside (apart bss)]
  cases Nat.eq_zero_or_pos segment.filesz with
  | inl empty => rw [empty, Patch.patch_zero]
  | inr some =>
    have last := inside (segment.filesz - 1) (by omega)
    exact Patch.patch_outside (by omega)

/-! ## A run in its parts -/

/-- The segment in its block, and what `loadSegment` notes down. -/
def segmentLoaded (segment : Segment) (ram : Nat → UInt8) (t : Loading) : Loading :=
  let pointer := (t.kernel.mem.malloc (add32 segment.memsz 8)).1
  { kernel := setRam ram (malloc (add32 segment.memsz 8) t.kernel).2,
    base := pointer / 8 * 8, start := some (pointer / 8 * 8),
    image := some ⟨pointer, payload (add32 segment.memsz 8)⟩, allocated := t.allocated ++ [pointer], freed := t.freed,
    called := t.called }

theorem loadSegment_ok_iff (elf : Elf32 bytes phdr) (short : bytes.length < 2 ^ 32) (first : t.base = 0)
    (granted : (t.kernel.mem.malloc (add32 (segmentAt bytes phdr).memsz 8)).1 ≠ 0) :
    loadSegment bytes phdr t = .ok t' ↔
      roundmb (add32 (add32 (segmentAt bytes phdr).memsz 8) 8) ≠ 0 ∧ ∃ ram,
        copySegment bytes (some ⟨(t.kernel.mem.malloc (add32 (segmentAt bytes phdr).memsz 8)).1,
            payload (add32 (segmentAt bytes phdr).memsz 8)⟩) (segmentAt bytes phdr).offset
          (add32 ((t.kernel.mem.malloc (add32 (segmentAt bytes phdr).memsz 8)).1 / 8 * 8) (segmentAt bytes phdr).vaddr)
          (segmentAt bytes phdr).filesz 0 (t.kernel.mem.malloc (add32 (segmentAt bytes phdr).memsz 8)).2.ram = .ok ram ∧
        t' = segmentLoaded (segmentAt bytes phdr) ram t := by
  have inside := elf.phdr_inside
  have field (a : Nat) (below : a + 4 ≤ 32) : readWord bytes (add32 phdr a) = .ok (wordAt bytes (phdr + a)) := by
    rw [add32_of_lt (by omega)]
    exact readWord_inside (by omega)
  rw [loadSegment, if_neg (not_not.mpr first), field p_memsz (by decide), ok_bind]
  by_cases unwrapped : roundmb (add32 (add32 (segmentAt bytes phdr).memsz 8) 8) = 0
  · have stopped : allocate (add32 (wordAt bytes (phdr + p_memsz)) 8) t.kernel = .error .outside := by
      rw [allocate_eq]
      exact (if_neg granted).trans (if_pos unwrapped)
    rw [stopped]
    refine iff_of_false ?_ fun both => both.1 unwrapped
    intro loaded
    cases loaded
  · have allocated := allocate_granted granted unwrapped
    rw [show add32 (wordAt bytes (phdr + p_memsz)) 8 = add32 (segmentAt bytes phdr).memsz 8 from rfl, allocated,
      ok_bind]
    dsimp only
    rw [field p_offset (by decide), ok_bind, field p_vaddr (by decide), ok_bind, field p_filesz (by decide), ok_bind,
      bind_ok]
    simp only [unwrapped, not_false_eq_true, ne_eq, true_and, malloc_mem]
    apply exists_congr
    intro ram
    apply and_congr Iff.rfl
    rw [Except.ok.injEq, segmentLoaded]
    exact eq_comm

theorem loadImage_ok_iff (elf : Elf32 bytes phdr) (short : bytes.length < 2 ^ 32) :
    loadImage program bytes t = .ok t' ↔
      ∃ t₁ ram₁ ram₂, loadSegment bytes phdr t = .ok t₁ ∧
        eachSectionWord bytes bssName (fun _ => 0) t₁.base t₁.image t₁.kernel.mem.ram = .ok ram₁ ∧
        eachSectionWord bytes gotName (add32 · t₁.base) t₁.base t₁.image ram₁ = .ok ram₂ ∧
        callConstructors program bytes { t₁ with kernel := setRam ram₂ t₁.kernel } = .ok t' := by
  have header := elf.header
  rw [loadImage, readWord_inside (by simp only [e_phoff]; omega), ok_bind,
    readHalf_inside (by simp only [e_phnum]; omega), ok_bind,
    readHalf_inside (by simp only [e_phentsize]; omega), ok_bind, elf.loadSegments short]
  simp only [bind_ok, exists_and_left]

theorem loadImage_start (elf : Elf32 bytes phdr) (short : bytes.length < 2 ^ 32) (first : t.base = 0)
    (granted : (t.kernel.mem.malloc (add32 (segmentAt bytes phdr).memsz 8)).1 ≠ 0)
    (loaded : loadImage program bytes t = .ok t') :
    t'.start = some ((t.kernel.mem.malloc (add32 (segmentAt bytes phdr).memsz 8)).1 / 8 * 8) ∧
      t'.image = some ⟨(t.kernel.mem.malloc (add32 (segmentAt bytes phdr).memsz 8)).1,
        payload (add32 (segmentAt bytes phdr).memsz 8)⟩ := by
  obtain ⟨t₁, ram₁, ram₂, segment, -, -, called⟩ := (loadImage_ok_iff elf short).mp loaded
  obtain ⟨-, ram, -, rfl⟩ := (loadSegment_ok_iff elf short first granted).mp segment
  obtain ⟨start, image⟩ := callConstructors_noted called
  exact ⟨start, image⟩

theorem payload_pos {nbytes : Nat} (room : 0 < payload nbytes) : roundmb (add32 nbytes 8) ≠ 0 := by
  simp only [payload] at room
  omega

/-- What a run has done when the image is complete, in the memory that `malloc` left. -/
structure ImageLoaded (bytes : List UInt8) (segment : Segment) (p : Nat) (memory : Mem) (own : Set Nat)
    (t t' : Loading) : Prop where
  base : t'.base = p
  start : t'.start = some p
  image : t'.image = some ⟨p, payload (add32 segment.memsz 8)⟩
  freed : t'.freed = t.freed
  called : t'.called = t.called ++ (sectionWords bytes initArrayName).map fun a =>
    Words.load (imageRam bytes segment p memory.ram) (p + a)
  mem : t'.kernel.mem = { memory with ram := t'.kernel.mem.ram }
  outside : ∀ x, x < p ∨ p + payload (add32 segment.memsz 8) ≤ x → t'.kernel.mem.ram x = memory.ram x
  stored : ∀ x ∉ own, t'.kernel.mem.ram (p + x) = imageRam bytes segment p memory.ram (p + x)

/-- The image before its constructors run. -/
def gotRam (bytes : List UInt8) (segment : Segment) (p : Nat) (ram : Nat → UInt8) : Nat → UInt8 :=
  Words.update (add32 · p) ((sectionWords bytes gotName).map (p + ·)) (unmovedRam bytes segment p ram)

theorem imageRam_eq : imageRam bytes segment p ram =
    Words.update (add32 · p) ((sectionWords bytes initArrayName).map (p + ·)) (gotRam bytes segment p ram) := by
  rw [imageRam, relocated, List.map_append, Words.update_append]
  rfl

/-- The constructors leave the image behind in which all words are moved. -/
theorem Constructed.imageLoaded {memory : Mem} {b : Block} (words : Relocatable bytes segment own)
    (bss : ∀ a ∈ sectionWords bytes bssName, a + 4 ≤ payload (add32 segment.memsz 8))
    (inside : ∀ x < segment.memsz, segment.vaddr + x < payload (add32 segment.memsz 8))
    (sizes : segment.filesz ≤ segment.memsz)
    (placed : ∀ a ∈ relocated bytes, a + 4 ≤ payload (add32 segment.memsz 8))
    (block : b = ⟨p, payload (add32 segment.memsz 8)⟩) {t₁ : Loading} (base : t₁.base = p) (start : t₁.start = some p)
    (image : t₁.image = some b) (freed : t₁.freed = t.freed) (called : t₁.called = t.called)
    (mem : t₁.kernel.mem = { memory with ram := gotRam bytes segment p memory.ram })
    (constructed : Constructed b own (sectionWords bytes initArrayName) t₁ t') :
    ImageLoaded bytes segment p memory own t t' := by
  obtain ⟨noted, memory', outside, moved⟩ := constructed
  subst block
  dsimp only at noted moved
  have ram : t₁.kernel.mem.ram = gotRam bytes segment p memory.ram := by rw [mem]
  rw [ram] at noted outside moved
  have apart : (sectionWords bytes initArrayName).Pairwise Words.Apart := (List.pairwise_append.mp words.once).2.1
  constructor
  · rw [noted]
    exact base
  · rw [noted]
    exact start
  · rw [noted]
    exact image
  · rw [noted]
    exact freed
  · rw [noted]
    dsimp only
    rw [called]
    congr 1
    apply List.map_congr_left
    intro a member
    rw [imageRam_eq]
    symm
    apply Words.load_update fun value => Nat.mod_lt _ (by decide)
    · rw [List.pairwise_map]
      apply apart.imp
      intro a b apart
      simp only [Words.Apart] at apart ⊢
      omega
    · exact List.mem_map_of_mem member
  · rw [memory', mem]
  · intro x free
    rw [outside x (by simp only [Block.Covers, Block.limit]; omega)]
    have kept := @imageRam_kept bytes memory.ram segment p x _ (fun x small => inside x (by omega)) bss placed free
    rw [imageRam_eq, Words.update_outside] at kept
    · exact kept
    · intro c member under
      obtain ⟨a, among, rfl⟩ := List.mem_map.mp member
      have below := placed a (List.mem_append_right _ among)
      simp only [Words.Under] at under
      omega
  · intro x free
    rw [moved (p + x) (by
      intro i mine here
      have same : x = i := Nat.add_left_cancel here
      exact free (same ▸ mine)), imageRam_eq]

/-- The image at an aligned pointer: the run of the loader ends when `.bss` is in the block. -/
theorem loadImage_iff (minds : Minds program own) (elf : Elf32 bytes phdr) (layout : segmentAt bytes phdr = segment)
    (short : bytes.length < 2 ^ 32) (words : Relocatable bytes segment own)
    (first : t.base = 0) {memory : Mem} (malloc : t.kernel.mem.malloc (add32 segment.memsz 8) = (p, memory))
    (granted : p ≠ 0) (aligned : 8 ∣ p) (unwrapped : roundmb (add32 (add32 segment.memsz 8) 8) ≠ 0)
    (space : p + payload (add32 segment.memsz 8) < 2 ^ 32)
    (inside : ∀ x < segment.memsz, segment.vaddr + x < payload (add32 segment.memsz 8))
    (placed : ∀ a ∈ relocated bytes, a + 4 ≤ payload (add32 segment.memsz 8)) :
    (∀ t', loadImage program bytes t = .ok t' →
        (∀ a ∈ sectionWords bytes bssName, a + 4 ≤ payload (add32 segment.memsz 8)) ∧
          ImageLoaded bytes segment p memory own t t') ∧
      ((∀ a ∈ sectionWords bytes bssName, a + 4 ≤ payload (add32 segment.memsz 8)) →
        ∃ t', loadImage program bytes t = .ok t') := by
  subst layout
  have base : p / 8 * 8 = p := Nat.div_mul_cancel aligned
  have sizes : (segmentAt bytes phdr).filesz ≤ (segmentAt bytes phdr).memsz := elf.sizes
  have content : (segmentAt bytes phdr).offset + (segmentAt bytes phdr).filesz ≤ bytes.length := elf.content
  have pointer : (t.kernel.mem.malloc (add32 (segmentAt bytes phdr).memsz 8)).1 ≠ 0 := by
    rw [malloc]
    exact granted
  have segment := fun t₁ => @loadSegment_ok_iff bytes phdr t t₁ elf short first pointer
  rw [malloc] at segment
  simp only [base] at segment
  generalize hb : (⟨p, payload (add32 (segmentAt bytes phdr).memsz 8)⟩ : Block) = b at segment
  have start : b.addr = p := by rw [← hb]
  have size : b.size = payload (add32 (segmentAt bytes phdr).memsz 8) := by rw [← hb]
  have limit : b.limit < 2 ^ 32 := by
    rw [← hb]
    exact space
  have copied : copySegment bytes (some b) (segmentAt bytes phdr).offset (add32 p (segmentAt bytes phdr).vaddr)
      (segmentAt bytes phdr).filesz 0 memory.ram = .ok (Patch.patch (p + (segmentAt bytes phdr).vaddr)
        (segmentAt bytes phdr).filesz (fun i => contents bytes ((segmentAt bytes phdr).offset + i)) memory.ram) := by
    cases Nat.eq_zero_or_pos (segmentAt bytes phdr).filesz with
    | inl empty =>
      rw [empty, Patch.patch_zero]
      rfl
    | inr some =>
      have last := inside ((segmentAt bytes phdr).filesz - 1) (by omega)
      rw [← start, copySegment_fits short limit (by omega) (by omega)]
      rfl
  have stored (name : List UInt8) (plain : 0 ∉ name) (f : Nat → Nat) (ram ram' : Nat → UInt8) :
      eachSectionWord bytes name f p (some b) ram = .ok ram' ↔
        (∀ a ∈ sectionWords bytes name, a + 4 ≤ payload (add32 (segmentAt bytes phdr).memsz 8)) ∧
          ram' = Words.update f ((sectionWords bytes name).map (p + ·)) ram := by
    rw [← start, ← size]
    exact eachSectionWord_iff elf short plain limit
  have got (a : Nat) (member : a ∈ sectionWords bytes gotName) := placed a (List.mem_append_left _ member)
  have initArray (a : Nat) (member : a ∈ sectionWords bytes initArrayName) := placed a (List.mem_append_right _ member)
  have apart : (sectionWords bytes initArrayName).Pairwise Words.Apart := (List.pairwise_append.mp words.once).2.1
  have spared (a : Nat) (member : a ∈ sectionWords bytes initArrayName) :=
    words.spared a (List.mem_append_right _ member)
  -- what the segment's part notes down, with the values it has here
  have noted (ram : Nat → UInt8) : ∃ t₁, segmentLoaded (segmentAt bytes phdr) ram t = t₁ ∧ t₁.base = p ∧
      t₁.image = some b ∧ t₁.kernel.mem = { memory with ram } ∧ t₁.start = some p ∧ t₁.freed = t.freed ∧
      t₁.called = t.called := by
    have taken : (XinuStm32.malloc (add32 (segmentAt bytes phdr).memsz 8) t.kernel).2.mem = memory := by
      rw [malloc_mem, malloc]
    refine ⟨_, rfl, ?_⟩
    rw [segmentLoaded, malloc, ← hb]
    refine ⟨base, rfl, ?_, congrArg some base, rfl, rfl⟩
    rw [← taken]
    rfl
  obtain ⟨t₁, put, tbase, timage, tmem, tstart, tfreed, tcalled⟩ := noted (Patch.patch
    (p + (segmentAt bytes phdr).vaddr) (segmentAt bytes phdr).filesz
    (fun i => contents bytes ((segmentAt bytes phdr).offset + i)) memory.ram)
  have moved := @callConstructors_iff bytes b phdr
    { t₁ with kernel := setRam (gotRam bytes (segmentAt bytes phdr) p memory.ram) t₁.kernel } program own minds elf
    short limit timage (tbase.trans start.symm) apart spared
  have mem : (setRam (gotRam bytes (segmentAt bytes phdr) p memory.ram) t₁.kernel).mem =
      { memory with ram := gotRam bytes (segmentAt bytes phdr) p memory.ram } := by
    have stores : (setRam (gotRam bytes (segmentAt bytes phdr) p memory.ram) t₁.kernel).mem =
        { t₁.kernel.mem with ram := gotRam bytes (segmentAt bytes phdr) p memory.ram } := rfl
    rw [stores, tmem]
  constructor
  · intro t' loaded
    obtain ⟨t₂, ram₁, ram₂, loaded, bss, gotWords, called⟩ := (loadImage_ok_iff elf short).mp loaded
    obtain ⟨-, ram, copied', rfl⟩ := (segment t₂).mp loaded
    rw [copied, Except.ok.injEq] at copied'
    subst copied'
    rw [put] at bss gotWords called
    rw [tbase, timage] at bss gotWords
    rw [tmem] at bss
    obtain ⟨bssInside, rfl⟩ := (stored _ (by decide) _ _ _).mp bss
    obtain ⟨-, rfl⟩ := (stored _ (by decide) _ _ _).mp gotWords
    refine ⟨bssInside, Constructed.imageLoaded words bssInside inside sizes placed hb.symm ?_ ?_ ?_ ?_ ?_ ?_
      (moved.1 t' called).2⟩
    · exact tbase
    · exact tstart
    · exact timage
    · exact tfreed
    · exact tcalled
    · exact mem
  · intro bssInside
    obtain ⟨t', called⟩ := moved.2 (by rw [size]; exact initArray)
    refine ⟨t', (loadImage_ok_iff elf short).mpr ⟨t₁, unmovedRam bytes (segmentAt bytes phdr) p memory.ram,
      gotRam bytes (segmentAt bytes phdr) p memory.ram, (segment t₁).mpr ⟨unwrapped, _, copied, put.symm⟩, ?_, ?_,
      called⟩⟩
    · rw [tbase, timage, tmem]
      exact (stored bssName (by decide) _ _ _).mpr ⟨bssInside, rfl⟩
    · rw [tbase, timage]
      exact (stored gotName (by decide) _ _ _).mpr ⟨got, rfl⟩

/-! ## The two blocks -/

variable {s : Kernel} {file : ProgramFile} {blocks : List Block}

/-- The buffer and the image: the image has what was in its bytes before the call, and another block's header is not in
it. -/
structure TwoBlocks (file : ProgramFile) (segment : Segment) (s : Kernel) (h a : Nat) (blocks : List Block) : Prop where
  buffer : (s.mem.malloc file.bytes.length).1 = h + 8
  small : h + 8 < 2 ^ 32
  image : imagePointer file segment s = a + 8
  given : ∃ blocks', Mem.Given (filled file s.mem) blocks' a (roundmb (add32 (add32 segment.memsz 8) 8))
    ((filled file s.mem).malloc (add32 segment.memsz 8)).2 blocks
  apart : h + 8 ≤ a ∨ a + roundmb (add32 (add32 segment.memsz 8) 8) ≤ h
  space : a + 8 + payload (add32 segment.memsz 8) < 2 ^ 32
  stale : ∀ x < payload (add32 segment.memsz 8),
    ((filled file s.mem).malloc (add32 segment.memsz 8)).2.ram (a + 8 + x) = s.mem.ram (a + 8 + x)

theorem twoBlocks (heap : s.mem.WellFormed blocks) (bufferGranted : (s.mem.malloc file.bytes.length).1 ≠ 0)
    (imageGranted : imagePointer file segment s ≠ 0) (unwrapped : roundmb (add32 file.bytes.length 8) ≠ 0)
    (fits : file.bytes.length ≤ payload file.bytes.length)
    (unwrapped' : roundmb (add32 (add32 segment.memsz 8) 8) ≠ 0) :
    ∃ h a blocks', TwoBlocks file segment s h a blocks' := by
  obtain ⟨h, blocks₁, buffer, given⟩ := heap.malloc_given file.length_lt bufferGranted unwrapped
  have room : payload file.bytes.length + 8 = roundmb (add32 file.bytes.length 8) :=
    Nat.sub_add_cancel given.room
  have limits := given.limit_lt heap.list
  have outside (x : Nat) (free : x < h + 8 ∨ h + roundmb (add32 file.bytes.length 8) ≤ x) :
      (filled file s.mem).ram x = (s.mem.malloc file.bytes.length).2.ram x := by
    have patched : (filled file s.mem).ram = Patch.patch (s.mem.malloc file.bytes.length).1 file.bytes.length
        (contents file.bytes) (s.mem.malloc file.bytes.length).2.ram := rfl
    rw [patched, buffer]
    apply Patch.patch_outside
    omega
  have heap₁ : (filled file s.mem).WellFormed blocks₁ := given.store fun x free => outside x (by omega)
  have request : add32 segment.memsz 8 < 2 ^ 32 := Nat.mod_lt _ (by decide)
  obtain ⟨a, blocks₂, image, given'⟩ := heap₁.malloc_given request imageGranted unwrapped'
  have limits' := given'.limit_lt heap₁.list
  have room' : payload (add32 segment.memsz 8) + 8 = roundmb (add32 (add32 segment.memsz 8) 8) :=
    Nat.sub_add_cancel given'.room
  -- what is given for the image was free when the buffer was not any more
  have disjoint (x : Nat) (low : a ≤ x) (high : x < a + roundmb (add32 (add32 segment.memsz 8) 8)) :
      ¬ (h ≤ x ∧ x < h + roundmb (add32 file.bytes.length 8)) :=
    ((given.covers x).mp (given'.were_free low high)).2
  have first := disjoint a
  have own := disjoint h
  have large := given.room
  have large' := given'.room
  refine ⟨h, a, blocks₂, buffer, by omega, image, ⟨blocks₁, given'⟩, by omega, by omega, fun x less => ?_⟩
  have apart := disjoint (a + 8 + x) (by omega) (by omega)
  obtain ⟨c, member, start, stop⟩ := given'.within
  rw [given'.fresh (by omega) (by omega), outside _ (by omega), given.kept member (by omega) (by omega)]

/-! ## The whole run -/

variable {r : Execve} {name : List UInt8}

/-- The file is in its buffer. -/
def begun (file : ProgramFile) (s : Kernel) : Loading :=
  { kernel := setRam (filled file s.mem).ram (malloc file.bytes.length (disable s).2).2, base := 0, start := none,
    image := none, allocated := [(s.mem.malloc file.bytes.length).1], freed := [], called := [] }

theorem begun_eq : begun file s =
    { kernel := setRam (Patch.patch (s.mem.malloc file.bytes.length).1 file.bytes.length (contents file.bytes)
        (malloc file.bytes.length (disable s).2).2.mem.ram) (malloc file.bytes.length (disable s).2).2, base := 0,
      start := none, image := none, allocated := [(s.mem.malloc file.bytes.length).1], freed := [], called := [] } := by
  rw [malloc_mem]
  rfl

/-- The way out of a run that has loaded an image. -/
def departed (file : ProgramFile) (s : Kernel) (t : Loading) : Execve :=
  let buffer := (s.mem.malloc file.bytes.length).1
  { t with
    kernel := restore (disable s).1 (free buffer t.kernel), freed := buffer :: t.freed,
    code := add32 t.base (wordAt file.bytes e_entry) ||| 1, stale := true }

theorem elfExecve_image_iff (elf : Elf32 file.bytes phdr) (granted : (s.mem.malloc file.bytes.length).1 ≠ 0) :
    elfExecve program name (some file) s = .ok r ∧ r.start ≠ none ↔
      (file.arrives = file.bytes.length ∧ file.bytes.length ≤ payload file.bytes.length) ∧
        ∃ t, loadImage program file.bytes (begun file s) = .ok t ∧ t.start ≠ none ∧ r = departed file s t := by
  have header := elf.header
  have signed := agree_of_prefix elf.signature
  have entry : readWord file.bytes e_entry = .ok (wordAt file.bytes e_entry) :=
    readWord_inside (by simp only [e_entry]; omega)
  constructor
  · rintro ⟨run, image⟩
    rw [elfExecve] at run
    obtain ⟨⟨elfData, k⟩, allocated, run⟩ := bind_ok.mp run
    obtain ⟨⟨length, k'⟩, read, run⟩ := bind_ok.mp run
    dsimp only at run
    cases elfData with
    | none =>
      split at run
      · cases run
      · obtain ⟨same, compared, -⟩ := bind_ok.mp run
        cases compared
    | some b =>
      obtain ⟨-, unwrapped, rfl⟩ := allocate_some allocated
      have same := allocated.symm.trans (allocate_granted (s := (disable s).2) granted unwrapped)
      cases same
      rw [fread] at read
      split at read
      · next fits =>
        cases read
        split at run
        · -- too few bytes arrived, and there is no image
          cases run
          exact absurd rfl image
        · next whole =>
          rw [not_not] at whole
          have start : (if (some ⟨(s.mem.malloc file.bytes.length).1, roundmb (add32 file.bytes.length 8) - 8⟩ :
              Option Block) = none then [] else file.bytes) = file.bytes := if_neg (by simp)
          rw [start, signed, ok_bind, if_neg (by decide)] at run
          obtain ⟨t, loaded, run⟩ := bind_ok.mp run
          rw [entry, ok_bind] at run
          cases run
          rw [whole] at fits loaded
          exact ⟨⟨whole, fits⟩, t, (congrArg (loadImage program file.bytes) begun_eq).trans loaded, image, rfl⟩
      · cases read
  · rintro ⟨⟨whole, fits⟩, t, loaded, image, rfl⟩
    have unwrapped : roundmb (add32 file.bytes.length 8) ≠ 0 := payload_pos (by omega)
    refine ⟨?_, image⟩
    rw [elfExecve]
    refine bind_ok.mpr ⟨_, allocate_granted granted unwrapped, bind_ok.mpr ⟨_, if_pos (whole.trans_le fits), ?_⟩⟩
    refine (if_neg (not_not.mpr whole)).trans ?_
    have start : (if (some ⟨(s.mem.malloc file.bytes.length).1, roundmb (add32 file.bytes.length 8) - 8⟩ :
        Option Block) = none then [] else file.bytes) = file.bytes := if_neg (by simp)
    refine bind_ok.mpr ⟨true, ?_, ?_⟩
    · exact (congrArg (agree ELFMAG) start).trans signed
    · refine (if_neg (by decide)).trans (bind_ok.mpr ⟨t, ?_, bind_ok.mpr ⟨_, ?_, rfl⟩⟩)
      · rw [whole]
        exact (congrArg (fun bytes => loadImage program bytes _) start).trans
          ((congrArg (loadImage program file.bytes) begun_eq).symm.trans loaded)
      · exact (congrArg (fun bytes => readWord bytes e_entry) start).trans entry

theorem begun_mem : (begun file s).kernel.mem = filled file s.mem := by
  have memory := malloc_mem file.bytes.length (disable s).2
  simp only [begun, setRam, Kernel.setMem, memory]
  rfl

theorem departed_mem :
    (departed file s t).kernel.mem = t.kernel.mem.free (s.mem.malloc file.bytes.length).1 := by
  rw [departed]
  exact free_mem _ _

variable {h a : Nat} {blocks' : List Block}

theorem relocated_inside (sizes : segment.filesz ≤ segment.memsz)
    (inside : ∀ x < segment.memsz, segment.vaddr + x < payload (add32 segment.memsz 8))
    (moved : ∀ a ∈ relocated bytes, segment.vaddr ≤ a ∧ a + 4 ≤ segment.vaddr + segment.filesz) :
    ∀ a ∈ relocated bytes, a + 4 ≤ payload (add32 segment.memsz 8) := by
  intro a member
  obtain ⟨low, high⟩ := moved a member
  have last := inside (segment.filesz - 1) (by omega)
  omega

theorem unwrapped_of_inside (inside : ∀ x < segment.memsz, segment.vaddr + x < payload (add32 segment.memsz 8)) :
    roundmb (add32 (add32 segment.memsz 8) 8) ≠ 0 := by
  cases Nat.eq_zero_or_pos segment.memsz with
  | inl empty =>
    rw [empty]
    decide
  | inr some => exact payload_pos (Nat.zero_lt_of_lt (inside 0 some))

/-- After the way out the image is as the loader and the constructors stored it. -/
theorem departed_ram (two : TwoBlocks file segment s h a blocks') {t : Loading}
    (loaded : ImageLoaded file.bytes segment (a + 8) ((filled file s.mem).malloc (add32 segment.memsz 8)).2 own
      (begun file s) t) {y : Nat} (less : y < payload (add32 segment.memsz 8)) :
    (departed file s t).kernel.mem.ram (a + 8 + y) = t.kernel.mem.ram (a + 8 + y) := by
  obtain ⟨blocks₁, given⟩ := two.given
  have room : payload (add32 segment.memsz 8) + 8 = roundmb (add32 (add32 segment.memsz 8) 8) :=
    Nat.sub_add_cancel given.room
  have same (x : Nat) (outside : ¬ (a ≤ x ∧ x < a + roundmb (add32 (add32 segment.memsz 8) 8))) :
      t.kernel.mem.ram x = ((filled file s.mem).malloc (add32 segment.memsz 8)).2.ram x :=
    loaded.outside x (by omega)
  rw [departed_mem, two.buffer, loaded.mem]
  exact given.free_kept two.small two.apart same (by omega) (by omega)

/-- Nothing is missing on the heap any more. -/
theorem Holds.freeList {live : List Block} (sound : MallocState.Sound 8 ⟨s.mem, live⟩ blocks) {k : Kernel}
    (holds : Holds s live blocks [] k) : k.mem.freeList = s.mem.freeList := by
  obtain ⟨-, bounds, -, blocks', sound', covers⟩ := holds
  rw [show s.mem.freeList = blocks from sound.list.eq_freeList,
    show k.mem.freeList = blocks' from sound'.list.eq_freeList]
  have canonical : Canonical s.mem.minheap s.mem.maxheap blocks' := by
    rw [← bounds.1, ← bounds.2]
    exact sound'.list.canonical
  apply canonical.unique sound.list.canonical
  intro x
  rw [covers x, List.map_nil, covers_nil, or_false]

/-- `kill` gives the image back with the base that the loader returned. -/
theorem Leaves.released {live : List Block} (leaves : Leaves s live blocks r)
    (sound : MallocState.Sound 8 ⟨s.mem, live⟩ blocks) (start : r.start = some p) (image : r.image ≠ none) :
    (free p r.kernel).mem.freeList = s.mem.freeList := by
  cases leaves with
  | nothing holds none => exact absurd none image
  | @image h b holds behind image start' =>
    rw [start, Option.some.injEq] at start'
    rw [start']
    exact Holds.freeList sound (Holds.free [] holds behind)

/-- What was not free is as before. -/
theorem Leaves.frame {live : List Block} (leaves : Leaves s live blocks r) {x : Nat} (outside : ¬ Covers blocks x) :
    r.kernel.mem.ram x = s.mem.ram x := by
  cases leaves with
  | nothing holds => exact holds.frame x outside
  | image holds => exact holds.frame x outside

/-- Where the layout lets the run end, the image is right exactly when `.bss` covers zeros and what it does not cover
behind the bytes of the file is zero already. -/
theorem departed_placed_iff (minds : Minds program own) (two : TwoBlocks file segment s h a blocks')
    (sizes : segment.filesz ≤ segment.memsz) (words : Relocatable file.bytes segment own)
    (inside : ∀ x < segment.memsz, segment.vaddr + x < payload (add32 segment.memsz 8)) {t : Loading}
    (loaded : ImageLoaded file.bytes segment (a + 8) ((filled file s.mem).malloc (add32 segment.memsz 8)).2 own
      (begun file s) t)
    (run : elfExecve program name (some file) s = .ok (departed file s t)) :
    Placed file segment s (a + 8) own (departed file s t) ↔
      (∀ x < segment.filesz, segment.vaddr + x ∉ own →
          (∃ b ∈ sectionWords file.bytes bssName, Words.Under b (segment.vaddr + x)) →
          contents file.bytes (segment.offset + x) = 0) ∧
        ∀ x, segment.filesz ≤ x → x < segment.memsz → segment.vaddr + x ∉ own →
          (∃ b ∈ sectionWords file.bytes bssName, Words.Under b (segment.vaddr + x)) ∨
            s.mem.ram (a + 8 + (segment.vaddr + x)) = 0 := by
  have stays {y : Nat} (less : y < payload (add32 segment.memsz 8)) := departed_ram two loaded less
  have start : (departed file s t).start = some (a + 8) := loaded.start
  have image : (departed file s t).image = some ⟨a + 8, payload (add32 segment.memsz 8)⟩ := loaded.image
  have freed : (departed file s t).freed = [(s.mem.malloc file.bytes.length).1] := by
    rw [departed]
    exact congrArg (_ :: ·) loaded.freed
  have entry : (departed file s t).code = add32 (a + 8) (wordAt file.bytes e_entry) ||| 1 := by
    rw [departed]
    exact congrArg (fun base => add32 base (wordAt file.bytes e_entry) ||| 1) loaded.base
  have called : (departed file s t).called = (sectionWords file.bytes initArrayName).map fun c =>
      Words.load (imageRam file.bytes segment (a + 8)
        ((filled file s.mem).malloc (add32 segment.memsz 8)).2.ram) (a + 8 + c) := loaded.called
  have kept {y : Nat} (less : y < payload (add32 segment.memsz 8)) (free : y ∉ own) :=
    (stays less).trans (loaded.stored y free)
  generalize departed file s t = r at kept start image freed entry called run ⊢
  have stale := two.stale
  generalize ((filled file s.mem).malloc (add32 segment.memsz 8)).2.ram = ram at kept stale called
  have word (b : Nat) (member : b ∈ relocated file.bytes) : Words.load r.kernel.mem.ram (a + 8 + b) =
      Words.load (imageRam file.bytes segment (a + 8) ram) (a + 8 + b) := by
    have below := relocated_inside sizes inside words.inside b member
    apply Words.load_of_bytes
    intro i less
    rw [Nat.add_assoc, kept (by omega) (words.spared b member (b + i) ⟨by omega, by omega⟩)]
  have copied := @imageRam_copied_iff file.bytes ram segment (a + 8) own words
  rw [unmoved_copied_iff] at copied
  have cleared := @unmoved_cleared_iff file.bytes ram segment (a + 8) own
  have zero (x : Nat) (high : x < segment.memsz) := stale (segment.vaddr + x) (inside x high)
  constructor
  · intro placed
    refine ⟨copied.mp ⟨fun b member => ?_, fun x less free outside => ?_⟩, fun x low high free => ?_⟩
    · rw [← word b member]
      exact placed.moved b member
    · rw [← kept (inside x (by omega)) free]
      exact placed.copied x less free outside
    · rw [← zero x high]
      refine cleared.mp (fun x low high free => ?_) x low high free
      rw [← imageRam_behind words.inside low, ← kept (inside x high) free]
      exact placed.cleared x low high free
  · rintro ⟨under, behind⟩
    obtain ⟨moved, rest⟩ := copied.mpr under
    refine ⟨start, entry, fun x less => ?_, fun b member => ?_, ?_, fun x less free outside => ?_,
      fun x low high free => ?_, freed, fun live blocks sound x outside => ?_, fun live blocks sound => ?_⟩
    · have room := inside x less
      rw [image]
      exact ⟨_, rfl, Nat.le_add_right _ _, by simp only [Block.limit]; omega⟩
    · rw [word b member]
      exact moved b member
    · rw [called]
      apply List.map_congr_left
      intro b member
      exact moved b (List.mem_append_right _ member)
    · rw [kept (inside x (by omega)) free]
      exact rest x less free outside
    · rw [kept (inside x high) free, imageRam_behind words.inside low]
      refine cleared.mpr (fun x low high free => ?_) x low high free
      rw [zero x high]
      exact behind x low high free
    · exact (elfExecve_leaves minds.keeps sound run).frame outside
    · exact (elfExecve_leaves minds.keeps sound run).released sound start (by rw [image]; simp)

/-- `elf_execve` leaves the image that the file describes exactly when the file suits it. -/
theorem elfExecve_placed_iff (minds : Minds program own) (heap : s.mem.WellFormed blocks) (elf : Elf32 file.bytes phdr)
    (words : Relocatable file.bytes (segmentAt file.bytes phdr) own)
    (bufferGranted : (s.mem.malloc file.bytes.length).1 ≠ 0)
    (imageGranted : imagePointer file (segmentAt file.bytes phdr) s ≠ 0) :
    (∃ r, elfExecve program name (some file) s = .ok r ∧
        Placed file (segmentAt file.bytes phdr) s (imagePointer file (segmentAt file.bytes phdr) s) own r) ↔
      Suits file (segmentAt file.bytes phdr) s (imagePointer file (segmentAt file.bytes phdr) s) own := by
  have header := elf.header
  have sizes : (segmentAt file.bytes phdr).filesz ≤ (segmentAt file.bytes phdr).memsz := elf.sizes
  have pointer : ((begun file s).kernel.mem.malloc (add32 (segmentAt file.bytes phdr).memsz 8)).1 =
      imagePointer file (segmentAt file.bytes phdr) s := by
    rw [begun_mem, imagePointer]
  have granted := imageGranted
  rw [← pointer] at granted
  -- what the loader does in its two blocks, where the image fits
  have inBlocks (fits : file.bytes.length ≤ payload file.bytes.length)
      (aligned : 8 ∣ imagePointer file (segmentAt file.bytes phdr) s)
      (inside : ∀ x < (segmentAt file.bytes phdr).memsz, (segmentAt file.bytes phdr).vaddr + x <
        payload (add32 (segmentAt file.bytes phdr).memsz 8)) :
      ∃ h a blocks', TwoBlocks file (segmentAt file.bytes phdr) s h a blocks' ∧
        ((∀ t, loadImage program file.bytes (begun file s) = .ok t →
          (∀ b ∈ sectionWords file.bytes bssName, b + 4 ≤ payload (add32 (segmentAt file.bytes phdr).memsz 8)) ∧
            ImageLoaded file.bytes (segmentAt file.bytes phdr) (a + 8)
              ((filled file s.mem).malloc (add32 (segmentAt file.bytes phdr).memsz 8)).2 own (begun file s) t) ∧
        ((∀ b ∈ sectionWords file.bytes bssName, b + 4 ≤ payload (add32 (segmentAt file.bytes phdr).memsz 8)) →
          ∃ t, loadImage program file.bytes (begun file s) = .ok t)) := by
    obtain ⟨h, a, blocks', two⟩ := twoBlocks heap bufferGranted imageGranted (payload_pos (by omega)) fits
      (unwrapped_of_inside inside)
    have malloc : (begun file s).kernel.mem.malloc (add32 (segmentAt file.bytes phdr).memsz 8) =
        (a + 8, ((filled file s.mem).malloc (add32 (segmentAt file.bytes phdr).memsz 8)).2) := by
      rw [← two.image, begun_mem]
      rfl
    rw [two.image] at aligned
    exact ⟨h, a, blocks', two, loadImage_iff minds elf rfl file.length_lt words rfl malloc (by omega) aligned
      (unwrapped_of_inside inside) two.space inside (relocated_inside sizes inside words.inside)⟩
  constructor
  · rintro ⟨r, run, placed⟩
    have loads : r.start ≠ none := by
      rw [placed.start]
      simp
    obtain ⟨⟨whole, fits⟩, t, loaded, -, rfl⟩ := (elfExecve_image_iff elf bufferGranted).mp ⟨run, loads⟩
    obtain ⟨start, image⟩ := loadImage_start elf file.length_lt rfl granted loaded
    rw [pointer] at start image
    have base : imagePointer file (segmentAt file.bytes phdr) s / 8 * 8 =
        imagePointer file (segmentAt file.bytes phdr) s := Option.some.inj (start.symm.trans placed.start)
    have aligned : 8 ∣ imagePointer file (segmentAt file.bytes phdr) s := by omega
    have inside (x : Nat) (less : x < (segmentAt file.bytes phdr).memsz) :
        (segmentAt file.bytes phdr).vaddr + x < payload (add32 (segmentAt file.bytes phdr).memsz 8) := by
      have allocated : Inside t.image _ 1 := placed.allocated x less
      rw [image] at allocated
      obtain ⟨low, high⟩ := Inside.covers.mp allocated
      exact Nat.lt_of_add_lt_add_left high
    obtain ⟨h, a, blocks', two, does⟩ := inBlocks fits aligned inside
    obtain ⟨bss, done⟩ := does.1 t loaded
    rw [two.image] at placed aligned ⊢
    obtain ⟨kept, zero⟩ := (departed_placed_iff minds two sizes words inside done run).mp placed
    exact ⟨whole, fits, aligned, inside, bss, kept, zero⟩
  · rintro ⟨whole, fits, aligned, inside, bss, kept, zero⟩
    obtain ⟨h, a, blocks', two, does⟩ := inBlocks fits aligned inside
    rw [two.image] at zero ⊢
    obtain ⟨t, loaded⟩ := does.2 bss
    obtain ⟨-, done⟩ := does.1 t loaded
    have run := (@elfExecve_image_iff phdr program s file _ name elf bufferGranted).mpr
      ⟨⟨whole, fits⟩, t, loaded, by rw [done.start]; simp, rfl⟩
    exact ⟨_, run.1, (departed_placed_iff minds two sizes words inside done run.1).mpr ⟨kept, zero⟩⟩

/-! ## A program with a constructor -/

/-- The header of the file and of its segment, whose twelve bytes are a function, a word of `.got` and one of
`.init_array`, with a word of `.bss` behind them; the headers of these sections, and their names. -/
def smallProgram : ProgramFile where
  bytes :=
    [0x7f, 69, 76, 70, 1, 1, 1, 0, 0, 0, 0, 0, 0, 0, 0, 0, 2, 0, 40, 0, 1, 0, 0, 0, 0, 0, 0, 0, 52, 0, 0, 0, 96, 0, 0,
     0, 0, 0, 0, 0, 52, 0, 32, 0, 1, 0, 40, 0, 4, 0, 3, 0] ++
    [1, 0, 0, 0, 84, 0, 0, 0, 0, 0, 0, 0, 0, 0, 0, 0, 12, 0, 0, 0, 16, 0, 0, 0, 7, 0, 0, 0, 4, 0, 0, 0] ++
    [0x70, 0x47, 0, 0xbf, 12, 0, 0, 0, 1, 0, 0, 0] ++
    [0, 0, 0, 0, 1, 0, 0, 0, 3, 0, 0, 0, 4, 0, 0, 0, 88, 0, 0, 0, 4, 0, 0, 0, 0, 0, 0, 0, 0, 0, 0, 0, 4, 0, 0, 0,
      0, 0, 0, 0] ++
    [5, 0, 0, 0, 14, 0, 0, 0, 3, 0, 0, 0, 8, 0, 0, 0, 92, 0, 0, 0, 4, 0, 0, 0, 0, 0, 0, 0, 0, 0, 0, 0, 4, 0, 0, 0,
      0, 0, 0, 0] ++
    [17, 0, 0, 0, 8, 0, 0, 0, 3, 0, 0, 0, 12, 0, 0, 0, 96, 0, 0, 0, 4, 0, 0, 0, 0, 0, 0, 0, 0, 0, 0, 0, 4, 0, 0, 0,
      0, 0, 0, 0] ++
    [22, 0, 0, 0, 3, 0, 0, 0, 0, 0, 0, 0, 0, 0, 0, 0, 0, 1, 0, 0, 32, 0, 0, 0, 0, 0, 0, 0, 0, 0, 0, 0, 4, 0, 0, 0,
      0, 0, 0, 0] ++
    [46, 103, 111, 116, 0, 46, 105, 110, 105, 116, 95, 97, 114, 114, 97, 121, 0, 46, 98, 115, 115, 0, 46, 115, 104, 115,
      116, 114, 116, 97, 98, 0]
  arrives := 288
  length_lt := by decide +kernel
  arrives_le := by decide +kernel

/-- Its constructor sets the variable in `.bss`. -/
def setsVariable : ProgramCode := fun image _ s =>
  match image with
  | none => .ok s
  | some b => .ok (if Inside image (b.addr + 12) 1 then setRam (Function.update s.mem.ram (b.addr + 12) 1) s else s)

theorem setsVariable_minds : Minds setsVariable {12} where
  keeps image a s s' called := by
    cases image with
    | none =>
      cases called
      exact ⟨rfl, s.mem.ram, rfl, fun _ _ => rfl⟩
    | some b =>
      cases called
      split
      · next inside =>
        refine ⟨rfl, _, rfl, fun x outside => Function.update_of_ne ?_ _ _⟩
        rintro rfl
        exact outside inside
      · exact ⟨rfl, s.mem.ram, rfl, fun _ _ => rfl⟩
  returns image a s := by
    cases image with
    | none => exact ⟨s, rfl⟩
    | some b => exact ⟨_, rfl⟩
  own b a s s' called x free := by
    cases called
    split
    · exact Function.update_of_ne (free 12 rfl) _ _
    · rfl

theorem smallProgram_elf : Elf32 smallProgram.bytes 52 where
  header := by decide +kernel
  signature := by decide +kernel
  segments := by decide +kernel
  sections := by decide +kernel
  strings := by decide +kernel
  names := by decide +kernel
  load := by decide +kernel
  sizes := by decide +kernel
  content := by decide +kernel

theorem smallProgram_layout : segmentAt smallProgram.bytes 52 = ⟨84, 0, 12, 16⟩ := by
  simp only [segmentAt, Segment.mk.injEq]
  decide +kernel

theorem smallProgram_words :
    relocated smallProgram.bytes = [4, 8] ∧ sectionWords smallProgram.bytes bssName = [12] := by
  decide +kernel

/-- A kernel with nothing in its heap, in memory that is not blank. -/
def usedMemory : Kernel := zeroed MallocState.heapImage int32 fun _ => 0xff

/-- The word of `.got` and the constructor are moved to the base, and the rest of `.bss` is cleared. -/
theorem smallProgram_placed :
    ∃ r, elfExecve setsVariable [0x61] (some smallProgram) usedMemory = .ok r ∧
      Placed smallProgram (segmentAt smallProgram.bytes 52) usedMemory
        (imagePointer smallProgram (segmentAt smallProgram.bytes 52) usedMemory) {12} r := by
  obtain ⟨blocks, sound⟩ := MallocState.start_aligned MallocState.heapImage (by decide) fun _ => 0xff
  have heap : usedMemory.mem.WellFormed blocks := sound.wellFormed
  have words : Relocatable smallProgram.bytes (segmentAt smallProgram.bytes 52) {12} := by
    rw [smallProgram_layout]
    constructor
    · rw [smallProgram_words.1]
      decide
    · rw [smallProgram_words.1]
      decide
    · rw [smallProgram_words.1]
      intro a member x under here
      have either : a = 4 ∨ a = 8 := by simpa using member
      simp only [Words.Under, Set.mem_singleton_iff] at under here
      omega
  apply (elfExecve_placed_iff setsVariable_minds heap smallProgram_elf words (by decide +kernel)
    (by decide +kernel)).mpr
  constructor
  · decide +kernel
  · decide +kernel
  · decide +kernel
  · rw [smallProgram_layout]
    decide
  · rw [smallProgram_layout, smallProgram_words.2]
    decide
  · rw [smallProgram_layout, smallProgram_words.2]
    intro x less _ under
    obtain ⟨a, member, low, high⟩ := under
    rw [List.mem_singleton] at member
    dsimp only at less low
    omega
  · rw [smallProgram_layout, smallProgram_words.2]
    intro x low high _
    left
    exact ⟨12, List.mem_singleton_self 12, by dsimp only at low ⊢; omega, by dsimp only at high ⊢; omega⟩

end Loader

end XinuStm32
