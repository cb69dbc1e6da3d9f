import XinuStm32.Properties.LoaderHeap

/-!
# The tables of an ELF file

A file whose tables lie inside it, with the names of its sections and the content of its one loadable segment. In such a
file the loader finds the sections by their names, and the segment: none of its reads leaves the buffer.
-/

namespace XinuStm32

namespace Loader

/-! ## The file -/

/-- Where the entries of a table are: `count` of them, each of `entsize` bytes, the first at `start`. -/
def entries (start entsize count : Nat) : List Nat := (List.range count).map fun i => start + i * entsize

def programHeaders (bytes : List UInt8) : List Nat :=
  entries (wordAt bytes e_phoff) (halfAt bytes e_phentsize) (halfAt bytes e_phnum)

def sectionHeaders (bytes : List UInt8) : List Nat :=
  entries (wordAt bytes e_shoff) (halfAt bytes e_shentsize) (halfAt bytes e_shnum)

/-- The header of the section that holds the names. -/
def stringHeader (bytes : List UInt8) : Nat :=
  wordAt bytes e_shoff + halfAt bytes e_shstrndx * halfAt bytes e_shentsize

/-- The file from the name of a section on. -/
def nameText (bytes : List UInt8) (shdr : Nat) : List UInt8 :=
  bytes.drop (wordAt bytes (stringHeader bytes + sh_off) + wordAt bytes (shdr + sh_name))

/-- The section of this name; the first, if there are more. -/
def sectionNamed (bytes : List UInt8) (name : List UInt8) : Option Nat :=
  (sectionHeaders bytes).find? fun shdr => (name ++ [0]).isPrefixOf (nameText bytes shdr)

/-- The addresses of the words of the section of this name, in the image. -/
def sectionWords (bytes : List UInt8) (name : List UInt8) : List Nat :=
  (sectionNamed bytes name).elim [] fun shdr =>
    (List.range (wordAt bytes (shdr + sh_size) / 4)).map fun k => wordAt bytes (shdr + sh_addr) + 4 * k

/-- A file in the format, with the header of its one loadable segment. -/
structure Elf32 (bytes : List UInt8) (phdr : Nat) : Prop where
  header : 52 ≤ bytes.length
  signature : ELFMAG <+: bytes
  segments : ∀ p ∈ programHeaders bytes, p + 32 ≤ bytes.length
  sections : ∀ shdr ∈ sectionHeaders bytes, shdr + 40 ≤ bytes.length
  strings : sectionHeaders bytes ≠ [] → stringHeader bytes ∈ sectionHeaders bytes
  names : ∀ shdr ∈ sectionHeaders bytes, 0 ∈ nameText bytes shdr
  load : (programHeaders bytes).filter (fun p => wordAt bytes (p + p_type) = PT_LOAD) = [phdr]
  sizes : wordAt bytes (phdr + p_filesz) ≤ wordAt bytes (phdr + p_memsz)
  content : wordAt bytes (phdr + p_offset) + wordAt bytes (phdr + p_filesz) ≤ bytes.length

variable {bytes name text : List UInt8} {phdr start entsize count : Nat}

theorem Elf32.phdr_inside (elf : Elf32 bytes phdr) : phdr + 32 ≤ bytes.length := by
  apply elf.segments
  apply List.mem_of_mem_filter
  rw [elf.load]
  exact List.mem_singleton_self phdr

/-! ## Reads inside the file -/

theorem readHalf_inside {a : Nat} (inside : a + 2 ≤ bytes.length) : readHalf bytes a = .ok (halfAt bytes a) :=
  if_pos inside

theorem readWord_inside {a : Nat} (inside : a + 4 ≤ bytes.length) : readWord bytes a = .ok (wordAt bytes a) :=
  if_pos inside

theorem wordAt_lt (bytes : List UInt8) (a : Nat) : wordAt bytes a < 2 ^ 32 := Words.load_lt _ _

/-! ## Comparing a name -/

theorem agree_of_prefix (same : text <+: bytes) : agree text bytes = .ok true := by
  induction text generalizing bytes with
  | nil => rfl
  | cons c text inductionHypothesis =>
    obtain ⟨rest, rfl⟩ := same
    rw [List.cons_append, agree, if_pos rfl]
    exact inductionHypothesis (List.prefix_append text rest)

/-- `strcmp` with a text that ends inside the buffer. -/
theorem agree_text (plain : 0 ∉ name) (ends : 0 ∈ text) :
    agree (name ++ [0]) text = .ok ((name ++ [0]).isPrefixOf text) := by
  induction name generalizing text with
  | nil =>
    cases text with
    | nil => cases ends
    | cons b text =>
      rw [List.nil_append, agree, List.isPrefixOf, List.isPrefixOf, Bool.and_true, agree]
      by_cases same : b = 0
      · rw [if_pos same, same]
        rfl
      · rw [if_neg same, beq_false_of_ne (Ne.symm same)]
  | cons c name inductionHypothesis =>
    rw [List.mem_cons, not_or] at plain
    obtain ⟨first, rest⟩ := plain
    cases text with
    | nil => cases ends
    | cons b text =>
      rw [List.cons_append, agree, List.isPrefixOf]
      by_cases same : b = c
      · subst same
        rw [if_pos rfl, inductionHypothesis rest ((List.mem_cons.mp ends).resolve_left first), beq_self_eq_true,
          Bool.true_and]
      · rw [if_neg same, beq_false_of_ne (Ne.symm same), Bool.false_and]

/-! ## Walking along a table -/

theorem entries_succ : entries start entsize (count + 1) = start :: entries (start + entsize) entsize count := by
  rw [entries, List.range_succ_eq_map, List.map_cons, List.map_map, Nat.zero_mul, Nat.add_zero, entries]
  congr 1
  apply List.map_congr_left
  intro i _
  simp only [Function.comp_apply, Nat.succ_eq_add_one, Nat.add_mul, Nat.one_mul]
  omega

/-- The pointer to the next entry does not wrap as long as there is one. -/
theorem entries_next {size : Nat} (short : bytes.length < 2 ^ 32) (positive : 0 < size)
    (inside : ∀ p ∈ entries (start + entsize) entsize count, p + size ≤ bytes.length) :
    count = 0 ∨ add32 start entsize = start + entsize := by
  cases count with
  | zero => exact .inl rfl
  | succ count =>
    have next := inside (start + entsize) (by rw [entries_succ]; exact List.mem_cons_self)
    exact .inr (add32_of_lt (by omega))

/-- The search for a section among the headers from one on. -/
theorem findSectionLoop_entries (short : bytes.length < 2 ^ 32) (plain : 0 ∉ name)
    (strings : stringHeader bytes + 40 ≤ bytes.length)
    (inside : ∀ shdr ∈ entries start entsize count, shdr + 40 ≤ bytes.length)
    (names : ∀ shdr ∈ entries start entsize count, 0 ∈ nameText bytes shdr) :
    findSectionLoop bytes entsize (stringHeader bytes) name count start =
      .ok ((entries start entsize count).find? fun shdr => (name ++ [0]).isPrefixOf (nameText bytes shdr)) := by
  induction count generalizing start with
  | zero => rfl
  | succ count inductionHypothesis =>
    rw [entries_succ] at inside names ⊢
    obtain ⟨here, behind⟩ := List.forall_mem_cons.mp inside
    obtain ⟨named, others⟩ := List.forall_mem_cons.mp names
    have table : readWord bytes (add32 (stringHeader bytes) sh_off) =
        .ok (wordAt bytes (stringHeader bytes + sh_off)) := by
      rw [add32_of_lt (by simp only [sh_off]; omega)]
      exact readWord_inside (by simp only [sh_off]; omega)
    have index : readWord bytes (add32 start sh_name) = .ok (wordAt bytes (start + sh_name)) := by
      rw [add32_of_lt (by simp only [sh_name]; omega)]
      exact readWord_inside (by simp only [sh_name]; omega)
    -- the name begins inside the file, so the pointer to it does not wrap
    have pointer : add32 (wordAt bytes (stringHeader bytes + sh_off)) (wordAt bytes (start + sh_name)) =
        wordAt bytes (stringHeader bytes + sh_off) + wordAt bytes (start + sh_name) := by
      apply add32_of_lt
      by_contra beyond
      rw [nameText, List.drop_eq_nil_of_le (by omega)] at named
      cases named
    rw [findSectionLoop, table, ok_bind, index, ok_bind, pointer]
    change (agree (name ++ [0]) (nameText bytes start) >>= fun same => _) = _
    rw [agree_text plain named, ok_bind, List.find?_cons]
    cases (name ++ [0]).isPrefixOf (nameText bytes start) with
    | true => rfl
    | false =>
      obtain last | next := entries_next short (by decide : 0 < 40) behind
      · subst last
        rfl
      · change findSectionLoop bytes entsize (stringHeader bytes) name count (add32 start entsize) = _
        rw [next, inductionHypothesis behind others]

/-- `elf_find_section` finds the section. -/
theorem Elf32.findSection (elf : Elf32 bytes phdr) (short : bytes.length < 2 ^ 32) (plain : 0 ∉ name) :
    findSection bytes name = .ok (sectionNamed bytes name) := by
  have header := elf.header
  rw [Loader.findSection, readWord_inside (by simp only [e_shoff]; omega), ok_bind,
    readHalf_inside (by simp only [e_shstrndx]; omega), ok_bind,
    readHalf_inside (by simp only [e_shentsize]; omega), ok_bind,
    readHalf_inside (by simp only [e_shnum]; omega), ok_bind]
  by_cases empty : sectionHeaders bytes = []
  · have none : halfAt bytes e_shnum = 0 := by simpa [sectionHeaders, entries] using empty
    rw [sectionNamed, empty, none]
    rfl
  · have strings := elf.sections _ (elf.strings empty)
    have table : add32 (wordAt bytes e_shoff) (halfAt bytes e_shstrndx * halfAt bytes e_shentsize) =
        stringHeader bytes := add32_of_lt (by rw [stringHeader] at strings; omega)
    rw [table]
    exact findSectionLoop_entries short plain strings elf.sections elf.names

theorem Elf32.section_inside (elf : Elf32 bytes phdr) {shdr : Nat} (found : sectionNamed bytes name = some shdr) :
    shdr + 40 ≤ bytes.length := elf.sections shdr (List.mem_of_find?_eq_some found)

/-! ## The loadable segment -/

variable {t : Loading}

theorem loadSegments_none (short : bytes.length < 2 ^ 32)
    (inside : ∀ p ∈ entries start entsize count, p + 32 ≤ bytes.length)
    (none : (entries start entsize count).filter (fun p => wordAt bytes (p + p_type) = PT_LOAD) = []) :
    loadSegments bytes entsize count start t = .ok t := by
  induction count generalizing start with
  | zero => rfl
  | succ count inductionHypothesis =>
    rw [entries_succ] at inside none
    obtain ⟨here, behind⟩ := List.forall_mem_cons.mp inside
    have type : readWord bytes (add32 start p_type) = .ok (wordAt bytes (start + p_type)) := by
      rw [add32_of_lt (by simp only [p_type]; omega)]
      exact readWord_inside (by simp only [p_type]; omega)
    rw [List.filter_cons] at none
    split at none
    · cases none
    · next other =>
      rw [decide_eq_true_eq] at other
      rw [loadSegments, type, ok_bind, if_neg other, ok_bind]
      obtain last | next := entries_next short (by decide : 0 < 32) behind
      · subst last
        rfl
      · dsimp only
        rw [next, inductionHypothesis behind none]

/-- Of the headers from one on, one is that of a segment to load. -/
theorem loadSegments_one (short : bytes.length < 2 ^ 32)
    (inside : ∀ p ∈ entries start entsize count, p + 32 ≤ bytes.length)
    (load : (entries start entsize count).filter (fun p => wordAt bytes (p + p_type) = PT_LOAD) = [phdr]) :
    loadSegments bytes entsize count start t = loadSegment bytes phdr t := by
  induction count generalizing start with
  | zero => cases load
  | succ count inductionHypothesis =>
    rw [entries_succ] at inside load
    obtain ⟨here, behind⟩ := List.forall_mem_cons.mp inside
    have type : readWord bytes (add32 start p_type) = .ok (wordAt bytes (start + p_type)) := by
      rw [add32_of_lt (by simp only [p_type]; omega)]
      exact readWord_inside (by simp only [p_type]; omega)
    have next := entries_next short (by decide : 0 < 32) behind
    rw [List.filter_cons] at load
    rw [loadSegments, type, ok_bind]
    split at load
    · next this =>
      obtain ⟨rfl, rest⟩ := List.cons.inj load
      rw [decide_eq_true_eq] at this
      rw [if_pos this]
      cases loaded : loadSegment bytes start t with
      | error stop => rfl
      | ok t' =>
        rw [ok_bind]
        obtain last | next := next
        · subst last
          rfl
        · dsimp only
          rw [next, loadSegments_none short behind rest]
    · next other =>
      rw [decide_eq_true_eq] at other
      rw [if_neg other, ok_bind]
      obtain last | next := next
      · subst last
        cases load
      · dsimp only
        rw [next, inductionHypothesis behind load]

theorem Elf32.loadSegments (elf : Elf32 bytes phdr) (short : bytes.length < 2 ^ 32) :
    loadSegments bytes (halfAt bytes e_phentsize) (halfAt bytes e_phnum) (wordAt bytes e_phoff) t =
      loadSegment bytes phdr t :=
  loadSegments_one short elf.segments elf.load

end Loader

end XinuStm32
