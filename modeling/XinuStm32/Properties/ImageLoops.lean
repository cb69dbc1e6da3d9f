import XinuStm32.Lib.WordUpdates
import XinuStm32.Properties.ElfTables

/-!
# The loops over the image

Each loop of the loader comes to its end exactly when what it stores lies in the block of the image, and then it has
stored what it is for. The loop over `.init_array` calls the constructors on the way: it has moved all words of the
array, and called each where it then points, as long as the constructors leave these words alone.
-/

namespace XinuStm32

namespace Loader

open FreeBlocks

variable {bytes : List UInt8} {name : List UInt8} {b : Block} {f : Nat → Nat} {ram ram' : Nat → UInt8}
  {phdr count : Nat} {t t' : Loading} {program : ProgramCode} {own : Set Nat}

/-- The loop over an array of words: it comes to its end when the array is in the block. -/
theorem eachWord_iff (space : b.limit < 2 ^ 32) {addr i : Nat} (low : addr + 4 * i < 2 ^ 32) :
    eachWord (some b) f (add32 b.addr addr) count i ram = .ok ram' ↔
      (∀ k < count, addr + 4 * (i + k) + 4 ≤ b.size) ∧
        ram' = Words.update f ((List.range count).map fun k => b.addr + (addr + 4 * (i + k))) ram := by
  simp only [Block.limit] at space
  induction count generalizing i ram with
  | zero => simp [eachWord, eq_comm]
  | succ count inductionHypothesis =>
    rw [eachWord]
    by_cases fits : addr + 4 * i + 4 ≤ b.size
    · have word : add32 (add32 b.addr addr) (4 * i) = b.addr + (addr + 4 * i) := by
        simp only [add32]
        omega
      have inside : Inside (some b) (b.addr + (addr + 4 * i)) 4 :=
        ⟨b, rfl, Nat.le_add_right _ _, by simp only [Block.limit]; omega⟩
      rw [word, if_pos inside, inductionHypothesis (by omega), List.range_succ_eq_map, List.map_cons, List.map_map,
        Words.update_cons]
      have next (k : Nat) : i + 1 + k = i + (k + 1) := by omega
      constructor
      · rintro ⟨rest, rfl⟩
        refine ⟨fun k less => ?_, ?_⟩
        · cases k with
          | zero => exact fits
          | succ k =>
            rw [← next]
            exact rest k (by omega)
        · simp only [next, Nat.add_zero, Function.comp_def]
      · rintro ⟨all, rfl⟩
        refine ⟨fun k less => ?_, ?_⟩
        · rw [next]
          exact all (k + 1) (by omega)
        · simp only [next, Nat.add_zero, Function.comp_def]
    · have outside : ¬ Inside (some b) (add32 (add32 b.addr addr) (4 * i)) 4 := by
        rintro ⟨c, member, first, last⟩
        cases member
        simp only [add32, Block.limit] at first last
        omega
      rw [if_neg outside]
      refine iff_of_false (by simp) ?_
      rintro ⟨all, -⟩
      exact fits (all 0 (Nat.succ_pos count))

theorem eachSectionWord_iff (elf : Elf32 bytes phdr) (short : bytes.length < 2 ^ 32) (plain : 0 ∉ name)
    (space : b.limit < 2 ^ 32) :
    eachSectionWord bytes name f b.addr (some b) ram = .ok ram' ↔
      (∀ a ∈ sectionWords bytes name, a + 4 ≤ b.size) ∧
        ram' = Words.update f ((sectionWords bytes name).map (b.addr + ·)) ram := by
  rw [eachSectionWord, elf.findSection short plain, ok_bind]
  cases found : sectionNamed bytes name with
  | none => simp [sectionWords, found, eq_comm]
  | some shdr =>
    have inside := elf.section_inside found
    have words : sectionWords bytes name = (List.range (wordAt bytes (shdr + sh_size) / 4)).map fun k =>
        wordAt bytes (shdr + sh_addr) + 4 * k := by
      rw [sectionWords, found]
      rfl
    have addr : readWord bytes (add32 shdr sh_addr) = .ok (wordAt bytes (shdr + sh_addr)) := by
      rw [add32_of_lt (by simp only [sh_addr]; omega)]
      exact readWord_inside (by simp only [sh_addr]; omega)
    have size : readWord bytes (add32 shdr sh_size) = .ok (wordAt bytes (shdr + sh_size)) := by
      rw [add32_of_lt (by simp only [sh_size]; omega)]
      exact readWord_inside (by simp only [sh_size]; omega)
    dsimp only
    rw [addr, ok_bind, size, ok_bind, eachWord_iff space (by have := wordAt_lt bytes (shdr + sh_addr); omega), words]
    simp only [Nat.zero_add, List.map_map, Function.comp_def, List.forall_mem_map, List.mem_range]

/-- The copy of the segment, where it fits. -/
theorem copySegment_fits (short : bytes.length < 2 ^ 32) (space : b.limit < 2 ^ 32) {src vaddr j : Nat}
    (inFile : src + j + count ≤ bytes.length) (inBlock : vaddr + j + count ≤ b.size) :
    copySegment bytes (some b) src (add32 b.addr vaddr) count j ram =
      .ok (Patch.patch (b.addr + vaddr + j) count (fun i => contents bytes (src + j + i)) ram) := by
  simp only [Block.limit] at space
  induction count generalizing j ram with
  | zero => simp [copySegment]
  | succ count inductionHypothesis =>
    have source : add32 src j = src + j := add32_of_lt (by omega)
    have target : add32 (add32 b.addr vaddr) j = b.addr + vaddr + j := by
      simp only [add32]
      omega
    have read : readByte bytes (src + j) = .ok (contents bytes (src + j)) := if_pos (by omega)
    have inside : Inside (some b) (b.addr + vaddr + j) 1 := by
      refine ⟨b, rfl, by omega, ?_⟩
      simp only [Block.limit]
      omega
    rw [copySegment, source, read, ok_bind, target, if_pos inside, inductionHypothesis (by omega) (by omega),
      ← Patch.patch_cons]
    simp only [Nat.add_assoc, Nat.add_comm 1, Nat.add_zero]

/-! ## Constructors -/

/-- The constructors return. What they store into the image is at places of their own, by their distance from its
beginning. -/
structure Minds (program : ProgramCode) (own : Set Nat) : Prop where
  keeps : StaysInside program
  returns : ∀ image a s, ∃ s', program image a s = .ok s'
  own : ∀ b a s s', program (some b) a s = .ok s' →
    ∀ x, (∀ i ∈ own, x ≠ b.addr + i) → s'.mem.ram x = s.mem.ram x

theorem idle_minds : Minds idle ∅ where
  keeps := idle_stays
  returns _ _ s := ⟨s, rfl⟩
  own b a s s' called x _ := by
    cases called
    rfl

/-- The words at some distances from the beginning of the image are moved and called, and constructors have stored at
their places. -/
structure Constructed (b : Block) (own : Set Nat) (words : List Nat) (t t' : Loading) : Prop where
  noted : t' = { t with
    kernel := t'.kernel
    called := t.called ++ words.map fun a => add32 (Words.load t.kernel.mem.ram (b.addr + a)) b.addr }
  mem : t'.kernel.mem = { t.kernel.mem with ram := t'.kernel.mem.ram }
  outside : ∀ x, ¬ b.Covers x → t'.kernel.mem.ram x = t.kernel.mem.ram x
  moved : ∀ x, (∀ i ∈ own, x ≠ b.addr + i) →
    t'.kernel.mem.ram x = Words.update (add32 · b.addr) (words.map (b.addr + ·)) t.kernel.mem.ram x

/-- The distances from the beginning of the image, from the `i`th word of an array on. -/
def arrayWords (addr i count : Nat) : List Nat := (List.range count).map fun k => addr + 4 * (i + k)

theorem arrayWords_succ {addr i : Nat} :
    arrayWords addr i (count + 1) = (addr + 4 * i) :: arrayWords addr (i + 1) count := by
  rw [arrayWords, List.range_succ_eq_map, List.map_cons, List.map_map, arrayWords]
  congr 1
  apply List.map_congr_left
  intro k _
  simp only [Function.comp_apply]
  omega

/-- One word: it is moved, and its constructor called. -/
theorem constructed_cons (minds : Minds program own) {a : Nat} {words : List Nat} (image : t.image = some b)
    (inside : ∀ c ∈ a :: words, c + 4 ≤ b.size) (apart : (a :: words).Pairwise Words.Apart)
    (spared : ∀ c ∈ a :: words, ∀ x, Words.Under c x → x ∉ own) {k : Kernel}
    (called : program t.image (add32 (Words.load t.kernel.mem.ram (b.addr + a)) b.addr)
      (setRam (Words.store (b.addr + a) (add32 (Words.load t.kernel.mem.ram (b.addr + a)) b.addr) t.kernel.mem.ram)
        t.kernel) = .ok k)
    (rest : Constructed b own words { t with
      kernel := k
      called := t.called ++ [add32 (Words.load t.kernel.mem.ram (b.addr + a)) b.addr] } t') :
    Constructed b own (a :: words) t t' := by
  obtain ⟨noted, mem, outside, moved⟩ := rest
  obtain ⟨-, ram, memory, kept⟩ := minds.keeps _ _ _ _ called
  rw [image] at called kept
  have spares := minds.own _ _ _ _ called
  have ram_eq : k.mem.ram = ram := by rw [memory]
  rw [ram_eq] at spares
  dsimp only at noted mem outside moved
  rw [ram_eq] at noted outside moved
  obtain ⟨first, others⟩ := List.pairwise_cons.mp apart
  -- a place of another word is neither the constructor's nor in this word
  have loads (c : Nat) (member : c ∈ words) :
      Words.load ram (b.addr + c) = Words.load t.kernel.mem.ram (b.addr + c) := by
    apply Words.load_congr
    intro x low high
    have other := first c member
    rw [spares x (by
      intro i mine here
      exact spared c (List.mem_cons_of_mem a member) i ⟨by omega, by omega⟩ mine)]
    apply Words.store_outside
    simp only [Words.Apart] at other
    omega
  constructor
  · rw [noted]
    simp only [List.map_cons, List.append_assoc, List.singleton_append]
    congr 3
    apply List.map_congr_left
    intro c member
    rw [loads c member]
  · rw [mem, memory]
    rfl
  · intro x free
    rw [outside x free, kept x (fun within => free (Inside.covers.mp within))]
    apply Words.store_outside
    have size := inside a List.mem_cons_self
    simp only [Block.Covers, Block.limit] at free
    omega
  · intro x free
    rw [moved x free, List.map_cons, Words.update_cons]
    apply Words.update_congr _ spares free
    intro w member y under i mine here
    obtain ⟨c, among, rfl⟩ := List.mem_map.mp member
    simp only [Words.Under] at under
    exact spared c (List.mem_cons_of_mem a among) i ⟨by omega, by omega⟩ mine

/-- Whatever the constructors do, the loader keeps its notes. -/
theorem callConstructors_noted (ran : callConstructors program bytes t = .ok t') :
    t'.start = t.start ∧ t'.image = t.image := by
  have loop (array count i : Nat) (u : Loading) (ran : runConstructors program array count i u = .ok t') :
      t'.start = u.start ∧ t'.image = u.image := by
    induction count generalizing i u with
    | zero =>
      cases ran
      exact ⟨rfl, rfl⟩
    | succ count inductionHypothesis =>
      rw [runConstructors] at ran
      dsimp only at ran
      split at ran
      · obtain ⟨k, -, ran⟩ := bind_ok.mp ran
        obtain ⟨start, image⟩ := inductionHypothesis _ _ ran
        exact ⟨start, image⟩
      · cases ran
  rw [callConstructors] at ran
  obtain ⟨found, -, ran⟩ := bind_ok.mp ran
  cases found with
  | none =>
    cases ran
    exact ⟨rfl, rfl⟩
  | some shdr =>
    obtain ⟨addr, -, ran⟩ := bind_ok.mp ran
    obtain ⟨size, -, ran⟩ := bind_ok.mp ran
    exact loop _ _ _ _ ran

/-- The loop comes to its end exactly when the array is in the block. -/
theorem runConstructors_iff (minds : Minds program own) (space : b.limit < 2 ^ 32) {addr i : Nat}
    (low : addr + 4 * i < 2 ^ 32) (image : t.image = some b) (base : t.base = b.addr)
    (apart : (arrayWords addr i count).Pairwise Words.Apart)
    (spared : ∀ c ∈ arrayWords addr i count, ∀ x, Words.Under c x → x ∉ own) :
    (∀ t', runConstructors program (add32 b.addr addr) count i t = .ok t' →
        (∀ c ∈ arrayWords addr i count, c + 4 ≤ b.size) ∧ Constructed b own (arrayWords addr i count) t t') ∧
      ((∀ c ∈ arrayWords addr i count, c + 4 ≤ b.size) →
        ∃ t', runConstructors program (add32 b.addr addr) count i t = .ok t') := by
  simp only [Block.limit] at space
  induction count generalizing i t with
  | zero =>
    constructor
    · intro t' ran
      cases ran
      refine ⟨fun c member => absurd member List.not_mem_nil, ?_, rfl, fun _ _ => rfl, fun _ _ => rfl⟩
      simp [arrayWords]
    · exact fun _ => ⟨t, rfl⟩
  | succ count inductionHypothesis =>
    rw [arrayWords_succ] at apart spared ⊢
    rw [runConstructors]
    dsimp only
    by_cases fits : addr + 4 * i + 4 ≤ b.size
    · have word : add32 (add32 b.addr addr) (4 * i) = b.addr + (addr + 4 * i) := by
        simp only [add32]
        omega
      have inside : Inside t.image (b.addr + (addr + 4 * i)) 4 := by
        rw [image]
        exact ⟨b, rfl, Nat.le_add_right _ _, by simp only [Block.limit]; omega⟩
      obtain ⟨k, called⟩ := minds.returns t.image (add32 (Words.load t.kernel.mem.ram (b.addr + (addr + 4 * i))) b.addr)
        (setRam (Words.store (b.addr + (addr + 4 * i))
          (add32 (Words.load t.kernel.mem.ram (b.addr + (addr + 4 * i))) b.addr) t.kernel.mem.ram) t.kernel)
      rw [word, if_pos inside, base, called, ok_bind]
      obtain ⟨sound, complete⟩ := @inductionHypothesis { t with
          kernel := k
          called := t.called ++ [add32 (Words.load t.kernel.mem.ram (b.addr + (addr + 4 * i))) b.addr] }
        (i + 1) (by omega) image base (List.pairwise_cons.mp apart).2
        fun c member => spared c (List.mem_cons_of_mem _ member)
      rw [base] at sound complete
      constructor
      · intro t' ran
        obtain ⟨rest, constructed⟩ := sound t' ran
        have all : ∀ c ∈ (addr + 4 * i) :: arrayWords addr (i + 1) count, c + 4 ≤ b.size := by
          intro c member
          cases List.mem_cons.mp member with
          | inl here => exact here ▸ fits
          | inr behind => exact rest c behind
        refine ⟨all, constructed_cons minds image all apart spared called ?_⟩
        rw [base]
        exact constructed
      · exact fun all => complete fun c member => all c (List.mem_cons_of_mem _ member)
    · have outside : ¬ Inside t.image (add32 (add32 b.addr addr) (4 * i)) 4 := by
        rw [image]
        rintro ⟨c, member, first, last⟩
        cases member
        simp only [add32, Block.limit] at first last
        omega
      rw [if_neg outside]
      constructor
      · intro t' ran
        cases ran
      · exact fun all => absurd (all _ List.mem_cons_self) fits

/-- So does the part of the loader that runs the constructors. -/
theorem callConstructors_iff (minds : Minds program own) (elf : Elf32 bytes phdr) (short : bytes.length < 2 ^ 32)
    (space : b.limit < 2 ^ 32) (image : t.image = some b) (base : t.base = b.addr)
    (apart : (sectionWords bytes initArrayName).Pairwise Words.Apart)
    (spared : ∀ c ∈ sectionWords bytes initArrayName, ∀ x, Words.Under c x → x ∉ own) :
    (∀ t', callConstructors program bytes t = .ok t' → (∀ c ∈ sectionWords bytes initArrayName, c + 4 ≤ b.size) ∧
        Constructed b own (sectionWords bytes initArrayName) t t') ∧
      ((∀ c ∈ sectionWords bytes initArrayName, c + 4 ≤ b.size) →
        ∃ t', callConstructors program bytes t = .ok t') := by
  rw [callConstructors, elf.findSection short (by decide), ok_bind]
  cases found : sectionNamed bytes initArrayName with
  | none =>
    have nothing : sectionWords bytes initArrayName = [] := by simp [sectionWords, found]
    rw [nothing]
    constructor
    · intro t' ran
      cases ran
      refine ⟨fun c member => absurd member List.not_mem_nil, ?_, rfl, fun _ _ => rfl, fun _ _ => rfl⟩
      simp
    · exact fun _ => ⟨t, rfl⟩
  | some shdr =>
    have inside := elf.section_inside found
    have words : sectionWords bytes initArrayName =
        arrayWords (wordAt bytes (shdr + sh_addr)) 0 (wordAt bytes (shdr + sh_size) / 4) := by
      rw [sectionWords, found]
      simp only [Option.elim_some, arrayWords, Nat.zero_add]
    have addr : readWord bytes (add32 shdr sh_addr) = .ok (wordAt bytes (shdr + sh_addr)) := by
      rw [add32_of_lt (by simp only [sh_addr]; omega)]
      exact readWord_inside (by simp only [sh_addr]; omega)
    have size : readWord bytes (add32 shdr sh_size) = .ok (wordAt bytes (shdr + sh_size)) := by
      rw [add32_of_lt (by simp only [sh_size]; omega)]
      exact readWord_inside (by simp only [sh_size]; omega)
    rw [words] at apart spared ⊢
    dsimp only
    rw [addr, ok_bind, size, ok_bind, base]
    have start := wordAt_lt bytes (shdr + sh_addr)
    exact runConstructors_iff minds space (by omega) image base apart spared

end Loader

end XinuStm32
