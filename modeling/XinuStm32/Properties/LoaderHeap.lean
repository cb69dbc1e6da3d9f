import XinuStm32.Kernel.Loader
import XinuStm32.Properties.HeapFrame

/-!
# The heap under the loader

Whatever the file says, a run of `elf_execve` that comes to its end has taken two blocks from the heap at most, the
buffer and the image, stored nothing outside them, and given the buffer back. So the heap is as before but for the block
of the image.
-/

namespace XinuStm32

namespace Loader

open FreeBlocks MallocState

/-! ## Blocks that are held -/

/-- The block behind the header `h`. -/
structure Behind (h b : Block) : Prop where
  addr : b.addr = h.addr + 8
  limit : b.limit = (span h).limit

/-- The kernel is as `s` was, but that the loader may have stored into the blocks it holds and these are taken from the
heap. What was not free keeps its bytes. -/
structure Holds (s : Kernel) (live blocks held : List Block) (k : Kernel) : Prop where
  table : k.proctab = s.proctab
  bounds : k.mem.minheap = s.mem.minheap ∧ k.mem.maxheap = s.mem.maxheap
  frame : ∀ x, ¬ Covers blocks x → k.mem.ram x = s.mem.ram x
  heap : ∃ blocks', MallocState.Sound 8 ⟨k.mem, held ++ live⟩ blocks' ∧
    ∀ x, Covers blocks x ↔ Covers blocks' x ∨ Covers (held.map span) x

variable {s k k' : Kernel} {live blocks held : List Block} {h b : Block} {n : Nat} {block : Option Block}

theorem Holds.nothing (sound : MallocState.Sound 8 ⟨s.mem, live⟩ blocks) : Holds s live blocks [] s :=
  ⟨rfl, ⟨rfl, rfl⟩, fun _ _ => rfl, blocks, sound, fun x => by simp⟩

/-- Interrupts are none of the heap's business. -/
theorem Holds.congr (holds : Holds s live blocks held k) (table : k'.proctab = k.proctab) (mem : k'.mem = k.mem) :
    Holds s live blocks held k' := by
  obtain ⟨same, bounds, frame, heap⟩ := holds
  rw [← table] at same
  rw [← mem] at bounds frame heap
  exact ⟨same, bounds, frame, heap⟩

/-- `malloc` writes where the heap was free. -/
theorem malloc_frame {m : Mem} (sound : MallocState.Sound 8 ⟨m, live⟩ blocks) (small : n < 2 ^ 32)
    (granted : (m.malloc n).1 ≠ 0) (unwrapped : roundmb (add32 n 8) ≠ 0) {blocks' : List Block}
    (next : (m.malloc n).2.FreeList blocks') (roomy : Mem.Roomy blocks') {x : Nat} (outside : ¬ Covers blocks x) :
    (m.malloc n).2.ram x = m.ram x := by
  obtain ⟨a, blocks₁, -, given⟩ := sound.wellFormed.malloc_given small granted unwrapped
  have same : blocks₁ = blocks' := by
    rw [← given.heap.list.eq_freeList, ← next.eq_freeList]
  subst same
  apply given.edits.ram
  rw [covers_cons, Mem.covers_headers]
  intro edited
  cases edited with
  | inl own =>
    have room := given.room
    simp only [Block.Covers, Block.limit] at own
    exact outside (given.were_free own.1 (by omega))
  | inr other =>
    obtain ⟨c, member, low, high⟩ := other
    have size := roomy c member
    have free : Covers blocks₁ x := ⟨c, member, low, by simp only [Block.limit]; omega⟩
    exact outside ((given.covers x).mp free).1

@[simp] theorem malloc_pointer (n : Nat) (k : Kernel) : (malloc n k).1 = (k.mem.malloc n).1 := by
  simp only [malloc]
  split <;> rfl

@[simp] theorem malloc_mem (n : Nat) (k : Kernel) : (malloc n k).2.mem = (k.mem.malloc n).2 := by
  simp only [malloc]
  split
  · next nothing =>
    rw [nothing]
    rfl
  · rfl

@[simp] theorem malloc_proctab (n : Nat) (k : Kernel) : (malloc n k).2.proctab = k.proctab := by
  simp only [malloc]
  split
  · rfl
  · simp only [getmem]
    split <;> rfl

theorem allocate_eq (n : Nat) (k : Kernel) :
    Loader.allocate n k =
      if (k.mem.malloc n).1 = 0 then .ok (none, (malloc n k).2)
      else if roundmb (add32 n 8) = 0 then .error .outside
      else .ok (some ⟨(k.mem.malloc n).1, roundmb (add32 n 8) - 8⟩, (malloc n k).2) := by
  rw [Loader.allocate, ← malloc_pointer]

theorem Holds.allocate (holds : Holds s live blocks held k) (small : n < 2 ^ 32)
    (allocated : Loader.allocate n k = .ok (block, k')) :
    (block = none ∧ Holds s live blocks held k') ∨
      ∃ b h, block = some b ∧ Behind h b ∧ 8 ∣ b.addr ∧ 0 < b.addr ∧ Holds s live blocks (h :: held) k' := by
  have before := holds
  obtain ⟨table, bounds, frame, blocks', sound, covers⟩ := holds
  rw [allocate_eq] at allocated
  by_cases refused : Mem.Refused blocks' n
  · have null := sound.wellFormed.malloc_null refused
    rw [null] at allocated
    simp only [if_true, Except.ok.injEq, Prod.mk.injEq] at allocated
    obtain ⟨rfl, rfl⟩ := allocated
    have same : (malloc n k).2.mem = k.mem := by rw [malloc_mem, null]
    exact .inl ⟨rfl, before.congr (malloc_proctab n k) same⟩
  · by_cases unwrapped : roundmb (add32 n 8) = 0
    · -- an empty block has no room for the header
      obtain ⟨a, m', blocks'', taken, clear, returns⟩ := sound.wellFormed.malloc_block small refused
      rw [returns] at allocated
      simp [unwrapped] at allocated
    · obtain ⟨a, blocks'', pointer, next, bounds', covers'⟩ :=
        sound.malloc_block small refused unwrapped (MallocState.spacious_eight _)
      simp only [pointer, Nat.add_eq_zero_iff, unwrapped, if_false, and_false, Except.ok.injEq, Prod.mk.injEq,
        OfNat.ofNat_ne_zero] at allocated
      obtain ⟨rfl, rfl⟩ := allocated
      have header := next.held ⟨a, add32 n 8⟩ List.mem_cons_self
      have whole : Mem.rounded (add32 n 8) = roundmb (add32 n 8) := by
        symm
        apply Mem.roundmb_of_lt
        by_contra wraps
        exact unwrapped (Mem.roundmb_zero (Nat.mod_lt _ (by decide)) (not_lt.mp wraps))
      have room := le_rounded_of_pos header.nonempty
      have stores : Holds s live blocks (⟨a, add32 n 8⟩ :: held) (k.setMem (k.mem.malloc n).2) := by
        refine ⟨table, ⟨bounds'.1.trans bounds.1, bounds'.2.trans bounds.2⟩, fun x outside => ?_, blocks'', next,
          fun x => ?_⟩
        · rw [covers x, not_or] at outside
          have granted : (k.mem.malloc n).1 ≠ 0 := by
            rw [pointer]
            exact Nat.succ_ne_zero _
          rw [← frame x (by rw [covers x, not_or]; exact outside)]
          exact malloc_frame sound small granted unwrapped next.list next.roomy outside.1
        · rw [covers, covers', List.map_cons, covers_cons]
          tauto
      refine .inr ⟨_, ⟨a, add32 n 8⟩, rfl, ⟨rfl, ?_⟩, Nat.dvd_add header.aligned (Nat.dvd_refl 8), Nat.succ_pos _,
        stores.congr (malloc_proctab n k) (malloc_mem n k)⟩
      simp only [Block.limit, span, whole] at room ⊢
      omega

/-- Stores behind the header of a block that is held. -/
theorem Holds.setRam (holds : Holds s live blocks held k) (member : h ∈ held) (behind : Behind h b)
    {ram : Nat → UInt8} (same : ∀ x, ¬ b.Covers x → ram x = k.mem.ram x) :
    Holds s live blocks held (Loader.setRam ram k) := by
  obtain ⟨table, bounds, frame, blocks', sound, covers⟩ := holds
  have among : h ∈ held ++ live := List.mem_append_left live member
  have inside {x : Nat} (mine : b.Covers x) : (span h).Covers x ∧ h.addr + 8 ≤ x := by
    obtain ⟨low, high⟩ := mine
    rw [behind.addr] at low
    rw [behind.limit] at high
    exact ⟨⟨Nat.le_trans (Nat.le_add_right _ 8) low, high⟩, low⟩
  have stores : MallocState.Stores ⟨k.mem, held ++ live⟩ { k.mem with ram } := by
    refine ⟨⟨rfl, rfl⟩, ⟨rfl, rfl⟩, fun x free => ?_, fun c other x low high => ?_⟩
    · apply same
      intro mine
      rw [show k.mem.freeList = blocks' from sound.list.eq_freeList] at free
      exact sound.taken x (covers_span among (inside mine).1) free
    · apply same
      intro mine
      -- the header is another block's, or in front of the bytes of this one
      by_cases own : c = h
      · have behind := (inside mine).2
        rw [own] at high
        omega
      · have symmetric : Std.Symm fun b c => Apart (span b) (span c) := ⟨fun _ _ apart => apart.symm⟩
        have apart := sound.apart.forall other among own
        have header := (sound.held c other).header low high
        have mine := (inside mine).1
        simp only [Apart, Block.Covers] at apart header mine
        omega
  refine ⟨table, bounds, fun x outside => ?_, blocks', sound.store_step stores, covers⟩
  rw [← frame x outside]
  apply same
  intro mine
  exact outside ((covers x).mpr (.inr (covers_span member (inside mine).1)))

theorem free_proctab (pmem : Nat) (s : Kernel) : (XinuStm32.free pmem s).proctab = s.proctab := by
  rw [XinuStm32.free]
  split
  · rfl
  · rw [freemem]
    exact apply_ite (fun s : Kernel => s.proctab) _ _ _ |>.trans (ite_self _)

/-- The block that was taken first goes back. -/
theorem Holds.free (front : List Block) (holds : Holds s live blocks (front ++ [h]) k) (behind : Behind h b) :
    Holds s live blocks front (XinuStm32.free b.addr k) := by
  obtain ⟨table, bounds, frame, blocks', sound, covers⟩ := holds
  rw [List.append_assoc, List.singleton_append] at sound
  have member : h ∈ front ++ h :: live := by simp
  obtain ⟨blocks'', returned⟩ := sound.free_returns member
  obtain ⟨blocks₂, next⟩ := sound.free_step
  have same : blocks₂ = blocks'' := by
    rw [← next.list.eq_freeList, ← returned.list.eq_freeList]
  rw [same] at next
  refine ⟨(free_proctab _ k).trans table, ?_, fun x outside => ?_, blocks'', ?_, fun x => ?_⟩
  · rw [free_mem, behind.addr]
    exact ⟨returned.bounds.1.trans bounds.1, returned.bounds.2.trans bounds.2⟩
  · rw [free_mem, behind.addr, ← frame x outside]
    apply returned.edits.ram
    rw [covers_cons]
    rintro (own | free)
    · exact outside ((covers x).mpr (.inr (covers_span (List.mem_append_right _ List.mem_cons_self) own)))
    · exact outside ((covers x).mpr (.inl free))
  · rw [free_mem, behind.addr]
    exact next
  · rw [covers, returned.covers, List.map_append, covers_append, List.map_cons, List.map_nil, covers_cons, covers_nil]
    simp only [Block.Covers, Block.limit, span]
    tauto

/-! ## Stores into the image -/

variable {bytes : List UInt8} {ram ram' : Nat → UInt8} {f : Nat → Nat} {src dst array count j : Nat}

theorem inside_byte {a x : Nat} (inside : Inside block a count) (low : a ≤ x) (high : x < a + count) :
    Inside block x 1 := by
  obtain ⟨b, member, first, last⟩ := inside
  exact ⟨b, member, by omega, by omega⟩

/-- A computation that came to its end did so step by step. -/
theorem bind_ok {α β : Type} {x : Except Stop α} {f : α → Except Stop β} {r : β} :
    (x >>= f) = .ok r ↔ ∃ a, x = .ok a ∧ f a = .ok r := by
  cases x with
  | error stop => simp [bind, Except.bind]
  | ok a => simp [bind, Except.bind]

theorem ok_bind {α β : Type} (a : α) (f : α → Except Stop β) : (Except.ok a >>= f) = f a := rfl

theorem store_outside_image {a x : Nat} (ram : Nat → UInt8) (value : Nat) (inside : Inside block a 4)
    (outside : ¬ Inside block x 1) : Words.store a value ram x = ram x := by
  apply Words.store_outside
  by_contra within
  exact outside (inside_byte inside (by omega) (by omega))

theorem copySegment_outside (copied : copySegment bytes block src dst count j ram = .ok ram') {x : Nat}
    (outside : ¬ Inside block x 1) : ram' x = ram x := by
  induction count generalizing j ram with
  | zero =>
    cases copied
    rfl
  | succ count inductionHypothesis =>
    rw [copySegment] at copied
    obtain ⟨value, -, copied⟩ := bind_ok.mp copied
    split at copied
    · next inside =>
      rw [inductionHypothesis copied, Function.update_of_ne]
      rintro rfl
      exact outside inside
    · cases copied

theorem eachWord_outside (stored : eachWord block f array count j ram = .ok ram') {x : Nat}
    (outside : ¬ Inside block x 1) : ram' x = ram x := by
  induction count generalizing j ram with
  | zero =>
    cases stored
    rfl
  | succ count inductionHypothesis =>
    rw [eachWord] at stored
    split at stored
    · next inside =>
      rw [inductionHypothesis stored]
      exact store_outside_image ram _ inside outside
    · cases stored

theorem eachSectionWord_outside {name : List UInt8} {base : Nat}
    (stored : eachSectionWord bytes name f base block ram = .ok ram') {x : Nat} (outside : ¬ Inside block x 1) :
    ram' x = ram x := by
  rw [eachSectionWord] at stored
  obtain ⟨found, -, stored⟩ := bind_ok.mp stored
  cases found with
  | none =>
    cases stored
    rfl
  | some shdr =>
    obtain ⟨addr, -, stored⟩ := bind_ok.mp stored
    obtain ⟨size, -, stored⟩ := bind_ok.mp stored
    exact eachWord_outside stored outside

/-! ## Constructors -/

/-- What constructors may do: they store into the image they were loaded with. -/
def StaysInside (program : ProgramCode) : Prop :=
  ∀ image a s s', program image a s = .ok s' → s'.proctab = s.proctab ∧
    ∃ ram, s'.mem = { s.mem with ram } ∧ ∀ x, ¬ Inside image x 1 → ram x = s.mem.ram x

/-- Constructors that do nothing. -/
def idle : ProgramCode := fun _ _ s => .ok s

theorem idle_stays : StaysInside idle := by
  intro image a s s' called
  cases called
  exact ⟨rfl, s.mem.ram, rfl, fun _ _ => rfl⟩

/-! ## Runs -/

/-- What the loader holds on the way: the buffer, and the image once there is one, at its base. -/
inductive LoadsInto (s : Kernel) (live blocks : List Block) (buffer : Block) (t : Loading) : Prop
  | before (holds : Holds s live blocks [buffer] t.kernel) (image : t.image = none) (base : t.base = 0)
  | behind {h b : Block} (holds : Holds s live blocks [h, buffer] t.kernel) (behind : Behind h b)
      (image : t.image = some b) (base : t.base = b.addr) (positive : 0 < b.addr) (start : t.start = some b.addr)

variable {buffer : Block} {t t' : Loading}

theorem Inside.covers {x : Nat} : Inside (some b) x 1 ↔ b.Covers x := by
  constructor
  · rintro ⟨c, member, low, high⟩
    rw [Option.mem_some_iff.mp member]
    exact ⟨low, high⟩
  · rintro ⟨low, high⟩
    exact ⟨b, rfl, low, high⟩

/-- Stores into the image. -/
theorem LoadsInto.store (loads : LoadsInto s live blocks buffer t)
    (same : ∀ x, ¬ Inside t.image x 1 → ram x = t.kernel.mem.ram x) :
    LoadsInto s live blocks buffer { t with kernel := Loader.setRam ram t.kernel } := by
  cases loads with
  | before holds image base =>
    have unchanged : ram = t.kernel.mem.ram := by
      funext x
      apply same
      rw [image]
      rintro ⟨b, member, -⟩
      cases member
    exact .before (holds.congr rfl (by rw [unchanged]; rfl)) image base
  | behind holds behind image base positive start =>
    refine .behind (holds.setRam List.mem_cons_self behind fun x other => same x ?_) behind image base positive start
    rw [image, Inside.covers]
    exact other

theorem loadSegment_loads {phdr : Nat} (loads : LoadsInto s live blocks buffer t)
    (loaded : loadSegment bytes phdr t = .ok t') : LoadsInto s live blocks buffer t' := by
  rw [loadSegment] at loaded
  split at loaded
  · cases loaded
  · next first =>
    rw [not_not] at first
    obtain ⟨memsz, -, loaded⟩ := bind_ok.mp loaded
    obtain ⟨⟨image, kernel⟩, allocated, loaded⟩ := bind_ok.mp loaded
    obtain ⟨offset, -, loaded⟩ := bind_ok.mp loaded
    obtain ⟨vaddr, -, loaded⟩ := bind_ok.mp loaded
    obtain ⟨filesz, -, loaded⟩ := bind_ok.mp loaded
    obtain ⟨ram, copied, loaded⟩ := bind_ok.mp loaded
    have same (x : Nat) (outside : ¬ Inside image x 1) : ram x = kernel.mem.ram x := copySegment_outside copied outside
    cases loads with
    | behind holds behind image base positive start => omega
    | before holds absent base =>
      have result := holds.allocate (Nat.mod_lt _ (by decide)) allocated
      cases loaded
      cases result with
      | inl refused =>
        obtain ⟨rfl, holds⟩ := refused
        exact LoadsInto.store (t := ⟨kernel, 0, some 0, none, t.allocated ++ [], t.freed, t.called⟩)
          (.before holds rfl rfl) same
      | inr given =>
        obtain ⟨b, h, rfl, behind, aligned, positive, holds⟩ := given
        have base : b.addr / 8 * 8 = b.addr := Nat.div_mul_cancel aligned
        exact LoadsInto.store
          (t := ⟨kernel, b.addr / 8 * 8, some (b.addr / 8 * 8), some b, t.allocated ++ [b.addr], t.freed, t.called⟩)
          (.behind holds behind rfl base positive (congrArg some base)) same

theorem loadSegments_loads {entsize phdr : Nat} (loads : LoadsInto s live blocks buffer t)
    (loaded : loadSegments bytes entsize count phdr t = .ok t') : LoadsInto s live blocks buffer t' := by
  induction count generalizing phdr t with
  | zero =>
    cases loaded
    exact loads
  | succ count inductionHypothesis =>
    rw [loadSegments] at loaded
    obtain ⟨type, -, loaded⟩ := bind_ok.mp loaded
    dsimp only at loaded
    split at loaded
    · obtain ⟨next, step, loaded⟩ := bind_ok.mp loaded
      exact inductionHypothesis (loadSegment_loads loads step) loaded
    · exact inductionHypothesis loads loaded

variable {program : ProgramCode}

/-- What is called is a note of the run, and the heap is all that counts. -/
theorem LoadsInto.congr (loads : LoadsInto s live blocks buffer t) (table : k.proctab = t.kernel.proctab)
    (mem : k.mem = t.kernel.mem) (called : List Nat) :
    LoadsInto s live blocks buffer { t with kernel := k, called } := by
  cases loads with
  | before holds image base => exact .before (holds.congr table mem) image base
  | behind holds behind image base positive start =>
    exact .behind (holds.congr table mem) behind image base positive start

theorem runConstructors_loads (keeps : StaysInside program) (loads : LoadsInto s live blocks buffer t)
    (ran : runConstructors program array count j t = .ok t') : LoadsInto s live blocks buffer t' := by
  induction count generalizing j t with
  | zero =>
    cases ran
    exact loads
  | succ count inductionHypothesis =>
    rw [runConstructors] at ran
    dsimp only at ran
    split at ran
    · next inside =>
      obtain ⟨kernel, called, ran⟩ := bind_ok.mp ran
      obtain ⟨table, ram, mem, same⟩ := keeps _ _ _ _ called
      have moved := loads.store fun x outside => store_outside_image t.kernel.mem.ram
        (add32 (Words.load t.kernel.mem.ram (add32 array (4 * j))) t.base) inside outside
      exact inductionHypothesis ((moved.store same).congr table mem _) ran
    · cases ran

theorem callConstructors_loads (keeps : StaysInside program) (loads : LoadsInto s live blocks buffer t)
    (ran : callConstructors program bytes t = .ok t') : LoadsInto s live blocks buffer t' := by
  rw [callConstructors] at ran
  obtain ⟨found, -, ran⟩ := bind_ok.mp ran
  cases found with
  | none =>
    cases ran
    exact loads
  | some shdr =>
    obtain ⟨addr, -, ran⟩ := bind_ok.mp ran
    obtain ⟨size, -, ran⟩ := bind_ok.mp ran
    exact runConstructors_loads keeps loads ran

theorem loadImage_loads (keeps : StaysInside program) (loads : LoadsInto s live blocks buffer t)
    (loaded : loadImage program bytes t = .ok t') : LoadsInto s live blocks buffer t' := by
  rw [loadImage] at loaded
  obtain ⟨phoff, -, loaded⟩ := bind_ok.mp loaded
  obtain ⟨phnum, -, loaded⟩ := bind_ok.mp loaded
  obtain ⟨phentsize, -, loaded⟩ := bind_ok.mp loaded
  obtain ⟨next, segments, loaded⟩ := bind_ok.mp loaded
  obtain ⟨ram₁, bss, loaded⟩ := bind_ok.mp loaded
  obtain ⟨ram₂, got, loaded⟩ := bind_ok.mp loaded
  refine callConstructors_loads keeps ((loadSegments_loads loads segments).store ?_) loaded
  intro x outside
  rw [eachSectionWord_outside got outside, eachSectionWord_outside bss outside]

variable {r : Execve} {name : List UInt8}

/-- What is left of a run that came to its end: nothing but the image, if there is one. -/
inductive Leaves (s : Kernel) (live blocks : List Block) (r : Execve) : Prop
  | nothing (holds : Holds s live blocks [] r.kernel) (image : r.image = none)
  | image {h b : Block} (holds : Holds s live blocks [h] r.kernel) (behind : Behind h b) (image : r.image = some b)
      (start : r.start = some b.addr)

theorem leave_leaves {mask : UInt32} {b : Block} {code : Nat} {stale : Bool}
    (loads : LoadsInto s live blocks buffer t) (payload : Behind buffer b)
    (left : leave mask (some b) code stale t = .ok r) : Leaves s live blocks r := by
  cases left
  cases loads with
  | before holds image base =>
    have freed : Holds s live blocks [] _ := Holds.free [] holds payload
    exact .nothing (freed.congr rfl rfl) image
  | @behind h c holds behind image base positive start =>
    have freed : Holds s live blocks [h] _ := Holds.free [h] holds payload
    exact .image (freed.congr rfl rfl) behind image start

@[simp] theorem kprintf_mem (text : List UInt8) (k : Kernel) : (kprintf text k).mem = k.mem := by
  induction text generalizing k with
  | nil => rfl
  | cons c text inductionHypothesis => exact inductionHypothesis (kputc c k)

@[simp] theorem kprintf_proctab (text : List UInt8) (k : Kernel) : (kprintf text k).proctab = k.proctab := by
  induction text generalizing k with
  | nil => rfl
  | cons c text inductionHypothesis => exact inductionHypothesis (kputc c k)

theorem elfExecve_leaves {file : Option ProgramFile} (keeps : StaysInside program)
    (sound : MallocState.Sound 8 ⟨s.mem, live⟩ blocks) (run : elfExecve program name file s = .ok r) :
    Leaves s live blocks r := by
  rw [elfExecve] at run
  cases file with
  | none =>
    have table := kprintf_proctab (notFound name) (disable s).2
    have memory := kprintf_mem (notFound name) (disable s).2
    dsimp only at run
    generalize kprintf (notFound name) (disable s).2 = k at run table memory
    cases run
    exact .nothing ((Holds.nothing sound).congr table memory) rfl
  | some file =>
    obtain ⟨⟨elfData, k⟩, allocated, run⟩ := bind_ok.mp run
    obtain ⟨⟨length, k'⟩, read, run⟩ := bind_ok.mp run
    dsimp only at run
    have masked : Holds s live blocks [] (disable s).2 := (Holds.nothing sound).congr rfl rfl
    cases masked.allocate file.length_lt allocated with
    | inl refused =>
      -- no buffer, and `free` of no pointer
      obtain ⟨rfl, -⟩ := refused
      split at run
      · cases run
      · obtain ⟨signed, compared, -⟩ := bind_ok.mp run
        cases compared
    | inr given =>
      obtain ⟨b, buffer, rfl, payload, -, -, holds⟩ := given
      have filled : Holds s live blocks [buffer] k' := by
        rw [fread] at read
        split at read
        · cases read
          apply holds.setRam List.mem_cons_self payload
          intro x outside
          apply Patch.patch_outside
          simp only [Block.Covers, Block.limit] at outside
          omega
        · cases read
      have loads : LoadsInto s live blocks buffer
          { kernel := k', base := 0, start := none, image := none, allocated := [b.addr], freed := [], called := [] } :=
        .before filled rfl rfl
      split at run
      · exact leave_leaves loads payload run
      · obtain ⟨signed, -, run⟩ := bind_ok.mp run
        split at run
        · exact leave_leaves loads payload run
        · obtain ⟨t, loaded, run⟩ := bind_ok.mp run
          obtain ⟨entry, -, run⟩ := bind_ok.mp run
          exact leave_leaves (loadImage_loads keeps loads loaded) payload run

/-- The heap is as before exactly when there is no image. -/
theorem Leaves.freeList_iff (leaves : Leaves s live blocks r) (sound : MallocState.Sound 8 ⟨s.mem, live⟩ blocks) :
    r.kernel.mem.freeList = s.mem.freeList ↔ r.image = none := by
  rw [show s.mem.freeList = blocks from sound.list.eq_freeList]
  cases leaves with
  | nothing holds image =>
    obtain ⟨-, bounds, -, blocks', sound', covers⟩ := holds
    refine iff_of_true ?_ image
    rw [show r.kernel.mem.freeList = blocks' from sound'.list.eq_freeList]
    have canonical : Canonical s.mem.minheap s.mem.maxheap blocks' := by
      rw [← bounds.1, ← bounds.2]
      exact sound'.list.canonical
    apply canonical.unique sound.list.canonical
    intro x
    rw [covers x, List.map_nil, covers_nil, or_false]
  | @image h b holds behind image start =>
    obtain ⟨-, -, -, blocks', sound', covers⟩ := holds
    refine iff_of_false ?_ (by rw [image]; simp)
    rw [show r.kernel.mem.freeList = blocks' from sound'.list.eq_freeList]
    rintro rfl
    -- the header of the image was free and is not any more
    have held := sound'.held h List.mem_cons_self
    have taken : Covers ([h].map span) h.addr := covers_span List.mem_cons_self (held.header le_rfl (by omega))
    have among : Covers (([h] ++ live).map span) h.addr :=
      covers_span List.mem_cons_self (held.header le_rfl (by omega))
    exact sound'.taken h.addr among ((covers h.addr).mpr (.inr taken))

/-- A run of the loader leaves the table, and a free list. -/
theorem Leaves.kernel (leaves : Leaves s live blocks r) :
    r.kernel.proctab = s.proctab ∧ r.kernel.mem.FreeList r.kernel.mem.freeList := by
  have heap : ∃ held, Holds s live blocks held r.kernel := by
    cases leaves with
    | nothing holds => exact ⟨_, holds⟩
    | image holds => exact ⟨_, holds⟩
  obtain ⟨held, table, -, -, blocks', sound, -⟩ := heap
  have list : r.kernel.mem.FreeList blocks' := sound.list
  rw [list.eq_freeList]
  exact ⟨table, list⟩

end Loader

end XinuStm32
