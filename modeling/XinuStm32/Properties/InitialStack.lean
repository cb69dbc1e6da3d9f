import XinuStm32.Properties.Create
import XinuStm32.Properties.Heap

/-!
# The stack of a new process

The words `create` stores lie in the block that `getstk` took, and the switch restores from them the
registers the process should start with, as long as there are at most eight arguments.
-/

namespace XinuStm32

open FreeBlocks

namespace Mem

variable {m m' : Mem} {a b : Nat} {words : List Nat}

/-! ## Storing words one after the other -/

theorem load_poke {value : Nat} (fits : value < 2 ^ 32) : Words.load (m.poke a value).ram a = value :=
  Words.load_store fits

theorem load_poke_apart {value : Nat} (apart : a + 4 ≤ b ∨ b + 4 ≤ a) :
    Words.load (m.poke a value).ram b = Words.load m.ram b :=
  Words.load_store_apart apart

theorem load_pokeWords_apart (inSpace : a + 4 * words.length < 2 ^ 32)
    (apart : b + 4 ≤ a ∨ a + 4 * words.length ≤ b) :
    Words.load (pokeWords a words m).ram b = Words.load m.ram b := by
  induction words generalizing a m with
  | nil => rfl
  | cons word words inductionHypothesis =>
    rw [List.length_cons] at inSpace apart
    rw [pokeWords, add32_of_lt (by omega), inductionHypothesis (by omega) (by omega), load_poke_apart (by omega)]

theorem load_pokeWords (inSpace : a + 4 * words.length < 2 ^ 32) (fits : ∀ word ∈ words, word < 2 ^ 32)
    {i word : Nat} (here : words[i]? = some word) :
    Words.load (pokeWords a words m).ram (a + 4 * i) = word := by
  induction words generalizing a m i with
  | nil => cases here
  | cons first words inductionHypothesis =>
    rw [List.length_cons] at inSpace
    obtain ⟨fit, fits⟩ := List.forall_mem_cons.mp fits
    rw [pokeWords, add32_of_lt (by omega)]
    cases i with
    | zero =>
      rw [List.getElem?_cons_zero, Option.some.injEq] at here
      subst here
      rw [load_pokeWords_apart (by omega) (by omega), Nat.mul_zero, Nat.add_zero, load_poke fit]
    | succ i =>
      rw [show a + 4 * (i + 1) = a + 4 + 4 * i by omega]
      exact inductionHypothesis (by omega) fits here

/-- The addresses and values that `pokeWords` stores. -/
def storesFrom : Nat → List Nat → List (Nat × Nat)
  | _, [] => []
  | a, word :: words => (a, word) :: storesFrom (add32 a 4) words

/-- Store words at their addresses, in order. -/
def pokeAll (stores : List (Nat × Nat)) (m : Mem) : Mem := stores.foldl (fun m store => m.poke store.1 store.2) m

theorem pokeWords_eq (a : Nat) (words : List Nat) (m : Mem) :
    pokeWords a words m = m.pokeAll (storesFrom a words) := by
  induction words generalizing a m with
  | nil => rfl
  | cons word words inductionHypothesis => exact inductionHypothesis _ _

theorem storesFrom_addr {i : Nat} (inSpace : a + 4 * i < 2 ^ 32) (before : i < words.length) :
    ∃ word, (a + 4 * i, word) ∈ storesFrom a words := by
  induction words generalizing a i with
  | nil => exact absurd before (Nat.not_lt_zero i)
  | cons first words inductionHypothesis =>
    cases i with
    | zero => exact ⟨first, List.mem_cons_self⟩
    | succ i =>
      rw [List.length_cons] at before
      rw [storesFrom, add32_of_lt (by omega)]
      obtain ⟨word, member⟩ := inductionHypothesis (a := a + 4) (i := i) (by omega) (by omega)
      rw [show a + 4 * (i + 1) = a + 4 + 4 * i by omega]
      exact ⟨word, List.mem_cons_of_mem _ member⟩

theorem storesFrom_bounds (inSpace : a + 4 * words.length < 2 ^ 32) {store : Nat × Nat}
    (member : store ∈ storesFrom a words) : a ≤ store.1 ∧ store.1 + 4 ≤ a + 4 * words.length := by
  induction words generalizing a with
  | nil => cases member
  | cons first words inductionHypothesis =>
    rw [List.length_cons] at inSpace ⊢
    rw [storesFrom, add32_of_lt (by omega)] at member
    cases member with
    | head => simp only; omega
    | tail _ member =>
      have bounds := inductionHypothesis (by omega) member
      omega

end Mem

/-! ## The frame -/

/-- The words of the frame, in the order in which `create` stores them. -/
def frameStores (saddr procaddr userret : Nat) (args : List Nat) : List (Nat × Nat) :=
  let tmpstk := sub32 saddr 0x1C
  Mem.storesFrom tmpstk args ++
    [(add32 tmpstk 20, userret), (add32 tmpstk 24, procaddr), (add32 tmpstk 28, 0x01000000)] ++
    Mem.storesFrom (sub32 tmpstk 0x20) (List.replicate 8 0)

theorem buildFrame_stores (saddr procaddr userret : Nat) (args : List Nat) (m : Mem) :
    (buildFrame saddr procaddr userret args m).2 = m.pokeAll (frameStores saddr procaddr userret args) := by
  simp only [buildFrame, frameStores, Mem.pokeWords_eq, Mem.pokeAll, List.foldl_append, List.foldl_cons,
    List.foldl_nil]

section Frame

variable {saddr procaddr userret : Nat} {args : List Nat} {m m' : Mem}

/-- The words of the frame without its wrapping sums. -/
theorem frameStores_plain (low : 60 ≤ saddr) (high : saddr + 4 < 2 ^ 32) :
    frameStores saddr procaddr userret args =
      Mem.storesFrom (saddr - 28) args ++ [(saddr - 8, userret), (saddr - 4, procaddr), (saddr, 0x01000000)] ++
        Mem.storesFrom (saddr - 60) (List.replicate 8 0) := by
  have tmpstk : sub32 saddr 0x1C = saddr - 28 := sub32_of_le (by omega) (by omega)
  have extraregs : sub32 (saddr - 28) 0x20 = saddr - 60 := sub32_of_le (by omega) (by omega)
  have lr : add32 (saddr - 28) 20 = saddr - 8 := by
    rw [add32_of_lt (by omega)]
    omega
  have pc : add32 (saddr - 28) 24 = saddr - 4 := by
    rw [add32_of_lt (by omega)]
    omega
  have psr : add32 (saddr - 28) 28 = saddr := by
    rw [add32_of_lt (by omega)]
    omega
  simp only [frameStores, tmpstk, extraregs, lr, pc, psr]

/-- The frame without its wrapping sums. -/
theorem buildFrame_plain (low : 60 ≤ saddr) (high : saddr + 4 < 2 ^ 32) :
    buildFrame saddr procaddr userret args m =
      (saddr - 60, pokeWords (saddr - 60) (List.replicate 8 0)
        ((((pokeWords (saddr - 28) args m).poke (saddr - 8) userret).poke (saddr - 4) procaddr).poke saddr
          0x01000000)) := by
  have tmpstk : sub32 saddr 0x1C = saddr - 28 := sub32_of_le (by omega) (by omega)
  have extraregs : (buildFrame saddr procaddr userret args m).1 = saddr - 60 := by
    simp only [buildFrame, tmpstk]
    exact sub32_of_le (by omega) (by omega)
  apply Prod.ext extraregs
  rw [buildFrame_stores, frameStores_plain low high]
  simp only [Mem.pokeWords_eq, Mem.pokeAll, List.foldl_append, List.foldl_cons, List.foldl_nil]

/-- The words of the frame as the switch reads them. -/
theorem frame_words (low : 60 ≤ saddr) (high : saddr + 4 < 2 ^ 32) (few : args.length ≤ 8)
    (procFits : procaddr < 2 ^ 32) (retFits : userret < 2 ^ 32) (argsFit : ∀ arg ∈ args, arg < 2 ^ 32) :
    let ram := (buildFrame saddr procaddr userret args m).2.ram
    (∀ i < 8, Words.load ram (saddr - 60 + 4 * i) = 0) ∧
      (∀ i < 4, ∀ arg, args[i]? = some arg → Words.load ram (saddr - 28 + 4 * i) = arg) ∧
      Words.load ram (saddr - 8) = userret ∧ Words.load ram (saddr - 4) = procaddr ∧
      Words.load ram saddr = 0x01000000 := by
  simp only [buildFrame_plain low high]
  have zeros : (List.replicate 8 0 : List Nat).length = 8 := List.length_replicate
  -- the eight zero words are stored last, below everything else
  have above {b : Nat} {m : Mem} (behind : saddr - 28 ≤ b) :
      Words.load (pokeWords (saddr - 60) (List.replicate 8 0) m).ram b = Words.load m.ram b :=
    Mem.load_pokeWords_apart (by rw [zeros]; omega) (by rw [zeros]; omega)
  refine ⟨fun i before => ?_, fun i before arg here => ?_, ?_, ?_, ?_⟩
  · apply Mem.load_pokeWords (by rw [zeros]; omega)
    · intro word member
      rw [List.eq_of_mem_replicate member]
      decide
    · rw [List.getElem?_replicate, if_pos before]
  · rw [above (by omega), Mem.load_poke_apart (by omega), Mem.load_poke_apart (by omega),
      Mem.load_poke_apart (by omega)]
    exact Mem.load_pokeWords (by omega) argsFit here
  · rw [above (by omega), Mem.load_poke_apart (by omega), Mem.load_poke_apart (by omega), Mem.load_poke retFits]
  · rw [above (by omega), Mem.load_poke_apart (by omega), Mem.load_poke procFits]
  · rw [above (by omega), Mem.load_poke (by decide)]

/-- The stores of the frame lie in the sixteen words that end at `saddr` when there are at most eight
arguments; the ninth argument is stored behind them. -/
theorem frameStores_bounds (low : 60 ≤ saddr) (high : saddr + 4 < 2 ^ 32) (few : args.length ≤ 8) :
    ∀ store ∈ frameStores saddr procaddr userret args, saddr ≤ store.1 + 60 ∧ store.1 ≤ saddr := by
  intro store member
  simp only [frameStores_plain low high, List.mem_append, List.mem_cons, List.not_mem_nil, or_false] at member
  obtain (member | rfl | rfl | rfl) | member := member
  · have bounds := Mem.storesFrom_bounds (by omega) member
    omega
  · dsimp only
    omega
  · dsimp only
    omega
  · dsimp only
    omega
  · have bounds := Mem.storesFrom_bounds (by rw [List.length_replicate]; omega) member
    rw [List.length_replicate] at bounds
    omega

theorem frameStores_ninth (low : 28 ≤ saddr) (high : saddr + 4 < 2 ^ 32) (many : 8 < args.length) :
    ∃ store ∈ frameStores saddr procaddr userret args, saddr < store.1 := by
  have tmpstk : sub32 saddr 0x1C = saddr - 28 := sub32_of_le (by omega) (by omega)
  obtain ⟨word, member⟩ := Mem.storesFrom_addr (a := saddr - 28) (i := 8) (by omega) many
  refine ⟨(saddr - 28 + 4 * 8, word), ?_, by simp only; omega⟩
  rw [frameStores, tmpstk]
  exact List.mem_append_left _ (List.mem_append_left _ member)

end Frame

/-! ## The process starts as `create` was told -/

section Create

variable {s : Kernel} {blocks : List Block}

/-- The words `create` stores lie in the block of the stack, `roundmb prstklen` bytes up to and
including the word at `prstkbase`. -/
def FrameInside (procaddr : UInt32) (userret : Nat) (args : List UInt32) (entry : Procent) : Prop :=
  ∀ store ∈ frameStores entry.prstkbase procaddr.toNat userret (args.map UInt32.toNat),
    entry.prstkbase + 4 ≤ store.1 + roundmb entry.prstklen ∧ store.1 ≤ entry.prstkbase

/-- As long as the block keeps its bytes, the switch restores what the process should start with. -/
def FrameRestores (procaddr : UInt32) (userret : Nat) (args : List UInt32) (entry : Procent) (m : Mem) : Prop :=
  ∀ m' : Mem, (∀ x, entry.prstkbase + 4 ≤ x + roundmb entry.prstklen → x < entry.prstkbase + 4 →
      m'.ram x = m.ram x) →
    (restoreContext entry.prstkptr m').pc = procaddr.toNat ∧
    (restoreContext entry.prstkptr m').lr = userret ∧
    (restoreContext entry.prstkptr m').psr = 0x01000000 ∧
    (restoreContext entry.prstkptr m').r4_r11 = List.replicate 8 0 ∧
    (∀ i < 4, ∀ arg, args[i]? = some arg → (restoreContext entry.prstkptr m').r0_r3[i]? = some arg.toNat) ∧
    (restoreContext entry.prstkptr m').sp = entry.prstkbase + 4

/-- The stack size is at least `MINSTK`, unless it wraps. -/
theorem stackSize_ge (ssize : UInt32) : stackSize ssize = 0 ∨ 400 ≤ stackSize ssize ∧ stackSize ssize < 2 ^ 32 := by
  have small := ssize.toNat_lt
  simp only [stackSize, roundew, MINSTK, add32]
  split <;> omega

theorem roundmb_ge {n : Nat} (small : n < 2 ^ 32) (kept : roundmb n ≠ 0) : n ≤ roundmb n := by
  by_cases fits : Mem.rounded n < 2 ^ 32
  · rw [Mem.roundmb_of_lt fits]
    exact Mem.le_rounded n
  · exact absurd (Mem.roundmb_zero small (Nat.not_lt.mp fits)) kept

/-- A stack lies in the heap and ends with the word whose address is returned. -/
theorem stack_in_heap (list : s.mem.FreeList blocks) {size address : Nat} {memory : Mem}
    (found : s.mem.getstk size = some (address, memory)) :
    size ≠ 0 ∧ address < 2 ^ 32 ∧ (4 ≤ s.mem.minheap + roundmb size →
      s.mem.minheap + roundmb size ≤ address + 4 ∧ address + 4 ≤ s.mem.maxheap) := by
  have nonzero : size ≠ 0 := by
    rintro rfl
    cases found
  refine ⟨nonzero, ?_⟩
  obtain ⟨-, none⟩ | ⟨a, m', blocks', granted, taken⟩ := list.getstk_spec nonzero
  · rw [none] at found
    cases found
  · rw [granted, Option.some.injEq, Prod.mk.injEq] at found
    obtain ⟨rfl, -⟩ := found
    refine ⟨Nat.mod_lt _ (by decide), fun room => ?_⟩
    have inHeap := taken.in_heap list
    have bound := list.maxheap_lt
    rw [add32_of_lt (by omega), sub32_of_le (by omega) (by omega)]
    omega

theorem frame_restores {procaddr : UInt32} {userret : Nat} {args : List UInt32} {entry : Procent} {memory : Mem}
    (low : 60 ≤ entry.prstkbase) (high : entry.prstkbase + 4 < 2 ^ 32) (few : args.length ≤ 8)
    (retFits : userret < 2 ^ 32) (room : 64 ≤ roundmb entry.prstklen)
    (saved : entry.prstkptr = entry.prstkbase - 60) :
    FrameRestores procaddr userret args entry
      (buildFrame entry.prstkbase procaddr.toNat userret (args.map UInt32.toNat) memory).2 := by
  intro m' same
  have argsFit : ∀ arg ∈ args.map UInt32.toNat, arg < 2 ^ 32 := by
    intro arg member
    obtain ⟨value, -, rfl⟩ := List.mem_map.mp member
    exact value.toNat_lt
  obtain ⟨zeros, arguments, lr, pc, psr⟩ := frame_words (m := memory) low high (by simpa using few)
    procaddr.toNat_lt retFits argsFit
  -- every word of the frame lies in the block, so it is still there
  have word (i : Nat) (before : i < 16) : Words.load m'.ram (add32 entry.prstkptr (4 * i)) =
      Words.load (buildFrame entry.prstkbase procaddr.toNat userret (args.map UInt32.toNat) memory).2.ram
        (entry.prstkbase - 60 + 4 * i) := by
    rw [saved, add32_of_lt (by omega)]
    exact Words.load_congr fun x below above => same x (by omega) (by omega)
  have flags : Words.load m'.ram (add32 entry.prstkptr (4 * 15)) = 0x01000000 := by
    rw [word 15 (by decide), show entry.prstkbase - 60 + 4 * 15 = entry.prstkbase by omega, psr]
  refine ⟨?_, ?_, flags, ?_, fun i before arg here => ?_, ?_⟩
  · change Words.load m'.ram (add32 entry.prstkptr (4 * 14)) = _
    rw [word 14 (by decide), show entry.prstkbase - 60 + 4 * 14 = entry.prstkbase - 4 by omega, pc]
  · change Words.load m'.ram (add32 entry.prstkptr (4 * 13)) = _
    rw [word 13 (by decide), show entry.prstkbase - 60 + 4 * 13 = entry.prstkbase - 8 by omega, lr]
  · change (List.range 8).map (fun i => Words.load m'.ram (add32 entry.prstkptr (4 * i))) = List.replicate 8 0
    refine List.eq_replicate_iff.mpr ⟨by simp, fun value member => ?_⟩
    obtain ⟨i, inRange, rfl⟩ := List.mem_map.mp member
    have before := List.mem_range.mp inRange
    rw [word i (by omega), zeros i before]
  · have slot : (restoreContext entry.prstkptr m').r0_r3[i]? =
        some (Words.load m'.ram (add32 entry.prstkptr (4 * (8 + i)))) := by
      have cases : i = 0 ∨ i = 1 ∨ i = 2 ∨ i = 3 := by omega
      rcases cases with rfl | rfl | rfl | rfl <;> rfl
    have value := arguments i before arg.toNat (by rw [List.getElem?_map, here]; rfl)
    rw [slot, word (8 + i) (by omega),
      show entry.prstkbase - 60 + 4 * (8 + i) = entry.prstkbase - 28 + 4 * i by omega, value]
  · simp only [restoreContext, flags]
    rw [if_neg (by decide), saved, add32_of_lt (by omega)]
    omega

/-- A process starts as it was created, with every word in its own stack, exactly when it has at most
eight arguments and its stack size does not round up to nothing. -/
theorem create_frame_iff (list : s.mem.FreeList blocks) (retFits : s.userret < 2 ^ 32)
    {procaddr ssize : UInt32} {priority : Int16} {name : List UInt8} {args : List UInt32}
    (success : (create procaddr ssize priority name args s).1 ≠ SYSERR) :
    (FrameInside procaddr s.userret args ((create procaddr ssize priority name args s).2.proctab
        (create procaddr ssize priority name args s).1) ∧
      FrameRestores procaddr s.userret args ((create procaddr ssize priority name args s).2.proctab
        (create procaddr ssize priority name args s).1) (create procaddr ssize priority name args s).2.mem) ↔
      args.length ≤ 8 ∧ roundmb (stackSize ssize) ≠ 0 := by
  obtain ⟨address, memory, found, memory', saved, base, length⟩ :=
    create_success procaddr ssize priority name args success
  obtain ⟨nonzero, small, inHeap⟩ := stack_in_heap list found
  have size := (stackSize_ge ssize).resolve_left nonzero
  rw [memory']
  generalize (create procaddr ssize priority name args s).2.proctab
    (create procaddr ssize priority name args s).1 = entry at *
  subst base
  have bound := list.maxheap_lt
  constructor
  · rintro ⟨inside, -⟩
    have kept : roundmb (stackSize ssize) ≠ 0 := by
      intro empty
      -- the flags word is stored at `prstkbase`, which is not in an empty block
      have flags : (add32 (sub32 entry.prstkbase 0x1C) 28, 0x01000000) ∈
          frameStores entry.prstkbase procaddr.toNat s.userret (args.map UInt32.toNat) := by
        simp [frameStores]
      have here : add32 (sub32 entry.prstkbase 0x1C) 28 = entry.prstkbase := by
        simp only [add32, sub32]
        omega
      have within := inside _ flags
      rw [here, length, empty] at within
      omega
    refine ⟨?_, kept⟩
    by_contra many
    have large := roundmb_ge size.2 kept
    have bounds := inHeap (by omega)
    obtain ⟨store, member, behind⟩ := @frameStores_ninth entry.prstkbase procaddr.toNat s.userret
      (args.map UInt32.toNat) (by omega) (by omega) (by simpa using many)
    exact Nat.not_le.mpr behind (inside store member).2
  · rintro ⟨few, kept⟩
    have large := roundmb_ge size.2 kept
    have bounds := inHeap (by omega)
    have plain := @buildFrame_plain entry.prstkbase procaddr.toNat s.userret (args.map UInt32.toNat) memory
      (by omega) (by omega)
    constructor
    · intro store member
      have within := frameStores_bounds (by omega) (by omega) (by simpa using few) store member
      rw [length]
      omega
    · apply frame_restores (by omega) (by omega) few retFits
      · rw [length]
        omega
      · rw [saved, plain]

end Create

/-! ## Right after start-up -/

set_option maxRecDepth 100000 in
theorem started_list : started.mem.FreeList [⟨0x20002ff8, 0x1bc08⟩] := by
  have minheap : started.mem.minheap = 0x20002ff8 := by decide +kernel
  have maxheap : started.mem.maxheap = 0x2001f000 := by decide +kernel
  constructor
  · have links := started_ends.links
    rwa [started_freeList] at links
  · rw [minheap, maxheap]
    exact ⟨List.pairwise_singleton _ _, List.forall_mem_singleton.mpr (by decide)⟩
  · exact List.pairwise_singleton _ _
  · rw [minheap]
    decide
  · rw [maxheap]
    decide

/-- What `create` with these arguments leaves right after start-up. -/
def startedWith (args : List UInt32) : Int × Kernel := create 0x08017001 1024 20 [] args started

set_option maxRecDepth 100000 in
theorem twoArguments_start :
    FrameInside 0x08017001 started.userret [7, 9] ((startedWith [7, 9]).2.proctab (startedWith [7, 9]).1) ∧
      FrameRestores 0x08017001 started.userret [7, 9] ((startedWith [7, 9]).2.proctab (startedWith [7, 9]).1)
        (startedWith [7, 9]).2.mem :=
  (create_frame_iff started_list (by decide +kernel) (by decide +kernel)).mpr ⟨by decide, by decide⟩

set_option maxRecDepth 100000 in
/-- With nine arguments the ninth is stored above the stack. -/
theorem nineArguments_overflow : (startedWith [1, 2, 3, 4, 5, 6, 7, 8, 9]).1 ≠ SYSERR ∧
    ¬ FrameInside 0x08017001 started.userret [1, 2, 3, 4, 5, 6, 7, 8, 9]
      ((startedWith [1, 2, 3, 4, 5, 6, 7, 8, 9]).2.proctab (startedWith [1, 2, 3, 4, 5, 6, 7, 8, 9]).1) := by
  have base : ((startedWith [1, 2, 3, 4, 5, 6, 7, 8, 9]).2.proctab
      (startedWith [1, 2, 3, 4, 5, 6, 7, 8, 9]).1).prstkbase = 0x2001ebfc := by decide +kernel
  refine ⟨by decide +kernel, fun inside => ?_⟩
  rw [FrameInside, base] at inside
  obtain ⟨store, member, behind⟩ := @frameStores_ninth 0x2001ebfc (0x08017001 : UInt32).toNat started.userret
    ([1, 2, 3, 4, 5, 6, 7, 8, 9].map UInt32.toNat) (by decide) (by decide) (by decide)
  exact Nat.not_le.mpr behind (inside store member).2

end XinuStm32
