import XinuStm32.Kernel.System
import XinuStm32.Lib.Transition
import XinuStm32.Refinement.Line

/-!
# The input ring of the console

Characters arrive in cooked mode while processes call `ttygetc`. A call may be switched out in its
`wait`, and again before it takes its byte; meanwhile the semaphore's count no longer covers the byte.
-/

namespace XinuStm32

open Ring Transition

/-- The kernel, and how many calls of `ttygetc` have started to wait and not yet taken a byte. -/
structure Console where
  kernel : Kernel
  callers : Nat

namespace Console

/-- The calls that wait. -/
def waiting (s : Console) : Int := max (-s.kernel.inputCount) 0

/-- The calls that the semaphore let through and that have not taken their byte. -/
def passed (s : Console) : Int := s.callers - s.waiting

/-- The bytes available to readers and not read: those the semaphore counts, and those of the calls it
let through. -/
def unread (s : Console) : Int := max s.kernel.inputCount 0 + s.passed

inductive Label where
  | char (c : UInt8)
  | wait
  | take
  | other
  deriving DecidableEq

/-- The steps: a character arrives, a process calls `ttygetc` and waits, a call that was let through
takes its byte, or the kernel does anything else. The callers are different processes. -/
inductive Step : Label → Console → Console → Prop where
  | char (c : UInt8) (s : Kernel) (callers : Nat) : Step (.char c) ⟨s, callers⟩ ⟨ttyhandleIn c s, callers⟩
  | wait (s : Kernel) (callers : Nat) (process : callers < NPROC) :
      Step .wait ⟨s, callers⟩ ⟨(XinuStm32.wait s.tty.tyisem s).2, callers + 1⟩
  | take (s : Kernel) (callers : Nat) (passed : 0 < passed ⟨s, callers⟩) :
      Step .take ⟨s, callers⟩ ⟨(ttygetcTake s).2, callers - 1⟩
  | other (s s' : Kernel) (callers : Nat) (tty : s'.tty = s.tty)
      (entry : s'.semtab s.tty.tyisem = s.semtab s.tty.tyisem) (counting : s'.counting = s.counting) :
      Step .other ⟨s, callers⟩ ⟨s', callers⟩

/-- After `ttyinit`, before any call. -/
def start (s : Kernel) : Console := ⟨ttyinit s, 0⟩

/-! ## The ring stands for a content -/

/-- The ring holds the content, and the cursor and the semaphore say how it is divided. -/
structure Represents (s : Console) (q : Content) : Prop where
  cooked : Cooked s.kernel
  ring : Holds TY_IBUFLEN s.kernel.tty.tyibuff s.kernel.tty.tyihead s.kernel.tty.tyitail q.bytes
  cursor : s.kernel.tty.tyicursor = q.current.length
  unread : s.unread = q.unread.length
  passed : 0 ≤ s.passed
  processes : s.callers ≤ NPROC

/-- A character that goes into the ring finds a free slot, and the end-of-file character does not find the
last slot of the buffer. -/
def Room (s : Console) : Label → Prop
  | .char c => s.kernel.stores (lineChar c) → s.unread + s.kernel.tty.tyicursor < TY_IBUFLEN ∧
      (lineChar c = TY_EOFCH → s.kernel.tty.tyitail ≠ TY_IBUFLEN - 1)
  | _ => True

variable {s s' : Console} {q : Content}

/-- Every call either waits and is counted negatively, or adds to what is unread. -/
theorem unread_eq (s : Console) : s.unread = s.kernel.inputCount + s.callers := by
  simp only [unread, passed, waiting]
  omega

theorem inputCount_arrives {buffer : Int → UInt8} {tail cursor posted : Int} {k k' : Kernel}
    (does : Arrives k k' buffer tail cursor posted) : k'.inputCount = k.inputCount + posted := by
  obtain ⟨held, tty⟩ := does.tty
  rw [Kernel.inputCount, tty]
  change (k'.semtab k.tty.tyisem).scount = _
  rw [does.entry]

namespace Represents

theorem held (rep : s.Represents q) : s.unread + s.kernel.tty.tyicursor = q.bytes.length := by
  rw [rep.unread, rep.cursor, Content.bytes, List.length_append, Int.natCast_add]

/-- The count is as low as there are processes to wait, and as high as the ring is long. -/
theorem count_range (rep : s.Represents q) : -12 ≤ s.kernel.inputCount ∧ s.kernel.inputCount ≤ 32 := by
  have fits := rep.ring.fits
  have held := rep.held
  have passed := rep.passed
  have processes := rep.processes
  have cursor := rep.cursor
  simp only [Console.unread, Console.passed, Console.waiting, NPROC, TY_IBUFLEN] at *
  omega

/-- The line was edited, and what the semaphore counts with it. -/
theorem arrives {buffer : Int → UInt8} {tail cursor posted : Int} {after : Kernel} {q' : Content}
    (rep : s.Represents q) (does : Arrives s.kernel after buffer tail cursor posted) (some : 0 ≤ posted)
    (ring : Holds TY_IBUFLEN buffer s.kernel.tty.tyihead tail q'.bytes) (line : cursor = q'.current.length)
    (available : (q'.unread.length : Int) = q.unread.length + posted) : Represents ⟨after, s.callers⟩ q' := by
  obtain ⟨held, tty⟩ := does.tty
  have count := inputCount_arrives does
  have used : (after.semtab s.kernel.tty.tyisem).sstate ≠ .free := by
    rw [does.entry]
    exact rep.cooked.used
  have unread := rep.unread
  have passed := rep.passed
  refine ⟨rep.cooked.edited tty used does.counting, by rw [tty]; exact ring, by rw [tty]; exact line, ?_, ?_,
    rep.processes⟩
  · simp only [Console.unread, Console.passed, Console.waiting, count] at *
    omega
  · simp only [Console.passed, Console.waiting, count] at *
    omega

/-- The arrival of a character with room for it, one case of the line discipline at a time. -/
theorem char (rep : s.Represents q) {c : UInt8} (room : s.Room (.char c)) :
    Represents ⟨ttyhandleIn c s.kernel, s.callers⟩ (q.arrive s.kernel.lineFull (lineChar c)) := by
  rw [Room] at room
  have count := rep.count_range
  have cursor := rep.cursor
  have held := rep.held
  have fits := rep.ring.fits
  have lengths : (q.bytes.length : Int) = q.unread.length + q.current.length := by
    rw [Content.bytes, List.length_append, Int.natCast_add]
  simp only [TY_IBUFLEN] at *
  have arrival := ttyhandleIn_arrival rep.cooked (by omega) (by omega) (by omega) (by omega) rep.ring.tail_range.2 c
  generalize lineChar c = ch at *
  cases arrival with
  | kill key does =>
    apply rep.arrives does (Int.le_refl 0)
    · rw [Content.arrive, if_pos key, cursor, Content.bytes, List.append_nil]
      exact rep.ring.retract
    · rw [Content.arrive, if_pos key]
      rfl
    · rw [Content.arrive, if_pos key, Int.add_zero]
  | erase key some does =>
    have edited : q.arrive s.kernel.lineFull ch = { q with current := q.current.dropLast } := by
      rw [Content.arrive, if_neg key.text.1, if_pos key]
    have last : q.current ≠ [] := by
      intro nothing
      rw [nothing] at cursor
      simp only [List.length_nil] at cursor
      omega
    rw [edited]
    apply rep.arrives does (Int.le_refl 0)
    · -- the erased character is the last one of the ring
      have ring := rep.ring
      rw [Content.bytes, ← List.dropLast_append_getLast last, ← List.append_assoc] at ring
      exact ring.retract
    · rw [List.length_dropLast]
      omega
    · rw [Int.add_zero]
  | eraseNone key none does =>
    have nothing : q.current = [] := List.length_eq_zero_iff.mp (by omega)
    have edited : q.arrive s.kernel.lineFull ch = q := by
      rw [Content.arrive, if_neg key.text.1, if_pos key, nothing, List.dropLast_nil, ← nothing]
    rw [edited]
    exact rep.arrives does (Int.le_refl 0) rep.ring cursor (by rw [Int.add_zero])
  | newline key does =>
    have edited : q.arrive s.kernel.lineFull ch = ⟨q.bytes ++ [ch], []⟩ := by
      rw [Content.arrive, if_neg (by rw [key]; decide), if_neg (by rw [key]; decide), if_pos key]
    rw [edited]
    have free := (room (Or.inl key)).1
    apply rep.arrives does (by omega)
    · rw [Content.bytes, List.append_nil]
      exact rep.ring.put (show (q.bytes.length : Int) < 32 by omega) ch
    · rfl
    · rw [List.length_append, List.length_singleton]
      omega
  | full key isFull does =>
    have edited : q.arrive s.kernel.lineFull ch = q := by
      rw [Content.arrive, if_neg key.1, if_neg key.2.1, if_neg key.2.2, if_pos isFull]
    rw [edited]
    exact rep.arrives does (Int.le_refl 0) rep.ring cursor (by rw [Int.add_zero])
  | eof key notFull start does =>
    have nothing : q.current = [] := List.length_eq_zero_iff.mp (by omega)
    have edited : q.arrive s.kernel.lineFull ch = { q with unread := q.unread ++ [ch] } := by
      rw [Content.arrive, if_neg (by rw [key]; decide), if_neg (by rw [key]; decide),
        if_neg (by rw [key]; decide), if_neg notFull, if_pos key, if_pos nothing]
    rw [edited]
    have text : isText ch := by
      rw [key]
      decide
    obtain ⟨free, notLast⟩ := room (Or.inr ⟨text, notFull, fun _ => start⟩)
    have notLast := notLast key
    have range : 0 ≤ s.kernel.tty.tyitail ∧ s.kernel.tty.tyitail < 32 := rep.ring.tail_range
    have advanced : s.kernel.tty.tyitail + 1 = next 32 s.kernel.tty.tyitail := by
      rw [next, if_neg (by omega)]
    rw [advanced] at does
    apply rep.arrives does (by omega)
    · have ring := rep.ring.put (show (q.bytes.length : Int) < 32 by omega) ch
      rw [Content.bytes, nothing, List.append_nil] at ring
      rw [Content.bytes, nothing, List.append_nil]
      exact ring
    · exact cursor
    · rw [List.length_append, List.length_singleton, Int.natCast_add]
      rfl
  | eofLate key notFull inside does =>
    have something : q.current ≠ [] := by
      intro nothing
      rw [nothing] at cursor
      exact inside cursor
    have edited : q.arrive s.kernel.lineFull ch = q := by
      rw [Content.arrive, if_neg (by rw [key]; decide), if_neg (by rw [key]; decide),
        if_neg (by rw [key]; decide), if_neg notFull, if_pos key, if_neg something]
    rw [edited]
    exact rep.arrives does (Int.le_refl 0) rep.ring cursor (by rw [Int.add_zero])
  | char key other notFull does =>
    have edited : q.arrive s.kernel.lineFull ch = { q with current := q.current ++ [ch] } := by
      rw [Content.arrive, if_neg key.1, if_neg key.2.1, if_neg key.2.2, if_neg notFull, if_neg other]
    rw [edited]
    have free := (room (Or.inr ⟨key, notFull, fun eof => absurd eof other⟩)).1
    apply rep.arrives does (Int.le_refl 0)
    · rw [Content.bytes, ← List.append_assoc]
      exact rep.ring.put (show (q.bytes.length : Int) < 32 by omega) ch
    · rw [List.length_append, List.length_singleton]
      omega
    · rw [Int.add_zero]

/-- A call of `ttygetc` starts to wait, or is let through. -/
theorem wait (rep : s.Represents q) (process : s.callers < NPROC) :
    Represents ⟨(XinuStm32.wait s.kernel.tty.tyisem s.kernel).2, s.callers + 1⟩ q := by
  have range := rep.count_range
  have cooked := rep.cooked
  have counts := wait_counts cooked.machine (show -2147483648 < s.kernel.inputCount by omega) cooked.valid
    cooked.used (show s.kernel.inputCount < 2147483648 by omega)
  generalize (XinuStm32.wait s.kernel.tty.tyisem s.kernel).2 = k at counts ⊢
  have count : k.inputCount = s.kernel.inputCount + -1 := by
    rw [Kernel.inputCount, counts.tty, counts.entry]
    rfl
  have unread := rep.unread
  have passed := rep.passed
  have tty := counts.tty
  have used : (k.semtab s.kernel.tty.tyisem).sstate ≠ .free := by
    rw [counts.entry]
    exact cooked.used
  refine ⟨cooked.edited tty used counts.counting,
    by rw [tty]; exact rep.ring, by rw [tty]; exact rep.cursor, ?_, ?_, ?_⟩
  · rw [unread_eq] at unread ⊢
    simp only [count]
    omega
  · simp only [Console.passed, Console.waiting, count] at *
    omega
  · simp only [NPROC] at *
    omega

/-- A call that was let through takes the oldest byte. -/
theorem take (rep : s.Represents q) (passed : 0 < s.passed) : ∃ byte rest, q.unread = byte :: rest ∧
    s.kernel.tty.tyibuff s.kernel.tty.tyihead = byte ∧
    Represents ⟨(ttygetcTake s.kernel).2, s.callers - 1⟩ { q with unread := rest } := by
  have unread := rep.unread
  cases available : q.unread with
  | nil =>
    rw [available, List.length_nil] at unread
    simp only [Console.unread] at unread
    omega
  | cons byte rest =>
    have ring := rep.ring
    rw [Content.bytes, available, List.cons_append] at ring
    obtain ⟨first, ring⟩ := ring.take
    have some : 0 < s.callers := by
      simp only [Console.passed, Console.waiting] at passed
      omega
    refine ⟨byte, rest, rfl, first, ?_⟩
    rw [ttygetcTake_state]
    refine ⟨rep.cooked.edited rfl rep.cooked.used rfl, ring, rep.cursor, ?_, ?_, ?_⟩
    · rw [available, List.length_cons, unread_eq] at unread
      rw [unread_eq]
      change s.kernel.inputCount + ((s.callers - 1 : Nat) : Int) = (rest.length : Int)
      omega
    · simp only [Console.passed, Console.waiting] at passed ⊢
      change 0 ≤ ((s.callers - 1 : Nat) : Int) - max (-s.kernel.inputCount) 0
      omega
    · have processes := rep.processes
      simp only [NPROC] at *
      omega

theorem other (rep : s.Represents q) {k : Kernel} (tty : k.tty = s.kernel.tty)
    (entry : k.semtab s.kernel.tty.tyisem = s.kernel.semtab s.kernel.tty.tyisem)
    (counting : k.counting = s.kernel.counting) : Represents ⟨k, s.callers⟩ q := by
  have count : k.inputCount = s.kernel.inputCount := by rw [Kernel.inputCount, tty, entry, Kernel.inputCount]
  have used : (k.semtab s.kernel.tty.tyisem).sstate ≠ .free := by
    rw [entry]
    exact rep.cooked.used
  refine ⟨rep.cooked.edited tty used counting, by rw [tty]; exact rep.ring, by rw [tty]; exact rep.cursor, ?_, ?_,
    rep.processes⟩
  · have unread := rep.unread
    rw [unread_eq] at unread ⊢
    rwa [count]
  · have passed := rep.passed
    simp only [Console.passed, Console.waiting, count] at *
    exact passed

end Represents

/-- What each step does to the content. -/
def edit (s : Console) (q : Content) : Label → Content
  | .char c => q.arrive s.kernel.lineFull (lineChar c)
  | .take => { q with unread := q.unread.tail }
  | .wait | .other => q

theorem Represents.step {label : Label} (rep : s.Represents q) (step : Step label s s') (room : s.Room label) :
    s'.Represents (s.edit q label) := by
  cases step with
  | char c => exact rep.char room
  | wait _ _ process => exact rep.wait process
  | take _ _ passed =>
    obtain ⟨byte, rest, available, -, after⟩ := rep.take passed
    rw [edit, available]
    exact after
  | other _ _ _ tty entry counting => exact rep.other tty entry counting

/-- The line is empty after `ttyinit`. -/
theorem represents_start {k : Kernel} (machine : k.counting = int32) (low : 0 ≤ k.nextsem) (high : k.nextsem < NSEM)
    (created : (semcreate 0 k).1 ≠ SYSERR) : (start k).Represents ⟨[], []⟩ := by
  obtain ⟨cooked, count, head, tail, cursor⟩ := ttyinit_cooked machine low high created
  refine ⟨cooked, ?_, cursor, ?_, ?_, show ((0 : Nat) : Int) ≤ NPROC by decide⟩
  · change Holds TY_IBUFLEN (ttyinit k).tty.tyibuff (ttyinit k).tty.tyihead (ttyinit k).tty.tyitail []
    rw [head, tail]
    exact .empty (by decide) (by decide)
  · rw [unread_eq]
    change (ttyinit k).inputCount + 0 = 0
    rw [count]
    rfl
  · simp only [passed, waiting]
    change 0 ≤ (0 : Int) - max (-(ttyinit k).inputCount) 0
    rw [count]
    decide

/-! ## The invariant -/

/-- The pointers are inside the buffer, and what is unread with the unfinished line is the distance
between them. The semaphore counts what is unread whenever no call is between its `wait` and its byte. -/
structure Sound (s : Console) : Prop where
  head : 0 ≤ s.kernel.tty.tyihead ∧ s.kernel.tty.tyihead < TY_IBUFLEN
  tail : 0 ≤ s.kernel.tty.tyitail ∧ s.kernel.tty.tyitail < TY_IBUFLEN
  fits : s.unread + s.kernel.tty.tyicursor ≤ TY_IBUFLEN
  distance : (s.kernel.tty.tyitail - s.kernel.tty.tyihead) % TY_IBUFLEN =
    (s.unread + s.kernel.tty.tyicursor) % TY_IBUFLEN
  available : max (semcount s.kernel.tty.tyisem s.kernel).1 0 ≤ s.unread
  settled : s.passed = 0 → max (semcount s.kernel.tty.tyisem s.kernel).1 0 = s.unread

/-- The bytes that were available and unread before a step are in their slots after it. -/
def Kept (s s' : Console) : Prop :=
  ∀ offset : Nat, (offset : Int) < s.unread →
    s'.kernel.tty.tyibuff (slot TY_IBUFLEN s.kernel.tty.tyihead offset) =
      s.kernel.tty.tyibuff (slot TY_IBUFLEN s.kernel.tty.tyihead offset)

theorem Represents.sound (rep : s.Represents q) : s.Sound := by
  have held := rep.held
  have fits := rep.ring.fits
  have count : (semcount s.kernel.tty.tyisem s.kernel).1 = s.kernel.inputCount :=
    semcount_value rep.cooked.valid rep.cooked.used
  have passed := rep.passed
  refine ⟨⟨rep.ring.head_low, rep.ring.head_high⟩, rep.ring.tail_range, by omega, ?_, ?_, ?_⟩
  · rw [rep.ring.tail_slot, held, slot, Int.emod_sub_emod]
    congr 1
    omega
  · rw [count, Console.unread]
    omega
  · intro none
    rw [count, Console.unread]
    omega

theorem Represents.arrival (rep : s.Represents q) (c : UInt8) :
    Arrival (lineChar c) s.kernel (ttyhandleIn c s.kernel) := by
  have range := rep.count_range
  have cursor := rep.cursor
  have fits : (q.bytes.length : Int) ≤ 32 := rep.ring.fits
  rw [Content.bytes, List.length_append] at fits
  exact ttyhandleIn_arrival rep.cooked (by omega) (by omega) (by omega) (by omega) rep.ring.tail_range.2 c

/-- A character is stored to a slot that no unread byte is in. -/
theorem Represents.kept {label : Label} (rep : s.Represents q) (step : Step label s s') (room : s.Room label) :
    s.Kept s' := by
  cases step with
  | char c s callers =>
    intro offset inside
    change (ttyhandleIn c s).tty.tyibuff _ = s.tty.tyibuff _
    by_cases stores : s.stores (lineChar c)
    · obtain ⟨_, _, _, does, -⟩ := (rep.arrival c).stored stores
      obtain ⟨held, tty⟩ := does.tty
      have held := rep.held
      have cursor := rep.cursor
      rw [tty]
      apply Function.update_of_ne
      exact rep.ring.tail_free (held ▸ (room stores).1) (by omega)
    · obtain ⟨_, _, does⟩ := (rep.arrival c).unstored stores
      obtain ⟨held, tty⟩ := does.tty
      rw [tty]
  | wait s callers process =>
    intro offset inside
    have range : -12 ≤ s.inputCount ∧ s.inputCount ≤ 32 := rep.count_range
    have tty := (wait_counts rep.cooked.machine (show -2147483648 < s.inputCount by omega) rep.cooked.valid
      rep.cooked.used (show s.inputCount < 2147483648 by omega)).tty
    change (XinuStm32.wait s.tty.tyisem s).2.tty.tyibuff _ = _
    rw [tty]
  | take s callers passed =>
    intro offset inside
    change (ttygetcTake s).2.tty.tyibuff _ = _
    rw [ttygetcTake_state]
  | other s k callers tty entry counting =>
    intro offset inside
    change k.tty.tyibuff _ = _
    rw [tty]

/-- A character without room for it puts the tail outside the buffer or holds more than fits. -/
theorem Represents.lost {label : Label} (rep : s.Represents q) (step : Step label s s') (tight : ¬ s.Room label) :
    ¬ s'.Sound := by
  intro sound
  apply tight
  cases step with
  | char c s callers =>
    intro stores
    obtain ⟨tail, cursor, posted, does, one, eof⟩ := (rep.arrival c).stored stores
    obtain ⟨held, tty⟩ := does.tty
    have fits := sound.fits
    have inside := sound.tail.2
    have unread := unread_eq ⟨s, callers⟩
    rw [unread_eq] at fits
    simp only [inputCount_arrives does, tty, TY_IBUFLEN] at fits inside unread one eof ⊢
    refine ⟨by omega, fun key last => ?_⟩
    have past := eof key
    omega
  | wait | take | other => trivial

/-! ## Runs -/

/-- In a run whose characters all found room the ring is sound in every state reached, and one more step
keeps it so, with every unread byte in its slot, exactly if its character finds room. -/
theorem ring_sound_iff {k : Kernel} (machine : k.counting = int32) (low : 0 ≤ k.nextsem) (high : k.nextsem < NSEM)
    (created : (semcreate 0 k).1 ≠ SYSERR) {labels : List Label}
    (run : Run (fun label s s' => Step label s s' ∧ s.Room label) labels (start k) s) :
    s.Sound ∧ ∀ label s', Step label s s' → (s'.Sound ∧ s.Kept s' ↔ s.Room label) := by
  have reached : ∃ q, s.Represents q := by
    refine run.invariant (fun s => ∃ q, s.Represents q) ?_ ⟨_, represents_start machine low high created⟩
    rintro label s s' ⟨step, room⟩ ⟨q, rep⟩
    exact ⟨_, rep.step step room⟩
  obtain ⟨q, rep⟩ := reached
  refine ⟨rep.sound, fun label s' step => ⟨?_, ?_⟩⟩
  · rintro ⟨sound, -⟩
    by_contra tight
    exact rep.lost step tight sound
  · intro room
    exact ⟨(rep.step step room).sound, rep.kept step room⟩

/-- The kernel before the console is initialized, with every semaphore free. -/
def unopened : Kernel := zeroed ⟨0x20002000, 0, by decide, by decide, by decide⟩ int32 fun _ => 0

/-- A line of one character is typed. -/
theorem typedLine_sound : ∃ s, s.Sound ∧ ∀ label s', Step label s s' → (s'.Sound ∧ s.Kept s' ↔ s.Room label) :=
  ⟨_, ring_sound_iff (k := unopened) rfl (by decide) (by decide) (by decide)
    (.cons ⟨.char 97 _ _, fun _ => ⟨by decide +kernel, by decide⟩⟩
      (.cons ⟨.char 10 _ _, fun _ => ⟨by decide +kernel, by decide⟩⟩ (.nil _)))⟩

/-- The characters arrive one after the other. -/
def typed (cs : List UInt8) (s : Kernel) : Kernel := cs.foldl (fun s c => ttyhandleIn c s) s

theorem run_typed (cs : List UInt8) (s : Kernel) (callers : Nat) :
    Run Step (cs.map .char) ⟨s, callers⟩ ⟨typed cs s, callers⟩ := by
  induction cs generalizing s with
  | nil => exact .nil _
  | cons c cs inductionHypothesis => exact .cons (.char c s callers) (inductionHypothesis _)

/-- Thirty characters and a newline. -/
def longLine : List UInt8 := List.replicate 30 97 ++ [10]

/-- A reader takes one of the thirty-one bytes, then the end-of-file character arrives. -/
def waited : Kernel := (XinuStm32.wait (typed longLine (ttyinit unopened)).tty.tyisem
    (typed longLine (ttyinit unopened))).2

def ended : Kernel := ttyhandleIn 4 (ttygetcTake waited).2

/-- A second newline takes the last free slot. -/
def filled : Kernel := typed (longLine ++ [10]) (ttyinit unopened)

def refilled : Kernel := ttyhandleIn 10 filled

theorem ended_reached : ∃ labels, Run Step labels (start unopened) ⟨ended, 0⟩ := by
  have waits : Step .wait ⟨typed longLine (ttyinit unopened), 0⟩ ⟨waited, 1⟩ := .wait _ 0 (by decide)
  have takes : Step .take ⟨waited, 1⟩ ⟨(ttygetcTake waited).2, 0⟩ := .take waited 1 (by decide +kernel)
  have ends : Step (.char 4) ⟨(ttygetcTake waited).2, 0⟩ ⟨ended, 0⟩ := .char 4 _ 0
  exact ⟨_, (run_typed longLine (ttyinit unopened) 0).append (.cons waits (.cons takes (.single ends)))⟩

theorem filled_sound : Sound ⟨filled, 0⟩ :=
  ⟨by decide +kernel, by decide +kernel, by decide +kernel, by decide +kernel, by decide +kernel, by decide +kernel⟩

/-- The end-of-file character at the last slot leaves the tail behind the buffer; a newline that finds the
ring full is stored over the oldest unread byte. -/
theorem ring_unsound :
    (∃ labels s, Run Step labels (start unopened) s ∧ ¬ s.Sound) ∧
      ∃ labels s label s', Run Step labels (start unopened) s ∧ s.Sound ∧ Step label s s' ∧ ¬ s.Kept s' := by
  constructor
  · obtain ⟨labels, run⟩ := ended_reached
    refine ⟨labels, _, run, fun sound => ?_⟩
    exact absurd sound.tail.2 (by decide +kernel)
  · have run : Run Step _ (start unopened) ⟨filled, 0⟩ := run_typed (longLine ++ [10]) (ttyinit unopened) 0
    have stores : Step (.char 10) ⟨filled, 0⟩ ⟨refilled, 0⟩ := .char 10 filled 0
    refine ⟨_, _, _, _, run, filled_sound, stores, fun kept => ?_⟩
    exact absurd (kept 0 (by decide +kernel)) (by decide +kernel)

end Console

end XinuStm32
