import XinuStm32.Kernel.TtyControl
import XinuStm32.Properties.InputRing

/-!
# Looking ahead on the console

`TC_NEXTC` reads the byte at the tail of the ring, where the next character will be stored; `ttygetc` takes the byte
at the head. Whatever was typed, read and set before, a look changes nothing, and it sees the byte that is taken next
exactly when the two places hold the same. An end-of-file character can leave the tail behind the ring; the character
that comes then is stored over the input semaphore, and there these runs end.
-/

namespace XinuStm32

open Transition

namespace Console

inductive Event where
  | console (label : Label)
  | control (request : TtyRequest)
  | look

/-- A character arrives while the tail is in the ring. -/
def Inside (s : Kernel) : Label → Prop
  | .char _ => s.tty.tyitail < TY_IBUFLEN
  | _ => True

/-- The steps of the console, the requests that do not wait, and the end of a look that the semaphore let through. -/
inductive ControlStep : Event → Console → Console → Prop where
  | console {label : Label} {s s' : Console} (step : Step label s s') (inside : Inside s.kernel label) :
      ControlStep (.console label) s s'
  | control (request : TtyRequest) (s : Kernel) (callers : Nat) (direct : request ≠ .nextc) :
      ControlStep (.control request) ⟨s, callers⟩ ⟨(ttycontrol request s).2, callers⟩
  | look (s : Kernel) (callers : Nat) (passed : 0 < passed ⟨s, callers⟩) :
      ControlStep .look ⟨s, callers⟩ ⟨(nextcLook s).2, callers - 1⟩

end Console

/-- The byte that `ttygetc` takes from the ring when its `wait` finds one. -/
def takenByte (s : Kernel) : UInt8 :=
  let (_, s) := wait s.tty.tyisem s
  s.tty.tyibuff s.tty.tyihead

/-- A look returns the byte that the next `ttygetc` takes, and consumes nothing. -/
structure LooksAhead (s : Kernel) : Prop where
  byte : (ttycontrol .nextc s).1 = (takenByte (ttycontrol .nextc s).2).toNat
  ring : (ttycontrol .nextc s).2.tty = s.tty
  count : (ttycontrol .nextc s).2.inputCount = s.inputCount

variable {s s' s'' : Kernel}

/-! ## What stays of the console line -/

/-- The input semaphore is the same one and in use, and its count is in the machine's arithmetic. -/
structure Attends (s s' : Kernel) : Prop where
  isem : s'.tty.tyisem = s.tty.tyisem
  sstate : (s'.semtab s.tty.tyisem).sstate = (s.semtab s.tty.tyisem).sstate
  counting : s'.counting = s.counting
  count : (s'.semtab s.tty.tyisem).scount = (s.semtab s.tty.tyisem).scount ∨
    ∃ value, (s'.semtab s.tty.tyisem).scount = s.counting value

namespace Attends

theorem of_entry (isem : s'.tty.tyisem = s.tty.tyisem) (entry : s'.semtab s.tty.tyisem = s.semtab s.tty.tyisem)
    (counting : s'.counting = s.counting) : Attends s s' :=
  ⟨isem, by rw [entry], counting, Or.inl (by rw [entry])⟩

theorem refl (s : Kernel) : Attends s s := .of_entry rfl rfl rfl

theorem trans (first : Attends s s') (second : Attends s' s'') : Attends s s'' := by
  have sstate := second.sstate
  have count := second.count
  rw [first.isem, first.counting] at count
  rw [first.isem] at sstate
  refine ⟨second.isem.trans first.isem, sstate.trans first.sstate, second.counting.trans first.counting, ?_⟩
  cases count with
  | inl same =>
    rw [same]
    exact first.count
  | inr counted => exact Or.inr counted

theorem of_same (same : SameConsole s s') : Attends s s' :=
  .of_entry (by rw [same.tty]) (by rw [same.semtab]) same.counting

/-- Only the ring or a setting changed. -/
theorem of_tty (head tail cursor : Int) (buff : Int → UInt8) (mode : UInt8) (echo held : Bool) :
    Attends s { s with tty := { s.tty with
      tyihead := head
      tyitail := tail
      tyibuff := buff
      tyimode := mode
      tyiecho := echo
      tyicursor := cursor
      tyoheld := held } } :=
  .of_entry rfl rfl rfl

theorem addCount (sem change : Int) : Attends s (s.addCount sem change) := by
  by_cases input : s.tty.tyisem = sem
  · subst input
    have entry : (s.addCount s.tty.tyisem change).semtab s.tty.tyisem =
        { s.semtab s.tty.tyisem with scount := s.counting ((s.semtab s.tty.tyisem).scount + change) } :=
      Function.update_self ..
    exact ⟨rfl, by rw [entry], rfl, Or.inr ⟨_, by rw [entry]⟩⟩
  · exact .of_entry rfl (Function.update_of_ne input ..) rfl

theorem signalOnce (sem : Int) : Attends s (signalOnce sem s) := by
  simp only [XinuStm32.signalOnce]
  split
  · exact ((addCount sem 1).trans (.of_same (.dequeue _))).trans (.of_same (.ready _))
  · exact addCount sem 1

theorem signalnLoop (sem : Int) (count : Nat) : Attends s (signalnLoop sem count s) := by
  induction count generalizing s with
  | zero => exact .refl s
  | succ count inductionHypothesis => exact (signalOnce sem).trans inductionHypothesis

theorem signal (sem : Int) : Attends s (signal sem s).2 := by
  have refused : Attends s (restore (disable s).1 (disable s).2) := .of_same ⟨rfl, rfl, rfl⟩
  simp only [XinuStm32.signal]
  split
  · exact refused
  · split
    · exact refused
    · exact ((of_same .disable).trans (signalOnce sem)).trans (.of_same (.restore _))

theorem reschedCntl (request : Deferral) : Attends s (reschedCntl request s).2 := by
  cases request with
  | start => exact .of_entry rfl rfl rfl
  | stop =>
    simp only [XinuStm32.reschedCntl]
    split
    · exact .refl s
    · split <;> exact .of_entry rfl rfl rfl

theorem signaln (sem : Int) (count : Int32) : Attends s (signaln sem count s).2 := by
  have refused : Attends s (restore (disable s).1 (disable s).2) := .of_same ⟨rfl, rfl, rfl⟩
  simp only [XinuStm32.signaln]
  split
  · exact refused
  · split
    · exact refused
    · have looped := ((of_same .disable).trans (reschedCntl .start)).trans
        (signalnLoop (s := (XinuStm32.reschedCntl .start (disable s).2).2) sem count.toInt.toNat)
      exact (looped.trans (reschedCntl .stop)).trans (.of_same (.restore _))

theorem wait (sem : Int) : Attends s (wait sem s).2 := by
  have refused : Attends s (restore (disable s).1 (disable s).2) := .of_same ⟨rfl, rfl, rfl⟩
  simp only [XinuStm32.wait]
  split
  · exact refused
  · split
    · exact refused
    · have counted := (of_same (s := s) .disable).trans (addCount sem (-1))
      split
      · exact (counted.trans (.of_same (.waitBlock sem))).trans (.of_same (.restore _))
      · exact counted.trans (.of_same (.restore _))

/-! ### The line discipline, in each mode -/

theorem storeChar (inside : s.tty.tyitail < TY_IBUFLEN) (ch : UInt8) : Attends s (storeChar ch s) := by
  rw [XinuStm32.storeChar, Ttycblk.storeAt_inside inside]
  exact .of_tty ..

theorem wrapTail : Attends s (wrapTail s) := by
  simp only [XinuStm32.wrapTail]
  split
  · exact .of_tty ..
  · exact .refl s

theorem erase1 : Attends s (erase1 s) := (of_tty ..).trans (.of_same (erase1_same (s := s)))

theorem availChars : Attends s (availChars s).2 := .of_same (.semcount _)

/-- A character is stored after an echo. -/
theorem stored (same : SameConsole s s') (inside : s.tty.tyitail < TY_IBUFLEN) (ch : UInt8) :
    Attends s (XinuStm32.storeChar ch s') := by
  have inside' : s'.tty.tyitail < TY_IBUFLEN := by rwa [same.tty]
  exact (of_same same).trans (storeChar inside' ch)

theorem ttyhandleInCooked (inside : s.tty.tyitail < TY_IBUFLEN) (ch : UInt8) : Attends s (ttyhandleInCooked ch s) := by
  simp only [XinuStm32.ttyhandleInCooked]
  split
  · exact ((of_tty ..).trans (.of_same (.eputc _))).trans (.of_same (.eputc _))
  split
  · split
    · exact (of_tty ..).trans erase1
    · exact .refl s
  split
  · have stored := (stored (.echo s.tty.tyiecho ch) inside ch).trans wrapTail
    generalize XinuStm32.wrapTail _ = stored' at stored ⊢
    exact (stored.trans (signaln _ _)).trans (.of_tty ..)
  have available : SameConsole s (XinuStm32.availChars s).2 := .semcount _
  generalize XinuStm32.availChars s = counted at available ⊢
  split
  · exact (of_same available).trans (.of_same (.eputc _))
  have echoed := available.trans (.echo counted.2.tty.tyiecho ch)
  generalize (if counted.2.tty.tyiecho = true then echoch ch counted.2 else counted.2) = echo at echoed ⊢
  have inside' : echo.tty.tyitail < TY_IBUFLEN := by rwa [echoed.tty]
  split
  · split
    · exact of_same echoed
    · exact (stored echoed inside ch).trans (signal _)
  · have moved : Attends s { echo with tty := { echo.tty with tyicursor := echo.tty.tyicursor + 1 } } :=
      (of_same echoed).trans (.of_tty ..)
    refine (moved.trans (storeChar ?_ ch)).trans wrapTail
    exact inside'

theorem ttyhandleIn (inside : s.tty.tyitail < TY_IBUFLEN) (c : UInt8) : Attends s (ttyhandleIn c s) := by
  have available : SameConsole s (XinuStm32.availChars s).2 := .semcount _
  simp only [XinuStm32.ttyhandleIn]
  generalize XinuStm32.availChars s = counted at available ⊢
  have inside' : counted.2.tty.tyitail < TY_IBUFLEN := by rwa [available.tty]
  split
  · -- raw mode
    split
    · exact of_same available
    · exact ((stored available inside c).trans wrapTail).trans (signal _)
  generalize (if c = TY_RETURN ∧ counted.2.tty.tyicrlf = true then TY_NEWLINE else c) = ch
  have held : Attends s { counted.2 with tty := { counted.2.tty with tyoheld := false } } :=
    (of_same available).trans (.of_tty ..)
  split
  · -- cbreak mode
    split
    · exact held.trans (.of_same (.eputc _))
    · refine (((held.trans (storeChar ?_ ch)).trans wrapTail).trans (.of_same (.echo _ ch))).trans (signal _)
      exact inside'
  · refine held.trans (ttyhandleInCooked ?_ ch)
    exact inside'

theorem ttygetcTake : Attends s (ttygetcTake s).2 := by
  simp only [XinuStm32.ttygetcTake]
  split <;> exact .of_tty ..

theorem nextcLook : Attends s (nextcLook s).2 := signal _

theorem ttycontrol (request : TtyRequest) : Attends s (ttycontrol request s).2 := by
  cases request with
  | nextc => exact (wait _).trans nextcLook
  | ichars => exact .of_same (.semcount _)
  | _ => exact .of_tty ..

end Attends

theorem Console.ControlStep.attends {event : Console.Event} {s s' : Console} (step : ControlStep event s s') :
    Attends s.kernel s'.kernel := by
  cases step with
  | console step inside =>
    cases step with
    | char c => exact .ttyhandleIn inside c
    | wait => exact .wait _
    | take => exact .ttygetcTake
    | other _ _ _ tty entry counting => exact .of_entry (by rw [tty]) entry counting
  | control request => exact .ttycontrol request
  | look => exact .nextcLook

/-! ## Reachable states -/

/-- The input semaphore is in use, and its count is one of the machine. -/
structure Attached (s : Kernel) : Prop where
  valid : ¬ isbadsem s.tty.tyisem
  used : (s.semtab s.tty.tyisem).sstate ≠ .free
  machine : s.counting = int32
  high : s.inputCount < 2147483648

theorem int32_lt (value : Int) : int32 value < 2147483648 := by
  rw [int32]
  exact Int.bmod_lt (by decide)

theorem Attends.attached (attends : Attends s s') (attached : Attached s) : Attached s' where
  valid := by
    rw [attends.isem]
    exact attached.valid
  used := by
    rw [attends.isem, attends.sstate]
    exact attached.used
  machine := attends.counting.trans attached.machine
  high := by
    rw [Kernel.inputCount, attends.isem]
    cases attends.count with
    | inl same =>
      rw [same]
      exact attached.high
    | inr counted =>
      obtain ⟨value, counted⟩ := counted
      rw [counted, attached.machine]
      exact int32_lt value

/-! ## Looking -/

/-- With a byte available the `wait` of a call counts it, and changes nothing else of the console. -/
theorem wait_available (attached : Attached s) (available : 0 < s.inputCount) :
    Counts s.tty.tyisem (-1) s (wait s.tty.tyisem s).2 :=
  wait_counts attached.machine (Int.lt_trans (by decide) available) attached.valid attached.used attached.high

/-- The look returns the byte at the tail, and its `signal` gives back what its `wait` took. -/
theorem nextc_changes (attached : Attached s) (available : 0 < s.inputCount) :
    (ttycontrol .nextc s).1 = (s.tty.byteAt s.tty.tyitail).toNat ∧ Counts s.tty.tyisem 0 s (ttycontrol .nextc s).2 := by
  have waited := wait_available attached available
  have attached' := (Attends.wait s.tty.tyisem).attached attached
  have high := attached.high
  change (((wait s.tty.tyisem s).2.tty.byteAt (wait s.tty.tyisem s).2.tty.tyitail).toNat : Int) = _ ∧
    Counts s.tty.tyisem 0 s (signal (wait s.tty.tyisem s).2.tty.tyisem (wait s.tty.tyisem s).2).2
  generalize (wait s.tty.tyisem s).2 = t at waited attached' ⊢
  have count : t.inputCount = s.inputCount + -1 := by
    rw [Kernel.inputCount, waited.tty, waited.entry]
    rfl
  have signalled := signal_counts attached'.machine (show -2147483648 < t.inputCount by omega) attached'.valid
    attached'.used (show t.inputCount + 1 < 2147483648 by omega)
  rw [waited.tty] at signalled ⊢
  exact ⟨rfl, waited.trans signalled⟩

theorem takenByte_eq (attached : Attached s) (available : 0 < s.inputCount) :
    takenByte s = s.tty.tyibuff s.tty.tyihead := by
  change (wait s.tty.tyisem s).2.tty.tyibuff (wait s.tty.tyisem s).2.tty.tyihead = _
  rw [(wait_available attached available).tty]

theorem looksAhead_iff (attached : Attached s) (available : 0 < s.inputCount) :
    LooksAhead s ↔ s.tty.byteAt s.tty.tyitail = s.tty.tyibuff s.tty.tyihead := by
  obtain ⟨byte, counts⟩ := nextc_changes attached available
  have count : (ttycontrol .nextc s).2.inputCount = s.inputCount := by
    rw [Kernel.inputCount, counts.tty, counts.entry]
    exact Int.add_zero _
  have attached' := (Attends.ttycontrol .nextc).attached attached
  have taken := takenByte_eq attached' (by rwa [count])
  rw [counts.tty] at taken
  constructor
  · intro looks
    have same := looks.byte
    rw [byte, taken] at same
    exact UInt8.toNat_inj.mp (Int.ofNat.inj same)
  · intro same
    exact ⟨by rw [byte, taken, same], counts.tty, count⟩

/-- In every state that the console reaches, whatever was typed into the ring and read and whichever modes were set, a
look at an available byte sees what is taken next exactly if the byte at the tail is the same as the one at the head. -/
theorem lookahead_reads_iff {k : Kernel} (machine : k.counting = int32) (low : 0 ≤ k.nextsem) (high : k.nextsem < NSEM)
    (created : (semcreate 0 k).1 ≠ SYSERR) {events : List Console.Event} {s : Console}
    (run : Run Console.ControlStep events (Console.start k) s) (available : 0 < s.kernel.inputCount) :
    LooksAhead s.kernel ↔ s.kernel.tty.byteAt s.kernel.tty.tyitail = s.kernel.tty.tyibuff s.kernel.tty.tyihead := by
  have started : Attached (Console.start k).kernel := by
    obtain ⟨cooked, count, -⟩ := ttyinit_cooked machine low high created
    exact ⟨cooked.valid, cooked.used, cooked.machine, by rw [Console.start, count]; decide⟩
  have attached : Attached s.kernel := by
    refine run.invariant (fun s => Attached s.kernel) ?_ started
    intro _ _ _ step attached
    exact step.attends.attached attached
  exact looksAhead_iff attached available

/-- The tail is in the ring whenever one of these characters arrives. -/
def Console.TailsInside : List UInt8 → Kernel → Prop
  | [], _ => True
  | c :: cs, s => s.tty.tyitail < TY_IBUFLEN ∧ TailsInside cs (ttyhandleIn c s)

instance Console.decidableTailsInside : (cs : List UInt8) → (s : Kernel) → Decidable (Console.TailsInside cs s)
  | [], _ => isTrue trivial
  | c :: cs, s =>
    have := Console.decidableTailsInside cs (ttyhandleIn c s)
    inferInstanceAs (Decidable (_ ∧ _))

theorem run_control (cs : List UInt8) {s : Kernel} (inside : Console.TailsInside cs s) (callers : Nat) :
    Run Console.ControlStep (cs.map fun c => .console (.char c)) ⟨s, callers⟩ ⟨Console.typed cs s, callers⟩ := by
  induction cs generalizing s with
  | nil => exact .nil _
  | cons c cs inductionHypothesis =>
    exact .cons (.console (.char c s callers) inside.1) (inductionHypothesis inside.2)

/-- After thirty characters and two newlines the ring is full. -/
def full : Console := ⟨Console.filled, 0⟩

/-- Head and tail are one slot there. -/
theorem full_looksAhead : LooksAhead full.kernel := by
  have run : Run Console.ControlStep _ (Console.start Console.unopened) full :=
    run_control (Console.longLine ++ [10]) (s := ttyinit Console.unopened) (by decide +kernel) 0
  have available : 0 < full.kernel.inputCount := by decide +kernel
  apply (lookahead_reads_iff (k := Console.unopened) rfl (by decide) (by decide) (by decide) run available).mpr
  decide +kernel

/-- The line `a` was typed: the look returns the zero behind it. -/
theorem typedLine_looksPast : (∃ events, Run Console.ControlStep events (Console.start Console.unopened)
      ⟨Console.typed [97, 10] (ttyinit Console.unopened), 0⟩) ∧
    0 < (Console.typed [97, 10] (ttyinit Console.unopened)).inputCount ∧
      (ttycontrol .nextc (Console.typed [97, 10] (ttyinit Console.unopened))).1 = 0 ∧
        takenByte (Console.typed [97, 10] (ttyinit Console.unopened)) = 97 ∧
          ¬ LooksAhead (Console.typed [97, 10] (ttyinit Console.unopened)) := by
  have looked : (ttycontrol .nextc (Console.typed [97, 10] (ttyinit Console.unopened))).1 = 0 := by decide +kernel
  refine ⟨⟨_, run_control [97, 10] (s := ttyinit Console.unopened) (by decide +kernel) 0⟩, by decide +kernel, looked,
    by decide +kernel, ?_⟩
  intro looks
  have byte := looks.byte
  rw [looked] at byte
  exact absurd byte (by decide +kernel)

end XinuStm32
