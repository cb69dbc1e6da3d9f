import XinuStm32.Abstract.LineEditor
import XinuStm32.Lib.Ring

/-!
# What an arriving character does to the input ring

Echo and the release of waiting processes leave the ring alone, so that an arriving character stores
at most one byte, moves the tail and the cursor, and posts to the input semaphore.
-/

namespace XinuStm32

open Ring

variable {s s' s'' : Kernel}

/-! ## What leaves the console line alone -/

/-- The console line and the semaphores are as they were. -/
structure SameConsole (s s' : Kernel) : Prop where
  tty : s'.tty = s.tty
  semtab : s'.semtab = s.semtab
  counting : s'.counting = s.counting

namespace SameConsole

theorem refl (s : Kernel) : SameConsole s s := ⟨rfl, rfl, rfl⟩

theorem trans (first : SameConsole s s') (second : SameConsole s' s'') : SameConsole s s'' :=
  ⟨second.tty.trans first.tty, second.semtab.trans first.semtab, second.counting.trans first.counting⟩

theorem disable : SameConsole s (disable s).2 := ⟨rfl, rfl, rfl⟩

theorem restore (mask : UInt32) : SameConsole s (restore mask s) := ⟨rfl, rfl, rfl⟩

theorem enqueue (pid q : Int) : SameConsole s (enqueue pid q s).2 := by
  simp only [XinuStm32.enqueue]
  split <;> exact ⟨rfl, rfl, rfl⟩

theorem dequeue (q : Int) : SameConsole s (dequeue q s).2 := by
  simp only [XinuStm32.dequeue, getfirst]
  split
  · exact refl s
  · split <;> exact ⟨rfl, rfl, rfl⟩

theorem ready (pid : Int) : SameConsole s (ready pid s).2 := by
  simp only [XinuStm32.ready, insert]
  split
  · exact refl s
  · split <;> exact ⟨rfl, rfl, rfl⟩

theorem eputc (c : UInt8) : SameConsole s (eputc c s) := ⟨rfl, rfl, rfl⟩

theorem echoch (c : UInt8) : SameConsole s (echoch c s) := by
  simp only [XinuStm32.echoch]
  split
  · exact (eputc _).trans (eputc _)
  · split
    · exact (eputc _).trans (eputc _)
    · exact eputc _

theorem echo (echo : Bool) (c : UInt8) : SameConsole s (if echo = true then XinuStm32.echoch c s else s) := by
  split
  · exact echoch c
  · exact refl s

theorem eraseColumn : SameConsole s (eraseColumn s) := by
  simp only [XinuStm32.eraseColumn]
  split
  · exact ((eputc _).trans (eputc _)).trans (eputc _)
  · exact eputc _

theorem semcount (sem : Int) : SameConsole s (semcount sem s).2 := by
  simp only [XinuStm32.semcount]
  split <;> exact disable.trans (restore _)

theorem waitBlock (sem : Int) : SameConsole s (waitBlock sem s) := by
  have blocked : SameConsole s (s.setProc s.currpid { s.proctab s.currpid with prstate := .wait, prsem := sem }) :=
    ⟨rfl, rfl, rfl⟩
  exact (blocked.trans (enqueue _ _)).trans ⟨rfl, rfl, rfl⟩

end SameConsole

/-! ## The input semaphore -/

/-- A semaphore's count changed and nothing else of it or of the console line. -/
structure Counts (sem change : Int) (s s' : Kernel) : Prop where
  tty : s'.tty = s.tty
  entry : s'.semtab sem = { s.semtab sem with scount := (s.semtab sem).scount + change }
  counting : s'.counting = s.counting

namespace Counts

variable {sem change change' : Int}

theorem none (same : SameConsole s s') : Counts sem 0 s s' :=
  ⟨same.tty, by rw [same.semtab, Int.add_zero], same.counting⟩

theorem trans (first : Counts sem change s s') (second : Counts sem change' s' s'') :
    Counts sem (change + change') s s'' := by
  refine ⟨second.tty.trans first.tty, ?_, second.counting.trans first.counting⟩
  rw [second.entry, first.entry, Int.add_assoc]

theorem before (same : SameConsole s s') (counts : Counts sem change s' s'') : Counts sem change s s'' := by
  have both : Counts sem (0 + change) s s'' := (none same).trans counts
  rwa [Int.zero_add] at both

theorem after (counts : Counts sem change s s') (same : SameConsole s' s'') : Counts sem change s s'' := by
  have both := counts.trans (none same)
  rwa [Int.add_zero] at both

theorem addCount (machine : s.counting = int32) (low : -2147483648 ≤ (s.semtab sem).scount + change)
    (high : (s.semtab sem).scount + change < 2147483648) : Counts sem change s (s.addCount sem change) := by
  refine ⟨rfl, ?_, rfl⟩
  simp only [Kernel.addCount, Kernel.setSem, Kernel.touch, Function.update_self, machine]
  rw [int32_of_range low high]

end Counts

section semaphore

variable {sem : Int} (machine : s.counting = int32) (low : -2147483648 < (s.semtab sem).scount)

include machine low

theorem signalOnce_counts (high : (s.semtab sem).scount + 1 < 2147483648) : Counts sem 1 s (signalOnce sem s) := by
  have added : Counts sem 1 s (s.addCount sem 1) := .addCount machine (by omega) high
  simp only [signalOnce]
  split
  · exact (added.after (.dequeue _)).after (.ready _)
  · exact added

theorem signalnLoop_counts (count : Nat) (high : (s.semtab sem).scount + count < 2147483648) :
    Counts sem count s (signalnLoop sem count s) := by
  induction count generalizing s with
  | zero => exact .none (.refl s)
  | succ count inductionHypothesis =>
    have once := signalOnce_counts machine low (by omega)
    have rest : Counts sem count (signalOnce sem s) (signalnLoop sem count (signalOnce sem s)) := by
      apply inductionHypothesis
      · rw [once.counting, machine]
      · rw [once.entry]
        change -2147483648 < (s.semtab sem).scount + 1
        omega
      · rw [once.entry]
        change (s.semtab sem).scount + 1 + (count : Int) < 2147483648
        omega
    have both := once.trans rest
    rwa [Int.add_comm] at both

variable (valid : ¬ isbadsem sem) (used : (s.semtab sem).sstate ≠ .free)

include valid used

theorem signal_counts (high : (s.semtab sem).scount + 1 < 2147483648) : Counts sem 1 s (signal sem s).2 := by
  simp only [signal]
  rw [if_neg valid, if_neg (show ¬ ((disable s).2.semtab sem).sstate = .free from used)]
  exact (Counts.before .disable (signalOnce_counts machine low high)).after (.restore _)

theorem signaln_counts (count : Int32) {posted : Nat} (exact : count.toInt = posted)
    (high : (s.semtab sem).scount + posted < 2147483648) : Counts sem posted s (signaln sem count s).2 := by
  simp only [signaln]
  rw [if_neg (by
    rintro (bad | negative)
    · exact valid bad
    · omega), if_neg (show ¬ ((disable s).2.semtab sem).sstate = .free from used), exact, Int.toNat_natCast]
  -- the deferral around the loop is no part of the console line
  have started : SameConsole s (reschedCntl .start (disable s).2).2 := ⟨rfl, rfl, rfl⟩
  have looped := signalnLoop_counts (s := (reschedCntl .start (disable s).2).2) machine low posted high
  generalize signalnLoop sem posted (reschedCntl .start (disable s).2).2 = t at looped ⊢
  have stopped : SameConsole t (reschedCntl .stop t).2 := by
    simp only [reschedCntl]
    split
    · exact .refl t
    · split <;> exact ⟨rfl, rfl, rfl⟩
  exact ((Counts.before started looped).after stopped).after (.restore _)

theorem wait_counts (high : (s.semtab sem).scount < 2147483648) : Counts sem (-1) s (wait sem s).2 := by
  have added : Counts sem (-1) (disable s).2 ((disable s).2.addCount sem (-1)) := .addCount machine
    (by
      change -2147483648 ≤ (s.semtab sem).scount + -1
      omega)
    (by
      change (s.semtab sem).scount + -1 < 2147483648
      omega)
  simp only [wait]
  rw [if_neg valid, if_neg (show ¬ ((disable s).2.semtab sem).sstate = .free from used)]
  split
  · exact ((Counts.before .disable added).after (.waitBlock sem)).after (.restore _)
  · exact (Counts.before .disable added).after (.restore _)

end semaphore

theorem semcount_value {sem : Int} (valid : ¬ isbadsem sem) (used : (s.semtab sem).sstate ≠ .free) :
    (semcount sem s).1 = (s.semtab sem).scount := by
  simp only [semcount]
  rw [if_neg (by
    rintro (bad | free)
    · exact valid bad
    · exact used free)]
  rfl

/-! ## The ring -/

theorem erase1_same : SameConsole { s with tty := { s.tty with tyitail := back TY_IBUFLEN s.tty.tyitail 1 } }
    (erase1 s) := by
  simp only [erase1, back]
  generalize (if s.tty.tyitail - 1 < 0 then s.tty.tyitail - 1 + TY_IBUFLEN else s.tty.tyitail - 1) = tail
  split
  · split
    · split
      · exact SameConsole.eraseColumn.trans .eraseColumn
      · exact .eraseColumn
    · exact .eraseColumn
  · exact .refl _

/-- Storing a character and wrapping, after an echo. -/
theorem stored_same (same : SameConsole s s') (inside : s.tty.tyitail < TY_IBUFLEN)
    (ch : UInt8) : SameConsole { s with tty := { s.tty with
    tyibuff := Function.update s.tty.tyibuff s.tty.tyitail ch
    tyitail := next TY_IBUFLEN s.tty.tyitail } } (wrapTail (storeChar ch s')) := by
  have tty := same.tty
  have tail : (storeChar ch s').tty.tyitail = s.tty.tyitail + 1 := by rw [← tty]; rfl
  rw [wrapTail, tail]
  simp only [next]
  split
  · exact ⟨by simp only [storeChar, tty, Ttycblk.storeAt_inside inside], same.semtab, same.counting⟩
  · exact ⟨by simp only [storeChar, tty, Ttycblk.storeAt_inside inside], same.semtab, same.counting⟩

/-! ## The line discipline -/

/-- The settings of `ttyinit` that decide what a character does, with an input semaphore in use. -/
structure Cooked (s : Kernel) : Prop where
  mode : s.tty.tyimode = TY_IMCOOKED
  icrlf : s.tty.tyicrlf = true
  erase : s.tty.tyierase = true
  erasec : s.tty.tyierasec = TY_BACKSP
  erasec2 : s.tty.tyierasec2 = TY_BACKSP2
  eof : s.tty.tyeof = true
  eofch : s.tty.tyeofch = TY_EOFCH
  kill : s.tty.tyikill = true
  killc : s.tty.tyikillc = TY_KILLCH
  valid : ¬ isbadsem s.tty.tyisem
  used : (s.semtab s.tty.tyisem).sstate ≠ .free
  machine : s.counting = int32

/-- The settings outlive every change of the ring. -/
theorem Cooked.edited (cooked : Cooked s) {head tail cursor : Int} {buffer : Int → UInt8} {held : Bool}
    (tty : s'.tty = { s.tty with
      tyihead := head
      tyitail := tail
      tyibuff := buffer
      tyicursor := cursor
      tyoheld := held })
    (used : (s'.semtab s.tty.tyisem).sstate ≠ .free) (counting : s'.counting = s.counting) : Cooked s' := by
  refine ⟨?_, ?_, ?_, ?_, ?_, ?_, ?_, ?_, ?_, ?_, ?_, counting.trans cooked.machine⟩ <;> rw [tty]
  exacts [cooked.mode, cooked.icrlf, cooked.erase, cooked.erasec, cooked.erasec2, cooked.eof, cooked.eofch,
    cooked.kill, cooked.killc, cooked.valid, used]

/-- The count of the input semaphore: characters available, or minus the number of waiting readers. -/
def Kernel.inputCount (s : Kernel) : Int := (s.semtab s.tty.tyisem).scount

/-- A step of the line discipline: the new buffer, tail and cursor, and what was posted. -/
structure Arrives (s s' : Kernel) (buffer : Int → UInt8) (tail cursor posted : Int) : Prop where
  tty : ∃ held, s'.tty = { s.tty with tyibuff := buffer, tyitail := tail, tyicursor := cursor, tyoheld := held }
  entry : s'.semtab s.tty.tyisem = { s.semtab s.tty.tyisem with scount := s.inputCount + posted }
  counting : s'.counting = s.counting

/-- The test before a character is put into the line. -/
def Kernel.lineFull (s : Kernel) : Prop := max s.inputCount 0 + s.tty.tyicursor ≥ TY_IBUFLEN - 1

instance (s : Kernel) : Decidable s.lineFull := inferInstanceAs (Decidable (_ ≥ _))

/-- The characters that go into the ring: newline, and text while the line is not full, the end-of-file
character only at the start of a line. -/
def Kernel.stores (s : Kernel) (ch : UInt8) : Prop :=
  ch = TY_NEWLINE ∨ isText ch ∧ ¬ s.lineFull ∧ (ch = TY_EOFCH → s.tty.tyicursor = 0)

instance (s : Kernel) (ch : UInt8) : Decidable (s.stores ch) := inferInstanceAs (Decidable (_ ∨ _))

/-- What `ttyhandle_in` does in cooked mode with a character, return already mapped. -/
inductive Arrival (ch : UInt8) (s s' : Kernel) : Prop where
  | kill (key : ch = TY_KILLCH)
      (does : Arrives s s' s.tty.tyibuff (back TY_IBUFLEN s.tty.tyitail s.tty.tyicursor) 0 0)
  | erase (key : isErase ch) (some : s.tty.tyicursor > 0)
      (does : Arrives s s' s.tty.tyibuff (back TY_IBUFLEN s.tty.tyitail 1) (s.tty.tyicursor - 1) 0)
  | eraseNone (key : isErase ch) (none : ¬ s.tty.tyicursor > 0)
      (does : Arrives s s' s.tty.tyibuff s.tty.tyitail s.tty.tyicursor 0)
  | newline (key : ch = TY_NEWLINE)
      (does : Arrives s s' (Function.update s.tty.tyibuff s.tty.tyitail ch) (next TY_IBUFLEN s.tty.tyitail) 0
        (s.tty.tyicursor + 1))
  | full (key : isText ch) (full : s.lineFull)
      (does : Arrives s s' s.tty.tyibuff s.tty.tyitail s.tty.tyicursor 0)
  | eof (key : ch = TY_EOFCH) (room : ¬ s.lineFull) (start : s.tty.tyicursor = 0)
      (does : Arrives s s' (Function.update s.tty.tyibuff s.tty.tyitail ch) (s.tty.tyitail + 1) s.tty.tyicursor 1)
  | eofLate (key : ch = TY_EOFCH) (room : ¬ s.lineFull) (inside : s.tty.tyicursor ≠ 0)
      (does : Arrives s s' s.tty.tyibuff s.tty.tyitail s.tty.tyicursor 0)
  | char (key : isText ch) (other : ch ≠ TY_EOFCH) (room : ¬ s.lineFull)
      (does : Arrives s s' (Function.update s.tty.tyibuff s.tty.tyitail ch) (next TY_IBUFLEN s.tty.tyitail)
        (s.tty.tyicursor + 1) 0)

namespace Arrives

/-- A step that posts nothing: the line was edited and characters were echoed. -/
theorem edited {buffer : Int → UInt8} {tail cursor : Int}
    (same : SameConsole { s with tty := { s.tty with tyibuff := buffer, tyitail := tail, tyicursor := cursor } } s') :
    Arrives s s' buffer tail cursor 0 := by
  refine ⟨⟨s.tty.tyoheld, same.tty⟩, ?_, same.counting⟩
  rw [same.semtab, Int.add_zero]
  rfl

/-- A step that stores and then posts. -/
theorem posted {buffer : Int → UInt8} {tail cursor posted : Int} {t : Kernel}
    (same : SameConsole { s with tty := { s.tty with tyibuff := buffer, tyitail := tail } } t)
    (counts : Counts s.tty.tyisem posted t s')
    (last : s''.semtab = s'.semtab ∧ s''.counting = s'.counting ∧ s''.tty = { s'.tty with tyicursor := cursor }) :
    Arrives s s'' buffer tail cursor posted := by
  refine ⟨⟨s.tty.tyoheld, ?_⟩, ?_, last.2.1.trans (counts.counting.trans same.counting)⟩
  · rw [last.2.2, counts.tty, same.tty]
  · rw [last.1, counts.entry, same.semtab]
    rfl

end Arrives

/-- The count that `semcount` returns, negative counts read as zero. -/
theorem availChars_value (valid : ¬ isbadsem s.tty.tyisem) (used : (s.semtab s.tty.tyisem).sstate ≠ .free) :
    (availChars s).1 = max s.inputCount 0 := by
  simp only [availChars]
  rw [semcount_value valid used]
  change (if s.inputCount < 0 then 0 else s.inputCount) = max s.inputCount 0
  split <;> omega

theorem toInt_ofInt {value : Int} (low : -2147483648 ≤ value) (high : value < 2147483648) :
    (Int32.ofInt value).toInt = value := by
  rw [Int32.toInt_ofInt]
  exact int32_of_range low high

theorem ttyhandleInCooked_arrival (cooked : Cooked s) (low : -2147483648 < s.inputCount)
    (high : s.inputCount + s.tty.tyicursor + 1 < 2147483648) (cursor : 0 ≤ s.tty.tyicursor)
    (short : s.tty.tyicursor + 1 < 2147483648) (slot : s.tty.tyitail < TY_IBUFLEN) (ch : UInt8)
      (mapped : ch ≠ TY_RETURN) :
    Arrival ch s (ttyhandleInCooked ch s) := by
  have killTest : (ch = s.tty.tyikillc ∧ s.tty.tyikill = true) ↔ ch = TY_KILLCH := by
    rw [cooked.killc, cooked.kill]
    exact and_iff_left rfl
  have eraseTest : ((ch = s.tty.tyierasec ∨ ch = s.tty.tyierasec2) ∧ s.tty.tyierase = true) ↔ isErase ch := by
    rw [cooked.erasec, cooked.erasec2, cooked.erase]
    exact and_iff_left rfl
  simp only [ttyhandleInCooked]
  split
  case isTrue key =>
    -- the two characters echoed leave the line alone
    have same : SameConsole { s with tty := { s.tty with
        tyitail := back TY_IBUFLEN s.tty.tyitail s.tty.tyicursor
        tyicursor := 0 } } _ := (SameConsole.eputc TY_RETURN).trans (.eputc TY_NEWLINE)
    exact .kill (killTest.mp key) (.edited same)
  case isFalse notKill =>
  rw [killTest] at notKill
  split
  case isTrue key =>
    split
    case isTrue some =>
      have same := erase1_same (s := { s with tty := { s.tty with tyicursor := s.tty.tyicursor - 1 } })
      exact .erase (eraseTest.mp key) some (.edited same)
    case isFalse none => exact .eraseNone (eraseTest.mp key) none (.edited (.refl s))
  case isFalse notErase =>
  rw [eraseTest] at notErase
  split
  case isTrue key =>
    have stored := stored_same (SameConsole.echo (s := s) s.tty.tyiecho ch) slot ch
    generalize wrapTail (storeChar ch (if s.tty.tyiecho = true then echoch ch s else s)) = t at stored ⊢
    have sem : t.tty.tyisem = s.tty.tyisem := by rw [stored.tty]
    have unfinished : t.tty.tyicursor = s.tty.tyicursor := by rw [stored.tty]
    have semtab : t.semtab = s.semtab := stored.semtab
    rw [sem, unfinished]
    have counts : Counts s.tty.tyisem ((s.tty.tyicursor + 1).toNat : Nat) t
        (signaln s.tty.tyisem (Int32.ofInt (s.tty.tyicursor + 1)) t).2 := by
      apply signaln_counts (stored.counting.trans cooked.machine) (by rw [semtab]; exact low) cooked.valid
        (by rw [semtab]; exact cooked.used)
      · rw [toInt_ofInt (by omega) short]
        omega
      · rw [semtab, Int.toNat_of_nonneg (by omega)]
        change s.inputCount + (s.tty.tyicursor + 1) < _
        omega
    rw [Int.toNat_of_nonneg (by omega)] at counts
    exact .newline (key.resolve_right mapped) (.posted stored counts ⟨rfl, rfl, rfl⟩)
  case isFalse notNewline =>
  have text : isText ch := ⟨notKill, notErase, fun newline => notNewline (Or.inl newline)⟩
  have counted : SameConsole s (availChars s).2 := .semcount _
  rw [availChars_value cooked.valid cooked.used]
  generalize (availChars s).2 = t at counted ⊢
  have cursorSame : t.tty.tyicursor = s.tty.tyicursor := by rw [counted.tty]
  have settings : t.tty.tyeofch = TY_EOFCH ∧ t.tty.tyeof = true := by
    rw [counted.tty]
    exact ⟨cooked.eofch, cooked.eof⟩
  rw [settings.1, settings.2, cursorSame]
  split
  case isTrue full => exact .full text full (.edited (counted.trans (.eputc _)))
  case isFalse room =>
  have echoed := counted.trans (.echo t.tty.tyiecho ch)
  generalize (if t.tty.tyiecho = true then echoch ch t else t) = u at echoed ⊢
  have cursorSame : u.tty.tyicursor = s.tty.tyicursor := by rw [echoed.tty]
  split
  case isTrue key =>
    rw [cursorSame]
    split
    case isTrue inside => exact .eofLate key.1 room inside (.edited echoed)
    case isFalse start =>
      have stored : SameConsole { s with tty := { s.tty with
          tyibuff := Function.update s.tty.tyibuff s.tty.tyitail ch
          tyitail := s.tty.tyitail + 1 } } (storeChar ch u) :=
        ⟨by simp only [storeChar, echoed.tty, Ttycblk.storeAt_inside slot], echoed.semtab, echoed.counting⟩
      generalize storeChar ch u = v at stored ⊢
      have sem : v.tty.tyisem = s.tty.tyisem := by rw [stored.tty]
      have semtab : v.semtab = s.semtab := stored.semtab
      rw [sem]
      have counts : Counts s.tty.tyisem 1 v (signal s.tty.tyisem v).2 := by
        apply signal_counts (stored.counting.trans cooked.machine) (by rw [semtab]; exact low) cooked.valid
          (by rw [semtab]; exact cooked.used)
        rw [semtab]
        change s.inputCount + 1 < _
        omega
      refine .eof key.1 room (Decidable.of_not_not start) (.posted stored counts ⟨rfl, rfl, ?_⟩)
      rw [counts.tty, stored.tty]
  case isFalse other =>
    have moved : SameConsole { s with tty := { s.tty with tyicursor := s.tty.tyicursor + 1 } }
        { u with tty := { u.tty with tyicursor := u.tty.tyicursor + 1 } } :=
      ⟨by simp only [echoed.tty], echoed.semtab, echoed.counting⟩
    exact .char text (fun eof => other ⟨eof, rfl⟩) room (.edited (stored_same moved slot ch))

theorem semcount_state (sem : Int) : (semcount sem s).2 = restore s.cpu.psr (disable s).2 := by
  simp only [semcount]
  split <;> rfl

/-- Clearing `tyoheld` first changes nothing else. -/
theorem Arrives.unheld {buffer : Int → UInt8} {tail cursor posted : Int} {t : Kernel}
    (tty : t.tty = { s.tty with tyoheld := false }) (semtab : t.semtab = s.semtab) (counting : t.counting = s.counting)
    (does : Arrives t s' buffer tail cursor posted) : Arrives s s' buffer tail cursor posted := by
  obtain ⟨held, edited⟩ := does.tty
  have entry := does.entry
  rw [Kernel.inputCount, tty, semtab] at entry
  exact ⟨⟨held, by rw [edited, tty]⟩, entry, does.counting.trans counting⟩

theorem Arrival.unheld {ch : UInt8} {t : Kernel} (tty : t.tty = { s.tty with tyoheld := false })
    (semtab : t.semtab = s.semtab) (counting : t.counting = s.counting) (arrival : Arrival ch t s') :
    Arrival ch s s' := by
  have count : t.inputCount = s.inputCount := by rw [Kernel.inputCount, tty, semtab]; rfl
  have full : t.lineFull ↔ s.lineFull := by simp only [Kernel.lineFull, count, tty]
  cases arrival with
  | kill key does =>
    rw [tty] at does
    exact .kill key (does.unheld tty semtab counting)
  | erase key some does =>
    rw [tty] at does some
    exact .erase key some (does.unheld tty semtab counting)
  | eraseNone key none does =>
    rw [tty] at does none
    exact .eraseNone key none (does.unheld tty semtab counting)
  | newline key does =>
    rw [tty] at does
    exact .newline key (does.unheld tty semtab counting)
  | full key isFull does =>
    rw [tty] at does
    exact .full key (full.mp isFull) (does.unheld tty semtab counting)
  | eof key room start does =>
    rw [tty] at does start
    exact .eof key (fun isFull => room (full.mpr isFull)) start (does.unheld tty semtab counting)
  | eofLate key room inside does =>
    rw [tty] at does inside
    exact .eofLate key (fun isFull => room (full.mpr isFull)) inside (does.unheld tty semtab counting)
  | char key other room does =>
    rw [tty] at does
    exact .char key other (fun isFull => room (full.mpr isFull)) (does.unheld tty semtab counting)

/-- What an arriving character does in cooked mode. -/
theorem ttyhandleIn_arrival (cooked : Cooked s) (low : -2147483648 < s.inputCount)
    (high : s.inputCount + s.tty.tyicursor + 1 < 2147483648) (cursor : 0 ≤ s.tty.tyicursor)
    (short : s.tty.tyicursor + 1 < 2147483648) (slot : s.tty.tyitail < TY_IBUFLEN) (c : UInt8) :
    Arrival (lineChar c) s (ttyhandleIn c s) := by
  have counted : (availChars s).2 = restore s.cpu.psr (disable s).2 := semcount_state _
  have notRaw : ¬ s.tty.tyimode = TY_IMRAW := by
    rw [cooked.mode]
    decide
  have notCbreak : ¬ s.tty.tyimode = TY_IMCBREAK := by
    rw [cooked.mode]
    decide
  have mapped : (if c = TY_RETURN ∧ s.tty.tyicrlf = true then TY_NEWLINE else c) = lineChar c := by
    rw [cooked.icrlf]
    simp only [lineChar, and_true]
  have notReturn : lineChar c ≠ TY_RETURN := by
    simp only [lineChar]
    split
    · decide
    · assumption
  have step : ttyhandleIn c s = ttyhandleInCooked (lineChar c)
      { restore s.cpu.psr (disable s).2 with tty := { s.tty with tyoheld := false } } := by
    simp only [ttyhandleIn, counted]
    rw [if_neg (show ¬ (restore s.cpu.psr (disable s).2).tty.tyimode = TY_IMRAW from notRaw),
      if_neg (show ¬ (restore s.cpu.psr (disable s).2).tty.tyimode = TY_IMCBREAK from notCbreak), ← mapped]
    rfl
  have same : Cooked { restore s.cpu.psr (disable s).2 with tty := { s.tty with tyoheld := false } } :=
    ⟨cooked.mode, cooked.icrlf, cooked.erase, cooked.erasec, cooked.erasec2, cooked.eof, cooked.eofch,
      cooked.kill, cooked.killc, cooked.valid, cooked.used, cooked.machine⟩
  have arrival := ttyhandleInCooked_arrival same low high cursor short slot (lineChar c) notReturn
  rw [step]
  refine Arrival.unheld ?_ ?_ ?_ arrival <;> rfl

/-- What a character that goes into the ring does. -/
theorem Arrival.stored {ch : UInt8} (arrival : Arrival ch s s') (stores : s.stores ch) : ∃ tail cursor posted,
    Arrives s s' (Function.update s.tty.tyibuff s.tty.tyitail ch) tail cursor posted ∧
      cursor + posted = s.tty.tyicursor + 1 ∧ (ch = TY_EOFCH → tail = s.tty.tyitail + 1) := by
  cases arrival with
  | kill key does =>
    rw [key] at stores
    exact absurd stores (by simp [Kernel.stores, isText])
  | erase key some does | eraseNone key none does =>
    cases stores with
    | inl newline => exact absurd newline key.text.2
    | inr text => exact absurd key text.1.2.1
  | newline key does =>
    refine ⟨_, _, _, does, Int.zero_add _, fun eof => ?_⟩
    rw [eof] at key
    exact absurd key (by decide)
  | full key isFull does =>
    cases stores with
    | inl newline => exact absurd newline key.2.2
    | inr text => exact absurd isFull text.2.1
  | eof key room start does => exact ⟨_, _, _, does, rfl, fun _ => rfl⟩
  | eofLate key room inside does =>
    cases stores with
    | inl newline =>
      rw [key] at newline
      exact absurd newline (by decide)
    | inr text => exact absurd (text.2.2 key) inside
  | char key other room does => exact ⟨_, _, _, does, Int.add_zero _, fun eof => absurd eof other⟩

/-- Any other character leaves the buffer as it is. -/
theorem Arrival.unstored {ch : UInt8} (arrival : Arrival ch s s') (unstored : ¬ s.stores ch) :
    ∃ tail cursor, Arrives s s' s.tty.tyibuff tail cursor 0 := by
  cases arrival with
  | kill key does | erase key some does | eraseNone key none does | full key isFull does
  | eofLate key room inside does => exact ⟨_, _, does⟩
  | newline key does => exact absurd (Or.inl key) unstored
  | eof key room start does =>
    have text : isText ch := by
      rw [key]
      decide
    exact absurd (Or.inr ⟨text, room, fun _ => start⟩) unstored
  | char key other room does => exact absurd (Or.inr ⟨key, room, fun eof => absurd eof other⟩) unstored

/-! ## Taking a byte -/

theorem ttygetcTake_state (s : Kernel) : (ttygetcTake s).2 = { s with tty := { s.tty with
    tyihead := next TY_IBUFLEN s.tty.tyihead } } := by
  simp only [ttygetcTake]
  split <;> rfl

/-- A byte other than the end-of-file character is what `ttygetc` returns. -/
theorem ttygetcTake_value (notEof : s.tty.tyibuff s.tty.tyihead ≠ s.tty.tyeofch) :
    (ttygetcTake s).1 = (s.tty.tyibuff s.tty.tyihead).toNat := by
  simp only [ttygetcTake]
  rw [if_neg (fun eof => notEof eof.2.2)]

/-! ## Initialization -/

/-- What `newsem` leaves, found or not. -/
theorem newsemLoop_found (low : 0 ≤ s.nextsem) (high : s.nextsem < NSEM) (fuel : Nat) :
    ((newsemLoop fuel s).1 = SYSERR ∧ SameConsole s (newsemLoop fuel s).2 ∨
      ∃ sem, (newsemLoop fuel s).1 = sem ∧ ¬ isbadsem sem ∧ (s.semtab sem).sstate = .free ∧
        SameConsole (s.setSem sem { s.semtab sem with sstate := .used }) (newsemLoop fuel s).2) ∧
      0 ≤ (newsemLoop fuel s).2.nextsem ∧ (newsemLoop fuel s).2.nextsem < NSEM := by
  induction fuel generalizing s with
  | zero => exact ⟨Or.inl ⟨rfl, .refl s⟩, low, high⟩
  | succ fuel inductionHypothesis =>
    have advanced : 0 ≤ (if s.nextsem + 1 ≥ NSEM then 0 else s.nextsem + 1) ∧
        (if s.nextsem + 1 ≥ NSEM then 0 else s.nextsem + 1) < NSEM := by
      simp only [NSEM] at *
      split <;> omega
    simp only [newsemLoop]
    split
    case isTrue free =>
      refine ⟨Or.inr ⟨s.nextsem, rfl, ?_, free, ⟨rfl, rfl, rfl⟩⟩, advanced⟩
      simp only [isbadsem, NSEM] at *
      omega
    case isFalse used =>
      obtain ⟨found, range⟩ := inductionHypothesis (s := { s with
        nextsem := if s.nextsem + 1 ≥ NSEM then 0 else s.nextsem + 1 }) advanced.1 advanced.2
      refine ⟨?_, range⟩
      obtain ⟨failed, same⟩ | ⟨sem, found, valid, free, same⟩ := found
      · exact Or.inl ⟨failed, ⟨same.tty, same.semtab, same.counting⟩⟩
      · exact Or.inr ⟨sem, found, valid, free, ⟨same.tty, same.semtab, same.counting⟩⟩

/-- What `semcreate` leaves, created or not. -/
theorem semcreate_created (low : 0 ≤ s.nextsem) (high : s.nextsem < NSEM) {count : Int32}
    (nonnegative : 0 ≤ count.toInt) :
    ((semcreate count s).1 = SYSERR ∧ SameConsole s (semcreate count s).2 ∨
      ∃ sem, (semcreate count s).1 = sem ∧ ¬ isbadsem sem ∧ (s.semtab sem).sstate = .free ∧
        SameConsole (s.setSem sem { s.semtab sem with sstate := .used, scount := count.toInt })
          (semcreate count s).2) ∧
      0 ≤ (semcreate count s).2.nextsem ∧ (semcreate count s).2.nextsem < NSEM := by
  obtain ⟨found, range⟩ := newsemLoop_found (s := (disable s).2) low high NSEM.toNat
  simp only [semcreate]
  rw [if_neg (Int.not_lt.mpr nonnegative)]
  obtain ⟨failed, same⟩ | ⟨sem, found, valid, free, same⟩ := found
  · rw [newsem, if_pos failed]
    exact ⟨Or.inl ⟨rfl, (SameConsole.disable.trans same).trans (.restore _)⟩, range⟩
  · have notError : sem ≠ SYSERR := by
      simp only [isbadsem] at valid
      simp only [SYSERR]
      omega
    rw [newsem, found, if_neg notError]
    refine ⟨Or.inr ⟨sem, rfl, valid, free, ⟨same.tty, ?_, same.counting⟩⟩, range⟩
    have marked : ((newsemLoop NSEM.toNat (disable s).2).2).semtab =
      Function.update s.semtab sem { s.semtab sem with sstate := .used } := same.semtab
    simp only [restore, Kernel.setSem, Kernel.touch, marked, Function.update_self, Function.update_idem]

/-- `ttyinit` that finds a semaphore leaves the line empty, in cooked mode and with count zero. -/
theorem ttyinit_cooked (machine : s.counting = int32) (low : 0 ≤ s.nextsem) (high : s.nextsem < NSEM)
    (created : (semcreate 0 s).1 ≠ SYSERR) :
    Cooked (ttyinit s) ∧ (ttyinit s).inputCount = 0 ∧ (ttyinit s).tty.tyihead = 0 ∧ (ttyinit s).tty.tyitail = 0 ∧
      (ttyinit s).tty.tyicursor = 0 := by
  obtain ⟨first, low', high'⟩ := @semcreate_created s low high 0 (by decide)
  obtain ⟨failed, -⟩ | ⟨sem, returned, valid, free, same⟩ := first
  · exact absurd failed created
  have entry : ((semcreate 0 s).2.semtab sem).sstate = .used ∧ ((semcreate 0 s).2.semtab sem).scount = 0 := by
    rw [same.semtab]
    simp only [Kernel.setSem, Function.update_self]
    exact ⟨trivial, by decide⟩
  -- the output semaphore is another one, because this one is in use
  have kept : (semcreate TY_OBUFLEN (semcreate 0 s).2).2.semtab sem = (semcreate 0 s).2.semtab sem ∧
      (semcreate TY_OBUFLEN (semcreate 0 s).2).2.counting = int32 := by
    have counting : (semcreate 0 s).2.counting = int32 := same.counting.trans machine
    obtain ⟨second, -⟩ := @semcreate_created _ low' high' TY_OBUFLEN (by decide)
    obtain ⟨-, same'⟩ | ⟨other, -, -, free', same'⟩ := second
    · exact ⟨by rw [same'.semtab], same'.counting.trans counting⟩
    · have different : sem ≠ other := by
        rintro rfl
        rw [entry.1] at free'
        cases free'
      refine ⟨?_, same'.counting.trans counting⟩
      rw [same'.semtab]
      exact Function.update_of_ne different _ _
  have isem : (ttyinit s).tty.tyisem = sem := returned
  have semtab : (ttyinit s).semtab sem = (semcreate TY_OBUFLEN (semcreate 0 s).2).2.semtab sem := rfl
  refine ⟨⟨rfl, rfl, rfl, rfl, rfl, rfl, rfl, rfl, rfl, ?_, ?_, kept.2⟩, ?_, rfl, rfl, rfl⟩
  · rwa [isem]
  · rw [isem, semtab, kept.1, entry.1]
    simp
  · rw [Kernel.inputCount, isem, semtab, kept.1, entry.2]

end XinuStm32
