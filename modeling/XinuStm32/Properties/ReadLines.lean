import XinuStm32.Lib.Pieces
import XinuStm32.Properties.InputRing

/-!
# What `ttyread` returns

Characters arrive in cooked mode while processes call `ttyread`. The bytes the calls return are compared
with the lines of the reference editor that was given the same characters.
-/

namespace XinuStm32

open Ring Transition Pieces

/-- A call of `ttyread`: what it is going to read, what it stored, and whether its `ttygetc` has begun. -/
structure ReadCall where
  plan : ReadPlan
  buff : List UInt8
  waits : Bool

/-- The console, the call each process is in, and what the finished calls returned, oldest first. -/
structure Session where
  console : Console
  calls : Int → Option ReadCall
  returned : List (List UInt8)

namespace Session

inductive Label where
  | char (c : UInt8)
  | call (pid : Int) (count : Int32)
  | wait (pid : Int)
  | take (pid : Int)
  | other
  deriving DecidableEq

/-- A call goes on with what its `ttygetc` returned. -/
def proceed (pid : Int) (plan : ReadPlan) (buff : List UInt8) (got : Int) (s : Session) : Session :=
  match ttyreadNext plan buff got with
  | .again buff => { s with calls := Function.update s.calls pid (some ⟨plan, buff, false⟩) }
  | .nread buff => { s with calls := Function.update s.calls pid none, returned := s.returned ++ [buff] }
  | .eof => { s with calls := Function.update s.calls pid none }

/-- The steps of the console, with the calls that take them. -/
inductive Step : Label → Session → Session → Prop where
  | char {c : UInt8} {s : Session} {console : Console} (step : Console.Step (.char c) s.console console) :
      Step (.char c) s { s with console := console }
  | call {pid : Int} {count : Int32} {s : Session} (idle : s.calls pid = none) (positive : 0 < count.toInt) :
      Step (.call pid count) s { s with
        console := ⟨(ttyreadPlan count s.console.kernel).2, s.console.callers⟩
        calls := Function.update s.calls pid (some ⟨(ttyreadPlan count s.console.kernel).1, [], false⟩) }
  | wait {pid : Int} {plan : ReadPlan} {buff : List UInt8} {s : Session} {console : Console}
      (calling : s.calls pid = some ⟨plan, buff, false⟩) (step : Console.Step .wait s.console console) :
      Step (.wait pid) s { s with
        console := console
        calls := Function.update s.calls pid (some ⟨plan, buff, true⟩) }
  | take {pid : Int} {plan : ReadPlan} {buff : List UInt8} {s : Session} {console : Console}
      (calling : s.calls pid = some ⟨plan, buff, true⟩) (step : Console.Step .take s.console console) :
      Step (.take pid) s
        (proceed pid plan buff (ttygetcTake s.console.kernel).1 { s with console := console })
  | other {s : Session} {console : Console} (step : Console.Step .other s.console console) :
      Step .other s { s with console := console }

def start (k : Kernel) : Session := ⟨Console.start k, fun _ => none, []⟩

/-- The reference editor sees the characters and the bytes that are read. -/
def Label.edit (e : Editor) : Label → Editor
  | .char c => e.type (lineChar c)
  | .take _ => e.readByte
  | _ => e

def reference (labels : List Label) : Editor := labels.foldl Label.edit .empty

/-- The characters that are considered: no end-of-file character, and newline only while not all of the
buffer is unread. -/
def Given (s : Session) : Label → Prop
  | .char c => lineChar c ≠ TY_EOFCH ∧ (lineChar c = TY_NEWLINE → s.console.unread < TY_IBUFLEN)
  | _ => True

/-- Calls do not overlap, and text is refused by the count of the semaphore if it would be by the number of
unread bytes. -/
def Orderly (s : Session) : Label → Prop
  | .char c => isText (lineChar c) → ¬ s.console.kernel.lineFull →
      s.console.unread + s.console.kernel.tty.tyicursor < TY_IBUFLEN - 1
  | .call .. => ∀ pid, s.calls pid = none
  | _ => True

theorem ofInt_toNat (byte : UInt8) : UInt8.ofInt (byte.toNat : Int) = byte := by
  apply UInt8.toNat_inj.mp
  have small := byte.toNat_lt
  rw [UInt8.ofInt, UInt8.toNat_ofNat']
  omega

/-- `ttyread` behind a `ttygetc` that returned a byte. -/
theorem ttyreadNext_line (count : Int) (buff : List UInt8) (byte : UInt8) :
    ttyreadNext (.line count) buff byte.toNat =
      if (buff ++ [byte]).length < count ∧ byte ≠ TY_NEWLINE ∧ byte ≠ TY_RETURN then .again (buff ++ [byte])
      else .nread (buff ++ [byte]) := by
  have notEof : ¬ (buff = [] ∧ (byte.toNat : Int) = EOF) := by
    rintro ⟨-, eof⟩
    simp only [EOF] at eof
    omega
  simp only [ttyreadNext]
  rw [if_neg notEof, ofInt_toNat]

/-! ## The simulation -/

/-- No call, or one call that has stored `buff`. -/
def Reading (s : Session) (buff : List UInt8) : Prop :=
  (∀ pid, s.calls pid = none) ∧ buff = [] ∨
    ∃ pid count waits, s.calls pid = some ⟨.line count, buff, waits⟩ ∧ (∀ other, other ≠ pid → s.calls other = none) ∧
      (buff.length : Int) < count

/-- The ring holds what the editor has that was not taken: `left` are the lines as far as no finished call
returned them. -/
structure Simulates (s : Session) (e : Editor) (q : Content) (buff : List UInt8) (left : List (List UInt8)) : Prop where
  content : s.console.Represents q
  current : q.current = e.current
  tidy : e.Tidy
  room : e.current = [] ∨ q.unread.length + e.current.length < 32
  reading : s.Reading buff
  inner : ∀ ch ∈ buff, isInner ch
  cuts : Cuts e.lines s.returned left
  taken : left.flatten = buff ++ q.unread
  read : e.read = s.returned.flatten.length + buff.length

variable {s s' : Session} {e : Editor} {q : Content} {buff : List UInt8} {left : List (List UInt8)}

namespace Simulates

/-- The editor and the console agree on how many bytes are unread. -/
theorem unread_eq (sim : s.Simulates e q buff left) : e.unread = q.unread.length := by
  have all := congrArg List.length sim.cuts.flatten
  rw [List.length_append, sim.taken, List.length_append] at all
  rw [Editor.unread, ← all, sim.read]
  omega

theorem full_iff (sim : s.Simulates e q buff left) {c : UInt8} (orderly : s.Orderly (.char c))
    (text : isText (lineChar c)) :
    s.console.kernel.lineFull ↔ (e.unread : Int) + e.current.length ≥ TY_IBUFLEN - 1 := by
  have unread := sim.content.unread
  have cursor := sim.content.cursor
  have passed := sim.content.passed
  rw [sim.unread_eq, ← sim.current, ← unread, ← cursor]
  constructor
  · intro full
    simp only [Kernel.lineFull] at full
    simp only [Console.unread]
    omega
  · intro full
    by_contra notFull
    have room := orderly text notFull
    omega

/-- The content and the editor treat a character alike. -/
theorem arrive (sim : s.Simulates e q buff left) {c : UInt8} (orderly : s.Orderly (.char c))
    (notEof : lineChar c ≠ TY_EOFCH) :
    (q.arrive s.console.kernel.lineFull (lineChar c)).current = (e.type (lineChar c)).current ∧
      ∃ more, (q.arrive s.console.kernel.lineFull (lineChar c)).unread = q.unread ++ more.flatten ∧
        (e.type (lineChar c)).lines = e.lines ++ more ∧ (e.type (lineChar c)).read = e.read ∧
        ((e.type (lineChar c)).current = [] ∨
          q.unread.length + more.flatten.length + (e.type (lineChar c)).current.length < 32) := by
  have full := sim.full_iff orderly
  have current := sim.current
  have room := sim.room
  have unread := sim.unread_eq
  have same : q.unread = q.unread ++ ([] : List (List UInt8)).flatten ∧ e.lines = e.lines ++ [] :=
    ⟨(List.append_nil _).symm, (List.append_nil _).symm⟩
  generalize lineChar c = ch at *
  by_cases kill : ch = TY_KILLCH
  · rw [Content.arrive, Editor.type, if_pos kill, if_pos kill]
    exact ⟨rfl, [], same.1, same.2, rfl, Or.inl rfl⟩
  by_cases erase : isErase ch
  · rw [Content.arrive, Editor.type, if_neg kill, if_neg kill, if_pos erase, if_pos erase]
    refine ⟨congrArg List.dropLast current, [], same.1, same.2, rfl, ?_⟩
    cases room with
    | inl nothing => exact Or.inl (by rw [nothing, List.dropLast_nil])
    | inr room =>
      right
      rw [List.length_dropLast, List.flatten_nil, List.length_nil]
      omega
  by_cases newline : ch = TY_NEWLINE
  · rw [Content.arrive, Editor.type, if_neg kill, if_neg kill, if_neg erase, if_neg erase, if_pos newline,
      if_pos newline]
    refine ⟨rfl, [e.current ++ [ch]], ?_, rfl, rfl, Or.inl rfl⟩
    rw [Content.bytes, List.append_assoc, current, List.flatten_singleton]
  have refused := full ⟨kill, erase, newline⟩
  rw [Content.arrive, Editor.type, if_neg kill, if_neg kill, if_neg erase, if_neg erase, if_neg newline,
    if_neg newline]
  by_cases isFull : s.console.kernel.lineFull
  · rw [if_pos isFull, if_pos (refused.mp isFull)]
    exact ⟨current, [], same.1, same.2, rfl, room⟩
  · rw [if_neg isFull, if_neg (fun isFull' => isFull (refused.mpr isFull')), if_neg notEof]
    refine ⟨congrArg (· ++ [ch]) current, [], same.1, same.2, rfl, Or.inr ?_⟩
    rw [refused, unread] at isFull
    simp only [TY_IBUFLEN, List.flatten_nil, List.length_nil, List.length_append, List.length_singleton] at isFull ⊢
    omega

/-- A character that is stored finds room, because the line that is being typed leaves one slot. -/
theorem char_room (sim : s.Simulates e q buff left) {c : UInt8} (given : s.Given (.char c))
    (orderly : s.Orderly (.char c)) : s.console.Room (.char c) := by
  have unread := sim.content.unread
  have cursor := sim.content.cursor
  have current := sim.current
  intro stores
  refine ⟨?_, fun eof => absurd eof given.1⟩
  obtain newline | ⟨text, notFull, -⟩ := stores
  · have free := given.2 newline
    cases sim.room with
    | inl nothing =>
      rw [cursor, current, nothing, List.length_nil]
      simpa using free
    | inr room =>
      rw [unread, cursor, current]
      simp only [TY_IBUFLEN]
      omega
  · have room := orderly text notFull
    simp only [TY_IBUFLEN] at *
    omega

theorem char (sim : s.Simulates e q buff left) {c : UInt8} {console : Console} (given : s.Given (.char c))
    (orderly : s.Orderly (.char c)) (step : Console.Step (.char c) s.console console) :
    ∃ q' left', Simulates { s with console := console } (e.type (lineChar c)) q' buff left' := by
  have content := sim.content.step step (sim.char_room given orderly)
  obtain ⟨current, more, unread, lines, read, room⟩ := sim.arrive orderly given.1
  have notReturn : lineChar c ≠ TY_RETURN := by
    simp only [lineChar]
    split
    · decide
    · assumption
  refine ⟨q.arrive s.console.kernel.lineFull (lineChar c), left ++ more,
    ⟨content, current, sim.tidy.type notReturn given.1, ?_, sim.reading, sim.inner, ?_, ?_, ?_⟩⟩
  · rwa [unread, List.length_append]
  · rw [lines]
    exact sim.cuts.add_lines more
  · rw [List.flatten_append, sim.taken, List.append_assoc]
    exact congrArg (buff ++ ·) unread.symm
  · rw [read]
    exact sim.read

/-- Only the console, or where the one call stands, has changed. -/
theorem moved (sim : s.Simulates e q buff left) {calls : Int → Option ReadCall} {console : Console}
    (content : console.Represents q) (reading : Reading ⟨console, calls, s.returned⟩ buff) :
    Simulates ⟨console, calls, s.returned⟩ e q buff left :=
  ⟨content, sim.current, sim.tidy, sim.room, reading, sim.inner, sim.cuts, sim.taken, sim.read⟩

/-- The state of the one call, given that process `pid` is in it. -/
theorem calling (sim : s.Simulates e q buff left) {pid : Int} {call : ReadCall} (calling : s.calls pid = some call) :
    ∃ count, call.plan = .line count ∧ call.buff = buff ∧ (∀ other, other ≠ pid → s.calls other = none) ∧
      (buff.length : Int) < count := by
  obtain ⟨idle, -⟩ | ⟨caller, count, waits, is, only, more⟩ := sim.reading
  · rw [idle pid] at calling
    cases calling
  · have same : pid = caller := by
      by_contra different
      rw [only pid different] at calling
      cases calling
    rw [same, is] at calling
    cases calling
    exact ⟨count, rfl, rfl, same ▸ only, more⟩

theorem call (sim : s.Simulates e q buff left) {pid : Int} {count : Int32} (orderly : s.Orderly (.call pid count))
    (positive : 0 < count.toInt) :
    Simulates { s with
      console := ⟨(ttyreadPlan count s.console.kernel).2, s.console.callers⟩
      calls := Function.update s.calls pid
        (some ⟨(ttyreadPlan count s.console.kernel).1, [], false⟩) } e q [] left := by
  have nothing : buff = [] := by
    obtain ⟨-, empty⟩ | ⟨caller, count, waits, is, -⟩ := sim.reading
    · exact empty
    · rw [orderly caller] at is
      cases is
  rw [nothing] at sim
  have plan : ttyreadPlan count s.console.kernel = (.line count.toInt, s.console.kernel) := by
    simp only [ttyreadPlan]
    rw [if_neg (by omega), if_neg (not_not_intro sim.content.cooked.mode)]
  rw [plan]
  refine sim.moved sim.content (Or.inr ⟨pid, count.toInt, false, Function.update_self .., fun other different => ?_,
    positive⟩)
  exact (Function.update_of_ne different _ _).trans (orderly other)

theorem wait (sim : s.Simulates e q buff left) {pid : Int} {plan : ReadPlan} {stored : List UInt8} {console : Console}
    (calling : s.calls pid = some ⟨plan, stored, false⟩) (step : Console.Step .wait s.console console) :
    Simulates { s with
      console := console
      calls := Function.update s.calls pid (some ⟨plan, stored, true⟩) } e q buff left := by
  obtain ⟨count, rfl, rfl, only, more⟩ := sim.calling calling
  refine sim.moved (sim.content.step step trivial)
    (Or.inr ⟨pid, count, true, Function.update_self .., fun other different => ?_, more⟩)
  exact (Function.update_of_ne different _ _).trans (only other different)

/-- The next byte ends the line, or the line goes on behind it. -/
theorem next_byte (sim : s.Simulates e q buff left) {byte : UInt8} {rest : List UInt8}
    (available : q.unread = byte :: rest) :
    ∃ line lines, left = line :: lines ∧
      ((byte = TY_NEWLINE ∧ line = buff ++ [byte] ∧ rest = lines.flatten) ∨
        (isInner byte ∧ ∃ more, more ≠ [] ∧ line = buff ++ [byte] ++ more ∧ rest = more ++ lines.flatten)) := by
  have taken := sim.taken
  rw [available] at taken
  cases left with
  | nil => exact absurd taken.symm (by simp)
  | cons line lines =>
    refine ⟨line, lines, rfl, ?_⟩
    have proper := sim.cuts.left_of_lines (fun _ _ => isLine.suffix) sim.tidy.lines line List.mem_cons_self
    obtain ⟨body, ends, inner⟩ := proper
    rw [List.flatten_cons, ends, List.append_assoc, List.singleton_append] at taken
    rcases next_of_marked (fun member => (sim.inner _ member).1 rfl) (fun member => (inner _ member).1 rfl)
      taken.symm with ⟨last, whole, after⟩ | ⟨notLast, more, split, after⟩
    · exact Or.inl ⟨last, by rw [ends, whole, last], after⟩
    · right
      refine ⟨inner byte ?_, more ++ [TY_NEWLINE], by simp, ?_, ?_⟩
      · rw [split]
        simp
      · rw [ends, split]
        simp
      · rw [after]
        simp

/-- The byte was taken by the one call, which goes on or returns. -/
theorem took (sim : s.Simulates e q buff left) {byte : UInt8} {rest buff' : List UInt8} {left' : List (List UInt8)}
    (available : q.unread = byte :: rest) (content : s'.console.Represents { q with unread := rest })
    (reading : s'.Reading buff') (inner : ∀ ch ∈ buff', isInner ch) (cuts : Cuts e.lines s'.returned left')
    (taken : left'.flatten = buff' ++ rest)
    (bytes : s'.returned.flatten.length + buff'.length = s.returned.flatten.length + buff.length + 1) :
    Simulates s' e.readByte { q with unread := rest } buff' left' := by
  refine ⟨content, sim.current, ⟨sim.tidy.lines, sim.tidy.current⟩, ?_, reading, inner, cuts, taken, ?_⟩
  · cases sim.room with
    | inl nothing => exact Or.inl nothing
    | inr room =>
      rw [available, List.length_cons] at room
      exact Or.inr (by simp only [Editor.readByte]; omega)
  · rw [bytes, ← sim.read]
    rfl

theorem take (sim : s.Simulates e q buff left) {pid : Int} {plan : ReadPlan} {stored : List UInt8} {console : Console}
    (calling : s.calls pid = some ⟨plan, stored, true⟩) (step : Console.Step .take s.console console) :
    ∃ q' buff' left', Simulates (proceed pid plan stored (ttygetcTake s.console.kernel).1 { s with console := console })
      e.readByte q' buff' left' := by
  obtain ⟨count, rfl, rfl, only, short⟩ := sim.calling calling
  have passed : 0 < s.console.passed := by
    generalize s.console = before at step
    cases step with
    | take _ _ passed => exact passed
  obtain ⟨byte, rest, available, first, -⟩ := sim.content.take passed
  have content := sim.content.step step trivial
  rw [Console.edit, available, List.tail_cons] at content
  obtain ⟨line, lines, split, next⟩ := sim.next_byte available
  have cuts := sim.cuts
  rw [split] at cuts
  have notEof : byte ≠ TY_EOFCH := by
    obtain ⟨newline, -⟩ | ⟨inner, -⟩ := next
    · rw [newline]
      decide
    · exact inner.2.2
  have got : (ttygetcTake s.console.kernel).1 = byte.toNat := by
    rw [ttygetcTake_value (by rwa [first, sim.content.cooked.eofch]), first]
  have idle : ∀ other, Function.update s.calls pid none other = none := by
    intro other
    by_cases same : other = pid
    · rw [same]
      exact Function.update_self ..
    · exact (Function.update_of_ne same _ _).trans (only other same)
  rw [got, proceed, ttyreadNext_line]
  obtain ⟨newline, ends, after⟩ | ⟨inner, more, some, ends, after⟩ := next
  · -- the line ends, and so does the call
    rw [if_neg (fun goes => goes.2.1 newline)]
    rw [ends] at cuts
    refine ⟨{ q with unread := rest }, [], lines, ?_⟩
    refine sim.took available content (Or.inl ⟨idle, rfl⟩) (by simp) cuts.snoc_whole after.symm ?_
    simp
    omega
  · rw [ends] at cuts
    by_cases wants : ((stored ++ [byte]).length : Int) < count
    · -- the call goes on in the same line
      rw [if_pos ⟨wants, inner.1, inner.2.1⟩]
      refine ⟨{ q with unread := rest }, stored ++ [byte], left, ?_⟩
      refine sim.took available content (Or.inr ⟨pid, count, false, Function.update_self .., fun other different => ?_,
        wants⟩) (fun ch member => ?_) sim.cuts ?_ ?_
      · exact (Function.update_of_ne different _ _).trans (only other different)
      · cases List.mem_append.mp member with
        | inl old => exact sim.inner ch old
        | inr new =>
          rw [List.mem_singleton.mp new]
          exact inner
      · rw [sim.taken, available, List.append_assoc]
        rfl
      · simp
        omega
    · -- the call returns in the middle of the line
      rw [if_neg (fun goes => wants goes.1)]
      refine ⟨{ q with unread := rest }, [], more :: lines, ?_⟩
      refine sim.took available content (Or.inl ⟨idle, rfl⟩) (by simp) (cuts.snoc_part some) after.symm ?_
      simp
      omega

end Simulates

/-! ## Runs -/

/-- Some content, bytes of the call in progress and rest of the lines relate the session to the editor. -/
def Follows (s : Session) (e : Editor) : Prop := ∃ q buff left, s.Simulates e q buff left

theorem Follows.step {label : Label} (follows : s.Follows e) (step : Step label s s') (given : s.Given label)
    (orderly : s.Orderly label) : s'.Follows (label.edit e) := by
  obtain ⟨q, buff, left, sim⟩ := follows
  cases step with
  | char step =>
    obtain ⟨q', left', sim'⟩ := sim.char given orderly step
    exact ⟨q', buff, left', sim'⟩
  | call idle positive => exact ⟨q, [], left, sim.call orderly positive⟩
  | wait calling step => exact ⟨q, buff, left, sim.wait calling step⟩
  | take calling step => exact sim.take calling step
  | other step => exact ⟨q, buff, left, sim.moved (sim.content.step step trivial) sim.reading⟩

theorem Follows.run {labels : List Label} (follows : s.Follows e)
    (run : Run (fun label s s' => Step label s s' ∧ s.Given label ∧ s.Orderly label) labels s s') :
    s'.Follows (labels.foldl Label.edit e) := by
  induction run generalizing e with
  | nil => exact follows
  | cons step _ inductionHypothesis => exact inductionHypothesis (follows.step step.1 step.2.1 step.2.2)

theorem follows_start {k : Kernel} (machine : k.counting = int32) (low : 0 ≤ k.nextsem) (high : k.nextsem < NSEM)
    (created : (semcreate 0 k).1 ≠ SYSERR) : (start k).Follows .empty :=
  ⟨⟨[], []⟩, [], [], Console.represents_start machine low high created, rfl,
    ⟨by simp [Editor.empty], by simp [Editor.empty]⟩, Or.inl rfl,
    Or.inl ⟨fun _ => rfl, rfl⟩, by simp, .nothing [], rfl, rfl⟩

/-- What finished calls returned are pieces of the reference editor's lines, in order and none across the end
of a line, and a call in progress has stored what comes next in the lines. -/
theorem returned_cuts_lines {k : Kernel} (machine : k.counting = int32) (low : 0 ≤ k.nextsem)
    (high : k.nextsem < NSEM) (created : (semcreate 0 k).1 ≠ SYSERR) {labels : List Label}
    (run : Run (fun label s s' => Step label s s' ∧ s.Given label ∧ s.Orderly label) labels (start k) s) :
    (∃ left, Cuts (reference labels).lines s.returned left) ∧
      s.returned.flatten <+: (reference labels).lines.flatten ∧
      ∀ pid call, s.calls pid = some call → s.returned.flatten ++ call.buff <+: (reference labels).lines.flatten := by
  obtain ⟨q, buff, left, sim⟩ := (follows_start machine low high created).run run
  have all := sim.cuts.flatten
  refine ⟨⟨left, sim.cuts⟩, ⟨left.flatten, all⟩, fun pid call calling => ?_⟩
  obtain ⟨count, -, same, -⟩ := sim.calling calling
  rw [same]
  refine ⟨q.unread, ?_⟩
  rw [List.append_assoc, ← sim.taken]
  exact all

/-! ## A line that is overwritten -/

/-- The plan of a call of `ttyread` for a hundred characters, as its first step finds the line. -/
def plan : ReadPlan := (ttyreadPlan 100 (ttyinit Console.unopened)).1

def opened : Kernel := (ttyreadPlan 100 (ttyinit Console.unopened)).2

/-- The call waits on the empty line. -/
def blocked : Kernel := (XinuStm32.wait opened.tty.tyisem opened).2

def called (waits : Bool) (calls : Int → Option ReadCall) : Int → Option ReadCall :=
  Function.update calls 1 (some ⟨plan, [], waits⟩)

theorem called_self (waits : Bool) (calls : Int → Option ReadCall) : called waits calls 1 = some ⟨plan, [], waits⟩ :=
  Function.update_self ..

/-- The session while process 1 waits, with everything typed so far. -/
def typing (k : Kernel) : Session := ⟨⟨k, 1⟩, called true (called false fun _ => none), []⟩

/-- Text that is typed before the reader runs again. -/
def aLine : Kernel := ttyhandleIn 10 (ttyhandleIn 97 blocked)

def fullLine : Kernel := Console.typed (List.replicate 30 98) aLine

def overwritten : Kernel := ttyhandleIn 10 fullLine

theorem run_text {cs : List UInt8} (text : ∀ c ∈ cs, lineChar c ≠ TY_EOFCH ∧ lineChar c ≠ TY_NEWLINE) (k : Kernel) :
    Run (fun label s s' => Step label s s' ∧ s.Given label) (cs.map .char) (typing k)
      (typing (Console.typed cs k)) := by
  induction cs generalizing k with
  | nil => exact .nil _
  | cons c cs inductionHypothesis =>
    have plain := text c List.mem_cons_self
    exact .cons ⟨.char (.char c k 1), plain.1, fun newline => absurd newline plain.2⟩
      (inductionHypothesis (fun c member => text c (List.mem_cons_of_mem _ member)) _)

/-- A call waits, and a first line is typed. -/
theorem run_aLine : Run (fun label s s' => Step label s s' ∧ s.Given label ∧ s.Orderly label)
    [.call 1 100, .wait 1, .char 97, .char 10] (start Console.unopened) (typing aLine) := by
  have begins : Step (.call 1 100) (start Console.unopened) ⟨⟨opened, 0⟩, called false fun _ => none, []⟩ :=
    .call rfl (by decide)
  have waits : Step (.wait 1) ⟨⟨opened, 0⟩, called false fun _ => none, []⟩ (typing blocked) :=
    .wait (called_self false fun _ => none) (.wait opened 0 (by decide))
  have first : Step (.char 97) (typing blocked) (typing (ttyhandleIn 97 blocked)) := .char (.char 97 blocked 1)
  have ends : Step (.char 10) (typing (ttyhandleIn 97 blocked)) (typing aLine) := .char (.char 10 _ 1)
  refine .cons ⟨begins, trivial, fun _ => rfl⟩ (.cons ⟨waits, trivial, trivial⟩
    (.cons ⟨first, ⟨by decide, by decide⟩, ?_⟩
    (.single ⟨ends, ⟨by decide, fun _ => by decide +kernel⟩, ?_⟩)))
  · intro _ _
    decide +kernel
  · intro text
    exact absurd rfl text.2.2

/-- The call has read the first byte of the first line. -/
theorem firstByte_cuts_lines : ∃ (labels : List Label) (s : Session),
    (∃ left, Cuts (reference labels).lines s.returned left) ∧
    s.returned.flatten <+: (reference labels).lines.flatten ∧
    ∀ pid call, s.calls pid = some call → s.returned.flatten ++ call.buff <+: (reference labels).lines.flatten := by
  have took : Console.Step .take ⟨aLine, 1⟩ ⟨(ttygetcTake aLine).2, 0⟩ := .take aLine 1 (by decide +kernel)
  have calling : (typing aLine).calls 1 = some ⟨plan, [], true⟩ := called_self true (called false fun _ => none)
  exact ⟨_, _, returned_cuts_lines (k := Console.unopened) rfl (by decide) (by decide) (by decide)
    (run_aLine.append (.single ⟨Step.take calling took, trivial, trivial⟩))⟩

/-- The reader was let through by the first newline but has not taken its byte when the second line fills the
ring: the second newline is stored over the first byte, which the reader then returns. -/
theorem line_overwritten : ∃ labels s,
    Run (fun label s s' => Step label s s' ∧ s.Given label) labels (start Console.unopened) s ∧
      ¬ s.returned.flatten <+: (reference labels).lines.flatten := by
  have second : Step (.char 10) (typing fullLine) (typing overwritten) := .char (.char 10 fullLine 1)
  have took : Console.Step .take ⟨overwritten, 1⟩ ⟨(ttygetcTake overwritten).2, 0⟩ :=
    .take overwritten 1 (by decide +kernel)
  have calling : (typing overwritten).calls 1 = some ⟨plan, [], true⟩ := called_self true (called false fun _ => none)
  have takes := Step.take calling took
  have text : Run (fun label s s' => Step label s s' ∧ s.Given label) _ (typing aLine) (typing fullLine) :=
    run_text (fun c member => List.eq_of_mem_replicate member ▸ by decide) aLine
  have front : Run (fun label s s' => Step label s s' ∧ s.Given label) _ _ _ :=
    run_aLine.weaken fun _ _ _ step => ⟨step.1, step.2.1⟩
  have back : Run (fun label s s' => Step label s s' ∧ s.Given label) [.char 10, .take 1] (typing fullLine) _ :=
    .cons ⟨second, by decide, fun _ => by decide +kernel⟩ (.single ⟨takes, trivial⟩)
  refine ⟨_, _, (front.append text).append back, ?_⟩
  decide +kernel

end Session

end XinuStm32
