import XinuStm32.Lib.Merge
import XinuStm32.Kernel.System
import XinuStm32.Lib.Transition
import XinuStm32.Refinement.Output

/-!
# Output of several processes

Processes write to the console and are switched out between the parts of `ttyputc`. The semaphore's count has gone
down for bytes that are not stored yet, so that a kick cannot tell from it how many bytes are in the ring. There are
as many as processes that stored and have not kicked.
-/

namespace XinuStm32

open Merge Ring Transition

/-- Where a process is in `ttyputc`: outside of it, behind the call of `wait`, or before the kick. -/
inductive Stage where
  | idle
  | waited
  | stored
  deriving DecidableEq

/-- A process that writes: the bytes it stored, and those it is going to. -/
structure Writer where
  written : List UInt8
  rest : List UInt8
  stage : Stage

structure Output where
  terminal : Terminal
  writers : Int → Writer

namespace Output

inductive Label where
  | wait (pid : Int)
  | store (pid : Int)
  | kick (pid : Int)
  | other
  deriving DecidableEq

/-- The processes that have called `wait` and not stored their byte. -/
def callers (pids : Finset Int) (s : Output) : Nat := count pids s.writers fun w => w.stage = .waited

/-- The processes that stored a byte and have not kicked. -/
def kickers (pids : Finset Int) (s : Output) : Nat := count pids s.writers fun w => w.stage = .stored

/-- The callers that the semaphore let through: a negative count is the number of those that it did not. -/
def passed (pids : Finset Int) (s : Output) : Int := s.callers pids - max (-s.terminal.count) 0

/-- The steps of the processes `pids`, and of the rest of the kernel. Any caller may be the one that was let
through. -/
inductive Step (pids : Finset Int) : Label → Output → Output → Prop where
  | wait {s : Output} {pid : Int} (member : pid ∈ pids) (stage : (s.writers pid).stage = .idle)
      (some : (s.writers pid).rest ≠ []) :
      Step pids (.wait pid) s
        ⟨s.terminal.ttyputcWait, Function.update s.writers pid { s.writers pid with stage := .waited }⟩
  | store {s : Output} {pid : Int} {ch : UInt8} {rest : List UInt8} (member : pid ∈ pids)
      (stage : (s.writers pid).stage = .waited) (next : (s.writers pid).rest = ch :: rest)
      (passed : 0 < s.passed pids) :
      Step pids (.store pid) s
        ⟨s.terminal.ttyputcStore ch,
          Function.update s.writers pid ⟨(s.writers pid).written ++ [ch], rest, .stored⟩⟩
  | kick {s : Output} {pid : Int} (member : pid ∈ pids) (stage : (s.writers pid).stage = .stored) :
      Step pids (.kick pid) s
        ⟨s.terminal.ttykickout, Function.update s.writers pid { s.writers pid with stage := .idle }⟩
  | other {s : Output} {kernel : Kernel} (tty : kernel.tty = s.terminal.kernel.tty)
      (entry : kernel.semtab s.terminal.kernel.tty.tyosem =
        s.terminal.kernel.semtab s.terminal.kernel.tty.tyosem)
      (counting : kernel.counting = s.terminal.kernel.counting) (output : kernel.output = s.terminal.kernel.output) :
      Step pids .other s { s with terminal := { s.terminal with kernel := kernel } }

/-- The bytes that the calls for a text put out. -/
def stream (text : List UInt8) : List UInt8 := text.flatMap (Terminal.ttyputcBytes true)

/-- Behind `ttyinit`, with a text for each process. -/
def start (s : Kernel) (tyobuff : Int → UInt8) (text : Int → List UInt8) : Output where
  terminal := .init s tyobuff
  writers pid := ⟨[], stream (text pid), .idle⟩

/-! ## The invariant -/

/-- The bytes sent since the start and those in the ring are a merge of what the processes have stored. A slot is
free, or a process has claimed it, or its byte has not been kicked out. -/
structure Merged (pids : Finset Int) (before : List UInt8) (text : Int → List UInt8) (s : Output)
    (sent unsent : List UInt8) : Prop where
  ready : s.terminal.Ready
  output : s.terminal.kernel.output = before ++ sent
  ring : Holds 32 s.terminal.out.tyobuff s.terminal.out.tyohead s.terminal.out.tyotail unsent
  length : unsent.length = s.kickers pids
  count : s.terminal.count + s.callers pids + s.kickers pids = 32
  merges : Merges (fun pid => (s.writers pid).written) (sent ++ unsent)
  stream : ∀ pid, (s.writers pid).written ++ (s.writers pid).rest = stream (text pid)

variable {pids : Finset Int} {before sent unsent : List UInt8} {text : Int → List UInt8} {s s' : Output}

/-- A process that only moves on to another stage. -/
theorem written_moved (writers : Int → Writer) (pid : Int) (stage : Stage) :
    (fun p => (Function.update writers pid { writers pid with stage := stage } p).written) =
        (fun p => (writers p).written) ∧
      ∀ p, (Function.update writers pid { writers pid with stage := stage } p).rest = (writers p).rest := by
  constructor
  · funext p
    by_cases same : p = pid
    · rw [same, Function.update_self]
    · rw [Function.update_of_ne same]
  · intro p
    by_cases same : p = pid
    · rw [same, Function.update_self]
    · rw [Function.update_of_ne same]

namespace Merged

/-- There are not so many processes that the count wraps around. -/
theorem count_range (merged : Merged pids before text s sent unsent) (few : pids.card ≤ 2147483648) :
    -2147483648 < s.terminal.count ∧ s.terminal.count ≤ 32 := by
  have count := merged.count
  have apart : s.callers pids + s.kickers pids ≤ pids.card := by
    apply count_add_le
    intro writer waited stored
    rw [waited] at stored
    cases stored
  omega

theorem wait (merged : Merged pids before text s sent unsent) (few : pids.card ≤ 2147483648) {pid : Int}
    (member : pid ∈ pids) (stage : (s.writers pid).stage = .idle) :
    Merged pids before text
      ⟨s.terminal.ttyputcWait, Function.update s.writers pid { s.writers pid with stage := .waited }⟩ sent unsent := by
  have range := merged.count_range few
  have posts := Terminal.ttyputcWait_posts merged.ready range.1 (by omega)
  obtain ⟨ready, less⟩ := merged.ready.posts posts
  have out := posts.out
  obtain ⟨written, rest⟩ := written_moved s.writers pid .waited
  have callers := count_update (P := fun w : Writer => w.stage = .waited) s.writers member
    { s.writers pid with stage := .waited }
  have kickers := count_update (P := fun w : Writer => w.stage = .stored) s.writers member
    { s.writers pid with stage := .waited }
  simp only [stage, reduceCtorEq, if_false, if_true, Nat.add_zero] at callers kickers
  refine ⟨ready, posts.output.trans merged.output, by rw [out]; exact merged.ring, ?_, ?_, ?_, fun p => ?_⟩
  · exact merged.length.trans kickers.symm
  · have count := merged.count
    simp only [Output.callers, Output.kickers] at count ⊢
    rw [less, callers, kickers]
    push_cast
    omega
  · rw [written]
    exact merged.merges
  · rw [rest, congrFun written p]
    exact merged.stream p

theorem store (merged : Merged pids before text s sent unsent) {pid : Int} {ch : UInt8} {rest : List UInt8}
    (member : pid ∈ pids) (stage : (s.writers pid).stage = .waited) (next : (s.writers pid).rest = ch :: rest)
    (passed : 0 < s.passed pids) :
    Merged pids before text
      ⟨s.terminal.ttyputcStore ch, Function.update s.writers pid ⟨(s.writers pid).written ++ [ch], rest, .stored⟩⟩
      sent (unsent ++ [ch]) := by
  have callers := count_update (P := fun w : Writer => w.stage = .waited) s.writers member
    ⟨(s.writers pid).written ++ [ch], rest, .stored⟩
  have kickers := count_update (P := fun w : Writer => w.stage = .stored) s.writers member
    ⟨(s.writers pid).written ++ [ch], rest, .stored⟩
  simp only [stage, reduceCtorEq, if_false, if_true, Nat.add_zero] at callers kickers
  have count := merged.count
  have length := merged.length
  -- a caller was let through, so that the bytes in the ring leave it a slot
  have room : (unsent.length : Int) < 32 := by
    simp only [Output.passed] at passed
    omega
  have kernel : (s.terminal.ttyputcStore ch).kernel = s.terminal.kernel := rfl
  refine ⟨⟨merged.ready.notHeld, ?_, merged.ready.valid, merged.ready.used, merged.ready.machine⟩, merged.output, ?_,
    ?_, ?_, ?_, fun p => ?_⟩
  · rw [Terminal.ttyputcStore_out]
    exact merged.ready.noEcho
  · rw [Terminal.ttyputcStore_out]
    exact merged.ring.put room ch
  · rw [List.length_append, length]
    exact kickers.symm
  · change s.terminal.count + _ + _ = _
    simp only [Output.callers, Output.kickers] at count ⊢
    rw [kickers]
    push_cast
    omega
  · rw [← List.append_assoc]
    have written : (fun p => (Function.update s.writers pid ⟨(s.writers pid).written ++ [ch], rest,
      .stored⟩ p).written) =
        Function.update (fun p => (s.writers p).written) pid ((s.writers pid).written ++ [ch]) := by
      funext p
      by_cases same : p = pid
      · rw [same, Function.update_self, Function.update_self]
      · rw [Function.update_of_ne same, Function.update_of_ne same]
    rw [written]
    exact merged.merges.snoc pid ch
  · dsimp only
    by_cases same : p = pid
    · rw [same, Function.update_self, List.append_assoc, List.singleton_append, ← next]
      exact merged.stream pid
    · rw [Function.update_of_ne same]
      exact merged.stream p

/-- A kick sends the oldest byte in the ring. The process that kicks has stored one, so there is one. -/
theorem kick (merged : Merged pids before text s sent unsent) (few : pids.card ≤ 2147483648) {pid : Int}
    (member : pid ∈ pids) (stage : (s.writers pid).stage = .stored) :
    ∃ byte later, unsent = byte :: later ∧ Merged pids before text
      ⟨s.terminal.ttykickout, Function.update s.writers pid { s.writers pid with stage := .idle }⟩
      (sent ++ [byte]) later := by
  have range := merged.count_range few
  have count := merged.count
  have length := merged.length
  have some : 0 < s.kickers pids := count_pos member stage
  have sends := Terminal.ttykickout_sends merged.ready range.1 (by omega)
  have out := sends.out
  obtain ⟨written, rest⟩ := written_moved s.writers pid .idle
  have callers := count_update (P := fun w : Writer => w.stage = .waited) s.writers member
    { s.writers pid with stage := .idle }
  have kickers := count_update (P := fun w : Writer => w.stage = .stored) s.writers member
    { s.writers pid with stage := .idle }
  simp only [stage, reduceCtorEq, if_false, if_true, Nat.add_zero] at callers kickers
  cases unsent with
  | nil =>
    rw [List.length_nil] at length
    omega
  | cons byte later =>
    obtain ⟨first, ring⟩ := merged.ring.take
    refine ⟨byte, later, rfl, ?_⟩
    have tty := sends.counts.tty
    refine ⟨⟨?_, ?_, ?_, ?_, ?_⟩, ?_, ?_, ?_, ?_, ?_, fun p => ?_⟩
    · rw [tty]
      exact merged.ready.notHeld
    · rw [out]
      exact merged.ready.noEcho
    · rw [tty]
      exact merged.ready.valid
    · rw [tty, sends.counts.entry]
      exact merged.ready.used
    · exact sends.counts.counting.trans merged.ready.machine
    · rw [sends.output, merged.output, first, List.append_assoc]
    · rw [out]
      exact ring
    · rw [List.length_cons] at length
      simp only [Output.kickers] at length ⊢
      omega
    · simp only [Output.callers, Output.kickers] at count ⊢
      have more : s.terminal.ttykickout.count = s.terminal.count + 1 := by
        rw [Terminal.count, tty, sends.counts.entry]
        rfl
      rw [more, callers]
      omega
    · rw [written, List.append_assoc]
      exact merged.merges
    · rw [rest, congrFun written p]
      exact merged.stream p

theorem other (merged : Merged pids before text s sent unsent) {kernel : Kernel}
    (tty : kernel.tty = s.terminal.kernel.tty)
    (entry : kernel.semtab s.terminal.kernel.tty.tyosem = s.terminal.kernel.semtab s.terminal.kernel.tty.tyosem)
    (counting : kernel.counting = s.terminal.kernel.counting) (output : kernel.output = s.terminal.kernel.output) :
    Merged pids before text { s with terminal := { s.terminal with kernel := kernel } } sent unsent := by
  have posts : Terminal.Posts 0 s.terminal { s.terminal with kernel := kernel } :=
    ⟨rfl, output, ⟨tty, by rw [entry, Int.add_zero], counting⟩⟩
  obtain ⟨ready, same⟩ := merged.ready.posts posts
  rw [Int.add_zero] at same
  refine ⟨ready, output.trans merged.output, merged.ring, merged.length, ?_, merged.merges, merged.stream⟩
  rw [same]
  exact merged.count

theorem step (merged : Merged pids before text s sent unsent) (few : pids.card ≤ 2147483648) {label : Label}
    (step : Step pids label s s') : ∃ sent unsent, Merged pids before text s' sent unsent := by
  cases step with
  | wait member stage => exact ⟨sent, unsent, merged.wait few member stage⟩
  | store member stage next passed => exact ⟨sent, _, merged.store member stage next passed⟩
  | kick member stage =>
    obtain ⟨byte, later, -, after⟩ := merged.kick few member stage
    exact ⟨_, later, after⟩
  | other tty entry counting output => exact ⟨sent, unsent, merged.other tty entry counting output⟩

end Merged

theorem merged_start {k : Kernel} (machine : k.counting = int32) (low : 0 ≤ k.nextsem) (high : k.nextsem < NSEM)
    (created : (semcreate TY_OBUFLEN (semcreate 0 k).2).1 ≠ SYSERR) (tyobuff : Int → UInt8)
    (text : Int → List UInt8) :
    Merged pids (ttyinit k).output text (start k tyobuff text) [] [] := by
  obtain ⟨ready, free⟩ := Terminal.init_ready machine low high created tyobuff
  have callers : (start k tyobuff text).callers pids = 0 := count_eq_zero fun _ _ => by simp [start]
  have kickers : (start k tyobuff text).kickers pids = 0 := count_eq_zero fun _ _ => by simp [start]
  have empty : Holds 32 tyobuff 0 0 [] := .empty (by decide) (by decide)
  refine ⟨ready, (List.append_nil _).symm, empty, kickers.symm, ?_, .nil, fun pid => rfl⟩
  rw [callers, kickers]
  change (Terminal.init k tyobuff).count + 0 + 0 = 32
  rw [free]
  rfl

/-! ## Runs -/

/-- All processes are outside of `ttyputc` and have nothing left to write. -/
def Finished (s : Output) : Prop := ∀ pid, (s.writers pid).stage = .idle ∧ (s.writers pid).rest = []

/-- However the processes are switched, what was sent since the start is a merge of first parts of what each has stored,
which is the first part of its text; the ring holds the rest of a merge of all that was stored. When all are finished it
is a merge of the texts, and all slots of the ring are free. -/
theorem output_merged {k : Kernel} (machine : k.counting = int32) (low : 0 ≤ k.nextsem) (high : k.nextsem < NSEM)
    (created : (semcreate TY_OBUFLEN (semcreate 0 k).2).1 ≠ SYSERR) (few : pids.card ≤ 2147483648)
    (tyobuff : Int → UInt8) (text : Int → List UInt8) {labels : List Label}
    (run : Run (Step pids) labels (start k tyobuff text) s) :
    ∃ sent, s.terminal.kernel.output = (ttyinit k).output ++ sent ∧
      (∃ parts, (∀ pid, parts pid <+: (s.writers pid).written) ∧ Merges parts sent) ∧
      (∀ pid, (s.writers pid).written <+: stream (text pid)) ∧
      (∃ unsent, Merges (fun pid => (s.writers pid).written) (sent ++ unsent) ∧
        Holds 32 s.terminal.out.tyobuff s.terminal.out.tyohead s.terminal.out.tyotail unsent) ∧
      (s.Finished → Merges (fun pid => stream (text pid)) sent ∧
        (semcount s.terminal.kernel.tty.tyosem s.terminal.kernel).1 = TY_OBUFLEN.toInt) := by
  have reached : ∃ sent unsent, Merged pids (ttyinit k).output text s sent unsent := by
    refine run.invariant (fun s => ∃ sent unsent, Merged pids (ttyinit k).output text s sent unsent) ?_
      ⟨[], [], merged_start machine low high created tyobuff text⟩
    rintro label s s' step ⟨sent, unsent, merged⟩
    exact merged.step few step
  obtain ⟨sent, unsent, merged⟩ := reached
  refine ⟨sent, merged.output, merged.merges.take, fun pid => ⟨_, merged.stream pid⟩,
    ⟨unsent, merged.merges, merged.ring⟩, fun finished => ?_⟩
  -- nobody has claimed a slot or is going to kick
  have callers : s.callers pids = 0 := count_eq_zero fun pid _ => by simp [(finished pid).1]
  have kickers : s.kickers pids = 0 := count_eq_zero fun pid _ => by simp [(finished pid).1]
  have length := merged.length
  have count := merged.count
  rw [kickers, List.length_eq_zero_iff] at length
  rw [callers, kickers] at count
  constructor
  · have merges := merged.merges
    have all : (fun pid => (s.writers pid).written) = fun pid => stream (text pid) := by
      funext pid
      have whole := merged.stream pid
      rwa [(finished pid).2, List.append_nil] at whole
    rwa [length, List.append_nil, all] at merges
  · rw [semcount_value merged.ready.valid merged.ready.used]
    change s.terminal.count = TY_OBUFLEN.toInt
    have size : TY_OBUFLEN.toInt = 32 := by decide
    omega

/-- The kernel before the console is initialized. -/
def noConsole : Kernel := zeroed ⟨0x20004000, 0, by decide, by decide, by decide⟩ int32 fun _ => 0

/-- Two processes write one byte each; the second stores its byte and is switched out, and the first kicks twice. -/
theorem twoWriters_merged : ∃ (s : Output) (sent : List UInt8), s.Finished ∧ s.terminal.kernel.output =
    (ttyinit noConsole).output ++ sent ∧
    Merges (fun pid : Int => stream (if pid = 1 then [97] else if pid = 2 then [98] else [])) sent := by
  have run : Run (Step {1, 2}) [.wait 1, .wait 2, .store 2, .store 1, .kick 1, .kick 2]
      (start noConsole (fun _ => 0) fun pid => if pid = 1 then [97] else if pid = 2 then [98] else []) _ :=
    .cons (.wait (by decide) rfl (by decide)) (.cons (.wait (by decide) rfl (by decide))
      (.cons (.store (by decide) rfl rfl (by decide +kernel)) (.cons (.store (by decide) rfl rfl (by decide +kernel))
        (.cons (.kick (by decide) rfl) (.cons (.kick (by decide) rfl) (.nil _))))))
  obtain ⟨sent, output, -, -, -, whole⟩ :=
    output_merged (k := noConsole) rfl (by decide) (by decide) (by decide +kernel) (by decide) _ _ run
  refine ⟨_, sent, ?finished, output, (whole ?finished).1⟩
  intro pid
  by_cases first : pid = 1
  · rw [first]
    exact ⟨rfl, rfl⟩
  by_cases second : pid = 2
  · rw [second]
    exact ⟨rfl, rfl⟩
  -- no other process has anything to write
  simp only [start, Function.update_apply, if_neg first, if_neg second]
  exact ⟨trivial, rfl⟩

end Output

end XinuStm32
