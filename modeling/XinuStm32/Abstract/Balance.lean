import XinuStm32.Abstract.Effects
import XinuStm32.Lib.Before

/-!
# Semaphore counts and waiting lines

A semaphore is balanced when a negative count says how many processes wait and no one waits
otherwise. Every move but the ones that empty a line out of turn keeps the balance, and a waiting
line only ever loses its first process, gains one at the end, or loses a process that is killed.
-/

namespace XinuStm32

open View

namespace View

/-- The processes waiting for a semaphore, front first. -/
def line (sem : Int) (a : View) : List Int := a.members (a.semtab sem).squeue

/-- The length of the line is the negative count. -/
def Balance (sem : Int) (a : View) : Prop := ((a.line sem).length : Int) = max 0 (-(a.semtab sem).scount)

theorem Balance.empty {a : View} {sem : Int} (balance : Balance sem a)
    (nonnegative : 0 ≤ (a.semtab sem).scount) : a.line sem = [] := by
  have length : (a.line sem).length = 0 := by
    unfold Balance at balance
    omega
  exact List.length_eq_zero_iff.mp length

theorem Balance.nonnegative {a : View} {sem : Int} (balance : Balance sem a) (empty : a.line sem = []) :
    0 ≤ (a.semtab sem).scount := by
  unfold Balance at balance
  rw [empty, List.length_nil] at balance
  omega

/-- A semaphore is balanced, and if it is free no one waits for it. -/
structure Balanced (sem : Int) (a : View) : Prop where
  counting : a.counting = id
  balance : Balance sem a
  retired : (a.semtab sem).sstate = .free → 0 ≤ (a.semtab sem).scount

end View

/-! ## The semaphore a move is about -/

/-- The semaphore whose count or line a move changes. -/
def Move.semaphore (a : View) : Move → Option Int
  | .release sem | .drain sem | .post sem | .pass sem | .setCount sem _ | .close sem | .block sem =>
      some sem
  | .abandon p => some (a.proctab p).prsem
  | _ => none

/-- A move that is not about a semaphore leaves its entry and its line alone. -/
theorem Move.Step.apart {move : Move} {a a' : View} (h : Move.Step move a a') (inv : a.Inv) {sem : Int}
    (valid : ¬ isbadsem sem) (other : move.semaphore a ≠ some sem) :
    a'.line sem = a.line sem ∧ a'.semtab sem = a.semtab sem := by
  have ready := inv.squeue_ne_readylist valid
  have asleep := inv.squeue_ne_sleepq valid
  have squeue {sem' : Int} (valid' : ¬ isbadsem sem') (distinct : sem' ≠ sem) :
      (a.semtab sem).squeue ≠ (a.semtab sem').squeue :=
    fun same => distinct ((inv.squeue_inj valid valid').mp same).symm
  cases h with
  | quiet quiet =>
    rw [quiet.rest]
    exact ⟨rfl, rfl⟩
  | accept | chprio | spawn | tick => exact ⟨rfl, rfl⟩
  | leaveCurr | leaveIdle => simp [line]
  | ready | preempt => simp [line, ready]
  | dispatch => simp [line, ready]
  | sleep => simp [line, asleep]
  | take => simp [line, ready]
  | wake => simp [line, ready, asleep]
  | withdrawReady | withdrawFree => simp [line, ready, asleep]
  | release valid' | drain valid' | post valid' | pass valid' | setCount valid' | close valid'
  | block valid' =>
    have distinct := fun same => other (congrArg some same)
    simp [line, addCount, squeue valid' distinct, Ne.symm distinct, ready]
  | @abandon _ p pid waiting =>
    have distinct : (a.proctab p).prsem ≠ sem := fun same => other (congrArg some same)
    have valid' := inv.waits pid waiting
    simp [line, addCount, squeue valid' distinct, Ne.symm distinct]

/-! ## What happens to a waiting line -/

/-- The ways a move may change a waiting line. -/
inductive LineChange (sem : Int) (move : Move) (a a' : View) : Prop where
  | same : a'.line sem = a.line sem → LineChange sem move a a'
  | served (p : Int) : move = .release sem ∨ move = .drain sem → a.line sem = p :: a'.line sem →
      LineChange sem move a a'
  | joined : move = .block sem → a'.line sem = a.line sem ++ [a.currpid] → LineChange sem move a a'
  | killed (p : Int) : move = .abandon p → a'.line sem = (a.line sem).erase p → LineChange sem move a a'

theorem Move.Step.line {move : Move} {a a' : View} (h : Move.Step move a a') (inv : a.Inv) {sem : Int}
    (valid : ¬ isbadsem sem) : LineChange sem move a a' := by
  by_cases about : move.semaphore a = some sem
  · have ready := inv.squeue_ne_readylist valid
    cases h with
    | @release _ _ p rest _ _ front =>
      cases about
      refine .served p (Or.inl rfl) ?_
      simp [View.line, front, ready, addCount]
    | @drain _ _ p rest _ front =>
      cases about
      refine .served p (Or.inr rfl) ?_
      simp [View.line, front, ready]
    | post | pass | setCount | close =>
      cases about
      exact .same (by simp [View.line, addCount])
    | block =>
      cases about
      exact .joined rfl (by simp [View.line, addCount])
    | @abandon _ p pid waiting =>
      cases about
      exact .killed p rfl (by simp [View.line, addCount])
    | _ => cases about
  · exact .same (h.apart inv valid about).1

/-- Without someone joining or being killed, a line only loses processes at its front. -/
theorem Moves.shrinks {moves : List Move} {a a' : View} (run : Moves moves a a') (inv : a.Inv) {sem : Int}
    (valid : ¬ isbadsem sem) (all : ∀ move ∈ moves, move ≠ .block sem ∧ ∀ p, move ≠ .abandon p) :
    ∃ n, a'.line sem = (a.line sem).drop n := by
  induction run with
  | nil => exact ⟨0, rfl⟩
  | cons h _ inductionHypothesis =>
    obtain ⟨n, dropped⟩ := inductionHypothesis (inv.step h)
      fun move member => all move (List.mem_cons_of_mem _ member)
    obtain ⟨noBlock, noKill⟩ := all _ List.mem_cons_self
    cases h.line inv valid with
    | same same => exact ⟨n, by rw [dropped, same]⟩
    | served p _ front => exact ⟨n + 1, by rw [dropped, front, List.drop_succ_cons]⟩
    | joined block => exact absurd block noBlock
    | killed p kill => exact absurd kill (noKill p)

/-- Killing one process takes no one else out of a line. -/
theorem Moves.loses {moves : List Move} {a a' : View} (run : Moves moves a a') (inv : a.Inv) {sem p : Int}
    (valid : ¬ isbadsem sem) (all : ∀ move ∈ moves, (∀ b, move.semaphore b = none) ∨ move = .abandon p) :
    a'.line sem = a.line sem ∨ a'.line sem = (a.line sem).erase p := by
  induction run with
  | nil => exact Or.inl rfl
  | @cons move moves a b c h _ inductionHypothesis =>
    have rest := inductionHypothesis (inv.step h)
      fun move member => all move (List.mem_cons_of_mem _ member)
    have first : b.line sem = a.line sem ∨ b.line sem = (a.line sem).erase p := by
      cases all _ List.mem_cons_self with
      | inl elsewhere => exact Or.inl (h.apart inv valid (by simp [elsewhere])).1
      | inr kill =>
        subst kill
        cases h.line inv valid with
        | same same => exact Or.inl same
        | served _ served => rcases served with other | other <;> cases other
        | joined block => cases block
        | killed _ kill erased => cases kill; exact Or.inr erased
    have twice : ((a.line sem).erase p).erase p = (a.line sem).erase p :=
      List.erase_of_not_mem (inv.wellFormed.nodup _).not_mem_erase
    rcases first with first | first <;> rw [first] at rest
    · exact rest
    · rw [twice, or_self] at rest
      exact Or.inr rest

/-! ## Keeping the balance -/

theorem Move.Step.counting {move : Move} {a a' : View} (h : Move.Step move a a') :
    a'.counting = a.counting := by
  cases h with
  | quiet quiet => rw [quiet.rest]
  | leaveCurr | leaveIdle | take | abandon =>
    simp only [settle]
    split <;> rfl
  | @withdrawReady _ _ _ behind => cases behind <;> rfl
  | @withdrawFree _ _ _ behind => cases behind <;> simp only [settle] <;> split <;> rfl
  | _ => rfl

/-- Only emptying a line out of turn loses the balance. -/
theorem Move.Step.balance {move : Move} {a a' : View} (h : Move.Step move a a') (inv : a.Inv)
    {sem : Int} (valid : ¬ isbadsem sem) (counting : a.counting = id) (balance : Balance sem a)
    (retired : ∀ count, move = .setCount sem count → (a.semtab sem).sstate = .free →
      0 ≤ (a.semtab sem).scount) (counted : move ≠ .drain sem) : Balance sem a' := by
  by_cases about : move.semaphore a = some sem
  · have ready := inv.squeue_ne_readylist valid
    unfold Balance View.line at balance
    cases h with
    | release _ negative front =>
      cases about
      simp only [front, List.length_cons] at balance
      simp [Balance, View.line, front, ready, addCount, counting]
      omega
    | drain =>
      cases about
      exact absurd rfl counted
    | post _ free =>
      cases about
      simp [Balance, View.line, addCount, counting]
      cases free with
      | inl nonnegative => omega
      | inr empty =>
        rw [empty] at balance ⊢
        simp at balance ⊢
        omega
    | pass _ nonnegative =>
      cases about
      simp only [counting, id] at nonnegative
      simp [Balance, View.line, addCount, counting]
      omega
    | setCount _ nonnegative unused =>
      cases about
      have empty : a.members (a.semtab sem).squeue = [] := by
        cases unused with
        | inl free =>
          have count := retired _ rfl free
          exact List.length_eq_zero_iff.mp (by omega)
        | inr empty => exact empty
      simp [Balance, View.line, empty]
      omega
    | close =>
      cases about
      simpa [Balance, View.line] using balance
    | block _ _ _ _ negative =>
      cases about
      simp only [counting, id] at negative
      simp [Balance, View.line, addCount, counting]
      omega
    | @abandon _ p pid waiting =>
      cases about
      have member := inv.waiter_mem pid waiting
      have length := List.length_erase_of_mem member
      have positive := List.length_pos_of_mem member
      simp [Balance, View.line, addCount, counting, length]
      omega
    | _ => cases about
  · obtain ⟨line, entry⟩ := h.apart inv valid about
    rw [Balance, line, entry]
    exact balance

/-- A free semaphore stays free of waiting processes; only closing one frees it. -/
theorem Move.Step.retired {move : Move} {a a' : View} (h : Move.Step move a a') (inv : a.Inv)
    {sem : Int} (valid : ¬ isbadsem sem) (balanced : Balanced sem a) (kept : move ≠ .close sem)
    (free : (a'.semtab sem).sstate = .free) : 0 ≤ (a'.semtab sem).scount := by
  obtain ⟨counting, balance, retired⟩ := balanced
  by_cases about : move.semaphore a = some sem
  · cases h with
    | release | post =>
      cases about
      simp [addCount, counting] at free ⊢
      have count := retired free
      omega
    | drain =>
      cases about
      exact retired (by simpa using free)
    | pass _ nonnegative =>
      cases about
      simpa [addCount] using nonnegative
    | setCount _ nonnegative =>
      cases about
      simp at free
    | close =>
      cases about
      exact absurd rfl kept
    | block _ used =>
      cases about
      simp [addCount, used] at free
    | @abandon _ p pid waiting =>
      cases about
      simp [addCount, counting] at free ⊢
      have count := retired free
      omega
    | _ => cases about
  · rw [(h.apart inv valid about).2] at free ⊢
    exact retired free

theorem Move.Step.balanced {move : Move} {a a' : View} (h : Move.Step move a a') (inv : a.Inv)
    {sem : Int} (valid : ¬ isbadsem sem) (balanced : Balanced sem a) (counted : move ≠ .drain sem)
    (kept : move ≠ .close sem) : Balanced sem a' :=
  ⟨h.counting.trans balanced.counting,
    h.balance inv valid balanced.counting balanced.balance (fun _ _ => balanced.retired) counted,
    h.retired inv valid balanced kept⟩

/-- Moves that neither empty a semaphore's line out of turn nor close it keep it balanced. -/
theorem Moves.balanced {moves : List Move} {a a' : View} (run : Moves moves a a') (inv : a.Inv)
    {sem : Int} (valid : ¬ isbadsem sem) (balanced : Balanced sem a)
    (all : ∀ move ∈ moves, move ≠ .drain sem ∧ move ≠ .close sem) : Balanced sem a' :=
  (Transition.Run.invariant_of_allowed (fun a => a.Inv ∧ Balanced sem a)
    (fun move => move ≠ .drain sem ∧ move ≠ .close sem)
    (fun _ _ _ allowed h both =>
      ⟨both.1.step h, h.balanced both.1 valid both.2 allowed.1 allowed.2⟩) run all ⟨inv, balanced⟩).2

/-! ## Releasing waiting processes -/

/-- The first `n` waiting processes become ready, and nothing else happens to any process. -/
structure Releases (sem : Int) (n : Nat) (a a' : View) : Prop where
  line : a'.line sem = (a.line sem).drop n
  released : ∀ p ∈ (a.line sem).take n, a'.state p = .ready
  others : ∀ p ∉ (a.line sem).take n, a'.state p = a.state p

namespace Releases

variable {sem : Int} {a b a' : View}

/-- Nothing happens to an empty line. -/
theorem nothing (n : Nat) (empty : a.line sem = []) (line : a'.line sem = a.line sem)
    (state : ∀ p, a'.state p = a.state p) : Releases sem n a a' := by
  refine ⟨?_, ?_, fun p _ => state p⟩
  · rw [line, empty, List.drop_nil]
  · intro p member
    rw [empty, List.take_nil] at member
    cases member

theorem trans {n m : Nat} (first : Releases sem n a b) (second : Releases sem m b a') :
    Releases sem (n + m) a a' := by
  have next : (b.line sem).take m = ((a.line sem).drop n).take m := by rw [first.line]
  have split : (a.line sem).take (n + m) = (a.line sem).take n ++ (b.line sem).take m := by
    rw [next, List.take_add]
  refine ⟨?_, fun p member => ?_, fun p absent => ?_⟩
  · rw [second.line, first.line, List.drop_drop]
  · rw [split, List.mem_append] at member
    by_cases late : p ∈ (b.line sem).take m
    · exact second.released p late
    · rw [second.others p late]
      exact first.released p (member.resolve_right late)
  · rw [split, List.mem_append, not_or] at absent
    rw [second.others p absent.2, first.others p absent.1]

theorem congr {n : Nat} (releases : Releases sem n a b) (line : a'.line sem = b.line sem)
    (state : ∀ p, a'.state p = b.state p) : Releases sem n a a' :=
  ⟨line.trans releases.line, fun p member => (state p).trans (releases.released p member),
    fun p absent => (state p).trans (releases.others p absent)⟩

/-- A release that leaves no one released everyone. -/
theorem all {n : Nat} (releases : Releases sem n a a') (empty : a'.line sem = []) :
    Releases sem (a.line sem).length a a' := by
  have enough : (a.line sem).length ≤ n := List.drop_eq_nil_iff.mp (releases.line ▸ empty)
  have whole : (a.line sem).take n = (a.line sem).take (a.line sem).length := by
    rw [List.take_of_length_le enough, List.take_length]
  refine ⟨?_, fun p member => ?_, fun p absent => ?_⟩
  · rw [empty, List.drop_length]
  · exact releases.released p (whole ▸ member)
  · exact releases.others p (whole ▸ absent)

end Releases

/-- Serving a line releases its first process. -/
theorem Move.Step.serves {move : Move} {a a' : View} (h : Move.Step move a a') (inv : a.Inv) {sem : Int}
    (valid : ¬ isbadsem sem) (served : move = .release sem ∨ move = .drain sem) :
    Releases sem 1 a a' := by
  have ready := inv.squeue_ne_readylist valid
  obtain rfl | rfl := served
  · cases h with
    | @release _ _ p rest _ _ front =>
      refine ⟨?_, ?_, ?_⟩
      · simp [View.line, front, ready, addCount]
      · simp [View.line, front]
      · simp +contextual [View.line, front]
  · cases h with
    | @drain _ _ p rest _ front =>
      refine ⟨?_, ?_, ?_⟩
      · simp [View.line, front, ready]
      · simp [View.line, front]
      · simp +contextual [View.line, front]

/-- Counting up without a waiting process changes no line and no state. -/
theorem Move.Step.posts {a a' : View} {sem : Int} (h : Move.Step (.post sem) a a') :
    (∀ sem', a'.line sem' = a.line sem') ∧ (∀ p, a'.state p = a.state p) ∧
      (0 ≤ (a.semtab sem).scount ∨ a.line sem = []) := by
  cases h with
  | post _ free =>
    refine ⟨fun sem' => ?_, fun p => rfl, free⟩
    simp [View.line]

/-- Signalling `n` times releases the first `n` waiting processes. -/
theorem Moves.signals {moves : List Move} {a a' : View} (run : Moves moves a a') (inv : a.Inv)
    {sem : Int} (valid : ¬ isbadsem sem) (counting : a.counting = id) (balance : Balance sem a)
    (kinds : ∀ move ∈ moves, move = .release sem ∨ move = .post sem) :
    Releases sem moves.length a a' ∧ a'.counting = id ∧ Balance sem a' := by
  induction run with
  | nil => exact ⟨⟨rfl, by simp, by simp⟩, counting, balance⟩
  | @cons move moves a b c h _ inductionHypothesis =>
    have kind := kinds move List.mem_cons_self
    have once : Releases sem 1 a b := by
      obtain rfl | rfl := kind
      · exact h.serves inv valid (Or.inl rfl)
      · obtain ⟨line, state, free⟩ := h.posts
        exact .nothing 1 (free.elim balance.empty id) (line sem) state
    have balance' : Balance sem b := by
      refine h.balance inv valid counting balance ?_ ?_
      · rcases kind with rfl | rfl <;> simp
      · rcases kind with rfl | rfl <;> simp
    obtain ⟨rest, after⟩ := inductionHypothesis (inv.step h) (h.counting.trans counting) balance'
      fun move member => kinds move (List.mem_cons_of_mem _ member)
    rw [List.length_cons, Nat.add_comm]
    exact ⟨once.trans rest, after⟩

/-- Emptying a line step by step. -/
theorem Moves.drains {moves : List Move} {a a' : View} (run : Moves moves a a') (inv : a.Inv)
    {sem : Int} (valid : ¬ isbadsem sem) (kinds : ∀ move ∈ moves, move = .drain sem) :
    Releases sem moves.length a a' := by
  induction run with
  | nil => exact ⟨rfl, by simp, by simp⟩
  | @cons move moves a b c h _ inductionHypothesis =>
    have once := h.serves inv valid (Or.inr (kinds move List.mem_cons_self))
    have rest := inductionHypothesis (inv.step h)
      fun move member => kinds move (List.mem_cons_of_mem _ member)
    rw [List.length_cons, Nat.add_comm]
    exact once.trans rest

theorem Moves.quiets {quiet : List Move} {a a' : View} (run : Moves quiet a a')
    (all : ∀ move ∈ quiet, move = .quiet) :
    (∀ sem, a'.line sem = a.line sem) ∧ (∀ p, a'.state p = a.state p) ∧ a'.semtab = a.semtab ∧
      a'.counting = a.counting := by
  have quiet := Quiet.moves run all
  exact ⟨fun sem => by rw [quiet.rest]; rfl, quiet.state, by rw [quiet.rest], by rw [quiet.rest]⟩

/-- The moves of `semreset` release everyone and leave the semaphore balanced. -/
theorem Moves.resets {drains quiet : List Move} {a a' : View} {sem count : Int}
    (run : Moves (drains ++ .setCount sem count :: quiet) a a') (inv : a.Inv) (valid : ¬ isbadsem sem)
    (used : (a.semtab sem).sstate = .used) (counting : a.counting = id)
    (kinds : ∀ move ∈ drains, move = .drain sem) (quiets : ∀ move ∈ quiet, move = .quiet) :
    Releases sem (a.line sem).length a a' ∧ Balanced sem a' := by
  obtain ⟨b, drained, run⟩ := run.split
  have releases := Moves.drains drained inv valid kinds
  have rest := Transition.Run.invariant_of_allowed
    (fun b => b.semtab = a.semtab ∧ b.counting = a.counting) (· = .drain sem)
    (by
      rintro _ b c rfl h same
      refine ⟨?_, h.counting.trans same.2⟩
      cases h
      exact same.1) drained kinds ⟨rfl, rfl⟩
  cases run with
  | @cons _ _ _ c _ h run =>
    obtain ⟨line, state, semtab, sameCounting⟩ := Moves.quiets run quiets
    cases h with
    | setCount _ nonnegative unused =>
      have empty : b.line sem = [] := by
        cases unused with
        | inl free =>
          rw [rest.1, used] at free
          cases free
        | inr empty => exact empty
      have after : a'.line sem = [] := by
        rw [line]
        simpa [View.line] using empty
      refine ⟨(releases.congr (after.trans empty.symm) state).all after,
        sameCounting.trans (rest.2.trans counting), ?_, ?_⟩
      · rw [Balance, after, semtab]
        simp
        omega
      · rw [semtab]
        simp

/-- The moves of `semdelete` release everyone and leave the semaphore balanced. -/
theorem Moves.deletes {moves quiet : List Move} {a a' : View} {sem : Int}
    (run : Moves (.close sem :: (moves ++ [.post sem]) ++ quiet) a a') (inv : a.Inv)
    (valid : ¬ isbadsem sem) (balanced : Balanced sem a)
    (kinds : ∀ move ∈ moves, move = .release sem ∨ move = .post sem)
    (quiets : ∀ move ∈ quiet, move = .quiet) :
    Releases sem (a.line sem).length a a' ∧ Balanced sem a' := by
  obtain ⟨c, run, tail⟩ := run.split
  obtain ⟨lineTail, stateTail, semtabTail, countingTail⟩ := Moves.quiets tail quiets
  cases run with
  | @cons _ _ _ b _ close run =>
    have line : b.line sem = a.line sem := by
      cases close
      simp [View.line]
    have state : ∀ p, b.state p = a.state p := by
      cases close
      exact fun p => rfl
    have balance := close.balance inv valid balanced.counting balanced.balance (by simp) (by simp)
    have signals := Moves.signals run (inv.step close) valid (close.counting.trans balanced.counting)
      balance (by simpa [or_imp, forall_and] using kinds)
    obtain ⟨d, run, last⟩ := run.split
    have before := (Moves.signals run (inv.step close) valid (close.counting.trans balanced.counting)
      balance kinds).2.2
    cases last with
    | cons post last =>
      cases last
      obtain ⟨linePost, -, free⟩ := post.posts
      have nonnegative : 0 ≤ (d.semtab sem).scount := free.elim id before.nonnegative
      have empty : c.line sem = [] := (linePost sem).trans (before.empty nonnegative)
      have releases : Releases sem _ a a' :=
        ⟨(lineTail sem).trans (line ▸ signals.1.line),
          fun p member => (stateTail p).trans (signals.1.released p (line ▸ member)),
          fun p absent => (stateTail p).trans ((signals.1.others p (line ▸ absent)).trans (state p))⟩
      refine ⟨releases.all ((lineTail sem).trans empty), countingTail.trans signals.2.1, ?_, fun _ => ?_⟩
      · rw [Balance, lineTail, semtabTail]
        exact signals.2.2
      · rw [semtabTail]
        exact signals.2.2.nonnegative empty

end XinuStm32
