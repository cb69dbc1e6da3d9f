import XinuStm32.Refinement.CcRuns

/-!
# The code of a statement does what it means

The code of a statement ends behind itself, or in the instruction that leaves the function.
-/

namespace XinuStm32

namespace Cc

open Layout

/-! ## Statements -/

namespace Stmt

mutual

def depth : Stmt → Nat
  | cond c yes => max c.depth (depth yes)
  | both c yes no => max c.depth (max (depth yes) (depth no))
  | loop c body => max c.depth (depth body)
  | give t | expr t => t.depth
  | leave | empty => 0
  | block body => depthAll body

def depthAll : List Stmt → Nat
  | [] => 0
  | body :: rest => max (depth body) (depthAll rest)

end

end Stmt

namespace Layout

/-- The function has been left: the frame is that of the caller, whose code goes on. -/
structure Leaves (L : Layout) (printf : Memory → Nat → Word) (m : Memory) (vm vm' : Machine) : Prop where
  steps : Steps printf vm vm'
  pc : vm'.pc = (loadInt m (L.setting.bp + 4)).toNat
  bp : vm'.bp = (loadInt m L.setting.bp).toNat
  sp : vm'.sp = L.setting.bp + 8
  same : ∀ x, ¬(L.floor ≤ x ∧ x < L.top) → vm'.memory x = m x

/-- How the machine ends what it begins in a state. -/
def Ends (L : Layout) (printf : Memory → Nat → Word) (vm : Machine) (j : Nat) : Ending → Prop
  | .on m => ∃ v vm', L.Reaches printf vm vm' ∧ L.At j v m vm'
  | .gave v m => ∃ vm', L.Leaves printf m vm vm' ∧ vm'.a = v
  | .left m => ∃ vm', L.Leaves printf m vm vm'

variable {L : Layout} {printf : Memory → Nat → Word} {vm vm' : Machine} {i j k d : Nat} {a v : Word}
variable {m m₁ : Memory} {e : Ending}

theorem Leaves.after (reaches : L.Reaches printf vm vm') {vm'' : Machine} (leaves : L.Leaves printf m vm' vm'') :
    L.Leaves printf m vm vm'' :=
  ⟨reaches.steps.trans leaves.steps, leaves.pc, leaves.bp, leaves.sp, leaves.same⟩

theorem Ends.after (reaches : L.Reaches printf vm vm') (ends : L.Ends printf vm' j e) : L.Ends printf vm j e := by
  cases e with
  | on m =>
    obtain ⟨v, vm'', reaches', arrived⟩ := ends
    exact ⟨v, vm'', reaches.trans reaches', arrived⟩
  | gave v m =>
    obtain ⟨vm'', leaves, value⟩ := ends
    exact ⟨vm'', leaves.after reaches, value⟩
  | left m =>
    obtain ⟨vm'', leaves⟩ := ends
    exact ⟨vm'', leaves.after reaches⟩

/-- What returns does not come to what is behind. -/
theorem Ends.elsewhere (ends : L.Ends printf vm j e) (returns : e.Returns) : L.Ends printf vm k e := by
  cases e with
  | on m => cases returns
  | gave v m => exact ends
  | left m => exact ends

theorem Ends.to (ends : L.Ends printf vm j e) (same : j = k) : L.Ends printf vm k e := same ▸ ends

/-- A jump behind what does not return. -/
theorem Ends.jump (ends : L.Ends printf vm j e) (emitted : L.Emitted j [Op.JMP.code, L.setting.scope.address k])
    (inside : k ≤ L.words.length) (room : L.floor ≤ vm.sp) : L.Ends printf vm k e := by
  cases e with
  | on m =>
    obtain ⟨v, vm', reaches, arrived⟩ := ends
    obtain ⟨vm'', jumped, arrived'⟩ := runs_jmp (d := 0) emitted inside vm' arrived (by rw [reaches.sp]; exact room)
    exact ⟨v, vm'', reaches.trans jumped, arrived'⟩
  | gave v m => exact ends
  | left m => exact ends

/-- What is behind a stretch of code ends it. -/
theorem Runs.ends (runs : L.Runs printf d i a m j v m₁) (ready : L.At i a m vm) (room : L.floor + 4 * d ≤ vm.sp)
    (behind : ∀ vm', L.At j v m₁ vm' → vm'.sp = vm.sp → L.Ends printf vm' k e) : L.Ends printf vm k e := by
  obtain ⟨vm', reaches, arrived⟩ := runs vm ready room
  exact (behind vm' arrived reaches.sp).after reaches

theorem At.ends (ready : L.At j v m vm) : L.Ends printf vm j (.on m) := ⟨v, vm, .refl vm, ready⟩

theorem At.leaves (printf : Memory → Nat → Word) (ready : L.At j v m vm) (found : L.words[j]? = some Op.LEV.code) :
    ∃ vm', L.Leaves printf m vm vm' ∧ vm'.a = v := by
  have step : vm.step printf = .run { vm.skip with
      sp := add32 (add32 vm.bp 4) 4
      bp := (loadInt vm.memory vm.bp).toNat
      pc := (loadInt vm.memory (add32 vm.bp 4)).toNat } := ready.step printf found
  have frame := ready.holds.bp
  have below := L.below
  have high := L.bp_lt
  have next : add32 vm.bp 4 = L.setting.bp + 4 := by rw [frame, add32_of_lt (by omega)]
  have saved (x : Nat) (outside : L.top ≤ x) : loadInt vm.memory x = loadInt m x :=
    loadInt_congr fun y low _ => ready.holds.same y (by omega)
  refine ⟨_, ⟨.single step, ?_, ?_, ?_, ready.holds.same⟩, ready.acc⟩
  · change (loadInt vm.memory (add32 vm.bp 4)).toNat = _
    rw [next, saved _ (by omega)]
  · change (loadInt vm.memory vm.bp).toNat = _
    rw [frame, saved _ below]
  · change add32 (add32 vm.bp 4) 4 = _
    rw [next, add32_of_lt (by omega)]

end Layout

namespace Stmt

variable (L : Layout) (printf : Memory → Nat → Word)

/-- The code ends as the meaning does. -/
def Performs (body : Stmt) (m : Memory) (e : Ending) : Prop :=
  ∀ (i : Nat) (a : Word), L.Emitted i (body.code L.setting.scope i) → ∀ vm, L.At i a m vm →
    L.floor + 4 * body.depth ≤ vm.sp → L.Ends printf vm (i + (body.code L.setting.scope i).length) e

variable {L printf} {c t : Tree} {yes no body : Stmt} {rest : List Stmt} {m m₁ m₂ : Memory} {v : Word} {e : Ending}

attribute [local simp] code codeAll depth depthAll

/-- A test has been made, and the machine goes by it. -/
theorem test_ends {i j k d : Nat} {a : Word} {vm : Machine} (front : L.Emitted i (c.code L.setting.scope i))
    (test : c.eval L.setting m = some (v, m₁))
    (branch : L.Emitted (i + (c.code L.setting.scope i).length) [Op.BZ.code, L.setting.scope.address j])
    (inside : j ≤ L.words.length) (ready : L.At i a m vm) (room : L.floor + 4 * d ≤ vm.sp) (most : c.depth ≤ d)
    (behind : ∀ vm', L.At (if v = 0 then j else i + (c.code L.setting.scope i).length + 2) v m₁ vm' →
      L.floor + 4 * d ≤ vm'.sp → L.Ends printf vm' k e) : L.Ends printf vm k e := by
  have run : L.Runs printf d i a m _ v m₁ := ((Tree.computes c front test).mono most).trans (runs_bz branch inside)
  exact run.ends ready room fun vm' arrived sp => behind vm' arrived (by rw [sp]; exact room)

theorem performs_taken (test : c.eval L.setting m = some (v, m₁)) (holds : v ≠ 0) (does : Performs L printf yes m₁ e) :
    Performs L printf (cond c yes) m e := by
  intro i a emitted vm ready room
  simp only [code] at emitted ⊢
  obtain ⟨front, branch, second⟩ := emitted.around
  have inside := second.le
  apply test_ends front test branch inside ready room (Nat.le_max_left _ _)
  rw [if_neg holds]
  intro vm' arrived room'
  rw [depth] at room'
  exact (does _ v second vm' arrived (by omega)).to (by simp; omega)

theorem performs_skipped (test : c.eval L.setting m = some (0, m₁)) : Performs L printf (cond c yes) m (.on m₁) := by
  intro i a emitted vm ready room
  simp only [code] at emitted ⊢
  obtain ⟨front, branch, second⟩ := emitted.around
  have inside := second.le
  apply test_ends front test branch inside ready room (Nat.le_max_left _ _)
  rw [if_pos rfl]
  intro vm' arrived _
  exact arrived.ends.to (by simp; omega)

theorem performs_first (test : c.eval L.setting m = some (v, m₁)) (holds : v ≠ 0) (does : Performs L printf yes m₁ e) :
    Performs L printf (both c yes no) m e := by
  intro i a emitted vm ready room
  simp only [code] at emitted ⊢
  obtain ⟨front, branch, behind⟩ := emitted.around
  obtain ⟨second, jump, third⟩ := behind.around
  have inside := third.le
  apply test_ends front test branch (by omega) ready room (Nat.le_max_left _ _)
  rw [if_neg holds]
  intro vm' arrived room'
  rw [depth] at room'
  exact ((does _ v second vm' arrived (by omega)).jump jump inside (by omega)).to (by simp; omega)

theorem performs_second (test : c.eval L.setting m = some (0, m₁)) (does : Performs L printf no m₁ e) :
    Performs L printf (both c yes no) m e := by
  intro i a emitted vm ready room
  simp only [code] at emitted ⊢
  obtain ⟨front, branch, behind⟩ := emitted.around
  obtain ⟨second, jump, third⟩ := behind.around
  have inside := third.le
  apply test_ends front test branch (by omega) ready room (Nat.le_max_left _ _)
  rw [if_pos rfl]
  intro vm' arrived room'
  rw [depth] at room'
  exact (does _ 0 third vm' arrived (by omega)).to (by simp; omega)

theorem performs_finished (test : c.eval L.setting m = some (0, m₁)) : Performs L printf (loop c body) m (.on m₁) := by
  intro i a emitted vm ready room
  simp only [code] at emitted ⊢
  obtain ⟨front, branch, behind⟩ := emitted.around
  obtain ⟨second, back⟩ := behind.append
  have inside := back.le
  simp only [List.length_cons, List.length_nil] at inside
  apply test_ends front test branch (by omega) ready room (Nat.le_max_left _ _)
  rw [if_pos rfl]
  intro vm' arrived _
  exact arrived.ends.to (by simp; omega)

/-- The jump back leads to the test. -/
theorem performs_again (test : c.eval L.setting m = some (v, m₁)) (holds : v ≠ 0)
    (round : Performs L printf body m₁ (.on m₂)) (does : Performs L printf (loop c body) m₂ e) :
    Performs L printf (loop c body) m e := by
  intro i a emitted vm ready room
  have whole := emitted
  have next := does i
  simp only [code] at emitted
  obtain ⟨front, branch, behind⟩ := emitted.around
  obtain ⟨second, back⟩ := behind.append
  have inside := back.le
  simp only [List.length_cons, List.length_nil] at inside
  apply test_ends front test branch (by omega) ready room (Nat.le_max_left _ _)
  rw [if_neg holds]
  intro vm' arrived room'
  have enough := room'
  rw [depth] at enough
  obtain ⟨x, vm₂, reaches, there⟩ := (round _ v second vm' arrived (by omega)).jump back (by omega) (by omega)
  exact (next x whole vm₂ there (by rw [reaches.sp]; exact room')).after reaches

theorem performs_broken (test : c.eval L.setting m = some (v, m₁)) (holds : v ≠ 0) (round : Performs L printf body m₁ e)
    (returns : e.Returns) : Performs L printf (loop c body) m e := by
  intro i a emitted vm ready room
  simp only [code] at emitted
  obtain ⟨front, branch, behind⟩ := emitted.around
  obtain ⟨second, back⟩ := behind.append
  have inside := back.le
  simp only [List.length_cons, List.length_nil] at inside
  apply test_ends front test branch (by omega) ready room (Nat.le_max_left _ _)
  rw [if_neg holds]
  intro vm' arrived room'
  rw [depth] at room'
  exact (round _ v second vm' arrived (by omega)).elsewhere returns

theorem performs_give (value : t.eval L.setting m = some (v, m₁)) : Performs L printf (give t) m (.gave v m₁) := by
  intro i a emitted vm ready room
  rw [code] at emitted
  obtain ⟨front, leave_⟩ := emitted.append
  exact (Tree.computes t front value).ends ready room fun vm' arrived _ => arrived.leaves printf leave_.cons.1

theorem performs_leave : Performs L printf leave m (.left m) := by
  intro i a emitted vm ready room
  obtain ⟨vm', leaves, -⟩ := ready.leaves printf emitted.cons.1
  exact ⟨vm', leaves⟩

theorem performs_empty : Performs L printf empty m (.on m) := fun _ _ _ _ ready _ => ready.ends

theorem performs_expr (value : t.eval L.setting m = some (v, m₁)) : Performs L printf (expr t) m (.on m₁) :=
  fun _ _ emitted _ ready room => (Tree.computes t emitted value).ends ready room fun _ arrived _ => arrived.ends

theorem performs_done : Performs L printf (block []) m (.on m) := fun _ _ _ _ ready _ => ready.ends

theorem performs_next (does : Performs L printf body m (.on m₁)) (others : Performs L printf (block rest) m₁ e) :
    Performs L printf (block (body :: rest)) m e := by
  intro i a emitted vm ready room
  simp only [code, codeAll] at emitted ⊢
  obtain ⟨first, second⟩ := emitted.append
  simp only [depth, depthAll] at room
  obtain ⟨x, vm', reaches, arrived⟩ := does i a first vm ready (by omega)
  have ends := others _ x second vm' arrived (by rw [reaches.sp, depth]; omega)
  exact (ends.after reaches).to (by rw [code]; simp; omega)

theorem performs_returned (does : Performs L printf body m e) (returns : e.Returns) :
    Performs L printf (block (body :: rest)) m e := by
  intro i a emitted vm ready room
  simp only [code, codeAll] at emitted ⊢
  obtain ⟨first, -⟩ := emitted.append
  simp only [depth, depthAll] at room
  exact (does i a first vm ready (by omega)).elsewhere returns

theorem performs (does : Does L.setting body m e) : Performs L printf body m e := by
  induction does with
  | taken test holds _ inductionHypothesis => exact performs_taken test holds inductionHypothesis
  | skipped test => exact performs_skipped test
  | first test holds _ inductionHypothesis => exact performs_first test holds inductionHypothesis
  | second test _ inductionHypothesis => exact performs_second test inductionHypothesis
  | finished test => exact performs_finished test
  | again test holds _ _ round inductionHypothesis => exact performs_again test holds round inductionHypothesis
  | broken test holds _ returns round => exact performs_broken test holds round returns
  | give value => exact performs_give value
  | leave => exact performs_leave
  | empty => exact performs_empty
  | expr value => exact performs_expr value
  | done => exact performs_done
  | next _ _ round inductionHypothesis => exact performs_next round inductionHypothesis
  | returned _ returns round => exact performs_returned round returns

end Stmt

end Cc

end XinuStm32
