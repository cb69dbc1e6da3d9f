import XinuStm32.Refinement.CcMachine

/-!
# The code of a tree computes its meaning

When the code of an expression has run, the accumulator has the value of the expression and the memory is as the meaning
says; without its last word, the code of a place leaves the address there. The code of a statement ends behind itself or
in the instruction that leaves the function.
-/

namespace XinuStm32

namespace Cc

open Compiler (loadOp storeOp unit scale)
open Layout

/-! ## Parts of code -/

section

variable {L : Layout} {printf : Memory → Nat → Word} {i j d : Nat} {a v w : Word} {m m₁ m' : Memory} {op word : Word}
variable {left right more : List Word}

/-- An operand, a push, and what comes behind. -/
theorem Layout.Emitted.operands (emitted : L.Emitted i (left ++ [Op.PSH.code] ++ (right ++ more))) :
    L.Emitted i left ∧ L.words[i + left.length]? = some Op.PSH.code ∧ L.Emitted (i + left.length + 1) right ∧
      L.Emitted (i + left.length + 1 + right.length) more := by
  obtain ⟨first, behind⟩ := emitted.append
  obtain ⟨first, push⟩ := first.append
  obtain ⟨second, last⟩ := behind.append
  rw [List.length_append, List.length_singleton, ← Nat.add_assoc] at second last
  exact ⟨first, push.cons.1, second, last⟩

/-- A jump between two parts. -/
theorem Layout.Emitted.around (emitted : L.Emitted i (left ++ ([op, word] ++ right))) :
    L.Emitted i left ∧ L.Emitted (i + left.length) [op, word] ∧ L.Emitted (i + left.length + 2) right := by
  obtain ⟨first, behind⟩ := emitted.append
  obtain ⟨jump, second⟩ := behind.append
  exact ⟨first, jump, second⟩

theorem Layout.Runs.to {k : Nat} (runs : L.Runs printf d i a m j v m') (same : j = k) : L.Runs printf d i a m k v m' :=
  same ▸ runs

/-- What is added to a pointer is scaled. -/
theorem Layout.Runs.scale {ty : Nat} (runs : L.Runs printf d i a m j w m') (emitted : L.Emitted j (scale ty)) :
    L.Runs printf (d + 1) i a m (j + (scale ty).length) (scaled ty w) m' := by
  rw [Compiler.scale] at emitted ⊢
  rw [scaled]
  by_cases pointer : ty > PTR
  · rw [if_pos pointer] at emitted ⊢
    rw [if_pos pointer]
    obtain ⟨push, emitted⟩ := emitted.cons
    have imm : L.Emitted (j + 1) ([Op.IMM.code, 4] ++ [Op.MUL.code]) := emitted
    obtain ⟨imm, mul⟩ := imm.append
    exact runs.operate push (runs_imm imm) mul.cons.1 rfl
  · rw [if_neg pointer, if_neg pointer]
    exact runs.mono (Nat.le_succ d)

theorem apply_step (inc : Bool) (ty : Nat) (v : Word) : (stepOp inc).apply v (unit ty) = some (stepped inc ty v) := by
  cases inc <;> rfl

end

namespace Tree

/-- The words of stack that the code of an expression takes for a while. -/
def depth : Tree → Nat
  | num _ | negative _ | name _ | call _ _ | sizeof _ _ => 0
  | paren t | cast _ _ t | deref t | addressOf t | plus t => depth t
  | not t | complement t | minus t => depth t + 1
  | before _ t => max (depth t) 1 + 1
  | after _ t => max (depth t) 1 + 2
  | assign l r | binary _ l r => max (depth l) (depth r) + 1
  | cond c yes no => max (depth c) (max (depth yes) (depth no))
  | lor l r | land l r => max (depth l) (depth r)
  | sum _ l r | index l r => max (depth l) (depth r + 1) + 1

variable (L : Layout) (printf : Memory → Nat → Word)

/-- The code leaves the value in the accumulator. -/
def Computes (t : Tree) : Prop :=
  ∀ {i : Nat} {a : Word} {m : Memory} {v : Word} {m' : Memory}, L.Emitted i (t.code L.setting.scope i) →
    t.eval L.setting m = some (v, m') →
      L.Runs printf t.depth i a m (i + (t.code L.setting.scope i).length) v m'

/-- The code without the load leaves the address in the accumulator. -/
def Locates (t : Tree) : Prop :=
  ∀ {i : Nat} {a : Word} {m : Memory} {p : Word} {m' : Memory}, L.Emitted i (t.code L.setting.scope i).dropLast →
    t.locate L.setting m = some (p, m') →
      L.Runs printf t.depth i a m (i + (t.code L.setting.scope i).dropLast.length) p m'

variable {L printf} {t l r c yes no : Tree} {f : Setting}

attribute [local simp] code eval locate depth

/-! ## Places -/

theorem isPlace_of_locate {m : Memory} {found : Word × Memory} :
    ∀ t : Tree, t.locate f m = some found → t.IsPlace f.scope
  | name id, located => by
    rw [locate] at located
    split at located
    · cases located
    · next variable_ => exact variable_
  | paren t, located => isPlace_of_locate t located
  | deref _, _ | index _ _, _ => trivial
  | num _, located | negative _, located | call _ _, located | sizeof _ _, located | cast _ _ _, located
  | addressOf _, located | not _, located | complement _, located | plus _, located | minus _, located
  | before _ _, located | after _ _, located | assign _ _, located | cond _ _ _, located | lor _ _, located
  | land _ _, located | binary _ _ _, located | sum _ _ _, located => by cases located

/-- The value of a place is what is there. -/
theorem eval_place {m m' : Memory} {v : Word} : ∀ t : Tree, t.IsPlace f.scope → t.eval f m = some (v, m') →
    ∃ p, t.locate f m = some (p, m') ∧ f.load (t.type f.scope) p m' = some v
  | name id, variable_, ran => by
    rw [IsPlace] at variable_
    rw [eval, if_neg variable_] at ran
    obtain ⟨x, loads, same⟩ := Option.bind_eq_some_iff.mp ran
    cases same
    refine ⟨_, by rw [locate, if_neg variable_], ?_⟩
    rw [type, if_neg variable_]
    exact loads
  | paren t, place, ran => eval_place t place ran
  | deref t, _, ran => by
    rw [eval] at ran
    obtain ⟨⟨p, m₁⟩, found, ran⟩ := Option.bind_eq_some_iff.mp ran
    obtain ⟨x, loads, same⟩ := Option.bind_eq_some_iff.mp ran
    cases same
    exact ⟨p, found, loads⟩
  | index l r, _, ran => by
    rw [eval] at ran
    obtain ⟨⟨x, m₁⟩, ranLeft, ran⟩ := Option.bind_eq_some_iff.mp ran
    obtain ⟨⟨y, m₂⟩, ranRight, ran⟩ := Option.bind_eq_some_iff.mp ran
    obtain ⟨z, loads, same⟩ := Option.bind_eq_some_iff.mp ran
    cases same
    refine ⟨_, ?_, loads⟩
    rw [locate]
    exact Option.bind_eq_some_iff.mpr ⟨_, ranLeft, Option.bind_eq_some_iff.mpr ⟨_, ranRight, rfl⟩⟩

/-- A place is loaded from its address. -/
theorem computes_of_locates (locates : Locates L printf t) (place : t.IsPlace L.setting.scope) :
    Computes L printf t := by
  intro i a m v m' emitted ran
  obtain ⟨p, found, loads⟩ := eval_place t place ran
  have whole := code_place place i
  rw [whole] at emitted ⊢
  obtain ⟨front, load⟩ := emitted.append
  have run := (locates (a := a) front found).trans (runs_load load.cons.1 loads)
  exact run.to (by simp; omega)

theorem locates_name (id : Nat) : Locates L printf (name id) := by
  intro i a m p m' emitted located
  have variable_ := isPlace_of_locate (name id) located
  rw [IsPlace] at variable_
  rw [locate, if_neg variable_] at located
  cases located
  rw [code, if_neg variable_, List.dropLast_concat] at emitted ⊢
  rw [Scope.variableCode] at emitted ⊢
  rw [Setting.address]
  split
  · next loc =>
    rw [if_pos loc] at emitted
    exact runs_lea emitted
  · next glo =>
    rw [if_neg glo] at emitted
    exact runs_imm emitted

theorem locates_paren (locates : Locates L printf t) : Locates L printf (paren t) := locates

theorem locates_deref (computes : Computes L printf t) : Locates L printf (deref t) := by
  intro i a m p m' emitted located
  rw [code, List.dropLast_concat] at emitted ⊢
  exact computes emitted located

/-- The address of an element. -/
theorem locates_index (left : Computes L printf l) (right : Computes L printf r) : Locates L printf (index l r) := by
  intro i a m p m' emitted located
  rw [locate] at located
  obtain ⟨⟨x, m₁⟩, ranLeft, located⟩ := Option.bind_eq_some_iff.mp located
  obtain ⟨⟨y, m₂⟩, ranRight, same⟩ := Option.bind_eq_some_iff.mp located
  cases same
  have split : ∀ (front back scaled : List Word) (add load : Word),
      front ++ (back ++ (scaled ++ [add, load])) = (front ++ (back ++ (scaled ++ [add]))) ++ [load] := by
    intro front back scaled add load
    simp
  simp only [code] at emitted ⊢
  rw [split, List.dropLast_concat] at emitted ⊢
  simp only [List.length_append, List.length_singleton, ← Nat.add_assoc] at emitted ⊢
  obtain ⟨first, push, second, last⟩ := emitted.operands
  obtain ⟨factor, add⟩ := last.append
  have operand := (right (a := x) second ranRight).scale factor
  have run := ((left (a := a) first ranLeft).mono (Nat.le_max_left _ (r.depth + 1))).operate push
    (operand.mono (Nat.le_max_right _ _)) add.cons.1 rfl
  exact run

/-! ## Values -/

theorem computes_num (value : Word) : Computes L printf (num value) := by
  intro i a m v m' emitted ran
  cases ran
  exact runs_imm emitted

theorem computes_negative (value : Word) : Computes L printf (negative value) := by
  intro i a m v m' emitted ran
  cases ran
  exact runs_imm emitted

theorem computes_sizeof (char : Bool) (stars : Nat) : Computes L printf (sizeof char stars) := by
  intro i a m v m' emitted ran
  cases ran
  exact runs_imm emitted

theorem computes_name (id : Nat) : Computes L printf (name id) := by
  obtain num | num := eq_or_ne (L.setting.scope.sym id).cls Tk.Num
  · intro i a m v m' emitted ran
    rw [eval, if_pos num] at ran
    rw [code, if_pos num] at emitted ⊢
    cases ran
    exact runs_imm emitted
  · exact computes_of_locates (locates_name id) num

theorem computes_call (id : Nat) (arguments : List Tree) : Computes L printf (call id arguments) := by
  intro i a m v m' emitted ran
  cases ran

theorem computes_addressOf (locates : Locates L printf t) : Computes L printf (addressOf t) := locates

/-- The operand, a constant and an operator. -/
theorem Computes.constant (computes : Computes L printf t) {i : Nat} {a v w x : Word} {m m' : Memory} {op : Op}
    (emitted : L.Emitted i (t.code L.setting.scope i ++ [Op.PSH.code, Op.IMM.code, w, op.code]))
    (ran : t.eval L.setting m = some (v, m')) (applied : op.apply v w = some x) :
    L.Runs printf (t.depth + 1) i a m (i + (t.code L.setting.scope i).length + 4) x m' := by
  have parted : t.code L.setting.scope i ++ [Op.PSH.code, Op.IMM.code, w, op.code] =
      t.code L.setting.scope i ++ [Op.PSH.code] ++ ([Op.IMM.code, w] ++ [op.code]) := by simp
  rw [parted] at emitted
  obtain ⟨first, push, imm, last⟩ := emitted.operands
  exact (computes first ran).operate push (runs_imm imm) last.cons.1 applied

theorem computes_not (computes : Computes L printf t) : Computes L printf (not t) := by
  intro i a m v m' emitted ran
  rw [eval] at ran
  obtain ⟨⟨x, m₁⟩, ran, same⟩ := Option.bind_eq_some_iff.mp ran
  cases same
  rw [code] at emitted ⊢
  rw [List.length_append, ← Nat.add_assoc]
  exact computes.constant emitted ran rfl

theorem computes_complement (computes : Computes L printf t) : Computes L printf (complement t) := by
  intro i a m v m' emitted ran
  rw [eval] at ran
  obtain ⟨⟨x, m₁⟩, ran, same⟩ := Option.bind_eq_some_iff.mp ran
  cases same
  rw [code] at emitted ⊢
  rw [List.length_append, ← Nat.add_assoc]
  have flipped : x ^^^ (-1 : Word) = ~~~x := by
    have ones : (-1 : Word) = BitVec.allOnes 32 := by decide
    rw [ones, BitVec.xor_allOnes]
  exact computes.constant emitted ran (congrArg some flipped)

theorem computes_minus (computes : Computes L printf t) : Computes L printf (minus t) := by
  intro i a m v m' emitted ran
  rw [eval] at ran
  obtain ⟨⟨x, m₁⟩, ran, same⟩ := Option.bind_eq_some_iff.mp ran
  cases same
  have split : [Op.IMM.code, -1, Op.PSH.code] = [Op.IMM.code, -1] ++ [Op.PSH.code] := rfl
  rw [code] at emitted ⊢
  rw [split] at emitted
  obtain ⟨imm, push, operand, mul⟩ := emitted.operands
  have negated : (-1 : Word) * x = -x := neg_one_mul x
  have there : L.Emitted (i + 3) (t.code L.setting.scope (i + 3)) := operand
  have run := (runs_imm (d := t.depth) (a := a) imm).operate push (computes there ran) mul.cons.1
    (congrArg some negated)
  generalize t.code L.setting.scope (i + 3) = words at run
  exact run.to (by simp; omega)

/-! ## Steps and assignments -/

/-- The code that steps what is at an address. -/
theorem Locates.step (locates : Locates L printf t) (inc : Bool) {i : Nat} {a p x w : Word} {m m₁ m' : Memory}
    (emitted : L.Emitted i ((t.code L.setting.scope i).dropLast ++ stepCode inc (t.type L.setting.scope)))
    (located : t.locate L.setting m = some (p, m₁)) (loads : L.setting.load (t.type L.setting.scope) p m₁ = some x)
    (stores : L.setting.store (t.type L.setting.scope) p (stepped inc (t.type L.setting.scope) x) m₁ = some (w, m')) :
    L.Runs printf (max t.depth 1 + 1) i a m (i + (t.code L.setting.scope i).dropLast.length + 7) w m' := by
  generalize t.type L.setting.scope = ty at *
  have parted : (t.code L.setting.scope i).dropLast ++ stepCode inc ty =
      (t.code L.setting.scope i).dropLast ++ [Op.PSH.code] ++ ([(loadOp ty).code, Op.PSH.code, Op.IMM.code, unit ty,
        (stepOp inc).code] ++ [(storeOp ty).code]) := by
    rw [stepCode, List.append_assoc]
    rfl
  rw [parted] at emitted
  obtain ⟨first, push, second, last⟩ := emitted.operands
  have inner : [(loadOp ty).code, Op.PSH.code, Op.IMM.code, unit ty, (stepOp inc).code] =
      [(loadOp ty).code] ++ [Op.PSH.code] ++ ([Op.IMM.code, unit ty] ++ [(stepOp inc).code]) := rfl
  rw [inner] at second
  obtain ⟨load, push', imm, op⟩ := second.operands
  have value : L.Runs printf 1 _ p m₁ _ _ m₁ :=
    (runs_load (d := 0) load.cons.1 loads).operate push' (runs_imm imm) op.cons.1 (apply_step inc ty x)
  exact ((locates (a := a) first located).mono (Nat.le_max_left _ 1)).store push (value.mono (Nat.le_max_right _ 1))
    last.cons.1 stores

theorem computes_before (inc : Bool) (locates : Locates L printf t) : Computes L printf (before inc t) := by
  intro i a m v m' emitted ran
  rw [eval] at ran
  obtain ⟨⟨p, m₁⟩, located, ran⟩ := Option.bind_eq_some_iff.mp ran
  obtain ⟨x, loads, stores⟩ := Option.bind_eq_some_iff.mp ran
  rw [code] at emitted ⊢
  exact (locates.step inc emitted located loads stores).to (by simp [stepCode]; omega)

theorem computes_after (inc : Bool) (locates : Locates L printf t) : Computes L printf (after inc t) := by
  intro i a m v m' emitted ran
  rw [eval] at ran
  obtain ⟨⟨p, m₁⟩, located, ran⟩ := Option.bind_eq_some_iff.mp ran
  obtain ⟨x, loads, ran⟩ := Option.bind_eq_some_iff.mp ran
  obtain ⟨⟨w, m₂⟩, stores, same⟩ := Option.bind_eq_some_iff.mp ran
  cases same
  rw [code, ← List.append_assoc] at emitted
  obtain ⟨front, back⟩ := emitted.append
  have place : i + ((t.code L.setting.scope i).dropLast ++ stepCode inc (t.type L.setting.scope)).length =
      i + (t.code L.setting.scope i).dropLast.length + 7 := by
    simp [stepCode]
    omega
  rw [place] at back
  have split : unstepCode inc (t.type L.setting.scope) =
      [Op.PSH.code] ++ ([Op.IMM.code, unit (t.type L.setting.scope)] ++ [(stepOp (!inc)).code]) := rfl
  rw [split] at back
  obtain ⟨push, back⟩ := back.append
  obtain ⟨imm, op⟩ := back.append
  have run := (locates.step (a := a) inc front located loads stores).operate push.cons.1 (runs_imm imm) op.cons.1
    (apply_step (!inc) _ w)
  exact run.to (by rw [code]; simp [stepCode, unstepCode]; omega)

theorem computes_assign (place : Locates L printf l) (value : Computes L printf r) : Computes L printf
    (assign l r) := by
  intro i a m v m' emitted ran
  rw [eval] at ran
  obtain ⟨⟨p, m₁⟩, located, ran⟩ := Option.bind_eq_some_iff.mp ran
  obtain ⟨⟨x, m₂⟩, ran, stores⟩ := Option.bind_eq_some_iff.mp ran
  simp only [code, List.length_append, List.length_singleton, ← Nat.add_assoc] at emitted ⊢
  obtain ⟨first, push, second, last⟩ := emitted.operands
  exact ((place (a := a) first located).mono (Nat.le_max_left _ _)).store push
    ((value second ran).mono (Nat.le_max_right _ _)) last.cons.1 stores

/-! ## Operators -/

theorem computes_binary (tk : Nat) (left : Computes L printf l) (right : Computes L printf r) :
    Computes L printf (binary tk l r) := by
  intro i a m v m' emitted ran
  rw [eval] at ran
  obtain ⟨⟨x, m₁⟩, ranLeft, ran⟩ := Option.bind_eq_some_iff.mp ran
  obtain ⟨⟨y, m₂⟩, ranRight, ran⟩ := Option.bind_eq_some_iff.mp ran
  obtain ⟨⟨level, op⟩, found, ran⟩ := Option.bind_eq_some_iff.mp ran
  obtain ⟨z, applied, same⟩ := Option.bind_eq_some_iff.mp ran
  cases same
  simp only [code, found, Option.map_some, Option.toList_some, List.length_append, List.length_singleton,
    ← Nat.add_assoc] at emitted ⊢
  obtain ⟨first, push, second, last⟩ := emitted.operands
  exact ((left (a := a) first ranLeft).mono (Nat.le_max_left _ _)).operate push
    ((right second ranRight).mono (Nat.le_max_right _ _)) last.cons.1 applied

theorem computes_sum (add : Bool) (left : Computes L printf l) (right : Computes L printf r) :
    Computes L printf (sum add l r) := by
  intro i a m v m' emitted ran
  rw [eval] at ran
  obtain ⟨⟨x, m₁⟩, ranLeft, ran⟩ := Option.bind_eq_some_iff.mp ran
  obtain ⟨⟨y, m₂⟩, ranRight, same⟩ := Option.bind_eq_some_iff.mp ran
  cases same
  simp only [code, List.length_append, List.length_singleton, ← Nat.add_assoc] at emitted ⊢
  obtain ⟨first, push, second, last⟩ := emitted.operands
  obtain ⟨factor, op⟩ := last.append
  have operand := (right (a := x) second ranRight).scale factor
  have applied (w : Word) : (stepOp add).apply x w = some (if add then x + w else x - w) := by
    cases add <;> rfl
  exact ((left (a := a) first ranLeft).mono (Nat.le_max_left _ (r.depth + 1))).operate push
    (operand.mono (Nat.le_max_right _ _)) op.cons.1 (applied _)

theorem computes_index (left : Computes L printf l) (right : Computes L printf r) : Computes L printf (index l r) :=
  computes_of_locates (locates_index left right) trivial

/-! ## Jumps -/

theorem computes_cond (test : Computes L printf c) (taken : Computes L printf yes) (other : Computes L printf no) :
    Computes L printf (cond c yes no) := by
  intro i a m v m' emitted ran
  rw [eval] at ran
  obtain ⟨⟨x, m₁⟩, ranTest, ran⟩ := Option.bind_eq_some_iff.mp ran
  have roomTest : c.depth ≤ (cond c yes no).depth := Nat.le_max_left _ _
  have roomTaken : yes.depth ≤ (cond c yes no).depth := (Nat.le_max_left _ _).trans (Nat.le_max_right _ _)
  have roomOther : no.depth ≤ (cond c yes no).depth := (Nat.le_max_right _ _).trans (Nat.le_max_right _ _)
  simp only [code] at emitted ⊢
  obtain ⟨first, branch, behind⟩ := emitted.around
  obtain ⟨second, jump, third⟩ := behind.around
  have inside := third.le
  have run := ((test (a := a) first ranTest).mono roomTest).trans (runs_bz branch (by omega))
  dsimp only at ran
  split at ran
  · next zero =>
    rw [if_pos zero] at run
    exact (run.trans ((other third ran).mono roomOther)).to (by simp; omega)
  · next nonzero =>
    rw [if_neg nonzero] at run
    have jumped := ((taken (a := x) second ran).mono roomTaken).trans (runs_jmp jump inside)
    exact (run.trans jumped).to (by simp; omega)

theorem computes_lor (left : Computes L printf l) (right : Computes L printf r) : Computes L printf (lor l r) := by
  intro i a m v m' emitted ran
  rw [eval] at ran
  obtain ⟨⟨x, m₁⟩, ranLeft, ran⟩ := Option.bind_eq_some_iff.mp ran
  simp only [code] at emitted ⊢
  obtain ⟨first, branch, second⟩ := emitted.around
  have inside := second.le
  have run := ((left (a := a) first ranLeft).mono (Nat.le_max_left _ r.depth)).trans (runs_bnz branch inside)
  dsimp only at ran
  split at ran
  · next zero =>
    rw [if_pos zero] at run
    exact (run.trans ((right second ran).mono (Nat.le_max_right _ _))).to (by simp; omega)
  · next nonzero =>
    rw [if_neg nonzero] at run
    cases ran
    exact run.to (by simp; omega)

theorem computes_land (left : Computes L printf l) (right : Computes L printf r) : Computes L printf (land l r) := by
  intro i a m v m' emitted ran
  rw [eval] at ran
  obtain ⟨⟨x, m₁⟩, ranLeft, ran⟩ := Option.bind_eq_some_iff.mp ran
  simp only [code] at emitted ⊢
  obtain ⟨first, branch, second⟩ := emitted.around
  have inside := second.le
  have run := ((left (a := a) first ranLeft).mono (Nat.le_max_left _ r.depth)).trans (runs_bz branch inside)
  dsimp only at ran
  split at ran
  · next zero =>
    rw [if_pos zero] at run
    cases ran
    exact run.to (by simp; omega)
  · next nonzero =>
    rw [if_neg nonzero] at run
    exact (run.trans ((right second ran).mono (Nat.le_max_right _ _))).to (by simp; omega)

/-! ## All expressions -/

mutual

theorem locates : ∀ t : Tree, Locates L printf t
  | name id => locates_name id
  | paren t => locates_paren (locates t)
  | deref t => locates_deref (computes t)
  | index l r => locates_index (computes l) (computes r)
  | num _ | negative _ | call _ _ | sizeof _ _ | cast _ _ _ | addressOf _ | not _ | complement _ | plus _ | minus _
  | before _ _ | after _ _ | assign _ _ | cond _ _ _ | lor _ _ | land _ _ | binary _ _ _ | sum _ _ _ =>
    fun _ located => absurd (isPlace_of_locate _ located) id

theorem computes : ∀ t : Tree, Computes L printf t
  | num value => computes_num value
  | negative value => computes_negative value
  | name id => computes_name id
  | call id arguments => computes_call id arguments
  | sizeof char stars => computes_sizeof char stars
  | paren t | cast _ _ t | plus t => computes t
  | deref t => computes_of_locates (locates_deref (computes t)) trivial
  | addressOf t => computes_addressOf (locates t)
  | not t => computes_not (computes t)
  | complement t => computes_complement (computes t)
  | minus t => computes_minus (computes t)
  | before inc t => computes_before inc (locates t)
  | after inc t => computes_after inc (locates t)
  | assign l r => computes_assign (locates l) (computes r)
  | cond c yes no => computes_cond (computes c) (computes yes) (computes no)
  | lor l r => computes_lor (computes l) (computes r)
  | land l r => computes_land (computes l) (computes r)
  | binary tk l r => computes_binary tk (computes l) (computes r)
  | sum add l r => computes_sum add (computes l) (computes r)
  | index l r => computes_index (computes l) (computes r)

end

end Tree

end Cc

end XinuStm32
