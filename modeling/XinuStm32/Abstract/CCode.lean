import XinuStm32.Abstract.CSyntax

/-!
# The code of a tree

The words that stand for a tree when the first of them has a given index: jumps are to addresses, so the index matters.
The code of a place ends in a load; to have its address, that word is left out.
-/

namespace XinuStm32

namespace Cc

open Compiler (loadOp storeOp unit scale)

/-- The address of the word at an index. -/
def Scope.address (scope : Scope) (index : Nat) : Word := scope.text + BitVec.ofNat 32 (4 * index)

def stepOp (inc : Bool) : Op := if inc then .ADD else .SUB

/-- The code behind an address that adds to what is there, or takes from it. -/
def stepCode (inc : Bool) (ty : Nat) : List Word :=
  [Op.PSH.code, (loadOp ty).code, Op.PSH.code, Op.IMM.code, unit ty, (stepOp inc).code, (storeOp ty).code]

/-- The code that makes what was there of what has been stored. -/
def unstepCode (inc : Bool) (ty : Nat) : List Word := [Op.PSH.code, Op.IMM.code, unit ty, (stepOp (!inc)).code]

/-- The code of a name that is a variable, without the load. -/
def Scope.variableCode (scope : Scope) (id : Nat) : List Word :=
  if (scope.sym id).cls = Tk.Loc then [Op.LEA.code, scope.loc - (scope.sym id).val]
  else [Op.IMM.code, (scope.sym id).val]

namespace Tree

mutual

def code (scope : Scope) : Tree → Nat → List Word
  | num value, _ => [Op.IMM.code, value]
  | negative value, _ => [Op.IMM.code, -value]
  | name id, _ =>
    if (scope.sym id).cls = Tk.Num then [Op.IMM.code, (scope.sym id).val]
    else scope.variableCode id ++ [(loadOp (scope.sym id).type).code]
  | call id arguments, i =>
    codeAll scope arguments i ++ Op.JSR.code :: (scope.sym id).val ::
      (if arguments.length ≠ 0 then [Op.ADJ.code, BitVec.ofNat 32 arguments.length] else [])
  | sizeof char stars, _ => [Op.IMM.code, if typeOf char stars = CHAR then 1 else 4]
  | paren t, i | cast _ _ t, i | plus t, i => code scope t i
  | deref t, i => code scope t i ++ [(loadOp (t.type scope - PTR)).code]
  | addressOf t, i => (code scope t i).dropLast
  | not t, i => code scope t i ++ [Op.PSH.code, Op.IMM.code, 0, Op.EQ.code]
  | complement t, i => code scope t i ++ [Op.PSH.code, Op.IMM.code, -1, Op.XOR.code]
  | minus t, i => [Op.IMM.code, -1, Op.PSH.code] ++ (code scope t (i + 3) ++ [Op.MUL.code])
  | before inc t, i => (code scope t i).dropLast ++ stepCode inc (t.type scope)
  | after inc t, i => (code scope t i).dropLast ++ (stepCode inc (t.type scope) ++ unstepCode inc (t.type scope))
  | assign l r, i =>
    let place := (code scope l i).dropLast ++ [Op.PSH.code]
    place ++ (code scope r (i + place.length) ++ [(storeOp (l.type scope)).code])
  | cond c yes no, i =>
    let test := code scope c i
    let j := i + test.length + 2
    let taken := code scope yes j
    let k := j + taken.length + 2
    let other := code scope no k
    test ++ ([Op.BZ.code, scope.address k] ++
      (taken ++ ([Op.JMP.code, scope.address (k + other.length)] ++ other)))
  | lor l r, i =>
    let left := code scope l i
    let j := i + left.length + 2
    let right := code scope r j
    left ++ ([Op.BNZ.code, scope.address (j + right.length)] ++ right)
  | land l r, i =>
    let left := code scope l i
    let j := i + left.length + 2
    let right := code scope r j
    left ++ ([Op.BZ.code, scope.address (j + right.length)] ++ right)
  | binary tk l r, i =>
    let left := code scope l i ++ [Op.PSH.code]
    left ++ (code scope r (i + left.length) ++ (((Compiler.binary tk).map fun found => found.2.code).toList))
  | sum add l r, i =>
    let left := code scope l i ++ [Op.PSH.code]
    left ++ (code scope r (i + left.length) ++ (scale (l.type scope) ++ [(stepOp add).code]))
  | index l r, i =>
    let left := code scope l i ++ [Op.PSH.code]
    left ++ (code scope r (i + left.length) ++
      (scale (l.type scope) ++ [Op.ADD.code, (loadOp (l.type scope - PTR)).code]))

/-- The arguments of a call, each pushed. -/
def codeAll (scope : Scope) : List Tree → Nat → List Word
  | [], _ => []
  | t :: ts, i =>
    let first := code scope t i ++ [Op.PSH.code]
    first ++ codeAll scope ts (i + first.length)

end

end Tree

namespace Stmt

mutual

def code (scope : Scope) : Stmt → Nat → List Word
  | cond c yes, i =>
    let test := c.code scope i
    let j := i + test.length + 2
    let taken := code scope yes j
    test ++ ([Op.BZ.code, scope.address (j + taken.length)] ++ taken)
  | both c yes no, i =>
    let test := c.code scope i
    let j := i + test.length + 2
    let taken := code scope yes j
    let k := j + taken.length + 2
    let other := code scope no k
    test ++ ([Op.BZ.code, scope.address k] ++
      (taken ++ ([Op.JMP.code, scope.address (k + other.length)] ++ other)))
  | loop c body, i =>
    let test := c.code scope i
    let j := i + test.length + 2
    let again := code scope body j
    test ++ ([Op.BZ.code, scope.address (j + again.length + 2)] ++
      (again ++ [Op.JMP.code, scope.address i]))
  | give t, i => t.code scope i ++ [Op.LEV.code]
  | leave, _ => [Op.LEV.code]
  | block body, i => codeAll scope body i
  | empty, _ => []
  | expr t, i => t.code scope i

def codeAll (scope : Scope) : List Stmt → Nat → List Word
  | [], _ => []
  | body :: rest, i =>
    let first := code scope body i
    first ++ codeAll scope rest (i + first.length)

end

end Stmt

/-! ## Places -/

namespace Tree

variable {scope : Scope}

/-- The code of a place ends in the load of its type. -/
theorem code_place {t : Tree} (place : t.IsPlace scope) (i : Nat) :
    t.code scope i = (t.code scope i).dropLast ++ [(loadOp (t.type scope)).code] := by
  cases t with
  | name id =>
    rw [IsPlace] at place
    rw [code, if_neg place, type, if_neg place, List.dropLast_concat]
  | paren t => exact code_place (t := t) place i
  | deref t => rw [code, List.dropLast_concat, type]
  | index l r =>
    have split : ∀ (left right scaled : List Word) (add load : Word),
        left ++ (right ++ (scaled ++ [add, load])) = (left ++ right ++ scaled ++ [add]) ++ [load] := by
      intro left right scaled add load
      simp
    rw [code, split, List.dropLast_concat, type]
  | _ => exact absurd place id

end Tree

end Cc

end XinuStm32
