import XinuStm32.Abstract.CCode

/-!
# What a tree means

Values are words, and there is a memory of bytes: variables are places in it, and so is whatever a pointer leads to. The
meaning of an expression is its value and the memory behind it. There is none where C has none, where a place is not the
program's own, and for calls. A statement ends behind itself, or in a `return`.
-/

namespace XinuStm32

namespace Cc

open Compiler (unit)

abbrev Memory := Nat → UInt8

/-- What names stand for, where the frame is, and the bytes that the program may look at and store to. -/
structure Setting where
  scope : Scope
  bp : Nat
  owns : Nat → Bool

namespace Setting

/-- The address of a variable. -/
def address (f : Setting) (id : Nat) : Word :=
  if (f.scope.sym id).cls = Tk.Loc then BitVec.ofNat 32 f.bp + 4 * (f.scope.loc - (f.scope.sym id).val)
  else (f.scope.sym id).val

/-- All bytes of an object belong to the program. -/
def holds (f : Setting) (ty : Nat) (place : Word) : Bool :=
  (List.range (if ty = CHAR then 1 else 4)).all fun i => f.owns (place.toNat + i)

def load (f : Setting) (ty : Nat) (place : Word) (m : Memory) : Option Word :=
  if f.holds ty place then some (if ty = CHAR then loadChar m place.toNat else loadInt m place.toNat) else none

/-- An assignment has the value that was stored. -/
def store (f : Setting) (ty : Nat) (place value : Word) (m : Memory) : Option (Word × Memory) :=
  if f.holds ty place then
    some (if ty = CHAR then ((value.setWidth 8).setWidth 32, storeChar place.toNat value m)
      else (value, storeInt place.toNat value m))
  else none

end Setting

/-- One more, or one less. -/
def stepped (inc : Bool) (ty : Nat) (value : Word) : Word := if inc then value + unit ty else value - unit ty

/-- What is added to a pointer counts in words. -/
def scaled (ty : Nat) (value : Word) : Word := if ty > PTR then value * 4 else value

namespace Tree

variable (f : Setting)

mutual

/-- The place that an expression stands for. -/
def locate : Tree → Memory → Option (Word × Memory)
  | name id, m => if (f.scope.sym id).cls = Tk.Num then none else some (f.address id, m)
  | paren t, m => locate t m
  | deref t, m => eval t m
  | index l r, m => do
    let (v, m) ← eval l m
    let (w, m) ← eval r m
    some (v + scaled (l.type f.scope) w, m)
  | _, _ => none

/-- A cast only changes the type. `||` and `&&` have the value that decided, and a step behind a place has the stored
value with the step taken back. -/
def eval : Tree → Memory → Option (Word × Memory)
  | num value, m => some (value, m)
  | negative value, m => some (-value, m)
  | name id, m =>
    if (f.scope.sym id).cls = Tk.Num then some ((f.scope.sym id).val, m)
    else do
      let v ← f.load (f.scope.sym id).type (f.address id) m
      some (v, m)
  | call _ _, _ => none
  | sizeof char stars, m => some (if typeOf char stars = CHAR then 1 else 4, m)
  | paren t, m | cast _ _ t, m | plus t, m => eval t m
  | deref t, m => do
    let (p, m) ← eval t m
    let v ← f.load (t.type f.scope - PTR) p m
    some (v, m)
  | addressOf t, m => locate t m
  | not t, m => do
    let (v, m) ← eval t m
    some (if v = 0 then 1 else 0, m)
  | complement t, m => do
    let (v, m) ← eval t m
    some (~~~v, m)
  | minus t, m => do
    let (v, m) ← eval t m
    some (-v, m)
  | before inc t, m => do
    let (p, m) ← locate t m
    let v ← f.load (t.type f.scope) p m
    f.store (t.type f.scope) p (stepped inc (t.type f.scope) v) m
  | after inc t, m => do
    let (p, m) ← locate t m
    let v ← f.load (t.type f.scope) p m
    let (w, m) ← f.store (t.type f.scope) p (stepped inc (t.type f.scope) v) m
    some (stepped (!inc) (t.type f.scope) w, m)
  | assign l r, m => do
    let (p, m) ← locate l m
    let (v, m) ← eval r m
    f.store (l.type f.scope) p v m
  | cond c yes no, m => do
    let (v, m) ← eval c m
    if v = 0 then eval no m else eval yes m
  | lor l r, m => do
    let (v, m) ← eval l m
    if v = 0 then eval r m else some (v, m)
  | land l r, m => do
    let (v, m) ← eval l m
    if v = 0 then some (v, m) else eval r m
  | binary tk l r, m => do
    let (v, m) ← eval l m
    let (w, m) ← eval r m
    let (_, op) ← Compiler.binary tk
    let x ← op.apply v w
    some (x, m)
  | sum add l r, m => do
    let (v, m) ← eval l m
    let (w, m) ← eval r m
    some (if add then v + scaled (l.type f.scope) w else v - scaled (l.type f.scope) w, m)
  | index l r, m => do
    let (v, m) ← eval l m
    let (w, m) ← eval r m
    let x ← f.load (l.type f.scope - PTR) (v + scaled (l.type f.scope) w) m
    some (x, m)

end

end Tree

/-- How a statement ends: behind itself, or by `return`. -/
inductive Ending where
  | on (m : Memory)
  | gave (value : Word) (m : Memory)
  | left (m : Memory)

/-- The statements behind are not reached. -/
def Ending.Returns : Ending → Prop
  | on _ => False
  | gave _ _ | left _ => True

namespace Stmt

/-- What a statement that ends makes of a memory. -/
inductive Does (f : Setting) : Stmt → Memory → Ending → Prop where
  | taken {c : Tree} {yes : Stmt} {m m₁ : Memory} {v : Word} {e : Ending} (test : c.eval f m = some (v, m₁))
      (holds : v ≠ 0) (does : Does f yes m₁ e) : Does f (cond c yes) m e
  | skipped {c : Tree} {yes : Stmt} {m m₁ : Memory} (test : c.eval f m = some (0, m₁)) :
      Does f (cond c yes) m (.on m₁)
  | first {c : Tree} {yes no : Stmt} {m m₁ : Memory} {v : Word} {e : Ending} (test : c.eval f m = some (v, m₁))
      (holds : v ≠ 0) (does : Does f yes m₁ e) : Does f (both c yes no) m e
  | second {c : Tree} {yes no : Stmt} {m m₁ : Memory} {e : Ending} (test : c.eval f m = some (0, m₁))
      (does : Does f no m₁ e) : Does f (both c yes no) m e
  | finished {c : Tree} {body : Stmt} {m m₁ : Memory} (test : c.eval f m = some (0, m₁)) :
      Does f (loop c body) m (.on m₁)
  | again {c : Tree} {body : Stmt} {m m₁ m₂ : Memory} {v : Word} {e : Ending} (test : c.eval f m = some (v, m₁))
      (holds : v ≠ 0) (round : Does f body m₁ (.on m₂)) (does : Does f (loop c body) m₂ e) :
      Does f (loop c body) m e
  | broken {c : Tree} {body : Stmt} {m m₁ : Memory} {v : Word} {e : Ending} (test : c.eval f m = some (v, m₁))
      (holds : v ≠ 0) (round : Does f body m₁ e) (returns : e.Returns) : Does f (loop c body) m e
  | give {t : Tree} {m m₁ : Memory} {v : Word} (value : t.eval f m = some (v, m₁)) : Does f (give t) m (.gave v m₁)
  | leave {m : Memory} : Does f leave m (.left m)
  | empty {m : Memory} : Does f empty m (.on m)
  | expr {t : Tree} {m m₁ : Memory} {v : Word} (value : t.eval f m = some (v, m₁)) : Does f (expr t) m (.on m₁)
  | done {m : Memory} : Does f (block []) m (.on m)
  | next {body : Stmt} {rest : List Stmt} {m m₁ : Memory} {e : Ending} (does : Does f body m (.on m₁))
      (others : Does f (block rest) m₁ e) : Does f (block (body :: rest)) m e
  | returned {body : Stmt} {rest : List Stmt} {m : Memory} {e : Ending} (does : Does f body m e)
      (returns : e.Returns) : Does f (block (body :: rest)) m e

end Stmt

end Cc

end XinuStm32
