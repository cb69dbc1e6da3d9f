import XinuStm32.App.Cc

/-!
# The trees of the compiler's language

Expressions, statements and functions as trees, and the tokens in which a tree is written. A tree need not be written
with more parentheses than it has: which operand stands where is said by levels alone. An operand has to bind at least
as tightly as the place it is in, and what comes after it must not be taken for a part of it.
-/

namespace XinuStm32

namespace Cc

/-! ## Trees -/

/-- An expression without strings and calls of the library. -/
inductive Tree where
  | num (value : Word)
  | negative (value : Word)
  | name (id : Nat)
  | call (id : Nat) (arguments : List Tree)
  | sizeof (char : Bool) (stars : Nat)
  | paren (t : Tree)
  | cast (char : Bool) (stars : Nat) (t : Tree)
  | deref (t : Tree)
  | addressOf (t : Tree)
  | not (t : Tree)
  | complement (t : Tree)
  | plus (t : Tree)
  | minus (t : Tree)
  | before (inc : Bool) (t : Tree)
  | after (inc : Bool) (t : Tree)
  | assign (l r : Tree)
  | cond (c yes no : Tree)
  | lor (l r : Tree)
  | land (l r : Tree)
  | binary (tk : Nat) (l r : Tree)
  | sum (add : Bool) (l r : Tree)
  | index (l r : Tree)

inductive Stmt where
  | cond (c : Tree) (yes : Stmt)
  | both (c : Tree) (yes no : Stmt)
  | loop (c : Tree) (body : Stmt)
  | give (t : Tree)
  | leave
  | block (body : List Stmt)
  | empty
  | expr (t : Tree)

/-- What names stand for, where a frame has its locals, and where the code begins. -/
structure Scope where
  sym : Nat → Ident
  loc : Word
  text : Word

def Compiler.scope (s : Compiler) : Scope := ⟨s.sym, s.loc, s.text⟩

/-- The type that is written with a number of stars. -/
def typeOf (char : Bool) (stars : Nat) : Nat := (if char then CHAR else INT) + PTR * stars

/-- The operators of steps and of sums. -/
def stepTk (inc : Bool) : Nat := if inc then Tk.Inc else Tk.Dec

def sumTk (add : Bool) : Nat := if add then Tk.Add else Tk.Sub

namespace Tree

def type (scope : Scope) : Tree → Nat
  | num _ | negative _ | sizeof _ _ | not _ | complement _ | plus _ | minus _ | lor _ _ | land _ _ | binary _ _ _ => INT
  | name id => if (scope.sym id).cls = Tk.Num then INT else (scope.sym id).type
  | call id _ => (scope.sym id).type
  | paren t | before _ t | after _ t => type scope t
  | cast char stars _ => typeOf char stars
  | deref t => type scope t - PTR
  | addressOf t => type scope t + PTR
  | assign l _ | sum _ l _ => type scope l
  | cond _ _ no => type scope no
  | index l _ => type scope l - PTR

/-- The expressions that have an address. -/
def IsPlace (scope : Scope) : Tree → Prop
  | name id => (scope.sym id).cls ≠ Tk.Num
  | paren t => IsPlace scope t
  | deref _ | index _ _ => True
  | _ => False

end Tree

/-! ## Tokens -/

/-- A keyword is an identifier, and those of the language come first. -/
def keyword (tk : Nat) : Token := .ident (tk - Tk.Char)

/-- The keywords are where `cc` puts them. -/
def Keywords (sym : Nat → Ident) : Prop := ∀ tk, Tk.Char ≤ tk → tk ≤ Tk.While → (sym (tk - Tk.Char)).tk = tk

def Token.tk (sym : Nat → Ident) : Token → Nat
  | .num _ => Tk.Num
  | .str _ => chr '"'
  | .ident id => (sym id).tk
  | .sign tk => tk

/-- What `tk` is when these tokens come. -/
def headTk (sym : Nat → Ident) : List Token → Nat
  | [] => 0
  | token :: _ => token.tk sym

/-- A type in parentheses. -/
def typeTokens (char : Bool) (stars : Nat) : List Token :=
  .sign (chr '(') :: keyword (if char then Tk.Char else Tk.Int) ::
    (List.replicate stars (.sign Tk.Mul) ++ [.sign (chr ')')])

/-- What stands between an argument and the next. -/
def comma : List Tree → List Token
  | [] => []
  | _ :: _ => [.sign (chr ',')]

namespace Tree

mutual

def tokens : Tree → List Token
  | num value => [.num value]
  | negative value => [.sign Tk.Sub, .num value]
  | name id => [.ident id]
  | call id arguments => .ident id :: .sign (chr '(') :: (tokensAll arguments ++ [.sign (chr ')')])
  | sizeof char stars => keyword Tk.Sizeof :: typeTokens char stars
  | paren t => .sign (chr '(') :: (tokens t ++ [.sign (chr ')')])
  | cast char stars t => typeTokens char stars ++ tokens t
  | deref t => .sign Tk.Mul :: tokens t
  | addressOf t => .sign Tk.And :: tokens t
  | not t => .sign (chr '!') :: tokens t
  | complement t => .sign (chr '~') :: tokens t
  | plus t => .sign Tk.Add :: tokens t
  | minus t => .sign Tk.Sub :: tokens t
  | before inc t => .sign (stepTk inc) :: tokens t
  | after inc t => tokens t ++ [.sign (stepTk inc)]
  | assign l r => tokens l ++ .sign Tk.Assign :: tokens r
  | cond c yes no => tokens c ++ .sign Tk.Cond :: (tokens yes ++ .sign (chr ':') :: tokens no)
  | lor l r => tokens l ++ .sign Tk.Lor :: tokens r
  | land l r => tokens l ++ .sign Tk.Lan :: tokens r
  | binary tk l r => tokens l ++ .sign tk :: tokens r
  | sum add l r => tokens l ++ .sign (sumTk add) :: tokens r
  | index l r => tokens l ++ .sign Tk.Brak :: (tokens r ++ [.sign (chr ']')])

def tokensAll : List Tree → List Token
  | [] => []
  | t :: ts => tokens t ++ (comma ts ++ tokensAll ts)

end

/-- No operator that comes next is taken for a part of the tree if its level is below. -/
def tight : Tree → Nat
  | cast _ _ t | deref t | addressOf t | not t | complement t | plus t | minus t | before _ t => min Tk.Inc (tight t)
  | assign _ r => min Tk.Assign (tight r)
  | cond _ _ no => min Tk.Cond (tight no)
  | lor _ r => min Tk.Lan (tight r)
  | land _ r => min Tk.Or (tight r)
  | binary tk _ r => min (((Compiler.binary tk).map Prod.fst).getD 0) (tight r)
  | sum _ _ r => min Tk.Mul (tight r)
  | _ => Tk.Brak + 1

mutual

/-- A tree that may stand where operators from a level on are taken. -/
def Fits (scope : Scope) : Tree → Nat → Prop
  | num _, _ | negative _, _ | sizeof _ _, _ => True
  | name id, _ =>
    (scope.sym id).tk = Tk.Id ∧
      ((scope.sym id).cls = Tk.Num ∨ (scope.sym id).cls = Tk.Loc ∨ (scope.sym id).cls = Tk.Glo)
  | call id arguments, _ => (scope.sym id).tk = Tk.Id ∧ (scope.sym id).cls = Tk.Fun ∧ FitsAll scope arguments
  | paren t, _ => Fits scope t Tk.Assign
  | cast _ _ t, _ | not t, _ | complement t, _ | plus t, _ => Fits scope t Tk.Inc
  | deref t, _ => Fits scope t Tk.Inc ∧ INT < t.type scope
  | addressOf t, _ | before _ t, _ => Fits scope t Tk.Inc ∧ t.IsPlace scope
  | minus t, _ => Fits scope t Tk.Inc ∧ headTk scope.sym t.tokens ≠ Tk.Num
  | after inc t, lev => lev ≤ stepTk inc ∧ stepTk inc < t.tight ∧ Fits scope t lev ∧ t.IsPlace scope
  | assign l r, lev =>
    lev ≤ Tk.Assign ∧ Tk.Assign < l.tight ∧ Fits scope l lev ∧ Fits scope r Tk.Assign ∧ l.IsPlace scope
  | cond c yes no, lev =>
    lev ≤ Tk.Cond ∧ Tk.Cond < c.tight ∧ Fits scope c lev ∧ Fits scope yes Tk.Assign ∧ Fits scope no Tk.Cond
  | lor l r, lev => lev ≤ Tk.Lor ∧ Tk.Lor < l.tight ∧ Fits scope l lev ∧ Fits scope r Tk.Lan
  | land l r, lev => lev ≤ Tk.Lan ∧ Tk.Lan < l.tight ∧ Fits scope l lev ∧ Fits scope r Tk.Or
  | binary tk l r, lev =>
    lev ≤ tk ∧ tk < l.tight ∧ Fits scope l lev ∧
      ∃ level op, Compiler.binary tk = some (level, op) ∧ Fits scope r level
  | sum add l r, lev => lev ≤ sumTk add ∧ sumTk add < l.tight ∧ Fits scope l lev ∧ Fits scope r Tk.Mul
  | index l r, lev =>
    lev ≤ Tk.Brak ∧ Tk.Brak < l.tight ∧ Fits scope l lev ∧ Fits scope r Tk.Assign ∧ PTR ≤ l.type scope

def FitsAll (scope : Scope) : List Tree → Prop
  | [] => True
  | t :: ts => Fits scope t Tk.Assign ∧ FitsAll scope ts

end

end Tree

namespace Stmt

mutual

def tokens : Stmt → List Token
  | cond c yes => keyword Tk.If :: .sign (chr '(') :: (c.tokens ++ .sign (chr ')') :: tokens yes)
  | both c yes no =>
    keyword Tk.If :: .sign (chr '(') :: (c.tokens ++ .sign (chr ')') :: (tokens yes ++ keyword Tk.Else :: tokens no))
  | loop c body => keyword Tk.While :: .sign (chr '(') :: (c.tokens ++ .sign (chr ')') :: tokens body)
  | give t => keyword Tk.Return :: (t.tokens ++ [.sign (chr ';')])
  | leave => [keyword Tk.Return, .sign (chr ';')]
  | block body => .sign (chr '{') :: (tokensAll body ++ [.sign (chr '}')])
  | empty => [.sign (chr ';')]
  | expr t => t.tokens ++ [.sign (chr ';')]

def tokensAll : List Stmt → List Token
  | [] => []
  | body :: rest => tokens body ++ tokensAll rest

end

/-- An `else` that comes next would be taken for a part of the statement. -/
def Open : Stmt → Prop
  | cond _ _ => True
  | both _ _ no => Open no
  | loop _ body => Open body
  | _ => False

mutual

def Fits (scope : Scope) : Stmt → Prop
  | cond c yes => c.Fits scope Tk.Assign ∧ Fits scope yes
  | both c yes no => c.Fits scope Tk.Assign ∧ Fits scope yes ∧ ¬yes.Open ∧ Fits scope no
  | loop c body => c.Fits scope Tk.Assign ∧ Fits scope body
  | give t | expr t => t.Fits scope Tk.Assign
  | leave | empty => True
  | block body => FitsAll scope body

def FitsAll (scope : Scope) : List Stmt → Prop
  | [] => True
  | body :: rest => Fits scope body ∧ FitsAll scope rest

end

end Stmt

end Cc

end XinuStm32
