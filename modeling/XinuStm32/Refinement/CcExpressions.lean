import XinuStm32.Refinement.CcTokens

/-!
# The compiler reads expressions

When the tokens of a tree come, `expr` emits the code of the tree and no more: levels alone decide which operand belongs
to which operator, and no parentheses are needed that the tree does not have. The loop that meets the operators on the
left edge of a tree is the one that meets the operator behind the tree, so what is said of `expr` is where its loop goes
on. The rounds that are needed are counted with it.
-/

namespace XinuStm32

namespace Cc

open Compiler

/-! ## Rounds -/

theorem ok_bind {α : Type} (value : α) (go : α → Result) : (Except.ok value >>= go) = go value := rfl

section

variable {s s' : Compiler} {n lev : Nat}

theorem expr_of_primary (found : primary (expr n) s = .ok s') : expr (n + 1) lev s = climb n lev s' := by
  rw [expr, found]
  rfl

theorem climb_of_operator (high : lev ≤ s.tk) (found : operator (expr n) s = .ok s') :
    climb (n + 1) lev s = climb n lev s' := by
  rw [climb, if_pos high, found]
  rfl

theorem climb_of_lt (low : s.tk < lev) : climb (n + 1) lev s = .ok s := by
  rw [climb, if_neg (by omega)]

end

namespace Tree

/-- The rounds of the loop in which a tree is read, with the call that they are in. -/
def spine : Tree → Nat
  | after _ t => spine t + 1
  | assign l _ | lor l _ | land l _ | binary _ l _ | sum _ l _ | index l _ => spine l + 1
  | cond c _ _ => spine c + 1
  | _ => 1

mutual

/-- The rounds that are enough to read a tree. -/
def cost : Tree → Nat
  | num _ | negative _ | name _ | sizeof _ _ => 2
  | call _ arguments => costAll arguments + 2
  | paren t | cast _ _ t | deref t | addressOf t | not t | complement t | plus t | minus t | before _ t | after _ t =>
    cost t + 1
  | assign l r | lor l r | land l r | binary _ l r | sum _ l r | index l r => cost l + cost r + 1
  | cond c yes no => cost c + cost yes + cost no + 1

def costAll : List Tree → Nat
  | [] => 0
  | t :: ts => cost t + costAll ts

end

theorem spine_lt_cost (t : Tree) : t.spine < t.cost := by
  cases t with
  | after _ t | assign t _ | cond t _ _ | lor t _ | land t _ | binary _ t _ | sum _ t _ | index t _ =>
    have shorter := spine_lt_cost t
    simp only [spine, cost]
    omega
  | call _ arguments =>
    simp only [spine, cost]
    omega
  | num _ | negative _ | name _ | sizeof _ _ =>
    simp only [spine, cost]
    omega
  | paren t | cast _ _ t | deref t | addressOf t | not t | complement t | plus t | minus t | before _ t =>
    have shorter := spine_lt_cost t
    simp only [spine, cost]
    omega

theorem mem_operators {tk level : Nat} {op : Op} (found : Compiler.binary tk = some (level, op)) :
    (tk, level, op) ∈ operators := by
  rw [Compiler.binary, Option.map_eq_some_iff] at found
  obtain ⟨row, found, same⟩ := found
  have first := List.find?_some found
  rw [beq_iff_eq] at first
  rw [← first, ← same]
  exact List.mem_of_find?_eq_some found

/-- Closing signs and commas end any tree. -/
theorem le_tight {scope : Scope} (t : Tree) {lev : Nat} (fits : t.Fits scope lev) : Tk.Assign ≤ t.tight := by
  cases t with
  | num _ | negative _ | name _ | sizeof _ _ | call _ _ | paren _ | after _ _ | index _ _ =>
    change Tk.Assign ≤ Tk.Brak + 1
    decide
  | not t | complement t | plus t | cast _ _ t =>
    rw [Fits] at fits
    exact le_min (by decide) (le_tight t fits)
  | deref t | addressOf t | minus t | before _ t =>
    rw [Fits] at fits
    exact le_min (by decide) (le_tight t fits.1)
  | assign l r =>
    rw [Fits] at fits
    exact le_min (by decide) (le_tight r fits.2.2.2.1)
  | cond c yes no =>
    rw [Fits] at fits
    exact le_min (by decide) (le_tight no fits.2.2.2.2)
  | lor l r | land l r | sum _ l r =>
    rw [Fits] at fits
    exact le_min (by decide) (le_tight r fits.2.2.2)
  | binary tk l r =>
    rw [Fits] at fits
    obtain ⟨-, -, -, level, op, found, fits⟩ := fits
    have levels : ∀ row ∈ operators, Tk.Assign ≤ row.2.1 := by decide
    rw [tight, found, Option.map_some, Option.getD_some]
    exact le_min (levels _ (mem_operators found)) (le_tight r fits)

theorem below_tight {scope : Scope} (t : Tree) {lev : Nat} (fits : t.Fits scope lev) (tk : Nat)
    (low : tk < Tk.Assign) : tk < min Tk.Assign t.tight :=
  lt_of_lt_of_le low (le_min le_rfl (le_tight t fits))

/-! ## The first token -/

/-- The tokens that an expression starts with. -/
def starts : List Nat :=
  [Tk.Num, Tk.Id, Tk.Sizeof, chr '(', Tk.Mul, Tk.And, chr '!', chr '~', Tk.Add, Tk.Sub, Tk.Inc, Tk.Dec]

theorem headTk_tokens {scope : Scope} (keywords : Keywords scope.sym) (t : Tree) (lev : Nat)
    (fits : t.Fits scope lev) (rest : List Token) : headTk scope.sym (t.tokens ++ rest) ∈ starts := by
  cases t with
  | num _ | negative _ | paren _ | deref _ | addressOf _ | not _ | complement _ | plus _ | minus _ | cast _ _ _ =>
    simp [tokens, typeTokens, headTk, Token.tk, starts]
  | name id =>
    rw [Fits] at fits
    simp [tokens, headTk, Token.tk, starts, fits.1]
  | call id arguments =>
    rw [Fits] at fits
    simp [tokens, headTk, Token.tk, starts, fits.1]
  | sizeof char stars =>
    have found := keywords Tk.Sizeof (by decide) (by decide)
    simp [tokens, headTk, keyword, Token.tk, starts, found]
  | before inc t => cases inc <;> simp [tokens, headTk, Token.tk, starts, stepTk]
  | after inc t =>
    rw [Fits] at fits
    rw [tokens, List.append_assoc]
    exact headTk_tokens keywords t lev fits.2.2.1 _
  | assign l r | cond l _ _ | lor l r | land l r | binary _ l r | sum _ l r | index l r =>
    rw [Fits] at fits
    rw [tokens, List.append_assoc]
    exact headTk_tokens keywords l lev fits.2.2.1 _

/-! ## One tree after another -/

/-- The tokens of a tree are read, and its code is emitted, before the loop goes on. -/
def Reads (t : Tree) : Prop :=
  ∀ {s : Compiler} {rest : List Token} {lev n : Nat}, Keywords s.sym → s.Sees (t.tokens ++ rest) →
    t.Fits s.scope lev → headTk s.sym rest < t.tight → headTk s.sym rest ≠ chr '(' → t.cost ≤ n →
    ∃ s', expr n lev s = climb (n - t.spine) lev s' ∧ Compiled s s' rest (t.code s.scope s.e.length) ∧
      s'.ty = t.type s.scope

variable {s s1 : Compiler} {rest : List Token} {words : List Word} {lev n : Nat} {t l r : Tree}

/-- A tree on the left of an operator. -/
theorem Reads.operand (reads : Reads t) (keywords : Keywords s.sym)
    (done : Compiled s s1 (t.tokens ++ rest) words) (fits : t.Fits s.scope lev)
    (below : headTk s.sym rest < t.tight) (apart : headTk s.sym rest ≠ chr '(') (enough : t.cost ≤ n) :
    ∃ s', expr n lev s1 = climb (n - t.spine) lev s' ∧
      Compiled s s' rest (words ++ t.code s.scope (s.e.length + words.length)) ∧ s'.ty = t.type s.scope := by
  rw [← done.scope] at fits
  rw [← done.sym] at keywords below apart
  obtain ⟨s', ran, compiled, ty⟩ := reads keywords done.sees fits below apart enough
  rw [done.scope] at compiled ty
  rw [done.length] at compiled
  exact ⟨s', ran, done.trans compiled, ty⟩

/-- A tree that is followed by something of a lower level. -/
theorem Reads.parsed (reads : Reads t) (keywords : Keywords s.sym)
    (done : Compiled s s1 (t.tokens ++ rest) words) (fits : t.Fits s.scope lev)
    (below : headTk s.sym rest < min lev t.tight) (apart : headTk s.sym rest ≠ chr '(') (enough : t.cost ≤ n) :
    ∃ s', expr n lev s1 = .ok s' ∧
      Compiled s s' rest (words ++ t.code s.scope (s.e.length + words.length)) ∧ s'.ty = t.type s.scope := by
  obtain ⟨s', ran, compiled, ty⟩ := reads.operand keywords done fits (by omega) apart enough
  have shorter := t.spine_lt_cost
  obtain ⟨rounds, left⟩ : ∃ rounds, n - t.spine = rounds + 1 := ⟨n - t.spine - 1, by omega⟩
  rw [left, climb_of_lt (by rw [compiled.tk]; omega)] at ran
  exact ⟨s', ran, compiled, ty⟩

theorem Reads.parsedAt (reads : Reads t) (keywords : Keywords s.sym)
    (done : Compiled s s1 (t.tokens ++ rest) words) (i : Nat) (place : s.e.length + words.length = i)
    (fits : t.Fits s.scope lev) (below : headTk s.sym rest < min lev t.tight) (apart : headTk s.sym rest ≠ chr '(')
    (enough : t.cost ≤ n) :
    ∃ s', expr n lev s1 = .ok s' ∧ Compiled s s' rest (words ++ t.code s.scope i) ∧ s'.ty = t.type s.scope := by
  subst place
  exact reads.parsed keywords done fits below apart enough

/-- A tree that is all of its loop's round. -/
theorem reads_of_primary {u : Tree} (single : u.spine = 1)
    (found : ∀ {s : Compiler} {rest : List Token} {lev n : Nat}, Keywords s.sym → s.Sees (u.tokens ++ rest) →
      u.Fits s.scope lev → headTk s.sym rest < u.tight → headTk s.sym rest ≠ chr '(' → u.cost ≤ n + 1 →
      ∃ s', primary (expr n) s = .ok s' ∧ Compiled s s' rest (u.code s.scope s.e.length) ∧
        s'.ty = u.type s.scope) : Reads u := by
  intro s rest lev n keywords sees fits below apart enough
  have shorter := u.spine_lt_cost
  obtain ⟨rounds, left⟩ : ∃ rounds, n = rounds + 1 := ⟨n - 1, by omega⟩
  subst left
  obtain ⟨s', ran, compiled, ty⟩ := found keywords sees fits below apart enough
  rw [single, Nat.add_sub_cancel]
  exact ⟨s', expr_of_primary ran, compiled, ty⟩

/-! ## What stands alone -/

theorem reads_num (value : Word) : Reads (num value) := by
  apply reads_of_primary rfl
  intro s rest lev n keywords sees fits below apart enough
  have start := Compiled.start sees
  have tk : s.tk = Tk.Num := start.tk
  have ival : s.ival = value := sees.ival value rfl
  have branch : primary (expr n) s = .ok ((s.emit [Op.IMM.code, s.ival]).next.setType INT) := by
    rw [primary, tk]
    rfl
  rw [ival] at branch
  exact ⟨_, branch, (start.emit _).next.setType _, rfl⟩

theorem reads_negative (value : Word) : Reads (negative value) := by
  apply reads_of_primary rfl
  intro s rest lev n keywords sees fits below apart enough
  have start := Compiled.start sees
  have tk : s.tk = Tk.Sub := start.tk
  have after_ := start.next.emit [Op.IMM.code]
  have number : (s.next.emit [Op.IMM.code]).tk = Tk.Num := after_.tk
  have ival : (s.next.emit [Op.IMM.code]).ival = value := after_.sees.ival value rfl
  have branch : primary (expr n) s =
      .ok (((s.next.emit [Op.IMM.code]).emit [-(s.next.emit [Op.IMM.code]).ival]).next.setType INT) := by
    rw [primary, tk]
    simp only [number]
    rfl
  rw [ival] at branch
  exact ⟨_, branch, (after_.emit _).next.setType _, rfl⟩

theorem reads_name (id : Nat) : Reads (name id) := by
  apply reads_of_primary rfl
  intro s rest lev n keywords sees fits below apart enough
  obtain ⟨class_, kind⟩ := fits
  have start := Compiled.start sees
  have tk : s.tk = Tk.Id := start.tk.trans class_
  have found : s.id = id := sees.id id rfl
  have branch : primary (expr n) s = identifier (expr n) (s.sym id) s.next := by
    rw [primary, tk, ← found]
    rfl
  have behind : s.next.tk ≠ chr '(' := by
    rw [start.next.tk]
    exact apart
  rw [branch, identifier, if_neg behind]
  have scope : s.scope.sym id = s.sym id := rfl
  rw [scope] at kind
  by_cases constant : (s.sym id).cls = Tk.Num
  · rw [if_pos constant]
    have words : code s.scope (name id) s.e.length = [Op.IMM.code, (s.sym id).val] := by
      rw [code, scope, if_pos constant]
    rw [words]
    refine ⟨_, rfl, (start.next.emit _).setType _, ?_⟩
    rw [type, scope, if_pos constant]
    rfl
  · have words : code s.scope (name id) s.e.length =
        s.scope.variableCode id ++ [(loadOp (s.sym id).type).code] := by
      rw [code, scope, if_neg constant]
    have ty : type s.scope (name id) = (s.sym id).type := by rw [type, scope, if_neg constant]
    rw [if_neg constant, words, ty, Scope.variableCode, scope]
    by_cases local_ : (s.sym id).cls = Tk.Loc
    · rw [if_pos local_, if_pos local_]
      have loc : s.next.loc = s.scope.loc := start.next.loc
      rw [← loc]
      exact ⟨_, rfl, ((start.next.emit _).emit _).setType _, rfl⟩
    · have global_ : (s.sym id).cls = Tk.Glo := by
        cases kind with
        | inl other => exact absurd other constant
        | inr kind =>
          cases kind with
          | inl other => exact absurd other local_
          | inr found => exact found
      rw [if_neg local_, if_pos global_, if_neg local_]
      exact ⟨_, rfl, ((start.next.emit _).emit _).setType _, rfl⟩

/-! ## Types in parentheses -/

theorem keyword_tk {sym : Nat → Ident} (keywords : Keywords sym) {tk : Nat} (low : Tk.Char ≤ tk)
    (high : tk ≤ Tk.While) : (keyword tk).tk sym = tk :=
  keywords tk low high

theorem stars_spec {rounds count ty : Nat} (apart : headTk s.sym rest ≠ Tk.Mul)
    (done : Compiled s s1 (List.replicate count (.sign Tk.Mul) ++ rest) words) (enough : count < rounds) :
    ∃ s', stars rounds ty s1 = (ty + PTR * count, s') ∧ Compiled s s' rest words := by
  induction count generalizing rounds ty s1 with
  | zero =>
    obtain ⟨rounds, rfl⟩ : ∃ left, rounds = left + 1 := ⟨rounds - 1, by omega⟩
    rw [stars, if_neg (by rw [done.tk]; exact apart)]
    exact ⟨s1, rfl, done⟩
  | succ count inductionHypothesis =>
    obtain ⟨rounds, rfl⟩ : ∃ left, rounds = left + 1 := ⟨rounds - 1, by omega⟩
    rw [stars, if_pos (by rw [done.tk]; rfl)]
    have enough : count < rounds := by omega
    obtain ⟨s', found, compiled⟩ := @inductionHypothesis s1.next rounds (ty + PTR) done.next enough
    refine ⟨s', ?_, compiled⟩
    rw [found]
    congr 1
    ring

/-- The stars of a type, once its keyword is read. -/
theorem stars_type (char : Bool) {count : Nat} (done : Compiled s s1
      (List.replicate count (.sign Tk.Mul) ++ [.sign (chr ')')] ++ rest) words) :
    ∃ s', stars (s1.rest.length + 1) (if char then CHAR else INT) s1 = (typeOf char count, s') ∧
      Compiled s s' (.sign (chr ')') :: rest) words := by
  rw [List.append_assoc] at done
  have long : s1.rest.length =
      (List.replicate count (Token.sign Tk.Mul) ++ ([Token.sign (chr ')')] ++ rest)).tail.length := by
    rw [← done.sees.rest, List.length_map]
  have enough : count < s1.rest.length + 1 := by
    rw [long]
    simp
  have apart : headTk s.sym ([.sign (chr ')')] ++ rest) ≠ Tk.Mul := by
    change chr ')' ≠ Tk.Mul
    decide
  exact stars_spec apart done enough

theorem typeOf_cases (char : Bool) (tk : Nat) (found : tk = if char then Tk.Char else Tk.Int) :
    (if tk = Tk.Int then INT else CHAR) = (if char then CHAR else INT) ∧ (tk = Tk.Int ∨ tk = Tk.Char) := by
  subst tk
  cases char with
  | true => exact ⟨rfl, Or.inr rfl⟩
  | false => exact ⟨rfl, Or.inl rfl⟩

theorem reads_sizeof (char : Bool) (count : Nat) : Reads (sizeof char count) := by
  apply reads_of_primary rfl
  intro s rest lev n keywords sees fits below apart enough
  have start := Compiled.start sees
  have tk : s.tk = Tk.Sizeof := start.tk.trans (keyword_tk keywords (by decide) (by decide))
  have word := start.next.next
  have found : s.next.next.tk = if char then Tk.Char else Tk.Int := by
    rw [word.tk]
    cases char with
    | true => exact keyword_tk keywords (by decide) (by decide)
    | false => exact keyword_tk keywords (by decide) (by decide)
  have kind : (if s.next.next.tk = Tk.Int then (INT, s.next.next.next)
      else if s.next.next.tk = Tk.Char then (CHAR, s.next.next.next) else (INT, s.next.next)) =
      (if char then CHAR else INT, s.next.next.next) := by
    rw [found]
    cases char <;> rfl
  obtain ⟨s', counted, compiled⟩ := stars_type char word.next
  have branch : primary (expr n) s =
      .ok ((s'.next.emit [Op.IMM.code, if typeOf char count = CHAR then 1 else 4]).setType INT) := by
    rw [primary, tk]
    change (s.next.expect (chr '(') _ >>= _) = _
    rw [start.next.expect, ok_bind]
    simp only [kind, counted]
    rw [compiled.expect, ok_bind]
  exact ⟨_, branch, (compiled.next.emit _).setType _, rfl⟩

theorem reads_cast (char : Bool) (count : Nat) (reads : Reads t) : Reads (cast char count t) := by
  apply reads_of_primary rfl
  intro s rest lev n keywords sees fits below apart enough
  rw [tight] at below
  rw [cost] at enough
  rw [tokens, typeTokens, List.cons_append, List.cons_append, List.cons_append, List.append_assoc] at sees
  have start := Compiled.start sees
  have tk : s.tk = chr '(' := start.tk
  have found : s.next.tk = if char then Tk.Char else Tk.Int := by
    rw [start.next.tk]
    cases char with
    | true => exact keyword_tk keywords (by decide) (by decide)
    | false => exact keyword_tk keywords (by decide) (by decide)
  obtain ⟨kind, isType⟩ := typeOf_cases char _ found
  have word : Compiled s s.next.next
      (List.replicate count (.sign Tk.Mul) ++ [.sign (chr ')')] ++ (t.tokens ++ rest)) [] :=
    start.next.next.of_eq (by simp)
  obtain ⟨s', counted, compiled⟩ := stars_type char word
  obtain ⟨s2, ran, result, ty⟩ := reads.parsed keywords compiled.next fits below apart (n := n) (by omega)
  have branch : primary (expr n) s = .ok (s2.setType (typeOf char count)) := by
    rw [primary, tk]
    change parenthesis (expr n) s.next = _
    rw [parenthesis, if_pos isType, kind]
    simp only [counted]
    rw [compiled.expect, ok_bind, ran, ok_bind]
  exact ⟨_, branch, result.setType _, rfl⟩

/-! ## Operators in front -/

theorem reads_paren (reads : Reads t) : Reads (paren t) := by
  apply reads_of_primary rfl
  intro s rest lev n keywords sees fits below apart enough
  rw [cost] at enough
  rw [tokens, List.cons_append, List.append_assoc] at sees
  have start := Compiled.start sees
  have tk : s.tk = chr '(' := start.tk
  have head := headTk_tokens keywords t Tk.Assign fits ([.sign (chr ')')] ++ rest)
  have noType : ¬(s.next.tk = Tk.Int ∨ s.next.tk = Tk.Char) := by
    have others : ∀ first ∈ starts, ¬(first = Tk.Int ∨ first = Tk.Char) := by decide
    rw [start.next.tk]
    exact others _ head
  have closing := below_tight t fits (chr ')') (by decide)
  have apart : chr ')' ≠ chr '(' := by decide
  obtain ⟨s', ran, compiled, ty⟩ := reads.parsed keywords start.next fits closing apart (n := n) (by omega)
  have branch : primary (expr n) s = .ok s'.next := by
    rw [primary, tk]
    change parenthesis (expr n) s.next = _
    rw [parenthesis, if_neg noType, ran, ok_bind]
    exact compiled.expect
  exact ⟨_, branch, compiled.next, (Compiled.next_ty s').trans ty⟩

/-- The operand of a sign in front. -/
theorem Reads.behind {token : Token} (reads : Reads t) (keywords : Keywords s.sym)
    (sees : s.Sees (token :: t.tokens ++ rest)) (fits : t.Fits s.scope Tk.Inc)
    (below : headTk s.sym rest < min Tk.Inc t.tight) (apart : headTk s.sym rest ≠ chr '(')
    (enough : t.cost + 1 ≤ n + 1) :
    ∃ s', expr n Tk.Inc s.next = .ok s' ∧ Compiled s s' rest (t.code s.scope s.e.length) ∧
      s'.ty = t.type s.scope :=
  reads.parsed keywords (Compiled.start sees).next fits below apart (by omega)

theorem reads_not (reads : Reads t) : Reads (not t) := by
  apply reads_of_primary rfl
  intro s rest lev n keywords sees fits below apart enough
  obtain ⟨s', ran, compiled, ty⟩ := reads.behind keywords sees fits below apart enough
  have tk : s.tk = chr '!' := sees.tk
  refine ⟨_, ?_, (compiled.emit [Op.PSH.code, Op.IMM.code, 0, Op.EQ.code]).setType INT, rfl⟩
  rw [primary, tk]
  change (expr n Tk.Inc s.next >>= _) = _
  rw [ran]
  rfl

theorem reads_complement (reads : Reads t) : Reads (complement t) := by
  apply reads_of_primary rfl
  intro s rest lev n keywords sees fits below apart enough
  obtain ⟨s', ran, compiled, ty⟩ := reads.behind keywords sees fits below apart enough
  have tk : s.tk = chr '~' := sees.tk
  refine ⟨_, ?_, (compiled.emit [Op.PSH.code, Op.IMM.code, -1, Op.XOR.code]).setType INT, rfl⟩
  rw [primary, tk]
  change (expr n Tk.Inc s.next >>= _) = _
  rw [ran]
  rfl

theorem reads_plus (reads : Reads t) : Reads (plus t) := by
  apply reads_of_primary rfl
  intro s rest lev n keywords sees fits below apart enough
  obtain ⟨s', ran, compiled, ty⟩ := reads.behind keywords sees fits below apart enough
  have tk : s.tk = Tk.Add := sees.tk
  refine ⟨_, ?_, compiled.setType INT, rfl⟩
  rw [primary, tk]
  change (expr n Tk.Inc s.next >>= _) = _
  rw [ran]
  rfl

theorem reads_minus (reads : Reads t) : Reads (minus t) := by
  apply reads_of_primary rfl
  intro s rest lev n keywords sees fits below apart enough
  obtain ⟨fits, noNumber⟩ := fits
  rw [cost] at enough
  have tk : s.tk = Tk.Sub := sees.tk
  have start := (Compiled.start sees).next.emit [Op.IMM.code]
  have number : (s.next.emit [Op.IMM.code]).tk ≠ Tk.Num := by
    rw [start.tk]
    cases first : t.tokens with
    | nil =>
      have head := headTk_tokens keywords t Tk.Inc fits []
      rw [first] at head
      change 0 ∈ starts at head
      exact absurd head (by decide)
    | cons token tokens =>
      rw [first] at noNumber
      exact noNumber
  obtain ⟨s', ran, compiled, ty⟩ := reads.parsed keywords (start.emit [-1, Op.PSH.code]) fits below apart (n := n)
    (by omega)
  refine ⟨(s'.emit [Op.MUL.code]).setType INT, ?_, ?_, rfl⟩
  · rw [primary, tk]
    change (if (s.next.emit [Op.IMM.code]).tk = Tk.Num then _ else _) = _
    rw [if_neg number, ran]
    rfl
  · have words := (compiled.emit [Op.MUL.code]).setType INT
    rw [List.append_assoc] at words
    exact words

theorem reads_deref (reads : Reads t) : Reads (deref t) := by
  apply reads_of_primary rfl
  intro s rest lev n keywords sees fits below apart enough
  obtain ⟨fits, pointer⟩ := fits
  obtain ⟨s', ran, compiled, ty⟩ := reads.behind keywords sees fits below apart enough
  have tk : s.tk = Tk.Mul := sees.tk
  refine ⟨_, ?_, ((compiled.setType (t.type s.scope - PTR)).emit [(loadOp (t.type s.scope - PTR)).code]), rfl⟩
  rw [primary, tk]
  change (expr n Tk.Inc s.next >>= _) = _
  rw [ran, ok_bind, if_pos (by rw [ty]; exact pointer), ty]
  rfl

theorem reads_addressOf (reads : Reads t) : Reads (addressOf t) := by
  apply reads_of_primary rfl
  intro s rest lev n keywords sees fits below apart enough
  obtain ⟨fits, place⟩ := fits
  obtain ⟨s', ran, compiled, ty⟩ := reads.behind keywords sees fits below apart enough
  have tk : s.tk = Tk.And := sees.tk
  rw [code_place place] at compiled
  refine ⟨{ s' with e := s'.e.dropLast, ty := s'.ty + PTR }, ?_, ?_, ?_⟩
  · rw [primary, tk]
    change (expr n Tk.Inc s.next >>= _) = _
    rw [ran, ok_bind, if_pos compiled.loads]
  · refine ⟨⟨compiled.sees.tk, compiled.sees.rest, compiled.sees.ival, compiled.sees.id⟩, ?_, compiled.sym,
      compiled.loc, compiled.text⟩
    rw [compiled.e, ← List.append_assoc, List.dropLast_concat]
    rfl
  · exact congrArg (· + PTR) ty

theorem reads_before (inc : Bool) (reads : Reads t) : Reads (before inc t) := by
  apply reads_of_primary rfl
  intro s rest lev n keywords sees fits below apart enough
  obtain ⟨fits, place⟩ := fits
  obtain ⟨s', ran, compiled, ty⟩ := reads.behind keywords sees fits below apart enough
  have tk : s.tk = stepTk inc := sees.tk
  rw [code_place place] at compiled
  have words := ((compiled.pushInstead.emit [(loadOp (t.type s.scope)).code]).emit
    [Op.PSH.code, Op.IMM.code, unit (t.type s.scope), (stepOp inc).code, (storeOp (t.type s.scope)).code])
  rw [List.append_assoc, List.append_assoc] at words
  refine ⟨_, ?_, words, ty⟩
  rw [primary, tk]
  cases inc <;>
    · change (expr n Tk.Inc s.next >>= _) = _
      rw [ran, ok_bind, compiled.pushAndLoad, ok_bind]
      change Except.ok (Compiler.emit [_, _, unit s'.ty, _, (storeOp s'.ty).code] _) = _
      rw [ty]
      rfl

/-! ## Calls -/

/-- The arguments of a call are read up to the parenthesis. -/
def ReadsAll (ts : List Tree) : Prop :=
  ∀ (count rounds : Nat) {s s1 : Compiler} {rest : List Token} {words : List Word} {n : Nat}, Keywords s.sym →
    Compiled s s1 (tokensAll ts ++ .sign (chr ')') :: rest) words → FitsAll s.scope ts → costAll ts ≤ n →
    ts.length < rounds →
    ∃ s', arguments (expr n) rounds count s1 = .ok (count + ts.length, s') ∧
      Compiled s s' (.sign (chr ')') :: rest) (words ++ codeAll s.scope ts (s.e.length + words.length))

theorem readsAll_nil : ReadsAll [] := by
  intro count rounds s s1 rest words n keywords done fits enough long
  obtain ⟨rounds, rfl⟩ : ∃ left, rounds = left + 1 := ⟨rounds - 1, by simp at long; omega⟩
  have tk : s1.tk = chr ')' := done.tk
  rw [arguments, if_pos tk]
  refine ⟨s1, rfl, ?_⟩
  rw [codeAll, List.append_nil]
  exact done

theorem readsAll_cons {ts : List Tree} (reads : Reads t) (readsAll : ReadsAll ts) : ReadsAll (t :: ts) := by
  intro count rounds s s1 rest words n keywords done fits enough long
  obtain ⟨first, others⟩ := fits
  rw [costAll] at enough
  rw [List.length_cons] at long
  obtain ⟨rounds, rfl⟩ : ∃ left, rounds = left + 1 := ⟨rounds - 1, by omega⟩
  rw [tokensAll, List.append_assoc, List.append_assoc] at done
  have open_ : s1.tk ≠ chr ')' := by
    have never : chr ')' ∉ starts := by decide
    intro closed
    rw [done.tk] at closed
    have head := headTk_tokens keywords t Tk.Assign first (comma ts ++ (tokensAll ts ++ .sign (chr ')') :: rest))
    exact never (closed ▸ head)
  -- behind an argument there is a comma or the parenthesis
  obtain ⟨low, apart⟩ : headTk s.sym (comma ts ++ (tokensAll ts ++ .sign (chr ')') :: rest)) < Tk.Assign ∧
      headTk s.sym (comma ts ++ (tokensAll ts ++ .sign (chr ')') :: rest)) ≠ chr '(' := by
    cases ts with
    | nil =>
      change chr ')' < Tk.Assign ∧ chr ')' ≠ chr '('
      decide
    | cons t ts =>
      change chr ',' < Tk.Assign ∧ chr ',' ≠ chr '('
      decide
  obtain ⟨s2, ran, compiled, -⟩ := reads.parsed keywords done first (below_tight t first _ low) apart (n := n)
    (by omega)
  have pushed := compiled.emit [Op.PSH.code]
  rw [arguments, if_neg open_, ran]
  change ∃ s', arguments (expr n) rounds (count + 1) (if (s2.emit [Op.PSH.code]).tk = chr ',' then
    (s2.emit [Op.PSH.code]).next else s2.emit [Op.PSH.code]) = _ ∧ _
  have next : Compiled s (if (s2.emit [Op.PSH.code]).tk = chr ',' then (s2.emit [Op.PSH.code]).next
      else s2.emit [Op.PSH.code]) (tokensAll ts ++ .sign (chr ')') :: rest)
      (words ++ t.code s.scope (s.e.length + words.length) ++ [Op.PSH.code]) := by
    rw [pushed.tk]
    cases ts with
    | nil =>
      change Compiled s (if chr ')' = chr ',' then _ else _) _ _
      rw [if_neg (by decide)]
      exact pushed
    | cons t ts =>
      change Compiled s (if chr ',' = chr ',' then _ else _) _ _
      rw [if_pos rfl]
      exact pushed.next
  obtain ⟨s', found, result⟩ := readsAll (count + 1) rounds keywords next others (n := n) (by omega) (by omega)
  refine ⟨s', ?_, ?_⟩
  · rw [found, List.length_cons]
    congr 2
    omega
  · rw [codeAll]
    rw [List.append_assoc words, List.append_assoc] at result
    rw [List.length_append, ← Nat.add_assoc] at result
    exact result

theorem length_le_tokensAll (ts : List Tree) (scope : Scope) (keywords : Keywords scope.sym)
    (fits : FitsAll scope ts) : ts.length ≤ (tokensAll ts).length := by
  induction ts with
  | nil => exact Nat.zero_le _
  | cons t ts inductionHypothesis =>
    obtain ⟨first, others⟩ := fits
    have rest := inductionHypothesis others
    have nonempty : 0 < t.tokens.length := by
      cases shape : t.tokens with
      | nil =>
        have head := headTk_tokens keywords t Tk.Assign first []
        rw [shape] at head
        change 0 ∈ starts at head
        exact absurd head (by decide)
      | cons _ _ => exact Nat.succ_pos _
    rw [tokensAll, List.length_append, List.length_append, List.length_cons]
    omega

theorem reads_call (id : Nat) {ts : List Tree} (readsAll : ReadsAll ts) : Reads (call id ts) := by
  apply reads_of_primary rfl
  intro s rest lev n keywords sees fits below apart enough
  obtain ⟨class_, kind, fits⟩ := fits
  rw [cost] at enough
  rw [tokens, List.cons_append, List.cons_append, List.append_assoc] at sees
  have start := Compiled.start sees
  have tk : s.tk = Tk.Id := start.tk.trans class_
  have found : s.id = id := sees.id id rfl
  have branch : primary (expr n) s = identifier (expr n) (s.sym id) s.next := by
    rw [primary, tk, ← found]
    rfl
  have open_ : s.next.tk = chr '(' := start.next.tk
  have inner := start.next.next
  have long : ts.length < s.next.next.rest.length + 2 := by
    have shorter := length_le_tokensAll ts s.scope keywords fits
    have same : s.next.next.rest.length = (tokensAll ts ++ ([Token.sign (chr ')')] ++ rest)).tail.length := by
      rw [← inner.sees.rest, List.length_map]
    rw [same, List.length_tail, List.length_append]
    omega
  obtain ⟨s', ran, compiled⟩ := readsAll 0 _ keywords inner fits (n := n) (by omega) long
  have scope : s.scope.sym id = s.sym id := rfl
  rw [scope] at kind
  rw [Nat.zero_add] at ran
  have called := compiled.next.emit [Op.JSR.code, (s.sym id).val]
  rw [branch, identifier, if_pos open_]
  dsimp only
  rw [ran, ok_bind, if_neg (by rw [kind]; decide), if_pos kind, ok_bind]
  refine ⟨_, rfl, ?_, rfl⟩
  apply Compiled.setType
  rw [code, scope]
  simp only [List.nil_append, List.length_nil, Nat.add_zero] at called
  by_cases none : ts.length ≠ 0
  · rw [if_pos none, if_pos none]
    have adjusted := called.emit [Op.ADJ.code, BitVec.ofNat 32 ts.length]
    rw [List.append_assoc] at adjusted
    exact adjusted
  · rw [if_neg none, if_neg none]
    exact called

/-! ## Operators behind -/

/-- A tree that an operator makes of the tree on its left, in a round of the same loop. -/
theorem reads_of_operator {u : Tree} (tk : Nat) (behind : List Token)
    (written : u.tokens = l.tokens ++ .sign tk :: behind) (round : u.spine = l.spine + 1) (apart : tk ≠ chr '(')
    (dearer : l.cost ≤ u.cost) (reads : Reads l)
    (left : ∀ {scope : Scope} {lev : Nat}, u.Fits scope lev → lev ≤ tk ∧ tk < l.tight ∧ l.Fits scope lev)
    (found : ∀ {s s1 : Compiler} {rest : List Token} {lev n : Nat}, Keywords s.sym →
      Compiled s s1 (.sign tk :: (behind ++ rest)) (l.code s.scope s.e.length) → s1.ty = l.type s.scope →
      u.Fits s.scope lev → headTk s.sym rest < u.tight → headTk s.sym rest ≠ chr '(' →
      u.cost ≤ n + l.spine + 1 →
      ∃ s', operator (expr n) s1 = .ok s' ∧ Compiled s s' rest (u.code s.scope s.e.length) ∧
        s'.ty = u.type s.scope) : Reads u := by
  intro s rest lev n keywords sees fits below call enough
  obtain ⟨high, tight, fitsLeft⟩ := left fits
  rw [written, List.append_assoc] at sees
  obtain ⟨s1, ran, compiled, ty⟩ := reads (n := n) keywords sees fitsLeft tight apart (by omega)
  have shorter := l.spine_lt_cost
  have longer := u.spine_lt_cost
  obtain ⟨rounds, same⟩ : ∃ rounds, n - l.spine = rounds + 1 := ⟨n - l.spine - 1, by omega⟩
  obtain ⟨s', done, result, resultTy⟩ := found (n := rounds) keywords compiled ty fits below call (by omega)
  refine ⟨s', ?_, result, resultTy⟩
  have high' : lev ≤ s1.tk := by
    rw [compiled.tk]
    exact high
  rw [ran, same, climb_of_operator high' done]
  congr 1
  omega

theorem stepTk_cases (inc : Bool) : stepTk inc ≠ chr '(' ∧ (stepTk inc = Tk.Inc ∨ stepTk inc = Tk.Dec) := by
  cases inc with
  | true => exact ⟨by decide, Or.inl rfl⟩
  | false => exact ⟨by decide, Or.inr rfl⟩

theorem reads_after (inc : Bool) (reads : Reads t) : Reads (after inc t) := by
  apply reads_of_operator (stepTk inc) [] rfl rfl (stepTk_cases inc).1 (Nat.le_succ _) reads
  · intro scope lev fits
    exact ⟨fits.1, fits.2.1, fits.2.2.1⟩
  · intro s s1 rest lev n keywords done ty fits below apart enough
    have tk : s1.tk = stepTk inc := done.tk
    rw [code_place fits.2.2.2] at done
    have words := (done.pushInstead.emit [(loadOp (t.type s.scope)).code]).emit
      [Op.PSH.code, Op.IMM.code, unit (t.type s.scope), (stepOp inc).code, (storeOp (t.type s.scope)).code,
        Op.PSH.code, Op.IMM.code, unit (t.type s.scope), (stepOp (!inc)).code]
    rw [List.append_assoc, List.append_assoc] at words
    have tk2 : (s1.pushInstead.emit [(loadOp (t.type s.scope)).code]).tk = stepTk inc := tk
    refine ⟨_, ?_, words.next, (Compiled.next_ty _).trans ty⟩
    rw [operator, tk]
    cases inc <;>
      · change (s1.pushAndLoad _ >>= _) = _
        rw [done.pushAndLoad, ok_bind]
        change Except.ok (Compiler.next (Compiler.emit
          [_, _, unit s1.ty, _, (storeOp s1.ty).code, _, _, unit s1.ty, _] _)) = _
        rw [ty, tk2]
        rfl

theorem reads_assign (left : Reads l) (right : Reads r) : Reads (assign l r) := by
  apply reads_of_operator Tk.Assign r.tokens rfl rfl (by decide) (by rw [cost]; omega) left
  · intro scope lev fits
    exact ⟨fits.1, fits.2.1, fits.2.2.1⟩
  · intro s s1 rest lev n keywords done ty fits below apart enough
    obtain ⟨-, -, -, fitsRight, place⟩ := fits
    have tk : s1.tk = Tk.Assign := done.tk
    have shorter := l.spine_lt_cost
    rw [cost] at enough
    rw [code_place place] at done
    obtain ⟨s', ran, compiled, -⟩ := right.parsed keywords done.next.pushInstead fitsRight below apart (n := n)
      (by omega)
    have words := (compiled.emit [(storeOp (l.type s.scope)).code]).setType (l.type s.scope)
    rw [List.append_assoc] at words
    refine ⟨_, ?_, words, rfl⟩
    rw [operator, tk]
    change (if s1.next.Loads then _ else _) = _
    rw [if_pos done.next.loads, ran, ok_bind, ty]

theorem reads_cond {c yes no : Tree} (test : Reads c) (taken : Reads yes) (other : Reads no) :
    Reads (cond c yes no) := by
  apply reads_of_operator Tk.Cond (yes.tokens ++ .sign (chr ':') :: no.tokens) rfl rfl (by decide)
    (by rw [cost]; omega) test
  · intro scope lev fits
    exact ⟨fits.1, fits.2.1, fits.2.2.1⟩
  · intro s s1 rest lev n keywords done ty fits below apart enough
    obtain ⟨-, -, -, fitsTaken, fitsOther⟩ := fits
    have tk : s1.tk = Tk.Cond := done.tk
    have shorter := c.spine_lt_cost
    rw [cost] at enough
    rw [List.append_assoc] at done
    obtain ⟨front, isFront⟩ : ∃ front, c.code s.scope s.e.length = front := ⟨_, rfl⟩
    obtain ⟨j, isStart⟩ : ∃ j, s.e.length + front.length + 2 = j := ⟨_, rfl⟩
    rw [isFront] at done
    have closing := below_tight yes fitsTaken (chr ':') (by decide)
    have noCall : chr ':' ≠ chr '(' := by decide
    obtain ⟨s2, ranTaken, compiledTaken, -⟩ := taken.parsedAt keywords (done.next.emit [Op.BZ.code, 0]) j
      (by simp; omega) fitsTaken closing noCall (n := n) (by omega)
    obtain ⟨middle, isMiddle⟩ : ∃ middle, yes.code s.scope j = middle := ⟨_, rfl⟩
    obtain ⟨k, isEnd⟩ : ∃ k, j + middle.length + 2 = k := ⟨_, rfl⟩
    rw [isMiddle, List.append_assoc] at compiledTaken
    -- where the code of the other operand begins is known now
    have patched := (compiledTaken.next.patchAhead 2).emit [Op.JMP.code, 0]
    rw [isStart, isEnd, ← done.length] at patched
    obtain ⟨s3, ranOther, compiledOther, ty3⟩ := other.parsedAt keywords patched k (by simp; omega) fitsOther below
      apart (n := n) (by omega)
    rw [List.append_assoc] at compiledOther
    have final := compiledOther.patchAhead 0
    have place : s.e.length + (front ++ ([Op.BZ.code, s.scope.address k] ++ middle)).length + 1 = k - 1 := by
      simp
      omega
    have target : s.e.length + (front ++ ([Op.BZ.code, s.scope.address k] ++ middle)).length + 2 = k := by omega
    rw [place, target, List.append_assoc, List.append_assoc] at final
    refine ⟨_, ?_, final.of_words ?_, ty3⟩
    · rw [operator, tk]
      change (expr n Tk.Assign (s1.next.emit [Op.BZ.code, 0]) >>= _) = _
      rw [ranTaken, ok_bind, compiledTaken.expect, ok_bind]
      have open_ : ((s2.next.patch (s1.e.length + 1) (s2.next.address (s2.next.e.length + 2))).emit
          [Op.JMP.code, 0]).e.length - 1 = k - 1 := by
        rw [patched.length]
        simp
        omega
      change (expr n Tk.Cond ((s2.next.patch (s1.e.length + 1) (s2.next.address (s2.next.e.length + 2))).emit
        [Op.JMP.code, 0]) >>= _) = _
      rw [ranOther, ok_bind, open_]
      rfl
    · rw [code, isFront, isStart, isMiddle, isEnd]
      rfl

theorem reads_lor (left : Reads l) (right : Reads r) : Reads (lor l r) := by
  apply reads_of_operator Tk.Lor r.tokens rfl rfl (by decide) (by rw [cost]; omega) left
  · intro scope lev fits
    exact ⟨fits.1, fits.2.1, fits.2.2.1⟩
  · intro s s1 rest lev n keywords done ty fits below apart enough
    have tk : s1.tk = Tk.Lor := done.tk
    have shorter := l.spine_lt_cost
    rw [cost] at enough
    obtain ⟨s2, ran, compiled, -⟩ := right.parsedAt keywords (done.next.emit [Op.BNZ.code, 0])
      (s.e.length + (l.code s.scope s.e.length).length + 2) (by simp; omega) fits.2.2.2 below apart (n := n) (by omega)
    rw [List.append_assoc] at compiled
    have patched := (compiled.patchAhead 0).setType INT
    rw [← done.length] at patched
    refine ⟨_, ?_, patched.of_words ?_, rfl⟩
    · rw [operator, tk]
      change (expr n Tk.Lan (s1.next.emit [Op.BNZ.code, 0]) >>= _) = _
      rw [ran]
      rfl
    · rw [code, done.length]
      rfl

theorem reads_land (left : Reads l) (right : Reads r) : Reads (land l r) := by
  apply reads_of_operator Tk.Lan r.tokens rfl rfl (by decide) (by rw [cost]; omega) left
  · intro scope lev fits
    exact ⟨fits.1, fits.2.1, fits.2.2.1⟩
  · intro s s1 rest lev n keywords done ty fits below apart enough
    have tk : s1.tk = Tk.Lan := done.tk
    have shorter := l.spine_lt_cost
    rw [cost] at enough
    obtain ⟨s2, ran, compiled, -⟩ := right.parsedAt keywords (done.next.emit [Op.BZ.code, 0])
      (s.e.length + (l.code s.scope s.e.length).length + 2) (by simp; omega) fits.2.2.2 below apart (n := n) (by omega)
    rw [List.append_assoc] at compiled
    have patched := (compiled.patchAhead 0).setType INT
    rw [← done.length] at patched
    refine ⟨_, ?_, patched.of_words ?_, rfl⟩
    · rw [operator, tk]
      change (expr n Tk.Or (s1.next.emit [Op.BZ.code, 0]) >>= _) = _
      rw [ran]
      rfl
    · rw [code, done.length]
      rfl

theorem sumTk_cases (add : Bool) : sumTk add ≠ chr '(' := by
  cases add <;> decide

theorem reads_sum (add : Bool) (left : Reads l) (right : Reads r) : Reads (sum add l r) := by
  apply reads_of_operator (sumTk add) r.tokens rfl rfl (sumTk_cases add) (by rw [cost]; omega) left
  · intro scope lev fits
    exact ⟨fits.1, fits.2.1, fits.2.2.1⟩
  · intro s s1 rest lev n keywords done ty fits below apart enough
    have tk : s1.tk = sumTk add := done.tk
    have shorter := l.spine_lt_cost
    rw [cost] at enough
    obtain ⟨s2, ran, compiled, -⟩ := right.parsed keywords (done.next.emit [Op.PSH.code]) fits.2.2.2 below apart
      (n := n) (by omega)
    rw [List.length_append, ← Nat.add_assoc] at compiled
    have words := ((compiled.emit (scale (l.type s.scope))).emit [(stepOp add).code]).setType (l.type s.scope)
    rw [List.append_assoc, List.append_assoc] at words
    refine ⟨_, ?_, words.of_words ?_, rfl⟩
    · rw [operator, tk]
      cases add <;>
        · change (expr n Tk.Mul (s1.next.emit [Op.PSH.code]) >>= _) = _
          rw [ran, ok_bind, ty]
          rfl
    · rw [code]
      simp [Nat.add_assoc]

theorem reads_index (left : Reads l) (right : Reads r) : Reads (index l r) := by
  apply reads_of_operator Tk.Brak (r.tokens ++ [.sign (chr ']')]) rfl rfl (by decide) (by rw [cost]; omega) left
  · intro scope lev fits
    exact ⟨fits.1, fits.2.1, fits.2.2.1⟩
  · intro s s1 rest lev n keywords done ty fits below apart enough
    obtain ⟨-, -, -, fitsRight, pointer⟩ := fits
    have tk : s1.tk = Tk.Brak := done.tk
    have shorter := l.spine_lt_cost
    rw [cost] at enough
    rw [List.append_assoc] at done
    have closing := below_tight r fitsRight (chr ']') (by decide)
    have noCall : chr ']' ≠ chr '(' := by decide
    obtain ⟨s2, ran, compiled, -⟩ := right.parsed keywords (done.next.emit [Op.PSH.code]) fitsRight closing noCall
      (n := n) (by omega)
    have words := ((compiled.next.emit (scale (l.type s.scope))).emit
      [Op.ADD.code, (loadOp (l.type s.scope - PTR)).code]).setType (l.type s.scope - PTR)
    refine ⟨_, ?_, words.of_words ?_, rfl⟩
    · rw [operator, tk]
      change (expr n Tk.Assign (s1.next.emit [Op.PSH.code]) >>= _) = _
      rw [ran, ok_bind, compiled.expect, ok_bind, if_neg (by rw [ty]; omega), ty]
    · rw [code]
      simp

theorem operators_apart : ∀ row ∈ operators,
    row.1 ≠ Tk.Assign ∧ row.1 ≠ Tk.Cond ∧ row.1 ≠ Tk.Lor ∧ row.1 ≠ Tk.Lan ∧ ¬(row.1 = Tk.Add ∨ row.1 = Tk.Sub) ∧
      ¬(row.1 = Tk.Inc ∨ row.1 = Tk.Dec) ∧ row.1 ≠ Tk.Brak ∧ row.1 ≠ chr '(' := by
  decide

theorem reads_binary (tk : Nat) (left : Reads l) (right : Reads r) : Reads (binary tk l r) := by
  cases known : Compiler.binary tk with
  | none =>
    intro s rest lev n keywords sees fits
    obtain ⟨-, -, -, level, op, found, -⟩ := fits
    rw [known] at found
    cases found
  | some found =>
    obtain ⟨level, op⟩ := found
    obtain ⟨notAssign, notCond, notLor, notLan, notSum, notStep, notBrak, notCall⟩ :=
      operators_apart _ (mem_operators known)
    apply reads_of_operator tk r.tokens rfl rfl notCall (by rw [cost]; omega) left
    · intro scope lev fits
      exact ⟨fits.1, fits.2.1, fits.2.2.1⟩
    · intro s s1 rest lev n keywords done ty fits below apart enough
      obtain ⟨-, -, -, level', op', known', fitsRight⟩ := fits
      rw [known] at known'
      cases known'
      have found : s1.tk = tk := done.tk
      have shorter := l.spine_lt_cost
      rw [cost] at enough
      rw [tight, known] at below
      obtain ⟨s2, ran, compiled, -⟩ := right.parsed keywords (done.next.emit [Op.PSH.code]) fitsRight below apart
        (n := n) (by omega)
      have words := (compiled.emit [op.code]).setType INT
      refine ⟨_, ?_, words.of_words ?_, rfl⟩
      · rw [operator, found]
        rw [if_neg notAssign, if_neg notCond, if_neg notLor, if_neg notLan, if_neg notSum, if_neg notStep,
          if_neg notBrak, known]
        change (expr n level (s1.next.emit [Op.PSH.code]) >>= _) = _
        rw [ran]
        rfl
      · rw [code, known]
        simp

/-! ## All trees -/

mutual

theorem reads : ∀ t : Tree, Reads t
  | num value => reads_num value
  | negative value => reads_negative value
  | name place => reads_name place
  | call place arguments => reads_call place (readsAll arguments)
  | sizeof char stars => reads_sizeof char stars
  | paren t => reads_paren (reads t)
  | cast char stars t => reads_cast char stars (reads t)
  | deref t => reads_deref (reads t)
  | addressOf t => reads_addressOf (reads t)
  | not t => reads_not (reads t)
  | complement t => reads_complement (reads t)
  | plus t => reads_plus (reads t)
  | minus t => reads_minus (reads t)
  | before inc t => reads_before inc (reads t)
  | after inc t => reads_after inc (reads t)
  | assign l r => reads_assign (reads l) (reads r)
  | cond c yes no => reads_cond (reads c) (reads yes) (reads no)
  | lor l r => reads_lor (reads l) (reads r)
  | land l r => reads_land (reads l) (reads r)
  | binary tk l r => reads_binary tk (reads l) (reads r)
  | sum add l r => reads_sum add (reads l) (reads r)
  | index l r => reads_index (reads l) (reads r)

theorem readsAll : ∀ ts : List Tree, ReadsAll ts
  | [] => readsAll_nil
  | t :: ts => readsAll_cons (reads t) (readsAll ts)

end

end Tree

end Cc

end XinuStm32
