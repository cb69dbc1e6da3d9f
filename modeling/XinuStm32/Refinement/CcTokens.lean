import XinuStm32.Abstract.CCode

/-!
# Tokens that come and words that have been emitted

The compiler looks at one token at a time and only adds to the code, but for jumps that it fills in and loads that it
takes back. Both are said in one relation between an earlier state and a later one: which words have been emitted in
between, and which tokens come now.
-/

namespace XinuStm32

namespace Cc

open Compiler (loadOp)

/-! ## Tokens that come -/

/-- The current token is the first of these, and the others come behind it. -/
structure Compiler.Sees (s : Compiler) (tokens : List Token) : Prop where
  tk : s.tk = headTk s.sym tokens
  rest : s.rest.map Lexeme.token = tokens.tail
  ival : ∀ value, tokens.head? = some (.num value) → s.ival = value
  id : ∀ id, tokens.head? = some (.ident id) → s.id = id

/-- Words have been emitted since an earlier state, and these tokens come. -/
structure Compiled (s s' : Compiler) (tokens : List Token) (words : List Word) : Prop where
  sees : s'.Sees tokens
  e : s'.e = s.e ++ words
  sym : s'.sym = s.sym
  loc : s'.loc = s.loc
  text : s'.text = s.text

namespace Compiled

variable {s s' s'' : Compiler} {tokens rest : List Token} {words more : List Word} {token : Token}

theorem start (sees : s.Sees tokens) : Compiled s s tokens [] :=
  ⟨sees, (List.append_nil _).symm, rfl, rfl, rfl⟩

theorem scope (done : Compiled s s' tokens words) : s'.scope = s.scope := by
  rw [Compiler.scope, Compiler.scope, done.sym, done.loc, done.text]

theorem length (done : Compiled s s' tokens words) : s'.e.length = s.e.length + words.length := by
  rw [done.e, List.length_append]

theorem tk (done : Compiled s s' tokens words) : s'.tk = headTk s.sym tokens := by
  rw [done.sees.tk, done.sym]

theorem trans (first : Compiled s s' tokens words) (second : Compiled s' s'' rest more) :
    Compiled s s'' rest (words ++ more) where
  sees := second.sees
  e := by rw [second.e, first.e, List.append_assoc]
  sym := second.sym.trans first.sym
  loc := second.loc.trans first.loc
  text := second.text.trans first.text

theorem of_eq {others : List Token} (done : Compiled s s' tokens words) (same : tokens = others) :
    Compiled s s' others words :=
  same ▸ done

theorem of_words (done : Compiled s s' tokens words) (same : words = more) : Compiled s s' tokens more :=
  same ▸ done

theorem emit (done : Compiled s s' tokens words) (more : List Word) :
    Compiled s (s'.emit more) tokens (words ++ more) where
  sees := ⟨done.sees.tk, done.sees.rest, done.sees.ival, done.sees.id⟩
  e := by rw [Compiler.emit, done.e, List.append_assoc]
  sym := done.sym
  loc := done.loc
  text := done.text

theorem setType (done : Compiled s s' tokens words) (ty : Nat) : Compiled s (s'.setType ty) tokens words where
  sees := ⟨done.sees.tk, done.sees.rest, done.sees.ival, done.sees.id⟩
  e := done.e
  sym := done.sym
  loc := done.loc
  text := done.text

theorem next (done : Compiled s s' (token :: tokens) words) : Compiled s s'.next tokens words := by
  have rest := done.sees.rest
  rw [List.tail_cons] at rest
  rw [Compiler.next]
  cases lexemes : s'.rest with
  | nil =>
    rw [lexemes, List.map_nil] at rest
    subst rest
    refine ⟨⟨rfl, ?_, by simp, by simp⟩, done.e, done.sym, done.loc, done.text⟩
    simp only [List.map_nil, List.tail_nil]
  | cons lexeme lexemes =>
    rw [‹s'.rest = _›, List.map_cons] at rest
    subst rest
    obtain ⟨line, token⟩ := lexeme
    cases token <;>
      exact ⟨⟨rfl, rfl, by simp, by simp⟩, done.e, done.sym, done.loc, done.text⟩

theorem next_ty (s : Compiler) : s.next.ty = s.ty := by
  rw [Compiler.next]
  split <;> rfl

/-- The last word that has been emitted is replaced, and others follow. -/
theorem pushInstead {last : Word} (done : Compiled s s' tokens (words ++ [last])) :
    Compiled s s'.pushInstead tokens (words ++ [Op.PSH.code]) where
  sees := ⟨done.sees.tk, done.sees.rest, done.sees.ival, done.sees.id⟩
  e := by rw [Compiler.pushInstead, done.e, ← List.append_assoc, List.dropLast_concat, List.append_assoc]
  sym := done.sym
  loc := done.loc
  text := done.text

/-- A word that was left open is filled in. -/
theorem patch {front back : List Word} {op last : Word} {d : Nat}
    (done : Compiled s s' tokens (front ++ ([op, last] ++ back))) (place : d = s.e.length + front.length + 1)
    (word : Word) : Compiled s (s'.patch d word) tokens (front ++ ([op, word] ++ back)) where
  sees := ⟨done.sees.tk, done.sees.rest, done.sees.ival, done.sees.id⟩
  e := by
    have split : ∀ between : Word, s.e ++ (front ++ ([op, between] ++ back)) =
        (s.e ++ front ++ [op]) ++ (between :: back) := by
      intro between
      simp
    rw [Compiler.patch, done.e, split, split, List.set_append_right _ _ (by simp; omega)]
    have zero : d - (s.e ++ front ++ [op]).length = 0 := by
      simp
      omega
    rw [zero, List.set_cons_zero]
  sym := done.sym
  loc := done.loc
  text := done.text

theorem address (done : Compiled s s' tokens words) (index : Nat) : s'.address index = s.scope.address index := by
  rw [Compiler.address, done.text]
  rfl

/-- A jump that was left open goes to a place behind what has been emitted. -/
theorem patchAhead {front back : List Word} {op last : Word}
    (done : Compiled s s' tokens (front ++ ([op, last] ++ back))) (ahead : Nat) :
    Compiled s (s'.patch (s.e.length + front.length + 1) (s'.address (s'.e.length + ahead))) tokens
      (front ++ ([op, s.scope.address (s.e.length + front.length + 2 + back.length + ahead)] ++ back)) := by
  have target : s'.e.length + ahead = s.e.length + front.length + 2 + back.length + ahead := by
    rw [done.length]
    simp
    omega
  rw [done.address, target]
  exact done.patch rfl _

theorem last {last : Word} (done : Compiled s s' tokens (words ++ [last])) : s'.e.getLast? = some last := by
  rw [done.e, ← List.append_assoc, List.getLast?_concat]

theorem expect {tk : Nat} {message : String} (done : Compiled s s' (.sign tk :: tokens) words) :
    s'.expect tk message = .ok s'.next := by
  rw [Compiler.expect, if_pos (by rw [done.tk]; rfl)]

theorem loads {ty : Nat} (done : Compiled s s' tokens (words ++ [(loadOp ty).code])) : s'.Loads := by
  rw [Compiler.Loads, done.last, loadOp]
  split
  · exact Or.inl rfl
  · exact Or.inr rfl

theorem pushAndLoad {ty : Nat} {message : String} (done : Compiled s s' tokens (words ++ [(loadOp ty).code])) :
    s'.pushAndLoad message = .ok (s'.pushInstead.emit [(loadOp ty).code]) := by
  rw [Compiler.pushAndLoad, done.last, loadOp]
  split
  · rw [if_pos rfl]
  · rw [if_neg (by decide), if_pos rfl]

end Compiled

end Cc

end XinuStm32
