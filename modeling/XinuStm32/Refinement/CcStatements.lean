import XinuStm32.Refinement.CcExpressions

/-!
# The compiler reads statements

When the tokens of a statement come, `stmt` emits its code. An `if` without an `else` takes an `else` that comes next,
so none may come behind a statement that ends in one.
-/

namespace XinuStm32

namespace Cc

open Compiler

namespace Stmt

mutual

/-- The rounds that are enough to read a statement. -/
def cost : Stmt → Nat
  | cond c yes => c.cost + cost yes + 1
  | both c yes no => c.cost + cost yes + cost no + 1
  | loop c body => c.cost + cost body + 1
  | give t | expr t => t.cost + 1
  | leave | empty => 1
  | block body => costAll body + 1

def costAll : List Stmt → Nat
  | [] => 1
  | body :: rest => cost body + costAll rest + 1

end

attribute [local simp] cost costAll code codeAll

/-- The tokens that a statement starts with. -/
def starts : List Nat := [Tk.If, Tk.While, Tk.Return, chr '{', chr ';'] ++ Tree.starts

theorem headTk_tokens {scope : Scope} (keywords : Keywords scope.sym) (body : Stmt) (fits : body.Fits scope)
    (rest : List Token) : headTk scope.sym (body.tokens ++ rest) ∈ starts := by
  cases body with
  | cond c yes | both c yes no =>
    have found : (keyword Tk.If).tk scope.sym = Tk.If := keywords _ (by decide) (by decide)
    change (keyword Tk.If).tk scope.sym ∈ starts
    rw [found]
    decide
  | loop c body =>
    have found : (keyword Tk.While).tk scope.sym = Tk.While := keywords _ (by decide) (by decide)
    change (keyword Tk.While).tk scope.sym ∈ starts
    rw [found]
    decide
  | give t | leave =>
    have found : (keyword Tk.Return).tk scope.sym = Tk.Return := keywords _ (by decide) (by decide)
    change (keyword Tk.Return).tk scope.sym ∈ starts
    rw [found]
    decide
  | block body =>
    change chr '{' ∈ starts
    decide
  | empty =>
    change chr ';' ∈ starts
    decide
  | expr t =>
    rw [Fits] at fits
    rw [tokens, List.append_assoc]
    exact List.mem_append_right _ (Tree.headTk_tokens keywords t Tk.Assign fits _)

/-- The tokens of a statement are read, and its code is emitted. -/
def Reads (body : Stmt) : Prop :=
  ∀ {s s1 : Compiler} {rest : List Token} {words : List Word} {n : Nat} (i : Nat), Keywords s.sym →
    Compiled s s1 (body.tokens ++ rest) words → s.e.length + words.length = i → body.Fits s.scope →
    (body.Open → headTk s.sym rest ≠ Tk.Else) → body.cost ≤ n →
    ∃ s', stmt n s1 = .ok s' ∧ Compiled s s' rest (words ++ body.code s.scope i)

variable {s s1 : Compiler} {rest : List Token} {words : List Word} {n : Nat} {c t : Tree} {yes no body : Stmt}

/-- A condition in parentheses. -/
theorem reads_test (keywords : Keywords s.sym)
    (done : Compiled s s1 (.sign (chr '(') :: (c.tokens ++ .sign (chr ')') :: rest)) words) (i : Nat)
    (place : s.e.length + words.length = i) (fits : c.Fits s.scope Tk.Assign) (enough : c.cost ≤ n) :
    ∃ s', Compiler.expr n Tk.Assign s1.next = .ok s' ∧
      s'.expect (chr ')') "close paren expected" = .ok s'.next ∧
      Compiled s s'.next rest (words ++ c.code s.scope i) := by
  have closing := Tree.below_tight c fits (chr ')') (by decide)
  have noCall : chr ')' ≠ chr '(' := by decide
  obtain ⟨s', ran, compiled, -⟩ :=
    Tree.Reads.parsedAt (Tree.reads c) keywords done.next i place fits closing noCall enough
  exact ⟨s', ran, compiled.expect, compiled.next⟩

theorem reads_cond (taken : Reads yes) : Reads (cond c yes) := by
  intro s s1 rest words n i keywords done place fits apart enough
  obtain ⟨fitsTest, fitsTaken⟩ := fits
  rw [cost] at enough
  obtain ⟨n, rfl⟩ : ∃ left, n = left + 1 := ⟨n - 1, by omega⟩
  rw [tokens, List.cons_append, List.cons_append, List.append_assoc, List.cons_append] at done
  have tk : s1.tk = Tk.If := done.tk.trans (keywords _ (by decide) (by decide))
  obtain ⟨s2, ranTest, closed, compiledTest⟩ := reads_test keywords done.next i place fitsTest (n := n) (by omega)
  obtain ⟨s3, ranTaken, compiledTaken⟩ := taken (i + (c.code s.scope i).length + 2) keywords
    (compiledTest.emit [Op.BZ.code, 0]) (by simp; omega) fitsTaken (fun _ => apart trivial) (n := n) (by omega)
  have noElse : s3.tk ≠ Tk.Else := by
    rw [compiledTaken.tk]
    exact apart trivial
  rw [List.append_assoc] at compiledTaken
  have final := compiledTaken.patchAhead 0
  rw [← compiledTest.length] at final
  refine ⟨_, ?_, final.of_words ?_⟩
  · rw [stmt, if_pos tk, done.next.expect, ok_bind, ranTest, ok_bind, closed, ok_bind]
    dsimp only
    rw [ranTaken, ok_bind, if_neg noElse]
    rfl
  · rw [code, compiledTest.length, List.length_append, ← Nat.add_assoc, place, List.append_assoc]
    rfl

theorem reads_both (taken : Reads yes) (other : Reads no) : Reads (both c yes no) := by
  intro s s1 rest words n i keywords done place fits apart enough
  obtain ⟨fitsTest, fitsTaken, closedTaken, fitsOther⟩ := fits
  rw [cost] at enough
  obtain ⟨n, rfl⟩ : ∃ left, n = left + 1 := ⟨n - 1, by omega⟩
  rw [tokens, List.cons_append, List.cons_append, List.append_assoc, List.cons_append, List.append_assoc] at done
  have tk : s1.tk = Tk.If := done.tk.trans (keywords _ (by decide) (by decide))
  obtain ⟨s2, ranTest, closed, compiledTest⟩ := reads_test keywords done.next i place fitsTest (n := n) (by omega)
  obtain ⟨front, isFront⟩ : ∃ front, c.code s.scope i = front := ⟨_, rfl⟩
  obtain ⟨j, isStart⟩ : ∃ j, i + front.length + 2 = j := ⟨_, rfl⟩
  rw [isFront] at compiledTest
  obtain ⟨s3, ranTaken, compiledTaken⟩ := taken j keywords
    (compiledTest.emit [Op.BZ.code, 0]) (by simp; omega) fitsTaken (fun isOpen => absurd isOpen closedTaken) (n := n)
    (by omega)
  have isElse : s3.tk = Tk.Else := compiledTaken.tk.trans (keywords _ (by decide) (by decide))
  obtain ⟨middle, isMiddle⟩ : ∃ middle, yes.code s.scope j = middle := ⟨_, rfl⟩
  obtain ⟨k, isEnd⟩ : ∃ k, j + middle.length + 2 = k := ⟨_, rfl⟩
  rw [isMiddle, List.append_assoc] at compiledTaken
  -- where the code behind `else` begins is known now
  have patched := (compiledTaken.patchAhead 2).emit [Op.JMP.code, 0]
  have target : s.e.length + (words ++ front).length + 2 + middle.length + 2 = k := by
    simp
    omega
  rw [target, ← compiledTest.length] at patched
  obtain ⟨s4, ranOther, compiledOther⟩ := other k keywords patched.next (by simp; omega) fitsOther apart (n := n)
    (by omega)
  rw [List.append_assoc] at compiledOther
  have final := compiledOther.patchAhead 0
  have hole : s.e.length + (words ++ front ++ ([Op.BZ.code, s.scope.address k] ++ middle)).length + 1 = k - 1 := by
    simp
    omega
  have behind : s.e.length + (words ++ front ++ ([Op.BZ.code, s.scope.address k] ++ middle)).length + 2 = k := by omega
  rw [hole, behind] at final
  refine ⟨_, ?_, final.of_words ?_⟩
  · have open_ : ((s3.patch (s2.next.e.length + 1) (s3.address (s3.e.length + 2))).emit
        [Op.JMP.code, 0]).e.length - 1 = k - 1 := by
      rw [patched.length]
      simp
      omega
    rw [stmt, if_pos tk, done.next.expect, ok_bind, ranTest, ok_bind, closed, ok_bind]
    dsimp only
    rw [ranTaken, ok_bind, if_pos isElse, open_, ranOther]
    rfl
  · rw [code, isFront, isStart, isMiddle, isEnd]
    simp only [List.append_assoc, Nat.add_zero]

theorem reads_loop (again : Reads body) : Reads (loop c body) := by
  intro s s1 rest words n i keywords done place fits apart enough
  obtain ⟨fitsTest, fitsBody⟩ := fits
  rw [cost] at enough
  obtain ⟨n, rfl⟩ : ∃ left, n = left + 1 := ⟨n - 1, by omega⟩
  rw [tokens, List.cons_append, List.cons_append, List.append_assoc, List.cons_append] at done
  have tk : s1.tk = Tk.While := done.tk.trans (keywords _ (by decide) (by decide))
  obtain ⟨s2, ranTest, closed, compiledTest⟩ := reads_test keywords done.next i place fitsTest (n := n) (by omega)
  obtain ⟨s3, ranBody, compiledBody⟩ := again (i + (c.code s.scope i).length + 2) keywords
    (compiledTest.emit [Op.BZ.code, 0]) (by simp; omega) fitsBody apart (n := n) (by omega)
  have start : s1.next.address s1.next.e.length = s.scope.address i := by
    rw [done.next.address, done.next.length, place]
  have jumped := compiledBody.emit [Op.JMP.code, s1.next.address s1.next.e.length]
  rw [start, List.append_assoc, List.append_assoc] at jumped
  have final := jumped.patchAhead 0
  rw [← compiledTest.length] at final
  refine ⟨_, ?_, final.of_words ?_⟩
  · rw [stmt, if_neg (by rw [tk]; decide), if_pos tk]
    dsimp only
    rw [done.next.expect, ok_bind, ranTest, ok_bind, closed, ok_bind, ranBody, ok_bind, start]
    rfl
  · rw [code, compiledTest.length, List.length_append, ← Nat.add_assoc, place, List.append_assoc]
    simp [Nat.add_assoc]

theorem reads_give : Reads (give t) := by
  intro s s1 rest words n i keywords done place fits apart enough
  rw [cost] at enough
  obtain ⟨n, rfl⟩ : ∃ left, n = left + 1 := ⟨n - 1, by omega⟩
  rw [tokens, List.cons_append, List.append_assoc] at done
  have tk : s1.tk = Tk.Return := done.tk.trans (keywords _ (by decide) (by decide))
  have something : s1.next.tk ≠ chr ';' := by
    have never : chr ';' ∉ Tree.starts := by decide
    intro none
    rw [done.next.tk] at none
    have head := Tree.headTk_tokens keywords t Tk.Assign fits ([.sign (chr ';')] ++ rest)
    exact never (none ▸ head)
  have closing := Tree.below_tight t fits (chr ';') (by decide)
  have noCall : chr ';' ≠ chr '(' := by decide
  obtain ⟨s2, ran, compiled, -⟩ :=
    Tree.Reads.parsedAt (Tree.reads t) keywords done.next i place fits closing noCall (n := n) (by omega)
  have left := compiled.emit [Op.LEV.code]
  refine ⟨_, ?_, left.next.of_words ?_⟩
  · rw [stmt, if_neg (by rw [tk]; decide), if_neg (by rw [tk]; decide), if_pos tk]
    dsimp only
    rw [if_pos something, ran, ok_bind]
    exact left.expect
  · rw [code, List.append_assoc]

theorem reads_leave : Reads leave := by
  intro s s1 rest words n i keywords done place fits apart enough
  rw [cost] at enough
  obtain ⟨n, rfl⟩ : ∃ left, n = left + 1 := ⟨n - 1, by omega⟩
  have tk : s1.tk = Tk.Return := done.tk.trans (keywords _ (by decide) (by decide))
  have nothing : s1.next.tk = chr ';' := done.next.tk
  have left := done.next.emit [Op.LEV.code]
  refine ⟨_, ?_, left.next⟩
  rw [stmt, if_neg (by rw [tk]; decide), if_neg (by rw [tk]; decide), if_pos tk]
  dsimp only
  rw [if_neg (by rw [nothing]; simp)]
  exact left.expect

theorem reads_empty : Reads empty := by
  intro s s1 rest words n i keywords done place fits apart enough
  rw [cost] at enough
  obtain ⟨n, rfl⟩ : ∃ left, n = left + 1 := ⟨n - 1, by omega⟩
  have tk : s1.tk = chr ';' := done.tk
  refine ⟨_, ?_, done.next.of_words (List.append_nil _).symm⟩
  rw [stmt, tk]
  rfl

theorem reads_expr : Reads (expr t) := by
  intro s s1 rest words n i keywords done place fits apart enough
  rw [cost] at enough
  obtain ⟨n, rfl⟩ : ∃ left, n = left + 1 := ⟨n - 1, by omega⟩
  rw [tokens, List.append_assoc] at done
  have others : ∀ tk ∈ Tree.starts,
      tk ≠ Tk.If ∧ tk ≠ Tk.While ∧ tk ≠ Tk.Return ∧ tk ≠ chr '{' ∧ tk ≠ chr ';' := by decide
  have head := Tree.headTk_tokens keywords t Tk.Assign fits ([.sign (chr ';')] ++ rest)
  obtain ⟨notIf, notWhile, notReturn, notBlock, notEmpty⟩ := others _ head
  have tk : s1.tk = headTk s.scope.sym (t.tokens ++ ([.sign (chr ';')] ++ rest)) := done.tk
  have closing := Tree.below_tight t fits (chr ';') (by decide)
  have noCall : chr ';' ≠ chr '(' := by decide
  obtain ⟨s2, ran, compiled, -⟩ :=
    Tree.Reads.parsedAt (Tree.reads t) keywords done i place fits closing noCall (n := n) (by omega)
  refine ⟨_, ?_, compiled.next⟩
  rw [stmt, tk, if_neg notIf, if_neg notWhile, if_neg notReturn, if_neg notBlock, if_neg notEmpty, ran, ok_bind]
  exact compiled.expect

/-! ## Blocks -/

/-- Statements are read up to the brace. -/
def ReadsAll (bodies : List Stmt) : Prop :=
  ∀ {s s1 : Compiler} {rest : List Token} {words : List Word} {n : Nat} (i : Nat), Keywords s.sym →
    Compiled s s1 (tokensAll bodies ++ .sign (chr '}') :: rest) words → s.e.length + words.length = i →
    FitsAll s.scope bodies → costAll bodies ≤ n →
    ∃ s', statements n s1 = .ok s' ∧ Compiled s s' (.sign (chr '}') :: rest) (words ++ codeAll s.scope bodies i)

theorem readsAll_nil : ReadsAll [] := by
  intro s s1 rest words n i keywords done place fits enough
  rw [costAll] at enough
  obtain ⟨n, rfl⟩ : ∃ left, n = left + 1 := ⟨n - 1, by omega⟩
  have tk : s1.tk = chr '}' := done.tk
  rw [statements, if_pos tk]
  exact ⟨_, rfl, done.of_words (List.append_nil _).symm⟩

theorem readsAll_cons {bodies : List Stmt} (reads : Reads body) (readsAll : ReadsAll bodies) :
    ReadsAll (body :: bodies) := by
  intro s s1 rest words n i keywords done place fits enough
  obtain ⟨first, others⟩ := fits
  rw [costAll] at enough
  obtain ⟨n, rfl⟩ : ∃ left, n = left + 1 := ⟨n - 1, by omega⟩
  rw [tokensAll, List.append_assoc] at done
  have open_ : s1.tk ≠ chr '}' := by
    have never : chr '}' ∉ starts := by decide
    intro closed
    rw [done.tk] at closed
    have head := headTk_tokens keywords body first (tokensAll bodies ++ .sign (chr '}') :: rest)
    exact never (closed ▸ head)
  have noElse : headTk s.sym (tokensAll bodies ++ .sign (chr '}') :: rest) ≠ Tk.Else := by
    cases bodies with
    | nil =>
      change chr '}' ≠ Tk.Else
      decide
    | cons next bodies =>
      have never : Tk.Else ∉ starts := by decide
      intro isElse
      rw [tokensAll, List.append_assoc] at isElse
      have head := headTk_tokens keywords next others.1 (tokensAll bodies ++ .sign (chr '}') :: rest)
      exact never (isElse ▸ head)
  obtain ⟨s2, ran, compiled⟩ := reads i keywords done place first (fun _ => noElse) (n := n) (by omega)
  obtain ⟨s', ranAll, final⟩ := readsAll (i + (body.code s.scope i).length) keywords compiled (by simp; omega) others
    (n := n) (by omega)
  refine ⟨s', ?_, final.of_words ?_⟩
  · rw [statements, if_neg open_, ran, ok_bind, ranAll]
  · rw [codeAll, List.append_assoc]

theorem reads_block {bodies : List Stmt} (readsAll : ReadsAll bodies) : Reads (block bodies) := by
  intro s s1 rest words n i keywords done place fits apart enough
  rw [cost] at enough
  obtain ⟨n, rfl⟩ : ∃ left, n = left + 1 := ⟨n - 1, by omega⟩
  rw [tokens, List.cons_append, List.append_assoc] at done
  have tk : s1.tk = chr '{' := done.tk
  obtain ⟨s', ran, compiled⟩ := readsAll i keywords done.next place fits (n := n) (by omega)
  refine ⟨_, ?_, compiled.next⟩
  rw [stmt, tk]
  change (statements n s1.next >>= _) = _
  rw [ran]
  rfl

mutual

theorem reads : ∀ body : Stmt, Reads body
  | cond _ yes => reads_cond (reads yes)
  | both _ yes no => reads_both (reads yes) (reads no)
  | loop _ body => reads_loop (reads body)
  | give _ => reads_give
  | leave => reads_leave
  | block bodies => reads_block (readsAll bodies)
  | empty => reads_empty
  | expr _ => reads_expr

theorem readsAll : ∀ bodies : List Stmt, ReadsAll bodies
  | [] => readsAll_nil
  | body :: bodies => readsAll_cons (reads body) (readsAll bodies)

end

end Stmt

end Cc

end XinuStm32
