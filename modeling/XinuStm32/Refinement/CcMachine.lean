import XinuStm32.Abstract.CMeaning

/-!
# The machine runs code

The machine has the memory of a meaning, but for the stack, where it keeps values that wait for their operators. A
stretch of code is known by what it does from any state at its beginning: where the machine gets to, with which
accumulator and which memory, and how many words of the stack it takes for a while.
-/

namespace XinuStm32

namespace Cc

/-- Where the code is, and the part of the memory that the stack has. -/
structure Layout where
  setting : Setting
  words : List Word
  floor : Nat
  top : Nat
  code_lt : setting.scope.text.toNat + 4 * words.length < 2 ^ 32
  below : top ≤ setting.bp
  bp_lt : setting.bp + 8 < 2 ^ 32
  apart : setting.scope.text.toNat + 4 * words.length ≤ floor ∨ top ≤ setting.scope.text.toNat
  codeForeign : ∀ x, setting.scope.text.toNat ≤ x → x < setting.scope.text.toNat + 4 * words.length →
    setting.owns x = false
  stackForeign : ∀ x, floor ≤ x → x < top → setting.owns x = false

/-- Any number of rounds of the machine. -/
def Steps (printf : Memory → Nat → Word) : Machine → Machine → Prop :=
  Relation.ReflTransGen fun vm vm' => vm.step printf = .run vm'

namespace Layout

/-- The address of the word at an index. -/
def place (L : Layout) (i : Nat) : Nat := L.setting.scope.text.toNat + 4 * i

/-- The memory is that of the meaning, but for the stack, and the code is in it. -/
structure Holds (L : Layout) (m : Memory) (vm : Machine) : Prop where
  bp : vm.bp = L.setting.bp
  same : ∀ x, ¬(L.floor ≤ x ∧ x < L.top) → vm.memory x = m x
  code : ∀ i word, L.words[i]? = some word → loadInt vm.memory (L.place i) = word

/-- The word with an index is the next. -/
structure At (L : Layout) (i : Nat) (a : Word) (m : Memory) (vm : Machine) : Prop where
  pc : vm.pc = L.place i
  acc : vm.a = a
  holds : L.Holds m vm
  high : vm.sp ≤ L.top

/-- The machine gets from one state to another, and the stack is as it was. -/
structure Reaches (L : Layout) (printf : Memory → Nat → Word) (vm vm' : Machine) : Prop where
  steps : Steps printf vm vm'
  sp : vm'.sp = vm.sp
  stack : ∀ x, vm.sp ≤ x → x < L.top → vm'.memory x = vm.memory x

/-- From the word with an index to that with another, in at most so many words of stack. -/
def Runs (L : Layout) (printf : Memory → Nat → Word) (depth i : Nat) (a : Word) (m : Memory) (j : Nat) (v : Word)
    (m' : Memory) : Prop :=
  ∀ vm, L.At i a m vm → L.floor + 4 * depth ≤ vm.sp → ∃ vm', L.Reaches printf vm vm' ∧ L.At j v m' vm'

/-- The words are there from an index on. -/
def Emitted (L : Layout) (i : Nat) (code : List Word) : Prop :=
  ∃ front back, L.words = front ++ (code ++ back) ∧ front.length = i

variable {L : Layout} {printf : Memory → Nat → Word} {i j k d d' : Nat} {a v w x : Word} {m m₁ m₂ m' : Memory}
variable {vm vm' vm'' : Machine} {op : Op} {code more : List Word} {word : Word}

/-! ## Code -/

theorem Emitted.append (emitted : L.Emitted i (code ++ more)) :
    L.Emitted i code ∧ L.Emitted (i + code.length) more := by
  obtain ⟨front, back, whole, length⟩ := emitted
  refine ⟨⟨front, more ++ back, ?_, length⟩, ⟨front ++ code, back, ?_, ?_⟩⟩
  · rw [whole, List.append_assoc]
  · rw [whole, List.append_assoc, List.append_assoc]
  · rw [List.length_append, length]

theorem Emitted.cons (emitted : L.Emitted i (word :: code)) : L.words[i]? = some word ∧ L.Emitted (i + 1) code := by
  obtain ⟨front, back, whole, rfl⟩ := emitted
  refine ⟨?_, ⟨front ++ [word], back, ?_, by simp⟩⟩
  · rw [whole, List.cons_append, List.getElem?_append_right (Nat.le_refl _), Nat.sub_self, List.getElem?_cons_zero]
  · rw [whole, List.append_assoc]
    rfl

theorem Emitted.le (emitted : L.Emitted i code) : i + code.length ≤ L.words.length := by
  obtain ⟨front, back, whole, rfl⟩ := emitted
  rw [whole, List.length_append, List.length_append]
  omega

theorem index_lt (found : L.words[i]? = some word) : i < L.words.length := (List.getElem?_eq_some_iff.mp found).1

/-- Code does not reach the end of the addresses. -/
theorem address_toNat (inside : i ≤ L.words.length) : (L.setting.scope.address i).toNat = L.place i := by
  have high := L.code_lt
  rw [Scope.address, BitVec.toNat_add, BitVec.toNat_ofNat, place, Nat.mod_eq_of_lt (by omega : 4 * i < 2 ^ 32),
    Nat.mod_eq_of_lt (by omega)]

theorem place_succ (inside : i < L.words.length) : add32 (L.place i) 4 = L.place (i + 1) := by
  have high := L.code_lt
  rw [place, add32_of_lt (by omega), place]
  omega

/-! ## Memory -/

theorem loadInt_congr {m m' : Memory} {a : Nat} (same : ∀ x, a ≤ x → x < a + 4 → m' x = m x) :
    loadInt m' a = loadInt m a := by
  rw [loadInt, loadInt, Words.load_congr same]

theorem loadInt_storeInt (m : Memory) (a : Nat) (value : Word) : loadInt (storeInt a value m) a = value := by
  rw [loadInt, storeInt, Words.load_store value.isLt, BitVec.ofNat_toNat, BitVec.setWidth_eq]

/-- A word of the code lies outside the stack and is not the program's. -/
theorem code_foreign (found : L.words[i]? = some word) {x : Nat} (low : L.place i ≤ x) (high : x < L.place i + 4) :
    ¬(L.floor ≤ x ∧ x < L.top) ∧ L.setting.owns x = false := by
  have inside := index_lt found
  have apart := L.apart
  simp only [place] at low high
  refine ⟨by omega, L.codeForeign x (by omega) (by omega)⟩

/-- Other values in the stack. -/
theorem Holds.stacked (holds : L.Holds m vm) (bp : vm'.bp = vm.bp)
    (same : ∀ x, ¬(L.floor ≤ x ∧ x < L.top) → vm'.memory x = vm.memory x) : L.Holds m vm' where
  bp := bp.trans holds.bp
  same := fun x outside => (same x outside).trans (holds.same x outside)
  code := by
    intro i word found
    rw [← holds.code i word found]
    exact loadInt_congr fun x low high => same x (code_foreign found low high).1

/-- A byte of an object. -/
theorem owns_of_holds {f : Setting} {ty : Nat} {p : Word} (held : f.holds ty p = true) {x : Nat} (low : p.toNat ≤ x)
    (high : x < p.toNat + if ty = CHAR then 1 else 4) : f.owns x = true := by
  have all := List.all_eq_true.mp held (x - p.toNat) (List.mem_range.mpr (by omega))
  rwa [Nat.add_sub_cancel' low] at all

/-- What belongs to the program is not in the stack. -/
theorem owned_outside {x : Nat} (owned : L.setting.owns x = true) : ¬(L.floor ≤ x ∧ x < L.top) := by
  rintro ⟨low, high⟩
  rw [L.stackForeign x low high] at owned
  cases owned

/-- The machine loads what the meaning loads. -/
theorem Holds.load (holds : L.Holds m vm) {ty : Nat} {p : Word} (loads : L.setting.load ty p m = some v) :
    (if ty = CHAR then loadChar vm.memory p.toNat else loadInt vm.memory p.toNat) = v := by
  rw [Setting.load] at loads
  split at loads
  · next held =>
    rw [← Option.some.inj loads]
    split
    · next char =>
      rw [loadChar, loadChar, holds.same]
      exact owned_outside (owns_of_holds held (Nat.le_refl _) (by rw [if_pos char]; omega))
    · next int =>
      refine loadInt_congr fun x low high => holds.same x (owned_outside (owns_of_holds held low ?_))
      rw [if_neg int]
      exact high
  · cases loads

/-- The store of an instruction. -/
def stored (ty : Nat) (p v : Word) (memory : Memory) : Memory :=
  if ty = CHAR then storeChar p.toNat v memory else storeInt p.toNat v memory

theorem stored_outside {ty : Nat} {p : Word} {memory : Memory} {x : Nat}
    (outside : ¬(p.toNat ≤ x ∧ x < p.toNat + if ty = CHAR then 1 else 4)) : stored ty p v memory x = memory x := by
  rw [stored]
  split
  · next char =>
    rw [if_pos char] at outside
    exact Function.update_of_ne (by omega) _ _
  · next int =>
    rw [if_neg int] at outside
    exact Words.store_outside (by omega)

theorem stored_congr {ty : Nat} {p : Word} {memory memory' : Memory} {x : Nat} (same : memory' x = memory x) :
    stored ty p v memory' x = stored ty p v memory x := by
  rw [stored, stored]
  split
  · rw [storeChar, storeChar, Function.update_apply, Function.update_apply, same]
  · rw [storeInt, storeInt, Words.store, Words.store, same]

theorem store_some {f : Setting} {ty : Nat} {p : Word} (stores : f.store ty p v m = some (w, m')) :
    f.holds ty p = true ∧ m' = stored ty p v m ∧ w = if ty = CHAR then (v.setWidth 8).setWidth 32 else v := by
  rw [Setting.store] at stores
  split at stores
  · next held =>
    have both := Option.some.inj stores
    rw [stored]
    split
    · next char =>
      rw [if_pos char] at both
      exact ⟨held, (Prod.mk.inj both).2.symm, (Prod.mk.inj both).1.symm⟩
    · next int =>
      rw [if_neg int] at both
      exact ⟨held, (Prod.mk.inj both).2.symm, (Prod.mk.inj both).1.symm⟩
  · cases stores

/-- The machine stores what the meaning stores. -/
theorem Holds.store (holds : L.Holds m vm) {ty : Nat} {p : Word} (stores : L.setting.store ty p v m = some (w, m'))
    (bp : vm'.bp = vm.bp) (memory : vm'.memory = stored ty p v vm.memory) : L.Holds m' vm' := by
  obtain ⟨held, rfl, -⟩ := store_some stores
  constructor
  · exact bp.trans holds.bp
  · intro x outside
    rw [memory]
    exact stored_congr (holds.same x outside)
  · intro i word found
    rw [memory, ← holds.code i word found]
    apply loadInt_congr
    intro x low high
    apply stored_outside
    rintro ⟨first, last⟩
    have foreign := (code_foreign found low high).2
    rw [owns_of_holds held first last] at foreign
    cases foreign

/-! ## Stretches of code -/

theorem Reaches.refl (vm : Machine) : L.Reaches printf vm vm := ⟨.refl, rfl, fun _ _ _ => rfl⟩

theorem Reaches.trans (first : L.Reaches printf vm vm') (second : L.Reaches printf vm' vm'') :
    L.Reaches printf vm vm'' where
  steps := first.steps.trans second.steps
  sp := second.sp.trans first.sp
  stack := fun x low high => (second.stack x (by rw [first.sp]; exact low) high).trans (first.stack x low high)

theorem Runs.refl (i : Nat) (a : Word) (m : Memory) : L.Runs printf d i a m i a m :=
  fun vm ready _ => ⟨vm, .refl vm, ready⟩

/-- More room does no harm. -/
theorem Runs.mono (runs : L.Runs printf d i a m j v m') (more : d ≤ d') : L.Runs printf d' i a m j v m' :=
  fun vm ready room => runs vm ready (by omega)

theorem Runs.trans (first : L.Runs printf d i a m j v m₁) (second : L.Runs printf d j v m₁ k w m₂) :
    L.Runs printf d i a m k w m₂ := by
  intro vm ready room
  obtain ⟨vm', reaches, arrived⟩ := first vm ready room
  obtain ⟨vm'', reaches', arrived'⟩ := second vm' arrived (by rw [reaches.sp]; exact room)
  exact ⟨vm'', reaches.trans reaches', arrived'⟩

/-! ## Instructions -/

theorem At.operand (ready : L.At i a m vm) (found : L.words[i]? = some word) : vm.operand = word := by
  rw [Machine.operand, ready.pc]
  exact ready.holds.code i word found

theorem At.skip (ready : L.At i a m vm) (inside : i < L.words.length) : L.At (i + 1) a m vm.skip where
  pc := by rw [Machine.skip, ready.pc, place_succ inside]
  acc := ready.acc
  holds := ready.holds.stacked rfl fun _ _ => rfl
  high := ready.high

/-- The instruction that comes is carried out. -/
theorem At.step (printf : Memory → Nat → Word) (ready : L.At i a m vm) (found : L.words[i]? = some op.code) :
    vm.step printf = vm.skip.execute printf op := by
  rw [Machine.step, ready.operand found, Op.ofCode_code]

/-- An instruction that only moves on and changes the accumulator. -/
theorem runs_quiet (found : L.words[i]? = some op.code)
    (executes : ∀ vm, L.At (i + 1) a m vm → vm.execute printf op = .run { vm with pc := L.place j, a := v }) :
    L.Runs printf d i a m j v m := by
  intro vm ready _
  have step := ready.step printf found
  rw [executes _ (ready.skip (index_lt found))] at step
  refine ⟨_, ⟨.single step, rfl, fun _ _ _ => rfl⟩, rfl, rfl, ready.holds.stacked rfl fun _ _ => rfl, ready.high⟩

theorem runs_imm (emitted : L.Emitted i [Op.IMM.code, word]) : L.Runs printf d i a m (i + 2) word m := by
  obtain ⟨found, emitted⟩ := emitted.cons
  obtain ⟨operand, -⟩ := emitted.cons
  apply runs_quiet found
  intro vm ready
  rw [Machine.execute, ready.operand operand, Machine.skip, ready.pc, place_succ (index_lt operand)]

theorem runs_lea (emitted : L.Emitted i [Op.LEA.code, word]) :
    L.Runs printf d i a m (i + 2) (BitVec.ofNat 32 L.setting.bp + 4 * word) m := by
  obtain ⟨found, emitted⟩ := emitted.cons
  obtain ⟨operand, -⟩ := emitted.cons
  apply runs_quiet found
  intro vm ready
  rw [Machine.execute, ready.operand operand, Machine.skip, ready.pc, place_succ (index_lt operand), ready.holds.bp]

theorem runs_load {ty : Nat} (found : L.words[i]? = some (Compiler.loadOp ty).code)
    (loads : L.setting.load ty a m = some v) : L.Runs printf d i a m (i + 1) v m := by
  apply runs_quiet found
  intro vm ready
  have value := ready.holds.load loads
  rw [← ready.pc, ← value, ← ready.acc, Compiler.loadOp]
  split
  · rfl
  · rfl

theorem runs_jmp (emitted : L.Emitted i [Op.JMP.code, L.setting.scope.address j]) (inside : j ≤ L.words.length) :
    L.Runs printf d i a m j a m := by
  obtain ⟨found, emitted⟩ := emitted.cons
  obtain ⟨operand, -⟩ := emitted.cons
  apply runs_quiet found
  intro vm ready
  rw [Machine.execute, ready.operand operand, address_toNat inside, ← ready.acc]

theorem runs_bz (emitted : L.Emitted i [Op.BZ.code, L.setting.scope.address j]) (inside : j ≤ L.words.length) :
    L.Runs printf d i a m (if a = 0 then j else i + 2) a m := by
  obtain ⟨found, emitted⟩ := emitted.cons
  obtain ⟨operand, -⟩ := emitted.cons
  apply runs_quiet found
  intro vm ready
  rw [Machine.execute, ready.operand operand, address_toNat inside, ready.acc]
  by_cases zero : a = 0
  · rw [if_neg (not_not.mpr zero), if_pos zero, ← ready.acc]
  · rw [if_pos zero, if_neg zero, Machine.skip, ready.pc, place_succ (index_lt operand), ← ready.acc]

theorem runs_bnz (emitted : L.Emitted i [Op.BNZ.code, L.setting.scope.address j]) (inside : j ≤ L.words.length) :
    L.Runs printf d i a m (if a = 0 then i + 2 else j) a m := by
  obtain ⟨found, emitted⟩ := emitted.cons
  obtain ⟨operand, -⟩ := emitted.cons
  apply runs_quiet found
  intro vm ready
  rw [Machine.execute, ready.operand operand, address_toNat inside, ready.acc]
  by_cases zero : a = 0
  · rw [if_neg (not_not.mpr zero), if_pos zero, Machine.skip, ready.pc, place_succ (index_lt operand), ← ready.acc]
  · rw [if_pos zero, if_neg zero, ← ready.acc]

/-! ## Values that wait on the stack -/

/-- A value waits on the stack while another has come into the accumulator. -/
structure Waits (L : Layout) (printf : Memory → Nat → Word) (v : Word) (k : Nat) (w : Word) (m : Memory)
    (vm vm' : Machine) : Prop where
  steps : Steps printf vm vm'
  ready : L.At k w m vm'
  sp : vm'.sp + 4 = vm.sp
  cell : loadInt vm'.memory vm'.sp = v
  stack : ∀ x, vm.sp ≤ x → x < L.top → vm'.memory x = vm.memory x

theorem Runs.waits (left : L.Runs printf d i a m j v m₁) (push : L.words[j]? = some Op.PSH.code)
    (right : L.Runs printf d (j + 1) v m₁ k w m₂) (ready : L.At i a m vm) (room : L.floor + 4 * (d + 1) ≤ vm.sp) :
    ∃ vm', L.Waits printf v k w m₂ vm vm' := by
  have bounds : L.top < 2 ^ 32 := Nat.lt_of_le_of_lt L.below (by have := L.bp_lt; omega)
  have high := ready.high
  obtain ⟨vm₁, reaches, arrived⟩ := left vm ready (by omega)
  have step := arrived.step printf push
  have sp : vm₁.sp = vm.sp := reaches.sp
  have lower : sub32 vm₁.sp 4 = vm.sp - 4 := by rw [sp, sub32_of_le (by omega) (by omega)]
  have pushed : L.At (j + 1) v m₁ (vm₁.skip.push vm₁.skip.a) := by
    have next := arrived.skip (index_lt push)
    refine ⟨next.pc, next.acc, next.holds.stacked rfl fun x outside => ?_, ?_⟩
    · apply Words.store_outside
      change x < sub32 vm₁.sp 4 ∨ sub32 vm₁.sp 4 + 4 ≤ x
      omega
    · change sub32 vm₁.sp 4 ≤ L.top
      omega
  obtain ⟨vm', reaches', arrived'⟩ := right _ pushed (by change _ ≤ sub32 vm₁.sp 4; omega)
  have lowered : vm'.sp = vm.sp - 4 := reaches'.sp.trans lower
  have stack := reaches'.stack
  change ∀ x, sub32 vm₁.sp 4 ≤ x → x < L.top → vm'.memory x = storeInt (sub32 vm₁.sp 4) vm₁.a vm₁.memory x at stack
  rw [lower] at stack
  refine ⟨vm', (reaches.steps.tail step).trans reaches'.steps, arrived', by omega, ?_, fun x low below => ?_⟩
  · rw [lowered, loadInt_congr fun x low below => stack x low (by omega), loadInt_storeInt, arrived.acc]
  · rw [stack x (by omega) below, storeInt, Words.store_outside (by omega), reaches.stack x low below]

theorem apply_execute (applied : op.apply (loadInt vm.memory vm.sp) vm.a = some x) :
    vm.execute printf op = .run { vm with sp := add32 vm.sp 4, a := x } := by
  cases op with
  | OR | XOR | AND | EQ | NE | LT | GT | LE | GE | SHL | SHR | ADD | SUB | MUL | DIV | MOD =>
    simp only [Machine.execute, Machine.pop, applied]
  | _ => cases applied

/-- An operator takes the value that waits. -/
theorem Runs.operate (left : L.Runs printf d i a m j v m₁) (push : L.words[j]? = some Op.PSH.code)
    (right : L.Runs printf d (j + 1) v m₁ k w m₂) (found : L.words[k]? = some op.code)
    (applied : op.apply v w = some x) : L.Runs printf (d + 1) i a m (k + 1) x m₂ := by
  intro vm ready room
  have bounds : L.top < 2 ^ 32 := Nat.lt_of_le_of_lt L.below (by have := L.bp_lt; omega)
  have high := ready.high
  obtain ⟨vm', waits⟩ := left.waits push right ready room
  have next := waits.ready.skip (index_lt found)
  have step := waits.ready.step printf found
  have back : add32 vm'.sp 4 = vm.sp := by
    have sp := waits.sp
    rw [add32_of_lt (by omega)]
    exact sp
  rw [apply_execute (x := x) (by rw [next.acc]; exact waits.cell.symm ▸ applied)] at step
  refine ⟨_, ⟨waits.steps.tail step, back, waits.stack⟩, next.pc, rfl, next.holds.stacked rfl fun _ _ => rfl, ?_⟩
  change add32 vm'.sp 4 ≤ L.top
  omega

/-- A store takes the place that waits. -/
theorem Runs.store {ty : Nat} (left : L.Runs printf d i a m j v m₁) (push : L.words[j]? = some Op.PSH.code)
    (right : L.Runs printf d (j + 1) v m₁ k w m₂) (found : L.words[k]? = some (Compiler.storeOp ty).code)
    (stores : L.setting.store ty v w m₂ = some (x, m')) : L.Runs printf (d + 1) i a m (k + 1) x m' := by
  intro vm ready room
  have bounds : L.top < 2 ^ 32 := Nat.lt_of_le_of_lt L.below (by have := L.bp_lt; omega)
  have high := ready.high
  obtain ⟨vm', waits⟩ := left.waits push right ready room
  have next := waits.ready.skip (index_lt found)
  have step := waits.ready.step printf found
  have back : add32 vm'.sp 4 = vm.sp := by
    have sp := waits.sp
    rw [add32_of_lt (by omega)]
    exact sp
  obtain ⟨held, -, value⟩ := store_some stores
  have executes : vm'.skip.execute printf (Compiler.storeOp ty) =
      .run { vm'.skip with sp := add32 vm'.sp 4, a := x, memory := stored ty v w vm'.memory } := by
    have acc : vm'.skip.a = w := next.acc
    have cell : loadInt vm'.skip.memory vm'.skip.sp = v := waits.cell
    rw [Compiler.storeOp, stored, value]
    split
    · simp only [Machine.execute, Machine.pop, cell, acc]
      rfl
    · simp only [Machine.execute, Machine.pop, cell, ← acc]
      rfl
  rw [executes] at step
  refine ⟨_, ⟨waits.steps.tail step, back, fun x low below => ?_⟩, next.pc, rfl, next.holds.store stores rfl rfl, ?_⟩
  · rw [← waits.stack x low below]
    apply stored_outside
    rintro ⟨first, last⟩
    have foreign := owned_outside (owns_of_holds held first last)
    omega
  · change add32 vm'.sp 4 ≤ L.top
    omega

end Layout

end Cc

end XinuStm32
