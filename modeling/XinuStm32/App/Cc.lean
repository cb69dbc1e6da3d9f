import XinuStm32.Kernel.Tables
import XinuStm32.Lib.Words

/-!
# The compiler of the shell, `cc.c`

A program is read token by token and turned into words of code in one pass, which a machine with one accumulator then
runs. The tokens are those that `next` finds in the text: each carries what `next` stores with it and the line that is
counted when it is found. While code is emitted it is a list, in which a word is known by its index.
-/

namespace XinuStm32

namespace Cc

abbrev Word := BitVec 32

/-! ## Tokens -/

namespace Tk

abbrev Num : Nat := 128
abbrev Fun : Nat := 129
abbrev Sys : Nat := 130
abbrev Glo : Nat := 131
abbrev Loc : Nat := 132
abbrev Id : Nat := 133
abbrev Char : Nat := 134
abbrev Else : Nat := 135
abbrev Enum : Nat := 136
abbrev If : Nat := 137
abbrev Int : Nat := 138
abbrev Return : Nat := 139
abbrev Sizeof : Nat := 140
abbrev While : Nat := 141
abbrev Assign : Nat := 142
abbrev Cond : Nat := 143
abbrev Lor : Nat := 144
abbrev Lan : Nat := 145
abbrev Or : Nat := 146
abbrev Xor : Nat := 147
abbrev And : Nat := 148
abbrev Eq : Nat := 149
abbrev Ne : Nat := 150
abbrev Lt : Nat := 151
abbrev Gt : Nat := 152
abbrev Le : Nat := 153
abbrev Ge : Nat := 154
abbrev Shl : Nat := 155
abbrev Shr : Nat := 156
abbrev Add : Nat := 157
abbrev Sub : Nat := 158
abbrev Mul : Nat := 159
abbrev Div : Nat := 160
abbrev Mod : Nat := 161
abbrev Inc : Nat := 162
abbrev Dec : Nat := 163
abbrev Brak : Nat := 164

end Tk

/-- A token that is a single character. -/
abbrev chr (c : Char) : Nat := c.toNat

abbrev CHAR : Nat := 0
abbrev INT : Nat := 1
abbrev PTR : Nat := 2

/-! ## Instructions -/

inductive Op where
  | LEA | IMM | JMP | JSR | BZ | BNZ | ENT | ADJ | LEV | LI | LC | SI | SC | PSH | OR | XOR | AND
  | EQ | NE | LT | GT | LE | GE | SHL | SHR | ADD | SUB | MUL | DIV | MOD | OPEN | READ | CLOS
  | PRTF | MALC | EXIT
deriving DecidableEq

namespace Op

/-- The number of an instruction. -/
def code : Op → Word
  | .LEA => 0
  | .IMM => 1
  | .JMP => 2
  | .JSR => 3
  | .BZ => 4
  | .BNZ => 5
  | .ENT => 6
  | .ADJ => 7
  | .LEV => 8
  | .LI => 9
  | .LC => 10
  | .SI => 11
  | .SC => 12
  | .PSH => 13
  | .OR => 14
  | .XOR => 15
  | .AND => 16
  | .EQ => 17
  | .NE => 18
  | .LT => 19
  | .GT => 20
  | .LE => 21
  | .GE => 22
  | .SHL => 23
  | .SHR => 24
  | .ADD => 25
  | .SUB => 26
  | .MUL => 27
  | .DIV => 28
  | .MOD => 29
  | .OPEN => 30
  | .READ => 31
  | .CLOS => 32
  | .PRTF => 33
  | .MALC => 34
  | .EXIT => 35

def all : List Op :=
  [.LEA, .IMM, .JMP, .JSR, .BZ, .BNZ, .ENT, .ADJ, .LEV, .LI, .LC, .SI, .SC, .PSH, .OR, .XOR, .AND, .EQ, .NE,
   .LT, .GT, .LE, .GE, .SHL, .SHR, .ADD, .SUB, .MUL, .DIV, .MOD, .OPEN, .READ, .CLOS, .PRTF, .MALC, .EXIT]

/-- The instruction with a number. -/
def ofCode (word : Word) : Option Op := all[word.toNat]?

@[simp]
theorem ofCode_code (op : Op) : ofCode op.code = some op := by
  cases op <;> rfl

end Op

/-! ## What the compiler knows -/

/-- `sym[Tk]` to `sym[HVal]`, but for the name and its hash, which `next` alone looks at. -/
structure Ident where
  tk : Nat
  cls : Nat
  type : Nat
  val : Word
  hClass : Nat
  hType : Nat
  hVal : Word

/-- A token as `next` finds it: a number or character, a string, an identifier by its place in `sym`, anything else. -/
inductive Token where
  | num (value : Word)
  | str (bytes : List UInt8)
  | ident (id : Nat)
  | sign (tk : Nat)

structure Lexeme where
  line : Nat
  token : Token

structure Compiler where
  rest : List Lexeme
  tk : Nat
  ival : Word
  id : Nat
  line : Nat
  /-- What has been emitted, from `text` on. -/
  e : List Word
  text : Word
  ty : Nat
  loc : Word
  sym : Nat → Ident
  data : Nat
  memory : Nat → UInt8

/-- Why there is no code: a message and `exit`, or rounds that were too few. -/
inductive Stop where
  | exit (line : Nat) (message : String)
  | rounds
deriving DecidableEq

abbrev Result := Except Stop Compiler

/-- `*data++ = ival`, for each byte of a string. -/
def storeString : List UInt8 → Nat → (Nat → UInt8) → Nat → UInt8
  | [], _, memory => memory
  | byte :: bytes, data, memory => storeString bytes (data + 1) (Function.update memory data byte)

namespace Compiler

/-- The token of an identifier is a keyword or `Id`. -/
def next (s : Compiler) : Compiler :=
  match s.rest with
  | [] => { s with tk := 0 }
  | ⟨line, .num value⟩ :: rest => { s with rest := rest, line := line, tk := Tk.Num, ival := value }
  | ⟨line, .str bytes⟩ :: rest =>
    { s with
      rest := rest
      line := line
      tk := chr '"'
      ival := BitVec.ofNat 32 s.data
      data := s.data + bytes.length
      memory := storeString bytes s.data s.memory }
  | ⟨line, .ident id⟩ :: rest => { s with rest := rest, line := line, tk := (s.sym id).tk, id := id }
  | ⟨line, .sign tk⟩ :: rest => { s with rest := rest, line := line, tk := tk }

/-- `*++e = word`, for each of them. -/
def emit (words : List Word) (s : Compiler) : Compiler := { s with e := s.e ++ words }

/-- The address of the word at an index. -/
def address (index : Nat) (s : Compiler) : Word := s.text + BitVec.ofNat 32 (4 * index)

/-- `*d = word`. -/
def patch (d : Nat) (word : Word) (s : Compiler) : Compiler := { s with e := s.e.set d word }

def setType (ty : Nat) (s : Compiler) : Compiler := { s with ty := ty }

def fail (message : String) (s : Compiler) : Result := .error (.exit s.line message)

/-- A token that has to come. -/
def expect (tk : Nat) (message : String) (s : Compiler) : Result :=
  if s.tk = tk then .ok s.next else s.fail message

/-- `*e == LC || *e == LI`. -/
def Loads (s : Compiler) : Prop := s.e.getLast? = some Op.LC.code ∨ s.e.getLast? = some Op.LI.code

instance (s : Compiler) : Decidable s.Loads := inferInstanceAs (Decidable (_ ∨ _))

/-- `*e = PSH`. -/
def pushInstead (s : Compiler) : Compiler := { s with e := s.e.dropLast ++ [Op.PSH.code] }

/-- `*e = PSH` and the load again. -/
def pushAndLoad (message : String) (s : Compiler) : Result :=
  if s.e.getLast? = some Op.LC.code then .ok (s.pushInstead.emit [Op.LC.code])
  else if s.e.getLast? = some Op.LI.code then .ok (s.pushInstead.emit [Op.LI.code])
  else s.fail message

def loadOp (ty : Nat) : Op := if ty = CHAR then .LC else .LI

def storeOp (ty : Nat) : Op := if ty = CHAR then .SC else .SI

/-- What `++` adds. -/
def unit (ty : Nat) : Word := if ty > PTR then 4 else 1

/-- `while (tk == Mul) { next(); ty = ty + PTR; }`, for any variable. -/
def stars : Nat → Nat → Compiler → Nat × Compiler
  | 0, ty, s => (ty, s)
  | rounds + 1, ty, s => if s.tk = Tk.Mul then stars rounds (ty + PTR) s.next else (ty, s)

/-- `while (tk == '"') next();`. -/
def strings : Nat → Compiler → Compiler
  | 0, s => s
  | rounds + 1, s => if s.tk = chr '"' then strings rounds s.next else s

/-! ## Expressions -/

/-- The arguments of a call, with `expr` for each of them. -/
def arguments (expr : Nat → Compiler → Result) : Nat → Nat → Compiler → Except Stop (Nat × Compiler)
  | 0, _, _ => .error .rounds
  | rounds + 1, t, s =>
    if s.tk = chr ')' then .ok (t, s)
    else do
      let s ← expr Tk.Assign s
      let s := s.emit [Op.PSH.code]
      arguments expr rounds (t + 1) (if s.tk = chr ',' then s.next else s)

/-- The identifier `d`, which is a call, a constant or a variable. -/
def identifier (expr : Nat → Compiler → Result) (d : Ident) (s : Compiler) : Result :=
  if s.tk = chr '(' then do
    let s := s.next
    let (t, s) ← arguments expr (s.rest.length + 2) 0 s
    let s := s.next
    let s ←
      if d.cls = Tk.Sys then .ok (s.emit [d.val])
      else if d.cls = Tk.Fun then .ok (s.emit [Op.JSR.code, d.val])
      else s.fail "bad function call"
    let s := if t ≠ 0 then s.emit [Op.ADJ.code, BitVec.ofNat 32 t] else s
    .ok (s.setType d.type)
  else if d.cls = Tk.Num then .ok ((s.emit [Op.IMM.code, d.val]).setType INT)
  else do
    let s ←
      if d.cls = Tk.Loc then .ok (s.emit [Op.LEA.code, s.loc - d.val])
      else if d.cls = Tk.Glo then .ok (s.emit [Op.IMM.code, d.val])
      else s.fail "undefined variable"
    .ok ((s.emit [(loadOp d.type).code]).setType d.type)

/-- What is in parentheses is a type, and then a cast, or an expression. -/
def parenthesis (expr : Nat → Compiler → Result) (s : Compiler) : Result :=
  if s.tk = Tk.Int ∨ s.tk = Tk.Char then do
    let t := if s.tk = Tk.Int then INT else CHAR
    let s := s.next
    let (t, s) := stars (s.rest.length + 1) t s
    let s ← s.expect (chr ')') "bad cast"
    let s ← expr Tk.Inc s
    .ok (s.setType t)
  else do
    let s ← expr Tk.Assign s
    s.expect (chr ')') "close paren expected"

/-- The first part of `expr`, up to the operators. -/
def primary (expr : Nat → Compiler → Result) (s : Compiler) : Result :=
  if s.tk = 0 then s.fail "unexpected eof in expression"
  else if s.tk = Tk.Num then .ok ((s.emit [Op.IMM.code, s.ival]).next.setType INT)
  else if s.tk = chr '"' then
    let s := (s.emit [Op.IMM.code, s.ival]).next
    let s := strings (s.rest.length + 1) s
    .ok { s with data := (s.data + 4) / 4 * 4, ty := PTR }
  else if s.tk = Tk.Sizeof then do
    let s ← s.next.expect (chr '(') "open paren expected in sizeof"
    let (ty, s) := if s.tk = Tk.Int then (INT, s.next) else if s.tk = Tk.Char then (CHAR, s.next) else (INT, s)
    let (ty, s) := stars (s.rest.length + 1) ty s
    let s ← s.expect (chr ')') "close paren expected in sizeof"
    .ok ((s.emit [Op.IMM.code, if ty = CHAR then 1 else 4]).setType INT)
  else if s.tk = Tk.Id then identifier expr (s.sym s.id) s.next
  else if s.tk = chr '(' then parenthesis expr s.next
  else if s.tk = Tk.Mul then do
    let s ← expr Tk.Inc s.next
    if s.ty > INT then
      let s := s.setType (s.ty - PTR)
      .ok (s.emit [(loadOp s.ty).code])
    else s.fail "bad dereference"
  else if s.tk = Tk.And then do
    let s ← expr Tk.Inc s.next
    if s.Loads then .ok { s with e := s.e.dropLast, ty := s.ty + PTR } else s.fail "bad address-of"
  else if s.tk = chr '!' then do
    let s ← expr Tk.Inc s.next
    .ok ((s.emit [Op.PSH.code, Op.IMM.code, 0, Op.EQ.code]).setType INT)
  else if s.tk = chr '~' then do
    let s ← expr Tk.Inc s.next
    .ok ((s.emit [Op.PSH.code, Op.IMM.code, -1, Op.XOR.code]).setType INT)
  else if s.tk = Tk.Add then do
    let s ← expr Tk.Inc s.next
    .ok (s.setType INT)
  else if s.tk = Tk.Sub then do
    let s := s.next.emit [Op.IMM.code]
    if s.tk = Tk.Num then .ok ((s.emit [-s.ival]).next.setType INT)
    else
      let s ← expr Tk.Inc (s.emit [-1, Op.PSH.code])
      .ok ((s.emit [Op.MUL.code]).setType INT)
  else if s.tk = Tk.Inc ∨ s.tk = Tk.Dec then do
    let t := s.tk
    let s ← expr Tk.Inc s.next
    let s ← s.pushAndLoad "bad lvalue in pre-increment"
    .ok (s.emit [Op.PSH.code, Op.IMM.code, unit s.ty, (if t = Tk.Inc then Op.ADD else Op.SUB).code,
      (storeOp s.ty).code])
  else s.fail "bad expression"

/-- The operators that only differ in the level of the operand behind them and in their instruction. -/
def operators : List (Nat × Nat × Op) :=
  [(Tk.Or, Tk.Xor, .OR), (Tk.Xor, Tk.And, .XOR), (Tk.And, Tk.Eq, .AND), (Tk.Eq, Tk.Lt, .EQ), (Tk.Ne, Tk.Lt, .NE),
   (Tk.Lt, Tk.Shl, .LT), (Tk.Gt, Tk.Shl, .GT), (Tk.Le, Tk.Shl, .LE), (Tk.Ge, Tk.Shl, .GE), (Tk.Shl, Tk.Add, .SHL),
   (Tk.Shr, Tk.Add, .SHR), (Tk.Mul, Tk.Inc, .MUL), (Tk.Div, Tk.Inc, .DIV), (Tk.Mod, Tk.Inc, .MOD)]

def binary (tk : Nat) : Option (Nat × Op) := (operators.find? fun found => found.1 == tk).map Prod.snd

/-- What is added to a pointer is scaled. -/
def scale (t : Nat) : List Word := if t > PTR then [Op.PSH.code, Op.IMM.code, 4, Op.MUL.code] else []

/-- A round of the loop of `expr`, for the operator that has come. -/
def operator (expr : Nat → Compiler → Result) (s : Compiler) : Result :=
  let t := s.ty
  if s.tk = Tk.Assign then do
    let s := s.next
    if s.Loads then
      let s ← expr Tk.Assign s.pushInstead
      .ok ((s.emit [(storeOp t).code]).setType t)
    else s.fail "bad lvalue in assignment"
  else if s.tk = Tk.Cond then do
    let d := s.e.length + 1
    let s ← expr Tk.Assign (s.next.emit [Op.BZ.code, 0])
    let s ← s.expect (chr ':') "conditional missing colon"
    let s := (s.patch d (s.address (s.e.length + 2))).emit [Op.JMP.code, 0]
    let d := s.e.length - 1
    let s ← expr Tk.Cond s
    .ok (s.patch d (s.address s.e.length))
  else if s.tk = Tk.Lor then do
    let d := s.e.length + 1
    let s ← expr Tk.Lan (s.next.emit [Op.BNZ.code, 0])
    .ok ((s.patch d (s.address s.e.length)).setType INT)
  else if s.tk = Tk.Lan then do
    let d := s.e.length + 1
    let s ← expr Tk.Or (s.next.emit [Op.BZ.code, 0])
    .ok ((s.patch d (s.address s.e.length)).setType INT)
  else if s.tk = Tk.Add ∨ s.tk = Tk.Sub then do
    let op : Op := if s.tk = Tk.Add then .ADD else .SUB
    let s ← expr Tk.Mul (s.next.emit [Op.PSH.code])
    .ok (((s.emit (scale t)).emit [op.code]).setType t)
  else if s.tk = Tk.Inc ∨ s.tk = Tk.Dec then do
    let s ← s.pushAndLoad "bad lvalue in post-increment"
    let forth : Op := if s.tk = Tk.Inc then .ADD else .SUB
    let back : Op := if s.tk = Tk.Inc then .SUB else .ADD
    .ok (s.emit [Op.PSH.code, Op.IMM.code, unit s.ty, forth.code, (storeOp s.ty).code,
      Op.PSH.code, Op.IMM.code, unit s.ty, back.code]).next
  else if s.tk = Tk.Brak then do
    let s ← expr Tk.Assign (s.next.emit [Op.PSH.code])
    let s ← s.expect (chr ']') "close bracket expected"
    if t < PTR then s.fail "pointer type expected"
    else .ok (((s.emit (scale t)).emit [Op.ADD.code, (loadOp (t - PTR)).code]).setType (t - PTR))
  else
    match binary s.tk with
    | some (level, op) => do
      let s ← expr level (s.next.emit [Op.PSH.code])
      .ok ((s.emit [op.code]).setType INT)
    | none => s.fail ("compiler error tk=" ++ toString s.tk)

mutual

/-- `expr`, with rounds for its calls and its loop. -/
def expr : Nat → Nat → Compiler → Result
  | 0, _, _ => .error .rounds
  | rounds + 1, lev, s => do
    let s ← primary (expr rounds) s
    climb rounds lev s

/-- The loop of `expr`, by precedence climbing. -/
def climb : Nat → Nat → Compiler → Result
  | 0, _, _ => .error .rounds
  | rounds + 1, lev, s =>
    if s.tk ≥ lev then do
      let s ← operator (expr rounds) s
      climb rounds lev s
    else .ok s

end

/-! ## Statements -/

mutual

def stmt : Nat → Compiler → Result
  | 0, _ => .error .rounds
  | rounds + 1, s =>
    if s.tk = Tk.If then do
      let s ← s.next.expect (chr '(') "open paren expected"
      let s ← expr rounds Tk.Assign s
      let s ← s.expect (chr ')') "close paren expected"
      let b := s.e.length + 1
      let s ← stmt rounds (s.emit [Op.BZ.code, 0])
      if s.tk = Tk.Else then
        let s := (s.patch b (s.address (s.e.length + 2))).emit [Op.JMP.code, 0]
        let b := s.e.length - 1
        let s ← stmt rounds s.next
        .ok (s.patch b (s.address s.e.length))
      else .ok (s.patch b (s.address s.e.length))
    else if s.tk = Tk.While then do
      let s := s.next
      let a := s.address s.e.length
      let s ← s.expect (chr '(') "open paren expected"
      let s ← expr rounds Tk.Assign s
      let s ← s.expect (chr ')') "close paren expected"
      let b := s.e.length + 1
      let s ← stmt rounds (s.emit [Op.BZ.code, 0])
      let s := s.emit [Op.JMP.code, a]
      .ok (s.patch b (s.address s.e.length))
    else if s.tk = Tk.Return then do
      let s := s.next
      let s ← if s.tk ≠ chr ';' then expr rounds Tk.Assign s else .ok s
      (s.emit [Op.LEV.code]).expect (chr ';') "semicolon expected"
    else if s.tk = chr '{' then do
      let s ← statements rounds s.next
      .ok s.next
    else if s.tk = chr ';' then .ok s.next
    else do
      let s ← expr rounds Tk.Assign s
      s.expect (chr ';') "semicolon expected"

/-- `while (tk != '}') stmt();`. -/
def statements : Nat → Compiler → Result
  | 0, _ => .error .rounds
  | rounds + 1, s =>
    if s.tk = chr '}' then .ok s
    else do
      let s ← stmt rounds s
      statements rounds s

end

end Compiler

/-! ## The machine -/

/-- The registers of the machine and the memory, which holds the code as well as the data and the stack. -/
structure Machine where
  pc : Nat
  sp : Nat
  bp : Nat
  a : Word
  memory : Nat → UInt8

/-- What an instruction comes to. C says nothing about a division by zero and a shift by the width of a word. -/
inductive Outcome where
  | run (vm : Machine)
  | exit (value : Word)
  | undefined

/-- `*(int *)a`. -/
def loadInt (memory : Nat → UInt8) (a : Nat) : Word := BitVec.ofNat 32 (Words.load memory a)

/-- `*(int *)a = value`. -/
def storeInt (a : Nat) (value : Word) (memory : Nat → UInt8) : Nat → UInt8 := Words.store a value.toNat memory

/-- `*(char *)a`, which has no sign. -/
def loadChar (memory : Nat → UInt8) (a : Nat) : Word := (memory a).toBitVec.setWidth 32

/-- `*(char *)a = value`. -/
def storeChar (a : Nat) (value : Word) (memory : Nat → UInt8) : Nat → UInt8 :=
  Function.update memory a ⟨value.setWidth 8⟩

/-- What an instruction makes of the word on the stack and the accumulator. -/
def Op.apply (left right : Word) : Op → Option Word
  | .OR => some (left ||| right)
  | .XOR => some (left ^^^ right)
  | .AND => some (left &&& right)
  | .EQ => some (if left = right then 1 else 0)
  | .NE => some (if left = right then 0 else 1)
  | .LT => some (if left.slt right then 1 else 0)
  | .GT => some (if right.slt left then 1 else 0)
  | .LE => some (if left.sle right then 1 else 0)
  | .GE => some (if right.sle left then 1 else 0)
  | .SHL => if right.toNat < 32 then some (left <<< right.toNat) else none
  | .SHR => if right.toNat < 32 then some (left.sshiftRight right.toNat) else none
  | .ADD => some (left + right)
  | .SUB => some (left - right)
  | .MUL => some (left * right)
  | .DIV => if right = 0 then none else some (left.sdiv right)
  | .MOD => if right = 0 then none else some (left.srem right)
  | _ => none

namespace Machine

/-- `*--sp = word`. -/
def push (word : Word) (vm : Machine) : Machine :=
  { vm with sp := sub32 vm.sp 4, memory := storeInt (sub32 vm.sp 4) word vm.memory }

/-- `*sp++`. -/
def pop (vm : Machine) : Word × Machine := (loadInt vm.memory vm.sp, { vm with sp := add32 vm.sp 4 })

/-- `*pc`. -/
def operand (vm : Machine) : Word := loadInt vm.memory vm.pc

/-- `pc + 1`. -/
def skip (vm : Machine) : Machine := { vm with pc := add32 vm.pc 4 }

/-- An instruction, once `pc` is behind it. `printf` gives the number that the function returns for the arguments that
lie below an address. -/
def execute (printf : (Nat → UInt8) → Nat → Word) (op : Op) (vm : Machine) : Outcome :=
  match op with
  | .LEA => .run { vm.skip with a := BitVec.ofNat 32 vm.bp + 4 * vm.operand }
  | .IMM => .run { vm.skip with a := vm.operand }
  | .JMP => .run { vm with pc := vm.operand.toNat }
  | .JSR =>
    let vm := vm.push (BitVec.ofNat 32 (add32 vm.pc 4))
    .run { vm with pc := vm.operand.toNat }
  | .BZ => .run (if vm.a ≠ 0 then vm.skip else { vm with pc := vm.operand.toNat })
  | .BNZ => .run (if vm.a ≠ 0 then { vm with pc := vm.operand.toNat } else vm.skip)
  | .ENT =>
    let vm := vm.push (BitVec.ofNat 32 vm.bp)
    .run { vm.skip with bp := vm.sp, sp := (BitVec.ofNat 32 vm.sp - 4 * vm.operand).toNat }
  | .ADJ => .run { vm.skip with sp := (BitVec.ofNat 32 vm.sp + 4 * vm.operand).toNat }
  | .LEV =>
    let (bp, vm) := pop { vm with sp := vm.bp }
    let (pc, vm) := vm.pop
    .run { vm with bp := bp.toNat, pc := pc.toNat }
  | .LI => .run { vm with a := loadInt vm.memory vm.a.toNat }
  | .LC => .run { vm with a := loadChar vm.memory vm.a.toNat }
  | .SI =>
    let (place, vm) := vm.pop
    .run { vm with memory := storeInt place.toNat vm.a vm.memory }
  | .SC =>
    let (place, vm) := vm.pop
    .run { vm with memory := storeChar place.toNat vm.a vm.memory, a := (vm.a.setWidth 8).setWidth 32 }
  | .PSH => .run (vm.push vm.a)
  | .OPEN | .READ | .CLOS | .MALC => .run { vm with a := 0 }
  | .PRTF => .run { vm with a := printf vm.memory (BitVec.ofNat 32 vm.sp + 4 * vm.skip.operand).toNat }
  | .EXIT => .exit vm.pop.1
  | op =>
    let (left, vm) := vm.pop
    match op.apply left vm.a with
    | none => .undefined
    | some a => .run { vm with a := a }

/-- A round of the loop of `cc`. An instruction that is unknown ends it. -/
def step (printf : (Nat → UInt8) → Nat → Word) (vm : Machine) : Outcome :=
  match Op.ofCode vm.operand with
  | none => .exit (-1)
  | some op => vm.skip.execute printf op

end Machine

end Cc

end XinuStm32
