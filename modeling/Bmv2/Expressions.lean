/-
# Expressions

`Expression` (`expressions.cpp`, `expressions.h`) with the arithmetic of `Data`
(`data.h`) and `P4Objects::build_expression`: an expression of the configuration
becomes a list of operations for a machine with stacks.
-/
import Bmv2.Parser

namespace Bm

/-! ## Numbers -/

/-- How a `Bignum` becomes an unsigned integer; `none` when the conversion throws.  A number in
range keeps its value. -/
structure BignumCast where
  toUint : ℤ → Option ℕ
  toSize : ℤ → Option ℕ
  toUint_of_lt : ∀ v : ℕ, v < 2 ^ 32 → toUint v = some v
  toSize_of_lt : ∀ v : ℕ, v < 2 ^ 64 → toSize v = some v

/-- `Data`: the value may be used when `arith` is set. -/
structure Data where
  value : ℤ
  arith : Bool
  deriving DecidableEq

namespace Data

/-- `char2digit`; other characters fail its assertion. -/
def char2digit (c : Char) : Option ℕ :=
  if '0' ≤ c ∧ c ≤ '9' then some (c.toNat - '0'.toNat)
  else if 'A' ≤ c ∧ c ≤ 'F' then some (c.toNat - 'A'.toNat + 10)
  else if 'a' ≤ c ∧ c ≤ 'f' then some (c.toNat - 'a'.toNat + 10)
  else none

/-- The bytes of pairs of hexadecimal digits. -/
def hexBytes : List Char → Option (List Byte)
  | c :: d :: cs => do
      let hi ← char2digit c
      let lo ← char2digit d
      let bytes ← hexBytes cs
      pure (BitVec.ofNat 8 (hi * 16 + lo) :: bytes)
  | _ => some []

/-- `Data::set(hexstring)`: a sign, then `0x`, both optional; the first digit of an odd number of
digits is a byte of its own. -/
def ofHexstring (hexstring : String) : Option ℤ := do
  let cs := hexstring.toList
  let neg := cs.head? = some '-'
  let cs := if neg then cs.drop 1 else cs
  let cs := if cs.take 2 = ['0', 'x'] then cs.drop 2 else cs
  match cs with
  | [] => none
  | c :: rest =>
      let bytes ←
        if cs.length % 2 = 0 then hexBytes cs
        else do
          let digit ← char2digit c
          let bytes ← hexBytes rest
          pure (BitVec.ofNat 8 digit :: bytes)
      pure (if neg then -(beNat bytes : ℤ) else beNat bytes)

/-- `two_comp_mod` to a width. -/
def twoCompMod (src : ℤ) (uwidth : ℕ) : ℤ :=
  -- `uwidth - 1` is unsigned
  let half : ℕ := (uwidth + 2 ^ 32 - 1) % 2 ^ 32
  let max : ℤ := 2 ^ half - 1
  let min : ℤ := -2 ^ half
  if src < min ∨ max < src then
    -- `value &= mask`
    let value := src % 2 ^ uwidth
    if max < value then value - 2 ^ uwidth else value
  else src

end Data

/-! ## Operations -/

/-- `ExprOpcode`. -/
inductive ExprOpcode where
  | loadField | loadHeader | loadBool | loadConst | loadLocal | loadRegisterRef | loadRegisterGen
  | add | sub | mod | div | mul | shiftLeft | shiftRight
  | eqData | neqData | gtData | ltData | getData | letData
  | and | or | not
  | bitAnd | bitOr | bitXor | bitNeg
  | validHeader
  | ternaryOp | skip
  | twoCompMod
  | dataToBool | boolToData
  deriving DecidableEq

namespace ExprOpcode

/-- `ExprOpcodesMap::get_opcode`: an unknown name gets the default value of the map, which is the
first opcode. -/
def getOpcode : String → ExprOpcode
  | "load_field" => .loadField
  | "load_header" => .loadHeader
  | "load_bool" => .loadBool
  | "load_const" => .loadConst
  | "load_local" => .loadLocal
  | "load_register_ref" => .loadRegisterRef
  | "load_register_gen" => .loadRegisterGen
  | "+" => .add
  | "-" => .sub
  | "%" => .mod
  | "/" => .div
  | "*" => .mul
  | "<<" => .shiftLeft
  | ">>" => .shiftRight
  | "==" => .eqData
  | "!=" => .neqData
  | ">" => .gtData
  | "<" => .ltData
  | ">=" => .getData
  | "<=" => .letData
  | "and" => .and
  | "or" => .or
  | "not" => .not
  | "&" => .bitAnd
  | "|" => .bitOr
  | "^" => .bitXor
  | "~" => .bitNeg
  | "valid" => .validHeader
  | "?" => .ternaryOp
  | "two_comp_mod" => .twoCompMod
  | "d2b" => .dataToBool
  | "b2d" => .boolToData
  | _ => .loadField

/-- The operations that take two numbers to a number. -/
def isArith : ExprOpcode → Bool
  | .add | .sub | .mod | .div | .mul | .shiftLeft | .shiftRight
  | .bitAnd | .bitOr | .bitXor | .twoCompMod => true
  | _ => false

/-- The comparisons of two numbers. -/
def isCompare : ExprOpcode → Bool
  | .eqData | .neqData | .gtData | .ltData | .getData | .letData => true
  | _ => false

/-- The operations of `Data` on values; `none` when an assertion about the values fails. -/
def arith (cast : BignumCast) (op : ExprOpcode) (l r : ℤ) : Option ℤ :=
  match op with
  | .add => some (l + r)
  | .sub => some (l - r)
  | .mod => if 0 ≤ l ∧ 0 < r then some (l % r) else none
  | .div => if 0 ≤ l ∧ 0 < r then some (l / r) else none
  | .mul => some (l * r)
  | .shiftLeft => if 0 ≤ r then (cast.toUint r).map fun n => l <<< n else none
  | .shiftRight => if 0 ≤ r then (cast.toUint r).map fun n => l >>> n else none
  | .bitAnd => some (Int.land l r)
  | .bitOr => some (Int.lor l r)
  | .bitXor => some (Int.xor l r)
  | .twoCompMod => (cast.toUint r).map fun n => Data.twoCompMod l n
  | _ => none

/-- The comparison operators of `Data`. -/
def compare (op : ExprOpcode) (l r : ℤ) : Bool :=
  match op with
  | .eqData => l == r
  | .neqData => l != r
  | .gtData => decide (r < l)
  | .ltData => decide (l < r)
  | .getData => decide (r ≤ l)
  | .letData => decide (l ≤ r)
  | _ => false

end ExprOpcode

/-- The union in `Op`. -/
inductive Operand where
  | none
  | dataDestIndex (index : ℕ)
  | field (header offset : ℕ)
  | header (header : ℕ)
  | boolValue (value : Bool)
  | constOffset (offset : ℕ)
  | localOffset (offset : ℤ)
  | registerRef (array idx : ℕ)
  | registerArray (array : ℕ)
  | skipNum (num : ℕ)
  deriving DecidableEq

/-- `Op`. -/
structure Op where
  opcode : ExprOpcode
  operand : Operand
  deriving DecidableEq

/-- `Expression`. -/
structure Expression where
  ops : List Op
  constValues : List ℤ
  dataRegistersCnt : ℕ
  deriving DecidableEq

namespace Expression

/-- The empty expression. -/
def empty : Expression := ⟨[], [], 0⟩

def pushOp (e : Expression) (opcode : ExprOpcode) (operand : Operand) : Expression :=
  { e with ops := e.ops ++ [⟨opcode, operand⟩] }

def pushBackLoadField (e : Expression) (header offset : ℕ) : Expression :=
  e.pushOp .loadField (.field header offset)

def pushBackLoadBool (e : Expression) (value : Bool) : Expression :=
  e.pushOp .loadBool (.boolValue value)

def pushBackLoadHeader (e : Expression) (header : ℕ) : Expression :=
  e.pushOp .loadHeader (.header header)

def pushBackLoadConst (e : Expression) (data : ℤ) : Expression :=
  ({ e with constValues := e.constValues ++ [data] } : Expression).pushOp .loadConst
    (.constOffset e.constValues.length)

def pushBackLoadLocal (e : Expression) (offset : ℤ) : Expression :=
  e.pushOp .loadLocal (.localOffset offset)

def pushBackLoadRegisterRef (e : Expression) (array idx : ℕ) : Expression :=
  e.pushOp .loadRegisterRef (.registerRef array idx)

def pushBackLoadRegisterGen (e : Expression) (array : ℕ) : Expression :=
  e.pushOp .loadRegisterGen (.registerArray array)

def pushBackOp (e : Expression) (opcode : ExprOpcode) : Expression := e.pushOp opcode .none

/-- An operation of an expression that is appended after `n` constants. -/
def shiftOp (n : ℕ) (op : Op) : Op :=
  match op.opcode, op.operand with
  | .loadConst, .constOffset offset => ⟨.loadConst, .constOffset (offset + n)⟩
  | _, _ => op

/-- `append_expression`. -/
def appendExpression (e e' : Expression) : Expression :=
  { e with
    ops := e.ops ++ e'.ops.map (shiftOp e.constValues.length)
    constValues := e.constValues ++ e'.constValues }

/-- `push_back_ternary_op`. -/
def pushBackTernaryOp (e e1 e2 : Expression) : Expression :=
  let e := e.pushOp .ternaryOp .none
  let e := e.pushOp .skip (.skipNum (e1.ops.length + 1))
  let e := e.appendExpression e1
  let e := e.pushOp .skip (.skipNum e2.ops.length)
  e.appendExpression e2

end Expression

/-! ## Registers for results -/

/-- The state of `assign_dest_registers`: for each number on the stack, how many registers it holds;
the registers in use; the most that were. -/
structure DestRegisters where
  newRegisters : List ℕ
  registersCurr : ℕ
  registersCnt : ℕ
  deriving DecidableEq

namespace DestRegisters

/-- `registers_curr -= new_registers.top()`, then `pop`. -/
def pop (r : DestRegisters) : Option DestRegisters :=
  match r.newRegisters with
  | [] => none
  | n :: newRegisters => some { r with newRegisters, registersCurr := r.registersCurr - n }

/-- `push`, with so many registers for the new number. -/
def push (r : DestRegisters) (n : ℕ) : DestRegisters :=
  { r with newRegisters := n :: r.newRegisters, registersCurr := r.registersCurr + n }

/-- `std::max`, after each operation. -/
def count (r : DestRegisters) : DestRegisters :=
  { r with registersCnt := max r.registersCnt r.registersCurr }

/-- The body of the loop. -/
def assign (r : DestRegisters) (op : Op) : Option (Op × DestRegisters) :=
  if op.opcode.isArith then do
    let r ← r.pop
    let r ← r.pop
    pure (⟨op.opcode, .dataDestIndex r.registersCurr⟩, (r.push 1).count)
  else if op.opcode.isCompare then do
    let r ← r.pop
    let r ← r.pop
    pure (op, r.count)
  else
    match op.opcode with
    | .bitNeg => do
        let r ← r.pop
        pure (⟨op.opcode, .dataDestIndex r.registersCurr⟩, (r.push 1).count)
    | .boolToData => some (⟨op.opcode, .dataDestIndex r.registersCurr⟩, (r.push 1).count)
    | .dataToBool => do
        let r ← r.pop
        pure (op, r.count)
    | .loadConst | .loadLocal | .loadField | .loadRegisterRef => some (op, (r.push 0).count)
    | .loadRegisterGen => do
        let r ← r.pop
        pure (op, (r.push 0).count)
    | _ => some (op, r.count)

/-- The loop of `assign_dest_registers`. -/
def assignAll : DestRegisters → List Op → Option (List Op × DestRegisters)
  | r, [] => some ([], r)
  | r, op :: ops => do
      let (op, r) ← r.assign op
      let (ops, r) ← r.assignAll ops
      pure (op :: ops, r)

end DestRegisters

/-- `Expression::build`, which is `assign_dest_registers`; `none` is `top` of an empty stack. -/
def Expression.build (e : Expression) : Option Expression := do
  let (ops, r) ← DestRegisters.assignAll ⟨[], 0, 0⟩ e.ops
  pure { e with ops, dataRegistersCnt := r.registersCnt }

/-! ## Evaluation -/

/-- Why an evaluation does not go on. -/
inductive EvalFault where
  /-- An element of an empty stack. -/
  | underflow
  /-- A member of the union in `Op` that was not written. -/
  | operand
  /-- A constant or a temporary register that does not exist. -/
  | offset
  /-- A header, field, action parameter or register that does not exist. -/
  | id
  /-- A `Data` that is not set up for arithmetic. -/
  | arith
  /-- A value that an operation of `Data` does not take. -/
  | value
  deriving DecidableEq

/-- What the leaves of an expression refer to: the packet, the action data and the registers. -/
structure ExprEnv where
  phv : DataPHV
  locals : List ℤ
  registers : ℕ → List ℤ

namespace ExprEnv

def getHeader (env : ExprEnv) (header : ℕ) : Option DataHeader := env.phv.headers[header]?

def getField (env : ExprEnv) (header offset : ℕ) : Option DataField := do
  let h ← env.getHeader header
  h.fields[offset]?

def getLocal (env : ExprEnv) (offset : ℤ) : Option ℤ :=
  if 0 ≤ offset then env.locals[offset.toNat]? else none

/-- `RegisterArray::at`, which throws when there is no such register. -/
def getRegister (env : ExprEnv) (array idx : ℕ) : Option ℤ := (env.registers array)[idx]?

end ExprEnv

/-- A pointer on the stack for numbers: to a temporary register, or to something that does not
change during the evaluation. -/
inductive DataRef where
  | fixed (data : Data)
  | temp (index : ℕ)
  deriving DecidableEq

/-- The local state of `eval_`: the operations still to pass over, `data_temps` and the stacks. -/
structure EvalState where
  skipped : ℕ
  temps : List ℤ
  bools : List Bool
  data : List DataRef
  headers : List DataHeader
  deriving DecidableEq

namespace EvalState

def deref (s : EvalState) : DataRef → Except EvalFault Data
  | .fixed data => .ok data
  | .temp index => orFault .offset (s.temps[index]?.map fun value => ⟨value, true⟩)

def popData (s : EvalState) : Except EvalFault (Data × EvalState) :=
  match s.data with
  | [] => .error .underflow
  | r :: data => do
      let d ← s.deref r
      pure (d, { s with data })

def popBool (s : EvalState) : Except EvalFault (Bool × EvalState) :=
  match s.bools with
  | [] => .error .underflow
  | b :: bools => .ok (b, { s with bools })

def popHeader (s : EvalState) : Except EvalFault (DataHeader × EvalState) :=
  match s.headers with
  | [] => .error .underflow
  | h :: headers => .ok (h, { s with headers })

def pushData (s : EvalState) (r : DataRef) : EvalState := { s with data := r :: s.data }

def pushBool (s : EvalState) (b : Bool) : EvalState := { s with bools := b :: s.bools }

def pushHeader (s : EvalState) (h : DataHeader) : EvalState := { s with headers := h :: s.headers }

/-- A result goes to its register, and a pointer to it on the stack. -/
def store (s : EvalState) (dest : Operand) (value : ℤ) : Except EvalFault EvalState :=
  match dest with
  | .dataDestIndex index =>
      if index < s.temps.length then
        .ok (({ s with temps := s.temps.set index value } : EvalState).pushData (.temp index))
      else .error .offset
  | _ => .error .operand

end EvalState

/-- The assertions of an operation of `Data` about its operands; `two_comp_mod` has none for the
first. -/
def ExprOpcode.operandsOk (op : ExprOpcode) (l r : Data) : Bool :=
  (op == .twoCompMod || l.arith) && r.arith

/-- One operation, by the `switch` of `eval_`. -/
def Op.exec (cast : BignumCast) (constValues : List ℤ) (env : ExprEnv) (s : EvalState) (op : Op) :
    Except EvalFault EvalState :=
  if op.opcode.isArith then do
    let (rd, s) ← s.popData
    let (ld, s) ← s.popData
    if op.opcode.operandsOk ld rd then do
      let value ← orFault .value (op.opcode.arith cast ld.value rd.value)
      s.store op.operand value
    else .error .arith
  else if op.opcode.isCompare then do
    let (rd, s) ← s.popData
    let (ld, s) ← s.popData
    if ld.arith && rd.arith then pure (s.pushBool (op.opcode.compare ld.value rd.value))
    else .error .arith
  else
    match op.opcode, op.operand with
    | .loadField, .field header offset => do
        let f ← orFault .id (env.getField header offset)
        pure (s.pushData (.fixed ⟨f.value, f.arith⟩))
    | .loadHeader, .header header => do
        let h ← orFault .id (env.getHeader header)
        pure (s.pushHeader h)
    | .loadBool, .boolValue value => .ok (s.pushBool value)
    | .loadConst, .constOffset offset => do
        let value ← orFault .offset constValues[offset]?
        pure (s.pushData (.fixed ⟨value, true⟩))
    | .loadLocal, .localOffset offset => do
        let value ← orFault .id (env.getLocal offset)
        pure (s.pushData (.fixed ⟨value, true⟩))
    | .loadRegisterRef, .registerRef array idx => do
        let value ← orFault .id (env.getRegister array idx)
        pure (s.pushData (.fixed ⟨value, true⟩))
    | .loadRegisterGen, .registerArray array => do
        let (rd, s) ← s.popData
        if rd.arith then do
          let idx ← orFault .value (cast.toSize rd.value)
          let value ← orFault .id (env.getRegister array idx)
          pure (s.pushData (.fixed ⟨value, true⟩))
        else .error .arith
    | .and, _ => do
        let (rb, s) ← s.popBool
        let (lb, s) ← s.popBool
        pure (s.pushBool (lb && rb))
    | .or, _ => do
        let (rb, s) ← s.popBool
        let (lb, s) ← s.popBool
        pure (s.pushBool (lb || rb))
    | .not, _ => do
        let (rb, s) ← s.popBool
        pure (s.pushBool !rb)
    | .bitNeg, dest => do
        let (rd, s) ← s.popData
        if rd.arith then s.store dest (Int.not rd.value) else .error .arith
    | .validHeader, _ => do
        let (h, s) ← s.popHeader
        pure (s.pushBool h.isValid)
    | .ternaryOp, _ => do
        let (b, s) ← s.popBool
        pure (if b then { s with skipped := 1 } else s)
    | .skip, .skipNum num => .ok { s with skipped := num }
    | .dataToBool, _ => do
        let (rd, s) ← s.popData
        pure (s.pushBool (rd.value != 0))
    | .boolToData, dest => do
        let (rb, s) ← s.popBool
        s.store dest (if rb then 1 else 0)
    | _, _ => .error .operand

/-- One turn of the loop of `eval_`: `i += n` passes over the next `n` operations. -/
def Op.step (cast : BignumCast) (constValues : List ℤ) (env : ExprEnv) (s : EvalState) (op : Op) :
    Except EvalFault EvalState :=
  match s.skipped with
  | n + 1 => .ok { s with skipped := n }
  | 0 => op.exec cast constValues env s

namespace Expression

/-- The state in which the loop starts: empty stacks, and in `data_temps` at least as many registers
as needed, with what earlier evaluations left in them. -/
def start (e : Expression) (temps : List ℤ) : EvalState :=
  ⟨0, temps ++ List.replicate (e.dataRegistersCnt - temps.length) 0, [], [], []⟩

/-- The loop of `eval_`. -/
def run (e : Expression) (cast : BignumCast) (env : ExprEnv) (temps : List ℤ) :
    Except EvalFault EvalState :=
  e.ops.foldlM (Op.step cast e.constValues env) (e.start temps)

/-- `eval_bool`; an empty expression is false. -/
def evalBool (e : Expression) (cast : BignumCast) (env : ExprEnv) (temps : List ℤ) :
    Except EvalFault Bool :=
  if e.ops = [] then .ok false
  else do
    let s ← e.run cast env temps
    let (b, _) ← s.popBool
    pure b

/-- `eval_arith`; an empty expression is 0. -/
def evalArith (e : Expression) (cast : BignumCast) (env : ExprEnv) (temps : List ℤ) :
    Except EvalFault ℤ :=
  if e.ops = [] then .ok 0
  else do
    let s ← e.run cast env temps
    let (d, _) ← s.popData
    pure d.value

end Expression

/-! ## The loader -/

/-- An expression in the configuration; `local` is an action parameter. -/
inductive JsonExpr where
  | null
  | expression (op : String) (cond left right : JsonExpr)
  | header (name : String)
  | field (header field : String)
  | bool (value : Bool)
  | hexstr (value : String)
  | localData (offset : ℤ)
  | register (array : String) (index : JsonExpr)
  deriving DecidableEq

/-- The names that `P4Objects` knows. -/
structure ExprNames where
  headerId : String → Option ℕ
  fieldOffset : ℕ → String → Option ℕ
  registerArray : String → Option ℕ

/-- `P4Objects::build_expression`, at the end of an expression; the second part lists the calls of
`enable_arith`. -/
def buildExpression (cast : BignumCast) (names : ExprNames) :
    JsonExpr → Expression × List (ℕ × ℕ) → Option (Expression × List (ℕ × ℕ))
  | .null, expr => some expr
  | .expression op cond left right, expr =>
      if op = "?" then do
        let (expr, arith) ← buildExpression cast names cond expr
        let (e1, arith) ← buildExpression cast names left (.empty, arith)
        let (e2, arith) ← buildExpression cast names right (.empty, arith)
        pure (expr.pushBackTernaryOp e1 e2, arith)
      else do
        -- for unary `+` and `-`, the left operand is 0
        let expr ←
          if (op = "+" ∨ op = "-") ∧ left = .null then some (expr.1.pushBackLoadConst 0, expr.2)
          else buildExpression cast names left expr
        let (expr, arith) ← buildExpression cast names right expr
        pure (expr.pushBackOp (.getOpcode op), arith)
  | .header name, (expr, arith) => do
      let header ← names.headerId name
      pure (expr.pushBackLoadHeader header, arith)
  | .field header field, (expr, arith) => do
      let header ← names.headerId header
      let offset ← names.fieldOffset header field
      pure (expr.pushBackLoadField header offset, arith ++ [(header, offset)])
  | .bool value, (expr, arith) => some (expr.pushBackLoadBool value, arith)
  | .hexstr value, (expr, arith) => do
      let value ← Data.ofHexstring value
      pure (expr.pushBackLoadConst value, arith)
  | .localData offset, (expr, arith) => some (expr.pushBackLoadLocal offset, arith)
  | .register name index, (expr, arith) =>
      match index with
      | .null => none
      | .hexstr value => do
          let value ← Data.ofHexstring value
          let idx ← cast.toUint value
          let array ← names.registerArray name
          pure (expr.pushBackLoadRegisterRef array idx, arith)
      | index => do
          let (expr, arith) ← buildExpression cast names index (expr, arith)
          let array ← names.registerArray name
          pure (expr.pushBackLoadRegisterGen array, arith)

end Bm
