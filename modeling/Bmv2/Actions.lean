/-
# Actions

`ActionFn` and `ActionFnEntry` (`actions.h`, `actions.cpp`), the loader of actions (`P4Objects.cpp`), register
arrays (`stateful.cpp`), and primitives of the target (`primitives.cpp`).

A primitive is a program that reads and writes registers one at a time.  It gets references, and those to the
results of expressions point into a vector, `data_temps`, that moves when it grows.
-/
import Bmv2.Expressions

namespace Bm

/-! ## Register arrays -/

/-- `RegisterArray`, with the values of the registers. -/
structure RegisterArray where
  bitwidth : ℕ
  registers : List ℤ
  deriving DecidableEq

/-- The register arrays of a switch. -/
abbrev Registers := ℕ → RegisterArray

namespace RegisterArray

/-- `Register::export_bytes` after a new value: `value &= mask`; an index out of range is an error. -/
def write (r : RegisterArray) (idx : ℕ) (value : ℤ) : Option RegisterArray :=
  if idx < r.registers.length then
    some { r with registers := r.registers.set idx (value % 2 ^ r.bitwidth) }
  else none

/-- `reset_state`: new registers are swapped in. -/
def resetState (r : RegisterArray) : RegisterArray :=
  { r with registers := List.replicate r.registers.length 0 }

end RegisterArray

/-- What works on registers: it reads them, writes them and resets arrays, and ends with a result or at a failed
assertion. -/
inductive Prog (X : Type) where
  | ret (x : X)
  | abort
  | size (array : ℕ) (k : ℕ → Prog X)
  | readReg (array idx : ℕ) (k : ℤ → Prog X)
  | writeReg (array idx : ℕ) (value : ℤ) (k : Prog X)
  | resetArray (array : ℕ) (k : Prog X)

namespace Prog

variable {X : Type}

/-- One access; `none` at the end and when it fails. -/
def step (registers : Registers) : Prog X → Option (Prog X × Registers)
  | .ret _ | .abort => none
  | .size array k => some (k (registers array).registers.length, registers)
  | .readReg array idx k => ((registers array).registers[idx]?).map fun value => (k value, registers)
  | .writeReg array idx value k =>
      ((registers array).write idx value).map fun r => (k, Function.update registers array r)
  | .resetArray array k => some (k, Function.update registers array (registers array).resetState)

/-- All accesses, with nothing in between. -/
def run (registers : Registers) : Prog X → Option (X × Registers)
  | .ret x => some (x, registers)
  | .abort => none
  | .size array k => (k (registers array).registers.length).run registers
  | .readReg array idx k => ((registers array).registers[idx]?).bind fun value => (k value).run registers
  | .writeReg array idx value k =>
      ((registers array).write idx value).bind fun r => k.run (Function.update registers array r)
  | .resetArray array k => k.run (Function.update registers array (registers array).resetState)

/-- The program keeps to some arrays. -/
def Within (arrays : List ℕ) : Prog X → Prop
  | .ret _ | .abort => True
  | .size array k => array ∈ arrays ∧ ∀ n, (k n).Within arrays
  | .readReg array _ k => array ∈ arrays ∧ ∀ value, (k value).Within arrays
  | .writeReg array _ _ k => array ∈ arrays ∧ k.Within arrays
  | .resetArray array k => array ∈ arrays ∧ k.Within arrays

end Prog

/-! ## Primitives -/

/-- The type of a parameter of a primitive; `const` makes a difference for `Data` only. -/
inductive ArgType where
  | data | constData | field | header | headerStack
  | calculation | meterArray | counterArray | registerArray | externInstance
  deriving DecidableEq

/-- What a primitive gets for a parameter: a reference to something that stays where it is, or to a number that
nobody changes. -/
inductive Arg where
  | value (data : Data)
  | field (header offset : ℕ)
  | register (array idx : ℕ)
  | header (header : ℕ)
  | headerStack (headerStack : ℕ)
  | calculation (calculation : ℕ)
  | meterArray (meterArray : ℕ)
  | counterArray (counterArray : ℕ)
  | registerArray (registerArray : ℕ)
  | externInstance (externInstance : ℕ)
  deriving DecidableEq

/-- The register arrays that an argument leads to. -/
def Arg.arrays : Arg → List ℕ
  | .register array _ => [array]
  | .registerArray array => [array]
  | _ => []

/-- `ActionPrimitive`, for packets of type `P`.  It can only get at registers through its arguments. -/
structure Primitive (P : Type) where
  args : List ArgType
  body : List Arg → P → Prog P
  within : ∀ args packet, (body args packet).Within (args.flatMap Arg.arrays)

namespace Primitive

/-- `get_num_params`. -/
def getNumParams {P : Type} (p : Primitive P) : ℕ := p.args.length

end Primitive

/-! ## Parameters and actions -/

/-- `ActionParam`; an array or an expression stands for the pointer to it. -/
inductive ActionParam where
  | const (constOffset : ℕ)
  | field (header fieldOffset : ℕ)
  | header (header : ℕ)
  | actionData (actionDataOffset : ℤ)
  | registerRef (array idx : ℕ)
  | registerGen (array : ℕ) (idx : Expression)
  | headerStack (headerStack : ℕ)
  | calculation (calculation : ℕ)
  | meterArray (meterArray : ℕ)
  | counterArray (counterArray : ℕ)
  | registerArray (registerArray : ℕ)
  | expression (offset : ℕ) (ptr : Expression)
  | externInstance (externInstance : ℕ)
  deriving DecidableEq

/-- The array that an operation of an expression reads. -/
def Op.registerArray (op : Op) : Option ℕ :=
  match op.opcode, op.operand with
  | .loadRegisterRef, .registerRef array _ => some array
  | .loadRegisterGen, .registerArray array => some array
  | _, _ => none

/-- `grab_register_accesses`: the arrays that an expression reads. -/
def Expression.grabRegisterAccesses (e : Expression) : List ℕ := e.ops.filterMap Op.registerArray

/-- `ActionFn`; `registerSync` has the arrays whose mutexes are locked. -/
structure ActionFn (P : Type) where
  primitives : List (Primitive P) := []
  params : List ActionParam := []
  registerSync : List ℕ := []
  constValues : List ℤ := []

namespace ActionFn

variable {P : Type} (fn : ActionFn P)

/-- `RegisterSync::add_register_array`. -/
def addRegisterArray (array : ℕ) : ActionFn P :=
  if array ∈ fn.registerSync then fn else { fn with registerSync := fn.registerSync ++ [array] }

/-- `grab_register_accesses` into the `register_sync` of the action. -/
def grab (e : Expression) : ActionFn P := e.grabRegisterAccesses.foldl addRegisterArray fn

/-- `params.push_back`. -/
def pushParam (param : ActionParam) : ActionFn P := { fn with params := fn.params ++ [param] }

def parameterPushBackField (header fieldOffset : ℕ) : ActionFn P := fn.pushParam (.field header fieldOffset)

def parameterPushBackHeader (header : ℕ) : ActionFn P := fn.pushParam (.header header)

def parameterPushBackHeaderStack (headerStack : ℕ) : ActionFn P := fn.pushParam (.headerStack headerStack)

def parameterPushBackConst (data : ℤ) : ActionFn P :=
  ({ fn with constValues := fn.constValues ++ [data] } : ActionFn P).pushParam (.const fn.constValues.length)

def parameterPushBackActionData (actionDataOffset : ℤ) : ActionFn P := fn.pushParam (.actionData actionDataOffset)

def parameterPushBackRegisterRef (array idx : ℕ) : ActionFn P :=
  (fn.pushParam (.registerRef array idx)).addRegisterArray array

def parameterPushBackRegisterGen (array : ℕ) (idx : Expression) : ActionFn P :=
  ((fn.grab idx).pushParam (.registerGen array idx)).addRegisterArray array

def parameterPushBackCalculation (calculation : ℕ) : ActionFn P := fn.pushParam (.calculation calculation)

def parameterPushBackMeterArray (meterArray : ℕ) : ActionFn P := fn.pushParam (.meterArray meterArray)

def parameterPushBackCounterArray (counterArray : ℕ) : ActionFn P := fn.pushParam (.counterArray counterArray)

def parameterPushBackRegisterArray (array : ℕ) : ActionFn P :=
  (fn.pushParam (.registerArray array)).addRegisterArray array

def parameterPushBackExternInstance (externInstance : ℕ) : ActionFn P :=
  fn.pushParam (.externInstance externInstance)

end ActionFn

/-- The parameter is the result of an expression. -/
def ActionParam.isExpression : ActionParam → Bool
  | .expression _ _ => true
  | _ => false

/-- `parameter_push_back_expression`, with the static `nb_data_tmps`; `none` when its assertion fails. -/
def ActionFn.parameterPushBackExpression {P : Type} (nbDataTmps : ℕ) (fn : ActionFn P) (expr : Expression) :
    Option (ℕ × ActionFn P) :=
  let nbExpressionParams := 1 + fn.params.countP ActionParam.isExpression
  if nbExpressionParams ≤ nbDataTmps then
    let nbDataTmps := if nbExpressionParams = nbDataTmps then nbDataTmps + 1 else nbDataTmps
    some (nbDataTmps, (fn.grab expr).pushParam (.expression nbExpressionParams expr))
  else none

/-- `ActionFn::push_back_primitive`. -/
def ActionFn.pushBackPrimitive {P : Type} (fn : ActionFn P) (primitive : Primitive P) : ActionFn P :=
  { fn with primitives := fn.primitives ++ [primitive] }

/-! ## The loader -/

/-- A parameter of a primitive in the configuration. -/
inductive JsonParam where
  | hexstr (value : String)
  | runtimeData (offset : ℤ)
  | header (name : String)
  | field (header field : String)
  | calculation (name : String)
  | meterArray (name : String)
  | counterArray (name : String)
  | registerArray (name : String)
  | headerStack (name : String)
  | expression (value : JsonExpr)
  | register (array : String) (index : JsonExpr)
  | externInstance (name : String)
  deriving DecidableEq

/-- A call of a primitive in the configuration. -/
structure JsonCall where
  op : String
  parameters : List JsonParam

/-- The names that `P4Objects` knows when it loads actions. -/
structure ActionNames extends ExprNames where
  headerStackId : String → Option ℕ
  calculation : String → Option ℕ
  meterArray : String → Option ℕ
  counterArray : String → Option ℕ
  externInstance : String → Option ℕ

/-- Why an action is not loaded. -/
inductive ActionLoadFault where
  /-- `Unknown primitive action`. -/
  | unknownPrimitive
  /-- `Invalid number of parameters for primitive action`. -/
  | numParams
  /-- A name that is not known, or a number that cannot be read. -/
  | parameter
  /-- The assertion about `nb_data_tmps`. -/
  | dataTmps
  deriving DecidableEq

/-- What has been loaded: the static `nb_data_tmps`, the action, the fields and headers for which arithmetic is
enabled. -/
structure ActionLoader (P : Type) where
  nbDataTmps : ℕ := 1
  actionFn : ActionFn P := {}
  arithFields : List (ℕ × ℕ) := []
  arithHeaders : List ℕ := []

namespace ActionLoader

variable {P : Type} (cast : BignumCast) (names : ActionNames) (opcodes : String → Option (Primitive P))

/-- A parameter that only goes to the action. -/
def push (s : ActionLoader P) (f : ActionFn P → ActionFn P) : ActionLoader P := { s with actionFn := f s.actionFn }

/-- An expression of the configuration, ready to be evaluated. -/
def buildExpr (json : JsonExpr) (arithFields : List (ℕ × ℕ)) : Option (Expression × List (ℕ × ℕ)) := do
  let (expr, arithFields) ← buildExpression cast names.toExprNames json (.empty, arithFields)
  let expr ← expr.build
  pure (expr, arithFields)

/-- The body of the loop over the parameters of a call. -/
def loadParam (s : ActionLoader P) : JsonParam → Except ActionLoadFault (ActionLoader P)
  | .hexstr value => do
      let data ← orFault .parameter (Data.ofHexstring value)
      pure (s.push (·.parameterPushBackConst data))
  | .runtimeData offset => .ok (s.push (·.parameterPushBackActionData offset))
  | .header name => do
      let header ← orFault .parameter (names.headerId name)
      pure { s.push (·.parameterPushBackHeader header) with arithHeaders := s.arithHeaders ++ [header] }
  | .field header field => do
      let header ← orFault .parameter (names.headerId header)
      let offset ← orFault .parameter (names.fieldOffset header field)
      pure { s.push (·.parameterPushBackField header offset) with arithFields := s.arithFields ++ [(header, offset)] }
  | .calculation name => do
      let calculation ← orFault .parameter (names.calculation name)
      pure (s.push (·.parameterPushBackCalculation calculation))
  | .meterArray name => do
      let meterArray ← orFault .parameter (names.meterArray name)
      pure (s.push (·.parameterPushBackMeterArray meterArray))
  | .counterArray name => do
      let counterArray ← orFault .parameter (names.counterArray name)
      pure (s.push (·.parameterPushBackCounterArray counterArray))
  | .registerArray name => do
      let array ← orFault .parameter (names.registerArray name)
      pure (s.push (·.parameterPushBackRegisterArray array))
  | .headerStack name => do
      let headerStack ← orFault .parameter (names.headerStackId name)
      pure (s.push (·.parameterPushBackHeaderStack headerStack))
  | .expression value => do
      let (expr, arithFields) ← orFault .parameter (buildExpr cast names value s.arithFields)
      let (nbDataTmps, actionFn) ← orFault .dataTmps (s.actionFn.parameterPushBackExpression s.nbDataTmps expr)
      pure { s with nbDataTmps, actionFn, arithFields }
  | .register name index => do
      match index with
      | .hexstr value =>
          let value ← orFault .parameter (Data.ofHexstring value)
          let idx ← orFault .parameter (cast.toUint value)
          let array ← orFault .parameter (names.registerArray name)
          pure (s.push (·.parameterPushBackRegisterRef array idx))
      | index =>
          let (idx, arithFields) ← orFault .parameter (buildExpr cast names index s.arithFields)
          let array ← orFault .parameter (names.registerArray name)
          pure { s.push (·.parameterPushBackRegisterGen array idx) with arithFields }
  | .externInstance name => do
      let externInstance ← orFault .parameter (names.externInstance name)
      pure (s.push (·.parameterPushBackExternInstance externInstance))

/-- The body of the loop over the calls. -/
def loadCall (s : ActionLoader P) (call : JsonCall) : Except ActionLoadFault (ActionLoader P) := do
  let primitive ← orFault .unknownPrimitive (opcodes call.op)
  let s := s.push (·.pushBackPrimitive primitive)
  if call.parameters.length = primitive.getNumParams then
    call.parameters.foldlM (loadParam cast names) s
  else .error .numParams

/-- An action of the configuration. -/
def loadAction (s : ActionLoader P) (calls : List JsonCall) : Except ActionLoadFault (ActionLoader P) :=
  calls.foldlM (loadCall cast names opcodes) { s with actionFn := {} }

/-- All actions of the configuration, one after another. -/
def loadActions (s : ActionLoader P) : List (List JsonCall) →
    Except ActionLoadFault (List (ActionFn P) × ActionLoader P)
  | [] => .ok ([], s)
  | calls :: actions => do
      let s ← loadAction cast names opcodes s calls
      let (actionFns, s') ← loadActions s actions
      pure (s.actionFn :: actionFns, s')

end ActionLoader

end Bm
