/-
# How actions are executed

`ActionFnEntry::operator()` with `ActionParam::to` (`actions.h`, `actions.cpp`): the arguments of a primitive are
evaluated, in an order that the language leaves open, and then the primitive runs.  Next to it stands what the
configuration means: each call with the values and places that its parameters denote, one call after another.

A reference to the result of an expression is lost when `data_temps` moves.
-/
import Bmv2.ExprFrame

namespace Bm

/-! ## Vectors that move -/

/-- The capacity of a vector after it has moved. -/
structure VectorGrowth where
  grown : ℕ → ℕ
  lt_grown : ∀ n, n < grown n

/-- Where the elements of a vector are; `buffer` counts how often it has moved. -/
structure Room where
  buffer : ℕ
  capacity : ℕ
  size : ℕ
  deriving DecidableEq

/-- `emplace_back`: the elements move when there is no room. -/
def Room.emplaceBack (g : VectorGrowth) (r : Room) : Room :=
  if r.size < r.capacity then { r with size := r.size + 1 }
  else ⟨r.buffer + 1, g.grown r.capacity, r.size + 1⟩

/-- The loop in `to`: the vector gets an element `offset`. -/
def Room.reach (g : VectorGrowth) (r : Room) (offset : ℕ) : Room := (Room.emplaceBack g)^[offset + 1 - r.size] r

/-- The thread-local variables: `data_temps` of `to`, with its elements, and what is in that of `eval_`. -/
structure DataTemps where
  room : Room := ⟨0, 4, 4⟩
  values : ℕ → ℤ := fun _ => 0
  evalTemps : List ℤ := [0, 0, 0, 0]

namespace DataTemps

/-- The vector gets an element `offset`; new elements are 0. -/
def reach (g : VectorGrowth) (t : DataTemps) (offset : ℕ) : DataTemps :=
  { t with room := t.room.reach g offset, values := fun i => if i < t.room.size then t.values i else 0 }

/-- An element is written. -/
def write (t : DataTemps) (offset : ℕ) (value : ℤ) : DataTemps :=
  { t with values := Function.update t.values offset value }

end DataTemps

/-! ## Arguments -/

/-- What `to` returns: a reference to something that stays where it is, or into `data_temps`. -/
inductive Ref where
  | fixed (arg : Arg)
  | temp (buffer offset : ℕ)

/-- What a primitive finds behind a reference; nothing when `data_temps` has moved. -/
def Ref.load (t : DataTemps) : Ref → Option Arg
  | .fixed arg => some arg
  | .temp buffer offset => if buffer = t.room.buffer then some (.value ⟨t.values offset, true⟩) else none

/-- `ActionEngineState`, for a packet of type `P`. -/
structure ActionEngineState (P : Type) where
  packet : P
  actionData : List ℤ
  constValues : List ℤ

/-- `eval_arith`, with what it leaves in `data_temps` of `eval_`. -/
def Expression.eval (e : Expression) (cast : BignumCast) (env : ExprEnv) (temps : List ℤ) :
    Option (ℤ × List ℤ) := do
  let value ← (e.evalArith cast env temps).toOption
  pure (value, if e.ops = [] then temps else ((e.run cast env temps).toOption.map EvalState.temps).getD temps)

section Engine

variable {P : Type} (cast : BignumCast) (phv : P → DataPHV) (g : VectorGrowth) (registers : Registers)

/-- What expressions see. -/
def ActionEngineState.env (state : ActionEngineState P) : ExprEnv :=
  ⟨phv state.packet, state.actionData, fun array => (registers array).registers⟩

/-- `RegisterArray::at`. -/
def registerAt (array idx : ℕ) : Option Arg :=
  if idx < (registers array).registers.length then some (.register array idx) else none

/-- The cases of `to` in which nothing is evaluated. -/
def ActionParam.place (state : ActionEngineState P) : ArgType → ActionParam → Option Arg
  | .constData, .const constOffset => (state.constValues[constOffset]?).map fun value => .value ⟨value, true⟩
  | .constData, .actionData offset => ((state.env phv registers).getLocal offset).map fun value => .value ⟨value, true⟩
  | .data, .field h offset => ((state.env phv registers).getField h offset).map fun _ => .field h offset
  | .constData, .field h offset => ((state.env phv registers).getField h offset).map fun _ => .field h offset
  | .field, .field h offset => ((state.env phv registers).getField h offset).map fun _ => .field h offset
  | .data, .registerRef array idx => registerAt registers array idx
  | .constData, .registerRef array idx => registerAt registers array idx
  | .header, .header h => ((state.env phv registers).getHeader h).map fun _ => .header h
  | .headerStack, .headerStack s => ((phv state.packet).headerStacks[s]?).map fun _ => .headerStack s
  | .calculation, .calculation c => some (.calculation c)
  | .meterArray, .meterArray m => some (.meterArray m)
  | .counterArray, .counterArray c => some (.counterArray c)
  | .registerArray, .registerArray array => some (.registerArray array)
  | .externInstance, .externInstance e => some (.externInstance e)
  | _, _ => none

/-- The index of a register, from an expression. -/
def registerIndex (array : ℕ) (value : ℤ) : Option Arg := (cast.toSize value).bind (registerAt registers array)

/-- `ActionParam::to`.  For `Data &`, the index of a register is computed in a variable of its own; for
`const Data &`, in the first element of `data_temps`. -/
def ActionParam.to (state : ActionEngineState P) (temps : DataTemps) : ArgType → ActionParam → Option (Ref × DataTemps)
  | .data, .registerGen array idx => do
      let (value, evalTemps) ← idx.eval cast (state.env phv registers) temps.evalTemps
      let arg ← registerIndex cast registers array value
      pure (.fixed arg, { temps with evalTemps })
  | .constData, .registerGen array idx => do
      let (value, evalTemps) ← idx.eval cast (state.env phv registers) temps.evalTemps
      let arg ← registerIndex cast registers array value
      pure (.fixed arg, { temps.write 0 value with evalTemps })
  | .constData, .expression offset ptr => do
      let temps := temps.reach g offset
      let (value, evalTemps) ← ptr.eval cast (state.env phv registers) temps.evalTemps
      pure (.temp temps.room.buffer offset, { temps.write offset value with evalTemps })
  | ty, param => (param.place phv registers state ty).map fun arg => (.fixed arg, temps)

/-- One argument of a call, whose parameters start at `paramOffset`. -/
def resolveArg (fn : ActionFn P) (state : ActionEngineState P) (primitive : Primitive P) (paramOffset : ℕ)
    (s : List (Option Ref) × DataTemps) (i : ℕ) : Option (List (Option Ref) × DataTemps) := do
  let param ← fn.params[paramOffset + i]?
  let ty ← primitive.args[i]?
  let (ref, temps) ← param.to cast phv g registers state s.2 ty
  pure (s.1.set i (some ref), temps)

/-- What the primitive gets, when all arguments have been evaluated. -/
def loadArgs (args : List (Option Ref)) (temps : DataTemps) : Option (List Arg) :=
  args.mapM fun ref => ref.bind (Ref.load temps)

end Engine

section Execute

variable {P : Type} (cast : BignumCast) (phv : P → DataPHV) (g : VectorGrowth)

/-- `execute` of a primitive. -/
def executePrimitive (fn : ActionFn P) (actionData : List ℤ) (primitive : Primitive P) (paramOffset : ℕ)
    (order : List ℕ) (temps : DataTemps) (packet : P) (registers : Registers) :
    Option (DataTemps × P × Registers) := do
  let (args, temps) ← order.foldlM
    (resolveArg cast phv g registers fn ⟨packet, actionData, fn.constValues⟩ primitive paramOffset)
    (List.replicate primitive.getNumParams none, temps)
  let args ← loadArgs args temps
  let (packet, registers) ← (primitive.body args packet).run registers
  pure (temps, packet, registers)

/-- The loop of `ActionFnEntry::operator()`; `orders` has the order of evaluation for each call. -/
def executePrimitives (fn : ActionFn P) (actionData : List ℤ) (orders : ℕ → List ℕ) :
    ℕ → ℕ → List (Primitive P) → DataTemps → P → Registers → Option (DataTemps × P × Registers)
  | _, _, [], temps, packet, registers => some (temps, packet, registers)
  | n, paramOffset, primitive :: primitives, temps, packet, registers => do
      let (temps, packet, registers) ←
        executePrimitive cast phv g fn actionData primitive paramOffset (orders n) temps packet registers
      executePrimitives fn actionData orders (n + 1) (paramOffset + primitive.getNumParams) primitives temps packet
        registers

/-- `ActionFnEntry::operator()`. -/
def ActionFn.execute (fn : ActionFn P) (actionData : List ℤ) (orders : ℕ → List ℕ) (temps : DataTemps) (packet : P)
    (registers : Registers) : Option (DataTemps × P × Registers) :=
  executePrimitives cast phv g fn actionData orders 0 0 fn.primitives temps packet registers

end Execute

/-! ## What the configuration means -/

/-- A parameter of the configuration, with what its names stand for. -/
inductive ConfigParam where
  | const (data : ℤ)
  | expression (e : Expression)
  | registerGen (array : ℕ) (idx : Expression)
  | place (param : ActionParam)

section Meaning

variable {P : Type} (cast : BignumCast) (phv : P → DataPHV)

/-- The value or the place that a parameter denotes. -/
def ConfigParam.denotes (registers : Registers) (packet : P) (actionData : List ℤ) : ArgType → ConfigParam → Option Arg
  | .constData, .const data => some (.value ⟨data, true⟩)
  | .constData, .expression e =>
      (e.evalArith cast (ActionEngineState.env phv registers ⟨packet, actionData, []⟩) []).toOption.map fun value =>
        .value ⟨value, true⟩
  | .data, .registerGen array idx =>
      (idx.evalArith cast (ActionEngineState.env phv registers ⟨packet, actionData, []⟩) []).toOption.bind
        (registerIndex cast registers array)
  | .constData, .registerGen array idx =>
      (idx.evalArith cast (ActionEngineState.env phv registers ⟨packet, actionData, []⟩) []).toOption.bind
        (registerIndex cast registers array)
  | ty, .place param => param.place phv registers ⟨packet, actionData, []⟩ ty
  | _, _ => none

/-- A call of the configuration. -/
structure ConfigCall (P : Type) where
  primitive : Primitive P
  params : List ConfigParam

/-- A call with what its parameters denote when it is made. -/
def ConfigCall.exec (call : ConfigCall P) (actionData : List ℤ) (s : P × Registers) : Option (P × Registers) := do
  let args ← (call.primitive.args.zip call.params).mapM fun p => p.2.denotes cast phv s.2 s.1 actionData p.1
  (call.primitive.body args s.1).run s.2

end Meaning

section Resolve

variable (cast : BignumCast) (names : ActionNames)

/-- What a parameter of the configuration stands for. -/
def JsonParam.resolve : JsonParam → Option ConfigParam
  | .hexstr value => (Data.ofHexstring value).map .const
  | .runtimeData offset => some (.place (.actionData offset))
  | .header name => (names.headerId name).map fun h => .place (.header h)
  | .field headerName fieldName => do
      let h ← names.headerId headerName
      let offset ← names.fieldOffset h fieldName
      pure (.place (.field h offset))
  | .calculation name => (names.calculation name).map fun c => .place (.calculation c)
  | .meterArray name => (names.meterArray name).map fun m => .place (.meterArray m)
  | .counterArray name => (names.counterArray name).map fun c => .place (.counterArray c)
  | .registerArray name => (names.registerArray name).map fun array => .place (.registerArray array)
  | .headerStack name => (names.headerStackId name).map fun s => .place (.headerStack s)
  | .expression value => (ActionLoader.buildExpr cast names value []).map fun e => .expression e.1
  | .register name index =>
      match index with
      | .hexstr value => do
          let value ← Data.ofHexstring value
          let idx ← cast.toUint value
          let array ← names.registerArray name
          pure (.place (.registerRef array idx))
      | index => do
          let idx ← ActionLoader.buildExpr cast names index []
          let array ← names.registerArray name
          pure (.registerGen array idx.1)
  | .externInstance name => (names.externInstance name).map fun e => .place (.externInstance e)

/-- What a call of the configuration stands for. -/
def JsonCall.resolve {P : Type} (opcodes : String → Option (Primitive P)) (call : JsonCall) : Option (ConfigCall P) :=
    do
  let primitive ← opcodes call.op
  let params ← call.parameters.mapM (JsonParam.resolve cast names)
  pure ⟨primitive, params⟩

end Resolve

end Bm
