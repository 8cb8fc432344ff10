/-
# Threads that execute actions

Threads with packets execute actions, and threads of the control plane make the calls of `Context` about registers
(`context.cpp`).  `RegisterSync` (`stateful.h`) locks all arrays of an action at once; a call locks its array, but
`reset_state` only makes a lock that holds no mutex.

A thread goes from one access of a register to the next one, so that the accesses of different threads come in any
order.
-/
import Bmv2.ActionArguments
import Bmv2.Lib.Transactions

namespace Bm

/-! ## Calls of the control plane -/

/-- What a call returns. -/
inductive RegisterReply where
  | success
  | value (value : ℤ)
  | invalidRegisterName
  | invalidIndex
  deriving DecidableEq

/-- The calls of `Context` about the registers of an array. -/
inductive RegisterCall where
  | read (idx : ℕ)
  | write (idx : ℕ) (value : ℤ)
  | writeRange (start stop : ℕ) (value : ℤ)
  | reset
  deriving DecidableEq

namespace RegisterCall

/-- The loop of `register_write_range`. -/
def writeFrom (array : ℕ) (value : ℤ) : ℕ → ℕ → Prog RegisterReply
  | _, 0 => .ret .success
  | idx, n + 1 => .writeReg array idx value (writeFrom array value (idx + 1) n)

/-- The body of the call.  The code asks for the size, which never changes, before it locks the array. -/
def prog (array : ℕ) : RegisterCall → Prog RegisterReply
  | .read idx => .size array fun size =>
      if size ≤ idx then .ret .invalidIndex else .readReg array idx fun value => .ret (.value value)
  | .write idx value => .size array fun size =>
      if size ≤ idx then .ret .invalidIndex else .writeReg array idx value (.ret .success)
  | .writeRange start stop value => .size array fun size =>
      if size < stop ∨ stop < start then .ret .invalidIndex else writeFrom array value start (stop - start)
  | .reset => .resetArray array (.ret .success)

end RegisterCall

/-- A call, with the name of the array. -/
structure RegisterRequest where
  name : String
  call : RegisterCall
  deriving DecidableEq

section Requests

variable (find : String → Option ℕ)

/-- `register_read`, `register_write`, `register_write_range` and `register_reset`. -/
def RegisterRequest.prog (r : RegisterRequest) : Prog RegisterReply :=
  match find r.name with
  | none => .ret .invalidRegisterName
  | some array => r.call.prog array

/-- The array of a call. -/
def RegisterRequest.arrays (r : RegisterRequest) : List ℕ := (find r.name).toList

/-- The mutexes that are locked. -/
def RegisterRequest.locked (r : RegisterRequest) : List ℕ :=
  match r.call with
  | .reset => []
  | _ => r.arrays find

end Requests

/-! ## One argument at a time -/

section To

variable {P : Type} (cast : BignumCast) (phv : P → DataPHV) (g : VectorGrowth) (registers : Registers)

/-- The expression that `to` evaluates, and `data_temps` when it does. -/
def ActionParam.evaluates (temps : DataTemps) : ArgType → ActionParam → Option (Expression × DataTemps)
  | .data, .registerGen _ idx => some (idx, temps)
  | .constData, .registerGen _ idx => some (idx, temps)
  | .constData, .expression offset ptr => some (ptr, temps.reach g offset)
  | _, _ => none

/-- What `to` does with the value of the expression. -/
def ActionParam.finish (temps : DataTemps) (value : ℤ) : ArgType → ActionParam → Option (Ref × DataTemps)
  | .data, .registerGen array _ => (registerIndex cast registers array value).map fun arg => (.fixed arg, temps)
  | .constData, .registerGen array _ =>
      (registerIndex cast registers array value).map fun arg => (.fixed arg, temps.write 0 value)
  | .constData, .expression offset _ => some (.temp temps.room.buffer offset, temps.write offset value)
  | _, _ => none

end To

/-! ## Actions step by step -/

/-- The call of a primitive that a thread is at. -/
structure CallFrame (P : Type) where
  packet : P
  call : ℕ
  paramOffset : ℕ
  primitive : Primitive P
  rest : List (Primitive P)

/-- How far an action has been executed. -/
inductive ActionFrame (P : Type) where
  /-- Before the next call. -/
  | next (packet : P) (call paramOffset : ℕ) (primitives : List (Primitive P))
  /-- Before an argument of a call, or before its body. -/
  | args (c : CallFrame P) (todo : List ℕ) (args : List (Option Ref))
  /-- In the expression for an argument. -/
  | eval (c : CallFrame P) (todo : List ℕ) (args : List (Option Ref)) (i : ℕ) (param : ActionParam) (ty : ArgType)
      (e : Expression) (s : EvalState) (ops : List Op)
  /-- In the body of the primitive. -/
  | body (c : CallFrame P) (prog : Prog P)

section Frame

variable {P : Type} (cast : BignumCast) (phv : P → DataPHV) (g : VectorGrowth) (fn : ActionFn P) (actionData : List ℤ)
  (orders : ℕ → List ℕ) (temps : DataTemps) (registers : Registers)

/-- What `to` and expressions see. -/
def CallFrame.state (c : CallFrame P) : ActionEngineState P := ⟨c.packet, actionData, fn.constValues⟩

/-- An argument has been evaluated. -/
def ActionFrame.put (c : CallFrame P) (todo : List ℕ) (args : List (Option Ref)) (i : ℕ) (r : Ref × DataTemps) :
    ActionFrame P × DataTemps :=
  (.args c todo (args.set i (some r.1)), r.2)

/-- One step; it has at most one access to a register. -/
def ActionFrame.step : ActionFrame P → Option ((ActionFrame P × DataTemps) × Registers)
  | .next _ _ _ [] => none
  | .next packet call paramOffset (primitive :: rest) =>
      some ((.args ⟨packet, call, paramOffset, primitive, rest⟩ (orders call)
        (List.replicate primitive.getNumParams none), temps), registers)
  | .args c (i :: todo) done => do
      let param ← fn.params[c.paramOffset + i]?
      let ty ← c.primitive.args[i]?
      match param.evaluates g temps ty with
      | none =>
          (param.place phv registers (c.state fn actionData) ty).map fun arg =>
            (put c todo done i (.fixed arg, temps), registers)
      | some (e, temps) =>
          -- an empty expression is 0
          if e.ops = [] then (param.finish cast registers temps 0 ty).map fun r => (put c todo done i r, registers)
          else some ((.eval c todo done i param ty e (e.start temps.evalTemps) e.ops, temps), registers)
  | .args c [] done => (loadArgs done temps).map fun args => ((.body c (c.primitive.body args c.packet), temps),
    registers)
  | .eval c todo done i param ty e s (op :: ops) =>
      (op.step cast e.constValues ((c.state fn actionData).env phv registers) s).toOption.map fun s =>
        ((.eval c todo done i param ty e s ops, temps), registers)
  | .eval c todo done i param ty _ s [] => do
      let (d, _) ← s.popData.toOption
      (param.finish cast registers { temps with evalTemps := s.temps } d.value ty).map fun r =>
        (put c todo done i r, registers)
  | .body c (.ret packet) =>
      some ((.next packet (c.call + 1) (c.paramOffset + c.primitive.getNumParams) c.rest, temps), registers)
  | .body c prog => (prog.step registers).map fun s => ((.body c s.1, temps), s.2)

/-- What is left of a call, when its arguments are left from `todo` on. -/
def CallFrame.restArgs (c : CallFrame P) (todo : List ℕ) (args : List (Option Ref)) (temps : DataTemps) :
    Option (DataTemps × P × Registers) := do
  let (args, temps) ← todo.foldlM
    (resolveArg cast phv g registers fn (c.state fn actionData) c.primitive c.paramOffset) (args, temps)
  let args ← loadArgs args temps
  let (packet, registers) ← (c.primitive.body args c.packet).run registers
  executePrimitives cast phv g fn actionData orders (c.call + 1) (c.paramOffset + c.primitive.getNumParams) c.rest temps
    packet registers

/-- What the rest of the action does when no other thread comes in between. -/
def ActionFrame.rest : ActionFrame P → Option (DataTemps × P × Registers)
  | .next packet call paramOffset primitives =>
      executePrimitives cast phv g fn actionData orders call paramOffset primitives temps packet registers
  | .args c todo done => c.restArgs cast phv g fn actionData orders registers todo done temps
  | .eval c todo done i param ty e s ops => do
      let s ← (ops.foldlM (Op.step cast e.constValues ((c.state fn actionData).env phv registers)) s).toOption
      let (d, _) ← s.popData.toOption
      let (ref, temps) ← param.finish cast registers { temps with evalTemps := s.temps } d.value ty
      c.restArgs cast phv g fn actionData orders registers todo (done.set i (some ref)) temps
  | .body c prog => do
      let (packet, registers) ← prog.run registers
      executePrimitives cast phv g fn actionData orders (c.call + 1) (c.paramOffset + c.primitive.getNumParams) c.rest
        temps packet registers

end Frame

/-! ## Threads -/

/-- The orders of evaluation in the calls of an action. -/
structure EvalOrders where
  order : ℕ → ℕ → List ℕ
  perm : ∀ call n, (order call n).Perm (List.range n)

/-- The orders for the primitives of an action. -/
def EvalOrders.of {P : Type} (o : EvalOrders) (primitives : List (Primitive P)) (call : ℕ) : List ℕ :=
  o.order call ((primitives[call]?).elim 0 Primitive.getNumParams)

/-- What a thread is asked for: an action of the configuration with a packet, or a call. -/
inductive ActionRequest (P : Type) where
  | action (action : ℕ) (actionData : List ℤ) (orders : EvalOrders) (packet : P)
  | register (request : RegisterRequest)

/-- What comes of a request. -/
inductive ActionOutcome (P : Type) where
  | packet (packet : P)
  | reply (reply : RegisterReply)
  deriving DecidableEq

/-- What a thread is at. -/
inductive ActionTask (P : Type) where
  | idle
  | action (fn : ActionFn P) (actionData : List ℤ) (orders : EvalOrders) (frame : ActionFrame P)
  | register (request : RegisterRequest) (prog : Prog RegisterReply)

/-- A thread, with its thread-local variables. -/
structure ActionThread (P : Type) where
  temps : DataTemps := {}
  task : ActionTask P := .idle

namespace ActionThread

variable {P : Type} (w : ActionThread P)

/-- What has come of the request when it is finished. -/
def outcome : Option (ActionOutcome P) :=
  match w.task with
  | .action _ _ _ (.next packet _ _ []) => some (.packet packet)
  | .register _ (.ret reply) => some (.reply reply)
  | _ => none

/-- The arrays that are read or written. -/
def uses (find : String → Option ℕ) : List ℕ :=
  match w.task with
  | .idle => []
  | .action fn _ _ _ => fn.registerSync
  | .register request _ => request.arrays find

/-- The arrays whose mutexes are locked. -/
def locks (find : String → Option ℕ) : List ℕ :=
  match w.task with
  | .idle => []
  | .action fn _ _ _ => fn.registerSync
  | .register request _ => request.locked find

/-- One step of a thread. -/
def step (cast : BignumCast) (phv : P → DataPHV) (g : VectorGrowth) (registers : Registers) :
    Option (ActionThread P × Registers) :=
  match w.task with
  | .idle => none
  | .action fn actionData orders frame =>
      (frame.step cast phv g fn actionData (orders.of fn.primitives) w.temps registers).map fun s =>
        (⟨s.1.2, .action fn actionData orders s.1.1⟩, s.2)
  | .register request prog => (prog.step registers).map fun s => ({ w with task := .register request s.1 }, s.2)

end ActionThread

section Machine

variable {P : Type} (cast : BignumCast) (phv : P → DataPHV) (g : VectorGrowth) (find : String → Option ℕ)

/-- The threads of a switch with these actions. -/
def actionMachine (fns : List (ActionFn P)) : Machine ℕ RegisterArray (ActionThread P) (ActionRequest P) where
  start
    | .action i actionData orders packet, w => (fns[i]?).map fun fn =>
        { w with task := .action fn actionData orders (.next packet 0 0 fn.primitives) }
    | .register request, w => some { w with task := .register request (request.prog find) }
  step w registers := w.step cast phv g registers
  finished w := w.outcome.isSome
  locks w := (w.locks find).toFinset
  uses w := (w.uses find).toFinset

/-- Threads before their first requests. -/
def freshThreads (T : Type) (registers : Registers) : Machine.Sys T ℕ RegisterArray (ActionThread P) :=
  ⟨registers, fun _ => {}, ∅⟩

/-- **One request**, as the configuration has it, with no other request at the same time. -/
def performs {T : Type} [DecidableEq T] (calls : List (List (ConfigCall P)))
    (s : Registers × (T → Option (ActionOutcome P))) : T × ActionRequest P → Option (Registers × (T →
      Option (ActionOutcome P)))
  | (t, .action i actionData _ packet) => do
      let cs ← calls[i]?
      let (packet, registers) ← runCalls cast phv actionData cs (packet, s.1)
      pure (registers, Function.update s.2 t (some (.packet packet)))
  | (t, .register request) => do
      let (reply, registers) ← (request.prog find).run s.1
      pure (registers, Function.update s.2 t (some (.reply reply)))

end Machine

end Bm
