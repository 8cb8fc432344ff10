/-
# Primitives of the target

The primitives of `primitives.cpp` that work on fields, headers, header stacks and registers.  What they do to a
register goes through the reference that they get for it.
-/
import Bmv2.Actions
import Bmv2.ArithFields
import Bmv2.HeaderValidity

namespace Bm

/-! ## References -/

/-- The `Data` behind a reference. -/
def Arg.get (arg : Arg) (packet : DataPHV) (k : Data → Prog DataPHV) : Prog DataPHV :=
  match arg with
  | .value data => k data
  | .field i offset =>
      match (packet.headers[i]?).bind fun h => h.fields[offset]? with
      | some f => k ⟨f.value, f.arith⟩
      | none => .abort
  | .register array idx => .readReg array idx fun value => k ⟨value, true⟩
  | _ => .abort

/-- `Data::set` of what is behind a reference. -/
def Arg.set (arg : Arg) (value : ℤ) (packet : DataPHV) : Prog DataPHV :=
  match arg with
  | .field i offset =>
      match packet.callHeader i fun h => some { h with fields := h.fields.modify offset (·.set value) } with
      | some packet => .ret packet
      | none => .abort
  | .register array idx => .writeReg array idx value (.ret packet)
  | _ => .abort

/-- A result that may be missing, because an assertion has failed. -/
def Prog.ofOption {X Y : Type} (x : Option X) (k : X → Prog Y) : Prog Y :=
  match x with
  | some x => k x
  | none => .abort

section Within

variable {arrays : List ℕ} {packet : DataPHV} {arg : Arg}

theorem Arg.get_within {k : Data → Prog DataPHV} (harg : arg.arrays ⊆ arrays) (hk : ∀ data, (k data).Within arrays) :
    (arg.get packet k).Within arrays := by
  cases arg with
  | value data => exact hk data
  | field i offset =>
    rw [get]
    split
    · exact hk _
    · trivial
  | register array idx =>
    constructor
    · exact harg List.mem_cons_self
    · intro value
      exact hk _
  | _ => trivial

theorem Arg.set_within (harg : arg.arrays ⊆ arrays) (value : ℤ) : (arg.set value packet).Within arrays := by
  cases arg with
  | field i offset =>
    rw [set]
    split <;> trivial
  | register array idx =>
    constructor
    · exact harg List.mem_cons_self
    · trivial
  | _ => trivial

theorem Prog.ofOption_within {X Y : Type} {x : Option X} {k : X → Prog Y} (hk : ∀ x, (k x).Within arrays) :
    (ofOption x k).Within arrays := by
  cases x with
  | none => trivial
  | some x => exact hk x

/-- The arrays of one of the arguments. -/
theorem Arg.arrays_subset {args : List Arg} (harg : arg ∈ args) : arg.arrays ⊆ args.flatMap Arg.arrays :=
  fun _ ha => List.mem_flatMap.mpr ⟨arg, harg, ha⟩

end Within

/-! ## Families of primitives -/

namespace Primitive

variable (cast : BignumCast)

/-- `f.op(d1, d2)`. -/
def ofDataOp (op : Data → Data → DataOp) : Primitive DataPHV where
  args := [.data, .constData, .constData]
  body
    | [f, d1, d2], packet =>
        d1.get packet fun src1 => d2.get packet fun src2 =>
          .ofOption ((op src1 src2).result cast) fun value => f.set value packet
    | _, _ => .abort
  within args packet := by
    split
    next f d1 d2 =>
      apply Arg.get_within (Arg.arrays_subset (by simp))
      intro src1
      apply Arg.get_within (Arg.arrays_subset (by simp))
      intro src2
      exact Prog.ofOption_within fun value => Arg.set_within (Arg.arrays_subset (by simp)) value
    next => trivial

/-- `f.op(f, d)`. -/
def ofFieldOp (op : Data → Data → DataOp) : Primitive DataPHV where
  args := [.field, .constData]
  body
    | [f, d], packet =>
        f.get packet fun src1 => d.get packet fun src2 =>
          .ofOption ((op src1 src2).result cast) fun value => f.set value packet
    | _, _ => .abort
  within args packet := by
    split
    next f d =>
      apply Arg.get_within (Arg.arrays_subset (by simp))
      intro src1
      apply Arg.get_within (Arg.arrays_subset (by simp))
      intro src2
      exact Prog.ofOption_within fun value => Arg.set_within (Arg.arrays_subset (by simp)) value
    next => trivial

/-- `stack.op(num.get_uint())`. -/
def ofStackCall (call : ℕ → StackCall) : Primitive DataPHV where
  args := [.headerStack, .constData]
  body
    | [.headerStack stack, num], packet =>
        num.get packet fun num => .ofOption (cast.toUint num.value) fun num =>
          .ofOption (packet.callStack stack (call num).exec) .ret
    | _, _ => .abort
  within args packet := by
    split
    next stack num =>
      apply Arg.get_within (Arg.arrays_subset (by simp))
      intro num
      exact Prog.ofOption_within fun num => Prog.ofOption_within fun packet => trivial
    next => trivial

/-- A call on a header. -/
def ofHeaderCall (call : DataHeader → DataHeader) : Primitive DataPHV where
  args := [.header]
  body
    | [.header header], packet => .ofOption (packet.callHeader header fun h => some (call h)) .ret
    | _, _ => .abort
  within args packet := by
    split
    next header => exact Prog.ofOption_within fun packet => trivial
    next => trivial

/-! ## The primitives -/

/-- `modify_field`. -/
def modifyField : Primitive DataPHV where
  args := [.data, .constData]
  body
    | [dst, src], packet => src.get packet fun src => dst.set src.value packet
    | _, _ => .abort
  within args packet := by
    split
    next dst src =>
      apply Arg.get_within (Arg.arrays_subset (by simp))
      intro src
      exact Arg.set_within (Arg.arrays_subset (by simp)) _
    next => trivial

def addToField : Primitive DataPHV := .ofFieldOp cast .add

def subtractFromField : Primitive DataPHV := .ofFieldOp cast .sub

def add : Primitive DataPHV := .ofDataOp cast .add

def subtract : Primitive DataPHV := .ofDataOp cast .sub

def bitXor : Primitive DataPHV := .ofDataOp cast .bitXor

def bitOr : Primitive DataPHV := .ofDataOp cast .bitOr

def bitAnd : Primitive DataPHV := .ofDataOp cast .bitAnd

def shiftLeft : Primitive DataPHV := .ofDataOp cast .shiftLeft

def shiftRight : Primitive DataPHV := .ofDataOp cast .shiftRight

/-- `register_read`. -/
def registerRead : Primitive DataPHV where
  args := [.field, .registerArray, .constData]
  body
    | [dst, .registerArray src, idx], packet =>
        idx.get packet fun idx => .ofOption (cast.toUint idx.value) fun idx =>
          .readReg src idx fun value => dst.set value packet
    | _, _ => .abort
  within args packet := by
    split
    next dst src idx =>
      apply Arg.get_within (Arg.arrays_subset (by simp))
      intro idx
      apply Prog.ofOption_within
      intro idx
      constructor
      · exact @Arg.arrays_subset (.registerArray src) _ (by simp) _ List.mem_cons_self
      · intro value
        exact Arg.set_within (Arg.arrays_subset (by simp)) value
    next => trivial

/-- `register_write`. -/
def registerWrite : Primitive DataPHV where
  args := [.registerArray, .constData, .constData]
  body
    | [.registerArray dst, idx, src], packet =>
        idx.get packet fun idx => .ofOption (cast.toUint idx.value) fun idx =>
          src.get packet fun src => .writeReg dst idx src.value (.ret packet)
    | _, _ => .abort
  within args packet := by
    split
    next dst idx src =>
      apply Arg.get_within (Arg.arrays_subset (by simp))
      intro idx
      apply Prog.ofOption_within
      intro idx
      apply Arg.get_within (Arg.arrays_subset (by simp))
      intro src
      constructor
      · exact @Arg.arrays_subset (.registerArray dst) _ (by simp) _ List.mem_cons_self
      · trivial
    next => trivial

def push : Primitive DataPHV := .ofStackCall cast .pushFront

def pop : Primitive DataPHV := .ofStackCall cast .popFront

/-- `add_header_fast`. -/
def addHeaderFast : Primitive DataPHV := .ofHeaderCall DataHeader.markValid

/-- `no_op`. -/
def noOp : Primitive DataPHV where
  args := []
  body _ packet := .ret packet
  within _ _ := trivial

/-- `ActionOpcodesMap`, with the names under which the primitives are registered. -/
def opcodesMap (name : String) : Option (Primitive DataPHV) :=
  List.lookup name
    [("modify_field", modifyField), ("add_to_field", addToField cast), ("subtract_from_field", subtractFromField cast),
      ("add", add cast), ("subtract", subtract cast), ("bit_xor", bitXor cast), ("bit_or", bitOr cast),
      ("bit_and", bitAnd cast), ("shift_left", shiftLeft cast), ("shift_right", shiftRight cast),
      ("register_read", registerRead cast), ("register_write", registerWrite cast), ("push", push cast),
      ("pop", pop cast), ("add_header_fast", addHeaderFast), ("no_op", noOp)]

end Primitive

end Bm
