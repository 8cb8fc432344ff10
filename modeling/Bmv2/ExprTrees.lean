/-
# What an expression means

A well-typed expression of the configuration is a tree: `Elaborates` gives the
tree that it denotes, and `Expr.eval` its value, by recursion.  `Expr.code` is the
program that the loader builds for the tree.
-/
import Bmv2.Expressions

namespace Bm

/-- The types of expressions. -/
inductive ExprTy where
  | bool | data | header
  deriving DecidableEq

/-- The values of a type. -/
def ExprTy.Value : ExprTy → Type
  | .bool => Bool
  | .data => ℤ
  | .header => DataHeader

/-- An expression with its names resolved. -/
inductive Expr : ExprTy → Type where
  | header (header : ℕ) : Expr .header
  | field (header offset : ℕ) : Expr .data
  | bool (value : Bool) : Expr .bool
  | const (value : ℤ) : Expr .data
  | localData (offset : ℤ) : Expr .data
  | register (array : ℕ) (index : Expr .data) : Expr .data
  | arith (op : ExprOpcode) (hop : op.isArith = true) (l r : Expr .data) : Expr .data
  | compare (op : ExprOpcode) (hop : op.isCompare = true) (l r : Expr .data) : Expr .bool
  | bitNeg (e : Expr .data) : Expr .data
  | and (l r : Expr .bool) : Expr .bool
  | or (l r : Expr .bool) : Expr .bool
  | not (e : Expr .bool) : Expr .bool
  | valid (e : Expr .header) : Expr .bool
  | dataToBool (e : Expr .data) : Expr .bool
  | boolToData (e : Expr .bool) : Expr .data
  | ternary {ty : ExprTy} (cond : Expr .bool) (l r : Expr ty) : Expr ty

namespace Expr

/-- The value of an expression.  `none`: an operation is applied to a number that it does not take,
or there is no such header, field, parameter or register. -/
def eval (cast : BignumCast) (env : ExprEnv) : {ty : ExprTy} → Expr ty → Option ty.Value
  | _, .header h => env.getHeader h
  | _, .field h o => (env.getField h o).map fun f => f.value
  | _, .bool b => some b
  | _, .const v => some v
  | _, .localData o => env.getLocal o
  | _, .register array index => do
      let v : ℤ ← index.eval cast env
      if 0 ≤ v then env.getRegister array v.toNat else none
  | _, .arith op _ l r => do
      let lv : ℤ ← l.eval cast env
      let rv : ℤ ← r.eval cast env
      op.arith cast lv rv
  | _, .compare op _ l r => do
      let lv : ℤ ← l.eval cast env
      let rv : ℤ ← r.eval cast env
      some (op.compare lv rv)
  | _, .bitNeg e => do
      let v : ℤ ← e.eval cast env
      some (Int.not v)
  | _, .and l r => do
      let lv : Bool ← l.eval cast env
      let rv : Bool ← r.eval cast env
      some (lv && rv)
  | _, .or l r => do
      let lv : Bool ← l.eval cast env
      let rv : Bool ← r.eval cast env
      some (lv || rv)
  | _, .not e => do
      let v : Bool ← e.eval cast env
      some !v
  | _, .valid e => do
      let h : DataHeader ← e.eval cast env
      some h.isValid
  | _, .dataToBool e => do
      let v : ℤ ← e.eval cast env
      some (v != 0)
  | _, .boolToData e => do
      let v : Bool ← e.eval cast env
      some (if v then 1 else 0 : ℤ)
  | _, .ternary cond l r => do
      let v : Bool ← cond.eval cast env
      if v then l.eval cast env else r.eval cast env

/-- The fields of an expression, in the order of the source text. -/
def fields : {ty : ExprTy} → Expr ty → List (ℕ × ℕ)
  | _, .field h o => [(h, o)]
  | _, .register _ e | _, .bitNeg e | _, .not e | _, .valid e | _, .dataToBool e
  | _, .boolToData e => e.fields
  | _, .arith _ _ l r | _, .compare _ _ l r | _, .and l r | _, .or l r => l.fields ++ r.fields
  | _, .ternary cond l r => cond.fields ++ l.fields ++ r.fields
  | _, .header _ | _, .bool _ | _, .const _ | _, .localData _ => []

/-- The value of a literal. -/
def literal : {ty : ExprTy} → Expr ty → Option ℤ
  | _, .const v => some v
  | _, _ => none

end Expr

/-- The well-typed expressions and the trees that they denote. -/
inductive Elaborates (names : ExprNames) : JsonExpr → {ty : ExprTy} → Expr ty → Prop where
  | header {name : String} {h : ℕ} (hid : names.headerId name = some h) :
      Elaborates names (.header name) (.header h)
  | field {name field : String} {h o : ℕ} (hid : names.headerId name = some h)
      (hoff : names.fieldOffset h field = some o) :
      Elaborates names (.field name field) (.field h o)
  | bool (b : Bool) : Elaborates names (.bool b) (.bool b)
  | hexstr {s : String} {v : ℤ} (hv : Data.ofHexstring s = some v) :
      Elaborates names (.hexstr s) (.const v)
  | localData (offset : ℤ) : Elaborates names (.localData offset) (.localData offset)
  | register {name : String} {a : ℕ} {index : JsonExpr} {e : Expr .data}
      (hid : names.registerArray name = some a) (he : Elaborates names index e) :
      Elaborates names (.register name index) (.register a e)
  | arith {op : String} {cond left right : JsonExpr} {l r : Expr .data}
      (hop : (ExprOpcode.getOpcode op).isArith = true) (hl : Elaborates names left l)
      (hr : Elaborates names right r) :
      Elaborates names (.expression op cond left right) (.arith (.getOpcode op) hop l r)
  | sign {op : String} {cond right : JsonExpr} {r : Expr .data}
      (hop : (ExprOpcode.getOpcode op).isArith = true) (hsign : op = "+" ∨ op = "-")
      (hr : Elaborates names right r) :
      Elaborates names (.expression op cond .null right) (.arith (.getOpcode op) hop (.const 0) r)
  | compare {op : String} {cond left right : JsonExpr} {l r : Expr .data}
      (hop : (ExprOpcode.getOpcode op).isCompare = true) (hl : Elaborates names left l)
      (hr : Elaborates names right r) :
      Elaborates names (.expression op cond left right) (.compare (.getOpcode op) hop l r)
  | bitNeg {cond right : JsonExpr} {e : Expr .data} (he : Elaborates names right e) :
      Elaborates names (.expression "~" cond .null right) (.bitNeg e)
  | and {cond left right : JsonExpr} {l r : Expr .bool} (hl : Elaborates names left l)
      (hr : Elaborates names right r) :
      Elaborates names (.expression "and" cond left right) (.and l r)
  | or {cond left right : JsonExpr} {l r : Expr .bool} (hl : Elaborates names left l)
      (hr : Elaborates names right r) :
      Elaborates names (.expression "or" cond left right) (.or l r)
  | not {cond right : JsonExpr} {e : Expr .bool} (he : Elaborates names right e) :
      Elaborates names (.expression "not" cond .null right) (.not e)
  | valid {cond right : JsonExpr} {e : Expr .header} (he : Elaborates names right e) :
      Elaborates names (.expression "valid" cond .null right) (.valid e)
  | dataToBool {cond right : JsonExpr} {e : Expr .data} (he : Elaborates names right e) :
      Elaborates names (.expression "d2b" cond .null right) (.dataToBool e)
  | boolToData {cond right : JsonExpr} {e : Expr .bool} (he : Elaborates names right e) :
      Elaborates names (.expression "b2d" cond .null right) (.boolToData e)
  | ternary {cond left right : JsonExpr} {c : Expr .bool} {ty : ExprTy} {l r : Expr ty}
      (hc : Elaborates names cond c) (hl : Elaborates names left l)
      (hr : Elaborates names right r) :
      Elaborates names (.expression "?" cond left right) (.ternary c l r)

/-! ## The program of a tree -/

namespace Expression

theorem append_empty (e : Expression) : e.appendExpression .empty = e := by
  simp [appendExpression, empty]

theorem shiftOp_shiftOp (m n : ℕ) (op : Op) : shiftOp m (shiftOp n op) = shiftOp (n + m) op := by
  obtain ⟨opcode, operand⟩ := op
  cases opcode <;> cases operand <;> simp [shiftOp, Nat.add_assoc]

theorem shiftOp_zero (op : Op) : shiftOp 0 op = op := by
  obtain ⟨opcode, operand⟩ := op
  cases opcode <;> cases operand <;> rfl

theorem append_assoc (a b c : Expression) :
    (a.appendExpression b).appendExpression c = a.appendExpression (b.appendExpression c) := by
  simp only [appendExpression, List.map_append, List.map_map, List.append_assoc,
    List.length_append, Expression.mk.injEq, and_true, List.append_cancel_left_eq]
  refine List.map_congr_left fun op _ => ?_
  rw [Function.comp_apply, shiftOp_shiftOp, Nat.add_comm]

theorem append_pushOp (a b : Expression) {opcode : ExprOpcode} {operand : Operand}
    (hop : opcode ≠ .loadConst) :
    (a.appendExpression b).pushOp opcode operand = a.appendExpression (b.pushOp opcode operand) := by
  have hshift : shiftOp a.constValues.length ⟨opcode, operand⟩ = ⟨opcode, operand⟩ := by
    cases opcode <;> first | rfl | exact absurd rfl hop
  simp [appendExpression, pushOp, hshift]

theorem append_pushBackLoadConst (a b : Expression) (v : ℤ) :
    (a.appendExpression b).pushBackLoadConst v = a.appendExpression (b.pushBackLoadConst v) := by
  simp [appendExpression, pushBackLoadConst, pushOp, shiftOp, Nat.add_comm]

theorem append_pushBackTernaryOp (a b e1 e2 : Expression) :
    (a.appendExpression b).pushBackTernaryOp e1 e2 =
      a.appendExpression (b.pushBackTernaryOp e1 e2) := by
  unfold pushBackTernaryOp
  dsimp only
  rw [append_pushOp a _ (by decide), append_pushOp a _ (by decide), append_assoc a,
    append_pushOp a _ (by decide), append_assoc a]

/-- The branches of a ternary operation are built in expressions of their own. -/
theorem pushBackTernaryOp_empty_append (e e1 e2 : Expression) :
    e.pushBackTernaryOp (empty.appendExpression e1) (empty.appendExpression e2) =
      e.pushBackTernaryOp e1 e2 := by
  have hzero : ∀ ops : List Op, ops.map (shiftOp 0) = ops := fun ops => by
    rw [show shiftOp 0 = id from funext shiftOp_zero, List.map_id]
  simp [pushBackTernaryOp, appendExpression, empty, hzero]

end Expression

/-- The program for a tree; `none` when the index of a register is a literal that is no number of
the machine. -/
def Expr.code (cast : BignumCast) : {ty : ExprTy} → Expr ty → Option Expression
  | _, .header h => some (Expression.empty.pushBackLoadHeader h)
  | _, .field h o => some (Expression.empty.pushBackLoadField h o)
  | _, .bool b => some (Expression.empty.pushBackLoadBool b)
  | _, .const v => some (Expression.empty.pushBackLoadConst v)
  | _, .localData o => some (Expression.empty.pushBackLoadLocal o)
  | _, .register array index =>
      match index.literal with
      | some v => (cast.toUint v).map fun idx =>
          Expression.empty.pushBackLoadRegisterRef array idx
      | none => (index.code cast).map fun e => e.pushBackLoadRegisterGen array
  | _, .arith op _ l r => do
      let l ← l.code cast
      let r ← r.code cast
      pure ((l.appendExpression r).pushBackOp op)
  | _, .compare op _ l r => do
      let l ← l.code cast
      let r ← r.code cast
      pure ((l.appendExpression r).pushBackOp op)
  | _, .and l r => do
      let l ← l.code cast
      let r ← r.code cast
      pure ((l.appendExpression r).pushBackOp .and)
  | _, .or l r => do
      let l ← l.code cast
      let r ← r.code cast
      pure ((l.appendExpression r).pushBackOp .or)
  | _, .bitNeg e => (e.code cast).map fun e => e.pushBackOp .bitNeg
  | _, .not e => (e.code cast).map fun e => e.pushBackOp .not
  | _, .valid e => (e.code cast).map fun e => e.pushBackOp .validHeader
  | _, .dataToBool e => (e.code cast).map fun e => e.pushBackOp .dataToBool
  | _, .boolToData e => (e.code cast).map fun e => e.pushBackOp .boolToData
  | _, .ternary cond l r => do
      let cond ← cond.code cast
      let l ← l.code cast
      let r ← r.code cast
      pure (cond.pushBackTernaryOp l r)

/-! ## The loader builds this program -/

section Build

variable {cast : BignumCast} {names : ExprNames}

theorem Elaborates.ne_null {json : JsonExpr} {ty : ExprTy} {t : Expr ty}
    (h : Elaborates names json t) : json ≠ .null := by
  rintro rfl
  cases h

/-- A literal in the tree is a literal in the text. -/
theorem Elaborates.literal_eq_some {json : JsonExpr} {ty : ExprTy} {t : Expr ty} {v : ℤ}
    (h : Elaborates names json t) (hv : t.literal = some v) :
    ∃ s, json = .hexstr s ∧ Data.ofHexstring s = some v := by
  cases h with
  | hexstr hs =>
    obtain rfl := Option.some.inj hv
    exact ⟨_, rfl, hs⟩
  | _ => cases hv

theorem Elaborates.literal_eq_none {json : JsonExpr} {ty : ExprTy} {t : Expr ty}
    (h : Elaborates names json t) (hv : t.literal = none) (s : String) : json ≠ .hexstr s := by
  rintro rfl
  cases h
  cases hv

theorem getOpcode_ne_ternary {op : String} {p : ExprOpcode → Bool}
    (hop : p (.getOpcode op) = true) (hp : p .ternaryOp = false) : op ≠ "?" := by
  rintro rfl
  exact absurd (hop.symm.trans hp) (by decide)

/-- `push_back` at the end of an expression. -/
theorem Expression.pushOp_eq_append (e : Expression) {opcode : ExprOpcode} {operand : Operand}
    (hop : opcode ≠ .loadConst) :
    e.pushOp opcode operand = e.appendExpression (Expression.empty.pushOp opcode operand) := by
  rw [← append_pushOp _ _ hop, append_empty]

/-- An operation with two operands, after their programs. -/
theorem buildExpression_binary {op : String} {cond left right : JsonExpr} {ty ty' : ExprTy}
    {l : Expr ty} {r : Expr ty'} (hne : op ≠ "?") (hleft : left ≠ .null)
    (hconst : ExprOpcode.getOpcode op ≠ .loadConst)
    (hl : ∀ e arith, buildExpression cast names left (e, arith) =
      (l.code cast).map fun c => (e.appendExpression c, arith ++ l.fields))
    (hr : ∀ e arith, buildExpression cast names right (e, arith) =
      (r.code cast).map fun c => (e.appendExpression c, arith ++ r.fields))
    (e : Expression) (arith : List (ℕ × ℕ)) :
    buildExpression cast names (.expression op cond left right) (e, arith) =
      (do
        let l ← l.code cast
        let r ← r.code cast
        pure ((l.appendExpression r).pushBackOp (.getOpcode op)) : Option Expression).map
        fun c => (e.appendExpression c, arith ++ (l.fields ++ r.fields)) := by
  rw [buildExpression, if_neg hne, if_neg (fun h => hleft h.2), hl]
  cases l.code cast with
  | none => rfl
  | some lc =>
    simp only [Option.map_some, Option.bind_eq_bind, Option.bind_some, hr]
    cases r.code cast with
    | none => rfl
    | some rc =>
      simp only [Option.map_some, Option.bind_some, Option.pure_def, Expression.append_assoc,
        List.append_assoc, Expression.pushBackOp, Expression.append_pushOp _ _ hconst]

/-- An operation with one operand. -/
theorem buildExpression_unary {op : String} {cond right : JsonExpr} {ty : ExprTy} {t : Expr ty}
    (hne : op ≠ "?") (hsign : ¬ (op = "+" ∨ op = "-"))
    (hconst : ExprOpcode.getOpcode op ≠ .loadConst)
    (ht : ∀ e arith, buildExpression cast names right (e, arith) =
      (t.code cast).map fun c => (e.appendExpression c, arith ++ t.fields))
    (e : Expression) (arith : List (ℕ × ℕ)) :
    buildExpression cast names (.expression op cond .null right) (e, arith) =
      ((t.code cast).map fun c => c.pushBackOp (.getOpcode op)).map
        fun c => (e.appendExpression c, arith ++ t.fields) := by
  rw [buildExpression, if_neg hne, if_neg (fun h => hsign h.1), buildExpression]
  simp only [Option.bind_eq_bind, Option.bind_some, ht]
  cases t.code cast with
  | none => rfl
  | some c =>
    simp only [Option.map_some, Option.bind_some, Option.pure_def, Expression.pushBackOp,
      Expression.append_pushOp _ _ hconst]

/-- A register with an index that is not a number. -/
theorem buildExpression_register {name : String} {index : JsonExpr} (hnull : index ≠ .null)
    (hhex : ∀ s, index ≠ .hexstr s) (e : Expression) (arith : List (ℕ × ℕ)) :
    buildExpression cast names (.register name index) (e, arith) = (do
      let (expr, arith) ← buildExpression cast names index (e, arith)
      let array ← names.registerArray name
      pure (expr.pushBackLoadRegisterGen array, arith)) := by
  cases index with
  | null => exact absurd rfl hnull
  | hexstr s => exact absurd rfl (hhex s)
  | _ => rfl

/-- The loader appends the program of the tree, and sets up the fields of the tree for
arithmetic. -/
theorem Elaborates.build {json : JsonExpr} {ty : ExprTy} {t : Expr ty}
    (h : Elaborates names json t) (e : Expression) (arith : List (ℕ × ℕ)) :
    buildExpression cast names json (e, arith) =
      (t.code cast).map fun c => (e.appendExpression c, arith ++ t.fields) := by
  induction h generalizing e arith with
  | header hid =>
    simp [buildExpression, Expr.code, Expr.fields, hid, Expression.pushBackLoadHeader,
      e.pushOp_eq_append]
  | field hid hoff =>
    simp [buildExpression, Expr.code, Expr.fields, hid, hoff, Expression.pushBackLoadField,
      e.pushOp_eq_append]
  | bool b =>
    simp [buildExpression, Expr.code, Expr.fields, Expression.pushBackLoadBool,
      e.pushOp_eq_append]
  | hexstr hv =>
    simp [buildExpression, Expr.code, Expr.fields, hv, ← Expression.append_pushBackLoadConst,
      Expression.append_empty]
  | localData offset =>
    simp [buildExpression, Expr.code, Expr.fields, Expression.pushBackLoadLocal,
      e.pushOp_eq_append]
  | @register name a index t hid ht ih =>
    cases hlit : t.literal with
    | some v =>
      obtain ⟨s, rfl, hs⟩ := ht.literal_eq_some hlit
      have hfields : t.fields = [] := by
        cases ht
        rfl
      cases hidx : cast.toUint v with
      | none => simp [buildExpression, Expr.code, hlit, hs, hidx]
      | some idx =>
        simp [buildExpression, Expr.code, Expr.fields, hlit, hs, hidx, hid, hfields,
          Expression.pushBackLoadRegisterRef, e.pushOp_eq_append]
    | none =>
      rw [buildExpression_register ht.ne_null (ht.literal_eq_none hlit), ih]
      simp only [Expr.code, hlit, Expr.fields]
      cases t.code cast with
      | none => rfl
      | some c =>
        simp [hid, Expression.pushBackLoadRegisterGen, Expression.append_pushOp]
  | @arith op cond left right l r hop hl hr ihl ihr =>
    exact buildExpression_binary (getOpcode_ne_ternary hop rfl) hl.ne_null
      (fun hc => by rw [hc] at hop; cases hop) ihl ihr e arith
  | @sign op cond right r hop hsign hr ih =>
    rw [buildExpression, if_neg (getOpcode_ne_ternary hop rfl), if_pos ⟨hsign, rfl⟩]
    simp only [Option.bind_eq_bind, Option.bind_some, ih, Expr.code, Expr.fields]
    cases r.code cast with
    | none => rfl
    | some c =>
      have hconst : ExprOpcode.getOpcode op ≠ .loadConst := fun hc => by
        rw [hc] at hop
        cases hop
      simp [Expression.pushBackOp, ← Expression.append_pushOp _ _ hconst,
        ← Expression.append_assoc, ← Expression.append_pushBackLoadConst, Expression.append_empty]
  | @compare op cond left right l r hop hl hr ihl ihr =>
    exact buildExpression_binary (getOpcode_ne_ternary hop rfl) hl.ne_null
      (fun hc => by rw [hc] at hop; cases hop) ihl ihr e arith
  | bitNeg he ih | not he ih | valid he ih | dataToBool he ih | boolToData he ih =>
    exact buildExpression_unary (by decide) (by decide) (by decide) ih e arith
  | and hl hr ihl ihr | or hl hr ihl ihr =>
    exact buildExpression_binary (by decide) hl.ne_null (by decide) ihl ihr e arith
  | @ternary cond left right c ty l r hc hl hr ihc ihl ihr =>
    rw [buildExpression, if_pos rfl]
    simp only [Option.bind_eq_bind, ihc, Expr.code, Expr.fields]
    cases c.code cast with
    | none => rfl
    | some cc =>
      simp only [Option.map_some, Option.bind_some, ihl]
      cases l.code cast with
      | none => rfl
      | some lc =>
        simp only [Option.map_some, Option.bind_some, ihr]
        cases r.code cast with
        | none => rfl
        | some rc =>
          simp only [Option.map_some, Option.bind_some, Option.pure_def,
            Expression.pushBackTernaryOp_empty_append, Expression.append_pushBackTernaryOp,
            List.append_assoc]

end Build

end Bm
