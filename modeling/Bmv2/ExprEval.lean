/-
# Expressions are evaluated as they mean

`assign_dest_registers` passes over both branches of a ternary operation one after
the other, so it can hold registers for numbers that are not on the stack; what
`Grows` says about it is enough: it pops no more than the expression has pushed, so
every register it gives out is above those that the numbers below the expression
use.  With this, running the program of a tree leaves its value on the stack.
-/
import Bmv2.ExprTrees

namespace Bm

/-! ## The registers of a program -/

namespace DestRegisters

variable {r r' r₁ r₂ : DestRegisters} {T T₁ T₂ : List ℕ}

/-- What a program has left on the stack of `assign_dest_registers`. -/
structure Grows (r r' : DestRegisters) (T : List ℕ) : Prop where
  newRegisters : r'.newRegisters = T ++ r.newRegisters
  registersCurr : r'.registersCurr = r.registersCurr + T.sum
  registersCnt : r.registersCnt ≤ r'.registersCnt

theorem Grows.refl (r : DestRegisters) : r.Grows r [] := ⟨rfl, rfl, le_rfl⟩

theorem Grows.trans (h₁ : r.Grows r₁ T₁) (h₂ : r₁.Grows r₂ T₂) : r.Grows r₂ (T₂ ++ T₁) where
  newRegisters := by rw [h₂.newRegisters, h₁.newRegisters, List.append_assoc]
  registersCurr := by
    rw [h₂.registersCurr, h₁.registersCurr, List.sum_append]
    omega
  registersCnt := h₁.registersCnt.trans h₂.registersCnt

theorem Grows.le (h : r.Grows r' T) : r.registersCurr ≤ r'.registersCurr := by
  rw [h.registersCurr]
  exact Nat.le_add_right _ _

/-- A number that the program has pushed is popped. -/
theorem Grows.pop {n : ℕ} (h : r.Grows r' (n :: T)) :
    ∃ r₁, r'.pop = some r₁ ∧ r.Grows r₁ T ∧ r₁.registersCnt = r'.registersCnt := by
  obtain ⟨regs, curr, cnt⟩ := r'
  obtain ⟨hregs, hcurr, hcnt⟩ := h
  simp only [List.cons_append] at hregs
  subst hregs
  refine ⟨⟨T ++ r.newRegisters, curr - n, cnt⟩, rfl, ⟨rfl, ?_, hcnt⟩, rfl⟩
  simp only [List.sum_cons] at hcurr ⊢
  omega

theorem Grows.pop_two (h : r.Grows r' T) (hT : 2 ≤ T.length) :
    ∃ r₁ r₂ U, r'.pop = some r₁ ∧ r₁.pop = some r₂ ∧ r.Grows r₂ U ∧
      r₂.registersCnt = r'.registersCnt := by
  match T, hT with
  | _ :: _ :: U, _ =>
    obtain ⟨r₁, hr₁, h₁, hcnt₁⟩ := h.pop
    obtain ⟨r₂, hr₂, h₂, hcnt₂⟩ := h₁.pop
    exact ⟨r₁, r₂, U, hr₁, hr₂, h₂, hcnt₂.trans hcnt₁⟩

/-- A register for a new result. -/
theorem Grows.push_one (h : r.Grows r' T) : r.Grows (r'.push 1).count (1 :: T) ∧
    r'.registersCurr < (r'.push 1).count.registersCurr ∧
    r'.registersCurr < (r'.push 1).count.registersCnt ∧
    r'.registersCnt ≤ (r'.push 1).count.registersCnt := by
  obtain ⟨hregs, hcurr, hcnt⟩ := h
  refine ⟨⟨?_, ?_, ?_⟩, ?_, ?_, ?_⟩ <;> simp only [push, count, List.cons_append, List.sum_cons] <;>
    first | rw [hregs] | omega

theorem Grows.push_zero (h : r.Grows r' T) : r.Grows (r'.push 0).count (0 :: T) := by
  obtain ⟨hregs, hcurr, hcnt⟩ := h
  refine ⟨?_, ?_, ?_⟩ <;> simp only [push, count, List.cons_append, List.sum_cons] <;>
    first | rw [hregs] | omega

theorem Grows.count (h : r.Grows r' T) : r.Grows r'.count T := by
  obtain ⟨hregs, hcurr, hcnt⟩ := h
  exact ⟨hregs, hcurr, hcnt.trans (le_max_left _ _)⟩

theorem assignAll_append {xs ys xs' ys' : List Op} (hx : r.assignAll xs = some (xs', r₁))
    (hy : r₁.assignAll ys = some (ys', r₂)) : r.assignAll (xs ++ ys) = some (xs' ++ ys', r₂) := by
  induction xs generalizing r xs' with
  | nil =>
    obtain ⟨rfl, rfl⟩ := Prod.mk.inj (Option.some.inj hx)
    exact hy
  | cons op xs ih =>
    simp only [assignAll, Option.bind_eq_bind, Option.bind_eq_some_iff, Option.pure_def,
      Option.some.injEq, Prod.mk.injEq, Prod.exists] at hx
    obtain ⟨op', r', hop, xs'', r'', hxs, rfl, rfl⟩ := hx
    simp only [List.cons_append, assignAll, Option.bind_eq_bind, hop, Option.bind_some,
      ih hxs, Option.pure_def]

/-- The result of the last operation has a register above those of the numbers below. -/
structure Stores (r r₂ : DestRegisters) (op : Op) (d : ℕ) (r' : DestRegisters) : Prop where
  assign : r₂.assign op = some (⟨op.opcode, .dataDestIndex d⟩, r')
  grows : ∃ T, r.Grows r' T ∧ T ≠ []
  le : r.registersCurr ≤ d
  lt_curr : d < r'.registersCurr
  lt_cnt : d < r'.registersCnt
  cnt_le : r₂.registersCnt ≤ r'.registersCnt

theorem Grows.stores {op : Op} {d : ℕ} (h : r.Grows r₁ T) (hcnt : r₁.registersCnt = r₂.registersCnt)
    (hassign : r₂.assign op = some (⟨op.opcode, .dataDestIndex r₁.registersCurr⟩, (r₁.push 1).count))
    (hd : d = r₁.registersCurr) : Stores r r₂ op d (r₁.push 1).count := by
  subst hd
  obtain ⟨hgrows, hcurr, hlt, hle⟩ := h.push_one
  exact ⟨hassign, ⟨_, hgrows, List.cons_ne_nil _ _⟩, h.le, hcurr, hlt, hcnt ▸ hle⟩

theorem Grows.assign_arith (h : r.Grows r₂ T) (op : Op) (hT : 2 ≤ T.length)
    (hop : op.opcode.isArith = true) : ∃ d r', Stores r r₂ op d r' := by
  obtain ⟨r₃, r₄, U, hpop₁, hpop₂, hU, hcnt⟩ := h.pop_two hT
  refine ⟨_, _, hU.stores hcnt ?_ rfl⟩
  unfold assign
  rw [if_pos hop, hpop₁]
  simp only [Option.bind_eq_bind, Option.bind_some, hpop₂, Option.pure_def]

theorem Grows.assign_bitNeg (h : r.Grows r₂ T) (operand : Operand) (hT : T ≠ []) :
    ∃ d r', Stores r r₂ ⟨.bitNeg, operand⟩ d r' := by
  obtain ⟨n, U, rfl⟩ := List.exists_cons_of_ne_nil hT
  obtain ⟨r₃, hpop, hU, hcnt⟩ := h.pop
  refine ⟨_, _, hU.stores hcnt ?_ rfl⟩
  show (r₂.pop >>= _) = _
  rw [hpop]
  rfl

theorem Grows.assign_boolToData (h : r.Grows r₂ T) (operand : Operand) :
    ∃ d r', Stores r r₂ ⟨.boolToData, operand⟩ d r' :=
  ⟨_, _, h.stores rfl rfl rfl⟩

/-- A last operation without a register for its result. -/
structure Passes (r r₂ : DestRegisters) (op : Op) (T : List ℕ) (r' : DestRegisters) : Prop where
  assign : r₂.assign op = some (op, r')
  grows : r.Grows r' T
  cnt_le : r₂.registersCnt ≤ r'.registersCnt

theorem Grows.assign_compare (h : r.Grows r₂ T) (op : Op) (hT : 2 ≤ T.length)
    (hop : op.opcode.isCompare = true) : ∃ U r', Passes r r₂ op U r' := by
  obtain ⟨r₃, r₄, U, hpop₁, hpop₂, hU, hcnt⟩ := h.pop_two hT
  have hne : ¬ op.opcode.isArith = true := by
    cases hopcode : op.opcode <;> rw [hopcode] at hop <;>
      first | exact Bool.false_ne_true | cases hop
  refine ⟨U, r₄.count, ?_, hU.count, hcnt ▸ le_max_left _ _⟩
  unfold assign
  rw [if_neg hne, if_pos hop, hpop₁]
  simp only [Option.bind_eq_bind, Option.bind_some, hpop₂, Option.pure_def]

theorem Grows.assign_dataToBool (h : r.Grows r₂ T) (operand : Operand) (hT : T ≠ []) :
    ∃ U r', Passes r r₂ ⟨.dataToBool, operand⟩ U r' := by
  obtain ⟨n, U, rfl⟩ := List.exists_cons_of_ne_nil hT
  obtain ⟨r₃, hpop, hU, hcnt⟩ := h.pop
  refine ⟨U, r₃.count, ?_, hU.count, hcnt ▸ le_max_left _ _⟩
  show (r₂.pop >>= _) = _
  rw [hpop]
  rfl

theorem Grows.assign_loadRegisterGen (h : r.Grows r₂ T) (operand : Operand) (hT : T ≠ []) :
    ∃ U r', U ≠ [] ∧ Passes r r₂ ⟨.loadRegisterGen, operand⟩ U r' := by
  obtain ⟨n, U, rfl⟩ := List.exists_cons_of_ne_nil hT
  obtain ⟨r₃, hpop, hU, hcnt⟩ := h.pop
  refine ⟨0 :: U, (r₃.push 0).count, List.cons_ne_nil _ _, ?_, hU.push_zero,
    hcnt ▸ le_max_left _ _⟩
  show (r₂.pop >>= _) = _
  rw [hpop]
  rfl

theorem assignAll_single {op op' : Op} (h : r.assign op = some (op', r')) :
    r.assignAll [op] = some ([op'], r') := by
  simp [assignAll, h]

end DestRegisters

/-! ## One operation of the machine -/

/-- The faults of a wrong program; the others are about the values of the operands and the
environment. -/
def EvalFault.Internal : EvalFault → Prop
  | .underflow | .operand | .offset => True
  | .id | .arith | .value => False

namespace DataRef

/-- A number that is in no register from `n` on. -/
def Below (n : ℕ) : DataRef → Prop
  | .fixed _ => True
  | .temp index => index < n

theorem Below.mono {n m : ℕ} {x : DataRef} (h : x.Below n) (hnm : n ≤ m) : x.Below m := by
  cases x with
  | fixed d => trivial
  | temp i => exact Nat.lt_of_lt_of_le h hnm

end DataRef

/-- How many numbers an operation with a register for its result takes. -/
def ExprOpcode.numOperands : ExprOpcode → ℕ
  | .boolToData => 0
  | .bitNeg => 1
  | _ => 2

theorem ExprOpcode.numOperands_of_isArith {op : ExprOpcode} (h : op.isArith = true) :
    op.numOperands = 2 := by
  cases op <;> first | rfl | cases h

/-- The operation is in order: no stack is empty when it takes an element, all that it refers to in
the program exists, and it writes to no register that a number below its operands is in. -/
def Op.Sound (cast : BignumCast) (constValues : List ℤ) (env : ExprEnv) (s : EvalState) (op : Op) :
    Prop :=
  s.skipped = 0 → Avoids EvalFault.Internal (op.exec cast constValues env s) ∧
    ∀ index, op.operand = .dataDestIndex index →
      DataRef.temp index ∉ s.data.drop op.opcode.numOperands

section Exec

variable {cast : BignumCast} {constValues : List ℤ} {env : ExprEnv} {s : EvalState}
  {opcode : ExprOpcode} {operand : Operand} {x₁ x₂ : DataRef} {d₁ d₂ : Data} {data : List DataRef}

theorem EvalState.popData_cons (hs : s.data = x₁ :: data) (hx : s.deref x₁ = .ok d₁) :
    s.popData = .ok (d₁, { s with data }) := by
  unfold popData
  rw [hs]
  show (s.deref x₁ >>= fun d => pure (d, { s with data })) = _
  rw [hx]
  rfl

theorem exec_arith (hop : opcode.isArith = true) (hs : s.data = x₂ :: x₁ :: data)
    (hx₁ : s.deref x₁ = .ok d₁) (hx₂ : s.deref x₂ = .ok d₂) :
    Op.exec cast constValues env s ⟨opcode, operand⟩ =
      if opcode.operandsOk d₁ d₂ then
        orFault .value (opcode.arith cast d₁.value d₂.value) >>= fun value =>
          EvalState.store { s with data } operand value
      else .error .arith := by
  unfold Op.exec
  rw [if_pos hop, EvalState.popData_cons hs hx₂]
  show ((EvalState.popData { s with data := x₁ :: data }) >>= _) = _
  rw [EvalState.popData_cons (show ({ s with data := x₁ :: data } : EvalState).data = _ from rfl)
    (show EvalState.deref _ x₁ = .ok d₁ from hx₁)]
  rfl

theorem exec_compare (hop : opcode.isCompare = true) (hs : s.data = x₂ :: x₁ :: data)
    (hx₁ : s.deref x₁ = .ok d₁) (hx₂ : s.deref x₂ = .ok d₂) :
    Op.exec cast constValues env s ⟨opcode, operand⟩ =
      if d₁.arith && d₂.arith then
        .ok (EvalState.pushBool { s with data } (opcode.compare d₁.value d₂.value))
      else .error .arith := by
  have hne : ¬ opcode.isArith = true := by
    cases opcode <;> first | exact Bool.false_ne_true | cases hop
  unfold Op.exec
  rw [if_neg hne, if_pos hop, EvalState.popData_cons hs hx₂]
  show ((EvalState.popData { s with data := x₁ :: data }) >>= _) = _
  rw [EvalState.popData_cons (show ({ s with data := x₁ :: data } : EvalState).data = _ from rfl)
    (show EvalState.deref _ x₁ = .ok d₁ from hx₁)]
  rfl

theorem exec_bitNeg (hs : s.data = x₁ :: data) (hx₁ : s.deref x₁ = .ok d₁) :
    Op.exec cast constValues env s ⟨.bitNeg, operand⟩ =
      if d₁.arith then EvalState.store { s with data } operand (Int.not d₁.value)
      else .error .arith := by
  show (s.popData >>= _) = _
  rw [EvalState.popData_cons hs hx₁]
  rfl

theorem exec_dataToBool (hs : s.data = x₁ :: data) (hx₁ : s.deref x₁ = .ok d₁) :
    Op.exec cast constValues env s ⟨.dataToBool, operand⟩ =
      .ok (EvalState.pushBool { s with data } (d₁.value != 0)) := by
  show (s.popData >>= _) = _
  rw [EvalState.popData_cons hs hx₁]
  rfl

theorem exec_loadRegisterGen {array : ℕ} (hs : s.data = x₁ :: data) (hx₁ : s.deref x₁ = .ok d₁) :
    Op.exec cast constValues env s ⟨.loadRegisterGen, .registerArray array⟩ =
      if d₁.arith then
        orFault .value (cast.toSize d₁.value) >>= fun idx =>
          orFault .id (env.getRegister array idx) >>= fun value =>
            .ok (EvalState.pushData { s with data } (.fixed ⟨value, true⟩))
      else .error .arith := by
  show (s.popData >>= _) = _
  rw [EvalState.popData_cons hs hx₁]
  rfl

end Exec

/-! ## Running the program of a tree -/

/-- The value of a tree is on its stack now, and otherwise only temporary registers are changed. -/
def Returns (n : ℕ) (s s' : EvalState) : (ty : ExprTy) → Option ty.Value → Prop
  | .bool, v => ∃ b : Bool, s' = { s with temps := s'.temps, bools := b :: s.bools } ∧
      ∀ w : Bool, v = some w → b = w
  | .data, v => ∃ x d, s' = { s with temps := s'.temps, data := x :: s.data } ∧ x.Below n ∧
      s'.deref x = .ok d ∧ ∀ w : ℤ, v = some w → d = ⟨w, true⟩
  | .header, v => ∃ h, s' = { s with temps := s'.temps, headers := h :: s.headers } ∧
      ∀ w : DataHeader, v = some w → h = w

theorem Returns.skipped {n : ℕ} {s s' : EvalState} {ty : ExprTy} {v : Option ty.Value}
    (h : Returns n s s' ty v) : s'.skipped = s.skipped := by
  cases ty with
  | bool =>
    obtain ⟨b, hs', -⟩ := h
    rw [hs']
  | data =>
    obtain ⟨x, d, hs', -⟩ := h
    rw [hs']
  | header =>
    obtain ⟨h, hs', -⟩ := h
    rw [hs']

/-- The value of one tree as the value of another one. -/
theorem Returns.mono {n m : ℕ} {s s' : EvalState} {ty : ExprTy} {v w : Option ty.Value}
    (h : Returns n s s' ty v) (hnm : n ≤ m) (hv : ∀ x, w = some x → v = some x) :
    Returns m s s' ty w := by
  cases ty with
  | bool =>
    obtain ⟨b, hs', h⟩ := h
    exact ⟨b, hs', fun x hx => h x (hv x hx)⟩
  | data =>
    obtain ⟨x, d, hs', hx, hd, h⟩ := h
    exact ⟨x, d, hs', hx.mono hnm, hd, fun y hy => h y (hv y hy)⟩
  | header =>
    obtain ⟨b, hs', h⟩ := h
    exact ⟨b, hs', fun x hx => h x (hv x hx)⟩

/-- The registers below `n` are as they were. -/
structure Keeps (n : ℕ) (s s' : EvalState) : Prop where
  length_temps : s'.temps.length = s.temps.length
  getElem?_temps : ∀ i < n, s'.temps[i]? = s.temps[i]?

namespace Keeps

variable {n m : ℕ} {s s' s'' : EvalState}

theorem refl (n : ℕ) (s : EvalState) : Keeps n s s := ⟨rfl, fun _ _ => rfl⟩

theorem trans (h : Keeps n s s') (h' : Keeps m s' s'') (hnm : n ≤ m) : Keeps n s s'' :=
  ⟨h'.length_temps.trans h.length_temps, fun i hi =>
    (h'.getElem?_temps i (by omega)).trans (h.getElem?_temps i hi)⟩

theorem deref {x : DataRef} (h : Keeps n s s') (hx : x.Below n) : s'.deref x = s.deref x := by
  cases x with
  | fixed d => rfl
  | temp i =>
    simp only [EvalState.deref, h.getElem?_temps i hx]

end Keeps

/-- A result goes to a register from `n` on. -/
theorem store_returns {E : EvalFault → Prop} {n m index : ℕ} {s s₁ : EvalState} {value : ℤ}
    {v : Option ℤ} (hkeep : Keeps n s s₁) (hs₁ : s₁ = { s with temps := s₁.temps })
    (hn : n ≤ index) (hm : index < m) (hlen : index < s.temps.length)
    (hv : ∀ w, v = some w → value = w) :
    Outcome E (fun s' => Keeps n s s' ∧ Returns m s s' .data v)
      (s₁.store (.dataDestIndex index) value) := by
  have htemps : index < s₁.temps.length := by rwa [hkeep.length_temps]
  have hstore : s₁.store (.dataDestIndex index) value =
      .ok (({ s₁ with temps := s₁.temps.set index value } : EvalState).pushData (.temp index)) :=
    if_pos htemps
  rw [hstore]
  refine ⟨⟨?_, fun i hi => ?_⟩, .temp index, ⟨value, true⟩, ?_, hm, ?_, fun w hw => ?_⟩
  · exact List.length_set.trans hkeep.length_temps
  · exact (List.getElem?_set_ne (by omega)).trans (hkeep.getElem?_temps i hi)
  · rw [hs₁]
    rfl
  · simp [EvalState.deref, EvalState.pushData, htemps, orFault]
  · rw [hv w hw]

/-- What the loader and the configuration promise about the packet and the registers: the fields of
the expression are set up for arithmetic, and the size of a register array is an `unsigned int`. -/
structure ExprEnv.Ready (env : ExprEnv) (fields : List (ℕ × ℕ)) : Prop where
  arith : ∀ f ∈ fields, ∀ x, env.getField f.1 f.2 = some x → x.arith = true
  registers : ∀ array, (env.registers array).length < 2 ^ 32

/-- A program computes the value of a tree, with the registers from `n` on. -/
def Expr.Runs (cast : BignumCast) (constValues : List ℤ) (env : ExprEnv) {ty : ExprTy} (t : Expr ty)
    (n : ℕ) (r : DestRegisters) (ops : List Op) : Prop :=
  ∀ s : EvalState, s.skipped = 0 → r.registersCnt ≤ s.temps.length → (∀ x ∈ s.data, x.Below n) →
    LoopMeets (Op.step cast constValues env) (Op.Sound cast constValues env)
      (fun f => ¬ f.Internal ∧ t.eval cast env = none) s ops fun s' =>
        Keeps n s s' ∧ Returns r.registersCurr s s' ty (t.eval cast env)

section Runs

variable {cast : BignumCast} {constValues : List ℤ} {env : ExprEnv} {s : EvalState}
  {n : ℕ} {r₁ r₂ r' : DestRegisters} {opsl opsr : List Op}

/-- The last operation of a program. -/
theorem loopMeets_exec {E : EvalFault → Prop} {R : EvalState → Prop} {op : Op}
    (hs : s.skipped = 0) (hE : ∀ f, E f → ¬ f.Internal)
    (hdest : ∀ index, op.operand = .dataDestIndex index →
      DataRef.temp index ∉ s.data.drop op.opcode.numOperands)
    (hexec : Outcome E R (op.exec cast constValues env s)) :
    LoopMeets (Op.step cast constValues env) (Op.Sound cast constValues env) E s [op] R := by
  have hstep : Op.step cast constValues env s op = op.exec cast constValues env s := by
    unfold Op.step
    rw [hs]
  rw [loopMeets_cons, hstep]
  refine ⟨fun _ => ⟨?_, hdest⟩, hexec.mono (fun _ h => h) fun _ h => loopMeets_nil.mpr h⟩
  cases hx : op.exec cast constValues env s with
  | ok s' => trivial
  | error f =>
    rw [hx] at hexec
    exact hE f hexec

/-- No number below the operands is in a register from `n` on. -/
theorem temp_notMem {data : List DataRef} {index : ℕ} (h : ∀ x ∈ data, x.Below n)
    (hindex : n ≤ index) : DataRef.temp index ∉ data := fun hmem =>
  absurd (show index < n from h _ hmem) (by omega)

/-- The programs of two numbers, one after the other. -/
theorem Expr.Runs.two_data {l r : Expr .data} (hl : l.Runs cast constValues env n r₁ opsl)
    (hr : r.Runs cast constValues env r₁.registersCurr r₂ opsr)
    (hcnt : r₁.registersCnt ≤ r₂.registersCnt) (hn : n ≤ r₁.registersCurr)
    (hs : s.skipped = 0) (hlen : r₂.registersCnt ≤ s.temps.length)
    (hbelow : ∀ x ∈ s.data, x.Below n) :
    LoopMeets (Op.step cast constValues env) (Op.Sound cast constValues env)
      (fun f => ¬ f.Internal ∧ (l.eval cast env = none ∨ r.eval cast env = none)) s (opsl ++ opsr)
      fun s' => Keeps n s s' ∧ ∃ x₁ x₂ d₁ d₂,
        s' = { s with temps := s'.temps, data := x₂ :: x₁ :: s.data } ∧
        s'.deref x₁ = .ok d₁ ∧ s'.deref x₂ = .ok d₂ ∧
        (∀ v : ℤ, l.eval cast env = some v → d₁ = ⟨v, true⟩) ∧
        ∀ v : ℤ, r.eval cast env = some v → d₂ = ⟨v, true⟩ := by
  rw [loopMeets_append]
  refine (hl s hs (hcnt.trans hlen) hbelow).mono (fun f hf => ⟨hf.1, .inl hf.2⟩) ?_
  rintro s₁ ⟨hkeep₁, x₁, d₁, hs₁, hx₁, hd₁, hv₁⟩
  have hbelow₁ : ∀ x ∈ s₁.data, x.Below r₁.registersCurr := by
    rw [hs₁]
    intro x hx
    rcases List.mem_cons.mp hx with rfl | hx
    · exact hx₁
    · exact (hbelow x hx).mono hn
  have hskip₁ : s₁.skipped = 0 := by rw [hs₁]; exact hs
  refine (hr s₁ hskip₁ (by rwa [hkeep₁.length_temps]) hbelow₁).mono
    (fun f hf => ⟨hf.1, .inr hf.2⟩) ?_
  rintro s₂ ⟨hkeep₂, x₂, d₂, hs₂, hx₂, hd₂, hv₂⟩
  refine ⟨hkeep₁.trans hkeep₂ hn, x₁, x₂, d₁, d₂, ?_, ?_, hd₂, hv₁, hv₂⟩
  · rw [hs₁] at hs₂
    exact hs₂
  · rw [hkeep₂.deref hx₁, hd₁]

/-- The programs of two truth values. -/
theorem Expr.Runs.two_bool {l r : Expr .bool} (hl : l.Runs cast constValues env n r₁ opsl)
    (hr : r.Runs cast constValues env r₁.registersCurr r₂ opsr)
    (hcnt : r₁.registersCnt ≤ r₂.registersCnt) (hn : n ≤ r₁.registersCurr)
    (hs : s.skipped = 0) (hlen : r₂.registersCnt ≤ s.temps.length)
    (hbelow : ∀ x ∈ s.data, x.Below n) :
    LoopMeets (Op.step cast constValues env) (Op.Sound cast constValues env)
      (fun f => ¬ f.Internal ∧ (l.eval cast env = none ∨ r.eval cast env = none)) s (opsl ++ opsr)
      fun s' => Keeps n s s' ∧ ∃ b₁ b₂ : Bool,
        s' = { s with temps := s'.temps, bools := b₂ :: b₁ :: s.bools } ∧
        (∀ v : Bool, l.eval cast env = some v → b₁ = v) ∧
        ∀ v : Bool, r.eval cast env = some v → b₂ = v := by
  rw [loopMeets_append]
  refine (hl s hs (hcnt.trans hlen) hbelow).mono (fun f hf => ⟨hf.1, .inl hf.2⟩) ?_
  rintro s₁ ⟨hkeep₁, b₁, hs₁, hv₁⟩
  have hbelow₁ : ∀ x ∈ s₁.data, x.Below r₁.registersCurr := by
    rw [hs₁]
    exact fun x hx => (hbelow x hx).mono hn
  have hskip₁ : s₁.skipped = 0 := by rw [hs₁]; exact hs
  refine (hr s₁ hskip₁ (by rwa [hkeep₁.length_temps]) hbelow₁).mono
    (fun f hf => ⟨hf.1, .inr hf.2⟩) ?_
  rintro s₂ ⟨hkeep₂, b₂, hs₂, hv₂⟩
  refine ⟨hkeep₁.trans hkeep₂ hn, b₁, b₂, ?_, hv₁, hv₂⟩
  rw [hs₁] at hs₂
  exact hs₂

/-- The operation and the operands of an arithmetic tree. -/
theorem Expr.eval_arith_cases {op : ExprOpcode} (hop : op.isArith = true) (l r : Expr .data) :
    (l.eval cast env = none ∨ r.eval cast env = none) ∧
        (Expr.arith op hop l r).eval cast env = none ∨
      ∃ v w : ℤ, l.eval cast env = some v ∧ r.eval cast env = some w ∧
        (Expr.arith op hop l r).eval cast env = op.arith cast v w := by
  simp only [Expr.eval]
  cases hl : l.eval cast env with
  | none => exact .inl ⟨.inl rfl, rfl⟩
  | some v =>
    cases hr : r.eval cast env with
    | none => exact .inl ⟨.inr rfl, rfl⟩
    | some w => exact .inr ⟨v, w, rfl, rfl, rfl⟩

theorem Expr.Runs.arith {op : ExprOpcode} (hop : op.isArith = true) {l r : Expr .data} {d : ℕ}
    (hl : l.Runs cast constValues env n r₁ opsl)
    (hr : r.Runs cast constValues env r₁.registersCurr r₂ opsr)
    (hcnt₁ : r₁.registersCnt ≤ r₂.registersCnt) (hcnt₂ : r₂.registersCnt ≤ r'.registersCnt)
    (hn : n ≤ r₁.registersCurr) (hd : n ≤ d) (hcurr : d < r'.registersCurr)
    (hcnt : d < r'.registersCnt) :
    (Expr.arith op hop l r).Runs cast constValues env n r'
      (opsl ++ opsr ++ [⟨op, .dataDestIndex d⟩]) := by
  intro s hs hlen hbelow
  rw [loopMeets_append]
  have hcases : (l.eval cast env = none ∨ r.eval cast env = none) ∧
      (Expr.arith op hop l r).eval cast env = none ∨
      ∃ v w : ℤ, l.eval cast env = some v ∧ r.eval cast env = some w ∧
        (Expr.arith op hop l r).eval cast env = op.arith cast v w :=
    Expr.eval_arith_cases hop l r
  refine (Expr.Runs.two_data hl hr hcnt₁ hn hs (hcnt₂.trans hlen) hbelow).mono ?_ ?_
  · rintro f ⟨hf, hnone⟩
    refine ⟨hf, ?_⟩
    rcases hcases with ⟨-, h⟩ | ⟨v, w, hv, hw, -⟩
    · exact h
    · rcases hnone with h | h
      · rw [hv] at h; cases h
      · rw [hw] at h; cases h
  rintro s₂ ⟨hkeep, x₁, x₂, d₁, d₂, hs₂, hd₁, hd₂, hv₁, hv₂⟩
  have hskip : s₂.skipped = 0 := by rw [hs₂]; exact hs
  have hdata : s₂.data = x₂ :: x₁ :: s.data := by rw [hs₂]
  have htemps : d < s₂.temps.length := by
    rw [hkeep.length_temps]
    omega
  refine loopMeets_exec hskip (fun f hf => hf.1) ?_ ?_
  · rintro index ⟨⟩
    rw [hdata, ExprOpcode.numOperands_of_isArith hop]
    exact temp_notMem hbelow hd
  · rw [exec_arith hop hdata hd₁ hd₂]
    cases hok : op.operandsOk d₁ d₂ with
    | false =>
      -- an operand without a value
      rcases hcases with ⟨-, h⟩ | ⟨v, w, hv, hw, -⟩
      · exact ⟨fun h => h, h⟩
      · rw [hv₁ v hv, hv₂ w hw] at hok
        exact absurd hok (by simp [ExprOpcode.operandsOk])
    | true =>
      cases hval : op.arith cast d₁.value d₂.value with
      | none =>
        refine ⟨fun h => h, ?_⟩
        rcases hcases with ⟨-, h⟩ | ⟨v, w, hv, hw, h⟩
        · exact h
        · rw [hv₁ v hv, hv₂ w hw] at hval
          exact h.trans hval
      | some value =>
        show Outcome _ _ (EvalState.store { s₂ with data := s.data } (.dataDestIndex d) value)
        refine store_returns ⟨hkeep.length_temps, hkeep.getElem?_temps⟩ (by rw [hs₂]) hd hcurr
          (hcnt.trans_le hlen) fun x hx => ?_
        rcases hcases with ⟨-, h⟩ | ⟨v, w, hv, hw, h⟩
        · cases h.symm.trans hx
        · rw [hv₁ v hv, hv₂ w hw] at hval
          exact Option.some.inj (hval.symm.trans (h.symm.trans hx))

theorem Expr.Runs.compare {op : ExprOpcode} (hop : op.isCompare = true) {l r : Expr .data}
    {operand : Operand} (hoperand : ∀ index, operand ≠ .dataDestIndex index)
    (hl : l.Runs cast constValues env n r₁ opsl)
    (hr : r.Runs cast constValues env r₁.registersCurr r₂ opsr)
    (hcnt₁ : r₁.registersCnt ≤ r₂.registersCnt) (hcnt₂ : r₂.registersCnt ≤ r'.registersCnt)
    (hn : n ≤ r₁.registersCurr) :
    (Expr.compare op hop l r).Runs cast constValues env n r' (opsl ++ opsr ++ [⟨op, operand⟩]) := by
  intro s hs hlen hbelow
  rw [loopMeets_append]
  have heval : ∀ x : Bool, (Expr.compare op hop l r).eval cast env = some x →
      ∃ v w : ℤ, l.eval cast env = some v ∧ r.eval cast env = some w ∧ op.compare v w = x := by
    intro x hx
    obtain ⟨v, hv, hx⟩ := Option.bind_eq_some_iff.mp hx
    obtain ⟨w, hw, hx⟩ := Option.bind_eq_some_iff.mp hx
    exact ⟨v, w, hv, hw, Option.some.inj hx⟩
  have hnone : ∀ f : EvalFault, ¬ f.Internal →
      (l.eval cast env = none ∨ r.eval cast env = none) →
      ¬ f.Internal ∧ (Expr.compare op hop l r).eval cast env = none := by
    refine fun f hf h => ⟨hf, Option.eq_none_iff_forall_ne_some.mpr fun x hx => ?_⟩
    obtain ⟨v, w, hv, hw, -⟩ := heval x hx
    rcases h with h | h
    · cases h.symm.trans hv
    · cases h.symm.trans hw
  refine (Expr.Runs.two_data hl hr hcnt₁ hn hs (hcnt₂.trans hlen) hbelow).mono
    (fun f hf => hnone f hf.1 hf.2) ?_
  rintro s₂ ⟨hkeep, x₁, x₂, d₁, d₂, hs₂, hd₁, hd₂, hv₁, hv₂⟩
  have hskip : s₂.skipped = 0 := by rw [hs₂]; exact hs
  have hdata : s₂.data = x₂ :: x₁ :: s.data := by rw [hs₂]
  refine loopMeets_exec hskip (fun f hf => hf.1) (fun index h => absurd h (hoperand index)) ?_
  rw [exec_compare hop hdata hd₁ hd₂]
  cases hok : d₁.arith && d₂.arith with
  | false =>
    refine hnone _ (fun h => h) ?_
    by_contra hsome
    push Not at hsome
    obtain ⟨⟨v, hv⟩, w, hw⟩ := hsome.imp Option.ne_none_iff_exists'.mp
      Option.ne_none_iff_exists'.mp
    rw [hv₁ v hv, hv₂ w hw] at hok
    cases hok
  | true =>
    refine ⟨⟨hkeep.length_temps, hkeep.getElem?_temps⟩, _, by rw [hs₂]; rfl, fun x hx => ?_⟩
    obtain ⟨v, w, hv, hw, hx⟩ := heval x hx
    rw [hv₁ v hv, hv₂ w hw]
    exact hx

/-- A program with one more operation, which takes the result. -/
theorem Expr.Runs.append_op {ty ty' : ExprTy} {t : Expr ty} {t' : Expr ty'} {ops : List Op} {op : Op}
    (ht : t.Runs cast constValues env n r₁ ops) (hcnt : r₁.registersCnt ≤ r'.registersCnt)
    (hnone : t.eval cast env = none → t'.eval cast env = none)
    (hlast : ∀ s s₁ : EvalState, r'.registersCnt ≤ s.temps.length → (∀ x ∈ s.data, x.Below n) →
      Keeps n s s₁ → Returns r₁.registersCurr s s₁ ty (t.eval cast env) →
      (∀ index, op.operand = .dataDestIndex index →
        DataRef.temp index ∉ s₁.data.drop op.opcode.numOperands) ∧
      Outcome (fun f => ¬ f.Internal ∧ t'.eval cast env = none)
        (fun s' => Keeps n s s' ∧ Returns r'.registersCurr s s' ty' (t'.eval cast env))
        (op.exec cast constValues env s₁)) :
    t'.Runs cast constValues env n r' (ops ++ [op]) := by
  intro s hs hlen hbelow
  rw [loopMeets_append]
  refine (ht s hs (hcnt.trans hlen) hbelow).mono (fun f hf => ⟨hf.1, hnone hf.2⟩) ?_
  rintro s₁ ⟨hkeep, hret⟩
  obtain ⟨hdest, hexec⟩ := hlast s s₁ hlen hbelow hkeep hret
  exact loopMeets_exec (hret.skipped.trans hs) (fun f hf => hf.1) hdest hexec

theorem Expr.Runs.bitNeg {e : Expr .data} {ops : List Op} {d : ℕ}
    (he : e.Runs cast constValues env n r₁ ops) (hcnt₁ : r₁.registersCnt ≤ r'.registersCnt)
    (hd : n ≤ d) (hcurr : d < r'.registersCurr) (hcnt : d < r'.registersCnt) :
    (Expr.bitNeg e).Runs cast constValues env n r' (ops ++ [⟨.bitNeg, .dataDestIndex d⟩]) := by
  have hnone : e.eval cast env = none → (Expr.bitNeg e).eval cast env = none := fun h => by
    simp only [Expr.eval, h]
    rfl
  refine he.append_op hcnt₁ hnone ?_
  rintro s s₁ hlen hbelow hkeep ⟨x, d₁, hs₁, -, hd₁, hv⟩
  have hdata : s₁.data = x :: s.data := by rw [hs₁]
  constructor
  · rintro index ⟨⟩
    rw [hdata]
    exact temp_notMem hbelow hd
  · rw [exec_bitNeg hdata hd₁]
    cases harith : d₁.arith with
    | false =>
      refine ⟨fun h => h, hnone (Option.eq_none_iff_forall_ne_some.mpr fun v h => ?_)⟩
      rw [hv v h] at harith
      cases harith
    | true =>
      refine store_returns ⟨hkeep.length_temps, hkeep.getElem?_temps⟩ (by rw [hs₁]) hd hcurr
        (hcnt.trans_le hlen) fun w hw => ?_
      obtain ⟨v, h, hw⟩ := Option.bind_eq_some_iff.mp hw
      rw [hv v h]
      exact Option.some.inj hw

theorem Expr.Runs.boolToData {e : Expr .bool} {ops : List Op} {d : ℕ}
    (he : e.Runs cast constValues env n r₁ ops) (hcnt₁ : r₁.registersCnt ≤ r'.registersCnt)
    (hd : n ≤ d) (hcurr : d < r'.registersCurr) (hcnt : d < r'.registersCnt) :
    (Expr.boolToData e).Runs cast constValues env n r'
      (ops ++ [⟨.boolToData, .dataDestIndex d⟩]) := by
  refine he.append_op hcnt₁ (fun h => by simp only [Expr.eval, h]; rfl) ?_
  rintro s s₁ hlen hbelow hkeep ⟨b, hs₁, hv⟩
  constructor
  · rintro index ⟨⟩
    rw [hs₁]
    exact temp_notMem hbelow hd
  · have hexec : Op.exec cast constValues env s₁ ⟨.boolToData, .dataDestIndex d⟩ =
        EvalState.store { s₁ with bools := s.bools } (.dataDestIndex d) (if b then 1 else 0) := by
      rw [hs₁]
      rfl
    rw [hexec]
    refine store_returns ⟨hkeep.length_temps, hkeep.getElem?_temps⟩ (by rw [hs₁]) hd hcurr
      (hcnt.trans_le hlen) fun w hw => ?_
    obtain ⟨v, h, hw⟩ := Option.bind_eq_some_iff.mp hw
    rw [hv v h]
    exact Option.some.inj hw

/-- A last operation that replaces the result by a truth value. -/
theorem Expr.Runs.append_pred {ty : ExprTy} {t : Expr ty} {t' : Expr .bool} {ops : List Op}
    {opcode : ExprOpcode} (ht : t.Runs cast constValues env n r₁ ops)
    (hcnt : r₁.registersCnt ≤ r'.registersCnt)
    (hnone : t.eval cast env = none → t'.eval cast env = none)
    (hlast : ∀ s s₁ : EvalState, Returns r₁.registersCurr s s₁ ty (t.eval cast env) → ∃ b : Bool,
      Op.exec cast constValues env s₁ ⟨opcode, .none⟩ =
        .ok (EvalState.pushBool { s with temps := s₁.temps } b) ∧
      ∀ w : Bool, t'.eval cast env = some w → b = w) :
    t'.Runs cast constValues env n r' (ops ++ [⟨opcode, .none⟩]) := by
  refine ht.append_op hcnt hnone fun s s₁ hlen hbelow hkeep hret => ⟨(fun _ h => nomatch h), ?_⟩
  obtain ⟨b, hexec, hv⟩ := hlast s s₁ hret
  rw [hexec]
  exact ⟨⟨hkeep.length_temps, hkeep.getElem?_temps⟩, b, rfl, hv⟩

theorem Expr.Runs.dataToBool {e : Expr .data} {ops : List Op}
    (he : e.Runs cast constValues env n r₁ ops) (hcnt : r₁.registersCnt ≤ r'.registersCnt) :
    (Expr.dataToBool e).Runs cast constValues env n r' (ops ++ [⟨.dataToBool, .none⟩]) := by
  refine he.append_pred hcnt (fun h => by simp only [Expr.eval, h]; rfl) ?_
  rintro s s₁ ⟨x, d, hs₁, -, hd, hv⟩
  refine ⟨d.value != 0, ?_, fun w hw => ?_⟩
  · rw [exec_dataToBool (show s₁.data = x :: s.data by rw [hs₁]) hd, hs₁]
  · obtain ⟨v, h, hw⟩ := Option.bind_eq_some_iff.mp hw
    rw [hv v h]
    exact Option.some.inj hw

theorem Expr.Runs.not {e : Expr .bool} {ops : List Op}
    (he : e.Runs cast constValues env n r₁ ops) (hcnt : r₁.registersCnt ≤ r'.registersCnt) :
    (Expr.not e).Runs cast constValues env n r' (ops ++ [⟨.not, .none⟩]) := by
  refine he.append_pred hcnt (fun h => by simp only [Expr.eval, h]; rfl) ?_
  rintro s s₁ ⟨b, hs₁, hv⟩
  refine ⟨!b, by rw [hs₁]; rfl, fun w hw => ?_⟩
  obtain ⟨v, h, hw⟩ := Option.bind_eq_some_iff.mp hw
  rw [hv v h]
  exact Option.some.inj hw

theorem Expr.Runs.valid {e : Expr .header} {ops : List Op}
    (he : e.Runs cast constValues env n r₁ ops) (hcnt : r₁.registersCnt ≤ r'.registersCnt) :
    (Expr.valid e).Runs cast constValues env n r' (ops ++ [⟨.validHeader, .none⟩]) := by
  refine he.append_pred hcnt (fun h => by simp only [Expr.eval, h]; rfl) ?_
  rintro s s₁ ⟨h, hs₁, hv⟩
  refine ⟨h.isValid, by rw [hs₁]; rfl, fun w hw => ?_⟩
  obtain ⟨v, hh, hw⟩ := Option.bind_eq_some_iff.mp hw
  rw [hv v hh]
  exact Option.some.inj hw

/-- `and` and `or`. -/
theorem Expr.Runs.connective {l r t : Expr .bool} {opcode : ExprOpcode} {f : Bool → Bool → Bool}
    (hl : l.Runs cast constValues env n r₁ opsl)
    (hr : r.Runs cast constValues env r₁.registersCurr r₂ opsr)
    (hcnt₁ : r₁.registersCnt ≤ r₂.registersCnt) (hcnt₂ : r₂.registersCnt ≤ r'.registersCnt)
    (hn : n ≤ r₁.registersCurr)
    (heval : t.eval cast env = (l.eval cast env).bind fun v => (r.eval cast env).bind fun w =>
      some (f v w))
    (hexec : ∀ (s : EvalState) (b₁ b₂ : Bool),
      Op.exec cast constValues env { s with bools := b₂ :: b₁ :: s.bools } ⟨opcode, .none⟩ =
        .ok (s.pushBool (f b₁ b₂))) :
    t.Runs cast constValues env n r' (opsl ++ opsr ++ [⟨opcode, .none⟩]) := by
  intro s hs hlen hbelow
  rw [loopMeets_append]
  refine (Expr.Runs.two_bool hl hr hcnt₁ hn hs (hcnt₂.trans hlen) hbelow).mono ?_ ?_
  · rintro fault ⟨hf, h⟩
    refine ⟨hf, ?_⟩
    rw [heval]
    rcases h with h | h
    · rw [h]
      rfl
    · rw [h]
      cases l.eval cast env <;> rfl
  rintro s₂ ⟨hkeep, b₁, b₂, hs₂, hv₁, hv₂⟩
  have hskip : s₂.skipped = 0 := by rw [hs₂]; exact hs
  refine loopMeets_exec hskip (fun f hf => hf.1) (fun _ h => nomatch h) ?_
  have hlast := hexec { s with temps := s₂.temps } b₁ b₂
  rw [← hs₂] at hlast
  rw [hlast]
  refine ⟨⟨hkeep.length_temps, hkeep.getElem?_temps⟩, _, rfl, fun x hx => ?_⟩
  rw [heval] at hx
  obtain ⟨v, hv, hx⟩ := Option.bind_eq_some_iff.mp hx
  obtain ⟨w, hw, hx⟩ := Option.bind_eq_some_iff.mp hx
  rw [hv₁ v hv, hv₂ w hw, Option.some.inj hx]

theorem Expr.Runs.leaf {ty : ExprTy} {t : Expr ty} {op : Op}
    (hdest : ∀ index, op.operand ≠ .dataDestIndex index)
    (hexec : ∀ s : EvalState, Outcome (fun f => ¬ f.Internal ∧ t.eval cast env = none)
      (fun s' => s'.temps = s.temps ∧ Returns r'.registersCurr s s' ty (t.eval cast env))
      (op.exec cast constValues env s)) : t.Runs cast constValues env n r' [op] := by
  intro s hs _ _
  refine loopMeets_exec hs (fun f hf => hf.1) (fun index h => absurd h (hdest index)) ?_
  refine (hexec s).mono (fun _ h => h) ?_
  rintro s' ⟨htemps, hret⟩
  refine ⟨⟨by rw [htemps], fun i _ => by rw [htemps]⟩, hret⟩

/-- A number that is loaded from outside the program. -/
theorem loads_value {E : EvalFault → Prop} {fault : EvalFault} {x v : Option ℤ} {m : ℕ}
    (s : EvalState) (hE : x = none → E fault) (hv : ∀ a w, x = some a → v = some w → a = w) :
    Outcome E (fun s' => s'.temps = s.temps ∧ Returns m s s' .data v)
      (orFault fault x >>= fun value => .ok (s.pushData (.fixed ⟨value, true⟩))) := by
  cases x with
  | none => exact hE rfl
  | some a =>
    refine ⟨rfl, .fixed ⟨a, true⟩, ⟨a, true⟩, rfl, trivial, rfl, fun w hw => ?_⟩
    rw [hv a w rfl hw]

/-- A register that is there has an index of the machine. -/
theorem Expr.eval_register {index : Expr .data} {array : ℕ} {x : ℤ}
    (hregs : (env.registers array).length < 2 ^ 32)
    (hx : (Expr.register array index).eval cast env = some x) :
    ∃ i : ℕ, index.eval cast env = some (i : ℤ) ∧ i < 2 ^ 32 ∧ env.getRegister array i = some x := by
  obtain ⟨v, hv, hx⟩ := Option.bind_eq_some_iff.mp hx
  have hx : (if 0 ≤ v then env.getRegister array v.toNat else none) = some x := hx
  split_ifs at hx with hpos
  obtain ⟨hlt, -⟩ := List.getElem?_eq_some_iff.mp hx
  exact ⟨v.toNat, by rw [Int.toNat_of_nonneg hpos]; exact hv, hlt.trans hregs, hx⟩

/-- A register whose index is a literal. -/
theorem Expr.Runs.registerRef {index : Expr .data} {array idx : ℕ} {v : ℤ}
    (hregs : (env.registers array).length < 2 ^ 32) (hlit : index.literal = some v)
    (hidx : cast.toUint v = some idx) :
    (Expr.register array index).Runs cast constValues env n r'
      [⟨.loadRegisterRef, .registerRef array idx⟩] := by
  have hindex : index.eval cast env = some v := by
    cases index <;> first | exact hlit | cases hlit
  have hreg : ∀ x : ℤ, (Expr.register array index).eval cast env = some x →
      env.getRegister array idx = some x := by
    intro x hx
    obtain ⟨i, hi, hlt, hreg⟩ := Expr.eval_register hregs hx
    obtain rfl := Option.some.inj (hindex.symm.trans hi)
    rwa [Option.some.inj (hidx.symm.trans (cast.toUint_of_lt i hlt))]
  refine .leaf (fun _ h => nomatch h) fun s => loads_value s (fun h => ⟨fun h => h, ?_⟩) ?_
  · refine Option.eq_none_iff_forall_ne_some.mpr fun x hx => ?_
    cases h.symm.trans (hreg x hx)
  · intro a w ha hw
    exact Option.some.inj (ha.symm.trans (hreg w hw))

/-- A register whose index is computed. -/
theorem Expr.Runs.registerGen {index : Expr .data} {array : ℕ} {ops : List Op}
    (hregs : (env.registers array).length < 2 ^ 32)
    (he : index.Runs cast constValues env n r₁ ops) (hcnt : r₁.registersCnt ≤ r'.registersCnt) :
    (Expr.register array index).Runs cast constValues env n r'
      (ops ++ [⟨.loadRegisterGen, .registerArray array⟩]) := by
  have hnone : (∀ i : ℕ, index.eval cast env = some (i : ℤ) → i < 2 ^ 32 →
      env.getRegister array i = none) → (Expr.register array index).eval cast env = none :=
    fun h => Option.eq_none_iff_forall_ne_some.mpr fun x hx => by
      obtain ⟨i, hi, hlt, hreg⟩ := Expr.eval_register hregs hx
      cases (h i hi hlt).symm.trans hreg
  refine he.append_op hcnt (fun h => hnone fun i hi => by cases h.symm.trans hi) ?_
  rintro s s₁ hlen hbelow hkeep ⟨x, d, hs₁, -, hd, hv⟩
  refine ⟨(fun _ h => nomatch h), ?_⟩
  have hsize : ∀ i : ℕ, index.eval cast env = some (i : ℤ) → i < 2 ^ 32 →
      d.arith = true ∧ cast.toSize d.value = some i := fun i hi hlt => by
    rw [hv i hi]
    exact ⟨rfl, cast.toSize_of_lt i (by omega)⟩
  rw [exec_loadRegisterGen (show s₁.data = x :: s.data by rw [hs₁]) hd]
  cases harith : d.arith with
  | false =>
    refine ⟨fun h => h, hnone fun i hi hlt => ?_⟩
    cases harith.symm.trans (hsize i hi hlt).1
  | true =>
    rw [if_pos rfl]
    cases hidx : cast.toSize d.value with
    | none =>
      refine ⟨fun h => h, hnone fun i hi hlt => ?_⟩
      cases hidx.symm.trans (hsize i hi hlt).2
    | some idx =>
      have hreg : ∀ i : ℕ, index.eval cast env = some (i : ℤ) → i < 2 ^ 32 → idx = i :=
        fun i hi hlt => Option.some.inj (hidx.symm.trans (hsize i hi hlt).2)
      have hmissing : env.getRegister array idx = none →
          (Expr.register array index).eval cast env = none := fun h => hnone fun i hi hlt => by
        rwa [← hreg i hi hlt]
      have hvalue : ∀ a w, env.getRegister array idx = some a →
          (Expr.register array index).eval cast env = some w → a = w := by
        intro a w ha hw
        obtain ⟨i, hi, hlt, hget⟩ := Expr.eval_register hregs hw
        rw [hreg i hi hlt] at ha
        exact Option.some.inj (ha.symm.trans hget)
      refine (loads_value (m := r'.registersCurr) { s₁ with data := s.data }
        (fun h => ⟨fun h => h, hmissing h⟩) hvalue).mono (fun _ h => h) ?_
      rintro s' ⟨htemps, x', d', hs', hrest⟩
      have htemps : s'.temps = s₁.temps := htemps
      refine ⟨⟨by rw [htemps]; exact hkeep.length_temps, fun i hi => ?_⟩, x', d', ?_, hrest⟩
      · rw [htemps]
        exact hkeep.getElem?_temps i hi
      · rw [hs', hs₁]

/-- Operations that are passed over. -/
theorem loopMeets_skipped {E : EvalFault → Prop} {R : EvalState → Prop} {ops : List Op}
    (hs : s.skipped = ops.length) (h : R { s with skipped := 0 }) :
    LoopMeets (Op.step cast constValues env) (Op.Sound cast constValues env) E s ops R := by
  induction ops generalizing s with
  | nil =>
    rw [loopMeets_nil]
    have hs : s.skipped = 0 := hs
    rwa [← hs] at h
  | cons op ops ih =>
    have hs : s.skipped = ops.length + 1 := hs
    have hstep : Op.step cast constValues env s op = .ok { s with skipped := ops.length } := by
      unfold Op.step
      rw [hs]
    exact loopMeets_cons_of_ok (fun hzero => by omega) hstep (ih rfl h)

/-- The branch that is evaluated. -/
theorem Expr.Runs.branch {ty : ExprTy} {t t' : Expr ty} {m : ℕ} {ops : List Op} {s₁ : EvalState}
    (ht' : t'.Runs cast constValues env m r₁ ops)
    (hsel : ∀ x, t.eval cast env = some x → t'.eval cast env = some x) (hnm : n ≤ m)
    (hcurr : r₁.registersCurr ≤ r'.registersCurr) (hcnt : r₁.registersCnt ≤ r'.registersCnt)
    (hs : s.skipped = 0) (hlen : r'.registersCnt ≤ s.temps.length)
    (hbelow : ∀ x ∈ s.data, x.Below n) (hkeep : Keeps n s s₁)
    (hs₁ : s₁ = { s with temps := s₁.temps }) :
    LoopMeets (Op.step cast constValues env) (Op.Sound cast constValues env)
      (fun f => ¬ f.Internal ∧ t.eval cast env = none) s₁ ops fun s' =>
        s'.skipped = 0 ∧ Keeps n s s' ∧ Returns r'.registersCurr s s' ty (t.eval cast env) := by
  have hskip : s₁.skipped = 0 := by rw [hs₁]; exact hs
  have hdata : s₁.data = s.data := by rw [hs₁]
  refine (ht' s₁ hskip ?_ ?_).mono (fun f hf => ⟨hf.1, ?_⟩) ?_
  · rw [hkeep.length_temps]
    exact hcnt.trans hlen
  · rw [hdata]
    exact fun x hx => (hbelow x hx).mono hnm
  · refine Option.eq_none_iff_forall_ne_some.mpr fun x hx => ?_
    cases hf.2.symm.trans (hsel x hx)
  · rintro s' ⟨hkeep', hret⟩
    refine ⟨hret.skipped.trans hskip, hkeep.trans hkeep' hnm, ?_⟩
    have hret := hret.mono hcurr hsel
    rw [hs₁] at hret
    exact hret

/-- The three programs of a ternary operation, with the two skips. -/
theorem Expr.Runs.ternary {ty : ExprTy} {c : Expr .bool} {l r : Expr ty} {m₁ m₂ : ℕ}
    {opsc : List Op} {r₃ : DestRegisters} (hc : c.Runs cast constValues env n r₁ opsc)
    (hl : l.Runs cast constValues env m₁ r₂ opsl) (hr : r.Runs cast constValues env m₂ r₃ opsr)
    (hm₁ : n ≤ m₁) (hm₂ : n ≤ m₂) (hcnt₁ : r₁.registersCnt ≤ r₃.registersCnt)
    (hcnt₂ : r₂.registersCnt ≤ r₃.registersCnt) (hcurr : r₂.registersCurr ≤ r₃.registersCurr) :
    (Expr.ternary c l r).Runs cast constValues env n r₃
      (opsc ++ (⟨.ternaryOp, .none⟩ :: ⟨.skip, .skipNum (opsl.length + 1)⟩ ::
        (opsl ++ ⟨.skip, .skipNum opsr.length⟩ :: opsr))) := by
  intro s hs hlen hbelow
  have heval : ∀ x, (Expr.ternary c l r).eval cast env = some x → ∃ b : Bool,
      c.eval cast env = some b ∧ (if b then l.eval cast env else r.eval cast env) = some x :=
    fun x hx => Option.bind_eq_some_iff.mp hx
  rw [loopMeets_append]
  refine (hc s hs (hcnt₁.trans hlen) hbelow).mono (fun f hf => ⟨hf.1, ?_⟩) ?_
  · refine Option.eq_none_iff_forall_ne_some.mpr fun x hx => ?_
    obtain ⟨b, hb, -⟩ := heval x hx
    cases hf.2.symm.trans hb
  rintro s₁ ⟨hkeep, b, hs₁, hv⟩
  have hskip : s₁.skipped = 0 := by rw [hs₁]; exact hs
  -- the condition is popped
  have hpop : Op.exec cast constValues env s₁ ⟨.ternaryOp, .none⟩ =
      .ok (if b then { s with temps := s₁.temps, skipped := 1 } else { s with temps := s₁.temps }) := by
    rw [hs₁]
    cases b <;> rfl
  have hkeep₁ : Keeps n s { s with temps := s₁.temps } :=
    ⟨hkeep.length_temps, hkeep.getElem?_temps⟩
  have hsound : ∀ {s : EvalState} {op : Op}, s.skipped ≠ 0 → Op.Sound cast constValues env s op :=
    fun h h' => absurd h' h
  have hstep : Op.step cast constValues env s₁ ⟨.ternaryOp, .none⟩ =
      Op.exec cast constValues env s₁ ⟨.ternaryOp, .none⟩ := by
    unfold Op.step
    rw [hskip]
  refine loopMeets_cons_of_ok (fun _ => ⟨by rw [hpop]; trivial, (fun _ h => nomatch h)⟩)
    (hstep.trans hpop) ?_
  have hzero : ({ s with temps := s₁.temps, skipped := 0 } : EvalState) =
      { s with temps := s₁.temps } := by rw [hs]
  have hjump : ∀ (s : EvalState) (k : ℕ), s.skipped = 0 →
      Op.step cast constValues env s ⟨.skip, .skipNum k⟩ = .ok { s with skipped := k } ∧
        Op.Sound cast constValues env s ⟨.skip, .skipNum k⟩ := by
    intro s k h
    refine ⟨?_, fun _ => ⟨trivial, (fun _ h => nomatch h)⟩⟩
    unfold Op.step
    rw [h]
    rfl
  have hsel : ∀ x, (Expr.ternary c l r).eval cast env = some x →
      (if b then l.eval cast env else r.eval cast env) = some x := by
    intro x hx
    obtain ⟨b', hb, hx⟩ := heval x hx
    rwa [← hv b' hb] at hx
  cases b with
  | true =>
    -- the first skip is passed over, the second one leads to the end
    have hpass : Op.step cast constValues env { s with temps := s₁.temps, skipped := 1 }
        ⟨.skip, .skipNum (opsl.length + 1)⟩ = .ok { s with temps := s₁.temps, skipped := 0 } := rfl
    refine loopMeets_cons_of_ok (hsound Nat.one_ne_zero) hpass ?_
    rw [hzero, loopMeets_append]
    refine (hl.branch hsel hm₁ hcurr hcnt₂ hs hlen hbelow hkeep₁ rfl).mono (fun _ h => h) ?_
    rintro s' ⟨hz, hdone⟩
    refine loopMeets_cons_of_ok (hjump s' _ hz).2 (hjump s' _ hz).1 (loopMeets_skipped rfl ?_)
    rw [show ({ s' with skipped := 0 } : EvalState) = s' by rw [← hz]]
    exact hdone
  | false =>
    -- the first skip leads over the second one
    refine loopMeets_cons_of_ok (hjump { s with temps := s₁.temps } _ hs).2
      (hjump { s with temps := s₁.temps } _ hs).1 ?_
    rw [List.append_cons, loopMeets_append]
    refine loopMeets_skipped (by simp) ?_
    show LoopMeets _ _ _ ({ s with temps := s₁.temps, skipped := 0 } : EvalState) _ _
    rw [hzero]
    exact (hr.branch hsel hm₂ le_rfl le_rfl hs hlen hbelow hkeep₁ rfl).mono (fun _ h => h)
      fun s' h => h.2

end Runs

/-! ## The program of a tree, with its registers -/

/-- The program `c` of a tree, after `k` constants and with the registers from those of `r` on. -/
structure Compiled (cast : BignumCast) {ty : ExprTy} (t : Expr ty) (c : Expression) (k : ℕ)
    (r : DestRegisters) (ops : List Op) (r' : DestRegisters) (T : List ℕ) : Prop where
  assign : r.assignAll (c.ops.map (Expression.shiftOp k)) = some (ops, r')
  length : ops.length = c.ops.length
  grows : r.Grows r' T
  pushes : ty = .data → T ≠ []
  runs : ∀ constValues env, (∀ i v, c.constValues[i]? = some v → constValues[k + i]? = some v) →
    env.Ready t.fields → t.Runs cast constValues env r.registersCurr r' ops

theorem ExprEnv.Ready.mono {env : ExprEnv} {fs gs : List (ℕ × ℕ)} (h : env.Ready gs)
    (hsub : ∀ f ∈ fs, f ∈ gs) : env.Ready fs :=
  ⟨fun f hf => h.arith f (hsub f hf), h.registers⟩

section Compiled

variable {cast : BignumCast} {k : ℕ} {r r₁ r₂ r' : DestRegisters} {opsl opsr : List Op}
  {T₁ T₂ : List ℕ}

theorem shiftOp_pushOp {n : ℕ} {opcode : ExprOpcode} :
    Expression.shiftOp n ⟨opcode, .none⟩ = ⟨opcode, .none⟩ := by
  cases opcode <;> rfl

theorem map_shiftOp_map (m n : ℕ) (ops : List Op) :
    (ops.map (Expression.shiftOp n)).map (Expression.shiftOp m) =
      ops.map (Expression.shiftOp (n + m)) := by
  rw [List.map_map]
  exact List.map_congr_left fun op _ => Expression.shiftOp_shiftOp m n op

theorem shiftOp_skip {n num : ℕ} :
    Expression.shiftOp n ⟨.skip, .skipNum num⟩ = ⟨.skip, .skipNum num⟩ := rfl

/-- The operations of a ternary operation, when they are appended. -/
theorem map_shiftOp_ternary (c e1 e2 : Expression) :
    (c.pushBackTernaryOp e1 e2).ops.map (Expression.shiftOp k) =
      c.ops.map (Expression.shiftOp k) ++
        ([⟨.ternaryOp, .none⟩, ⟨.skip, .skipNum (e1.ops.length + 1)⟩] ++
          (e1.ops.map (Expression.shiftOp (c.constValues.length + k)) ++
            ([⟨.skip, .skipNum e2.ops.length⟩] ++ e2.ops.map
              (Expression.shiftOp (c.constValues.length + e1.constValues.length + k))))) := by
  simp only [Expression.pushBackTernaryOp, Expression.pushOp, Expression.appendExpression,
    List.map_append, map_shiftOp_map, List.map_cons, shiftOp_pushOp, shiftOp_skip,
    List.append_assoc, List.cons_append, List.nil_append, List.length_append]

/-- One program and one more operation. -/
theorem Compiled.one {ty : ExprTy} {e : Expr ty} {c : Expression} {opcode : ExprOpcode}
    {operand : Operand} {op' : Op} (he : Compiled cast e c k r opsl r₁ T₁)
    (hshift : Expression.shiftOp k ⟨opcode, operand⟩ = ⟨opcode, operand⟩)
    (hop : r₁.assign ⟨opcode, operand⟩ = some (op', r')) :
    r.assignAll ((c.pushOp opcode operand).ops.map (Expression.shiftOp k)) =
        some (opsl ++ [op'], r') ∧
      (opsl ++ [op']).length = (c.pushOp opcode operand).ops.length := by
  constructor
  · show r.assignAll ((c.ops ++ [(⟨opcode, operand⟩ : Op)]).map (Expression.shiftOp k)) = _
    rw [List.map_append, List.map_singleton, hshift]
    exact DestRegisters.assignAll_append he.assign (DestRegisters.assignAll_single hop)
  · simp [Expression.pushOp, he.length]

/-- Two programs and one more operation. -/
theorem Compiled.two {ty ty' : ExprTy} {a : Expr ty} {b : Expr ty'} {ca cb : Expression}
    {op : ExprOpcode} {op' : Op} (ha : Compiled cast a ca k r opsl r₁ T₁)
    (hb : Compiled cast b cb (ca.constValues.length + k) r₁ opsr r₂ T₂)
    (hop : r₂.assign ⟨op, .none⟩ = some (op', r')) :
    r.assignAll (((ca.appendExpression cb).pushBackOp op).ops.map (Expression.shiftOp k)) =
        some (opsl ++ opsr ++ [op'], r') ∧
      (opsl ++ opsr ++ [op']).length = ((ca.appendExpression cb).pushBackOp op).ops.length := by
  constructor
  · show r.assignAll ((ca.ops ++ cb.ops.map (Expression.shiftOp ca.constValues.length) ++
      [(⟨op, .none⟩ : Op)]).map (Expression.shiftOp k)) = _
    rw [List.map_append, List.map_append, List.map_singleton, shiftOp_pushOp, map_shiftOp_map]
    exact DestRegisters.assignAll_append (DestRegisters.assignAll_append ha.assign hb.assign)
      (DestRegisters.assignAll_single hop)
  · simp [Expression.pushBackOp, Expression.pushOp, Expression.appendExpression, ha.length, hb.length]

/-- The constants and fields of two programs. -/
theorem Compiled.runs_two {ty ty' : ExprTy} {a : Expr ty} {b : Expr ty'} {ca cb : Expression}
    {constValues : List ℤ} {env : ExprEnv} (ha : Compiled cast a ca k r opsl r₁ T₁)
    (hb : Compiled cast b cb (ca.constValues.length + k) r₂ opsr r' T₂)
    (hconst : ∀ i v, (ca.constValues ++ cb.constValues)[i]? = some v →
      constValues[k + i]? = some v) (henv : env.Ready (a.fields ++ b.fields)) :
    a.Runs cast constValues env r.registersCurr r₁ opsl ∧
      b.Runs cast constValues env r₂.registersCurr r' opsr := by
  constructor
  · refine ha.runs constValues env (fun i v hi => hconst i v ?_)
      (henv.mono fun f hf => List.mem_append_left _ hf)
    rwa [List.getElem?_append_left (List.getElem?_eq_some_iff.mp hi).1]
  · refine hb.runs constValues env (fun i v hi => ?_)
      (henv.mono fun f hf => List.mem_append_right _ hf)
    rw [show ca.constValues.length + k + i = k + (ca.constValues.length + i) by omega]
    refine hconst _ v ?_
    rwa [List.getElem?_append_right (by omega), Nat.add_sub_cancel_left]

theorem Expr.compiled_leaf {ty : ExprTy} {t : Expr ty} {c : Expression} {op : Op} {T : List ℕ}
    (hops : c.ops.map (Expression.shiftOp k) = [op]) (hassign : r.assign op = some (op, r'))
    (hgrows : r.Grows r' T) (hT : ty = .data → T ≠ [])
    (hruns : ∀ constValues env, (∀ i v, c.constValues[i]? = some v → constValues[k + i]? = some v) →
      env.Ready t.fields → t.Runs cast constValues env r.registersCurr r' [op]) :
    Compiled cast t c k r [op] r' T where
  assign := by
    rw [hops]
    exact DestRegisters.assignAll_single hassign
  length := by rw [← hops, List.length_map]
  grows := hgrows
  pushes := hT
  runs := hruns

theorem two_le_length {T U : List ℕ} (hT : T ≠ []) (hU : U ≠ []) : 2 ≤ (U ++ T).length := by
  have h₁ := List.length_pos_of_ne_nil hT
  have h₂ := List.length_pos_of_ne_nil hU
  rw [List.length_append]
  omega

/-- Every tree has a program that computes its value. -/
theorem Expr.compiled {ty : ExprTy} (t : Expr ty) {c : Expression} (hcode : t.code cast = some c)
    (k : ℕ) (r : DestRegisters) : ∃ ops r' T, Compiled cast t c k r ops r' T := by
  induction t generalizing c k r with
  | header h =>
    obtain rfl := Option.some.inj hcode
    refine ⟨_, r.count, [], Expr.compiled_leaf rfl rfl (DestRegisters.Grows.refl r).count
      (fun h => by cases h) ?_⟩
    refine fun constValues env _ _ => .leaf (fun _ h => by cases h) fun s => ?_
    show Outcome _ _ (orFault EvalFault.id (env.getHeader h) >>= fun h => .ok (s.pushHeader h))
    cases hh : env.getHeader h with
    | none => exact ⟨fun h => h, hh⟩
    | some x => exact ⟨rfl, x, rfl, fun w hw => Option.some.inj (hh.symm.trans hw)⟩
  | field h o =>
    obtain rfl := Option.some.inj hcode
    refine ⟨_, (r.push 0).count, [0], Expr.compiled_leaf rfl rfl
      (DestRegisters.Grows.refl r).push_zero (fun _ => List.cons_ne_nil _ _) ?_⟩
    refine fun constValues env _ henv => .leaf (fun _ h => by cases h) fun s => ?_
    show Outcome _ _ (orFault EvalFault.id (env.getField h o) >>= fun f =>
      .ok (s.pushData (.fixed ⟨f.value, f.arith⟩)))
    cases hf : env.getField h o with
    | none => exact ⟨fun h => h, by simp only [Expr.eval, hf]; rfl⟩
    | some f =>
      refine ⟨rfl, _, _, rfl, trivial, rfl, fun w hw => ?_⟩
      rw [henv.arith (h, o) (List.mem_singleton_self _) f hf]
      simp only [Expr.eval, hf] at hw
      rw [Option.some.inj (show some f.value = some w from hw)]
  | bool b =>
    obtain rfl := Option.some.inj hcode
    refine ⟨_, r.count, [], Expr.compiled_leaf rfl rfl (DestRegisters.Grows.refl r).count
      (fun h => by cases h) ?_⟩
    refine fun constValues env _ _ => .leaf (fun _ h => by cases h) fun s => ?_
    exact ⟨rfl, b, rfl, fun w hw => Option.some.inj hw⟩
  | const v =>
    obtain rfl := Option.some.inj hcode
    refine ⟨_, (r.push 0).count, [0], Expr.compiled_leaf rfl rfl
      (DestRegisters.Grows.refl r).push_zero (fun _ => List.cons_ne_nil _ _) ?_⟩
    refine fun constValues env hconst _ => .leaf (fun _ h => by cases h) fun s => ?_
    have hv : constValues[k]? = some v := hconst 0 v rfl
    show Outcome _ _ (orFault EvalFault.offset constValues[0 + k]? >>= fun value =>
      .ok (s.pushData (.fixed ⟨value, true⟩)))
    rw [Nat.zero_add, hv]
    exact ⟨rfl, _, _, rfl, trivial, rfl, fun w hw => by rw [Option.some.inj hw]⟩
  | localData o =>
    obtain rfl := Option.some.inj hcode
    refine ⟨_, (r.push 0).count, [0], Expr.compiled_leaf rfl rfl
      (DestRegisters.Grows.refl r).push_zero (fun _ => List.cons_ne_nil _ _) ?_⟩
    refine fun constValues env _ _ => .leaf (fun _ h => by cases h) fun s => ?_
    refine loads_value s (fun h => ⟨fun h => h, h⟩) fun a w ha hw => ?_
    exact Option.some.inj (ha.symm.trans hw)
  | register array index ih =>
    unfold Expr.code at hcode
    split at hcode
    · next v hlit =>
      obtain ⟨idx, hidx, rfl⟩ := Option.map_eq_some_iff.mp hcode
      refine ⟨_, (r.push 0).count, [0], Expr.compiled_leaf rfl rfl
        (DestRegisters.Grows.refl r).push_zero (fun _ => List.cons_ne_nil _ _) ?_⟩
      exact fun constValues env _ henv => .registerRef (henv.registers array) hlit hidx
    · obtain ⟨c', hc', rfl⟩ := Option.map_eq_some_iff.mp hcode
      obtain ⟨ops, r₁, T, hindex⟩ := ih hc' k r
      obtain ⟨U, r', hU, hlast⟩ :=
        hindex.grows.assign_loadRegisterGen (.registerArray array) (hindex.pushes rfl)
      obtain ⟨hassign, hlength⟩ := hindex.one rfl hlast.assign
      refine ⟨_, r', U, hassign, hlength, hlast.grows, fun _ => hU,
        fun constValues env hconst henv => ?_⟩
      exact .registerGen (henv.registers array) (hindex.runs constValues env hconst henv)
        hlast.cnt_le
  | arith op hop a b iha ihb =>
    obtain ⟨ca, hca, hcode⟩ := Option.bind_eq_some_iff.mp hcode
    obtain ⟨cb, hcb, hcode⟩ := Option.bind_eq_some_iff.mp hcode
    obtain rfl := Option.some.inj hcode
    obtain ⟨opsa, r₁, T₁, ha⟩ := iha hca k r
    obtain ⟨opsb, r₂, T₂, hb⟩ := ihb hcb (ca.constValues.length + k) r₁
    have hgrows := ha.grows.trans hb.grows
    obtain ⟨d, r', hlast⟩ := hgrows.assign_arith ⟨op, .none⟩
      (two_le_length (ha.pushes rfl) (hb.pushes rfl)) hop
    obtain ⟨T, hT, hne⟩ := hlast.grows
    obtain ⟨hassign, hlength⟩ := ha.two hb hlast.assign
    refine ⟨_, r', T, hassign, hlength, hT, fun _ => hne, fun constValues env hconst henv => ?_⟩
    obtain ⟨hruns₁, hruns₂⟩ := ha.runs_two hb hconst henv
    exact .arith hop hruns₁ hruns₂ hb.grows.registersCnt hlast.cnt_le ha.grows.le hlast.le
      hlast.lt_curr hlast.lt_cnt
  | compare op hop a b iha ihb =>
    obtain ⟨ca, hca, hcode⟩ := Option.bind_eq_some_iff.mp hcode
    obtain ⟨cb, hcb, hcode⟩ := Option.bind_eq_some_iff.mp hcode
    obtain rfl := Option.some.inj hcode
    obtain ⟨opsa, r₁, T₁, ha⟩ := iha hca k r
    obtain ⟨opsb, r₂, T₂, hb⟩ := ihb hcb (ca.constValues.length + k) r₁
    have hgrows := ha.grows.trans hb.grows
    obtain ⟨T, r', hlast⟩ := hgrows.assign_compare ⟨op, .none⟩
      (two_le_length (ha.pushes rfl) (hb.pushes rfl)) hop
    obtain ⟨hassign, hlength⟩ := ha.two hb hlast.assign
    refine ⟨_, r', T, hassign, hlength, hlast.grows, (fun h => by cases h),
      fun constValues env hconst henv => ?_⟩
    obtain ⟨hruns₁, hruns₂⟩ := ha.runs_two hb hconst henv
    exact .compare hop (fun _ h => by cases h) hruns₁ hruns₂ hb.grows.registersCnt hlast.cnt_le
      ha.grows.le
  | bitNeg e ih =>
    obtain ⟨c', hc', rfl⟩ := Option.map_eq_some_iff.mp hcode
    obtain ⟨ops, r₁, T₁, he⟩ := ih hc' k r
    obtain ⟨d, r', hlast⟩ := he.grows.assign_bitNeg .none (he.pushes rfl)
    obtain ⟨T, hT, hne⟩ := hlast.grows
    obtain ⟨hassign, hlength⟩ := he.one shiftOp_pushOp hlast.assign
    refine ⟨_, r', T, hassign, hlength, hT, fun _ => hne, fun constValues env hconst henv => ?_⟩
    exact .bitNeg (he.runs constValues env hconst henv) hlast.cnt_le hlast.le hlast.lt_curr
      hlast.lt_cnt
  | boolToData e ih =>
    obtain ⟨c', hc', rfl⟩ := Option.map_eq_some_iff.mp hcode
    obtain ⟨ops, r₁, T₁, he⟩ := ih hc' k r
    obtain ⟨d, r', hlast⟩ := he.grows.assign_boolToData .none
    obtain ⟨T, hT, hne⟩ := hlast.grows
    obtain ⟨hassign, hlength⟩ := he.one shiftOp_pushOp hlast.assign
    refine ⟨_, r', T, hassign, hlength, hT, fun _ => hne, fun constValues env hconst henv => ?_⟩
    exact .boolToData (he.runs constValues env hconst henv) hlast.cnt_le hlast.le hlast.lt_curr
      hlast.lt_cnt
  | dataToBool e ih =>
    obtain ⟨c', hc', rfl⟩ := Option.map_eq_some_iff.mp hcode
    obtain ⟨ops, r₁, T₁, he⟩ := ih hc' k r
    obtain ⟨T, r', hlast⟩ := he.grows.assign_dataToBool .none (he.pushes rfl)
    obtain ⟨hassign, hlength⟩ := he.one shiftOp_pushOp hlast.assign
    refine ⟨_, r', T, hassign, hlength, hlast.grows, (fun h => by cases h),
      fun constValues env hconst henv => ?_⟩
    exact .dataToBool (he.runs constValues env hconst henv) hlast.cnt_le
  | not e ih =>
    obtain ⟨c', hc', rfl⟩ := Option.map_eq_some_iff.mp hcode
    obtain ⟨ops, r₁, T₁, he⟩ := ih hc' k r
    have hop : r₁.assign ⟨.not, .none⟩ = some (⟨.not, .none⟩, r₁.count) := rfl
    obtain ⟨hassign, hlength⟩ := he.one shiftOp_pushOp hop
    refine ⟨_, r₁.count, T₁, hassign, hlength, he.grows.count, (fun h => by cases h),
      fun constValues env hconst henv => ?_⟩
    exact .not (he.runs constValues env hconst henv) (le_max_left _ _)
  | valid e ih =>
    obtain ⟨c', hc', rfl⟩ := Option.map_eq_some_iff.mp hcode
    obtain ⟨ops, r₁, T₁, he⟩ := ih hc' k r
    have hop : r₁.assign ⟨.validHeader, .none⟩ = some (⟨.validHeader, .none⟩, r₁.count) := rfl
    obtain ⟨hassign, hlength⟩ := he.one shiftOp_pushOp hop
    refine ⟨_, r₁.count, T₁, hassign, hlength, he.grows.count, (fun h => by cases h),
      fun constValues env hconst henv => ?_⟩
    exact .valid (he.runs constValues env hconst henv) (le_max_left _ _)
  | and a b iha ihb =>
    obtain ⟨ca, hca, hcode⟩ := Option.bind_eq_some_iff.mp hcode
    obtain ⟨cb, hcb, hcode⟩ := Option.bind_eq_some_iff.mp hcode
    obtain rfl := Option.some.inj hcode
    obtain ⟨opsa, r₁, T₁, ha⟩ := iha hca k r
    obtain ⟨opsb, r₂, T₂, hb⟩ := ihb hcb (ca.constValues.length + k) r₁
    have hop : r₂.assign ⟨.and, .none⟩ = some (⟨.and, .none⟩, r₂.count) := rfl
    obtain ⟨hassign, hlength⟩ := ha.two hb hop
    refine ⟨_, r₂.count, T₂ ++ T₁, hassign, hlength, (ha.grows.trans hb.grows).count,
      (fun h => by cases h), fun constValues env hconst henv => ?_⟩
    obtain ⟨hruns₁, hruns₂⟩ := ha.runs_two hb hconst henv
    exact .connective hruns₁ hruns₂ hb.grows.registersCnt (le_max_left _ _) ha.grows.le rfl
      fun _ _ _ => rfl
  | or a b iha ihb =>
    obtain ⟨ca, hca, hcode⟩ := Option.bind_eq_some_iff.mp hcode
    obtain ⟨cb, hcb, hcode⟩ := Option.bind_eq_some_iff.mp hcode
    obtain rfl := Option.some.inj hcode
    obtain ⟨opsa, r₁, T₁, ha⟩ := iha hca k r
    obtain ⟨opsb, r₂, T₂, hb⟩ := ihb hcb (ca.constValues.length + k) r₁
    have hop : r₂.assign ⟨.or, .none⟩ = some (⟨.or, .none⟩, r₂.count) := rfl
    obtain ⟨hassign, hlength⟩ := ha.two hb hop
    refine ⟨_, r₂.count, T₂ ++ T₁, hassign, hlength, (ha.grows.trans hb.grows).count,
      (fun h => by cases h), fun constValues env hconst henv => ?_⟩
    obtain ⟨hruns₁, hruns₂⟩ := ha.runs_two hb hconst henv
    exact .connective hruns₁ hruns₂ hb.grows.registersCnt (le_max_left _ _) ha.grows.le rfl
      fun _ _ _ => rfl
  | ternary cond a b ihc iha ihb =>
    obtain ⟨cc, hcc, hcode⟩ := Option.bind_eq_some_iff.mp hcode
    obtain ⟨ca, hca, hcode⟩ := Option.bind_eq_some_iff.mp hcode
    obtain ⟨cb, hcb, hcode⟩ := Option.bind_eq_some_iff.mp hcode
    obtain rfl := Option.some.inj hcode
    obtain ⟨opsc, r₁, T₁, hc⟩ := ihc hcc k r
    obtain ⟨opsa, r₂, T₂, ha⟩ := iha hca (cc.constValues.length + k) r₁.count.count
    obtain ⟨opsb, r₃, T₃, hb⟩ :=
      ihb hcb (cc.constValues.length + ca.constValues.length + k) r₂.count
    have hgrows₁ := hc.grows.count.count
    have hgrows₂ := (hgrows₁.trans ha.grows).count
    have hgrows₃ := hgrows₂.trans hb.grows
    have hskips : ∀ m : ℕ, r₁.assignAll [⟨.ternaryOp, .none⟩, ⟨.skip, .skipNum m⟩] =
        some ([⟨.ternaryOp, .none⟩, ⟨.skip, .skipNum m⟩], r₁.count.count) := fun _ => rfl
    have hskip : ∀ m : ℕ, r₂.assignAll [⟨.skip, .skipNum m⟩] =
        some ([⟨.skip, .skipNum m⟩], r₂.count) := fun _ => rfl
    refine ⟨opsc ++ (⟨.ternaryOp, .none⟩ :: ⟨.skip, .skipNum (opsa.length + 1)⟩ ::
      (opsa ++ ⟨.skip, .skipNum opsb.length⟩ :: opsb)), r₃, _, ?_, ?_, hgrows₃, fun hty => ?_,
      fun constValues env hconst henv => ?_⟩
    · rw [map_shiftOp_ternary, ha.length, hb.length]
      exact DestRegisters.assignAll_append hc.assign (DestRegisters.assignAll_append (hskips _)
        (DestRegisters.assignAll_append ha.assign
          (DestRegisters.assignAll_append (hskip _) hb.assign)))
    · have hlen : (cc.pushBackTernaryOp ca cb).ops.length =
          ((cc.pushBackTernaryOp ca cb).ops.map (Expression.shiftOp k)).length := by simp
      rw [hlen, map_shiftOp_ternary]
      simp [hc.length, ha.length, hb.length]
    · exact List.append_ne_nil_of_left_ne_nil (hb.pushes hty) _
    · have henv : env.Ready (cond.fields ++ a.fields ++ b.fields) := henv
      have hconst : ∀ i v, (cc.constValues ++ ca.constValues ++ cb.constValues)[i]? = some v →
          constValues[k + i]? = some v := hconst
      have hcurr : r₂.registersCurr ≤ r₃.registersCurr := hb.grows.le
      refine .ternary (hc.runs constValues env (fun i v hi => hconst i v ?_)
        (henv.mono fun f hf => by simp [hf])) (ha.runs constValues env (fun i v hi => ?_)
        (henv.mono fun f hf => by simp [hf])) (hb.runs constValues env (fun i v hi => ?_)
        (henv.mono fun f hf => by simp [hf])) hgrows₁.le hgrows₂.le ?_ ?_ hcurr
      · have hlt := (List.getElem?_eq_some_iff.mp hi).1
        rwa [List.getElem?_append_left (by rw [List.length_append]; omega),
          List.getElem?_append_left hlt]
      · have hlt := (List.getElem?_eq_some_iff.mp hi).1
        rw [show cc.constValues.length + k + i = k + (cc.constValues.length + i) by omega]
        refine hconst _ v ?_
        rwa [List.getElem?_append_left (by rw [List.length_append]; omega),
          List.getElem?_append_right (by omega), Nat.add_sub_cancel_left]
      · rw [show cc.constValues.length + ca.constValues.length + k + i =
          k + (cc.constValues.length + ca.constValues.length + i) by omega]
        refine hconst _ v ?_
        rwa [List.getElem?_append_right (by rw [List.length_append]; omega), List.length_append,
          Nat.add_sub_cancel_left]
      · have h₁ : r₁.registersCnt ≤ r₁.count.count.registersCnt :=
          (le_max_left _ _).trans (le_max_left _ _)
        have h₂ : r₂.registersCnt ≤ r₂.count.registersCnt := le_max_left _ _
        exact h₁.trans (ha.grows.registersCnt.trans (h₂.trans hb.grows.registersCnt))
      · exact (show r₂.registersCnt ≤ r₂.count.registersCnt from le_max_left _ _).trans
          hb.grows.registersCnt

end Compiled

/-! ## Evaluation -/

/-- There is one result, on the stack for its type. -/
def EvalState.OneResult (s : EvalState) : ExprTy → Prop
  | .bool => s.bools.length = 1 ∧ s.data = [] ∧ s.headers = []
  | .data => s.bools = [] ∧ s.data.length = 1 ∧ s.headers = []
  | .header => s.bools = [] ∧ s.data = [] ∧ s.headers.length = 1

/-- `eval_bool` and `eval_arith` return the value. -/
def Expression.Evaluates (e : Expression) (cast : BignumCast) (env : ExprEnv) (temps : List ℤ) :
    (ty : ExprTy) → ty.Value → Prop
  | .bool, v => e.evalBool cast env temps = .ok v
  | .data, v => e.evalArith cast env temps = .ok v
  | .header, _ => True

theorem Returns.oneResult {n : ℕ} {e : Expression} {temps : List ℤ} {s : EvalState} {ty : ExprTy}
    {v : Option ty.Value} (h : Returns n (e.start temps) s ty v) : s.OneResult ty := by
  cases ty with
  | bool =>
    obtain ⟨b, hs, -⟩ := h
    rw [hs]
    exact ⟨rfl, rfl, rfl⟩
  | data =>
    obtain ⟨x, d, hs, -⟩ := h
    rw [hs]
    exact ⟨rfl, rfl, rfl⟩
  | header =>
    obtain ⟨h, hs, -⟩ := h
    rw [hs]
    exact ⟨rfl, rfl, rfl⟩

theorem Returns.evaluates {cast : BignumCast} {env : ExprEnv} {n : ℕ} {e : Expression}
    {temps : List ℤ} {s : EvalState} {ty : ExprTy} {v : ty.Value}
    (hrun : e.run cast env temps = .ok s) (h : Returns n (e.start temps) s ty (some v)) :
    e.Evaluates cast env temps ty v := by
  have hops : ∀ hempty : e.ops = [], s = e.start temps := fun hempty => by
    unfold Expression.run at hrun
    rw [hempty] at hrun
    exact (Except.ok.inj hrun).symm
  cases ty with
  | bool =>
    obtain ⟨b, hs, hb⟩ := h
    have hne : e.ops ≠ [] := fun hempty => by
      have hbools := congrArg EvalState.bools ((hops hempty).symm.trans hs)
      cases hbools
    unfold Expression.Evaluates Expression.evalBool
    rw [if_neg hne, hrun, hs, ← hb v rfl]
    rfl
  | data =>
    obtain ⟨x, d, hs, -, hd, hv⟩ := h
    have hdata : s.data = [x] := by
      rw [hs]
      rfl
    have hne : e.ops ≠ [] := fun hempty => by
      rw [hops hempty] at hdata
      cases hdata
    unfold Expression.Evaluates Expression.evalArith
    rw [if_neg hne, hrun]
    show (s.popData >>= _) = _
    rw [EvalState.popData_cons hdata hd, hv v rfl]
    rfl
  | header => trivial

/-- **Expression evaluation.**  The program that the loader builds for a well-typed expression has
no fault of its own, leaves one result and never overwrites a register that is still needed; and
where the expression has a value, the evaluation returns it. -/
theorem expression_evaluates (cast : BignumCast) (names : ExprNames) {json : JsonExpr} {ty : ExprTy}
    {t : Expr ty} (htype : Elaborates names json t) {e : Expression} {arith : List (ℕ × ℕ)}
    (hload : buildExpression cast names json (.empty, []) = some (e, arith)) :
    ∃ e', e.build = some e' ∧ ∀ env temps, env.Ready arith →
      StepsMeet (Op.step cast e'.constValues env) (Op.Sound cast e'.constValues env)
        (e'.start temps) e'.ops ∧
      (∀ s, e'.run cast env temps = .ok s → s.OneResult ty) ∧
      ∀ v, t.eval cast env = some v → e'.Evaluates cast env temps ty v := by
  rw [htype.build] at hload
  obtain ⟨c, hc, hload⟩ := Option.map_eq_some_iff.mp hload
  obtain ⟨rfl, rfl⟩ := Prod.mk.inj hload
  obtain ⟨ops, r', T, hcomp⟩ := t.compiled hc 0 ⟨[], 0, 0⟩
  refine ⟨⟨ops, c.constValues, r'.registersCnt⟩, ?_, fun env temps henv => ?_⟩
  · show (DestRegisters.assignAll ⟨[], 0, 0⟩ (c.ops.map (Expression.shiftOp 0)) >>= _) = _
    rw [hcomp.assign]
    rfl
  have hmeets := hcomp.runs c.constValues env (fun i v hi => by rwa [Nat.zero_add]) henv
    (Expression.start ⟨ops, c.constValues, r'.registersCnt⟩ temps) rfl
    (by simp [Expression.start]; omega) (fun x hx => by cases hx)
  refine ⟨hmeets.1, fun s hs => ?_, fun v hv => ?_⟩
  · have hout := hmeets.2
    rw [show ops.foldlM _ _ = Except.ok s from hs] at hout
    exact hout.2.oneResult
  · have hout := hmeets.2
    rw [hv] at hout
    cases hs : Expression.run ⟨ops, c.constValues, r'.registersCnt⟩ cast env temps with
    | error f =>
      rw [show ops.foldlM _ _ = Except.error f from hs] at hout
      cases hout.2
    | ok s =>
      rw [show ops.foldlM _ _ = Except.ok s from hs] at hout
      exact hout.2.evaluates hs

/-- Conversions that throw for a number out of range. -/
def BignumCast.checked : BignumCast where
  toUint v := if 0 ≤ v ∧ v < 2 ^ 32 then some v.toNat else none
  toSize v := if 0 ≤ v ∧ v < 2 ^ 64 then some v.toNat else none
  toUint_of_lt v hv := if_pos ⟨Int.natCast_nonneg v, by exact_mod_cast hv⟩
  toSize_of_lt v hv := if_pos ⟨Int.natCast_nonneg v, by exact_mod_cast hv⟩

/-- `(valid(h) ? h.f + 0x2 : r[h.f]) - (-local)`, where `h` is valid, `h.f` is 3 and the action data
are 7. -/
theorem expression_evaluates_ternary : ∃ e',
    (buildExpression .checked ⟨fun _ => some 0, fun _ _ => some 0, fun _ => some 0⟩
      (.expression "-" .null (.expression "?" (.expression "valid" .null .null (.header "h"))
        (.expression "+" .null (.field "h" "f") (.hexstr "0x2")) (.register "r" (.field "h" "f")))
        (.expression "-" .null .null (.localData 0))) (.empty, [])).bind (fun e => e.1.build) =
      some e' ∧
    e'.evalArith .checked ⟨⟨[⟨[⟨⟨8, [3], false⟩, false, true, 3⟩], true, false, 1, none⟩], []⟩, [7],
      fun _ => []⟩ [] = .ok 12 := by
  have htype : Elaborates ⟨fun _ => some 0, fun _ _ => some 0, fun _ => some 0⟩
      (.expression "-" .null (.expression "?" (.expression "valid" .null .null (.header "h"))
        (.expression "+" .null (.field "h" "f") (.hexstr "0x2")) (.register "r" (.field "h" "f")))
        (.expression "-" .null .null (.localData 0))) (_ : Expr .data) :=
    .arith rfl (.ternary (.valid (.header rfl)) (.arith rfl (.field rfl rfl) (.hexstr rfl))
      (.register rfl (.field rfl rfl))) (.sign rfl (.inr rfl) (.localData 0))
  obtain ⟨e', hbuild, h⟩ := expression_evaluates .checked _ htype rfl
  refine ⟨e', hbuild, (h _ [] ⟨fun f hf x hx => ?_, fun _ => ?_⟩).2.2 (12 : ℤ) rfl⟩
  · have hf : f ∈ [(0, 0), (0, 0)] := hf
    obtain rfl : f = (0, 0) := by simpa using hf
    obtain rfl := Option.some.inj hx
    rfl
  · exact Nat.two_pow_pos 32

end Bm
