/-
# What the value of an expression depends on

`eval_` keeps `data_temps` from one evaluation to the next, and reads registers that other threads may write.
The value depends on neither what is left in `data_temps` nor on the arrays that `grab_register_accesses` does
not find: two evaluations go on side by side (`Expression.evalArith_congr`).
-/
import Bmv2.Actions

namespace Bm

/-- Both computations fail in the same way, or both have a result. -/
inductive Both {ε α : Type} (R : α → α → Prop) : Except ε α → Except ε α → Prop where
  | ok {a b : α} (h : R a b) : Both R (.ok a) (.ok b)
  | error (e : ε) : Both R (.error e) (.error e)

namespace Both

variable {ε α β : Type} {R : α → α → Prop} {S : β → β → Prop}

theorem bind {x y : Except ε α} (h : Both R x y) {f g : α → Except ε β} (hf : ∀ a b, R a b → Both S (f a) (g b)) :
    Both S (x >>= f) (y >>= g) := by
  cases h with
  | ok hab => exact hf _ _ hab
  | error e => exact .error e

theorem of_eq {x y : Except ε α} (h : x = y) (hR : ∀ a, R a a) : Both R x y := by
  subst h
  cases x with
  | ok a => exact .ok (hR a)
  | error e => exact .error e

theorem eq {x y : Except ε α} (h : Both (fun a b => b = a) x y) : y = x := by
  cases h with
  | ok hab => rw [hab]
  | error e => rfl

end Both

/-- The environments agree on the packet, the action data and some register arrays. -/
structure ExprEnv.AgreeOn (arrays : List ℕ) (env env' : ExprEnv) : Prop where
  phv : env'.phv = env.phv
  locals : env'.locals = env.locals
  registers : ∀ a ∈ arrays, env'.registers a = env.registers a

/-- The operation has a register for its result, below `n`. -/
def Op.Allocated (n : ℕ) (op : Op) : Prop :=
  (op.opcode.isArith = true ∨ op.opcode = .bitNeg ∨ op.opcode = .boolToData) →
    ∃ i < n, op.operand = .dataDestIndex i

namespace EvalState

/-- The stacks are the same, and so are the registers to which they point. -/
structure Alike (n : ℕ) (s s' : EvalState) : Prop where
  skipped : s'.skipped = s.skipped
  bools : s'.bools = s.bools
  data : s'.data = s.data
  headers : s'.headers = s.headers
  room : n ≤ s.temps.length ∧ n ≤ s'.temps.length
  temps : ∀ i, .temp i ∈ s.data → s'.temps[i]? = s.temps[i]?

variable {n : ℕ} {s s' : EvalState}

theorem Alike.popData (h : Alike n s s') :
    Both (fun a b => b.1 = a.1 ∧ Alike n a.2 b.2) s.popData s'.popData := by
  rw [EvalState.popData, EvalState.popData, h.data]
  cases hs : s.data with
  | nil => exact .error _
  | cons r data =>
    have htail : Alike n { s with data } { s' with data } :=
      ⟨h.skipped, h.bools, rfl, h.headers, h.room, fun i hi => h.temps i (hs ▸ List.mem_cons_of_mem r hi)⟩
    have hderef : s'.deref r = s.deref r := by
      cases r with
      | fixed data => rfl
      | temp i => rw [deref, deref, h.temps i (hs ▸ List.mem_cons_self)]
    dsimp only
    rw [hderef]
    cases s.deref r with
    | error e => exact .error e
    | ok d => exact .ok ⟨rfl, htail⟩

theorem Alike.popBool (h : Alike n s s') :
    Both (fun a b => b.1 = a.1 ∧ Alike n a.2 b.2) s.popBool s'.popBool := by
  rw [EvalState.popBool, EvalState.popBool, h.bools]
  cases s.bools with
  | nil => exact .error _
  | cons b bools => exact .ok ⟨rfl, h.skipped, rfl, h.data, h.headers, h.room, h.temps⟩

theorem Alike.popHeader (h : Alike n s s') :
    Both (fun a b => b.1 = a.1 ∧ Alike n a.2 b.2) s.popHeader s'.popHeader := by
  rw [EvalState.popHeader, EvalState.popHeader, h.headers]
  cases s.headers with
  | nil => exact .error _
  | cons x headers => exact .ok ⟨rfl, h.skipped, h.bools, h.data, rfl, h.room, h.temps⟩

theorem Alike.pushFixed (h : Alike n s s') (d : Data) : Alike n (s.pushData (.fixed d)) (s'.pushData (.fixed d)) := by
  refine ⟨h.skipped, h.bools, congrArg (DataRef.fixed d :: ·) h.data, h.headers, h.room, fun i hi => h.temps i ?_⟩
  rcases List.mem_cons.mp hi with hi | hi
  · cases hi
  · exact hi

theorem Alike.pushBool (h : Alike n s s') (b : Bool) : Alike n (s.pushBool b) (s'.pushBool b) :=
  ⟨h.skipped, congrArg (b :: ·) h.bools, h.data, h.headers, h.room, h.temps⟩

theorem Alike.pushHeader (h : Alike n s s') (x : DataHeader) : Alike n (s.pushHeader x) (s'.pushHeader x) :=
  ⟨h.skipped, h.bools, h.data, congrArg (x :: ·) h.headers, h.room, h.temps⟩

theorem Alike.skip (h : Alike n s s') (m : ℕ) : Alike n { s with skipped := m } { s' with skipped := m } :=
  ⟨rfl, h.bools, h.data, h.headers, h.room, h.temps⟩

/-- A result goes to the same register. -/
theorem Alike.store (h : Alike n s s') {index : ℕ} (hindex : index < n) (value : ℤ) :
    Both (Alike n) (s.store (.dataDestIndex index) value) (s'.store (.dataDestIndex index) value) := by
  rw [EvalState.store, EvalState.store]
  rw [if_pos (lt_of_lt_of_le hindex h.room.1), if_pos (lt_of_lt_of_le hindex h.room.2)]
  refine .ok ⟨h.skipped, h.bools, congrArg (DataRef.temp index :: ·) h.data, h.headers, ?_, fun i hi => ?_⟩
  · simpa only [pushData, List.length_set] using h.room
  · simp only [pushData]
    by_cases hii : index = i
    · subst hii
      rw [List.getElem?_set_self (lt_of_lt_of_le hindex h.room.2),
        List.getElem?_set_self (lt_of_lt_of_le hindex h.room.1)]
    · rw [List.getElem?_set_ne hii, List.getElem?_set_ne hii]
      refine h.temps i ?_
      rcases List.mem_cons.mp hi with hi | hi
      · exact absurd (DataRef.temp.inj hi).symm hii
      · exact hi

end EvalState

section Frame

open EvalState

variable {n : ℕ} {cast : BignumCast} {constValues : List ℤ} {env env' : ExprEnv} {s s' : EvalState}

/-- **One operation**, in two evaluations side by side. -/
theorem Op.exec_congr {op : Op} (halloc : op.Allocated n) (henv : ∀ a ∈ op.registerArray, env'.registers a =
    env.registers a)
    (hphv : env'.phv = env.phv) (hlocals : env'.locals = env.locals) (h : Alike n s s') :
    Both (Alike n) (op.exec cast constValues env s) (op.exec cast constValues env' s') := by
  obtain ⟨opcode, operand⟩ := op
  rw [Op.exec, Op.exec]
  dsimp only
  split
  next harith =>
    obtain ⟨i, hi, rfl⟩ := halloc (.inl harith)
    refine h.popData.bind fun (rd, s₁) (rd', s₁') ⟨hrd, h₁⟩ => ?_
    refine h₁.popData.bind fun (ld, s₂) (ld', s₂') ⟨hld, h₂⟩ => ?_
    dsimp only at hrd hld
    rw [hrd, hld]
    dsimp only
    split
    · exact (Both.of_eq rfl fun _ => rfl).bind fun a b hab => hab ▸ h₂.store hi a
    · exact .error _
  next =>
    split
    next =>
      refine h.popData.bind fun (rd, s₁) (rd', s₁') ⟨hrd, h₁⟩ => ?_
      refine h₁.popData.bind fun (ld, s₂) (ld', s₂') ⟨hld, h₂⟩ => ?_
      dsimp only at hrd hld
      rw [hrd, hld]
      dsimp only
      split
      · exact .ok (h₂.pushBool _)
      · exact .error _
    next =>
      split
      -- what is loaded is the same
      next =>
        refine (Both.of_eq ?_ fun _ => rfl).bind fun a b hab => hab ▸ .ok (h.pushFixed _)
        simp only [ExprEnv.getField, ExprEnv.getHeader, hphv]
      next =>
        refine (Both.of_eq ?_ fun _ => rfl).bind fun a b hab => hab ▸ .ok (h.pushHeader _)
        simp only [ExprEnv.getHeader, hphv]
      next => exact .ok (h.pushBool _)
      next => exact (Both.of_eq rfl fun _ => rfl).bind fun a b hab => hab ▸ .ok (h.pushFixed _)
      next =>
        refine (Both.of_eq ?_ fun _ => rfl).bind fun a b hab => hab ▸ .ok (h.pushFixed _)
        simp only [ExprEnv.getLocal, hlocals]
      next =>
        refine (Both.of_eq ?_ fun _ => rfl).bind fun a b hab => hab ▸ .ok (h.pushFixed _)
        simp only [ExprEnv.getRegister, henv _ rfl]
      next =>
        refine h.popData.bind fun (rd, s₁) (rd', s₁') ⟨hrd, h₁⟩ => ?_
        dsimp only at hrd
        rw [hrd]
        dsimp only
        split
        · refine (Both.of_eq rfl fun _ => rfl).bind fun a b hab => hab ▸ ?_
          refine (Both.of_eq ?_ fun _ => rfl).bind fun c d hcd => hcd ▸ .ok (h₁.pushFixed _)
          simp only [ExprEnv.getRegister, henv _ rfl]
        · exact .error _
      next =>
        refine h.popBool.bind fun (rb, s₁) (rb', s₁') ⟨hrb, h₁⟩ => ?_
        refine h₁.popBool.bind fun (lb, s₂) (lb', s₂') ⟨hlb, h₂⟩ => ?_
        dsimp only at hrb hlb
        rw [hrb, hlb]
        exact .ok (h₂.pushBool _)
      next =>
        refine h.popBool.bind fun (rb, s₁) (rb', s₁') ⟨hrb, h₁⟩ => ?_
        refine h₁.popBool.bind fun (lb, s₂) (lb', s₂') ⟨hlb, h₂⟩ => ?_
        dsimp only at hrb hlb
        rw [hrb, hlb]
        exact .ok (h₂.pushBool _)
      next =>
        refine h.popBool.bind fun (rb, s₁) (rb', s₁') ⟨hrb, h₁⟩ => ?_
        dsimp only at hrb
        rw [hrb]
        exact .ok (h₁.pushBool _)
      next =>
        obtain ⟨i, hi, rfl⟩ := halloc (.inr (.inl rfl))
        refine h.popData.bind fun (rd, s₁) (rd', s₁') ⟨hrd, h₁⟩ => ?_
        dsimp only at hrd
        rw [hrd]
        dsimp only
        split
        · exact h₁.store hi _
        · exact .error _
      next =>
        refine h.popHeader.bind fun (x, s₁) (x', s₁') ⟨hx, h₁⟩ => ?_
        dsimp only at hx
        rw [hx]
        exact .ok (h₁.pushBool _)
      next =>
        refine h.popBool.bind fun (b, s₁) (b', s₁') ⟨hb, h₁⟩ => ?_
        dsimp only at hb
        rw [hb]
        cases b with
        | true => exact .ok (h₁.skip 1)
        | false => exact .ok h₁
      next => exact .ok (h.skip _)
      next =>
        refine h.popData.bind fun (rd, s₁) (rd', s₁') ⟨hrd, h₁⟩ => ?_
        dsimp only at hrd
        rw [hrd]
        exact .ok (h₁.pushBool _)
      next =>
        obtain ⟨i, hi, rfl⟩ := halloc (.inr (.inr rfl))
        refine h.popBool.bind fun (rb, s₁) (rb', s₁') ⟨hrb, h₁⟩ => ?_
        dsimp only at hrb
        rw [hrb]
        exact h₁.store hi _
      next => exact .error _

/-- One turn of the loop. -/
theorem Op.step_congr {op : Op} (halloc : op.Allocated n)
    (henv : ∀ a ∈ op.registerArray, env'.registers a = env.registers a) (hphv : env'.phv = env.phv)
    (hlocals : env'.locals = env.locals) (h : Alike n s s') :
    Both (Alike n) (op.step cast constValues env s) (op.step cast constValues env' s') := by
  rw [Op.step, Op.step, h.skipped]
  cases s.skipped with
  | zero => exact op.exec_congr halloc henv hphv hlocals h
  | succ m => exact .ok (h.skip m)

/-- The whole loop. -/
theorem Expression.run_congr {e : Expression} (halloc : ∀ op ∈ e.ops, op.Allocated e.dataRegistersCnt)
    (henv : env.AgreeOn e.grabRegisterAccesses env') (temps temps' : List ℤ) :
    Both (Alike e.dataRegistersCnt) (e.run cast env temps) (e.run cast env' temps') := by
  have hstart : Alike e.dataRegistersCnt (e.start temps) (e.start temps') := by
    refine ⟨rfl, rfl, rfl, rfl, ?_, fun i hi => absurd hi (List.not_mem_nil)⟩
    simp only [start, List.length_append, List.length_replicate]
    omega
  rw [run, run]
  have henv' : ∀ op ∈ e.ops, ∀ a ∈ op.registerArray, env'.registers a = env.registers a := fun op hop a ha =>
    henv.registers a (List.mem_filterMap.mpr ⟨op, hop, ha⟩)
  generalize e.start temps = s at hstart
  generalize e.start temps' = s' at hstart
  generalize e.ops = ops at halloc henv'
  induction ops generalizing s s' with
  | nil => exact .ok hstart
  | cons op ops ih =>
    rw [List.foldlM_cons, List.foldlM_cons]
    refine (op.step_congr (halloc op List.mem_cons_self) (henv' op List.mem_cons_self) henv.phv henv.locals hstart).bind
      fun s₁ s₁' h₁ => ?_
    exact ih s₁ s₁' h₁ (fun op hop => halloc op (List.mem_cons_of_mem _ hop))
      fun op hop => henv' op (List.mem_cons_of_mem _ hop)

/-- **The value of an expression** does not depend on what is left of earlier evaluations, nor on other arrays. -/
theorem Expression.evalArith_congr {e : Expression} (halloc : ∀ op ∈ e.ops, op.Allocated e.dataRegistersCnt)
    (henv : env.AgreeOn e.grabRegisterAccesses env') (temps temps' : List ℤ) :
    e.evalArith cast env' temps' = e.evalArith cast env temps := by
  rw [evalArith, evalArith]
  split
  next => rfl
  next =>
    refine Both.eq ((Expression.run_congr halloc henv temps temps').bind fun s s' h => h.popData.bind ?_)
    intro p p' hp
    exact .ok (congrArg Data.value hp.1)

end Frame

/-! ## Registers for results are there -/

section Build

namespace DestRegisters

variable {r r' : DestRegisters}

theorem pop_cnt (h : r.pop = some r') : r'.registersCnt = r.registersCnt := by
  rw [pop] at h
  split at h
  · cases h
  · cases h
    rfl

/-- The count only grows, and covers the register that is given out. -/
theorem assign_allocated {op op' : Op} (h : r.assign op = some (op', r')) :
    op'.Allocated r'.registersCnt ∧ r.registersCnt ≤ r'.registersCnt := by
  have hgives : ∀ (r₁ : DestRegisters) (opcode : ExprOpcode), r₁.registersCnt = r.registersCnt →
      (⟨opcode, .dataDestIndex r₁.registersCurr⟩ : Op).Allocated (r₁.push 1).count.registersCnt ∧
        r.registersCnt ≤ (r₁.push 1).count.registersCnt := by
    intro r₁ opcode hcnt
    refine ⟨fun _ => ⟨_, ?_, rfl⟩, ?_⟩ <;> simp only [push, count] <;> omega
  have hpasses : ∀ (r₁ : DestRegisters) (n : ℕ), r₁.registersCnt = r.registersCnt →
      r.registersCnt ≤ r₁.count.registersCnt ∧ r.registersCnt ≤ (r₁.push n).count.registersCnt := by
    intro r₁ n hcnt
    simp only [push, count]
    omega
  obtain ⟨opcode, operand⟩ := op
  have hnot : ∀ {m : ℕ}, opcode.isArith ≠ true → opcode ≠ .bitNeg → opcode ≠ .boolToData →
      (⟨opcode, operand⟩ : Op).Allocated m := fun h₁ h₂ h₃ h => by
    rcases h with h | h | h
    · exact absurd h h₁
    · exact absurd h h₂
    · exact absurd h h₃
  rw [assign] at h
  dsimp only at h
  split at h
  next =>
    obtain ⟨r₁, h₁, h⟩ := Option.bind_eq_some_iff.mp h
    obtain ⟨r₂, h₂, h⟩ := Option.bind_eq_some_iff.mp h
    cases h
    exact hgives r₂ opcode ((pop_cnt h₂).trans (pop_cnt h₁))
  next harith =>
    split at h
    next hcompare =>
      obtain ⟨r₁, h₁, h⟩ := Option.bind_eq_some_iff.mp h
      obtain ⟨r₂, h₂, h⟩ := Option.bind_eq_some_iff.mp h
      cases h
      refine ⟨hnot harith ?_ ?_, (hpasses r₂ 0 ((pop_cnt h₂).trans (pop_cnt h₁))).1⟩ <;> rintro rfl <;> cases hcompare
    next =>
      split at h
      next =>
        obtain ⟨r₁, h₁, h⟩ := Option.bind_eq_some_iff.mp h
        cases h
        exact hgives r₁ .bitNeg (pop_cnt h₁)
      next =>
        cases h
        exact hgives r .boolToData rfl
      next =>
        obtain ⟨r₁, h₁, h⟩ := Option.bind_eq_some_iff.mp h
        cases h
        exact ⟨hnot harith (by decide) (by decide), (hpasses r₁ 0 (pop_cnt h₁)).1⟩
      next =>
        cases h
        exact ⟨hnot harith (by decide) (by decide), (hpasses r 0 rfl).2⟩
      next =>
        cases h
        exact ⟨hnot harith (by decide) (by decide), (hpasses r 0 rfl).2⟩
      next =>
        cases h
        exact ⟨hnot harith (by decide) (by decide), (hpasses r 0 rfl).2⟩
      next =>
        cases h
        exact ⟨hnot harith (by decide) (by decide), (hpasses r 0 rfl).2⟩
      next =>
        obtain ⟨r₁, h₁, h⟩ := Option.bind_eq_some_iff.mp h
        cases h
        exact ⟨hnot harith (by decide) (by decide), (hpasses r₁ 0 (pop_cnt h₁)).2⟩
      next hneg hdata _ _ _ _ _ _ =>
        cases h
        exact ⟨hnot harith hneg hdata, (hpasses r 0 rfl).1⟩

theorem assignAll_allocated {ops ops' : List Op} (h : r.assignAll ops = some (ops', r')) :
    (∀ op ∈ ops', op.Allocated r'.registersCnt) ∧ r.registersCnt ≤ r'.registersCnt := by
  induction ops generalizing r ops' with
  | nil =>
    cases h
    exact ⟨fun op hop => absurd hop List.not_mem_nil, le_rfl⟩
  | cons op ops ih =>
    obtain ⟨⟨op', r₁⟩, h₁, h⟩ := Option.bind_eq_some_iff.mp h
    obtain ⟨⟨ops', r₂⟩, h₂, h⟩ := Option.bind_eq_some_iff.mp h
    cases h
    obtain ⟨halloc, hle⟩ := assign_allocated h₁
    obtain ⟨hallocs, hle'⟩ := ih h₂
    refine ⟨fun op hop => ?_, hle.trans hle'⟩
    rcases List.mem_cons.mp hop with rfl | hop
    · exact fun hres => (halloc hres).imp fun i hi => ⟨lt_of_lt_of_le hi.1 hle', hi.2⟩
    · exact hallocs op hop

end DestRegisters

/-- Every expression that has been built has its registers. -/
theorem Expression.build_allocated {e e' : Expression} (h : e.build = some e') :
    ∀ op ∈ e'.ops, op.Allocated e'.dataRegistersCnt := by
  obtain ⟨⟨ops, r⟩, hassign, h⟩ := Option.bind_eq_some_iff.mp h
  cases h
  exact (DestRegisters.assignAll_allocated hassign).1

end Build

end Bm
