/-
# What an action can get at

An action only gets at registers of arrays that its `register_sync` has locked: each of its steps leaves other arrays
alone and does not depend on them (`ActionFrame.step_keepsTo`).
-/
import Bmv2.ActionThreads

namespace Bm

/-! ## Accesses to some arrays only -/

section KeepsTo

variable {A B : Type} {arrays : List ℕ}

/-- What is done with registers leaves other arrays alone, and does not depend on them. -/
def KeepsTo (arrays : List ℕ) (f : Registers → Option (A × Registers)) : Prop :=
  ∀ σ a σ', f σ = some (a, σ') → (∀ r ∉ arrays, σ' r = σ r) ∧
    ∀ τ, (∀ r ∈ arrays, σ r = τ r) → ∃ τ', f τ = some (a, τ') ∧ ∀ r ∈ arrays, σ' r = τ' r

/-- Nothing is written. -/
theorem KeepsTo.of_read {h : Registers → Option A} (hh : ∀ σ τ, (∀ r ∈ arrays, σ r = τ r) → h τ = h σ) :
    KeepsTo arrays fun σ => (h σ).map fun a => (a, σ) := by
  intro σ a σ' heq
  obtain ⟨b, hb, heq⟩ := Option.map_eq_some_iff.mp heq
  cases heq
  refine ⟨fun r _ => rfl, fun τ hτ => ⟨τ, ?_, hτ⟩⟩
  exact congrArg (Option.map fun a => (a, τ)) ((hh σ τ hτ).trans hb)

/-- The same accesses. -/
theorem KeepsTo.congr {f f' : Registers → Option (A × Registers)} (hf : KeepsTo arrays f) (h : ∀ σ, f' σ = f σ) :
    KeepsTo arrays f' := by
  rw [funext h]
  exact hf

theorem KeepsTo.map {f : Registers → Option (A × Registers)} (hf : KeepsTo arrays f) (k : A → B) :
    KeepsTo arrays fun σ => (f σ).map fun s => (k s.1, s.2) := by
  intro σ b σ' heq
  obtain ⟨⟨a, σ₁⟩, ha, heq⟩ := Option.map_eq_some_iff.mp heq
  cases heq
  obtain ⟨hframe, hdepends⟩ := hf σ a σ₁ ha
  refine ⟨hframe, fun τ hτ => ?_⟩
  obtain ⟨τ', hτ', hagree⟩ := hdepends τ hτ
  exact ⟨τ', congrArg (Option.map fun s => (k s.1, s.2)) hτ', hagree⟩

/-- An array is replaced. -/
theorem KeepsTo.of_update {array : ℕ} (harray : array ∈ arrays) (a : A) (w : RegisterArray → Option RegisterArray) :
    KeepsTo arrays fun σ => (w (σ array)).map fun r => (a, Function.update σ array r) := by
  intro σ b σ' heq
  obtain ⟨r, hr, heq⟩ := Option.map_eq_some_iff.mp heq
  cases heq
  refine ⟨fun i hi => Function.update_of_ne (ne_of_mem_of_not_mem harray hi).symm r σ,
    fun τ hτ => ⟨Function.update τ array r, ?_, fun i hi => ?_⟩⟩
  · dsimp only
    rw [← hτ array harray, hr]
    rfl
  · by_cases h : i = array
    · rw [h, Function.update_self, Function.update_self]
    · rw [Function.update_of_ne h, Function.update_of_ne h]
      exact hτ i hi

/-- **One access** of a program that keeps to some arrays. -/
theorem Prog.step_keepsTo {X : Type} {p : Prog X} (hp : p.Within arrays) : KeepsTo arrays p.step := by
  cases p with
  | ret x => exact fun _ _ _ h => nomatch h
  | abort => exact fun _ _ _ h => nomatch h
  | size array k =>
    have hread : ∀ σ τ : Registers, (∀ r ∈ arrays, σ r = τ r) →
        some (k (τ array).registers.length) = some (k (σ array).registers.length) := fun σ τ hτ => by rw [hτ array hp.1]
    exact KeepsTo.of_read hread
  | readReg array idx k =>
    have hread : ∀ σ τ : Registers, (∀ r ∈ arrays, σ r = τ r) →
        ((τ array).registers[idx]?).map k = ((σ array).registers[idx]?).map k := fun σ τ hτ => by rw [hτ array hp.1]
    refine (KeepsTo.of_read hread).congr fun σ => ?_
    rw [step, Option.map_map]
    rfl
  | writeReg array idx value k => exact KeepsTo.of_update hp.1 k fun r => r.write idx value
  | resetArray array k => exact KeepsTo.of_update hp.1 k fun r => some r.resetState

theorem Prog.step_within {X : Type} {p p' : Prog X} (hp : p.Within arrays) {σ σ' : Registers}
    (h : p.step σ = some (p', σ')) : p'.Within arrays := by
  cases p with
  | ret x => cases h
  | abort => cases h
  | size array k =>
    cases h
    exact hp.2 _
  | readReg array idx k =>
    obtain ⟨value, -, h⟩ := Option.map_eq_some_iff.mp h
    cases h
    exact hp.2 value
  | writeReg array idx value k =>
    obtain ⟨r, -, h⟩ := Option.map_eq_some_iff.mp h
    cases h
    exact hp.2
  | resetArray array k =>
    cases h
    exact hp.2

/-- An access and then the rest of the program is the program. -/
theorem Prog.run_step {X : Type} {p p' : Prog X} {σ σ' : Registers} (h : p.step σ = some (p', σ')) :
    p'.run σ' = p.run σ := by
  cases p with
  | ret x => cases h
  | abort => cases h
  | size array k =>
    cases h
    rfl
  | readReg array idx k =>
    obtain ⟨value, hvalue, h⟩ := Option.map_eq_some_iff.mp h
    cases h
    rw [run, hvalue]
    rfl
  | writeReg array idx value k =>
    obtain ⟨r, hr, h⟩ := Option.map_eq_some_iff.mp h
    cases h
    rw [run, hr]
    rfl
  | resetArray array k =>
    cases h
    rfl

theorem Prog.Within.mono {X : Type} {arrays arrays' : List ℕ} (hsub : arrays ⊆ arrays') {p : Prog X}
    (hp : p.Within arrays) : p.Within arrays' := by
  induction p with
  | ret x => trivial
  | abort => trivial
  | size array k ih => exact ⟨hsub hp.1, fun n => ih n (hp.2 n)⟩
  | readReg array idx k ih => exact ⟨hsub hp.1, fun value => ih value (hp.2 value)⟩
  | writeReg array idx value k ih => exact ⟨hsub hp.1, ih hp.2⟩
  | resetArray array k ih => exact ⟨hsub hp.1, ih hp.2⟩

end KeepsTo

/-! ## Arguments keep to the arrays of their parameters -/

section Arguments

variable {P : Type} {cast : BignumCast} {phv : P → DataPHV} {g : VectorGrowth} {arrays : List ℕ} {σ τ : Registers}
  {state : ActionEngineState P}

/-- One operation of an expression, with other registers in arrays that it does not read. -/
theorem Op.step_registers {op : Op} (hop : ∀ a ∈ op.registerArray, τ a = σ a) (constValues : List ℤ) (s : EvalState) :
    op.step cast constValues (state.env phv τ) s = op.step cast constValues (state.env phv σ) s := by
  obtain ⟨opcode, operand⟩ := op
  rw [step, step]
  split
  · rfl
  · rw [exec, exec]
    dsimp only
    split
    · rfl
    · split
      · rfl
      · split <;> try rfl
        -- the two operations that load a register
        · simp only [ExprEnv.getRegister, ActionEngineState.env, hop _ rfl]
        · simp only [ExprEnv.getRegister, ActionEngineState.env, hop _ rfl]

theorem registerAt_registers {array : ℕ} (h : τ array = σ array) (idx : ℕ) :
    registerAt τ array idx = registerAt σ array idx := by
  rw [registerAt, registerAt, h]

theorem registerAt_arrays {array idx : ℕ} {arg : Arg} (h : registerAt σ array idx = some arg) : arg.arrays =
    [array] := by
  rw [registerAt] at h
  split at h
  · cases h
    rfl
  · cases h

theorem registerIndex_registers (cast : BignumCast) {array : ℕ} (h : τ array = σ array) (value : ℤ) :
    registerIndex cast τ array value = registerIndex cast σ array value :=
  congrArg _ (funext fun idx => registerAt_registers h idx)

theorem registerIndex_arrays {array : ℕ} {value : ℤ} {arg : Arg} (h : registerIndex cast σ array value = some arg) :
    arg.arrays = [array] := by
  obtain ⟨idx, -, hidx⟩ := Option.bind_eq_some_iff.mp h
  exact registerAt_arrays hidx

theorem ActionParam.place_registers {param : ActionParam} (h : ∀ a ∈ param.arrays, τ a = σ a) (ty : ArgType) :
    param.place phv τ state ty = param.place phv σ state ty := by
  cases param with
  | registerRef array idx =>
    have heq := registerAt_registers (h array List.mem_cons_self) idx
    cases ty <;> first | rfl | exact heq
  | _ => cases ty <;> rfl

theorem ActionParam.place_arrays {param : ActionParam} {ty : ArgType} {arg : Arg}
    (h : param.place phv σ state ty = some arg) : arg.arrays ⊆ param.arrays := by
  cases param with
  | registerRef array idx =>
    cases ty with
    | data =>
      rw [registerAt_arrays h]
      exact fun a ha => ha
    | constData =>
      rw [registerAt_arrays h]
      exact fun a ha => ha
    | _ => cases h
  | registerArray array =>
    cases ty with
    | registerArray =>
      cases h
      exact fun a ha => ha
    | _ => cases h
  | _ =>
    -- the others do not lead to registers
    cases ty <;> first
      | (obtain ⟨_, -, h⟩ := Option.map_eq_some_iff.mp h; cases h; exact List.nil_subset _)
      | (cases h; exact List.nil_subset _)
      | cases h

theorem ActionParam.finish_registers {param : ActionParam} (h : ∀ a ∈ param.arrays, τ a = σ a) (temps : DataTemps)
    (value : ℤ) (ty : ArgType) : param.finish cast τ temps value ty = param.finish cast σ temps value ty := by
  cases param with
  | registerGen array idx =>
    have heq := registerIndex_registers cast (h array List.mem_cons_self) value
    cases ty <;> first | rfl | exact congrArg (Option.map _) heq
  | _ => cases ty <;> rfl

theorem ActionParam.finish_arrays {param : ActionParam} {temps temps' : DataTemps} {value : ℤ} {ty : ArgType} {arg :
    Arg}
    (h : param.finish cast σ temps value ty = some (.fixed arg, temps')) : arg.arrays ⊆ param.arrays := by
  cases param with
  | registerGen array idx =>
    cases ty with
    | data =>
      obtain ⟨arg', harg, h⟩ := Option.map_eq_some_iff.mp h
      cases h
      rw [registerIndex_arrays harg]
      exact List.cons_subset_cons array (List.nil_subset _)
    | constData =>
      obtain ⟨arg', harg, h⟩ := Option.map_eq_some_iff.mp h
      cases h
      rw [registerIndex_arrays harg]
      exact List.cons_subset_cons array (List.nil_subset _)
    | _ => cases h
  | expression offset e => cases ty <;> cases h
  | _ => cases ty <;> cases h

theorem ActionParam.evaluates_arrays {param : ActionParam} {temps temps' : DataTemps} {ty : ArgType} {e : Expression}
    (h : param.evaluates g temps ty = some (e, temps')) : e.grabRegisterAccesses ⊆ param.arrays := by
  cases param with
  | registerGen array idx =>
    cases ty <;> cases h <;> exact List.subset_cons_self _ _
  | expression offset ptr =>
    cases ty <;> cases h
    exact fun a ha => ha
  | _ => cases ty <;> cases h

end Arguments

/-! ## Steps of an action keep to its arrays -/

section Frames

variable {P : Type} {cast : BignumCast} {phv : P → DataPHV} {g : VectorGrowth} {fn : ActionFn P} {actionData : List ℤ}
  {orders : ℕ → List ℕ} {temps temps' : DataTemps} {registers registers' : Registers}

/-- The arrays to which the parameters lead are those that are locked. -/
def ActionFn.Synced (fn : ActionFn P) : Prop := ∀ param ∈ fn.params, ∀ a ∈ param.arrays, a ∈ fn.registerSync

/-- The arguments so far lead to arrays that are locked. -/
def ActionFn.Reaches (fn : ActionFn P) (args : List (Option Ref)) : Prop :=
  ∀ arg, some (Ref.fixed arg) ∈ args → arg.arrays ⊆ fn.registerSync

/-- What is left to do keeps to arrays that are locked. -/
def ActionFrame.Within (fn : ActionFn P) : ActionFrame P → Prop
  | .next _ _ _ _ => True
  | .args _ _ done => fn.Reaches done
  | .eval _ _ done _ param _ _ _ ops => fn.Reaches done ∧ param ∈ fn.params ∧
    ∀ op ∈ ops, ∀ a ∈ op.registerArray, a ∈ fn.registerSync
  | .body _ prog => prog.Within fn.registerSync

theorem ActionFn.Reaches.put {args : List (Option Ref)} (h : fn.Reaches args) {ref : Ref}
    (href : ∀ arg, ref = .fixed arg → arg.arrays ⊆ fn.registerSync) (i : ℕ) : fn.Reaches (args.set i (some ref)) := by
  intro arg harg
  rcases List.mem_or_eq_of_mem_set harg with harg | harg
  · exact h arg harg
  · exact href arg (Option.some.inj harg).symm

/-- The arguments that the primitive finds lead to arrays that are locked. -/
theorem ActionFn.Reaches.loadArgs {args : List (Option Ref)} (h : fn.Reaches args) {as : List Arg}
    (has : Bm.loadArgs args temps = some as) : as.flatMap Arg.arrays ⊆ fn.registerSync := by
  intro a ha
  obtain ⟨arg, harg, ha⟩ := List.mem_flatMap.mp ha
  obtain ⟨i, hi, rfl⟩ := List.mem_iff_getElem.mp harg
  have hall := mapM_eq_some_iff_forall₂.mp has
  have hi' : i < args.length := hall.length_eq ▸ hi
  have hload := hall.get hi' hi
  obtain ⟨ref, href, hload⟩ := Option.bind_eq_some_iff.mp hload
  cases ref with
  | fixed arg' =>
    have heq : arg' = as.get ⟨i, hi⟩ := Option.some.inj hload
    exact h arg' (href ▸ List.getElem_mem hi') (heq ▸ ha)
  | temp buffer offset =>
    -- a result of an expression is not a register
    rw [Ref.load] at hload
    split at hload
    · have heq : _ = as[i] := Option.some.inj hload
      rw [← heq] at ha
      exact absurd ha List.not_mem_nil
    · cases hload

/-- A step of the body of a primitive. -/
theorem ActionFrame.step_body {c : CallFrame P} {prog : Prog P} (h : ∀ packet, prog ≠ .ret packet) :
    (ActionFrame.body c prog).step cast phv g fn actionData orders temps registers =
      (prog.step registers).map fun s => ((.body c s.1, temps), s.2) := by
  cases prog with
  | ret packet => exact absurd rfl (h packet)
  | _ => rfl

/-- The next argument of a call. -/
theorem ActionFrame.step_args {c : CallFrame P} {i : ℕ} {todo : List ℕ} {done : List (Option Ref)} {param : ActionParam}
    {ty : ArgType} (hparam : fn.params[c.paramOffset + i]? = some param) (hty : c.primitive.args[i]? = some ty) :
    (ActionFrame.args c (i :: todo) done).step cast phv g fn actionData orders temps registers =
      match param.evaluates g temps ty with
      | none => (param.place phv registers (c.state fn actionData) ty).map fun arg =>
          (put c todo done i (.fixed arg, temps), registers)
      | some (e, temps) =>
          if e.ops = [] then (param.finish cast registers temps 0 ty).map fun r => (put c todo done i r, registers)
          else some ((.eval c todo done i param ty e (e.start temps.evalTemps) e.ops, temps), registers) := by
  rw [step, hparam, hty]
  rfl

/-- A step of an action keeps within the arrays that are locked. -/
theorem ActionFrame.step_within (hfn : fn.Synced) {frame frame' : ActionFrame P} (h : frame.Within fn)
    (hstep : frame.step cast phv g fn actionData orders temps registers = some ((frame', temps'), registers')) :
    frame'.Within fn := by
  cases frame with
  | next packet call paramOffset primitives =>
    cases primitives with
    | nil => cases hstep
    | cons primitive rest =>
      cases hstep
      intro arg harg
      exact absurd (List.eq_of_mem_replicate harg) (Option.some_ne_none _)
  | args c todo done =>
    cases todo with
    | nil =>
      obtain ⟨as, has, hstep⟩ := Option.map_eq_some_iff.mp hstep
      cases hstep
      exact (c.primitive.within as c.packet).mono (h.loadArgs has)
    | cons i todo =>
      obtain ⟨param, hparam, hstep⟩ := Option.bind_eq_some_iff.mp hstep
      obtain ⟨ty, -, hstep⟩ := Option.bind_eq_some_iff.mp hstep
      have harrays := hfn param (List.mem_of_getElem? hparam)
      cases heval : param.evaluates g temps ty with
      | none =>
        rw [heval] at hstep
        obtain ⟨arg, harg, hstep⟩ := Option.map_eq_some_iff.mp hstep
        cases hstep
        exact h.put (fun arg' heq a ha => harrays a (ActionParam.place_arrays harg (by cases heq; exact ha))) i
      | some e =>
        rw [heval] at hstep
        dsimp only at hstep
        split at hstep
        · obtain ⟨⟨ref, temps₁⟩, hfinish, hstep⟩ := Option.map_eq_some_iff.mp hstep
          cases hstep
          refine h.put (fun arg heq a ha => harrays a ?_) i
          cases heq
          exact ActionParam.finish_arrays hfinish ha
        · cases hstep
          refine ⟨h, List.mem_of_getElem? hparam, fun op hop a ha => harrays a ?_⟩
          exact ActionParam.evaluates_arrays heval (List.mem_filterMap.mpr ⟨op, hop, ha⟩)
  | eval c todo done i param ty e s ops =>
    obtain ⟨hdone, hparam, hops⟩ := h
    cases ops with
    | nil =>
      obtain ⟨⟨d, s'⟩, -, hstep⟩ := Option.bind_eq_some_iff.mp hstep
      obtain ⟨⟨ref, temps₁⟩, hfinish, hstep⟩ := Option.map_eq_some_iff.mp hstep
      cases hstep
      refine hdone.put (fun arg heq a ha => hfn param hparam a ?_) i
      cases heq
      exact ActionParam.finish_arrays hfinish ha
    | cons op ops =>
      obtain ⟨s', -, hstep⟩ := Option.map_eq_some_iff.mp hstep
      cases hstep
      exact ⟨hdone, hparam, fun op' hop' => hops op' (List.mem_cons_of_mem op hop')⟩
  | body c prog =>
    by_cases hret : ∃ packet, prog = .ret packet
    · obtain ⟨packet, rfl⟩ := hret
      cases hstep
      trivial
    · rw [step_body fun packet heq => hret ⟨packet, heq⟩] at hstep
      obtain ⟨⟨prog', registers₁⟩, hprog, hstep⟩ := Option.map_eq_some_iff.mp hstep
      cases hstep
      exact Prog.step_within h hprog

/-- **A step of an action** keeps to the arrays that are locked. -/
theorem ActionFrame.step_keepsTo (hfn : fn.Synced) {frame : ActionFrame P} (h : frame.Within fn) :
    KeepsTo fn.registerSync (frame.step cast phv g fn actionData orders temps) := by
  intro σ x σ' hstep
  dsimp only at hstep ⊢
  cases frame with
  | next packet call paramOffset primitives =>
    cases primitives with
    | nil => cases hstep
    | cons primitive rest =>
      cases hstep
      exact ⟨fun _ _ => rfl, fun τ hτ => ⟨τ, rfl, hτ⟩⟩
  | args c todo done =>
    cases todo with
    | nil =>
      obtain ⟨as, has, hstep⟩ := Option.map_eq_some_iff.mp hstep
      cases hstep
      exact ⟨fun _ _ => rfl, fun τ hτ => ⟨τ, by rw [step, has]; rfl, hτ⟩⟩
    | cons i todo =>
      obtain ⟨param, hparam, hstep'⟩ := Option.bind_eq_some_iff.mp hstep
      obtain ⟨ty, hty, -⟩ := Option.bind_eq_some_iff.mp hstep'
      have harrays := hfn param (List.mem_of_getElem? hparam)
      rw [step_args hparam hty] at hstep
      cases heval : param.evaluates g temps ty with
      | none =>
        rw [heval] at hstep
        obtain ⟨arg, harg, hstep⟩ := Option.map_eq_some_iff.mp hstep
        cases hstep
        refine ⟨fun _ _ => rfl, fun τ hτ => ⟨τ, ?_, hτ⟩⟩
        rw [step_args hparam hty, heval]
        dsimp only
        rw [ActionParam.place_registers fun a ha => (hτ a (harrays a ha)).symm, harg]
        rfl
      | some e =>
        rw [heval] at hstep
        dsimp only at hstep
        by_cases hops : e.1.ops = []
        · rw [if_pos hops] at hstep
          obtain ⟨r, hfinish, hstep⟩ := Option.map_eq_some_iff.mp hstep
          cases hstep
          refine ⟨fun _ _ => rfl, fun τ hτ => ⟨τ, ?_, hτ⟩⟩
          rw [step_args hparam hty, heval]
          dsimp only
          rw [if_pos hops, ActionParam.finish_registers fun a ha => (hτ a (harrays a ha)).symm, hfinish]
          rfl
        · rw [if_neg hops] at hstep
          cases hstep
          refine ⟨fun _ _ => rfl, fun τ hτ => ⟨τ, ?_, hτ⟩⟩
          rw [step_args hparam hty, heval]
          exact if_neg hops
  | eval c todo done i param ty e s ops =>
    obtain ⟨-, hparam, hops⟩ := h
    cases ops with
    | nil =>
      obtain ⟨⟨d, s'⟩, hpop, hstep⟩ := Option.bind_eq_some_iff.mp hstep
      obtain ⟨r, hfinish, hstep⟩ := Option.map_eq_some_iff.mp hstep
      cases hstep
      refine ⟨fun _ _ => rfl, fun τ hτ => ⟨τ, ?_, hτ⟩⟩
      rw [step, hpop]
      dsimp only [Option.bind_eq_bind, Option.bind_some]
      rw [ActionParam.finish_registers fun a ha => (hτ a (hfn param hparam a ha)).symm, hfinish]
      rfl
    | cons op ops =>
      obtain ⟨s', hop, hstep⟩ := Option.map_eq_some_iff.mp hstep
      cases hstep
      refine ⟨fun _ _ => rfl, fun τ hτ => ⟨τ, ?_, hτ⟩⟩
      rw [step, Op.step_registers fun a ha => (hτ a (hops op List.mem_cons_self a ha)).symm, hop]
      rfl
  | body c prog =>
    by_cases hret : ∃ packet, prog = .ret packet
    · obtain ⟨packet, rfl⟩ := hret
      cases hstep
      exact ⟨fun _ _ => rfl, fun τ hτ => ⟨τ, rfl, hτ⟩⟩
    · have heq : ∀ σ, (ActionFrame.body c prog).step cast phv g fn actionData orders temps σ = _ := fun σ =>
        step_body fun packet heq => hret ⟨packet, heq⟩
      exact ((Prog.step_keepsTo h).map fun p => (ActionFrame.body c p, temps)).congr heq σ x σ' hstep

end Frames

end Bm
