/-
# What the loader makes of an action

The action that is loaded stands for the calls of the configuration (`ActionFn.Loaded`): every call has its own
stretch of `params`, the results of expressions have places of their own in `data_temps`, and `register_sync` has
all arrays to which the parameters lead.  The assertion about `nb_data_tmps` never fails.
-/
import Bmv2.ActionCalls
import Bmv2.Lib.Blocks
import Bmv2.ExprTrees

namespace Bm

/-- The fields that an expression uses are put behind those that are known. -/
theorem buildExpression_arith (cast : BignumCast) (names : ExprNames) (json : JsonExpr) (e : Expression)
    (arith : List (ℕ × ℕ)) : buildExpression cast names json (e, arith) =
      (buildExpression cast names json (e, [])).map fun r => (r.1, arith ++ r.2) := by
  induction json generalizing e arith with
  | null => simp [buildExpression]
  | expression op cond left right ihc ihl ihr =>
    by_cases hop : op = "?"
    · rw [buildExpression, buildExpression, if_pos hop, if_pos hop, ihc]
      cases buildExpression cast names cond (e, []) with
      | none => rfl
      | some rc =>
        simp only [Option.map_some, Option.bind_eq_bind, Option.bind_some]
        rw [ihl, ihl _ rc.2]
        cases buildExpression cast names left (.empty, []) with
        | none => rfl
        | some rl =>
          simp only [Option.map_some, Option.bind_some]
          rw [ihr, ihr _ (rc.2 ++ rl.2)]
          cases buildExpression cast names right (.empty, []) with
          | none => rfl
          | some rr => simp
    · rw [buildExpression, buildExpression, if_neg hop, if_neg hop]
      by_cases hsign : (op = "+" ∨ op = "-") ∧ left = .null
      · rw [if_pos hsign, if_pos hsign]
        simp only [Option.bind_eq_bind, Option.bind_some]
        rw [ihr]
        cases buildExpression cast names right (e.pushBackLoadConst 0, []) with
        | none => rfl
        | some rr => simp
      · rw [if_neg hsign, if_neg hsign, ihl]
        cases buildExpression cast names left (e, []) with
        | none => rfl
        | some rl =>
          simp only [Option.map_some, Option.bind_eq_bind, Option.bind_some]
          rw [ihr, ihr _ rl.2]
          cases buildExpression cast names right (rl.1, []) with
          | none => rfl
          | some rr => simp
  | header name =>
    rw [buildExpression, buildExpression]
    cases names.headerId name <;> simp
  | field header field =>
    rw [buildExpression, buildExpression]
    cases names.headerId header with
    | none => rfl
    | some h => cases hoff : names.fieldOffset h field <;> simp [hoff]
  | bool value => simp [buildExpression]
  | hexstr value =>
    rw [buildExpression, buildExpression]
    cases Data.ofHexstring value <;> simp
  | localData offset => simp [buildExpression]
  | register name index ih =>
    by_cases hnull : index = .null
    · subst hnull
      rfl
    by_cases hhex : ∃ value, index = .hexstr value
    · obtain ⟨value, rfl⟩ := hhex
      rw [buildExpression, buildExpression]
      cases Data.ofHexstring value with
      | none => rfl
      | some v => cases hidx : cast.toUint v <;> cases names.registerArray name <;> simp [hidx]
    · have hhex : ∀ value, index ≠ .hexstr value := fun value h => hhex ⟨value, h⟩
      rw [buildExpression_register hnull hhex e arith, buildExpression_register hnull hhex e [], ih]
      cases buildExpression cast names index (e, []) with
      | none => rfl
      | some r => cases names.registerArray name <;> simp

section Loaded

variable {P : Type}

/-- A parameter of an action does for one of the configuration. -/
inductive ActionParam.Implements (constValues : List ℤ) : ActionParam → ConfigParam → Prop where
  | const {offset : ℕ} {data : ℤ} (h : constValues[offset]? = some data) : Implements constValues (.const offset)
    (.const data)
  | expression {offset : ℕ} {e : Expression} (h : ∀ op ∈ e.ops, op.Allocated e.dataRegistersCnt) :
      Implements constValues (.expression offset e) (.expression e)
  | registerGen {array : ℕ} {idx : Expression} (h : ∀ op ∈ idx.ops, op.Allocated idx.dataRegistersCnt) :
      Implements constValues (.registerGen array idx) (.registerGen array idx)
  | place {param : ActionParam} (hconst : ∀ offset, param ≠ .const offset)
      (hexpression : ∀ offset e, param ≠ .expression offset e) (hgen : ∀ array idx, param ≠ .registerGen array idx) :
      Implements constValues param (.place param)

/-- The place in `data_temps` that a parameter has. -/
def ActionParam.offset? : ActionParam → Option ℕ
  | .expression offset _ => some offset
  | _ => none

/-- The register arrays to which a parameter leads. -/
def ActionParam.arrays : ActionParam → List ℕ
  | .registerRef array _ => [array]
  | .registerGen array idx => array :: idx.grabRegisterAccesses
  | .registerArray array => [array]
  | .expression _ e => e.grabRegisterAccesses
  | _ => []

/-- What the loader establishes, with the primitives and the parameters so far. -/
structure ActionFn.LoadedSoFar (fn : ActionFn P) (primitives : List (Primitive P)) (params : List ConfigParam) : Prop
    where
  primitives : fn.primitives = primitives
  params : List.Forall₂ (ActionParam.Implements fn.constValues) fn.params params
  /-- The places in `data_temps` are 1, 2 and so on; the first element is not among them. -/
  offsets : fn.params.filterMap ActionParam.offset? = List.range' 1 (fn.params.countP ActionParam.isExpression)
  arrays : ∀ param ∈ fn.params, ∀ a ∈ param.arrays, a ∈ fn.registerSync

/-- The action does for the calls of the configuration. -/
structure ActionFn.Loaded (fn : ActionFn P) (calls : List (ConfigCall P)) : Prop
    extends fn.LoadedSoFar (calls.map ConfigCall.primitive) (calls.flatMap ConfigCall.params) where
  arity : ∀ call ∈ calls, call.params.length = call.primitive.getNumParams

theorem ActionParam.Implements.mono {constValues : List ℤ} {param : ActionParam} {c : ConfigParam}
    (h : param.Implements constValues c) (data : ℤ) : param.Implements (constValues ++ [data]) c := by
  cases h with
  | const h =>
    refine .const ?_
    rw [List.getElem?_append_left (List.getElem?_eq_some_iff.mp h).1, h]
  | expression h => exact .expression h
  | registerGen h => exact .registerGen h
  | place h₁ h₂ h₃ => exact .place h₁ h₂ h₃

namespace ActionFn.LoadedSoFar

variable {fn : ActionFn P} {primitives : List (Primitive P)} {params : List ConfigParam}

theorem addRegisterArray (h : fn.LoadedSoFar primitives params) (array : ℕ) :
    (fn.addRegisterArray array).LoadedSoFar primitives params ∧ array ∈ (fn.addRegisterArray array).registerSync ∧
      ∀ a ∈ fn.registerSync, a ∈ (fn.addRegisterArray array).registerSync := by
  rw [ActionFn.addRegisterArray]
  split
  next hmem => exact ⟨h, hmem, fun a ha => ha⟩
  next =>
    refine ⟨⟨h.primitives, h.params, h.offsets, fun p hp a ha => ?_⟩, ?_, fun a ha => ?_⟩
    · exact List.mem_append_left _ (h.arrays p hp a ha)
    · exact List.mem_append_right _ List.mem_cons_self
    · exact List.mem_append_left _ ha

theorem grab (h : fn.LoadedSoFar primitives params) (e : Expression) :
    (fn.grab e).LoadedSoFar primitives params ∧
      (∀ a ∈ e.grabRegisterAccesses, a ∈ (fn.grab e).registerSync) ∧
        (∀ a ∈ fn.registerSync, a ∈ (fn.grab e).registerSync) ∧ (fn.grab e).params = fn.params := by
  rw [ActionFn.grab]
  generalize e.grabRegisterAccesses = arrays
  induction arrays generalizing fn with
  | nil => exact ⟨h, fun a ha => absurd ha List.not_mem_nil, fun a ha => ha, rfl⟩
  | cons array arrays ih =>
    obtain ⟨h₁, hmem, hmono⟩ := h.addRegisterArray array
    obtain ⟨h₂, hall, hmono', hparams⟩ := ih h₁
    refine ⟨h₂, fun a ha => ?_, fun a ha => hmono' a (hmono a ha), hparams.trans ?_⟩
    · rcases List.mem_cons.mp ha with rfl | ha
      · exact hmono' a hmem
      · exact hall a ha
    · rw [ActionFn.addRegisterArray]
      split <;> rfl

/-- A parameter that is not the result of an expression is pushed. -/
theorem push (h : fn.LoadedSoFar primitives params) {param : ActionParam} {c : ConfigParam}
    (himpl : param.Implements fn.constValues c) (hoffset : param.isExpression = false)
    (harrays : ∀ a ∈ param.arrays, a ∈ fn.registerSync) :
    (fn.pushParam param).LoadedSoFar primitives (params ++ [c]) := by
  have hnone : param.offset? = none := by
    cases param <;> first | rfl | cases hoffset
  refine ⟨h.primitives, List.rel_append h.params (.cons himpl .nil), ?_, fun p hp => ?_⟩
  · simp only [pushParam, List.filterMap_append, List.countP_append, List.filterMap_cons, hnone, List.filterMap_nil,
      List.append_nil, h.offsets, List.countP_cons, hoffset, List.countP_nil]
    rfl
  · rcases List.mem_append.mp hp with hp | hp
    · exact h.arrays p hp
    · rw [List.mem_singleton.mp hp]
      exact harrays

/-- The result of an expression gets the next place in `data_temps`. -/
theorem pushExpression (h : fn.LoadedSoFar primitives params) {e : Expression}
    (halloc : ∀ op ∈ e.ops, op.Allocated e.dataRegistersCnt) :
    ((fn.grab e).pushParam (.expression (1 + fn.params.countP ActionParam.isExpression) e)).LoadedSoFar primitives
      (params ++ [.expression e]) := by
  obtain ⟨h₁, hall, -, hparams⟩ := h.grab e
  refine ⟨h₁.primitives, List.rel_append h₁.params (.cons (.expression halloc) .nil), ?_, fun p hp => ?_⟩
  · simp only [pushParam, hparams, List.filterMap_append, List.countP_append, h.offsets]
    simp [ActionParam.offset?, ActionParam.isExpression, List.range'_concat]
  · rcases List.mem_append.mp hp with hp | hp
    · exact h₁.arrays p hp
    · rw [List.mem_singleton.mp hp]
      exact hall

end ActionFn.LoadedSoFar

/-! ## The loops -/

variable (cast : BignumCast) (names : ActionNames) (opcodes : String → Option (Primitive P))

/-- What the loader keeps: there is room in `nb_data_tmps` for one more expression than there is. -/
structure ActionLoader.Inv (s : ActionLoader P) (primitives : List (Primitive P)) (params : List ConfigParam) : Prop
    where
  loaded : s.actionFn.LoadedSoFar primitives params
  dataTmps : 1 + s.actionFn.params.countP ActionParam.isExpression ≤ s.nbDataTmps

theorem ActionLoader.buildExpr_resolve {json : JsonExpr} {arithFields : List (ℕ × ℕ)} {e : Expression × List (ℕ × ℕ)}
    (h : ActionLoader.buildExpr cast names json arithFields = some e) :
    (∃ arith, ActionLoader.buildExpr cast names json [] = some (e.1, arith)) ∧
      ∀ op ∈ e.1.ops, op.Allocated e.1.dataRegistersCnt := by
  obtain ⟨⟨expr, arith⟩, hexpr, h⟩ := Option.bind_eq_some_iff.mp h
  obtain ⟨built, hbuilt, h⟩ := Option.bind_eq_some_iff.mp h
  cases h
  rw [buildExpression_arith] at hexpr
  obtain ⟨r, hr, hexpr⟩ := Option.map_eq_some_iff.mp hexpr
  cases hexpr
  refine ⟨⟨r.2, ?_⟩, Expression.build_allocated hbuilt⟩
  rw [ActionLoader.buildExpr, hr]
  simp only [Option.bind_eq_bind, Option.bind_some, hbuilt]
  rfl

variable {cast names opcodes} {s s' : ActionLoader P} {primitives : List (Primitive P)} {params : List ConfigParam}

/-- A parameter that is not the result of an expression, and leads to no other arrays than those in `arrays`. -/
theorem ActionLoader.Inv.push (h : s.Inv primitives params) {fn : ActionFn P}
    (hfn : fn.LoadedSoFar primitives params) (hparams : fn.params = s.actionFn.params) {param : ActionParam}
    {c : ConfigParam} (himpl : param.Implements fn.constValues c) (hoffset : param.isExpression = false)
    (harrays : ∀ a ∈ param.arrays, a ∈ fn.registerSync) {t : ActionLoader P} (ht : t.actionFn = fn.pushParam param)
    (htmps : t.nbDataTmps = s.nbDataTmps) : t.Inv primitives (params ++ [c]) := by
  refine ⟨ht ▸ hfn.push himpl hoffset harrays, ?_⟩
  rw [ht, htmps]
  simp only [ActionFn.pushParam, List.countP_append, List.countP_cons, hoffset, List.countP_nil, hparams]
  exact h.dataTmps

theorem ActionFn.addRegisterArray_pushParam (fn : ActionFn P) (array : ℕ) (param : ActionParam) :
    (fn.pushParam param).addRegisterArray array = (fn.addRegisterArray array).pushParam param := by
  rw [addRegisterArray, addRegisterArray]
  by_cases hmem : array ∈ fn.registerSync
  · rw [if_pos hmem]
    exact if_pos hmem
  · rw [if_neg hmem]
    exact if_neg hmem

/-- A parameter that is a place, without register arrays. -/
theorem ActionLoader.Inv.pushPlace (h : s.Inv primitives params) {param : ActionParam}
    (himpl : param.Implements s.actionFn.constValues (.place param)) (harrays : param.arrays = [])
    {t : ActionLoader P} (ht : t.actionFn = s.actionFn.pushParam param) (htmps : t.nbDataTmps = s.nbDataTmps) :
    t.Inv primitives (params ++ [.place param]) := by
  refine h.push h.loaded rfl himpl ?_ (fun a ha => absurd ha (by rw [harrays]; exact List.not_mem_nil)) ht htmps
  cases himpl with
  | place _ hexpression _ =>
    cases param <;> first | rfl | exact absurd rfl (hexpression _ _)

/-- One of the parameters that are looked up by name, or are just there. -/
theorem ActionLoader.Inv.loadPlace (h : s.Inv primitives params) {x : Option ℕ} {param : ℕ → ActionParam}
    (himpl : ∀ i, (param i).Implements s.actionFn.constValues (.place (param i))) (harrays : ∀ i, (param i).arrays = [])
    {t : ℕ → ActionLoader P} (ht : ∀ i, (t i).actionFn = s.actionFn.pushParam (param i))
    (htmps : ∀ i, (t i).nbDataTmps = s.nbDataTmps) :
    match (do let i ← orFault ActionLoadFault.parameter x; pure (t i) : Except ActionLoadFault (ActionLoader P)) with
    | .ok s' => ∃ c, (x.map fun i => ConfigParam.place (param i)) = some c ∧ s'.Inv primitives (params ++ [c])
    | .error e => e = .parameter := by
  cases x with
  | none => rfl
  | some i => exact ⟨_, rfl, h.pushPlace (himpl i) (harrays i) (ht i) (htmps i)⟩

/-- A register whose index is not a number. -/
theorem ActionLoader.loadParam_register {name : String} {index : JsonExpr} (h : ∀ value, index ≠ .hexstr value) :
    s.loadParam cast names (.register name index) =
      (orFault .parameter (buildExpr cast names index s.arithFields)).bind fun e =>
        (orFault .parameter (names.registerArray name)).bind fun array =>
          .ok { s.push (·.parameterPushBackRegisterGen array e.1) with arithFields := e.2 } := by
  cases index with
  | hexstr value => exact absurd rfl (h value)
  | _ => rfl

theorem JsonParam.resolve_register {name : String} {index : JsonExpr} (h : ∀ value, index ≠ .hexstr value) :
    (JsonParam.register name index).resolve cast names = (ActionLoader.buildExpr cast names index []).bind fun e =>
      (names.registerArray name).map fun array => .registerGen array e.1 := by
  cases index with
  | hexstr value => exact absurd rfl (h value)
  | _ =>
    rw [resolve]
    · cases ActionLoader.buildExpr cast names _ [] with
      | none => rfl
      | some e => cases names.registerArray name <;> rfl
    all_goals simp

variable (cast names) in
/-- **One parameter** is loaded, or it cannot be read. -/
theorem ActionLoader.Inv.loadParam (h : s.Inv primitives params) (json : JsonParam) :
    match s.loadParam cast names json with
    | .ok s' => ∃ c, json.resolve cast names = some c ∧ s'.Inv primitives (params ++ [c])
    | .error e => e = .parameter := by
  have hplace : ∀ {param : ActionParam}, (∀ offset, param ≠ .const offset) →
    (∀ offset e, param ≠ .expression offset e) →
      (∀ array idx, param ≠ .registerGen array idx) →
        param.Implements s.actionFn.constValues (.place param) := fun h₁ h₂ h₃ => .place h₁ h₂ h₃
  cases json with
  | hexstr value =>
    rw [ActionLoader.loadParam, JsonParam.resolve]
    cases Data.ofHexstring value with
    | none => rfl
    | some data =>
      refine ⟨_, rfl, ?_⟩
      have hmono : ({ s.actionFn with constValues := s.actionFn.constValues ++ [data] } : ActionFn P).LoadedSoFar
          primitives params :=
        ⟨h.loaded.primitives, h.loaded.params.imp fun _ _ himpl => himpl.mono data, h.loaded.offsets, h.loaded.arrays⟩
      refine h.push hmono rfl (.const (List.getElem?_concat_length)) rfl
        (fun a ha => absurd ha List.not_mem_nil) rfl rfl
  | runtimeData offset =>
    exact ⟨_, rfl, h.pushPlace (hplace (by simp) (by simp) (by simp)) rfl rfl rfl⟩
  | header name =>
    exact h.loadPlace (fun i => hplace (by simp) (by simp) (by simp)) (fun _ => rfl) (fun _ => rfl) fun _ => rfl
  | field header field =>
    rw [ActionLoader.loadParam, JsonParam.resolve]
    cases names.headerId header with
    | none => rfl
    | some i =>
      dsimp only [orFault, bind, Except.bind, Option.bind]
      cases names.fieldOffset i field with
      | none => rfl
      | some offset => exact ⟨_, rfl, h.pushPlace (hplace (by simp) (by simp) (by simp)) rfl rfl rfl⟩
  | calculation name =>
    exact h.loadPlace (fun i => hplace (by simp) (by simp) (by simp)) (fun _ => rfl) (fun _ => rfl) fun _ => rfl
  | meterArray name =>
    exact h.loadPlace (fun i => hplace (by simp) (by simp) (by simp)) (fun _ => rfl) (fun _ => rfl) fun _ => rfl
  | counterArray name =>
    exact h.loadPlace (fun i => hplace (by simp) (by simp) (by simp)) (fun _ => rfl) (fun _ => rfl) fun _ => rfl
  | registerArray name =>
    rw [ActionLoader.loadParam, JsonParam.resolve]
    cases names.registerArray name with
    | none => rfl
    | some array =>
      obtain ⟨hadd, hmem, -⟩ := h.loaded.addRegisterArray array
      refine ⟨_, rfl, h.push hadd ?_ (.place (by simp) (by simp) (by simp)) rfl (fun a ha => ?_)
        (ActionFn.addRegisterArray_pushParam _ _ _) rfl⟩
      · rw [ActionFn.addRegisterArray]
        split <;> rfl
      · rw [List.mem_singleton.mp ha]
        exact hmem
  | headerStack name =>
    exact h.loadPlace (fun i => hplace (by simp) (by simp) (by simp)) (fun _ => rfl) (fun _ => rfl) fun _ => rfl
  | expression value =>
    rw [ActionLoader.loadParam, JsonParam.resolve]
    cases hbuild : ActionLoader.buildExpr cast names value s.arithFields with
    | none => rfl
    | some e =>
      obtain ⟨⟨arith, hresolve⟩, halloc⟩ := ActionLoader.buildExpr_resolve cast names hbuild
      have hroom := h.dataTmps
      simp only [orFault, ActionFn.parameterPushBackExpression, if_pos hroom]
      refine ⟨.expression e.1, by rw [hresolve]; rfl, h.loaded.pushExpression halloc, ?_⟩
      obtain ⟨-, -, -, hparams⟩ := h.loaded.grab e.1
      dsimp only [ActionFn.pushParam]
      rw [hparams, List.countP_append, List.countP_singleton]
      change 1 + (s.actionFn.params.countP ActionParam.isExpression + 1) ≤ _
      split <;> omega
  | register name index =>
    by_cases hhex : ∃ value, index = .hexstr value
    · obtain ⟨value, rfl⟩ := hhex
      rw [ActionLoader.loadParam, JsonParam.resolve]
      cases Data.ofHexstring value with
      | none => rfl
      | some v =>
        dsimp only [orFault, bind, Except.bind, Option.bind]
        cases cast.toUint v with
        | none => rfl
        | some idx =>
          dsimp only
          cases names.registerArray name with
          | none => rfl
          | some array =>
            obtain ⟨hadd, hmem, -⟩ := h.loaded.addRegisterArray array
            refine ⟨_, rfl, h.push hadd ?_ (.place (by simp) (by simp) (by simp)) rfl (fun a ha => ?_)
              (ActionFn.addRegisterArray_pushParam _ _ _) rfl⟩
            · rw [ActionFn.addRegisterArray]
              split <;> rfl
            · rw [List.mem_singleton.mp ha]
              exact hmem
    · have hhex : ∀ value, index ≠ .hexstr value := fun value heq => hhex ⟨value, heq⟩
      rw [ActionLoader.loadParam_register hhex, JsonParam.resolve_register hhex]
      cases hbuild : ActionLoader.buildExpr cast names index s.arithFields with
      | none => rfl
      | some e =>
        obtain ⟨⟨arith, hresolve⟩, halloc⟩ := ActionLoader.buildExpr_resolve cast names hbuild
        rw [hresolve]
        dsimp only [orFault, bind, Except.bind, Option.bind]
        cases names.registerArray name with
        | none => rfl
        | some array =>
          obtain ⟨hgrab, hall, -, hparams⟩ := h.loaded.grab e.1
          obtain ⟨hadd, hmem, hmono⟩ := hgrab.addRegisterArray array
          refine ⟨_, rfl, h.push hadd ?_ (.registerGen halloc) rfl (fun a ha => ?_)
            (ActionFn.addRegisterArray_pushParam _ _ _) rfl⟩
          · rw [ActionFn.addRegisterArray]
            split
            · exact hparams
            · exact hparams
          · rcases List.mem_cons.mp ha with rfl | ha
            · exact hmem
            · exact hmono a (hall a ha)
  | externInstance name =>
    exact h.loadPlace (fun i => hplace (by simp) (by simp) (by simp)) (fun _ => rfl) (fun _ => rfl) fun _ => rfl

variable (cast names) in
/-- **The parameters of a call** are loaded, or the action is refused. -/
theorem ActionLoader.Inv.loadParams (h : s.Inv primitives params) (json : List JsonParam) :
    match json.foldlM (ActionLoader.loadParam cast names) s with
    | .ok s' => ∃ cs, json.mapM (JsonParam.resolve cast names) = some cs ∧ s'.Inv primitives (params ++ cs)
    | .error e => e = .parameter := by
  induction json generalizing s params with
  | nil => exact ⟨[], rfl, by rwa [List.append_nil]⟩
  | cons p json ih =>
    rw [List.foldlM_cons]
    have hparam := h.loadParam cast names p
    cases hs₁ : s.loadParam cast names p with
    | error e =>
      rw [hs₁] at hparam
      exact hparam
    | ok s₁ =>
      rw [hs₁] at hparam
      obtain ⟨c, hc, h₁⟩ := hparam
      have hrest := ih h₁
      dsimp only [bind, Except.bind]
      cases hs₂ : json.foldlM (ActionLoader.loadParam cast names) s₁ with
      | error e =>
        rw [hs₂] at hrest
        exact hrest
      | ok s₂ =>
        rw [hs₂] at hrest
        obtain ⟨cs, hcs, h₂⟩ := hrest
        refine ⟨c :: cs, ?_, ?_⟩
        · rw [List.mapM_cons, hc, hcs]
          rfl
        · rwa [List.append_assoc] at h₂

variable (cast names opcodes) in
/-- **A call** is loaded. -/
theorem ActionLoader.Inv.loadCall (h : s.Inv primitives params) (call : JsonCall) :
    match s.loadCall cast names opcodes call with
    | .ok s' => ∃ c, call.resolve cast names opcodes = some c ∧ c.params.length = c.primitive.getNumParams ∧
        s'.Inv (primitives ++ [c.primitive]) (params ++ c.params)
    | .error e => e ≠ .dataTmps := by
  rw [ActionLoader.loadCall, JsonCall.resolve]
  cases opcodes call.op with
  | none => exact ActionLoadFault.noConfusion
  | some primitive =>
    dsimp only [orFault, bind, Except.bind, Option.bind]
    have hpush : (s.push (·.pushBackPrimitive primitive)).Inv (primitives ++ [primitive]) params :=
      ⟨⟨congrArg (· ++ [primitive]) h.loaded.primitives, h.loaded.params, h.loaded.offsets, h.loaded.arrays⟩,
        h.dataTmps⟩
    by_cases hlength : call.parameters.length = primitive.getNumParams
    · rw [if_pos hlength]
      have hparams := hpush.loadParams cast names call.parameters
      cases hs' : call.parameters.foldlM (ActionLoader.loadParam cast names) (s.push (·.pushBackPrimitive primitive))
        with
      | error e =>
        rw [hs'] at hparams
        exact fun he => by cases hparams.symm.trans he
      | ok s' =>
        rw [hs'] at hparams
        obtain ⟨cs, hcs, h'⟩ := hparams
        rw [hcs]
        refine ⟨_, rfl, ?_, h'⟩
        rw [← hlength]
        exact (mapM_eq_some_iff_forall₂.mp hcs).length_eq.symm
    · rw [if_neg hlength]
      exact ActionLoadFault.noConfusion

variable (cast names opcodes) in
/-- **The calls of an action** are loaded. -/
theorem ActionLoader.Inv.loadCalls {calls : List (ConfigCall P)}
    (h : s.Inv (calls.map ConfigCall.primitive) (calls.flatMap ConfigCall.params))
    (harity : ∀ call ∈ calls, call.params.length = call.primitive.getNumParams) (json : List JsonCall) :
    match json.foldlM (ActionLoader.loadCall cast names opcodes) s with
    | .ok s' => ∃ cs, json.mapM (JsonCall.resolve cast names opcodes) = some cs ∧ s'.actionFn.Loaded (calls ++ cs) ∧
        1 ≤ s'.nbDataTmps
    | .error e => e ≠ .dataTmps := by
  induction json generalizing s calls with
  | nil =>
    refine ⟨[], rfl, ⟨?_, ?_⟩, ?_⟩
    · rw [List.append_nil]
      exact h.loaded
    · rwa [List.append_nil]
    · have := h.dataTmps
      omega
  | cons call json ih =>
    rw [List.foldlM_cons]
    have hcall := h.loadCall cast names opcodes call
    cases hs₁ : s.loadCall cast names opcodes call with
    | error e =>
      rw [hs₁] at hcall
      exact hcall
    | ok s₁ =>
      rw [hs₁] at hcall
      obtain ⟨c, hc, hlength, h₁⟩ := hcall
      have hrest := @ih s₁ (calls ++ [c]) (by simpa using h₁) fun call hmem => by
        rcases List.mem_append.mp hmem with hmem | hmem
        · exact harity call hmem
        · rwa [List.mem_singleton.mp hmem]
      dsimp only [bind, Except.bind]
      cases hs₂ : json.foldlM (ActionLoader.loadCall cast names opcodes) s₁ with
      | error e =>
        rw [hs₂] at hrest
        exact hrest
      | ok s₂ =>
        rw [hs₂] at hrest
        obtain ⟨cs, hcs, hloaded, htmps⟩ := hrest
        refine ⟨c :: cs, ?_, ?_, htmps⟩
        · rw [List.mapM_cons, hc, hcs]
          rfl
        · rwa [List.append_assoc] at hloaded

variable (cast names opcodes) in
/-- **An action** that is loaded does for the calls of the configuration; the assertion about `nb_data_tmps` holds. -/
theorem ActionLoader.loadAction_spec (htmps : 1 ≤ s.nbDataTmps) (json : List JsonCall) :
    match s.loadAction cast names opcodes json with
    | .ok s' => ∃ calls, json.mapM (JsonCall.resolve cast names opcodes) = some calls ∧ s'.actionFn.Loaded calls ∧
        1 ≤ s'.nbDataTmps
    | .error e => e ≠ .dataTmps := by
  have hstart : ActionLoader.Inv ({ s with actionFn := {} } : ActionLoader P)
      (([] : List (ConfigCall P)).map ConfigCall.primitive) (([] : List (ConfigCall P)).flatMap ConfigCall.params) :=
    ⟨⟨rfl, .nil, rfl, fun param hparam => absurd hparam List.not_mem_nil⟩, htmps⟩
  exact hstart.loadCalls cast names opcodes (fun call hcall => absurd hcall List.not_mem_nil) json

variable (cast names opcodes) in
/-- **All actions** of a configuration. -/
theorem ActionLoader.loadActions_spec (htmps : 1 ≤ s.nbDataTmps) (actions : List (List JsonCall)) :
    match s.loadActions cast names opcodes actions with
    | .ok (fns, s') => List.Forall₂ (fun fn json => ∃ calls, json.mapM (JsonCall.resolve cast names opcodes) =
      some calls ∧
        fn.Loaded calls) fns actions ∧ 1 ≤ s'.nbDataTmps
    | .error e => e ≠ .dataTmps := by
  induction actions generalizing s with
  | nil => exact ⟨.nil, htmps⟩
  | cons json actions ih =>
    have hspec := loadAction_spec cast names opcodes htmps json
    rw [loadActions]
    cases hload : s.loadAction cast names opcodes json with
    | error e =>
      rw [hload] at hspec
      exact hspec
    | ok s₁ =>
      rw [hload] at hspec
      obtain ⟨calls, hcalls, hloaded, htmps₁⟩ := hspec
      have hrest := ih htmps₁
      dsimp only [bind, Except.bind]
      cases hloads : s₁.loadActions cast names opcodes actions with
      | error e =>
        rw [hloads] at hrest
        exact hrest
      | ok r =>
        rw [hloads] at hrest
        exact ⟨.cons ⟨calls, hcalls, hloaded⟩ hrest.1, hrest.2⟩

end Loaded

end Bm
