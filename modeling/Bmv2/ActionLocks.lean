/-
# Actions under locks

Whatever the threads do at the same time, actions and calls about registers have the effect that they have one after
another, in the order in which they finish (`actions_atomic`).

The lock that `reset_state` does not take makes the difference (`reset_tears_action`).
-/
import Bmv2.ActionSteps

namespace Bm

/-! ## The rest of an action -/

section Frames

variable {P : Type} {cast : BignumCast} {phv : P → DataPHV} {g : VectorGrowth} {fn : ActionFn P} {actionData : List ℤ}
  {orders : ℕ → List ℕ} {temps temps' : DataTemps} {registers registers' : Registers}

/-- An empty expression. -/
theorem Expression.eval_of_nil {e : Expression} (h : e.ops = []) (env : ExprEnv) (evalTemps : List ℤ) :
    e.eval cast env evalTemps = some (0, evalTemps) := by
  rw [eval, evalArith, if_pos h, if_pos h]
  rfl

/-- The loop of `eval_`, and what is on the stack at its end. -/
theorem Expression.eval_of_ops {e : Expression} (h : e.ops ≠ []) (env : ExprEnv) (evalTemps : List ℤ) :
    e.eval cast env evalTemps = (e.ops.foldlM (Op.step cast e.constValues env) (e.start evalTemps)).toOption.bind fun
      s =>
      s.popData.toOption.map fun d => (d.1.value, s.temps) := by
  rw [eval, evalArith, if_neg h, if_neg h, run]
  cases e.ops.foldlM (Op.step cast e.constValues env) (e.start evalTemps) with
  | error e => rfl
  | ok s =>
    dsimp only [bind, Except.bind, Except.toOption, Option.bind, Option.map, Option.getD]
    cases s.popData <;> rfl

/-- `to` in three parts. -/
theorem ActionParam.to_eq (param : ActionParam) (state : ActionEngineState P) (temps : DataTemps) (ty : ArgType) :
    param.to cast phv g registers state temps ty =
      match param.evaluates g temps ty with
      | none => (param.place phv registers state ty).map fun arg => (.fixed arg, temps)
      | some (e, temps) => (e.eval cast (state.env phv registers) temps.evalTemps).bind fun r =>
          param.finish cast registers { temps with evalTemps := r.2 } r.1 ty := by
  cases param with
  | registerGen array idx =>
    cases ty with
    | data =>
      dsimp only [ActionParam.to, evaluates, finish]
      cases idx.eval cast (state.env phv registers) temps.evalTemps with
      | none => rfl
      | some r =>
        simp only [Option.bind_eq_bind, Option.bind_some]
        cases registerIndex cast registers array r.1 <;> rfl
    | constData =>
      dsimp only [ActionParam.to, evaluates, finish]
      cases idx.eval cast (state.env phv registers) temps.evalTemps with
      | none => rfl
      | some r =>
        simp only [Option.bind_eq_bind, Option.bind_some]
        cases registerIndex cast registers array r.1 <;> rfl
    | _ => rfl
  | expression offset ptr =>
    cases ty with
    | constData =>
      dsimp only [ActionParam.to, evaluates, finish]
      cases ptr.eval cast (state.env phv registers) (temps.reach g offset).evalTemps <;> rfl
    | _ => rfl
  | _ => cases ty <;> rfl

/-- The next argument, and then the rest of the call. -/
theorem CallFrame.restArgs_cons {c : CallFrame P} {i : ℕ} {todo : List ℕ} {done : List (Option Ref)} {param :
    ActionParam}
    {ty : ArgType} (hparam : fn.params[c.paramOffset + i]? = some param) (hty : c.primitive.args[i]? = some ty) :
    c.restArgs cast phv g fn actionData orders registers (i :: todo) done temps =
      (param.to cast phv g registers (c.state fn actionData) temps ty).bind fun r =>
        c.restArgs cast phv g fn actionData orders registers todo (done.set i (some r.1)) r.2 := by
  rw [restArgs, List.foldlM_cons, resolveArg, hparam, hty]
  simp only [Option.bind_eq_bind, Option.bind_some]
  cases param.to cast phv g registers (c.state fn actionData) temps ty <;> rfl

/-- Before the first argument, everything is left. -/
theorem ActionFrame.rest_next {packet : P} {call paramOffset : ℕ} {primitive : Primitive P} {rest : List (Primitive
    P)} :
    CallFrame.restArgs cast phv g fn actionData orders registers ⟨packet, call, paramOffset, primitive,
      rest⟩ (orders call)
        (List.replicate primitive.getNumParams none) temps =
      executePrimitives cast phv g fn actionData orders call paramOffset (primitive :: rest) temps packet registers :=
        by
  rw [CallFrame.restArgs, executePrimitives, executePrimitive]
  dsimp only [CallFrame.state]
  cases (orders call).foldlM (resolveArg cast phv g registers fn ⟨packet, actionData,
    fn.constValues⟩ primitive paramOffset)
    (List.replicate primitive.getNumParams none, temps) with
  | none => rfl
  | some r =>
    simp only [Option.bind_eq_bind, Option.bind_some]
    cases loadArgs r.1 r.2 with
    | none => rfl
    | some as =>
      simp only [Option.bind_some]
      cases (primitive.body as packet).run registers <;> rfl

/-- What is left when a thread is in an expression. -/
theorem ActionFrame.rest_eval {c : CallFrame P} {todo : List ℕ} {done : List (Option Ref)} {i : ℕ} {param : ActionParam}
    {ty : ArgType} {e : Expression} {s : EvalState} {ops : List Op} :
    (ActionFrame.eval c todo done i param ty e s ops).rest cast phv g fn actionData orders temps registers =
      (ops.foldlM (Op.step cast e.constValues ((c.state fn actionData).env phv registers)) s).toOption.bind fun s =>
        s.popData.toOption.bind fun d =>
          (param.finish cast registers { temps with evalTemps := s.temps } d.1.value ty).bind fun r =>
            c.restArgs cast phv g fn actionData orders registers todo (done.set i (some r.1)) r.2 :=
  rfl

/-- **A step and then the rest** is the rest. -/
theorem ActionFrame.rest_step {frame frame' : ActionFrame P}
    (hstep : frame.step cast phv g fn actionData orders temps registers = some ((frame', temps'), registers')) :
    frame'.rest cast phv g fn actionData orders temps' registers' =
      frame.rest cast phv g fn actionData orders temps registers := by
  cases frame with
  | next packet call paramOffset primitives =>
    cases primitives with
    | nil => cases hstep
    | cons primitive rest =>
      cases hstep
      exact rest_next
  | args c todo done =>
    cases todo with
    | nil =>
      obtain ⟨as, has, hstep⟩ := Option.map_eq_some_iff.mp hstep
      cases hstep
      rw [rest, rest, CallFrame.restArgs, List.foldlM_nil]
      simp only [pure, Option.bind_eq_bind, Option.bind_some]
      rw [has]
      rfl
    | cons i todo =>
      obtain ⟨param, hparam, hstep'⟩ := Option.bind_eq_some_iff.mp hstep
      obtain ⟨ty, hty, -⟩ := Option.bind_eq_some_iff.mp hstep'
      rw [step_args hparam hty] at hstep
      rw [rest.eq_2, CallFrame.restArgs_cons hparam hty, ActionParam.to_eq]
      cases heval : param.evaluates g temps ty with
      | none =>
        rw [heval] at hstep
        obtain ⟨arg, harg, hstep⟩ := Option.map_eq_some_iff.mp hstep
        cases hstep
        dsimp only
        rw [harg]
        rfl
      | some e =>
        obtain ⟨e, temps₁⟩ := e
        rw [heval] at hstep
        dsimp only at hstep ⊢
        by_cases hops : e.ops = []
        · rw [if_pos hops] at hstep
          obtain ⟨r, hfinish, hstep⟩ := Option.map_eq_some_iff.mp hstep
          cases hstep
          rw [Expression.eval_of_nil hops]
          dsimp only [Option.bind_some]
          rw [hfinish]
          rfl
        · rw [if_neg hops] at hstep
          cases hstep
          rw [Expression.eval_of_ops hops, rest_eval]
          simp only [Option.bind_assoc, Option.bind_map, Function.comp_def]
  | eval c todo done i param ty e s ops =>
    cases ops with
    | nil =>
      obtain ⟨⟨d, s'⟩, hpop, hstep⟩ := Option.bind_eq_some_iff.mp hstep
      obtain ⟨r, hfinish, hstep⟩ := Option.map_eq_some_iff.mp hstep
      cases hstep
      rw [rest_eval, List.foldlM_nil]
      dsimp only [pure, Except.pure, Except.toOption, Option.bind_some] at hpop ⊢
      rw [hpop]
      dsimp only [Option.bind_some]
      rw [hfinish]
      rfl
    | cons op ops =>
      obtain ⟨s', hop, hstep⟩ := Option.map_eq_some_iff.mp hstep
      cases hstep
      rw [rest_eval, rest_eval, List.foldlM_cons]
      cases hop' : op.step cast e.constValues ((c.state fn actionData).env phv registers) s with
      | error e =>
        rw [hop'] at hop
        cases hop
      | ok s₁ =>
        rw [hop'] at hop
        cases hop
        rfl
  | body c prog =>
    by_cases hret : ∃ packet, prog = .ret packet
    · obtain ⟨packet, rfl⟩ := hret
      cases hstep
      rfl
    · rw [step_body fun packet heq => hret ⟨packet, heq⟩] at hstep
      obtain ⟨⟨prog', registers₁⟩, hprog, hstep⟩ := Option.map_eq_some_iff.mp hstep
      cases hstep
      rw [rest, rest, Prog.run_step hprog]

end Frames

/-! ## Threads keep to what they use -/

section Workers

variable {P : Type} {cast : BignumCast} {phv : P → DataPHV} {g : VectorGrowth} {find : String → Option ℕ}
  {fns : List (ActionFn P)}

theorem RegisterCall.writeFrom_within (array : ℕ) (value : ℤ) (idx n : ℕ) :
    (writeFrom array value idx n).Within [array] := by
  induction n generalizing idx with
  | zero => trivial
  | succ n ih => exact ⟨List.mem_cons_self, ih (idx + 1)⟩

/-- A call keeps to its array. -/
theorem RegisterCall.prog_within (call : RegisterCall) (array : ℕ) : (call.prog array).Within [array] := by
  cases call with
  | read idx =>
    refine ⟨List.mem_cons_self, fun n => ?_⟩
    dsimp only
    split
    · trivial
    · exact ⟨List.mem_cons_self, fun _ => trivial⟩
  | write idx value =>
    refine ⟨List.mem_cons_self, fun n => ?_⟩
    dsimp only
    split
    · trivial
    · exact ⟨List.mem_cons_self, trivial⟩
  | writeRange start stop value =>
    refine ⟨List.mem_cons_self, fun n => ?_⟩
    dsimp only
    split
    · trivial
    · exact writeFrom_within array value start (stop - start)
  | reset => exact ⟨List.mem_cons_self, trivial⟩

theorem RegisterRequest.prog_within (request : RegisterRequest) : (request.prog find).Within (request.arrays find) := by
  rw [prog, arrays]
  cases find request.name with
  | none => trivial
  | some array => exact request.call.prog_within array

/-- What a thread has left to do keeps to what it uses. -/
def ActionThread.Ok (find : String → Option ℕ) (w : ActionThread P) : Prop :=
  match w.task with
  | .idle => True
  | .action fn _ _ frame => fn.Synced ∧ frame.Within fn
  | .register request prog => prog.Within (request.arrays find)

variable {w w' : ActionThread P} {σ σ' : Registers}

/-- A step keeps to what the thread uses. -/
theorem ActionThread.step_keepsTo (h : w.Ok find) : KeepsTo (w.uses find) (w.step cast phv g) := by
  obtain ⟨temps, task⟩ := w
  cases task with
  | idle => exact fun _ _ _ h => nomatch h
  | action fn actionData orders frame =>
    exact (ActionFrame.step_keepsTo h.1 h.2).map fun p : ActionFrame P × DataTemps =>
      (⟨p.2, .action fn actionData orders p.1⟩ : ActionThread P)
  | register request prog =>
    exact (Prog.step_keepsTo h).map fun prog => (⟨temps, .register request prog⟩ : ActionThread P)

/-- A step leaves open what can still be done, and the locks are kept. -/
theorem ActionThread.step_ok (h : w.Ok find) (hstep : w.step cast phv g σ = some (w', σ')) :
    w'.Ok find ∧ w'.uses find = w.uses find := by
  obtain ⟨temps, task⟩ := w
  cases task with
  | idle => cases hstep
  | action fn actionData orders frame =>
    obtain ⟨⟨⟨frame', temps'⟩, registers'⟩, hframe, hstep⟩ := Option.map_eq_some_iff.mp hstep
    cases hstep
    exact ⟨⟨h.1, ActionFrame.step_within h.1 h.2 hframe⟩, rfl⟩
  | register request prog =>
    obtain ⟨⟨prog', registers'⟩, hprog, hstep⟩ := Option.map_eq_some_iff.mp hstep
    cases hstep
    exact ⟨Prog.step_within h hprog, rfl⟩

/-- **Threads are confined** to what they use: for an action, to the arrays that are locked for it. -/
theorem actionMachine_confined (hfns : ∀ fn ∈ fns, fn.Synced) :
    (actionMachine cast phv g find fns).Confined (ActionThread.Ok find) := by
  have hmem : ∀ {w : ActionThread P} {r : ℕ}, r ∈ (actionMachine cast phv g find fns).uses w ↔ r ∈ w.uses find :=
    List.mem_toFinset
  refine ⟨fun {x w w'} _ hstart => ?_, fun {w σ w' σ'} h hstep => ?_, fun {w σ w' σ'} h hstep r hr => ?_,
    fun {w σ w' σ' τ} h hstep hagree => ?_⟩
  · cases x with
    | action i actionData orders packet =>
      obtain ⟨fn, hfn, hstart⟩ := Option.map_eq_some_iff.mp hstart
      cases hstart
      exact ⟨hfns fn (List.mem_of_getElem? hfn), trivial⟩
    | register request =>
      cases hstart
      exact request.prog_within
  · obtain ⟨hok, huses⟩ := ActionThread.step_ok h hstep
    exact ⟨hok, congrArg List.toFinset huses⟩
  · exact (ActionThread.step_keepsTo h σ w' σ' hstep).1 r fun hmem' => hr (hmem.mpr hmem')
  · obtain ⟨τ', hτ', hagree'⟩ := (ActionThread.step_keepsTo h σ w' σ' hstep).2 τ fun r hr => hagree r (hmem.mpr hr)
    exact ⟨τ', hτ', fun r hr => hagree' r (hmem.mp hr)⟩

/-! ## What a thread does on its own -/

/-- The steps of an action, up to its end, are its execution. -/
theorem ActionThread.execute_of_steps {fn : ActionFn P} {actionData : List ℤ} {orders : EvalOrders} {frame :
    ActionFrame P}
    {temps : DataTemps} (hsteps : (actionMachine cast phv g find fns).Steps
      (⟨temps, .action fn actionData orders frame⟩, σ) (w', σ')) :
    ∃ frame', w'.task = .action fn actionData orders frame' ∧
      frame'.rest cast phv g fn actionData (orders.of fn.primitives) w'.temps σ' =
        frame.rest cast phv g fn actionData (orders.of fn.primitives) temps σ := by
  generalize hb : (w', σ') = b at hsteps
  induction hsteps generalizing w' σ' with
  | refl =>
    cases hb
    exact ⟨frame, rfl, rfl⟩
  | @tail b c _ hstep ih =>
    subst hb
    obtain ⟨frame₁, htask, hrest⟩ := ih rfl
    obtain ⟨⟨temps₁, task⟩, σ₁⟩ := b
    obtain rfl : task = .action fn actionData orders frame₁ := htask
    obtain ⟨⟨⟨frame₂, temps₂⟩, registers₂⟩, hframe, hstep⟩ := Option.map_eq_some_iff.mp hstep
    cases hstep
    exact ⟨frame₂, rfl, (ActionFrame.rest_step hframe).trans hrest⟩

/-- The steps of a call are the call. -/
theorem ActionThread.run_of_steps {request : RegisterRequest} {prog : Prog RegisterReply} {temps : DataTemps}
    (hsteps : (actionMachine cast phv g find fns).Steps (⟨temps, .register request prog⟩, σ) (w', σ')) :
    ∃ prog', w' = ⟨temps, .register request prog'⟩ ∧ prog'.run σ' = prog.run σ := by
  generalize hb : (w', σ') = b at hsteps
  induction hsteps generalizing w' σ' with
  | refl =>
    cases hb
    exact ⟨prog, rfl, rfl⟩
  | @tail b c _ hstep ih =>
    subst hb
    obtain ⟨prog₁, hw, hrun⟩ := ih rfl
    obtain ⟨w₁, σ₁⟩ := b
    obtain rfl : w₁ = _ := hw
    obtain ⟨⟨prog₂, registers₂⟩, hprog, hstep⟩ := Option.map_eq_some_iff.mp hstep
    cases hstep
    exact ⟨prog₂, rfl, (Prog.run_step hprog).trans hrun⟩

theorem EvalOrders.ordersOf (orders : EvalOrders) (primitives : List (Primitive P)) :
    OrdersOf (orders.of primitives) 0 primitives := by
  intro k p hp
  rw [Nat.zero_add, EvalOrders.of, hp]
  exact orders.perm k _

variable {T : Type} [DecidableEq T]

/-- **One request** from its start to its end does what the configuration says. -/
theorem performs_of_steps {calls : List (List (ConfigCall P))} (hfns : List.Forall₂ ActionFn.Loaded fns calls)
    {x : ActionRequest P} {w₁ : ActionThread P} (hfits : w.temps.room.Fits)
    (hstart : (actionMachine cast phv g find fns).start x w = some w₁)
    (hsteps : (actionMachine cast phv g find fns).Steps (w₁, σ) (w', σ'))
    (hfinished : (actionMachine cast phv g find fns).finished w' = true) (outcomes : T →
      Option (ActionOutcome P)) (t : T) :
    performs cast phv find calls (σ, outcomes) (t, x) = some (σ', Function.update outcomes t w'.outcome) ∧
      w'.temps.room.Fits := by
  cases x with
  | action i actionData orders packet =>
    obtain ⟨fn, hfn, hstart⟩ := Option.map_eq_some_iff.mp hstart
    cases hstart
    obtain ⟨hi, rfl⟩ := List.getElem?_eq_some_iff.mp hfn
    have hi' : i < calls.length := hfns.length_eq ▸ hi
    obtain ⟨frame, htask, hrest⟩ := ActionThread.execute_of_steps hsteps
    obtain ⟨temps', task⟩ := w'
    obtain rfl : task = _ := htask
    -- an action is finished when no primitive is left
    have hend : ∃ packet' call paramOffset, frame = .next packet' call paramOffset [] := by
      cases frame with
      | next packet' call paramOffset primitives =>
        cases primitives with
        | nil => exact ⟨packet', call, paramOffset, rfl⟩
        | cons primitive rest => cases hfinished
      | _ => cases hfinished
    obtain ⟨packet', call, paramOffset, rfl⟩ := hend
    have hexecutes : fns[i].ExecutesAs cast phv g calls[i] := (hfns.get hi hi').executesAs
    have hexecute : fns[i].execute cast phv g actionData (orders.of fns[i].primitives) w.temps packet σ =
        some (temps', packet', σ') := hrest.symm
    have horders := orders.ordersOf fns[i].primitives
    have hruns := ((hexecutes.means _ _ _ _ _ hfits horders _).mp ⟨temps', hexecute⟩).1
    refine ⟨?_, (hexecutes.again _ _ _ _ _ _ _ hfits horders hexecute).1⟩
    rw [performs, List.getElem?_eq_getElem hi']
    simp only [Option.bind_eq_bind, Option.bind_some]
    rw [show runCalls cast phv actionData calls[i] (packet, σ) = some (packet', σ') from hruns]
    rfl
  | register request =>
    cases hstart
    obtain ⟨prog, rfl, hrun⟩ := ActionThread.run_of_steps hsteps
    refine ⟨?_, hfits⟩
    cases prog with
    | ret reply =>
      rw [performs, ← hrun]
      rfl
    | _ => cases hfinished

/-- **Requests one after another** do what the configuration says. -/
theorem performs_of_serial {calls : List (List (ConfigCall P))} (hfns : List.Forall₂ ActionFn.Loaded fns calls)
    {registers : Registers} {requests : List (T × ActionRequest P)} {s : Registers × (T → ActionThread P)}
    (hserial : (actionMachine cast phv g find fns).Serial (registers, fun _ => {}) requests s) :
    requests.foldlM (performs cast phv find calls) (registers, fun _ => none) = some (s.1, fun t => (s.2 t).outcome) ∧
      ∀ t, (s.2 t).temps.room.Fits := by
  induction hserial with
  | nil => exact ⟨rfl, fun t => le_rfl⟩
  | @snoc requests σ σ' ws t x w w' _ hstart hsteps hfinished ih =>
    obtain ⟨hfold, hfits⟩ := ih
    obtain ⟨hperforms, hfits'⟩ := performs_of_steps hfns (hfits t) hstart hsteps hfinished (fun t => (ws t).outcome) t
    constructor
    · rw [List.foldlM_append, hfold]
      simp only [Option.bind_eq_bind, Option.bind_some, List.foldlM_cons, List.foldlM_nil]
      rw [hperforms]
      exact congrArg some (Prod.ext rfl (Function.comp_update ActionThread.outcome ws t w').symm)
    · intro u
      by_cases hut : u = t
      · rw [hut]
        dsimp only
        rwa [Function.update_self]
      · dsimp only
        rw [Function.update_of_ne hut]
        exact hfits u

end Workers

/-! ## Any order of accesses -/

/-- **Actions are atomic.**  Threads execute loaded actions and make calls about registers, one access after another in
any order.  When all are finished, the registers, the packets and the replies are those that the requests give one after
another, in the order in which they finish.  The condition is that the array of a `register_reset` is not used by
others during the reset. -/
theorem actions_atomic {P T : Type} [DecidableEq T] (cast : BignumCast) (phv : P → DataPHV) (g : VectorGrowth)
    (names : ActionNames) (opcodes : String → Option (Primitive P)) {s : ActionLoader P} (htmps : 1 ≤ s.nbDataTmps)
    {actions : List (List JsonCall)} {fns : List (ActionFn P)} {s' : ActionLoader P}
    (hload : s.loadActions cast names opcodes actions = .ok (fns, s')) (registers : Registers)
    {events : List (Machine.Event T (ActionRequest P))} {sys : Machine.Sys T ℕ RegisterArray (ActionThread P)}
    (hapart : RunMeets (actionMachine cast phv g names.registerArray fns).exec
      (actionMachine cast phv g names.registerArray fns).Apart (freshThreads T registers) events)
    (hrun : runFrom (actionMachine cast phv g names.registerArray fns).exec (freshThreads T registers) events =
      some sys)
    (hfinished : sys.running = ∅) :
    ∃ calls, actions.mapM (fun json => json.mapM (JsonCall.resolve cast names opcodes)) = some calls ∧
      (Machine.finishedIn events).foldlM (performs cast phv names.registerArray calls) (registers, fun _ => none) =
        some (sys.store, fun t => (sys.locals t).outcome) := by
  have hspec := ActionLoader.loadActions_spec cast names opcodes htmps actions
  rw [hload] at hspec
  obtain ⟨calls, hcalls, hloaded⟩ : ∃ calls, actions.mapM (fun json => json.mapM (JsonCall.resolve cast names
    opcodes)) =
      some calls ∧ List.Forall₂ ActionFn.Loaded fns calls := exists_mapM_of_forall₂ hspec.1
  refine ⟨calls, hcalls, ?_⟩
  have hsynced : ∀ fn ∈ fns, fn.Synced := fun fn hfn => by
    obtain ⟨i, hi, rfl⟩ := List.mem_iff_getElem.mp hfn
    exact (hloaded.get hi (hloaded.length_eq ▸ hi)).arrays
  obtain ⟨-, ser, hserial, -, hend⟩ := Machine.serializable (actionMachine_confined hsynced) rfl
    (fun _ => show ActionThread.Ok names.registerArray {} from trivial) hapart hrun
  rw [hend hfinished] at hserial
  exact (performs_of_serial hloaded hserial).1

/-- The condition holds when no array is reset. -/
theorem actionMachine_apart {P T : Type} [DecidableEq T] (cast : BignumCast) (phv : P → DataPHV) (g : VectorGrowth)
    (find : String → Option ℕ) (fns : List (ActionFn P)) (registers : Registers) {events : List (Machine.Event T
      (ActionRequest P))}
    (hevents : ∀ t request, .start t (.register request) ∈ events → request.call ≠ .reset) :
    RunMeets (actionMachine cast phv g find fns).exec (actionMachine cast phv g find fns).Apart (freshThreads T
      registers)
      events := by
  refine Machine.runMeets_apart (Q := fun x => ∀ request, x = .register request → request.call ≠ .reset)
    (fun x w w' hx hstart => ?_) (fun w σ w' σ' hstep hsub => ?_) (fun u hu => absurd hu (Finset.notMem_empty u))
    fun t x hx request heq => hevents t request (heq ▸ hx)
  · cases x with
    | action i actionData orders packet =>
      obtain ⟨fn, -, hstart⟩ := Option.map_eq_some_iff.mp hstart
      cases hstart
      exact fun r hr => hr
    | register request =>
      cases hstart
      have hlocked : request.locked find = request.arrays find := by
        rw [RegisterRequest.locked]
        split
        next heq => exact absurd heq (hx request rfl)
        next => rfl
      change (request.arrays find).toFinset ⊆ (request.locked find).toFinset
      rw [hlocked]
  · obtain ⟨temps, task⟩ := w
    cases task with
    | idle => cases hstep
    | action fn actionData orders frame =>
      obtain ⟨s, -, hstep⟩ := Option.map_eq_some_iff.mp hstep
      cases hstep
      exact hsub
    | register request prog =>
      obtain ⟨s, -, hstep⟩ := Option.map_eq_some_iff.mp hstep
      cases hstep
      exact hsub

/-! ### A counter in a register -/

/-- Arguments from left to right. -/
def EvalOrders.leftToRight : EvalOrders := ⟨fun _ n => List.range n, fun _ _ => .refl _⟩

/-- The action that counts, as it is loaded. -/
def counterFns : List (ActionFn DataPHV) :=
  match ActionLoader.loadActions .checked counterNames (Primitive.opcodesMap .checked) {} [counterAction "0x1"] with
  | .ok (fns, _) => fns
  | .error _ => []

/-- The threads with this action. -/
def counterMachine : Machine ℕ RegisterArray (ActionThread DataPHV) (ActionRequest DataPHV) :=
  actionMachine .checked id .double counterNames.registerArray counterFns

/-- A packet for which the counter is increased. -/
def countPacket : ActionRequest DataPHV := .action 0 [] .leftToRight ⟨[], []⟩

/-- Steps of a thread. -/
def steps (t n : ℕ) : List (Machine.Event ℕ (ActionRequest DataPHV)) := List.replicate n (.step t)

/-- A packet is counted, while another thread asks for a register that does not exist, and then for the counter. -/
def countingEvents : List (Machine.Event ℕ (ActionRequest DataPHV)) :=
  .start 0 countPacket :: steps 0 5 ++ [.start 1 (.register ⟨"q", .read 0⟩), .finish 1] ++ steps 0 6 ++
    [.finish 0, .start 1 (.register ⟨"r", .read 0⟩)] ++ steps 1 2 ++ [.finish 1]

theorem actions_atomic_counter : ∃ sys calls,
    runFrom counterMachine.exec (freshThreads ℕ fun _ => ⟨8, [255]⟩) countingEvents = some sys ∧
    (Machine.finishedIn countingEvents).foldlM (performs .checked id counterNames.registerArray calls)
      (fun _ => ⟨8, [255]⟩, fun _ => none) = some (sys.store, fun t => (sys.locals t).outcome) ∧
    (sys.locals 1).outcome = some (.reply (.value 0)) := by
  have hrun : (runFrom counterMachine.exec (freshThreads ℕ fun _ => ⟨8, [255]⟩) countingEvents).map
      (fun sys => (sys.running, (sys.locals 1).outcome)) = some (∅, some (.reply (.value 0))) := by decide
  obtain ⟨sys, hsys, heq⟩ := Option.map_eq_some_iff.mp hrun
  have hreset : ∀ t request, Machine.Event.start t (.register request) ∈ countingEvents → request.call ≠ .reset := by
    intro t request hmem
    simp only [countingEvents, steps, countPacket, List.mem_append, List.mem_cons, List.mem_replicate, reduceCtorEq,
      Machine.Event.start.injEq, ActionRequest.register.injEq, List.not_mem_nil, and_false, false_or, or_false] at hmem
    rcases hmem with ⟨-, rfl⟩ | ⟨-, rfl⟩ <;> exact RegisterCall.noConfusion
  have hapart := actionMachine_apart .checked id .double counterNames.registerArray counterFns (fun _ =>
    ⟨8, [255]⟩) hreset
  obtain ⟨s', hload⟩ : ∃ s', ActionLoader.loadActions .checked counterNames (Primitive.opcodesMap .checked) {}
      [counterAction "0x1"] = .ok (counterFns, s') := ⟨_, rfl⟩
  obtain ⟨calls, -, hfold⟩ := actions_atomic .checked id .double counterNames (Primitive.opcodesMap .checked)
    (show 1 ≤ ({} : ActionLoader DataPHV).nbDataTmps from le_rfl) hload (fun _ => ⟨8, [255]⟩) hapart hsys
    (congrArg Prod.fst heq)
  exact ⟨sys, calls, hsys, hfold, congrArg Prod.snd heq⟩

/-- The calls of the configuration. -/
def counterCalls : List (List (ConfigCall DataPHV)) :=
  ([counterAction "0x1"].mapM fun json : List JsonCall => json.mapM (JsonCall.resolve .checked counterNames
    (Primitive.opcodesMap .checked))).getD []

/-- The array is reset while a packet is being counted. -/
def resetEvents : List (Machine.Event ℕ (ActionRequest DataPHV)) :=
  .start 0 countPacket :: steps 0 8 ++ [.start 1 (.register ⟨"r", .reset⟩),
    .step 1, .finish 1] ++ steps 0 3 ++ [.finish 0]

/-- **A reset in the middle** of an action: the counter goes on from its old value, which it does in no order of the two
requests. -/
theorem reset_tears_action :
    (runFrom counterMachine.exec (freshThreads ℕ fun _ => ⟨8, [5]⟩) resetEvents).map (fun sys =>
      (sys.store 0).registers) =
      some [6] ∧
    ∀ requests ∈ [[(0, countPacket), (1, .register ⟨"r", .reset⟩)], [(1, .register ⟨"r", .reset⟩), (0, countPacket)]],
      (requests.foldlM (performs .checked id counterNames.registerArray counterCalls) (fun _ => ⟨8, [5]⟩, fun _ =>
        none)).map
        (fun s => (s.1 0).registers) ≠ some [6] := by
  decide

end Bm
