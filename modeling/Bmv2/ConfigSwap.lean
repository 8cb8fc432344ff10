/-
# Configurations and their swap

`Context` (`context.cpp`) keeps two pointers to a `P4Objects`: `p4objects`, under which packets are
processed, and `p4objects_rt`, to which the operations of the control plane go.  They are the same
object but between `load_new_config` and `do_swap`.  `SwitchWContexts` (`switch.cpp`) makes each
call for one context after the other.

What `P4Objects::init_objects` makes of a document, and what packets and operations do with the
objects, is left open.
-/
import Bmv2.Lib.Simulation

namespace Bm

/-! ## PHV factories -/

/-- `PHVFactory::HeaderDesc`: the number of fields of the header, and those with arithmetic. -/
structure HeaderDesc where
  numFields : ℕ
  arithOffsets : Finset ℕ
  deriving DecidableEq

/-- `PHVFactory`; the headers in the order of their ids. -/
structure PHVFactory where
  headerDescs : List HeaderDesc
  deriving DecidableEq

/-- `PHVFactory::enable_all_field_arith`. -/
def HeaderDesc.enableAllFieldArith (desc : HeaderDesc) : HeaderDesc :=
  { desc with arithOffsets := desc.arithOffsets ∪ Finset.range desc.numFields }

/-- `PHVFactory::enable_all_arith`. -/
def PHVFactory.enableAllArith (factory : PHVFactory) : PHVFactory :=
  ⟨factory.headerDescs.map HeaderDesc.enableAllFieldArith⟩

@[simp] theorem PHVFactory.enableAllArith_enableAllArith (factory : PHVFactory) :
    factory.enableAllArith.enableAllArith = factory.enableAllArith := by
  simp [enableAllArith, HeaderDesc.enableAllFieldArith, Function.comp_def]

/-! ## Contexts -/

/-- How a call ends: it returns, throws, or ends the process. -/
inductive CallOutcome (Rc σ : Type) where
  | returned (rc : Rc) (state : σ)
  | threw (state : σ)
  | aborted

/-- The rest of the call works on a part of the state. -/
def CallOutcome.map {Rc σ τ : Type} (f : σ → τ) : CallOutcome Rc σ → CallOutcome Rc τ
  | .returned rc state => .returned rc (f state)
  | .threw state => .threw (f state)
  | .aborted => .aborted

theorem CallOutcome.map_eq_returned {Rc σ τ : Type} {f : σ → τ} {o : CallOutcome Rc σ} {rc : Rc}
    {t : τ} : o.map f = .returned rc t ↔ ∃ s, o = .returned rc s ∧ f s = t := by
  cases o <;> simp [CallOutcome.map]

/-- `P4Objects`: the factory, and everything else. -/
structure P4Objects (Objs : Type) where
  phvFactory : PHVFactory
  objs : Objs

/-- What the calls of this file rely on: `P4Objects` with its `init_objects`, `PHVFactory::create`,
and what packets and operations of the control plane do. -/
structure P4Env (Doc Objs PHV Pkt Ctl Out : Type) where
  empty : P4Objects Objs
  initObjects : ℕ → P4Objects Objs → Doc → CallOutcome ℤ (P4Objects Objs)
  create : PHVFactory → PHV
  process : P4Objects Objs → PHV → Pkt → Objs × PHV × Out
  control : P4Objects Objs → Ctl → Objs × Out

/-- `RuntimeInterface::ErrorCode`. -/
inductive SwapErrorCode where
  | success
  | configSwapDisabled
  | ongoingSwap
  | noOngoingSwap
  deriving DecidableEq

/-- The calls. -/
inductive SwapOp (Doc Pkt Ctl : Type) where
  | loadNewConfig (newConfig : Doc)
  | swapConfigs
  | doSwap
  | newPacket (cxtId : ℕ)
  | process (cxtId k : ℕ) (packet : Pkt)
  | release (cxtId k : ℕ)
  | control (cxtId : ℕ) (op : Ctl)

/-- The context that a packet or an operation of the control plane is for. -/
def SwapOp.cxtId? {Doc Pkt Ctl : Type} : SwapOp Doc Pkt Ctl → Option ℕ
  | .newPacket cxtId | .process cxtId .. | .release cxtId _ | .control cxtId _ => some cxtId
  | _ => none

/-- What the calls give back. -/
inductive SwapOut (Out : Type) where
  | errorCode (rc : SwapErrorCode)
  | exception
  | swapDone (rc : ℕ)
  | unit
  | output (out : Out)
  deriving DecidableEq

/-- `Context`, with the PHV pool that `phv_source` has for it: `phvs`, and the PHVs of the packets
that exist. `p4objectsRt` is `none` while the two pointers are the same. -/
structure Context (Objs PHV : Type) where
  p4objects : P4Objects Objs
  p4objectsRt : Option (P4Objects Objs) := none
  swapOrdered : Bool := false
  forceArith : Bool := false
  phvs : List PHV := []
  inUse : List PHV := []

namespace Context

variable {Doc Objs PHV Pkt Ctl Out : Type} (env : P4Env Doc Objs PHV Pkt Ctl Out)
  (c : Context Objs PHV)

/-- The objects that `p4objects_rt` points to. -/
def rt : P4Objects Objs := c.p4objectsRt.getD c.p4objects

/-- The objects that `p4objects_rt` points to are written. -/
def setRt (objects : P4Objects Objs) : Context Objs PHV :=
  match c.p4objectsRt with
  | none => { c with p4objects := objects }
  | some _ => { c with p4objectsRt := some objects }

/-- `get_phv_factory().enable_all_arith()`. -/
def enableAllArith : Context Objs PHV :=
  { c with p4objects.phvFactory := c.p4objects.phvFactory.enableAllArith }

/-- `init_objects`. -/
def initObjects (cxtId : ℕ) (doc : Doc) : CallOutcome ℤ (Context Objs PHV) :=
  match env.initObjects cxtId c.rt doc with
  | .returned status objects =>
    if status ≠ 0 then .returned status (c.setRt objects)
    else .returned 0 (if c.forceArith then (c.setRt objects).enableAllArith else c.setRt objects)
  | .threw objects => .threw (c.setRt objects)
  | .aborted => .aborted

/-- `load_new_config`. -/
def loadNewConfig (cxtId : ℕ) (doc : Doc) : CallOutcome SwapErrorCode (Context Objs PHV) :=
  if c.p4objectsRt.isSome then .returned .ongoingSwap c
  else
    match initObjects env { c with p4objectsRt := some env.empty } cxtId doc with
    | .returned _ c' => .returned .success c'
    | .threw c' => .threw c'
    | .aborted => .aborted

/-- `swap_configs`. -/
def swapConfigs : SwapErrorCode × Context Objs PHV :=
  if c.p4objectsRt.isNone then (.noOngoingSwap, c) else (.success, { c with swapOrdered := true })

/-- `do_swap` of a context with a swap ordered, and `set_phv_factory`. -/
def doSwap : Context Objs PHV :=
  { c with p4objects := c.rt, p4objectsRt := none, swapOrdered := false, phvs := [] }

/-- A PHV is taken from the pool for a new packet. -/
def newPacket : Context Objs PHV :=
  match c.phvs.getLast? with
  | some phv => { c with phvs := c.phvs.dropLast, inUse := c.inUse ++ [phv] }
  | none => { c with inUse := c.inUse ++ [env.create c.p4objects.phvFactory] }

/-- A thread processes a packet. -/
def process (k : ℕ) (packet : Pkt) : Option (Context Objs PHV × Out) := do
  let phv ← c.inUse[k]?
  let (objs, phv', out) := env.process c.p4objects phv packet
  return ({ c with p4objects.objs := objs, inUse := c.inUse.set k phv' }, out)

/-- A packet is destroyed, and its PHV is released. -/
def release (k : ℕ) : Option (Context Objs PHV) := do
  let phv ← c.inUse[k]?
  return { c with phvs := c.phvs ++ [phv], inUse := c.inUse.eraseIdx k }

/-- An operation of the control plane. -/
def control (op : Ctl) : Context Objs PHV × Out :=
  let (objs, out) := env.control c.rt op
  (c.setRt { c.rt with objs }, out)

/-- What packets and operations of the control plane do; `none` for a packet that is not there. -/
def traffic : SwapOp Doc Pkt Ctl → Option (Context Objs PHV × SwapOut Out)
  | .newPacket _ => some (c.newPacket env, .unit)
  | .process _ k packet => (c.process env k packet).map fun (c', out) => (c', .output out)
  | .release _ k => (c.release k).map fun c' => (c', .unit)
  | .control _ op => some ((c.control env op).1, .output (c.control env op).2)
  | _ => none

end Context

/-! ## The switch -/

/-- `SwitchWContexts`. -/
@[ext]
structure SwitchWContexts (Objs PHV : Type) where
  enableSwap : Bool
  contexts : List (Context Objs PHV)

namespace SwitchWContexts

variable {Doc Objs PHV Pkt Ctl Out : Type} (env : P4Env Doc Objs PHV Pkt Ctl Out)

/-- A call for one context after the other, which ends at the first that does not return `ok`. -/
def forContexts {Rc : Type} [DecidableEq Rc] (ok : Rc)
    (call : ℕ → Context Objs PHV → CallOutcome Rc (Context Objs PHV)) :
    ℕ → List (Context Objs PHV) → CallOutcome Rc (List (Context Objs PHV))
  | _, [] => .returned ok []
  | cxtId, c :: cs =>
    match call cxtId c with
    | .returned rc c' =>
      if rc = ok then (forContexts ok call (cxtId + 1) cs).map (c' :: ·) else .returned rc (c' :: cs)
    | .threw c' => .threw (c' :: cs)
    | .aborted => .aborted

/-- The switch that the constructor makes, with `set_force_arith` of the contexts. -/
def create (enableSwap : Bool) (forceArith : List Bool) : SwitchWContexts Objs PHV where
  enableSwap := enableSwap
  contexts := forceArith.map fun v => { p4objects := env.empty, forceArith := v }

variable (s : SwitchWContexts Objs PHV)

/-- `init_objects`. -/
def initObjects (doc : Doc) : CallOutcome ℤ (SwitchWContexts Objs PHV) :=
  (forContexts 0 (fun cxtId c => c.initObjects env cxtId doc) 0 s.contexts).map
    fun contexts => { s with contexts }

/-- `load_new_config`. -/
def loadNewConfig (newConfig : Doc) : CallOutcome SwapErrorCode (SwitchWContexts Objs PHV) :=
  if !s.enableSwap then .returned .configSwapDisabled s
  else
    (forContexts .success (fun cxtId c => c.loadNewConfig env cxtId newConfig) 0 s.contexts).map
      fun contexts => { s with contexts }

/-- `swap_configs`. -/
def swapConfigs : CallOutcome SwapErrorCode (SwitchWContexts Objs PHV) :=
  if !s.enableSwap then .returned .configSwapDisabled s
  else
    (forContexts .success (fun _ c => .returned c.swapConfigs.1 c.swapConfigs.2) 0 s.contexts).map
      fun contexts => { s with contexts }

/-- `swap_requested`. -/
def swapRequested : Bool := s.contexts.any (·.swapOrdered)

/-- `do_swap`; `none` while it waits for packets of a context that swaps. -/
def doSwap : Option (ℕ × SwitchWContexts Objs PHV) :=
  if !s.enableSwap || !s.swapRequested then some (1, s)
  else if s.contexts.all fun c => !c.swapOrdered || c.inUse.isEmpty then
    some (0, { s with contexts := s.contexts.map fun c => if c.swapOrdered then c.doSwap else c })
  else none

/-- Packets and operations of the control plane; `none` for a context or packet that is not there. -/
def traffic (op : SwapOp Doc Pkt Ctl) : Option (SwitchWContexts Objs PHV × SwapOut Out) := do
  let cxtId ← op.cxtId?
  let c ← s.contexts[cxtId]?
  let (c', out) ← c.traffic env op
  return ({ s with contexts := s.contexts.set cxtId c' }, out)

/-- What the caller sees of a call with an error code. -/
def ofOutcome : CallOutcome SwapErrorCode (SwitchWContexts Objs PHV) →
    Option (SwitchWContexts Objs PHV × SwapOut Out)
  | .returned rc s' => some (s', .errorCode rc)
  | .threw s' => some (s', .exception)
  | .aborted => none

/-- One call; `none` when it has to wait or ends the process. -/
def exec : SwapOp Doc Pkt Ctl → Option (SwitchWContexts Objs PHV × SwapOut Out)
  | .loadNewConfig newConfig => ofOutcome (s.loadNewConfig env newConfig)
  | .swapConfigs => ofOutcome s.swapConfigs
  | .doSwap => s.doSwap.map fun (rc, s') => (s', .swapDone rc)
  | op => s.traffic env op

/-! ### Calls for all contexts -/

variable {s} {env} {c : Context Objs PHV}

theorem forContexts_eq_returned {Rc : Type} [DecidableEq Rc] {ok : Rc}
    {call : ℕ → Context Objs PHV → CallOutcome Rc (Context Objs PHV)}
    {cs cs' : List (Context Objs PHV)} {n : ℕ} :
    forContexts ok call n cs = .returned ok cs' ↔ cs.length = cs'.length ∧
      ∀ i c c', cs[i]? = some c → cs'[i]? = some c' → call (n + i) c = .returned ok c' := by
  induction cs generalizing n cs' with
  | nil =>
    rw [forContexts]
    constructor
    · rintro ⟨⟩
      exact ⟨rfl, fun i c c' hc => by simp at hc⟩
    · rintro ⟨hlength, -⟩
      rw [List.length_eq_zero_iff.mp hlength.symm]
  | cons c cs ih =>
    cases cs' with
    | nil =>
      refine iff_of_false ?_ (by simp)
      rw [forContexts]
      split
      · split
        · rename_i rc c' hcall hrc
          cases hrest : forContexts ok call (n + 1) cs <;> simp [CallOutcome.map]
        · rintro ⟨⟩
      · rintro ⟨⟩
      · rintro ⟨⟩
    | cons c' cs' =>
      have hcons : forContexts ok call n (c :: cs) = .returned ok (c' :: cs') ↔
          call n c = .returned ok c' ∧ forContexts ok call (n + 1) cs = .returned ok cs' := by
        rw [forContexts]
        cases call n c with
        | returned rc c₁ =>
          by_cases hrc : rc = ok
          · simp only [hrc, if_true]
            cases forContexts ok call (n + 1) cs <;>
              simp [CallOutcome.map, and_left_comm]
          · simp only [hrc, if_false]
            constructor
            · rintro ⟨⟩
              exact absurd rfl hrc
            · rintro ⟨⟨⟩, -⟩
              exact absurd rfl hrc
        | threw c₁ => simp
        | aborted => simp
      rw [hcons, ih]
      constructor
      · rintro ⟨hhead, hlength, htail⟩
        refine ⟨by simp [hlength], ?_⟩
        rintro (_ | i) d d' hd hd'
        · cases hd
          cases hd'
          exact hhead
        · rw [show n + (i + 1) = n + 1 + i by omega]
          exact htail i d d' hd hd'
      · rintro ⟨hlength, hcalls⟩
        refine ⟨hcalls 0 c c' rfl rfl, by simpa using hlength, fun i d d' hd hd' => ?_⟩
        rw [show n + 1 + i = n + (i + 1) by omega]
        exact hcalls (i + 1) d d' hd hd'

theorem forContexts_cons_of_ne {Rc : Type} [DecidableEq Rc] {ok rc : Rc}
    {call : ℕ → Context Objs PHV → CallOutcome Rc (Context Objs PHV)} {n : ℕ}
    {cs : List (Context Objs PHV)} (hcall : call n c = .returned rc c) (hrc : rc ≠ ok) :
    forContexts ok call n (c :: cs) = .returned rc (c :: cs) := by
  rw [forContexts, hcall]
  simp only [hrc, if_false]

/-- A call that changes the first context does not leave the contexts as they were. -/
theorem forContexts_cons_ne {Rc : Type} [DecidableEq Rc] {ok : Rc}
    {call : ℕ → Context Objs PHV → CallOutcome Rc (Context Objs PHV)} {n : ℕ}
    {cs : List (Context Objs PHV)}
    (hcall : ∀ c', ((∃ rc, call n c = .returned rc c') ∨ call n c = .threw c') → c' ≠ c)
    {cs' : List (Context Objs PHV)}
    (h : (∃ rc, forContexts ok call n (c :: cs) = .returned rc cs') ∨
      forContexts ok call n (c :: cs) = .threw cs') : cs' ≠ c :: cs := by
  suffices ∃ c' cs₁, cs' = c' :: cs₁ ∧ ((∃ rc, call n c = .returned rc c') ∨ call n c = .threw c') by
    obtain ⟨c', cs₁, rfl, hc'⟩ := this
    intro heq
    exact hcall c' hc' (List.cons.inj heq).1
  rw [forContexts] at h
  cases hc : call n c with
  | returned rc c' =>
    refine ⟨c', cs'.tail, ?_, .inl ⟨rc, rfl⟩⟩
    rw [hc] at h
    by_cases hrc : rc = ok
    · simp only [hrc, if_true] at h
      cases hrest : forContexts ok call (n + 1) cs <;> rw [hrest] at h <;>
        simp [CallOutcome.map] at h <;> simp [← h]
    · simp only [hrc, if_false] at h
      simp only [CallOutcome.returned.injEq, exists_eq_left', reduceCtorEq, or_false] at h
      simp [← h]
  | threw c' =>
    refine ⟨c', cs'.tail, ?_, .inr rfl⟩
    rw [hc] at h
    simp only [reduceCtorEq, exists_false, CallOutcome.threw.injEq, false_or] at h
    simp [← h]
  | aborted => simp [hc] at h

theorem exec_loadNewConfig (h : s.enableSwap = true) (newConfig : Doc) :
    s.exec env (.loadNewConfig newConfig) =
      ofOutcome ((forContexts .success (fun cxtId c => c.loadNewConfig env cxtId newConfig) 0
        s.contexts).map fun contexts => { s with contexts }) := by
  rw [exec, loadNewConfig, if_neg (by simp [h])]

theorem exec_swapConfigs (h : s.enableSwap = true) :
    s.exec env .swapConfigs =
      ofOutcome ((forContexts .success (fun _ c => .returned c.swapConfigs.1 c.swapConfigs.2) 0
        s.contexts).map fun contexts => { s with contexts }) := by
  rw [exec, swapConfigs, if_neg (by simp [h])]

end SwitchWContexts

end Bm
