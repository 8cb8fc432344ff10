/-
# The swap of configurations as two plain switches

The purpose of `load_new_config`, `swap_configs` and `do_swap`, in terms of switches that never
swap: one runs, and another one is started beside it with the new document, gets the operations of
the control plane from then on, and takes the place of the first when no packet is left.
-/
import Bmv2.ConfigSwap

namespace Bm

variable {Doc Objs PHV Pkt Ctl Out : Type} (env : P4Env Doc Objs PHV Pkt Ctl Out)

/-! ## The specification -/

/-- A switch that has been started with a document, in full, and has then got packets and
operations that are `allowed`. -/
def SwitchWContexts.Started (enableSwap : Bool) (forceArith : List Bool)
    (allowed : SwapOp Doc Pkt Ctl → Prop) (s : SwitchWContexts Objs PHV) : Prop :=
  ∃ doc s₀ ops, (create env enableSwap forceArith).initObjects env doc = .returned 0 s₀ ∧
    runFrom (fun s op => (traffic env s op).map Prod.fst) s₀ ops = some s ∧ ∀ op ∈ ops, allowed op

/-- Operations of the control plane. -/
def SwapOp.IsControl : SwapOp Doc Pkt Ctl → Prop
  | .control _ _ => True
  | _ => False

/-- The switch that runs, the one that is loaded beside it, and whether it has been ordered to take
its place. -/
structure SwapSpec (Objs PHV : Type) where
  running : SwitchWContexts Objs PHV
  loaded : Option (SwitchWContexts Objs PHV) := none
  ordered : Bool := false

namespace SwapSpec

variable (a : SwapSpec Objs PHV)

/-- Another switch with the same options. -/
def fresh : SwitchWContexts Objs PHV :=
  .create env a.running.enableSwap (a.running.contexts.map (·.forceArith))

/-- The document can be loaded, and `s` is the switch that starts with it. -/
def Loads (newConfig : Doc) (s : SwitchWContexts Objs PHV) : Prop :=
  a.running.enableSwap ∧ a.loaded = none ∧ (a.fresh env).initObjects env newConfig = .returned 0 s

/-- What a call may give and do. A load that fails, and a swap that is refused, change nothing. -/
def Step : SwapOp Doc Pkt Ctl → SwapOut Out → SwapSpec Objs PHV → Prop
  | .loadNewConfig newConfig, out, a' =>
    (∃ s, a.Loads env newConfig s ∧ out = .errorCode .success ∧ a' = { a with loaded := some s }) ∨
      ((∀ s, ¬ a.Loads env newConfig s) ∧ out ≠ .errorCode .success ∧ a' = a)
  | .swapConfigs, out, a' =>
    if a.running.enableSwap ∧ a.loaded.isSome then
      out = .errorCode .success ∧ a' = { a with ordered := true }
    else out ≠ .errorCode .success ∧ a' = a
  | .doSwap, out, a' =>
    if a.running.enableSwap ∧ a.ordered then
      (∀ c ∈ a.running.contexts, c.inUse = []) ∧ out = .swapDone 0 ∧
        ∃ s, a.loaded = some s ∧ a' = { running := s }
    else out = .swapDone 1 ∧ a' = a
  | .control cxtId op, out, a' =>
    match a.loaded with
    | some s => ∃ s', s.traffic env (.control cxtId op) = some (s', out) ∧
        a' = { a with loaded := some s' }
    | none => ∃ s', a.running.traffic env (.control cxtId op) = some (s', out) ∧
        a' = { a with running := s' }
  | op, out, a' => ∃ s', a.running.traffic env op = some (s', out) ∧ a' = { a with running := s' }

/-- Both switches have been started in full; the one that is loaded has seen no packet. -/
structure Valid (enableSwap : Bool) (forceArith : List Bool) (a : SwapSpec Objs PHV) : Prop where
  running : a.running.Started env enableSwap forceArith fun _ => True
  loaded : ∀ s ∈ a.loaded, s.Started env enableSwap forceArith SwapOp.IsControl
  ordered : a.ordered → a.loaded.isSome

/-- A context of the switch that runs, with the objects of the one that is loaded. -/
def stage (ordered : Bool) (c l : Context Objs PHV) : Context Objs PHV :=
  { c with p4objectsRt := some l.p4objects, swapOrdered := ordered }

/-- The two switches in one. -/
def toSwitch : SwitchWContexts Objs PHV :=
  match a.loaded with
  | none => a.running
  | some s => { a.running with
      contexts := List.zipWith (stage a.ordered) a.running.contexts s.contexts }

/-- The state of the code is that of the two switches. -/
def Refines (enableSwap : Bool) (forceArith : List Bool) (s : SwitchWContexts Objs PHV)
    (a : SwapSpec Objs PHV) : Prop :=
  s = a.toSwitch ∧ a.Valid env enableSwap forceArith

end SwapSpec

/-- A document that `load_new_config` comes to load initialises all contexts with status `0`, and
leaves no arithmetic to be forced. -/
def SwitchWContexts.LoadsInFull (s : SwitchWContexts Objs PHV) : SwapOp Doc Pkt Ctl → Prop
  | .loadNewConfig newConfig => s.enableSwap → (∀ c ∈ s.contexts, c.p4objectsRt = none) →
      ∀ cxtId c, s.contexts[cxtId]? = some c →
        ∃ objects, env.initObjects cxtId env.empty newConfig = .returned 0 objects ∧
          (c.forceArith → objects.phvFactory.enableAllArith = objects.phvFactory)
  | _ => True

/-! ## Switches that have been started -/

/-- A context of a switch that does not swap. -/
structure Context.Plain (c : Context Objs PHV) : Prop where
  rt : c.p4objectsRt = none
  swapOrdered : c.swapOrdered = false
  arith : c.forceArith → c.p4objects.phvFactory.enableAllArith = c.p4objects.phvFactory

/-- A switch that does not swap. -/
structure SwitchWContexts.Plain (enableSwap : Bool) (forceArith : List Bool)
    (s : SwitchWContexts Objs PHV) : Prop where
  enableSwap : s.enableSwap = enableSwap
  forceArith : s.contexts.map (·.forceArith) = forceArith
  contexts : ∀ c ∈ s.contexts, c.Plain

/-- No PHV has been made. -/
def SwitchWContexts.Idle (s : SwitchWContexts Objs PHV) : Prop :=
  ∀ c ∈ s.contexts, c.phvs = [] ∧ c.inUse = []

variable {env} {c c' l l' : Context Objs PHV} {op : SwapOp Doc Pkt Ctl} {out : SwapOut Out}

namespace Context

theorem newPacket_eq (env : P4Env Doc Objs PHV Pkt Ctl Out) (c : Context Objs PHV) : ∃ phvs inUse, c.newPacket env = { c with phvs := phvs, inUse := inUse } := by
  unfold newPacket
  split
  · exact ⟨_, _, rfl⟩
  · exact ⟨c.phvs, _, rfl⟩

theorem Plain.rt_eq (h : c.Plain) : c.rt = c.p4objects := by
  rw [Context.rt, h.rt]
  rfl

/-- In a context that does not swap, packets and operations change the objects and the PHVs. -/
theorem Plain.traffic (h : c.Plain) (ht : c.traffic env op = some (c', out)) :
    ∃ objs phvs inUse,
      c' = { c with p4objects.objs := objs, phvs := phvs, inUse := inUse } ∧
        (op.IsControl → phvs = c.phvs ∧ inUse = c.inUse) := by
  cases op with
  | newPacket cxtId =>
    cases ht
    obtain ⟨phvs, inUse, heq⟩ := newPacket_eq env c
    exact ⟨c.p4objects.objs, phvs, inUse, heq, False.elim⟩
  | process cxtId k packet =>
    obtain ⟨⟨c₁, out₁⟩, hprocess, hc'⟩ := Option.map_eq_some_iff.mp ht
    obtain ⟨phv, -, hprocess⟩ := Option.bind_eq_some_iff.mp hprocess
    cases hprocess
    cases hc'
    exact ⟨_, c.phvs, _, rfl, False.elim⟩
  | release cxtId k =>
    obtain ⟨c₁, hrelease, hc'⟩ := Option.map_eq_some_iff.mp ht
    obtain ⟨phv, -, hrelease⟩ := Option.bind_eq_some_iff.mp hrelease
    cases hrelease
    cases hc'
    exact ⟨c.p4objects.objs, _, _, rfl, False.elim⟩
  | control cxtId op =>
    cases ht
    refine ⟨(env.control c.p4objects op).1, c.phvs, c.inUse, ?_, fun _ => ⟨rfl, rfl⟩⟩
    simp only [control, setRt, h.rt_eq, h.rt]
  | _ => cases ht

/-- The operations of the control plane leave the PHVs. -/
theorem Plain.plain_traffic (h : c.Plain) (ht : c.traffic env op = some (c', out)) :
    c'.Plain ∧ c'.forceArith = c.forceArith := by
  obtain ⟨objs, phvs, inUse, rfl, -⟩ := h.traffic ht
  exact ⟨⟨h.rt, h.swapOrdered, h.arith⟩, rfl⟩

end Context

namespace SwitchWContexts

variable {s s' : SwitchWContexts Objs PHV} {enableSwap : Bool} {forceArith : List Bool}

theorem traffic_eq_some : s.traffic env op = some (s', out) ↔ ∃ cxtId c c',
    op.cxtId? = some cxtId ∧ s.contexts[cxtId]? = some c ∧ c.traffic env op = some (c', out) ∧
      s' = { s with contexts := s.contexts.set cxtId c' } := by
  simp only [traffic, Option.bind_eq_bind, Option.bind_eq_some_iff, Prod.exists, Option.pure_def,
    Option.some.injEq, Prod.mk.injEq]
  constructor
  · rintro ⟨cxtId, hcxt, c, hc, c', out', ht, hs', rfl⟩
    exact ⟨cxtId, c, c', hcxt, hc, ht, hs'.symm⟩
  · rintro ⟨cxtId, c, c', hcxt, hc, ht, rfl⟩
    exact ⟨cxtId, hcxt, c, hc, c', out, ht, rfl, rfl⟩

theorem Plain.traffic (h : s.Plain enableSwap forceArith)
    (ht : s.traffic env op = some (s', out)) : s'.Plain enableSwap forceArith := by
  obtain ⟨cxtId, c, c', -, hc, htraffic, rfl⟩ := traffic_eq_some.mp ht
  obtain ⟨hplain, hforce⟩ := (h.contexts c (List.mem_of_getElem? hc)).plain_traffic htraffic
  refine ⟨h.enableSwap, ?_, fun d hd => ?_⟩
  · obtain ⟨hlt, rfl⟩ := List.getElem?_eq_some_iff.mp hc
    have hself := List.set_getElem_self
      (by simpa using hlt : cxtId < (s.contexts.map (·.forceArith)).length)
    rw [List.getElem_map] at hself
    rw [List.map_set, hforce, hself, h.forceArith]
  · rcases List.mem_or_eq_of_mem_set hd with hd | rfl
    · exact h.contexts d hd
    · exact hplain

theorem Idle.traffic (h : s.Idle) (hplain : s.Plain enableSwap forceArith) (hop : op.IsControl)
    (ht : s.traffic env op = some (s', out)) : s'.Idle := by
  obtain ⟨cxtId, c, c', -, hc, htraffic, rfl⟩ := traffic_eq_some.mp ht
  have hmem := List.mem_of_getElem? hc
  obtain ⟨objs, phvs, inUse, rfl, hidle⟩ := (hplain.contexts c hmem).traffic htraffic
  intro d hd
  rcases List.mem_or_eq_of_mem_set hd with hd | rfl
  · exact h d hd
  · obtain ⟨rfl, rfl⟩ := hidle hop
    exact h c hmem

/-- What `init_objects` makes of a context of a new switch. -/
def initialised (forceArith : Bool) (objects : P4Objects Objs) : Context Objs PHV where
  p4objects := if forceArith then { objects with
    phvFactory := objects.phvFactory.enableAllArith } else objects
  forceArith := forceArith

theorem initialised_p4objects {forceArith : Bool} {objects : P4Objects Objs}
    (h : forceArith → objects.phvFactory.enableAllArith = objects.phvFactory) :
    (initialised forceArith objects : Context Objs PHV).p4objects = objects := by
  rw [initialised]
  split
  · rename_i hforce
    rw [h hforce]
  · rfl

theorem initialised_plain (forceArith : Bool) (objects : P4Objects Objs) :
    (initialised forceArith objects : Context Objs PHV).Plain where
  rt := rfl
  swapOrdered := rfl
  arith := by cases forceArith <;> simp [initialised]

theorem initObjects_create {cxtId : ℕ} {forceArith : Bool} {doc : Doc} :
    Context.initObjects env { p4objects := env.empty, forceArith := forceArith } cxtId doc =
        .returned 0 c' ↔
      ∃ objects, env.initObjects cxtId env.empty doc = .returned 0 objects ∧
        c' = initialised forceArith objects := by
  simp only [Context.initObjects, Context.rt, Option.getD_none]
  cases hinit : env.initObjects cxtId env.empty doc with
  | returned status objects =>
    by_cases hstatus : status = 0
    · subst hstatus
      cases forceArith <;>
        simp [Context.setRt, Context.enableAllArith, initialised, eq_comm]
    · simp [hstatus]
  | threw objects => simp
  | aborted => simp

/-- A new switch is initialised in full when all its contexts are. -/
theorem initObjects_eq_returned {doc : Doc} {s₀ : SwitchWContexts Objs PHV} :
    (create env enableSwap forceArith).initObjects env doc = .returned 0 s₀ ↔
      s₀.enableSwap = enableSwap ∧ forceArith.length = s₀.contexts.length ∧
        ∀ cxtId v c, forceArith[cxtId]? = some v → s₀.contexts[cxtId]? = some c →
          ∃ objects, env.initObjects cxtId env.empty doc = .returned 0 objects ∧
            c = initialised v objects := by
  rw [initObjects, create]
  constructor
  · intro h
    obtain ⟨cs, hcs, rfl⟩ := CallOutcome.map_eq_returned.mp h
    obtain ⟨hlength, hcalls⟩ := forContexts_eq_returned.mp hcs
    refine ⟨rfl, by simpa using hlength, fun cxtId v c hv hc => ?_⟩
    have hcall := hcalls cxtId _ c (by rw [List.getElem?_map, hv, Option.map_some]) hc
    rw [Nat.zero_add] at hcall
    exact initObjects_create.mp hcall
  · rintro ⟨rfl, hlength, hcalls⟩
    refine CallOutcome.map_eq_returned.mpr ⟨s₀.contexts, forContexts_eq_returned.mpr ⟨?_, ?_⟩, rfl⟩
    · simpa using hlength
    · intro i c c' hc hc'
      rw [List.getElem?_map] at hc
      obtain ⟨v, hv, rfl⟩ := Option.map_eq_some_iff.mp hc
      rw [Nat.zero_add]
      exact initObjects_create.mpr (hcalls i v c' hv hc')

/-- A switch that has just been started does not swap, and has made no PHV. -/
theorem plain_of_initObjects {doc : Doc} {s₀ : SwitchWContexts Objs PHV}
    (h : (create env enableSwap forceArith).initObjects env doc = .returned 0 s₀) :
    s₀.Plain enableSwap forceArith ∧ s₀.Idle := by
  obtain ⟨henable, hlength, hcalls⟩ := initObjects_eq_returned.mp h
  have hcontext (cxtId : ℕ) (c : Context Objs PHV) (hc : s₀.contexts[cxtId]? = some c) :
      ∃ v objects, forceArith[cxtId]? = some v ∧ c = initialised v objects := by
    have hlt := hlength ▸ (List.getElem?_eq_some_iff.mp hc).1
    obtain ⟨objects, -, hc'⟩ := hcalls cxtId _ c (List.getElem?_eq_getElem hlt) hc
    exact ⟨_, objects, List.getElem?_eq_getElem hlt, hc'⟩
  refine ⟨⟨henable, ?_, fun c hc => ?_⟩, fun c hc => ?_⟩
  · refine List.ext_getElem (by simpa using hlength.symm) fun i hi hi' => ?_
    have hlt : i < s₀.contexts.length := by simpa using hi
    obtain ⟨v, objects, hv, heq⟩ := hcontext i _ (List.getElem?_eq_getElem hlt)
    rw [List.getElem_map, heq]
    exact Option.some.inj (hv.symm.trans (List.getElem?_eq_getElem hi'))
  · obtain ⟨i, hi⟩ := List.getElem?_of_mem hc
    obtain ⟨v, objects, -, rfl⟩ := hcontext i c hi
    exact initialised_plain v objects
  · obtain ⟨i, hi⟩ := List.getElem?_of_mem hc
    obtain ⟨v, objects, -, rfl⟩ := hcontext i c hi
    exact ⟨rfl, rfl⟩

variable {allowed : SwapOp Doc Pkt Ctl → Prop}

theorem Started.plain (h : s.Started env enableSwap forceArith allowed) :
    s.Plain enableSwap forceArith := by
  obtain ⟨doc, s₀, ops, hinit, hrun, -⟩ := h
  refine runFrom_invariant (I := Plain enableSwap forceArith) (fun s op s' hs hstep => ?_)
    (plain_of_initObjects hinit).1 hrun
  obtain ⟨⟨s'', out⟩, ht, rfl⟩ := Option.map_eq_some_iff.mp hstep
  exact hs.traffic ht

theorem Started.traffic (h : s.Started env enableSwap forceArith allowed) (hop : allowed op)
    (ht : s.traffic env op = some (s', out)) : s'.Started env enableSwap forceArith allowed := by
  obtain ⟨doc, s₀, ops, hinit, hrun, hallowed⟩ := h
  refine ⟨doc, s₀, ops ++ [op], hinit, ?_, fun op' hop' => ?_⟩
  · rw [runFrom_append, hrun, Option.bind_some]
    exact runFrom_cons_eq_some.mpr ⟨s', by rw [ht]; rfl, rfl⟩
  · rcases List.mem_append.mp hop' with hop' | hop'
    · exact hallowed op' hop'
    · exact List.mem_singleton.mp hop' ▸ hop

theorem Started.mono {allowed' : SwapOp Doc Pkt Ctl → Prop} (hle : ∀ op, allowed op → allowed' op)
    (h : s.Started env enableSwap forceArith allowed) :
    s.Started env enableSwap forceArith allowed' := by
  obtain ⟨doc, s₀, ops, hinit, hrun, hallowed⟩ := h
  exact ⟨doc, s₀, ops, hinit, hrun, fun op hop => hle op (hallowed op hop)⟩

theorem Started.idle (h : s.Started env enableSwap forceArith SwapOp.IsControl) : s.Idle := by
  obtain ⟨doc, s₀, ops, hinit, hrun, hcontrol⟩ := h
  obtain ⟨hplain, hidle⟩ := plain_of_initObjects hinit
  refine (runFrom_invariant_of_meets (I := fun s => s.Plain enableSwap forceArith ∧ s.Idle)
    (fun s op s' hs hop hstep => ?_) ⟨hplain, hidle⟩
    (RunMeets.of_forall hcontrol) hrun).2
  obtain ⟨⟨s'', out⟩, ht, rfl⟩ := Option.map_eq_some_iff.mp hstep
  exact ⟨hs.1.traffic ht, hs.2.traffic hs.1 hop ht⟩

end SwitchWContexts

end Bm
