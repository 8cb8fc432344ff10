/-
# Steps of the swap of configurations

Each call does what `SwapSpec` allows exactly when a document that it comes to load initialises all
contexts in full, and enables the arithmetic of all fields itself where that is forced:
`load_new_config` does not look at the status of `init_objects`, and `init_objects` forces the
arithmetic of the old configuration.
-/
import Bmv2.SwapSpec

namespace Bm

variable {Doc Objs PHV Pkt Ctl Out : Type} {env : P4Env Doc Objs PHV Pkt Ctl Out}
  {c c' l l' : Context Objs PHV} {op : SwapOp Doc Pkt Ctl} {out : SwapOut Out}

theorem Context.Plain.loadNewConfig (h : c.Plain) {cxtId : ℕ} {doc : Doc} :
    c.loadNewConfig env cxtId doc =
      match env.initObjects cxtId env.empty doc with
      | .returned _ objects => .returned .success { c with p4objectsRt := some objects }
      | .threw objects => .threw { c with p4objectsRt := some objects }
      | .aborted => .aborted := by
  have harith : c.forceArith = true → ∀ objects : P4Objects Objs,
      Context.enableAllArith { c with p4objectsRt := some objects } =
        { c with p4objectsRt := some objects } := by
    intro hforce objects
    simp only [Context.enableAllArith, h.arith hforce]
  simp only [Context.loadNewConfig, h.rt, Option.isSome_none, Bool.false_eq_true, if_false,
    Context.initObjects, Context.rt, Option.getD_some, Context.setRt]
  cases env.initObjects cxtId env.empty doc with
  | returned status objects =>
    by_cases hstatus : status = 0
    · by_cases hforce : c.forceArith = true
      · simp only [hstatus, ne_eq, not_true_eq_false, if_false]
        rw [if_pos hforce, harith hforce]
      · simp [hstatus, hforce]
    · simp [hstatus]
  | threw objects => rfl
  | aborted => rfl

namespace SwapSpec

open SwitchWContexts

variable {a a' : SwapSpec Objs PHV} {enableSwap : Bool} {forceArith : List Bool}

/-! ## The state of the code -/

theorem Valid.fresh_eq (h : a.Valid env enableSwap forceArith) :
    a.fresh env = create env enableSwap forceArith := by
  rw [fresh, h.running.plain.enableSwap, h.running.plain.forceArith]

theorem Valid.length_running (h : a.Valid env enableSwap forceArith) :
    a.running.contexts.length = forceArith.length := by
  rw [← h.running.plain.forceArith, List.length_map]

theorem Valid.length_loaded (h : a.Valid env enableSwap forceArith)
    {s : SwitchWContexts Objs PHV} (hs : s ∈ a.loaded) :
    s.contexts.length = forceArith.length := by
  rw [← (h.loaded s hs).plain.forceArith, List.length_map]

/-- The call is refused: nothing changes. -/
theorem Valid.stepFollows_refused (h : a.Valid env enableSwap forceArith) (out : SwapOut Out)
    (hexec : a.toSwitch.exec env op = some (a.toSwitch, out)) (hspec : a.Step env op out a) :
    StepFollows (exec env) (Step env) (Refines env enableSwap forceArith) a.toSwitch a op :=
  StepFollows.of_exec _ a out hexec hspec ⟨rfl, h⟩

@[simp] theorem enableSwap_toSwitch : a.toSwitch.enableSwap = a.running.enableSwap := by
  rw [toSwitch]
  split <;> rfl

theorem toSwitch_of_none (h : a.loaded = none) : a.toSwitch = a.running := by
  rw [toSwitch, h]

theorem toSwitch_of_some {s : SwitchWContexts Objs PHV} (h : a.loaded = some s) :
    a.toSwitch = { a.running with
      contexts := List.zipWith (stage a.ordered) a.running.contexts s.contexts } := by
  rw [toSwitch, h]

/-- Each context of the switch that runs has one of the switch that is loaded beside it. -/
theorem Valid.exists_loaded (h : a.Valid env enableSwap forceArith)
    {s : SwitchWContexts Objs PHV} (hs : a.loaded = some s) {cxtId : ℕ} {c : Context Objs PHV}
    (hc : a.running.contexts[cxtId]? = some c) :
    ∃ l, s.contexts[cxtId]? = some l ∧ l.forceArith = c.forceArith := by
  have hplain := (h.loaded s hs).plain
  have hforce : (s.contexts.map (·.forceArith))[cxtId]? = some c.forceArith := by
    rw [hplain.forceArith, ← h.running.plain.forceArith, List.getElem?_map, hc, Option.map_some]
  rw [List.getElem?_map] at hforce
  exact Option.map_eq_some_iff.mp hforce

theorem mem_toSwitch {s : SwitchWContexts Objs PHV} (hs : a.loaded = some s) :
    c ∈ a.toSwitch.contexts ↔ ∃ (cxtId : ℕ) (c₁ l : Context Objs PHV), a.running.contexts[cxtId]? = some c₁ ∧
      s.contexts[cxtId]? = some l ∧ stage a.ordered c₁ l = c := by
  rw [toSwitch_of_some hs, List.mem_iff_getElem?]
  exact exists_congr fun cxtId => List.getElem?_zipWith_eq_some

/-- With a switch loaded there is a first context, and it has other objects loaded. -/
theorem Valid.exists_cons_of_some (h : a.Valid env enableSwap forceArith) (hne : forceArith ≠ [])
    {s : SwitchWContexts Objs PHV} (hs : a.loaded = some s) :
    ∃ c cs, a.toSwitch.contexts = c :: cs ∧ c.p4objectsRt.isSome := by
  rw [toSwitch_of_some hs]
  have hr := h.length_running
  have hl := h.length_loaded hs
  match hrunning : a.running.contexts, hloaded : s.contexts with
  | [], _ =>
    rw [hrunning] at hr
    exact absurd (List.length_eq_zero_iff.mp hr.symm) hne
  | _ :: _, [] =>
    rw [hloaded] at hl
    exact absurd (List.length_eq_zero_iff.mp hl.symm) hne
  | c :: cs, l :: ls =>
    exact ⟨stage a.ordered c l, List.zipWith (stage a.ordered) cs ls, rfl, rfl⟩

theorem Valid.exists_cons_of_none (h : a.Valid env enableSwap forceArith) (hne : forceArith ≠ [])
    (hs : a.loaded = none) :
    ∃ c cs, a.toSwitch.contexts = c :: cs ∧ c.Plain := by
  rw [toSwitch_of_none hs]
  match hrunning : a.running.contexts with
  | [] =>
    have hr := h.length_running
    rw [hrunning] at hr
    exact absurd (List.length_eq_zero_iff.mp hr.symm) hne
  | c :: cs => exact ⟨c, cs, rfl, h.running.plain.contexts c (by rw [hrunning]; simp)⟩

/-! ## Loads -/

/-- A load is refused while one is going on, or when swaps are disabled. -/
theorem Valid.stepFollows_load_refused (h : a.Valid env enableSwap forceArith)
    (hne : forceArith ≠ []) {newConfig : Doc}
    (hrefused : ¬ (a.running.enableSwap = true ∧ a.loaded = none)) :
    StepFollows (exec env) (Step env) (Refines env enableSwap forceArith) a.toSwitch a
      (.loadNewConfig newConfig) := by
  have hloads (s : SwitchWContexts Objs PHV) : ¬ a.Loads env newConfig s :=
    fun hs => hrefused ⟨hs.1, hs.2.1⟩
  by_cases henable : a.running.enableSwap = true
  · obtain ⟨s, hs⟩ := Option.ne_none_iff_exists'.mp fun hnone => hrefused ⟨henable, hnone⟩
    obtain ⟨c, cs, hcs, hc⟩ := h.exists_cons_of_some hne hs
    refine h.stepFollows_refused (.errorCode .ongoingSwap) ?_ (.inr ⟨hloads, by simp, rfl⟩)
    have hcall : c.loadNewConfig env 0 newConfig = .returned .ongoingSwap c := by
      rw [Context.loadNewConfig, if_pos hc]
    rw [exec_loadNewConfig (enableSwap_toSwitch.trans henable), hcs,
      forContexts_cons_of_ne hcall (by decide), ← hcs]
    rfl
  · refine h.stepFollows_refused (.errorCode .configSwapDisabled) ?_
      (.inr ⟨hloads, by simp, rfl⟩)
    simp [exec, loadNewConfig, henable, ofOutcome]

/-- The document initialises all contexts in full, and forces all arithmetic that is forced. -/
def InFull (env : P4Env Doc Objs PHV Pkt Ctl Out) (forceArith : List Bool) (newConfig : Doc) :
    Prop :=
  ∀ (cxtId : ℕ) (v : Bool), forceArith[cxtId]? = some v →
    ∃ objects, env.initObjects cxtId env.empty newConfig = .returned 0 objects ∧
      (v → objects.phvFactory.enableAllArith = objects.phvFactory)

/-- With no switch loaded, a load goes on to initialise the contexts. -/
theorem Valid.loadsInFull_iff (h : a.Valid env enableSwap forceArith)
    (henable : a.running.enableSwap = true) (hnone : a.loaded = none) {newConfig : Doc} :
    a.toSwitch.LoadsInFull env (.loadNewConfig newConfig) ↔ InFull env forceArith newConfig := by
  rw [toSwitch_of_none hnone]
  have hrunning := h.running.plain
  have hindex (cxtId : ℕ) : forceArith[cxtId]? = a.running.contexts[cxtId]?.map (·.forceArith) := by
    rw [← List.getElem?_map, hrunning.forceArith]
  constructor
  · intro hloads cxtId v hv
    rw [hindex] at hv
    obtain ⟨c, hc, rfl⟩ := Option.map_eq_some_iff.mp hv
    exact hloads henable (fun c hc => (hrunning.contexts c hc).rt) cxtId c hc
  · intro hfull _ _ cxtId c hc
    exact hfull cxtId c.forceArith (by rw [hindex, hc, Option.map_some])

/-- What a load of a document that initialises all contexts in full does. -/
theorem Valid.stepFollows_load (h : a.Valid env enableSwap forceArith)
    (henable : a.running.enableSwap = true) (hnone : a.loaded = none) {newConfig : Doc}
    (hfull : InFull env forceArith newConfig) :
    StepFollows (exec env) (Step env) (Refines env enableSwap forceArith) a.toSwitch a
      (.loadNewConfig newConfig) := by
  have hrunning := h.running.plain
  have hforce (cxtId : ℕ) : forceArith[cxtId]? = a.running.contexts[cxtId]?.map (·.forceArith) := by
    rw [← List.getElem?_map, hrunning.forceArith]
  have : Nonempty (P4Objects Objs) := ⟨env.empty⟩
  choose! objects hinit harith using hfull
  -- the switch that starts with the document
  let s : SwitchWContexts Objs PHV := ⟨enableSwap, a.running.contexts.mapIdx fun cxtId c =>
    initialised c.forceArith (objects cxtId c.forceArith)⟩
  have hs (cxtId : ℕ) {c l : Context Objs PHV} (hc : a.running.contexts[cxtId]? = some c)
      (hl : s.contexts[cxtId]? = some l) : forceArith[cxtId]? = some c.forceArith ∧
        l = initialised c.forceArith (objects cxtId c.forceArith) := by
    rw [List.getElem?_mapIdx, hc, Option.map_some, Option.some.injEq] at hl
    exact ⟨by rw [hforce, hc, Option.map_some], hl.symm⟩
  have hstart : (create env enableSwap forceArith).initObjects env newConfig = .returned 0 s := by
    refine initObjects_eq_returned.mpr ⟨rfl, ?_, fun cxtId v l hv hl => ?_⟩
    · rw [List.length_mapIdx, h.length_running]
    · rw [hforce] at hv
      obtain ⟨c, hc, rfl⟩ := Option.map_eq_some_iff.mp hv
      obtain ⟨hv, rfl⟩ := hs cxtId hc hl
      exact ⟨_, hinit cxtId _ hv, rfl⟩
  have hloads : a.Loads env newConfig s := ⟨henable, hnone, by rw [h.fresh_eq, hstart]⟩
  have hordered : a.ordered = false := by
    by_contra hordered
    have hsome := h.ordered (Bool.eq_true_of_not_eq_false hordered)
    rw [hnone] at hsome
    cases hsome
  refine StepFollows.of_exec _ { a with loaded := some s } (.errorCode .success) ?_
    (.inl ⟨s, hloads, rfl, rfl⟩) ⟨toSwitch_of_some rfl, h.running, ?_, fun _ => rfl⟩
  · rw [exec_loadNewConfig (enableSwap_toSwitch.trans henable), toSwitch_of_none hnone,
      forContexts_eq_returned.mpr]
    · rfl
    · refine ⟨by simp [s], fun cxtId c c' hc hc' => ?_⟩
      obtain ⟨c₁, l, hc₁, hl, rfl⟩ := List.getElem?_zipWith_eq_some.mp hc'
      obtain rfl : c = c₁ := Option.some.inj (hc.symm.trans hc₁)
      obtain ⟨hv, rfl⟩ := hs cxtId hc hl
      have hplain := hrunning.contexts c (List.mem_of_getElem? hc)
      rw [Nat.zero_add, hplain.loadNewConfig, hinit cxtId _ hv, stage,
        initialised_p4objects (harith cxtId _ hv), hordered, ← hplain.swapOrdered]
  · rintro s' ⟨⟩
    exact ⟨newConfig, s, [], hstart, rfl, fun op hop => absurd hop List.not_mem_nil⟩

/-- A load that is not refused changes the context. -/
theorem loadNewConfig_ne (h : c.Plain) {cxtId : ℕ} {newConfig : Doc}
    (hc' : (∃ rc, c.loadNewConfig env cxtId newConfig = .returned rc c') ∨
      c.loadNewConfig env cxtId newConfig = .threw c') : c' ≠ c := by
  rintro rfl
  have hrt : c'.p4objectsRt ≠ none := by
    rw [h.loadNewConfig] at hc'
    cases hinit : env.initObjects cxtId env.empty newConfig <;> rw [hinit] at hc' <;>
      simp at hc' <;> rw [← hc'] <;> simp
  exact hrt h.rt

/-- When the loaded objects are those of a switch that starts with the document, it initialises all
contexts in full. -/
theorem Valid.inFull_of_loads (h : a.Valid env enableSwap forceArith) (hnone : a.loaded = none)
    {newConfig : Doc} {s : SwitchWContexts Objs PHV} {cs' : List (Context Objs PHV)}
    (hloads : a.Loads env newConfig s)
    (hcalls : forContexts .success (fun cxtId c => c.loadNewConfig env cxtId newConfig) 0
      a.toSwitch.contexts = .returned .success cs')
    (hcs' : cs' = { a with loaded := some s }.toSwitch.contexts) :
    InFull env forceArith newConfig := by
  have hrunning := h.running.plain
  rw [toSwitch_of_none hnone] at hcalls
  rw [toSwitch_of_some rfl] at hcs'
  have hinit := hloads.2.2
  rw [h.fresh_eq] at hinit
  obtain ⟨-, hlength, hinits⟩ := initObjects_eq_returned.mp hinit
  obtain ⟨-, hcalls⟩ := forContexts_eq_returned.mp hcalls
  intro cxtId v hv
  have hlt := (List.getElem?_eq_some_iff.mp hv).1
  have hl := List.getElem?_eq_getElem (hlength ▸ hlt)
  have hc := List.getElem?_eq_getElem (h.length_running.symm ▸ hlt)
  obtain ⟨objects, hinit, heq⟩ := hinits cxtId v _ hv hl
  have hcall := hcalls cxtId _ _ hc
    (by rw [hcs']; exact List.getElem?_zipWith_eq_some.mpr ⟨_, _, hc, hl, rfl⟩)
  rw [Nat.zero_add, (hrunning.contexts _ (List.mem_of_getElem? hc)).loadNewConfig, hinit, heq,
    stage] at hcall
  have hobjects : objects = (initialised v objects : Context Objs PHV).p4objects := by
    simpa using congrArg Context.p4objectsRt (CallOutcome.returned.inj hcall).2
  refine ⟨objects, hinit, ?_⟩
  rintro rfl
  exact (congrArg P4Objects.phvFactory hobjects).symm

/-- A load that does what the specification allows is one of a document that initialises all
contexts in full. -/
theorem Valid.inFull_of_stepFollows (h : a.Valid env enableSwap forceArith)
    (hne : forceArith ≠ []) (henable : a.running.enableSwap = true) (hnone : a.loaded = none)
    {newConfig : Doc}
    (hfollows : StepFollows (exec env) (Step env) (Refines env enableSwap forceArith) a.toSwitch a
      (.loadNewConfig newConfig)) : InFull env forceArith newConfig := by
  obtain ⟨c, cs, hcs, hplain⟩ := h.exists_cons_of_none hne hnone
  have hexec : a.toSwitch.exec env (.loadNewConfig newConfig) = _ :=
    exec_loadNewConfig (enableSwap_toSwitch.trans henable) newConfig
  -- the first context has other objects afterwards, however the load ends
  have hchanged (cs' : List (Context Objs PHV))
      (hcs' : (∃ rc, forContexts .success (fun cxtId c => c.loadNewConfig env cxtId newConfig) 0
          a.toSwitch.contexts = .returned rc cs') ∨
        forContexts .success (fun cxtId c => c.loadNewConfig env cxtId newConfig) 0
          a.toSwitch.contexts = .threw cs') : cs' ≠ a.toSwitch.contexts := by
    rw [hcs] at hcs' ⊢
    refine forContexts_cons_ne (fun c' hc' => ?_) hcs'
    exact loadNewConfig_ne hplain hc'
  cases hcalls : forContexts .success (fun cxtId c => c.loadNewConfig env cxtId newConfig) 0
      a.toSwitch.contexts with
  | aborted =>
    rw [hcalls] at hexec
    by_cases hloads : ∃ s, a.Loads env newConfig s
    · obtain ⟨s, hs⟩ := hloads
      exact absurd (.inl ⟨s, hs, rfl, rfl⟩) (hfollows.2 hexec _ _)
    · exact absurd (.inr ⟨not_exists.mp hloads, by simp, rfl⟩)
        (hfollows.2 hexec .exception a)
  | threw cs' =>
    rw [hcalls] at hexec
    obtain ⟨a', hspec, hR, -⟩ := hfollows.1 _ _ hexec
    rcases hspec with ⟨s, -, hout, -⟩ | ⟨-, -, rfl⟩
    · cases hout
    · exact absurd (congrArg contexts hR) (hchanged cs' (.inr hcalls))
  | returned rc cs' =>
    rw [hcalls] at hexec
    obtain ⟨a', hspec, hR, -⟩ := hfollows.1 _ _ hexec
    rcases hspec with ⟨s, hloads, hout, rfl⟩ | ⟨-, -, rfl⟩
    · cases hout
      exact h.inFull_of_loads hnone hloads hcalls (congrArg contexts hR)
    · exact absurd (congrArg contexts hR) (hchanged cs' (.inl ⟨rc, hcalls⟩))

/-! ## Swaps -/

theorem Valid.swapOrdered_toSwitch (h : a.Valid env enableSwap forceArith) :
    ∀ c ∈ a.toSwitch.contexts, c.swapOrdered = a.ordered := by
  intro c hc
  cases hs : a.loaded with
  | none =>
    rw [toSwitch_of_none hs] at hc
    rw [(h.running.plain.contexts c hc).swapOrdered]
    by_contra hordered
    have hsome := h.ordered (Bool.eq_true_of_not_eq_false (Ne.symm hordered))
    rw [hs] at hsome
    cases hsome
  | some s =>
    rw [toSwitch_of_some hs] at hc
    obtain ⟨cxtId, hcxt⟩ := List.getElem?_of_mem hc
    obtain ⟨c₁, l, -, -, rfl⟩ := List.getElem?_zipWith_eq_some.mp hcxt
    rfl

theorem Valid.stepFollows_swapConfigs (h : a.Valid env enableSwap forceArith)
    (hne : forceArith ≠ []) :
    StepFollows (exec env) (Step env) (Refines env enableSwap forceArith) a.toSwitch a
      .swapConfigs := by
  by_cases henable : a.running.enableSwap = true
  case neg =>
    refine h.stepFollows_refused (.errorCode .configSwapDisabled) ?_ ?_
    · simp [exec, swapConfigs, henable, ofOutcome]
    · rw [Step, if_neg fun hcond => henable hcond.1]
      exact ⟨by simp, rfl⟩
  have hexec : a.toSwitch.exec env .swapConfigs = _ :=
    exec_swapConfigs (enableSwap_toSwitch.trans henable)
  cases hs : a.loaded with
  | none =>
    obtain ⟨c, cs, hcs, hplain⟩ := h.exists_cons_of_none hne hs
    refine h.stepFollows_refused (.errorCode .noOngoingSwap) ?_ ?_
    · have hcall : (.returned c.swapConfigs.1 c.swapConfigs.2 :
          CallOutcome SwapErrorCode (Context Objs PHV)) = .returned .noOngoingSwap c := by
        rw [Context.swapConfigs, if_pos (by rw [hplain.rt]; rfl)]
      rw [hexec, hcs, forContexts_cons_of_ne hcall (by decide), ← hcs]
      rfl
    · rw [Step, if_neg (by simp [hs])]
      exact ⟨by simp, rfl⟩
  | some s =>
    refine StepFollows.of_exec _ { a with ordered := true } (.errorCode .success) ?_ ?_
      ⟨(toSwitch_of_some (a := { a with ordered := true }) hs).symm, h.running, h.loaded,
        fun _ => hs ▸ rfl⟩
    · rw [hexec, toSwitch_of_some hs, forContexts_eq_returned.mpr]
      · rfl
      · refine ⟨by simp, fun cxtId c c' hc hc' => ?_⟩
        obtain ⟨c₁, l, hc₁, hl, rfl⟩ := List.getElem?_zipWith_eq_some.mp hc
        obtain ⟨c₂, l', hc₂, hl', rfl⟩ := List.getElem?_zipWith_eq_some.mp hc'
        obtain rfl : c₁ = c₂ := Option.some.inj (hc₁.symm.trans hc₂)
        obtain rfl : l = l' := Option.some.inj (hl.symm.trans hl')
        rfl
    · rw [Step, if_pos ⟨henable, hs ▸ rfl⟩]
      exact ⟨rfl, rfl⟩

/-- A context that has swapped is the one that was loaded. -/
theorem doSwap_stage {c l : Context Objs PHV} (hl : l.Plain) (hforce : c.forceArith = l.forceArith)
    (hidle : l.phvs = [] ∧ l.inUse = []) (hinUse : c.inUse = []) :
    (stage true c l).doSwap = l := by
  obtain ⟨p4objects, rt, swapOrdered, forceArith, phvs, inUse⟩ := l
  obtain ⟨rfl, rfl, -⟩ := hl
  obtain ⟨rfl, rfl⟩ := hidle
  subst hforce
  simp [stage, Context.doSwap, Context.rt, hinUse]

theorem Valid.stepFollows_doSwap (h : a.Valid env enableSwap forceArith) (hne : forceArith ≠ []) :
    StepFollows (exec env) (Step env) (Refines env enableSwap forceArith) a.toSwitch a .doSwap := by
  by_cases hcond : a.running.enableSwap = true ∧ a.ordered = true
  case neg =>
    refine h.stepFollows_refused (.swapDone 1) ?_ ?_
    · rw [exec, doSwap, if_pos]
      · rfl
      · by_contra hgoes
        simp only [enableSwap_toSwitch, Bool.or_eq_true, Bool.not_eq_true', not_or,
          Bool.not_eq_false, swapRequested, List.any_eq_true] at hgoes
        obtain ⟨henable, c, hc, hordered⟩ := hgoes
        exact hcond ⟨henable, h.swapOrdered_toSwitch c hc ▸ hordered⟩
    · rw [Step, if_neg hcond]
      exact ⟨rfl, rfl⟩
  obtain ⟨henable, hordered⟩ := hcond
  obtain ⟨s, hs⟩ := Option.isSome_iff_exists.mp (h.ordered hordered)
  have hcontexts := toSwitch_of_some hs
  rw [hordered] at hcontexts
  have hrequested : a.toSwitch.swapRequested = true := by
    obtain ⟨c, cs, hcs, -⟩ := h.exists_cons_of_some hne hs
    refine List.any_eq_true.mpr ⟨c, by rw [hcs]; simp, ?_⟩
    rw [h.swapOrdered_toSwitch c (by rw [hcs]; simp), hordered]
  have hgoes : ¬ (!a.toSwitch.enableSwap || !a.toSwitch.swapRequested) = true := by
    simp [henable, hrequested]
  -- it waits for the packets of all contexts
  have hwaits : (a.toSwitch.contexts.all fun c => !c.swapOrdered || c.inUse.isEmpty) = true ↔
      ∀ c ∈ a.running.contexts, c.inUse = [] := by
    rw [List.all_eq_true]
    constructor
    · intro hall c hc
      obtain ⟨cxtId, hc⟩ := List.getElem?_of_mem hc
      obtain ⟨l, hl, -⟩ := h.exists_loaded hs hc
      have hmem := (mem_toSwitch hs).mpr ⟨cxtId, c, l, hc, hl, rfl⟩
      simpa [stage, hordered] using hall _ hmem
    · intro hall d hd
      obtain ⟨cxtId, c, l, hc, -, rfl⟩ := (mem_toSwitch hs).mp hd
      simp [stage, hall c (List.mem_of_getElem? hc)]
  have hspec (out : SwapOut Out) (a' : SwapSpec Objs PHV) : a.Step env .doSwap out a' ↔
      (∀ c ∈ a.running.contexts, c.inUse = []) ∧ out = .swapDone 0 ∧
        ∃ s, a.loaded = some s ∧ a' = { running := s } := by
    rw [Step, if_pos ⟨henable, hordered⟩]
  by_cases hall : ∀ c ∈ a.running.contexts, c.inUse = []
  · refine StepFollows.of_exec s { running := s } (.swapDone 0) ?_
      ((hspec _ _).mpr ⟨hall, rfl, s, hs, rfl⟩) ⟨rfl, ?_, ?_, ?_⟩
    · rw [exec, doSwap, if_neg hgoes, if_pos (hwaits.mpr hall), Option.map_some, hcontexts]
      have hloaded := (h.loaded s hs).plain
      refine congrArg (fun s' => some (s', SwapOut.swapDone 0)) ?_
      refine SwitchWContexts.ext (h.running.plain.enableSwap.trans hloaded.enableSwap.symm) ?_
      refine List.ext_getElem? fun cxtId => ?_
      rw [List.getElem?_map, List.getElem?_zipWith]
      cases hc : a.running.contexts[cxtId]? with
      | none =>
        have hlength : a.running.contexts.length = s.contexts.length := by
          rw [h.length_running, h.length_loaded hs]
        rw [List.getElem?_eq_none_iff, hlength, ← List.getElem?_eq_none_iff] at hc
        rw [hc]
        rfl
      | some c =>
        obtain ⟨l, hl, hforce⟩ := h.exists_loaded hs hc
        have hmem := List.mem_of_getElem? hl
        rw [hl]
        exact congrArg some (doSwap_stage (hloaded.contexts l hmem) hforce.symm
          ((h.loaded s hs).idle l hmem) (hall c (List.mem_of_getElem? hc)))
    · exact (h.loaded s hs).mono fun _ _ => trivial
    · rintro s' ⟨⟩
    · rintro ⟨⟩
  · constructor
    · intro s' out hexec
      rw [exec, doSwap, if_neg hgoes, if_neg (mt hwaits.mp hall)] at hexec
      cases hexec
    · exact fun _ out a' hstep => hall ((hspec out a').mp hstep).1

/-! ## Packets and operations of the control plane -/

/-- Packets do not see what is loaded. -/
theorem stage_traffic (hop : ¬ op.IsControl) (ordered : Bool) (c l : Context Objs PHV) :
    (stage ordered c l).traffic env op =
      (c.traffic env op).map fun (c', out) => (stage ordered c' l, out) := by
  cases op with
  | newPacket cxtId =>
    simp only [Context.traffic, Option.map_some, Context.newPacket, stage]
    cases c.phvs.getLast? <;> rfl
  | process cxtId k packet =>
    simp only [Context.traffic, Context.process, stage]
    cases c.inUse[k]? <;> rfl
  | release cxtId k =>
    simp only [Context.traffic, Context.release, stage]
    cases c.inUse[k]? <;> rfl
  | control cxtId op => exact absurd trivial hop
  | _ => rfl

/-- Operations of the control plane go to what is loaded. -/
theorem stage_control (hop : op.IsControl) (ordered : Bool) (c : Context Objs PHV) (hl : l.Plain) :
    (stage ordered c l).traffic env op =
      (l.traffic env op).map fun (l', out) => (stage ordered c l', out) := by
  cases op with
  | control cxtId op =>
    simp [Context.traffic, Context.control, stage, Context.rt, Context.setRt, hl.rt]
  | _ => exact hop.elim

/-- A context of the switch is written. -/
theorem toSwitch_set {s : SwitchWContexts Objs PHV} (hs : a.loaded = some s) {cxtId : ℕ}
    {c l : Context Objs PHV} (c' l' : Context Objs PHV) (hc : a.running.contexts[cxtId]? = some c)
    (hl : s.contexts[cxtId]? = some l) :
    { a.toSwitch with contexts := a.toSwitch.contexts.set cxtId (stage a.ordered c' l') } =
      { a with
        running := { a.running with contexts := a.running.contexts.set cxtId c' }
        loaded := some { s with contexts := s.contexts.set cxtId l' } }.toSwitch := by
  rw [toSwitch_of_some hs, toSwitch_of_some rfl]
  refine SwitchWContexts.ext rfl (List.ext_getElem? fun i => ?_)
  have hltc := (List.getElem?_eq_some_iff.mp hc).1
  have hltl := (List.getElem?_eq_some_iff.mp hl).1
  by_cases hi : cxtId = i
  · subst hi
    rw [List.getElem?_set_self (by simp [hltc, hltl]), List.getElem?_zipWith,
      List.getElem?_set_self hltc, List.getElem?_set_self hltl]
  · simp only [List.getElem?_set_ne hi, List.getElem?_zipWith]

/-- With a switch loaded, packets go to the one that runs. -/
theorem Valid.traffic_packet (h : a.Valid env enableSwap forceArith)
    {s : SwitchWContexts Objs PHV} (hs : a.loaded = some s) (hop : ¬ op.IsControl) :
    a.toSwitch.traffic env op = (a.running.traffic env op).map fun r =>
      ({ a with running := r.1 }.toSwitch, r.2) := by
  rw [traffic, traffic]
  cases op.cxtId? with
  | none => rfl
  | some cxtId =>
    simp only [Option.bind_eq_bind, Option.bind_some]
    cases hc : a.running.contexts[cxtId]? with
    | none => rw [toSwitch_of_some hs, List.getElem?_zipWith, hc]; rfl
    | some c =>
      obtain ⟨l, hl, -⟩ := h.exists_loaded hs hc
      have hd : a.toSwitch.contexts[cxtId]? = some (stage a.ordered c l) := by
        rw [toSwitch_of_some hs, List.getElem?_zipWith, hc, hl]
      rw [hd, Option.bind_some, Option.bind_some, stage_traffic hop]
      cases c.traffic env op with
      | none => rfl
      | some r =>
        obtain ⟨c', out⟩ := r
        have hset := toSwitch_set hs c' l hc hl
        obtain ⟨hlt, rfl⟩ := List.getElem?_eq_some_iff.mp hl
        rw [List.set_getElem_self, ← hs] at hset
        exact congrArg (fun s' => some (s', out)) hset

/-- With a switch loaded, operations of the control plane go to it. -/
theorem Valid.traffic_control (h : a.Valid env enableSwap forceArith)
    {s : SwitchWContexts Objs PHV} (hs : a.loaded = some s) (hop : op.IsControl) :
    a.toSwitch.traffic env op = (s.traffic env op).map fun r =>
      ({ a with loaded := some r.1 }.toSwitch, r.2) := by
  rw [traffic, traffic]
  cases op.cxtId? with
  | none => rfl
  | some cxtId =>
    simp only [Option.bind_eq_bind, Option.bind_some]
    cases hl : s.contexts[cxtId]? with
    | none =>
      rw [toSwitch_of_some hs, List.getElem?_zipWith, hl]
      cases a.running.contexts[cxtId]? <;> rfl
    | some l =>
      have hlt : cxtId < a.running.contexts.length := by
        rw [h.length_running, ← h.length_loaded hs]
        exact (List.getElem?_eq_some_iff.mp hl).1
      have hc := List.getElem?_eq_getElem hlt
      have hd : a.toSwitch.contexts[cxtId]? =
          some (stage a.ordered a.running.contexts[cxtId] l) := by
        rw [toSwitch_of_some hs, List.getElem?_zipWith, hc, hl]
      have hplain := (h.loaded s hs).plain.contexts l (List.mem_of_getElem? hl)
      rw [hd, Option.bind_some, Option.bind_some, stage_control hop _ _ hplain]
      cases l.traffic env op with
      | none => rfl
      | some r =>
        obtain ⟨l', out⟩ := r
        have hset := toSwitch_set hs a.running.contexts[cxtId] l' hc hl
        rw [List.set_getElem_self] at hset
        exact congrArg (fun s' => some (s', out)) hset

theorem Valid.stepFollows_packet (h : a.Valid env enableSwap forceArith)
    (hop : ¬ op.IsControl) (hexec : ∀ s, exec env s op = traffic env s op)
    (hspec : ∀ out a', a.Step env op out a' ↔
      ∃ s', a.running.traffic env op = some (s', out) ∧ a' = { a with running := s' }) :
    StepFollows (exec env) (Step env) (Refines env enableSwap forceArith) a.toSwitch a op := by
  refine StepFollows.of_map _ (F := fun s' => { a with running := s' }.toSwitch) ?_ hspec
    fun s' out ht => ⟨rfl, h.running.traffic trivial ht, h.loaded, h.ordered⟩
  rw [hexec]
  cases hs : a.loaded with
  | some s => exact hs ▸ h.traffic_packet hs hop
  | none =>
    simp only [toSwitch, hs]
    exact Option.map_id.symm ▸ rfl

theorem Valid.stepFollows_control (h : a.Valid env enableSwap forceArith) (cxtId : ℕ) (op : Ctl) :
    StepFollows (exec env) (Step env) (Refines env enableSwap forceArith) a.toSwitch a
      (.control cxtId op) := by
  cases hs : a.loaded with
  | some s =>
    refine StepFollows.of_map (s.traffic env (.control cxtId op))
      (F := fun s' => { a with loaded := some s' }.toSwitch)
      (G := fun s' => { a with loaded := some s' }) ?_ (fun out a' => ?_)
      fun s' out ht => ⟨rfl, h.running, ?_, fun _ => rfl⟩
    · exact h.traffic_control hs (show SwapOp.IsControl (.control cxtId op) from trivial)
    · simp only [Step]
      split
      · cases hs.symm.trans ‹_›
        exact Iff.rfl
      · cases hs.symm.trans ‹_›
    · rintro s'' ⟨⟩
      exact (h.loaded s hs).traffic (show SwapOp.IsControl (.control cxtId op) from trivial) ht
  | none =>
    refine StepFollows.of_map (a.running.traffic env (.control cxtId op))
      (F := fun s' => { a with running := s' }.toSwitch) (G := fun s' => { a with running := s' })
      ?_ (fun out a' => ?_)
      fun s' out ht => ⟨rfl, h.running.traffic trivial ht, h.loaded, h.ordered⟩
    · simp only [toSwitch, hs]
      exact Option.map_id.symm ▸ rfl
    · simp only [Step]
      split
      · cases hs.symm.trans ‹_›
      · exact Iff.rfl

/-- One call does what the specification allows exactly when it loads a document in full. -/
theorem Valid.stepFollows_iff (h : a.Valid env enableSwap forceArith) (hne : forceArith ≠ [])
    (op : SwapOp Doc Pkt Ctl) :
    a.toSwitch.LoadsInFull env op ↔
      StepFollows (exec env) (Step env) (Refines env enableSwap forceArith) a.toSwitch a op := by
  cases op with
  | loadNewConfig newConfig =>
    by_cases hgoes : a.running.enableSwap = true ∧ a.loaded = none
    · obtain ⟨henable, hnone⟩ := hgoes
      rw [h.loadsInFull_iff henable hnone]
      exact ⟨h.stepFollows_load henable hnone, h.inFull_of_stepFollows hne henable hnone⟩
    · refine iff_of_true ?_ (h.stepFollows_load_refused hne hgoes)
      intro henable hrt
      rw [enableSwap_toSwitch] at henable
      obtain ⟨s, hs⟩ := Option.ne_none_iff_exists'.mp fun hnone => hgoes ⟨henable, hnone⟩
      obtain ⟨c, cs, hcs, hc⟩ := h.exists_cons_of_some hne hs
      rw [hrt c (by rw [hcs]; simp)] at hc
      cases hc
  | swapConfigs => exact iff_of_true trivial (h.stepFollows_swapConfigs hne)
  | doSwap => exact iff_of_true trivial (h.stepFollows_doSwap hne)
  | control cxtId op => exact iff_of_true trivial (h.stepFollows_control cxtId op)
  | newPacket cxtId =>
    exact iff_of_true trivial (h.stepFollows_packet id (fun _ => rfl) fun _ _ => Iff.rfl)
  | process cxtId k packet =>
    exact iff_of_true trivial (h.stepFollows_packet id (fun _ => rfl) fun _ _ => Iff.rfl)
  | release cxtId k =>
    exact iff_of_true trivial (h.stepFollows_packet id (fun _ => rfl) fun _ _ => Iff.rfl)

end SwapSpec

/-- **Configurations are swapped as specified exactly when every load is one in full.**  A switch
with at least one context that has been started with a document does, in a run of loads, swap
requests, swaps, packets and operations of the control plane, what two plain switches do that are
started with their documents in full, if and only if every document that it comes to load
initialises all contexts with status `0` and leaves no arithmetic to be forced. -/
theorem SwitchWContexts.follows_of_loadsInFull {enableSwap : Bool} {forceArith : List Bool}
    (hne : forceArith ≠ []) {doc : Doc} {s₀ : SwitchWContexts Objs PHV}
    (hstart : (create env enableSwap forceArith).initObjects env doc = .returned 0 s₀)
    (ops : List (SwapOp Doc Pkt Ctl)) :
    RunMeets (fun s op => (exec env s op).map Prod.fst) (LoadsInFull env) s₀ ops ↔
      Follows (exec env) (SwapSpec.Step env) (SwapSpec.Refines env enableSwap forceArith) s₀
        { running := s₀ } ops := by
  refine follows_iff (fun s a op hR => ?_) ⟨rfl, ⟨doc, s₀, [], hstart, rfl, ?_⟩, ?_, ?_⟩ ops
  · obtain ⟨rfl, hvalid⟩ := hR
    exact hvalid.stepFollows_iff hne op
  · exact fun op hop => absurd hop List.not_mem_nil
  · rintro s ⟨⟩
  · rintro ⟨⟩

/-- Documents that tell the status of their initialisation, objects that remember it, and packets
that give it out. -/
def statusEnv : P4Env Bool Bool Unit Unit Unit Bool where
  empty := ⟨⟨[]⟩, false⟩
  initObjects := fun _ _ doc => .returned (if doc then 0 else 1) ⟨⟨[⟨2, {0, 1}⟩]⟩, doc⟩
  create := fun _ => ()
  process := fun objects phv _ => (objects.objs, phv, objects.objs)
  control := fun objects _ => (objects.objs, objects.objs)

/-- Two contexts that run under the document `true`, of which the second forces arithmetic. -/
def statusSwitch : SwitchWContexts Bool Unit where
  enableSwap := true
  contexts := [SwitchWContexts.initialised false ⟨⟨[⟨2, {0, 1}⟩]⟩, true⟩,
    SwitchWContexts.initialised true ⟨⟨[⟨2, {0, 1}⟩]⟩, true⟩]

theorem SwitchWContexts.follows_of_loadsInFull_swap :
    Follows (exec statusEnv) (SwapSpec.Step statusEnv) (SwapSpec.Refines statusEnv true [false, true])
      statusSwitch { running := statusSwitch }
      [.loadNewConfig true, .newPacket 1, .process 1 0 (), .swapConfigs, .release 1 0, .doSwap] := by
  have hstart : (create statusEnv true [false, true]).initObjects statusEnv true =
      .returned 0 statusSwitch := rfl
  refine (follows_of_loadsInFull (by decide) hstart _).mp ⟨?_, fun s' _ => ?_⟩
  · intro _ _ cxtId c _
    exact ⟨⟨⟨[⟨2, {0, 1}⟩]⟩, true⟩, rfl, fun _ => by decide⟩
  · refine (RunMeets.of_forall (P := fun op => ∀ s, LoadsInFull statusEnv s op) ?_).imp
      fun s op h => h s
    simp [LoadsInFull]

/-- A document whose initialisation fails is loaded with success, swapped in, and packets are
processed under it. -/
theorem SwitchWContexts.loads_failed_document : ∃ s s' : SwitchWContexts Bool Unit,
    statusEnv.initObjects 0 statusEnv.empty false = .returned 1 ⟨⟨[⟨2, {0, 1}⟩]⟩, false⟩ ∧
    (exec statusEnv statusSwitch (.loadNewConfig false)).map Prod.snd = some (.errorCode .success) ∧
    runFrom (fun s op => (exec statusEnv s op).map Prod.fst) statusSwitch
      [.loadNewConfig false, .swapConfigs, .doSwap, .newPacket 0] = some s ∧
    exec statusEnv s (.process 0 0 ()) = some (s', .output false) :=
  ⟨_, _, rfl, rfl, rfl, rfl⟩

end Bm
