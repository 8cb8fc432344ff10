/-
# Runs of a partial step function

A system is given by a step function that may abort (`none`): a failed
assertion or an out-of-range access ends the process.  A run applies a list of
operations.  The file packages the inductions over runs once:

* `runFrom_invariant`: what every step keeps holds at the end of every run;
* `runFrom_of_meets`: the same when only the steps that meet a condition keep
  it, together with progress (no step of such a run aborts);
* `RunMeets.of_invariant`: what a condition gives for one step, it gives for every
  step of a run;
* `exists_runFrom_iff`: the condition is exact for runs when it is for steps;
* `runFrom_simulation`: a relation to an abstract system, kept by every step
  that meets the condition, holds at the end of the run.
-/
import Mathlib

variable {σ ι τ : Type*}

/-- Apply the operations in order; `none` when one of them aborts. -/
def runFrom (step : σ → ι → Option σ) : σ → List ι → Option σ
  | s, [] => some s
  | s, op :: ops => (step s op).bind fun s' => runFrom step s' ops

/-- Every operation of the run meets `C` in the state it is applied to. -/
def RunMeets (step : σ → ι → Option σ) (C : σ → ι → Prop) : σ → List ι → Prop
  | _, [] => True
  | s, op :: ops => C s op ∧ ∀ s', step s op = some s' → RunMeets step C s' ops

/-- Whether a given run meets a decidable condition can be computed. -/
def RunMeets.decide (step : σ → ι → Option σ) (C : σ → ι → Prop)
    [hC : ∀ s op, Decidable (C s op)] : ∀ s ops, Decidable (RunMeets step C s ops)
  | _, [] => .isTrue trivial
  | s, op :: ops =>
      match hs : step s op with
      | none => decidable_of_iff (C s op) (by simp [RunMeets, hs])
      | some s' =>
          have := RunMeets.decide step C s' ops
          decidable_of_iff (C s op ∧ RunMeets step C s' ops) (by simp [RunMeets, hs])

instance (step : σ → ι → Option σ) (C : σ → ι → Prop) [∀ s op, Decidable (C s op)] (s : σ)
    (ops : List ι) : Decidable (RunMeets step C s ops) := RunMeets.decide step C s ops

@[simp] theorem runFrom_nil (step : σ → ι → Option σ) (s : σ) :
    runFrom step s [] = some s := rfl

theorem runFrom_cons_eq_some {step : σ → ι → Option σ} {s t : σ} {op : ι} {ops : List ι} :
    runFrom step s (op :: ops) = some t ↔
      ∃ s', step s op = some s' ∧ runFrom step s' ops = some t := by
  simp [runFrom, Option.bind_eq_some_iff]

theorem runFrom_append {step : σ → ι → Option σ} {s : σ} (ops ops' : List ι) :
    runFrom step s (ops ++ ops') =
      (runFrom step s ops).bind fun t => runFrom step t ops' := by
  induction ops generalizing s with
  | nil => rfl
  | cons op ops ih =>
    rw [List.cons_append, runFrom, runFrom, Option.bind_assoc]
    exact congrArg _ (funext fun s' => ih)

theorem RunMeets.imp {step : σ → ι → Option σ} {C C' : σ → ι → Prop}
    (h : ∀ s op, C s op → C' s op) {s : σ} {ops : List ι} (hC : RunMeets step C s ops) :
    RunMeets step C' s ops := by
  induction ops generalizing s with
  | nil => trivial
  | cons op ops ih => exact ⟨h s op hC.1, fun s' hs' => ih (hC.2 s' hs')⟩

/-- A condition on the operations alone. -/
theorem RunMeets.of_forall {step : σ → ι → Option σ} {P : ι → Prop} {s : σ} {ops : List ι}
    (hP : ∀ op ∈ ops, P op) : RunMeets step (fun _ op => P op) s ops := by
  induction ops generalizing s with
  | nil => trivial
  | cons op ops ih =>
    exact ⟨hP op (by simp), fun s' _ => ih fun op' hop' => hP op' (by simp [hop'])⟩

/-- A condition on the operations alone joins a condition on the steps. -/
theorem RunMeets.and_forall {step : σ → ι → Option σ} {C : σ → ι → Prop} {P : ι → Prop}
    {s : σ} {ops : List ι} (hC : RunMeets step C s ops) (hP : ∀ op ∈ ops, P op) :
    RunMeets step (fun s op => P op ∧ C s op) s ops := by
  induction ops generalizing s with
  | nil => trivial
  | cons op ops ih =>
    exact ⟨⟨hP op (by simp), hC.1⟩, fun s' hs' =>
      ih (hC.2 s' hs') fun op' hop' => hP op' (by simp [hop'])⟩

/-- **Invariant rule.**  What every step keeps holds at the end of every run. -/
theorem runFrom_invariant {step : σ → ι → Option σ} {I : σ → Prop}
    (hstep : ∀ s op s', I s → step s op = some s' → I s')
    {s t : σ} {ops : List ι} (hs : I s) (hrun : runFrom step s ops = some t) : I t := by
  induction ops generalizing s with
  | nil =>
    obtain rfl : s = t := by simpa using hrun
    exact hs
  | cons op ops ih =>
    obtain ⟨s', hs', hrun'⟩ := runFrom_cons_eq_some.mp hrun
    exact ih (hstep s op s' hs hs') hrun'

/-- The same for a run whose steps all meet `C`, when only those keep `I`. -/
theorem runFrom_invariant_of_meets {step : σ → ι → Option σ} {I : σ → Prop} {C : σ → ι → Prop}
    (hstep : ∀ s op s', I s → C s op → step s op = some s' → I s')
    {s t : σ} {ops : List ι} (hs : I s) (hC : RunMeets step C s ops)
    (hrun : runFrom step s ops = some t) : I t := by
  induction ops generalizing s with
  | nil =>
    obtain rfl : s = t := by simpa using hrun
    exact hs
  | cons op ops ih =>
    obtain ⟨s', hs', hrun'⟩ := runFrom_cons_eq_some.mp hrun
    exact ih (hstep s op s' hs hC.1 hs') (hC.2 s' hs') hrun'

/-- **Conditional invariant rule**, with progress: a run whose steps all meet
`C` does not abort, and ends in a state that has the invariant. -/
theorem runFrom_of_meets {step : σ → ι → Option σ} {I : σ → Prop} {C : σ → ι → Prop}
    (hstep : ∀ s op, I s → C s op → ∃ s', step s op = some s' ∧ I s')
    {s : σ} {ops : List ι} (hs : I s) (hC : RunMeets step C s ops) :
    ∃ t, runFrom step s ops = some t ∧ I t := by
  induction ops generalizing s with
  | nil => exact ⟨s, rfl, hs⟩
  | cons op ops ih =>
    obtain ⟨s', hs', hinv⟩ := hstep s op hs hC.1
    obtain ⟨t, ht, hinvt⟩ := ih hinv (hC.2 s' hs')
    exact ⟨t, runFrom_cons_eq_some.mpr ⟨s', hs', ht⟩, hinvt⟩

/-- A run whose steps all meet `C` meets `P` at every step, when `C` keeps the invariant under which
it gives `P`. -/
theorem RunMeets.of_invariant {step : σ → ι → Option σ} {I : σ → Prop} {C P : σ → ι → Prop}
    (hstep : ∀ s op, I s → C s op → P s op ∧ ∀ s', step s op = some s' → I s')
    {s : σ} {ops : List ι} (hs : I s) (hC : RunMeets step C s ops) : RunMeets step P s ops := by
  induction ops generalizing s with
  | nil => trivial
  | cons op ops ih =>
    obtain ⟨hP, hI⟩ := hstep s op hs hC.1
    exact ⟨hP, fun s' hs' => ih (hI s' hs') (hC.2 s' hs')⟩

/-- Two conditions that are the same under an invariant that one of them keeps are the same for
runs. -/
theorem RunMeets.iff_of_invariant {step : σ → ι → Option σ} {I : σ → Prop} {C P : σ → ι → Prop}
    (hiff : ∀ s op, I s → (C s op ↔ P s op))
    (hstep : ∀ s op s', I s → C s op → step s op = some s' → I s')
    {s : σ} {ops : List ι} (hs : I s) : RunMeets step C s ops ↔ RunMeets step P s ops :=
  ⟨RunMeets.of_invariant (fun s op hI hop =>
      ⟨(hiff s op hI).mp hop, fun s' hs' => hstep s op s' hI hop hs'⟩) hs,
    RunMeets.of_invariant (fun s op hI hop =>
      ⟨(hiff s op hI).mpr hop, fun s' hs' => hstep s op s' hI ((hiff s op hI).mpr hop) hs'⟩) hs⟩

/-- **Exact condition rule.**  If, under an invariant, the steps that go through are those that
meet `C`, then so it is for runs. -/
theorem exists_runFrom_iff {step : σ → ι → Option σ} {I : σ → Prop} {C : σ → ι → Prop}
    (hstep : ∀ s op s', I s → step s op = some s' → I s')
    (hC : ∀ s op, I s → ((∃ s', step s op = some s') ↔ C s op))
    {s : σ} {ops : List ι} (hs : I s) :
    (∃ t, runFrom step s ops = some t) ↔ RunMeets step C s ops := by
  induction ops generalizing s with
  | nil => exact iff_of_true ⟨s, rfl⟩ trivial
  | cons op ops ih =>
    constructor
    · rintro ⟨t, ht⟩
      obtain ⟨s', hs', hrun⟩ := runFrom_cons_eq_some.mp ht
      refine ⟨(hC s op hs).mp ⟨s', hs'⟩, fun s'' hs'' => ?_⟩
      obtain rfl : s' = s'' := Option.some.inj (hs'.symm.trans hs'')
      exact (ih (hstep s op s' hs hs')).mp ⟨t, hrun⟩
    · rintro ⟨hop, hrest⟩
      obtain ⟨s', hs'⟩ := (hC s op hs).mpr hop
      obtain ⟨t, ht⟩ := (ih (hstep s op s' hs hs')).mpr (hrest s' hs')
      exact ⟨t, runFrom_cons_eq_some.mpr ⟨s', hs', ht⟩⟩

/-- **Conditional simulation rule.**  If every step that meets `C` goes through
and keeps the relation `R` to the abstract state, then a run whose steps all
meet `C` goes through and ends related to the abstract run. -/
theorem runFrom_simulation {step : σ → ι → Option σ} (astep : τ → ι → τ)
    {R : σ → τ → Prop} {C : σ → ι → Prop}
    (hstep : ∀ s a op, R s a → C s op → ∃ s', step s op = some s' ∧ R s' (astep a op))
    {s : σ} {a : τ} {ops : List ι} (hs : R s a) (hC : RunMeets step C s ops) :
    ∃ t, runFrom step s ops = some t ∧ R t (ops.foldl astep a) := by
  induction ops generalizing s a with
  | nil => exact ⟨s, rfl, hs⟩
  | cons op ops ih =>
    obtain ⟨s', hs', hR⟩ := hstep s a op hs hC.1
    obtain ⟨t, ht, hRt⟩ := ih hR (hC.2 s' hs')
    exact ⟨t, runFrom_cons_eq_some.mpr ⟨s', hs', ht⟩, hRt⟩
