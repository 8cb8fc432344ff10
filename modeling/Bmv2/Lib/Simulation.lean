/-
# Systems that follow a specification

A system takes an operation, gives an output and moves to a new state; `none` means that it
cannot take the operation now.  A specification says which outputs and new states it allows.
`Follows` says that along a run the system does what the specification allows, in states that
stay related, and takes every operation that the specification takes.

`follows_iff` lifts an exact condition for one step to runs, and `Follows.of_meets` a sufficient
one.
-/
import Bmv2.Lib.Runs

variable {σ τ ι ο : Type*}

/-- One step that the specification allows, from related states to related states. -/
def StepFollows (exec : σ → ι → Option (σ × ο)) (Spec : τ → ι → ο → τ → Prop) (R : σ → τ → Prop)
    (s : σ) (a : τ) (op : ι) : Prop :=
  (∀ s' out, exec s op = some (s', out) → ∃ a', Spec a op out a' ∧ R s' a') ∧
    (exec s op = none → ∀ out a', ¬ Spec a op out a')

theorem StepFollows.of_exec {exec : σ → ι → Option (σ × ο)} {Spec : τ → ι → ο → τ → Prop}
    {R : σ → τ → Prop} {s : σ} {a : τ} {op : ι} (s' : σ) (a' : τ) (out : ο)
    (h : exec s op = some (s', out))
    (hspec : Spec a op out a') (hR : R s' a') : StepFollows exec Spec R s a op := by
  constructor
  · intro s'' out' hexec
    cases h.symm.trans hexec
    exact ⟨a', hspec, hR⟩
  · intro hnone
    cases h.symm.trans hnone

/-- The step of the system and that of the specification come from one step of a part of both. -/
theorem StepFollows.of_map {ξ : Type*} {exec : σ → ι → Option (σ × ο)}
    {Spec : τ → ι → ο → τ → Prop} {R : σ → τ → Prop} {s : σ} {a : τ} {op : ι}
    (part : Option (ξ × ο)) {F : ξ → σ} {G : ξ → τ}
    (hexec : exec s op = part.map fun r => (F r.1, r.2))
    (hspec : ∀ out a', Spec a op out a' ↔ ∃ x, part = some (x, out) ∧ a' = G x)
    (hR : ∀ x out, part = some (x, out) → R (F x) (G x)) : StepFollows exec Spec R s a op := by
  constructor
  · intro s' out h
    rw [hexec, Option.map_eq_some_iff] at h
    obtain ⟨⟨x, out'⟩, hpart, heq⟩ := h
    cases heq
    exact ⟨G x, (hspec out' (G x)).mpr ⟨x, hpart, rfl⟩, hR x out' hpart⟩
  · intro h out a' hstep
    rw [hexec, Option.map_eq_none_iff] at h
    obtain ⟨x, hpart, -⟩ := (hspec out a').mp hstep
    cases h.symm.trans hpart

/-- Along the run every step is one that the specification allows. -/
def Follows (exec : σ → ι → Option (σ × ο)) (Spec : τ → ι → ο → τ → Prop) (R : σ → τ → Prop) :
    σ → τ → List ι → Prop
  | _, _, [] => True
  | s, a, op :: ops =>
      (∀ s' out, exec s op = some (s', out) →
        ∃ a', Spec a op out a' ∧ R s' a' ∧ Follows exec Spec R s' a' ops) ∧
      (exec s op = none → ∀ out a', ¬ Spec a op out a')

variable {exec : σ → ι → Option (σ × ο)} {Spec : τ → ι → ο → τ → Prop} {R : σ → τ → Prop}
  {C : σ → ι → Prop}

/-- **Exact condition rule.**  If in related states the steps that follow the specification are
those that meet `C`, then so it is for runs. -/
theorem follows_iff (hstep : ∀ s a op, R s a → (C s op ↔ StepFollows exec Spec R s a op))
    {s : σ} {a : τ} (hR : R s a) (ops : List ι) :
    RunMeets (fun s op => (exec s op).map Prod.fst) C s ops ↔ Follows exec Spec R s a ops := by
  induction ops generalizing s a with
  | nil => exact Iff.rfl
  | cons op ops ih =>
    constructor
    · rintro ⟨hC, hrest⟩
      obtain ⟨hsome, hnone⟩ := (hstep s a op hR).mp hC
      refine ⟨fun s' out hexec => ?_, hnone⟩
      obtain ⟨a', hspec, hR'⟩ := hsome s' out hexec
      exact ⟨a', hspec, hR', (ih hR').mp (hrest s' (by simp only [hexec, Option.map_some]))⟩
    · rintro ⟨hsome, hnone⟩
      have hstepFollows : StepFollows exec Spec R s a op := by
        refine ⟨fun s' out hexec => ?_, hnone⟩
        obtain ⟨a', hspec, hR', -⟩ := hsome s' out hexec
        exact ⟨a', hspec, hR'⟩
      refine ⟨(hstep s a op hR).mpr hstepFollows, fun s' hs' => ?_⟩
      obtain ⟨⟨s'', out⟩, hexec, rfl⟩ := Option.map_eq_some_iff.mp hs'
      obtain ⟨a', -, hR', hfollows⟩ := hsome s'' out hexec
      exact (ih hR').mpr hfollows

/-- **Sufficient condition rule.**  A run whose steps all meet a condition under which a step
follows the specification follows it. -/
theorem Follows.of_meets (hstep : ∀ s a op, R s a → C s op → StepFollows exec Spec R s a op)
    {s : σ} {a : τ} {ops : List ι} (hR : R s a)
    (hC : RunMeets (fun s op => (exec s op).map Prod.fst) C s ops) :
    Follows exec Spec R s a ops := by
  induction ops generalizing s a with
  | nil => trivial
  | cons op ops ih =>
    obtain ⟨hsome, hnone⟩ := hstep s a op hR hC.1
    refine ⟨fun s' out hexec => ?_, hnone⟩
    obtain ⟨a', hspec, hR'⟩ := hsome s' out hexec
    exact ⟨a', hspec, hR', ih hR' (hC.2 s' (by simp only [hexec, Option.map_some]))⟩

/-- The states are related by less. -/
theorem Follows.mono {R' : σ → τ → Prop} (hR : ∀ s a, R s a → R' s a) {s : σ} {a : τ}
    {ops : List ι} (h : Follows exec Spec R s a ops) : Follows exec Spec R' s a ops := by
  induction ops generalizing s a with
  | nil => trivial
  | cons op ops ih =>
    refine ⟨fun s' out hexec => ?_, h.2⟩
    obtain ⟨a', hspec, hR', hrest⟩ := h.1 s' out hexec
    exact ⟨a', hspec, hR s' a' hR', ih hrest⟩

/-- A system that follows a specification which takes every operation goes through. -/
theorem Follows.exists_run (htotal : ∀ a op, ∃ out a', Spec a op out a') {s : σ} {a : τ}
    {ops : List ι} (h : Follows exec Spec R s a ops) :
    ∃ t, runFrom (fun s op => (exec s op).map Prod.fst) s ops = some t := by
  induction ops generalizing s a with
  | nil => exact ⟨s, rfl⟩
  | cons op ops ih =>
    cases hexec : exec s op with
    | none =>
      obtain ⟨out, a', hspec⟩ := htotal a op
      exact absurd hspec (h.2 hexec out a')
    | some r =>
      obtain ⟨a', -, -, hrest⟩ := h.1 r.1 r.2 hexec
      obtain ⟨t, ht⟩ := ih hrest
      refine ⟨t, runFrom_cons_eq_some.mpr ⟨r.1, ?_, ht⟩⟩
      rw [hexec, Option.map_some]
