/-
# Faults

A computation that ends in a result or in a fault.  `Avoids bad` says that it
does not end in one of the faults `bad`; other faults are allowed.

* `avoids_bind`: for a sequence;
* `avoids_foldlM_iff`: for a loop, when the condition for each of its steps is
  known;
* `loopMeets_append`: for a loop over two lists, when its outcome matters as well.
-/
import Mathlib

variable {ε α β σ ι : Type}

/-- The computation does not end in a fault of the given kind. -/
def Avoids (bad : ε → Prop) : Except ε α → Prop
  | .ok _ => True
  | .error e => ¬ bad e

@[simp] theorem avoids_ok (bad : ε → Prop) (a : α) : Avoids bad (.ok a) := trivial

@[simp] theorem avoids_pure (bad : ε → Prop) (a : α) : Avoids bad (pure a : Except ε α) := trivial

@[simp] theorem avoids_error (bad : ε → Prop) (e : ε) :
    Avoids bad (.error e : Except ε α) ↔ ¬ bad e := Iff.rfl

theorem avoids_bind {bad : ε → Prop} (x : Except ε α) (f : α → Except ε β) :
    Avoids bad (x >>= f) ↔ Avoids bad x ∧ ∀ a, x = .ok a → Avoids bad (f a) := by
  cases x with
  | ok a =>
    constructor
    · intro h
      refine ⟨trivial, fun a' ha => ?_⟩
      obtain rfl := Except.ok.inj ha
      exact h
    · intro h
      exact h.2 a rfl
  | error e =>
    constructor
    · intro h
      exact ⟨h, fun a ha => by cases ha⟩
    · intro h
      exact h.1

theorem bind_eq_ok {x : Except ε α} {f : α → Except ε β} {b : β} :
    x >>= f = .ok b ↔ ∃ a, x = .ok a ∧ f a = .ok b := by
  cases x with
  | ok a =>
    constructor
    · intro h
      exact ⟨a, rfl, h⟩
    · rintro ⟨a', ha, h⟩
      obtain rfl := Except.ok.inj ha
      exact h
  | error e =>
    constructor
    · intro h
      cases h
    · rintro ⟨a, ha, -⟩
      cases ha

/-- A missing value as a fault. -/
def orFault (e : ε) : Option α → Except ε α
  | some a => .ok a
  | none => .error e

theorem orFault_eq_ok {e : ε} {x : Option α} {a : α} : orFault e x = .ok a ↔ x = some a := by
  cases x with
  | none => exact iff_of_false (fun h => by cases h) (fun h => by cases h)
  | some b => exact ⟨fun h => congrArg some (Except.ok.inj h), fun h => by cases h; rfl⟩

theorem avoids_orFault {bad : ε → Prop} {e : ε} {x : Option α} :
    Avoids bad (orFault e x) ↔ bad e → ∃ a, x = some a := by
  cases x with
  | none => simp [orFault]
  | some a => simp [orFault]

/-- Every step of a loop meets `C` in the state in which it is taken. -/
def StepsMeet (step : σ → ι → Except ε σ) (C : σ → ι → Prop) : σ → List ι → Prop
  | _, [] => True
  | s, op :: ops => C s op ∧ ∀ s', step s op = .ok s' → StepsMeet step C s' ops

/-- **Loop rule.**  A loop avoids the faults exactly when all of its steps meet the condition that
is exact for one step. -/
theorem avoids_foldlM_iff {bad : ε → Prop} {step : σ → ι → Except ε σ} {I : σ → Prop}
    {C : σ → ι → Prop} (hstep : ∀ s op s', I s → step s op = .ok s' → I s')
    (hC : ∀ s op, I s → (Avoids bad (step s op) ↔ C s op)) {s : σ} {ops : List ι} (hs : I s) :
    Avoids bad (ops.foldlM step s) ↔ StepsMeet step C s ops := by
  induction ops generalizing s with
  | nil => exact iff_of_true trivial trivial
  | cons op ops ih =>
    rw [List.foldlM_cons, avoids_bind, hC s op hs]
    refine and_congr_right fun _ => forall_congr' fun s' => forall_congr' fun hs' => ?_
    exact ih (hstep s op s' hs hs')

/-- What every step keeps holds at the end of a loop. -/
theorem foldlM_invariant {step : σ → ι → Except ε σ} {I : σ → Prop}
    (hstep : ∀ s op s', I s → step s op = .ok s' → I s') {s t : σ} {ops : List ι} (hs : I s)
    (hrun : ops.foldlM step s = .ok t) : I t := by
  induction ops generalizing s with
  | nil =>
    obtain rfl : s = t := Except.ok.inj hrun
    exact hs
  | cons op ops ih =>
    rw [List.foldlM_cons] at hrun
    obtain ⟨s', hs', hrun⟩ := bind_eq_ok.mp hrun
    exact ih (hstep s op s' hs hs') hrun

/-- The same for a loop whose steps all meet `C`, when only those keep `I`. -/
theorem foldlM_invariant_of_meets {step : σ → ι → Except ε σ} {I : σ → Prop} {C : σ → ι → Prop}
    (hstep : ∀ s op s', I s → C s op → step s op = .ok s' → I s') {s t : σ} {ops : List ι}
    (hs : I s) (hmeet : StepsMeet step C s ops) (hrun : ops.foldlM step s = .ok t) : I t := by
  induction ops generalizing s with
  | nil =>
    obtain rfl : s = t := Except.ok.inj hrun
    exact hs
  | cons op ops ih =>
    rw [List.foldlM_cons] at hrun
    obtain ⟨s', hs', hrun⟩ := bind_eq_ok.mp hrun
    exact ih (hstep s op s' hs hmeet.1 hs') (hmeet.2 s' hs') hrun

/-- **Progress.**  A loop goes through when all of its steps meet a condition under which a step
does. -/
theorem exists_foldlM_of_meets {step : σ → ι → Except ε σ} {I : σ → Prop} {C : σ → ι → Prop}
    (hstep : ∀ s op s', I s → step s op = .ok s' → I s')
    (hC : ∀ s op, I s → C s op → ∃ s', step s op = .ok s') {s : σ} {ops : List ι} (hs : I s)
    (hmeet : StepsMeet step C s ops) : ∃ t, ops.foldlM step s = .ok t := by
  induction ops generalizing s with
  | nil => exact ⟨s, rfl⟩
  | cons op ops ih =>
    obtain ⟨s', hs'⟩ := hC s op hs hmeet.1
    obtain ⟨t, ht⟩ := ih (hstep s op s' hs hs') (hmeet.2 s' hs')
    refine ⟨t, ?_⟩
    rw [List.foldlM_cons]
    exact bind_eq_ok.mpr ⟨s', hs', ht⟩

/-! ## Loops with their outcomes -/

/-- A computation ends in a state with `R` or in a fault with `E`. -/
def Outcome (E : ε → Prop) (R : σ → Prop) : Except ε σ → Prop
  | .ok s => R s
  | .error e => E e

theorem Outcome.mono {E E' : ε → Prop} {R R' : σ → Prop} (hE : ∀ e, E e → E' e)
    (hR : ∀ s, R s → R' s) {x : Except ε σ} (h : Outcome E R x) : Outcome E' R' x := by
  cases x with
  | ok s => exact hR s h
  | error e => exact hE e h

/-- Every step of a loop meets `C`, and the loop ends in a state with `R` or in a fault with `E`. -/
def LoopMeets (step : σ → ι → Except ε σ) (C : σ → ι → Prop) (E : ε → Prop) (s : σ) (ops : List ι)
    (R : σ → Prop) : Prop :=
  StepsMeet step C s ops ∧ Outcome E R (ops.foldlM step s)

section LoopMeets

variable {step : σ → ι → Except ε σ} {C : σ → ι → Prop} {E E' : ε → Prop} {R R' : σ → Prop}

theorem loopMeets_nil {s : σ} : LoopMeets step C E s [] R ↔ R s := and_iff_right trivial

theorem loopMeets_cons {s : σ} {op : ι} {ops : List ι} :
    LoopMeets step C E s (op :: ops) R ↔
      C s op ∧ Outcome E (fun s' => LoopMeets step C E s' ops R) (step s op) := by
  unfold LoopMeets
  rw [List.foldlM_cons, StepsMeet]
  cases hop : step s op with
  | error e => exact ⟨fun h => ⟨h.1.1, h.2⟩, fun h => ⟨⟨h.1, fun s' hs' => by cases hs'⟩, h.2⟩⟩
  | ok t =>
    constructor
    · intro h
      exact ⟨h.1.1, h.1.2 t rfl, h.2⟩
    · intro h
      refine ⟨⟨h.1, fun s' hs' => ?_⟩, h.2.2⟩
      obtain rfl := Except.ok.inj hs'
      exact h.2.1

/-- **Sequence rule** for a loop. -/
theorem loopMeets_append {s : σ} {xs ys : List ι} :
    LoopMeets step C E s (xs ++ ys) R ↔
      LoopMeets step C E s xs fun s' => LoopMeets step C E s' ys R := by
  induction xs generalizing s with
  | nil => rw [List.nil_append, loopMeets_nil]
  | cons op xs ih =>
    rw [List.cons_append, loopMeets_cons, loopMeets_cons]
    simp only [ih]

theorem LoopMeets.mono {s : σ} {ops : List ι} (h : LoopMeets step C E s ops R)
    (hE : ∀ e, E e → E' e) (hR : ∀ s, R s → R' s) : LoopMeets step C E' s ops R' :=
  ⟨h.1, h.2.mono hE hR⟩

/-- A step that goes through, at the end of a loop or before the rest of it. -/
theorem loopMeets_cons_of_ok {s s' : σ} {op : ι} {ops : List ι} (hC : C s op)
    (hop : step s op = .ok s') (h : LoopMeets step C E s' ops R) :
    LoopMeets step C E s (op :: ops) R := by
  rw [loopMeets_cons, hop]
  exact ⟨hC, h⟩

end LoopMeets

/-! ## Loops of a number of turns -/

/-- `n` turns of a loop. -/
def iterM (step : σ → Except ε σ) : ℕ → σ → Except ε σ
  | 0, s => .ok s
  | n + 1, s => step s >>= iterM step n

/-- The next `n` turns meet `C`. -/
def TurnsMeet (step : σ → Except ε σ) (C : σ → Prop) : ℕ → σ → Prop
  | 0, _ => True
  | n + 1, s => C s ∧ ∀ s', step s = .ok s' → TurnsMeet step C n s'

theorem avoids_iterM_iff {bad : ε → Prop} {step : σ → Except ε σ} {I C : σ → Prop}
    (hstep : ∀ s s', I s → step s = .ok s' → I s')
    (hC : ∀ s, I s → (Avoids bad (step s) ↔ C s)) {n : ℕ} {s : σ} (hs : I s) :
    Avoids bad (iterM step n s) ↔ TurnsMeet step C n s := by
  induction n generalizing s with
  | zero => exact iff_of_true trivial trivial
  | succ n ih =>
    rw [iterM, avoids_bind, hC s hs]
    refine and_congr_right fun _ => forall_congr' fun s' => forall_congr' fun hs' => ?_
    exact ih (hstep s s' hs hs')

theorem iterM_invariant {step : σ → Except ε σ} {I : σ → Prop}
    (hstep : ∀ s s', I s → step s = .ok s' → I s') {n : ℕ} {s t : σ} (hs : I s)
    (hrun : iterM step n s = .ok t) : I t := by
  induction n generalizing s with
  | zero =>
    obtain rfl : s = t := Except.ok.inj hrun
    exact hs
  | succ n ih =>
    obtain ⟨s', hs', hrun⟩ := bind_eq_ok.mp hrun
    exact ih (hstep s s' hs hs') hrun

theorem iterM_invariant_of_meets {step : σ → Except ε σ} {I C : σ → Prop}
    (hstep : ∀ s s', I s → C s → step s = .ok s' → I s') {n : ℕ} {s t : σ} (hs : I s)
    (hmeet : TurnsMeet step C n s) (hrun : iterM step n s = .ok t) : I t := by
  induction n generalizing s with
  | zero =>
    obtain rfl : s = t := Except.ok.inj hrun
    exact hs
  | succ n ih =>
    obtain ⟨s', hs', hrun⟩ := bind_eq_ok.mp hrun
    exact ih (hstep s s' hs hmeet.1 hs') (hmeet.2 s' hs') hrun

theorem exists_iterM_of_meets {step : σ → Except ε σ} {I C : σ → Prop}
    (hstep : ∀ s s', I s → step s = .ok s' → I s')
    (hC : ∀ s, I s → C s → ∃ s', step s = .ok s') {n : ℕ} {s : σ} (hs : I s)
    (hmeet : TurnsMeet step C n s) : ∃ t, iterM step n s = .ok t := by
  induction n generalizing s with
  | zero => exact ⟨s, rfl⟩
  | succ n ih =>
    obtain ⟨s', hs'⟩ := hC s hs hmeet.1
    obtain ⟨t, ht⟩ := ih (hstep s s' hs hs') (hmeet.2 s' hs')
    exact ⟨t, bind_eq_ok.mpr ⟨s', hs', ht⟩⟩
