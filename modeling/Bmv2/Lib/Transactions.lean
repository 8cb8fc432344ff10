/-
# Transactions under locks

Threads share a store of resources.  A thread that is asked for something takes the locks of all resources
that the request names, goes through the steps of a transaction, and gives the locks back.  The steps of
different threads come in any order.

* `Machine`: what the threads do; `exec`: an event of the system; `Serial`: the requests one after another.
* `Confined`: a transaction leaves the resources alone that it does not use, and does not depend on them.
* `serializable`: what a run does is what the finished transactions do one after another, in the order in
  which they finish.  The condition is that what is not locked is not used by two transactions at a time.
-/
import Bmv2.Lib.Runs

variable {T R V L X : Type}

/-- What a thread does.  `L` is its own state, between transactions and during them. -/
structure Machine (R V L X : Type) where
  start : X → L → Option L
  step : L → (R → V) → Option (L × (R → V))
  finished : L → Bool
  /-- The resources that are locked. -/
  locks : L → Finset R
  /-- The resources that are read or written. -/
  uses : L → Finset R

namespace Machine

variable (M : Machine R V L X)

/-- A system of threads. -/
structure Sys (T R V L : Type) where
  store : R → V
  locals : T → L
  running : Finset T

/-- What happens in a system. -/
inductive Event (T X : Type) where
  | start (t : T) (x : X)
  | step (t : T)
  | finish (t : T)

variable [DecidableEq T] [DecidableEq R]

/-- One event; `none` when it cannot happen. -/
def exec (s : Sys T R V L) : Event T X → Option (Sys T R V L)
  | .start t x =>
      if t ∈ s.running then none
      else do
        let l ← M.start x (s.locals t)
        -- a thread waits until all of its locks are free
        if ∀ u ∈ s.running, Disjoint (M.locks (s.locals u)) (M.locks l) then
          some { s with locals := Function.update s.locals t l, running := insert t s.running }
        else none
  | .step t =>
      if t ∈ s.running then do
        let (l, store) ← M.step (s.locals t) s.store
        pure { s with locals := Function.update s.locals t l, store }
      else none
  | .finish t =>
      if t ∈ s.running ∧ M.finished (s.locals t) then some { s with running := s.running.erase t } else none

/-- The requests that have been finished, in this order, when those of `pending` were being worked on. -/
def finishedFrom : (T → Option X) → List (Event T X) → List (T × X)
  | _, [] => []
  | pending, .start t x :: events => finishedFrom (Function.update pending t (some x)) events
  | pending, .step _ :: events => finishedFrom pending events
  | pending, .finish t :: events =>
      ((pending t).map fun x => (t, x)).toList ++ finishedFrom (Function.update pending t none) events

/-- The same, from a system that is not working on anything. -/
def finishedIn (events : List (Event T X)) : List (T × X) := finishedFrom (fun _ => none) events

/-- The steps of one thread, with nothing in between. -/
def Steps : L × (R → V) → L × (R → V) → Prop :=
  Relation.ReflTransGen fun a b => M.step a.1 a.2 = some b

/-- **Requests one after another**: each is worked on, from its start to its end, before the next one. -/
inductive Serial : (R → V) × (T → L) → List (T × X) → (R → V) × (T → L) → Prop
  | nil (s : (R → V) × (T → L)) : Serial s [] s
  | snoc {s : (R → V) × (T → L)} {requests : List (T × X)} {σ σ' : R → V} {ls : T → L} {t : T} {x : X} {l l' : L} :
      Serial s requests (σ, ls) → M.start x (ls t) = some l → M.Steps (l, σ) (l', σ') → M.finished l' = true →
      Serial s (requests ++ [(t, x)]) (σ', Function.update ls t l')

/-- The resources of one kind have the same values. -/
def AgreeOn (A : Finset R) (σ τ : R → V) : Prop := ∀ r ∈ A, σ r = τ r

/-- Transactions are confined to what they use, as long as the states have the property `I`. -/
structure Confined (I : L → Prop) : Prop where
  start : ∀ {x l l'}, I l → M.start x l = some l' → I l'
  step : ∀ {l σ l' σ'}, I l → M.step l σ = some (l', σ') → I l' ∧ M.uses l' = M.uses l
  frame : ∀ {l σ l' σ'}, I l → M.step l σ = some (l', σ') → ∀ r ∉ M.uses l, σ' r = σ r
  depends : ∀ {l σ l' σ' τ}, I l → M.step l σ = some (l', σ') → AgreeOn (M.uses l) σ τ →
    ∃ τ', M.step l τ = some (l', τ') ∧ AgreeOn (M.uses l) σ' τ'

/-- A transaction begins only when it has no resource in common with a running one, apart from those that both lock. -/
def Apart (s : Sys T R V L) : Event T X → Prop
  | .start t x => ∀ l, M.start x (s.locals t) = some l → ∀ u ∈ s.running, ∀ r ∈ M.uses (s.locals u), r ∈ M.uses l →
      r ∈ M.locks (s.locals u) ∧ r ∈ M.locks l
  | _ => True

section Confined

variable {M} {I : L → Prop} (hM : M.Confined I)
include hM

omit [DecidableEq T] [DecidableEq R] in
/-- The steps of a transaction are confined to what it uses. -/
theorem Confined.steps {l l' : L} {σ σ' : R → V} (hl : I l) (h : M.Steps (l, σ) (l', σ')) :
    I l' ∧ M.uses l' = M.uses l ∧ ∀ r ∉ M.uses l, σ' r = σ r := by
  generalize hb : (l', σ') = b at h
  induction h generalizing l' σ' with
  | refl =>
    cases hb
    exact ⟨hl, rfl, fun _ _ => rfl⟩
  | @tail b c _ hstep ih =>
    subst hb
    obtain ⟨hb, huses, hframe⟩ := ih rfl
    obtain ⟨hl', huses'⟩ := hM.step hb hstep
    refine ⟨hl', huses'.trans huses, fun r hr => ?_⟩
    rw [hM.frame hb hstep r (huses ▸ hr), hframe r hr]

omit [DecidableEq T] [DecidableEq R] in
/-- The steps of a transaction only depend on what it uses. -/
theorem Confined.steps_of_agree {l l' : L} {σ σ' τ : R → V} (hl : I l) (h : M.Steps (l, σ) (l', σ'))
    (hagree : AgreeOn (M.uses l) σ τ) : ∃ τ', M.Steps (l, τ) (l', τ') ∧ AgreeOn (M.uses l) σ' τ' := by
  generalize hb : (l', σ') = b at h
  induction h generalizing l' σ' with
  | refl =>
    cases hb
    exact ⟨τ, .refl, hagree⟩
  | @tail b c hsteps hstep ih =>
    subst hb
    obtain ⟨τ₁, hτ₁, hagree₁⟩ := ih rfl
    obtain ⟨hb, huses, -⟩ := hM.steps hl hsteps
    obtain ⟨τ₂, hτ₂, hagree₂⟩ := hM.depends hb hstep (huses ▸ hagree₁)
    exact ⟨τ₂, hτ₁.tail hτ₂, huses ▸ hagree₂⟩

/-- **What a run keeps.**  `ser` is what the finished transactions have made of the start, one after another.
A running transaction is on its way from there, as far as the resources go that it uses. -/
structure InStep (I : L → Prop) (s : Sys T R V L) (pending : T → Option X) (ser : (R → V) × (T → L)) : Prop where
  idle : ∀ t ∉ s.running, pending t = none ∧ ser.2 t = s.locals t
  good : ∀ t, I (s.locals t) ∧ I (ser.2 t)
  apart : ∀ t ∈ s.running, ∀ u ∈ s.running, t ≠ u → Disjoint (M.uses (s.locals t)) (M.uses (s.locals u))
  unused : ∀ r, (∀ t ∈ s.running, r ∉ M.uses (s.locals t)) → ser.1 r = s.store r
  onItsWay : ∀ t ∈ s.running, ∃ x l τ, pending t = some x ∧ M.start x (ser.2 t) = some l ∧
    M.Steps (l, ser.1) (s.locals t, τ) ∧ AgreeOn (M.uses (s.locals t)) τ s.store

namespace InStep

variable {s s' : Sys T R V L} {pending : T → Option X} {ser : (R → V) × (T → L)} {t : T}

theorem start (h : InStep (M := M) I s pending ser) {x : X} (hapart : M.Apart s (.start t x))
    (hexec : M.exec s (.start t x) = some s') : InStep (M := M) I s' (Function.update pending t (some x)) ser := by
  rw [exec] at hexec
  split at hexec
  next => cases hexec
  next ht =>
    obtain ⟨l, hl, hexec⟩ := Option.bind_eq_some_iff.mp hexec
    split at hexec
    next hlocks =>
      cases hexec
      have hne : ∀ u ∈ s.running, u ≠ t := fun u hu heq => ht (heq ▸ hu)
      -- what both lock is not free
      have hdisjoint : ∀ u ∈ s.running, Disjoint (M.uses (s.locals u)) (M.uses l) := fun u hu =>
        Finset.disjoint_left.mpr fun r hr hr' =>
          have h := hapart l hl u hu r hr hr'
          Finset.disjoint_left.mp (hlocks u hu) h.1 h.2
      have hidle := h.idle t ht
      have hfree : AgreeOn (M.uses l) ser.1 s.store := fun r hr =>
        h.unused r fun u hu hmem => Finset.disjoint_left.mp (hdisjoint u hu) hmem hr
      refine ⟨fun u hu => ?_, fun u => ?_, fun u hu v hv huv => ?_, fun r hr => h.unused r fun u hu => ?_,
        fun u hu => ?_⟩
      · rw [Finset.mem_insert, not_or] at hu
        dsimp only
        rw [Function.update_of_ne hu.1, Function.update_of_ne hu.1]
        exact h.idle u hu.2
      · refine ⟨?_, (h.good u).2⟩
        by_cases hut : u = t
        · dsimp only
          rw [hut, Function.update_self]
          exact hM.start (h.good t).1 hl
        · dsimp only
          rw [Function.update_of_ne hut]
          exact (h.good u).1
      · dsimp only
        rcases Finset.mem_insert.mp hu with rfl | hu
        · have hv := (Finset.mem_insert.mp hv).resolve_left (Ne.symm huv)
          rw [Function.update_self, Function.update_of_ne (hne v hv)]
          exact (hdisjoint v hv).symm
        · rw [Function.update_of_ne (hne u hu)]
          rcases Finset.mem_insert.mp hv with hvt | hv
          · rw [hvt, Function.update_self]
            exact hdisjoint u hu
          · rw [Function.update_of_ne (hne v hv)]
            exact h.apart u hu v hv huv
      · have := hr u (Finset.mem_insert_of_mem hu)
        dsimp only at this
        rwa [Function.update_of_ne (hne u hu)] at this
      · dsimp only
        rcases Finset.mem_insert.mp hu with rfl | hu
        · rw [Function.update_self, Function.update_self]
          exact ⟨x, l, ser.1, rfl, hidle.2 ▸ hl, .refl, hfree⟩
        · rw [Function.update_of_ne (hne u hu), Function.update_of_ne (hne u hu)]
          exact h.onItsWay u hu
    next => cases hexec

theorem step (h : InStep (M := M) I s pending ser) (hexec : M.exec s (.step t) = some s') :
    InStep (M := M) I s' pending ser := by
  rw [exec] at hexec
  split at hexec
  next ht =>
    obtain ⟨⟨l, store⟩, hstep, hexec⟩ := Option.bind_eq_some_iff.mp hexec
    cases hexec
    obtain ⟨hl, huses⟩ := hM.step (h.good t).1 hstep
    have hall : ∀ u, M.uses (Function.update s.locals t l u) = M.uses (s.locals u) := by
      intro u
      by_cases hu : u = t
      · rw [hu, Function.update_self, huses]
      · rw [Function.update_of_ne hu]
    have hframe : ∀ u ∈ s.running, u ≠ t → AgreeOn (M.uses (s.locals u)) s.store store := by
      intro u hu hne r hr
      exact (hM.frame (h.good t).1 hstep r (Finset.disjoint_left.mp (h.apart u hu t ht hne) hr)).symm
    refine ⟨fun u hu => ?_, fun u => ?_, fun u hu v hv huv => ?_, fun r hr => ?_, fun u hu => ?_⟩
    · have hne : u ≠ t := fun heq => hu (heq ▸ ht)
      dsimp only
      rw [Function.update_of_ne hne]
      exact h.idle u hu
    · refine ⟨?_, (h.good u).2⟩
      by_cases hut : u = t
      · dsimp only
        rwa [hut, Function.update_self]
      · dsimp only
        rw [Function.update_of_ne hut]
        exact (h.good u).1
    · dsimp only
      rw [hall, hall]
      exact h.apart u hu v hv huv
    · have hr : ∀ u ∈ s.running, r ∉ M.uses (s.locals u) := fun u hu => hall u ▸ hr u hu
      exact (h.unused r hr).trans (hM.frame (h.good t).1 hstep r (hr t ht)).symm
    · obtain ⟨x, l₀, τ, hx, hstart, hsteps, hagree⟩ := h.onItsWay u hu
      dsimp only
      by_cases hut : u = t
      · subst hut
        -- the step is the same in what the transactions before have made
        obtain ⟨τ', hτ', hagree'⟩ := hM.depends (h.good u).1 hstep fun r hr => (hagree r hr).symm
        rw [Function.update_self, huses]
        exact ⟨x, l₀, τ', hx, hstart, hsteps.tail hτ', fun r hr => (hagree' r hr).symm⟩
      · rw [Function.update_of_ne hut]
        exact ⟨x, l₀, τ, hx, hstart, hsteps, fun r hr => (hagree r hr).trans (hframe u hu hut r hr)⟩
  next => cases hexec

/-- The transaction that finishes becomes the last one. -/
theorem finish (h : InStep (M := M) I s pending ser) (hexec : M.exec (X := X) s (.finish t) = some s') :
    ∃ x σ, pending t = some x ∧
      InStep (M := M) I s' (Function.update pending t none) (σ, Function.update ser.2 t (s.locals t)) ∧
      ∀ {s₀ requests}, M.Serial s₀ requests ser →
        M.Serial s₀ (requests ++ [(t, x)]) (σ, Function.update ser.2 t (s.locals t)) := by
  rw [exec] at hexec
  split at hexec
  next hfin =>
    cases hexec
    obtain ⟨ht, hfinished⟩ := hfin
    obtain ⟨x, l, σ, hx, hstart, hsteps, hagree⟩ := h.onItsWay t ht
    have hl := hM.start (h.good t).2 hstart
    obtain ⟨-, huses, hframe⟩ := hM.steps hl hsteps
    refine ⟨x, σ, hx, ⟨fun u hu => ?_, fun u => ⟨(h.good u).1, ?_⟩, fun u hu v hv huv => ?_, fun r hr => ?_,
      fun u hu => ?_⟩, fun hserial => .snoc hserial hstart hsteps hfinished⟩
    · dsimp only
      by_cases hut : u = t
      · rw [hut, Function.update_self, Function.update_self]
        exact ⟨rfl, rfl⟩
      · rw [Function.update_of_ne hut, Function.update_of_ne hut]
        exact h.idle u fun hmem => hu (Finset.mem_erase.mpr ⟨hut, hmem⟩)
    · dsimp only
      by_cases hut : u = t
      · rw [hut, Function.update_self]
        exact (h.good t).1
      · rw [Function.update_of_ne hut]
        exact (h.good u).2
    · exact h.apart u (Finset.mem_of_mem_erase hu) v (Finset.mem_of_mem_erase hv) huv
    · dsimp only at hr ⊢
      by_cases hmem : r ∈ M.uses (s.locals t)
      · exact hagree r hmem
      · rw [hframe r (huses ▸ hmem)]
        refine h.unused r fun u hu => ?_
        by_cases hut : u = t
        · rwa [hut]
        · exact hr u (Finset.mem_erase.mpr ⟨hut, hu⟩)
    · obtain ⟨hut, hu⟩ := Finset.mem_erase.mp hu
      obtain ⟨y, k, τ, hy, hstart', hsteps', hagree'⟩ := h.onItsWay u hu
      have hk := hM.start (h.good u).2 hstart'
      obtain ⟨-, huses', -⟩ := hM.steps hk hsteps'
      -- the other transactions do not see the difference
      obtain ⟨τ', hτ', hττ'⟩ := hM.steps_of_agree hk hsteps' fun r hr =>
        (hframe r (huses ▸ Finset.disjoint_left.mp (h.apart u hu t ht hut) (huses' ▸ hr))).symm
      dsimp only
      rw [Function.update_of_ne hut, Function.update_of_ne hut]
      exact ⟨y, k, τ', hy, hstart', hτ', fun r hr => (hττ' r (huses' ▸ hr)).symm.trans (hagree' r hr)⟩
  next => cases hexec

end InStep

/-- **Runs of transactions**, from any state on. -/
theorem serializable_from {s₀ : (R → V) × (T → L)} (events : List (Event T X)) {s s' : Sys T R V L}
    {pending : T → Option X} {ser : (R → V) × (T → L)} {requests : List (T × X)}
    (hserial : M.Serial s₀ requests ser) (h : InStep (M := M) I s pending ser)
    (hapart : RunMeets M.exec M.Apart s events) (hrun : runFrom M.exec s events = some s') :
    ∃ pending' ser', M.Serial s₀ (requests ++ finishedFrom pending events) ser' ∧
      InStep (M := M) I s' pending' ser' := by
  induction events generalizing s pending ser requests with
  | nil =>
    cases hrun
    exact ⟨pending, ser, by rwa [finishedFrom, List.append_nil], h⟩
  | cons event events ih =>
    obtain ⟨s₁, hs₁, hrun₁⟩ := runFrom_cons_eq_some.mp hrun
    have hrest := hapart.2 s₁ hs₁
    cases event with
    | start t x => exact ih hserial (h.start hM hapart.1 hs₁) hrest hrun₁
    | step t => exact ih hserial (h.step hM hs₁) hrest hrun₁
    | finish t =>
      obtain ⟨x, σ, hx, h₁, hserial₁⟩ := h.finish hM hs₁
      obtain ⟨pending', ser', hserial', h'⟩ := ih (hserial₁ hserial) h₁ hrest hrun₁
      refine ⟨pending', ser', ?_, h'⟩
      rw [finishedFrom, hx]
      rwa [List.append_assoc] at hserial'

/-- **Serializability.**  When no thread is at work at the end, the store and the threads are as the finished
transactions leave them one after another. -/
theorem serializable {s s' : Sys T R V L} (hidle : s.running = ∅) (hgood : ∀ t, I (s.locals t))
    {events : List (Event T X)} (hapart : RunMeets M.exec M.Apart s events)
    (hrun : runFrom M.exec s events = some s') :
    ∃ pending ser, M.Serial (s.store, s.locals) (finishedIn events) ser ∧ InStep (M := M) I s' pending ser ∧
      (s'.running = ∅ → ser = (s'.store, s'.locals)) := by
  have hstart : InStep (M := M) I s (fun _ => (none : Option X)) (s.store, s.locals) := by
    refine ⟨fun t _ => ⟨rfl, rfl⟩, fun t => ⟨hgood t, hgood t⟩, fun t ht => ?_, fun r _ => rfl, fun t ht => ?_⟩ <;>
      rw [hidle] at ht <;> cases ht
  obtain ⟨pending, ser, hserial, h⟩ := serializable_from hM events (.nil _) hstart hapart hrun
  refine ⟨pending, ser, hserial, h, fun hempty => Prod.ext ?_ ?_⟩
  · exact funext fun r => h.unused r fun t ht => absurd ht (by rw [hempty]; exact Finset.notMem_empty t)
  · exact funext fun t => (h.idle t (by rw [hempty]; exact Finset.notMem_empty t)).2

end Confined

/-- **Locks for everything**: when the transactions that begin lock all that they use, the condition holds. -/
theorem runMeets_apart {M : Machine R V L X} {Q : X → Prop}
    (hstart : ∀ x l l', Q x → M.start x l = some l' → M.uses l' ⊆ M.locks l')
    (hstep : ∀ l σ l' σ', M.step l σ = some (l', σ') → M.uses l ⊆ M.locks l → M.uses l' ⊆ M.locks l')
    {s : Sys T R V L} (hs : ∀ u ∈ s.running, M.uses (s.locals u) ⊆ M.locks (s.locals u)) {events : List (Event T X)}
    (hevents : ∀ t x, .start t x ∈ events → Q x) : RunMeets M.exec M.Apart s events := by
  have hmeets : RunMeets M.exec (fun _ event => ∀ t x, event = .start t x → Q x) s events :=
    .of_forall fun event hevent t x heq => hevents t x (heq ▸ hevent)
  refine hmeets.of_invariant (fun s event (hs : ∀ u ∈ s.running, M.uses (s.locals u) ⊆ M.locks (s.locals u)) hQ =>
    ?_) hs
  cases event with
  | start t x =>
    have hx := hQ t x rfl
    refine ⟨fun l hl u hu r hr hr' => ⟨hs u hu hr, hstart x _ l hx hl hr'⟩, fun s' hexec u hu => ?_⟩
    rw [exec] at hexec
    split at hexec
    next => cases hexec
    next ht =>
      obtain ⟨l, hl, hexec⟩ := Option.bind_eq_some_iff.mp hexec
      split at hexec
      next =>
        cases hexec
        dsimp only at hu ⊢
        by_cases hut : u = t
        · rw [hut, Function.update_self]
          exact hstart x _ l hx hl
        · rw [Function.update_of_ne hut]
          exact hs u (Finset.mem_of_mem_insert_of_ne hu hut)
      next => cases hexec
  | step t =>
    refine ⟨trivial, fun s' hexec u hu => ?_⟩
    rw [exec] at hexec
    split at hexec
    next ht =>
      obtain ⟨⟨l, store⟩, hl, hexec⟩ := Option.bind_eq_some_iff.mp hexec
      cases hexec
      dsimp only at hu ⊢
      by_cases hut : u = t
      · rw [hut, Function.update_self]
        exact hstep _ _ _ _ hl (hs t ht)
      · rw [Function.update_of_ne hut]
        exact hs u hu
    next => cases hexec
  | finish t =>
    refine ⟨trivial, fun s' hexec u hu => ?_⟩
    rw [exec] at hexec
    split at hexec
    next =>
      cases hexec
      exact hs u (Finset.mem_of_mem_erase hu)
    next => cases hexec

end Machine
