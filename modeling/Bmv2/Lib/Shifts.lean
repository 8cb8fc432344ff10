/-
# Shifting a list by swaps

A list is shifted in place by swaps of entries `n` places apart, from the far end to the near one.

* `shiftUp_spec`: the entries below go up by `n` places;
* `shiftDown_spec`: the entries above go down by `n` places;
* `foldlM_congr_invariant`: a loop whose steps agree with those of another loop while an invariant
  holds; `foldlM_some_invariant`: what its steps keep.
-/
import Mathlib

variable {α β σ : Type*}

/-- Two entries change places; `none` outside of the list. -/
def swapAt (l : List α) (i j : ℕ) : Option (List α) := do
  let a ← l[i]?
  let b ← l[j]?
  pure ((l.set i b).set j a)

/-- The places from `n + m - 1` down to `n` are swapped with those `n` below. -/
def shiftUp (l : List α) (n m : ℕ) : Option (List α) :=
  (List.range' n m).reverse.foldlM (fun l i => swapAt l i (i - n)) l

/-- The places from `0` up to `m - 1` are swapped with those `n` above. -/
def shiftDown (l : List α) (n m : ℕ) : Option (List α) :=
  (List.range m).foldlM (fun l i => swapAt l i (i + n)) l

theorem swapAt_subset {l l' : List α} {i j : ℕ} (h : swapAt l i j = some l') : l' ⊆ l := by
  obtain ⟨a, hi, h⟩ := Option.bind_eq_some_iff.mp h
  obtain ⟨b, hj, h⟩ := Option.bind_eq_some_iff.mp h
  obtain rfl := Option.some.inj h
  intro c hc
  rcases List.mem_or_eq_of_mem_set hc with hc | rfl
  · rcases List.mem_or_eq_of_mem_set hc with hc | rfl
    · exact hc
    · exact List.mem_of_getElem? hj
  · exact List.mem_of_getElem? hi

theorem swapAt_spec {l : List α} {i j : ℕ} (hi : i < l.length) (hj : j < l.length) :
    ∃ l', swapAt l i j = some l' ∧ l'.length = l.length ∧
      ∀ k, l'[k]? = if k = j then l[i]? else if k = i then l[j]? else l[k]? := by
  refine ⟨(l.set i l[j]).set j l[i], ?_, by simp, fun k => ?_⟩
  · rw [swapAt, List.getElem?_eq_getElem hi, List.getElem?_eq_getElem hj]
    rfl
  · by_cases hkj : k = j
    · rw [if_pos hkj, hkj, List.getElem?_set_self (by simpa using hj), List.getElem?_eq_getElem hi]
    · rw [if_neg hkj, List.getElem?_set_ne (Ne.symm hkj)]
      by_cases hki : k = i
      · rw [if_pos hki, hki, List.getElem?_set_self hi, List.getElem?_eq_getElem hj]
      · rw [if_neg hki, List.getElem?_set_ne (Ne.symm hki)]

/-- **Up.** -/
theorem shiftUp_spec {l : List α} {n m : ℕ} (hn : 0 < n) (hlen : n + m ≤ l.length) :
    ∃ l', shiftUp l n m = some l' ∧ l'.length = l.length ∧ l' ⊆ l ∧
      (∀ i, n ≤ i → i < n + m → l'[i]? = l[i - n]?) ∧ ∀ i, n + m ≤ i → l'[i]? = l[i]? := by
  induction m generalizing l with
  | zero => exact ⟨l, rfl, rfl, List.Subset.refl l, fun i hi hlt => by omega, fun _ _ => rfl⟩
  | succ m ih =>
    obtain ⟨l₁, hswap, hlen₁, hget₁⟩ :=
      swapAt_spec (l := l) (i := n + m) (j := m) (by omega) (by omega)
    have hsub₁ := swapAt_subset hswap
    obtain ⟨l', hshift, hlen', hsub', hup, hrest⟩ := ih (l := l₁) (by omega)
    refine ⟨l', ?_, hlen'.trans hlen₁, fun a ha => hsub₁ (hsub' ha), fun i hi hlt => ?_, fun i hi => ?_⟩
    · rw [shiftUp, List.range'_1_concat, List.reverse_append, List.reverse_singleton,
        List.singleton_append, List.foldlM_cons, Nat.add_sub_cancel_left, hswap]
      exact hshift
    · by_cases htop : i = n + m
      · rw [hrest i (by omega), hget₁, if_neg (by omega), if_pos htop, htop, Nat.add_sub_cancel_left]
      · rw [hup i hi (by omega), hget₁, if_neg (by omega), if_neg (by omega)]
    · rw [hrest i (by omega), hget₁, if_neg (by omega), if_neg (by omega)]

/-- **Down.** -/
theorem shiftDown_spec {l : List α} {n m : ℕ} (hn : 0 < n) (hlen : m + n ≤ l.length) :
    ∃ l', shiftDown l n m = some l' ∧ l'.length = l.length ∧ l' ⊆ l ∧
      (∀ i < m, l'[i]? = l[i + n]?) ∧ ∀ i, m + n ≤ i → l'[i]? = l[i]? := by
  induction m with
  | zero => exact ⟨l, rfl, rfl, List.Subset.refl l, fun i hi => by omega, fun _ _ => rfl⟩
  | succ m ih =>
    obtain ⟨l₁, hshift, hlen₁, hsub₁, hdown, hrest⟩ := ih (by omega)
    obtain ⟨l', hswap, hlen', hget⟩ :=
      swapAt_spec (l := l₁) (i := m) (j := m + n) (by omega) (by omega)
    have hsub' := swapAt_subset hswap
    refine ⟨l', ?_, hlen'.trans hlen₁, fun a ha => hsub₁ (hsub' ha), fun i hi => ?_, fun i hi => ?_⟩
    · rw [shiftDown] at hshift
      rw [shiftDown, List.range_succ, List.foldlM_append, hshift, Option.bind_eq_bind,
        Option.bind_some, List.foldlM_cons, hswap]
      rfl
    · rw [hget, if_neg (by omega)]
      by_cases htop : i = m
      · rw [if_pos htop, hrest _ le_rfl, htop]
      · rw [if_neg htop, hdown i (by omega)]
    · rw [hget, if_neg (by omega), if_neg (by omega), hrest i (by omega)]

theorem foldlM_congr_invariant {f g : σ → β → Option σ} {I : σ → Prop}
    (hfg : ∀ s b, I s → f s b = g s b) (hI : ∀ s b s', I s → g s b = some s' → I s') {s : σ}
    (hs : I s) (l : List β) : l.foldlM f s = l.foldlM g s := by
  induction l generalizing s with
  | nil => rfl
  | cons b l ih =>
    rw [List.foldlM_cons, List.foldlM_cons, hfg s b hs]
    cases hstep : g s b with
    | none => rfl
    | some s' => exact ih (hI s b s' hs hstep)

/-- What every step of a loop keeps holds at its end. -/
theorem foldlM_some_invariant {f : σ → β → Option σ} {I : σ → Prop}
    (hI : ∀ s b s', I s → f s b = some s' → I s') {s s' : σ} (hs : I s) {l : List β}
    (h : l.foldlM f s = some s') : I s' := by
  induction l generalizing s with
  | nil => exact Option.some.inj h ▸ hs
  | cons b l ih =>
    rw [List.foldlM_cons] at h
    obtain ⟨s₁, hstep, hrest⟩ := Option.bind_eq_some_iff.mp h
    exact ih (hI s b s₁ hs hstep) hrest
