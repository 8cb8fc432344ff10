/-
# Lists of timed elements

A heap that only honours its comparison is a list from which an element with the least time is
taken, any one of them.  Elements of one kind are taken in the order in which they came when
their times have kept increasing; nothing more is known of elements with equal times.

* `filter_eq_of_least`: the least element of a kind is its oldest one;
* `exists_least`: one that can be taken;
* `Paced.add_mul_le`: elements that are apart by at least a delay.
-/
import Mathlib

variable {α : Type*} {time : α → ℕ} {p : α → Bool} {l : List α} {i : ℕ} {a : α}

/-- An element that is taken, and what it leaves. -/
theorem perm_cons_eraseIdx (h : l[i]? = some a) : l.Perm (a :: l.eraseIdx i) := by
  obtain ⟨hi, rfl⟩ := List.getElem?_eq_some_iff.mp h
  exact (List.getElem_cons_eraseIdx_perm hi).symm

/-- The elements of another kind stay. -/
theorem filter_eraseIdx_of_not (h : l[i]? = some a) (hp : p a = false) :
    (l.eraseIdx i).filter p = l.filter p := by
  obtain ⟨hi, rfl⟩ := List.getElem?_eq_some_iff.mp h
  rw [List.eraseIdx_eq_take_drop_succ, List.filter_append]
  conv_rhs => rw [← List.take_append_drop i l, List.filter_append, List.drop_eq_getElem_cons hi,
    List.filter_cons_of_neg (by simpa using hp)]

/-- **The oldest of its kind.**  With the newest in front and times that have kept increasing, an
element with the least time of all is the last one of its kind. -/
theorem filter_eq_of_least (hincreasing : (l.filter p).Pairwise fun b c => time c < time b)
    (h : l[i]? = some a) (hp : p a = true) (hleast : ∀ b ∈ l, time a ≤ time b) :
    l.filter p = (l.eraseIdx i).filter p ++ [a] := by
  obtain ⟨hi, rfl⟩ := List.getElem?_eq_some_iff.mp h
  have hsplit : l.filter p =
      (l.take i).filter p ++ l[i] :: (l.drop (i + 1)).filter p := by
    conv_lhs => rw [← List.take_append_drop i l, List.filter_append, List.drop_eq_getElem_cons hi,
      List.filter_cons_of_pos hp]
  -- nothing of its kind is older
  have hnone : (l.drop (i + 1)).filter p = [] := by
    rw [hsplit, List.pairwise_append, List.pairwise_cons] at hincreasing
    by_contra hne
    obtain ⟨b, hb⟩ := List.exists_mem_of_ne_nil _ hne
    have hmem : b ∈ l := List.mem_of_mem_drop (List.mem_of_mem_filter hb)
    exact absurd (hincreasing.2.1.1 b hb) (not_lt.mpr (hleast b hmem))
  rw [hsplit, List.eraseIdx_eq_take_drop_succ, List.filter_append, hnone, List.append_nil]

/-- When an element is due, so is one with the least time. -/
theorem exists_least {now : ℕ} (h : ∃ b ∈ l, time b ≤ now) :
    ∃ (i : ℕ) (a : α), l[i]? = some a ∧ (∀ b ∈ l, time a ≤ time b) ∧ time a ≤ now := by
  induction l with
  | nil =>
    obtain ⟨b, hb, -⟩ := h
    exact absurd hb List.not_mem_nil
  | cons c l ih =>
    by_cases hc : ∀ b ∈ l, time c ≤ time b
    · refine ⟨0, c, rfl, List.forall_mem_cons.mpr ⟨le_rfl, hc⟩, ?_⟩
      obtain ⟨b, hb, hdue⟩ := h
      rcases List.mem_cons.mp hb with rfl | hb
      · exact hdue
      · exact (hc b hb).trans hdue
    · -- something in the tail is earlier than the head
      push Not at hc
      obtain ⟨d, hd, hlt⟩ := hc
      have hdue : ∃ b ∈ l, time b ≤ now := by
        obtain ⟨b, hb, hb'⟩ := h
        rcases List.mem_cons.mp hb with rfl | hb
        · exact ⟨d, hd, by omega⟩
        · exact ⟨b, hb, hb'⟩
      obtain ⟨i, a, ha, hleast, hdue⟩ := ih hdue
      refine ⟨i + 1, a, ha, List.forall_mem_cons.mpr ⟨?_, hleast⟩, hdue⟩
      have hle := hleast d hd
      omega

/-- Every element comes at least its delay after the one before it. -/
def Paced (time delay : α → ℕ) (l : List α) : Prop := l.IsChain fun a b => time a + delay b ≤ time b

theorem Paced.append_singleton {delay : α → ℕ} (h : Paced time delay l)
    (ha : ∀ b ∈ l.getLast?, time b + delay a ≤ time a) : Paced time delay (l ++ [a]) := by
  refine List.isChain_append.mpr ⟨h, List.isChain_singleton a, fun b hb c hc => ?_⟩
  rw [List.head?_cons, Option.mem_some_iff] at hc
  exact hc ▸ ha b hb

/-- **Pacing.**  While the delay is at least `d`, `n` more elements take at least `n * d`. -/
theorem Paced.add_mul_le {delay : α → ℕ} {d n : ℕ} (h : Paced time delay l)
    (hdelay : ∀ j b, i < j → j ≤ i + n → l[j]? = some b → d ≤ delay b) {b : α}
    (ha : l[i]? = some a) (hb : l[i + n]? = some b) : time a + n * d ≤ time b := by
  induction n generalizing b with
  | zero =>
    rw [Nat.add_zero, ha, Option.some.injEq] at hb
    rw [hb]
    omega
  | succ n ih =>
    obtain ⟨hlt, rfl⟩ := List.getElem?_eq_some_iff.mp hb
    have hprev := ih (fun j b hj hjn => hdelay j b hj (by omega))
      (List.getElem?_eq_getElem (show i + n < l.length by omega))
    have hstep : time l[i + n] + delay l[i + (n + 1)] ≤ time l[i + (n + 1)] :=
      List.isChain_iff_getElem.mp h (i + n) hlt
    have hd := hdelay (i + (n + 1)) _ (by omega) le_rfl hb
    have hmul : (n + 1) * d = n * d + d := Nat.succ_mul n d
    omega

/-! ## Records by place -/

/-- What is read after a write. -/
theorem getElem?_set_cases {k : ℕ} {x y : α}
    (h : (l.set i x)[k]? = some y) : (k = i ∧ y = x) ∨ (k ≠ i ∧ l[k]? = some y) := by
  by_cases hk : k = i
  · subst hk
    have hlt : k < l.length := by
      have hlt := (List.getElem?_eq_some_iff.mp h).1
      rwa [List.length_set] at hlt
    rw [List.getElem?_set_self hlt, Option.some.injEq] at h
    exact .inl ⟨rfl, h.symm⟩
  · rw [List.getElem?_set_ne (Ne.symm hk)] at h
    exact .inr ⟨hk, h⟩

/-- A sum of which one summand is written. -/
theorem sum_map_set (f : α → ℕ) (h : l[i]? = some a) (x : α) :
    ((l.set i x).map f).sum + f a = (l.map f).sum + f x := by
  induction l generalizing i with
  | nil => cases h
  | cons b l ih =>
    cases i with
    | zero =>
      cases h
      simp only [List.set_cons_zero, List.map_cons, List.sum_cons]
      omega
    | succ i =>
      have hsum := ih h
      simp only [List.set_cons_succ, List.map_cons, List.sum_cons]
      omega
