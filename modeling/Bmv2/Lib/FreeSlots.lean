/-
# Lowest free slot of a finite set of slots

An allocator that hands out slots in the style of a bitmap: the slot given out
is the lowest one that is not in use.
-/
import Mathlib

/-- The lowest number outside `s`.  It is at most `s.card`, so the search in
`0, …, s.card` finds it. -/
def lowestFree (s : Finset ℕ) : ℕ :=
  ((List.range (s.card + 1)).find? (fun i => i ∉ s)).getD 0

/-- Among `0, …, s.card` some number is outside `s`. -/
theorem exists_le_card_notMem (s : Finset ℕ) : ∃ i ≤ s.card, i ∉ s := by
  by_contra hall
  push Not at hall
  have hsub : Finset.range (s.card + 1) ⊆ s := fun i hi =>
    hall i (by simpa [Nat.lt_succ_iff] using hi)
  have hcard := Finset.card_le_card hsub
  rw [Finset.card_range] at hcard
  omega

theorem lowestFree_spec (s : Finset ℕ) :
    lowestFree s ≤ s.card ∧ lowestFree s ∉ s ∧ ∀ i < lowestFree s, i ∈ s := by
  obtain ⟨i, hi, his⟩ := exists_le_card_notMem s
  cases hfind : (List.range (s.card + 1)).find? (fun i => i ∉ s) with
  | none =>
    rw [List.find?_eq_none] at hfind
    exact absurd his (by simpa using hfind i (List.mem_range.mpr (by omega)))
  | some j =>
    have hj : lowestFree s = j := by rw [lowestFree, hfind]; rfl
    rw [List.find?_range_eq_some] at hfind
    obtain ⟨hnot, hmem, hbelow⟩ := hfind
    rw [hj]
    refine ⟨by simpa [Nat.lt_succ_iff] using hmem, by simpa using hnot, fun k hk => ?_⟩
    simpa using hbelow k hk

theorem lowestFree_le_card (s : Finset ℕ) : lowestFree s ≤ s.card := (lowestFree_spec s).1

theorem lowestFree_notMem (s : Finset ℕ) : lowestFree s ∉ s := (lowestFree_spec s).2.1

theorem mem_of_lt_lowestFree {s : Finset ℕ} {i : ℕ} (hi : i < lowestFree s) : i ∈ s :=
  (lowestFree_spec s).2.2 i hi

/-- Every slot in use lies below or above the lowest free one. -/
theorem ne_lowestFree {s : Finset ℕ} {i : ℕ} (hi : i ∈ s) : i ≠ lowestFree s := fun h =>
  lowestFree_notMem s (h ▸ hi)

/-- Slots bounded by `n` leave the lowest free slot below `n` as long as fewer
than `n` are in use. -/
theorem lowestFree_lt {s : Finset ℕ} {n : ℕ} (h : s.card < n) : lowestFree s < n :=
  lt_of_le_of_lt (lowestFree_le_card s) h
