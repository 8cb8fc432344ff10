/-
# Counting references

A reference count is the number of holders that refer to a thing.  When the references of
one holder change, the count changes by what that holder referred to before and after.
-/
import Mathlib

variable {ι : Type*} [DecidableEq ι]

/-- Only holder `i` changes: the count changes by at most one. -/
theorem card_filter_change (s s' : Finset ι) (p p' : ι → Prop) [DecidablePred p] [DecidablePred p']
    (i : ι) (hsame : ∀ j ≠ i, (j ∈ s' ∧ p' j ↔ j ∈ s ∧ p j)) :
    (s'.filter p').card + (if i ∈ s ∧ p i then 1 else 0) =
      (s.filter p).card + (if i ∈ s' ∧ p' i then 1 else 0) := by
  have hrest : (s'.filter p').erase i = (s.filter p).erase i := by
    ext j
    simp only [Finset.mem_erase, Finset.mem_filter]
    exact and_congr_right fun hj => hsame j hj
  have hcard : ∀ (t : Finset ι), (t.erase i).card + (if i ∈ t then 1 else 0) = t.card := by
    intro t
    split
    · rename_i hi
      exact Finset.card_erase_add_one hi
    · rename_i hi
      rw [Finset.erase_eq_of_notMem hi, Nat.add_zero]
  have h := hcard (s.filter p)
  have h' := hcard (s'.filter p')
  rw [hrest] at h'
  simp only [Finset.mem_filter] at h h'
  omega

/-- A holder comes in. -/
theorem card_filter_insert {s : Finset ι} (p p' : ι → Prop) [DecidablePred p] [DecidablePred p']
    {i : ι} (hi : i ∉ s) (hsame : ∀ j ≠ i, (p' j ↔ p j)) :
    ((insert i s).filter p').card = (s.filter p).card + (if p' i then 1 else 0) := by
  have h := card_filter_change s (insert i s) p p' i fun j hj => by
    rw [hsame j hj, Finset.mem_insert, or_iff_right hj]
  simpa [hi] using h

/-- A holder goes. -/
theorem card_filter_erase {s : Finset ι} (p p' : ι → Prop) [DecidablePred p] [DecidablePred p']
    {i : ι} (hi : i ∈ s) (hsame : ∀ j ≠ i, (p' j ↔ p j)) :
    ((s.erase i).filter p').card + (if p i then 1 else 0) = (s.filter p).card := by
  have h := card_filter_change s (s.erase i) p p' i fun j hj => by
    rw [hsame j hj, Finset.mem_erase, and_iff_right hj]
  simpa [hi] using h

/-- A holder refers to something else. -/
theorem card_filter_modify {s : Finset ι} (p p' : ι → Prop) [DecidablePred p] [DecidablePred p']
    {i : ι} (hi : i ∈ s) (hsame : ∀ j ≠ i, (p' j ↔ p j)) :
    (s.filter p').card + (if p i then 1 else 0) = (s.filter p).card + (if p' i then 1 else 0) := by
  have h := card_filter_change s s p p' i fun j hj => by rw [hsame j hj]
  simpa [hi] using h
