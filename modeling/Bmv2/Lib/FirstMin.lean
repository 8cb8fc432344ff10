/-
# The first least candidate of a list

A scan through a list that keeps the best candidate seen so far and replaces it
only by a strictly better one.  On an increasing list it finds the candidate of
least priority, the first one among ties, provided its priority lies strictly
below the bound the scan starts with.
-/
import Mathlib

variable {ι β : Type*} [LinearOrder β]

/-- The scan: `bound` is the priority of the best candidate so far. -/
def firstMin (prio : ι → β) (P : ι → Prop) [DecidablePred P] : β → Option ι → List ι → Option ι
  | _, best, [] => best
  | bound, best, i :: is =>
      if prio i < bound ∧ P i then firstMin prio P (prio i) (some i) is
      else firstMin prio P bound best is

/-- `i` is a candidate of least priority, the smallest one among ties. -/
structure IsBest [LE ι] (S : Set ι) (prio : ι → β) (P : ι → Prop) (i : ι) : Prop where
  mem : i ∈ S
  candidate : P i
  least : ∀ j ∈ S, P j → prio i < prio j ∨ prio i = prio j ∧ i ≤ j

/-- At most one element is best. -/
theorem IsBest.unique [PartialOrder ι] {S : Set ι} {prio : ι → β} {P : ι → Prop} {i j : ι}
    (hi : IsBest S prio P i) (hj : IsBest S prio P j) : i = j := by
  rcases hi.least j hj.mem hj.candidate with hlt | ⟨heq, hij⟩
  · rcases hj.least i hi.mem hi.candidate with hlt' | ⟨heq', -⟩
    · exact absurd hlt (lt_asymm hlt')
    · exact absurd heq' hlt.ne'
  · rcases hj.least i hi.mem hi.candidate with hlt' | ⟨-, hji⟩
    · exact absurd heq hlt'.ne'
    · exact le_antisymm hij hji

section Scan

variable {prio : ι → β} {P : ι → Prop} [DecidablePred P]

/-- Without a candidate below the bound the scan keeps what it has. -/
theorem firstMin_of_forall_le {bound : β} {best : Option ι} {is : List ι}
    (h : ∀ i ∈ is, P i → bound ≤ prio i) : firstMin prio P bound best is = best := by
  induction is with
  | nil => rfl
  | cons i is ih =>
    rw [firstMin, if_neg]
    · exact ih fun j hj => h j (by simp [hj])
    · rintro ⟨hlt, hP⟩
      exact absurd hlt (not_lt.mpr (h i (by simp) hP))

/-- With a candidate below the bound, the scan of an increasing list finds the best
candidate of the list. -/
theorem firstMin_of_exists_lt [LinearOrder ι] {bound : β} (best : Option ι) {is : List ι}
    (hsorted : is.Pairwise (· < ·)) (h : ∃ i ∈ is, P i ∧ prio i < bound) :
    ∃ i, firstMin prio P bound best is = some i ∧ IsBest {j | j ∈ is} prio P i := by
  induction is generalizing bound best with
  | nil => simp at h
  | cons i is ih =>
    obtain ⟨hfirst, hsorted'⟩ := List.pairwise_cons.mp hsorted
    by_cases htake : prio i < bound ∧ P i
    · rw [firstMin, if_pos htake]
      by_cases hbelow : ∃ j ∈ is, P j ∧ prio j < prio i
      · -- a later candidate is strictly better
        obtain ⟨j, hscan, hbest⟩ := ih (some i) hsorted' hbelow
        refine ⟨j, hscan, by simp [hbest.mem.out], hbest.candidate, fun k hk hPk => ?_⟩
        rcases List.mem_cons.mp hk with rfl | hk
        · obtain ⟨l, hl, hPl, hlt⟩ := hbelow
          rcases hbest.least l hl hPl with hjl | ⟨hjl, -⟩
          · exact Or.inl (hjl.trans hlt)
          · exact Or.inl (hjl ▸ hlt)
        · exact hbest.least k hk hPk
      · -- no later candidate is
        push Not at hbelow
        refine ⟨i, firstMin_of_forall_le hbelow, by simp, htake.2, fun k hk hPk => ?_⟩
        rcases List.mem_cons.mp hk with rfl | hk
        · exact Or.inr ⟨rfl, le_rfl⟩
        · rcases lt_or_eq_of_le (hbelow k hk hPk) with hlt | heq
          · exact Or.inl hlt
          · exact Or.inr ⟨heq, (hfirst k hk).le⟩
    · rw [firstMin, if_neg htake]
      obtain ⟨j, hj, hPj, hlt⟩ := h
      have hj' : j ∈ is := by
        rcases List.mem_cons.mp hj with rfl | hj
        · exact absurd ⟨hlt, hPj⟩ htake
        · exact hj
      obtain ⟨k, hscan, hbest⟩ := ih best hsorted' ⟨j, hj', hPj, hlt⟩
      refine ⟨k, hscan, by simp [hbest.mem.out], hbest.candidate, fun l hl hPl => ?_⟩
      rcases List.mem_cons.mp hl with rfl | hl
      · have hbound : bound ≤ prio l := not_lt.mp fun hlt' => htake ⟨hlt', hPl⟩
        rcases hbest.least j hj' hPj with hkj | ⟨hkj, -⟩
        · exact Or.inl ((hkj.trans hlt).trans_le hbound)
        · exact Or.inl (hkj ▸ hlt.trans_le hbound)
      · exact hbest.least l hl hPl

end Scan
