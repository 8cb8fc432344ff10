/-
# Ones' complement sums

Addition of words with an end-around carry.  `SameOnes m x y` says that two numbers stand for the
same word of ones' complement: they are equal modulo `m`, and zero at the same time, which keeps
the two representations of zero apart.

* `onesAdd_spec`: what an addition stands for;
* `SameOnes.addMul`: higher digits may be added to lower ones;
* `BitVec.eq_of_sameOnes`: a word is determined by what it stands for.
-/
import Mathlib.Data.Nat.ModEq
import Mathlib.Data.Nat.Digits.Lemmas

/-- Two numbers stand for the same word of ones' complement. -/
structure SameOnes (m x y : ℕ) : Prop where
  modEq : x ≡ y [MOD m]
  zero_iff : x = 0 ↔ y = 0

namespace SameOnes

variable {m x y z x' y' : ℕ}

theorem refl (m x : ℕ) : SameOnes m x x := ⟨Nat.ModEq.refl x, Iff.rfl⟩

theorem symm (h : SameOnes m x y) : SameOnes m y x := ⟨h.modEq.symm, h.zero_iff.symm⟩

theorem trans (h : SameOnes m x y) (h' : SameOnes m y z) : SameOnes m x z :=
  ⟨h.modEq.trans h'.modEq, h.zero_iff.trans h'.zero_iff⟩

theorem add (h : SameOnes m x y) (h' : SameOnes m x' y') : SameOnes m (x + x') (y + y') :=
  ⟨h.modEq.add h'.modEq, by rw [Nat.add_eq_zero_iff, Nat.add_eq_zero_iff, h.zero_iff, h'.zero_iff]⟩

theorem mul_left (h : SameOnes m x y) (c : ℕ) : SameOnes m (c * x) (c * y) := by
  refine ⟨h.modEq.mul_left c, ?_⟩
  rw [Nat.mul_eq_zero, Nat.mul_eq_zero, h.zero_iff]

/-- A modulus that divides another one. -/
theorem of_dvd {n : ℕ} (h : SameOnes n x y) (hdvd : m ∣ n) : SameOnes m x y :=
  ⟨h.modEq.of_dvd hdvd, h.zero_iff⟩

/-- Numbers up to the modulus are determined by what they stand for. -/
theorem eq_of_le (h : SameOnes m x y) (hx : x ≤ m) (hy : y ≤ m) : x = y := by
  have hzero := h.zero_iff
  rcases le_total x y with hxy | hxy
  · have hdvd := (Nat.modEq_iff_dvd' hxy).mp h.modEq
    by_contra hne
    have hsub := Nat.eq_zero_of_dvd_of_lt hdvd (by omega)
    omega
  · have hdvd := (Nat.modEq_iff_dvd' hxy).mp h.modEq.symm
    by_contra hne
    have hsub := Nat.eq_zero_of_dvd_of_lt hdvd (by omega)
    omega

/-- A higher digit counts like a lower one, when the base is one modulo `m`. -/
theorem addMul {c : ℕ} (hc : c ≡ 1 [MOD m]) (hpos : 0 < c) (x y : ℕ) :
    SameOnes m (x + c * y) (x + y) := by
  refine ⟨?_, ?_⟩
  · have hmul := (hc.mul_right y).add_left x
    rwa [Nat.one_mul] at hmul
  · rw [Nat.add_eq_zero_iff, Nat.add_eq_zero_iff, Nat.mul_eq_zero]
    omega

end SameOnes

section Words

variable {w m : ℕ}

/-- Addition with an end-around carry. -/
def onesAdd (a b : BitVec w) : BitVec w :=
  if 2 ^ w ≤ a.toNat + b.toNat then a + b + 1#w else a + b

/-- The ones' complement sum of a list of words. -/
def onesSum (ws : List (BitVec w)) : BitVec w := ws.foldl onesAdd 0#w

/-- The sum that overflows is smaller than what was added. -/
theorem add_lt_iff (a b : BitVec w) : a + b < b ↔ 2 ^ w ≤ a.toNat + b.toNat := by
  have ha := a.isLt
  have hb := b.isLt
  rw [BitVec.lt_def, BitVec.toNat_add]
  by_cases hcarry : 2 ^ w ≤ a.toNat + b.toNat
  · rw [Nat.mod_eq_sub_mod hcarry, Nat.mod_eq_of_lt (by omega)]
    omega
  · rw [Nat.mod_eq_of_lt (by omega)]
    omega

/-- An addition stands for the sum. -/
theorem onesAdd_spec (hm : m ∣ 2 ^ w - 1) (a b : BitVec w) :
    SameOnes m (onesAdd a b).toNat (a.toNat + b.toNat) := by
  have ha := a.isLt
  have hb := b.isLt
  unfold onesAdd
  split
  · next hcarry =>
    have hadd : (a + b + 1#w).toNat = a.toNat + b.toNat - (2 ^ w - 1) := by
      rw [BitVec.toNat_add, BitVec.toNat_add, Nat.mod_eq_sub_mod hcarry,
        Nat.mod_eq_of_lt (show a.toNat + b.toNat - 2 ^ w < 2 ^ w by omega), BitVec.toNat_ofNat]
      have hone : 1 % 2 ^ w = 1 := Nat.mod_eq_of_lt (by omega)
      rw [hone, Nat.mod_eq_of_lt (by omega)]
      omega
    rw [hadd]
    refine ⟨((Nat.modEq_iff_dvd' (Nat.sub_le _ _)).mpr ?_), by omega⟩
    rwa [Nat.sub_sub_self (by omega)]
  · next hcarry =>
    rw [BitVec.toNat_add, Nat.mod_eq_of_lt (by omega)]
    exact SameOnes.refl _ _

/-- A sum of words stands for the sum of the numbers. -/
theorem onesSum_spec (hm : m ∣ 2 ^ w - 1) (ws : List (BitVec w)) :
    SameOnes m (onesSum ws).toNat (ws.map BitVec.toNat).sum := by
  have hfold (acc : BitVec w) :
      SameOnes m (ws.foldl onesAdd acc).toNat (acc.toNat + (ws.map BitVec.toNat).sum) := by
    induction ws generalizing acc with
    | nil => exact SameOnes.refl _ _
    | cons a ws ih =>
      rw [List.foldl_cons, List.map_cons, List.sum_cons, ← Nat.add_assoc]
      exact (ih (onesAdd acc a)).trans ((onesAdd_spec hm acc a).add (SameOnes.refl _ _))
  have h := hfold 0#w
  rwa [BitVec.toNat_ofNat, Nat.zero_mod, Nat.zero_add] at h

/-- A word is determined by what it stands for. -/
theorem BitVec.eq_of_sameOnes {a b : BitVec w} (h : SameOnes (2 ^ w - 1) a.toNat b.toNat) : a = b := by
  have ha := a.isLt
  have hb := b.isLt
  exact BitVec.eq_of_toNat_eq (h.eq_of_le (by omega) (by omega))

end Words
