/-
# Prefixes of bit strings

The first bits of a byte string, as what is left of its value after a shift.
-/
import Bmv2.Lib.Bytes

namespace Bm

/-- Numbers agree behind a shift when they agree in the bits from there on. -/
theorem shiftRight_eq_iff {x y s : ℕ} :
    x >>> s = y >>> s ↔ ∀ j, s ≤ j → x.testBit j = y.testBit j := by
  constructor
  · intro h j hj
    have hbit := congrArg (Nat.testBit · (j - s)) h
    simp only [Nat.testBit_shiftRight] at hbit
    rwa [Nat.add_sub_cancel' hj] at hbit
  · intro h
    apply Nat.eq_of_testBit_eq
    intro i
    rw [Nat.testBit_shiftRight, Nat.testBit_shiftRight, h _ (Nat.le_add_right s i)]

theorem shiftRight_eq_of_le {x y s t : ℕ} (hst : s ≤ t) (h : x >>> s = y >>> s) :
    x >>> t = y >>> t :=
  shiftRight_eq_iff.mpr fun j hj => shiftRight_eq_iff.mp h j (hst.trans hj)

theorem getElem?_bitsOf (bs : List Byte) {i : ℕ} (hi : i < 8 * bs.length) :
    (bitsOf bs)[i]? = some ((beNat bs).testBit (8 * bs.length - 1 - i)) := by
  induction bs generalizing i with
  | nil => simp at hi
  | cons b bs ih =>
    rw [List.length_cons] at hi ⊢
    rw [bitsOf_cons, testBit_beNat_cons]
    by_cases hfirst : i < 8
    · rw [List.getElem?_append_left (by simpa using hfirst), getElem?_byteBits b hfirst,
        if_neg (by omega)]
      congr 2
      omega
    · have hrest : i - 8 < 8 * bs.length := by omega
      rw [List.getElem?_append_right (by simpa using hfirst), length_byteBits, ih hrest,
        if_pos (by omega)]
      congr 2
      omega

/-- The first bits of two byte strings of one size agree when their values do behind the shift that
drops the other bits. -/
theorem take_bitsOf_eq_iff {as bs : List Byte} (hlen : as.length = bs.length) {n : ℕ}
    (hn : n ≤ 8 * as.length) :
    (bitsOf as).take n = (bitsOf bs).take n ↔
      beNat as >>> (8 * as.length - n) = beNat bs >>> (8 * as.length - n) := by
  rw [shiftRight_eq_iff]
  constructor
  · intro h j hj
    by_cases hlt : j < 8 * as.length
    · have hbit := congrArg (·[8 * as.length - 1 - j]?) h
      simp only [List.getElem?_take_of_lt (show 8 * as.length - 1 - j < n by omega),
        getElem?_bitsOf as (show 8 * as.length - 1 - j < 8 * as.length by omega),
        getElem?_bitsOf bs (show 8 * as.length - 1 - j < 8 * bs.length by omega),
        Option.some.injEq] at hbit
      rwa [← hlen, show 8 * as.length - 1 - (8 * as.length - 1 - j) = j by omega] at hbit
    · have hpow := Nat.pow_le_pow_right (show 0 < 2 by norm_num) (not_lt.mp hlt)
      rw [Nat.testBit_lt_two_pow ((beNat_lt as).trans_le hpow),
        Nat.testBit_lt_two_pow ((beNat_lt bs).trans_le (hlen ▸ hpow))]
  · intro h
    apply List.ext_getElem?
    intro i
    by_cases hi : i < n
    · rw [List.getElem?_take_of_lt hi, List.getElem?_take_of_lt hi, getElem?_bitsOf as (by omega),
        getElem?_bitsOf bs (by omega), ← hlen, h _ (by omega)]
    · rw [List.getElem?_take_eq_none (by omega), List.getElem?_take_eq_none (by omega)]

/-- Under a mask that covers exactly the bits from `s` to `n`, numbers of `n` bits agree when they do
behind the shift by `s`. -/
theorem and_eq_and_iff {x y m s n : ℕ} (hx : x < 2 ^ n) (hy : y < 2 ^ n)
    (hm : ∀ j, m.testBit j = decide (s ≤ j ∧ j < n)) :
    x &&& m = y &&& m ↔ x >>> s = y >>> s := by
  rw [shiftRight_eq_iff]
  constructor
  · intro h j hj
    by_cases hlt : j < n
    · have hbit := congrArg (Nat.testBit · j) h
      simpa [Nat.testBit_and, hm, hj, hlt] using hbit
    · have hpow := Nat.pow_le_pow_right (show 0 < 2 by norm_num) (not_lt.mp hlt)
      rw [Nat.testBit_lt_two_pow (hx.trans_le hpow), Nat.testBit_lt_two_pow (hy.trans_le hpow)]
  · intro h
    apply Nat.eq_of_testBit_eq
    intro j
    rw [Nat.testBit_and, Nat.testBit_and, hm]
    by_cases hj : s ≤ j
    · rw [h j hj]
    · simp [hj]

/-- Flipping a bit. -/
theorem testBit_xor_two_pow (x i j : ℕ) :
    (x ^^^ 2 ^ i).testBit j = (x.testBit j != decide (i = j)) := by
  rw [Nat.testBit_xor, Nat.testBit_two_pow]

end Bm
