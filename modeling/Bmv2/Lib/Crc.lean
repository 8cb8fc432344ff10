/-
# Division of bit strings

A cyclic redundancy check is the remainder of a division of polynomials over two elements, which a
register computes one bit at a time.  The division is linear, so that a table with the remainders
of all bytes does eight steps at once.

* `divide_xor`: the steps of the division are linear;
* `divide_eq_zeros`: the bits may be put into the register before the steps are taken;
* `divide_byte`: eight steps by the table.
-/
import Mathlib.Data.Nat.Notation
import Mathlib.Data.List.GetD

namespace Crc

variable {w : ℕ}

/-- One step: the register moves up, a bit comes in, and what moves out is reduced. -/
def divideBit (poly r : BitVec w) (b : Bool) : BitVec w :=
  if r.msb ^^ b then (r <<< 1) ^^^ poly else r <<< 1

/-- The register after the bits. -/
def divide (poly r : BitVec w) (bits : List Bool) : BitVec w := bits.foldl (divideBit poly) r

/-- The bits of a byte, the highest one first. -/
def byteBits (b : BitVec 8) : List Bool := (List.range 8).map b.getMsbD

/-- The table of the remainders of all bytes. -/
def table (poly : BitVec w) : List (BitVec w) :=
  (List.range 256).map fun d =>
    divide poly (BitVec.ofNat w d <<< (w - 8)) (List.replicate 8 false)

/-- Bits put into the top of a register. -/
def topBits (w : ℕ) : List Bool → BitVec w
  | [] => 0#w
  | b :: bs => (if b then BitVec.intMin w else 0#w) ^^^ (topBits w bs >>> 1)

/-! ## The steps are linear -/

theorem divide_cons (poly r : BitVec w) (b : Bool) (bits : List Bool) :
    divide poly r (b :: bits) = divide poly (divideBit poly r b) bits := rfl

theorem divide_append (poly r : BitVec w) (as bs : List Bool) :
    divide poly r (as ++ bs) = divide poly (divide poly r as) bs := List.foldl_append

theorem divideBit_xor (poly r s : BitVec w) (b c : Bool) :
    divideBit poly (r ^^^ s) (b ^^ c) = divideBit poly r b ^^^ divideBit poly s c := by
  unfold divideBit
  rw [BitVec.msb_xor, BitVec.shiftLeft_xor_distrib,
    show ((r.msb ^^ s.msb) ^^ (b ^^ c)) = ((r.msb ^^ b) ^^ (s.msb ^^ c)) by
      cases r.msb <;> cases s.msb <;> cases b <;> cases c <;> rfl]
  cases r.msb ^^ b <;> cases s.msb ^^ c
  · rfl
  · simp [BitVec.xor_assoc]
  · simp only [Bool.xor_false, if_true, Bool.false_eq_true, if_false]
    rw [BitVec.xor_assoc, BitVec.xor_assoc, BitVec.xor_comm _ poly]
  · simp only [Bool.xor_true, Bool.not_true, Bool.false_eq_true, if_false, if_true]
    rw [BitVec.xor_assoc, BitVec.xor_comm poly, BitVec.xor_assoc (s <<< 1), BitVec.xor_self,
      BitVec.xor_zero]

/-- The steps without new bits are linear. -/
theorem divide_xor (poly r s : BitVec w) (n : ℕ) :
    divide poly (r ^^^ s) (List.replicate n false) =
      divide poly r (List.replicate n false) ^^^ divide poly s (List.replicate n false) := by
  induction n generalizing r s with
  | zero => rfl
  | succ n ih =>
    have hstep := divideBit_xor poly r s false false
    rw [Bool.xor_false] at hstep
    rw [List.replicate_succ, divide_cons, divide_cons, divide_cons, hstep, ih]

/-! ## Steps that only move -/

/-- A register that was moved down comes back in one step. -/
theorem divideBit_ushiftRight (poly : BitVec w) {r : BitVec w} (hr : r.getLsbD 0 = false) :
    divideBit poly (r >>> 1) false = r := by
  have hmsb : (r >>> 1).msb = false := by
    rw [BitVec.msb_eq_getLsbD_last, BitVec.getLsbD_ushiftRight]
    exact BitVec.getLsbD_of_ge _ _ (by omega)
  unfold divideBit
  rw [hmsb, Bool.xor_false, if_neg (by simp)]
  apply BitVec.eq_of_getLsbD_eq
  intro i hi
  rw [BitVec.getLsbD_shiftLeft, BitVec.getLsbD_ushiftRight]
  cases i with
  | zero => simp [hr]
  | succ i =>
    rw [show 1 + (i + 1 - 1) = i + 1 by omega]
    simp [hi]

/-- Bits that are zero at the low end let a register come back. -/
theorem divide_ushiftRight (poly : BitVec w) {r : BitVec w} {n : ℕ}
    (hr : ∀ i < n, r.getLsbD i = false) :
    divide poly (r >>> n) (List.replicate n false) = r := by
  induction n with
  | zero =>
    rw [BitVec.ushiftRight_zero]
    rfl
  | succ n ih =>
    rw [List.replicate_succ, divide_cons, BitVec.shiftRight_add, divideBit_ushiftRight]
    · exact ih fun i hi => hr i (by omega)
    · rw [BitVec.getLsbD_ushiftRight]
      exact hr _ (by omega)

/-! ## The bits in the register -/

theorem getLsbD_topBits {bs : List Bool} (hbs : bs.length ≤ w) {i : ℕ} (hi : i < w) :
    (topBits w bs).getLsbD i = bs.getD (w - 1 - i) false := by
  induction bs generalizing i with
  | nil => simp [topBits]
  | cons b bs ih =>
    rw [List.length_cons] at hbs
    have hfirst : (if b then BitVec.intMin w else 0#w).getLsbD i = (decide (i + 1 = w) && b) := by
      cases b with
      | false => simp
      | true =>
        rw [if_pos rfl, BitVec.getLsbD_intMin, Bool.and_true]
    rw [topBits, BitVec.getLsbD_xor, BitVec.getLsbD_ushiftRight, hfirst]
    by_cases htop : i + 1 = w
    · rw [show w - 1 - i = 0 by omega, BitVec.getLsbD_of_ge _ (1 + i) (by omega)]
      simp [htop]
    · rw [ih (by omega) (by omega), show w - 1 - i = w - 1 - (1 + i) + 1 by omega]
      simp [htop]

/-- Bits that come in one after another may as well be in the register at the start. -/
theorem divide_eq_zeros (poly r : BitVec w) {bs : List Bool} (hbs : bs.length ≤ w) :
    divide poly r bs = divide poly (r ^^^ topBits w bs) (List.replicate bs.length false) := by
  induction bs generalizing r with
  | nil =>
    rw [topBits, BitVec.xor_zero]
    rfl
  | cons b bs ih =>
    rw [List.length_cons] at hbs
    have hin : divideBit poly r b =
        divideBit poly (r ^^^ if b then BitVec.intMin w else 0#w) false := by
      cases b with
      | false => simp
      | true =>
        have hmsb : (BitVec.intMin w).msb = true := by
          rw [BitVec.msb_intMin]
          exact decide_eq_true (by omega)
        have hout : BitVec.intMin w <<< 1 = 0#w := by
          apply BitVec.eq_of_getLsbD_eq
          intro i hi
          rw [BitVec.getLsbD_shiftLeft, BitVec.getLsbD_intMin]
          simp
          omega
        unfold divideBit
        rw [if_pos rfl, BitVec.msb_xor, hmsb, BitVec.shiftLeft_xor_distrib, hout, BitVec.xor_zero,
          Bool.xor_false]
    have hrest : divideBit poly (topBits w bs >>> 1) false = topBits w bs := by
      refine divideBit_ushiftRight poly ?_
      rw [getLsbD_topBits (by omega) (by omega)]
      exact List.getD_eq_default _ _ (by omega)
    have hboth := divideBit_xor poly (r ^^^ if b then BitVec.intMin w else 0#w) (topBits w bs >>> 1)
      false false
    rw [Bool.xor_false, ← hin, hrest] at hboth
    rw [divide_cons, ih (divideBit poly r b) (by omega), List.length_cons, List.replicate_succ,
      divide_cons, topBits, ← BitVec.xor_assoc, hboth]

/-! ## A byte at a time -/

theorem getD_byteBits (b : BitVec 8) {i : ℕ} (hi : i < 8) :
    (byteBits b).getD i false = b.getMsbD i := by
  simp [byteBits, hi]

theorem topBits_byteBits (hw : 8 ≤ w) (b : BitVec 8) :
    topBits w (byteBits b) = b.setWidth w <<< (w - 8) := by
  apply BitVec.eq_of_getLsbD_eq
  intro i hi
  have hlen : (byteBits b).length = 8 := by simp [byteBits]
  rw [getLsbD_topBits (by omega) hi, BitVec.getLsbD_shiftLeft, BitVec.getLsbD_setWidth]
  by_cases hhigh : w - 8 ≤ i
  · rw [getD_byteBits b (by omega), BitVec.getMsbD_eq_getLsbD,
      show 8 - 1 - (w - 1 - i) = i - (w - 8) by omega]
    simp [hi, show w - 1 - i < 8 by omega, show ¬ i < w - 8 by omega, show i - (w - 8) < w by omega]
  · rw [List.getD_eq_default _ _ (by omega)]
    simp [show i < w - 8 by omega]

/-- A register, split into its high byte and the rest. -/
theorem eq_high_xor_low (hw : 8 ≤ w) (r : BitVec w) :
    r = ((r >>> (w - 8)) <<< (w - 8)) ^^^ ((r <<< 8) >>> 8) := by
  apply BitVec.eq_of_getLsbD_eq
  intro i hi
  rw [BitVec.getLsbD_xor, BitVec.getLsbD_shiftLeft, BitVec.getLsbD_ushiftRight,
    BitVec.getLsbD_ushiftRight, BitVec.getLsbD_shiftLeft]
  by_cases hhigh : w - 8 ≤ i
  · rw [show w - 8 + (i - (w - 8)) = i by omega]
    simp [hi, show ¬ i < w - 8 by omega, show ¬ 8 + i < w by omega]
  · rw [show 8 + i - 8 = i by omega]
    simp [hi, show i < w - 8 by omega, show 8 + i < w by omega]

/-- Eight steps: the entry of the table for the high byte and the new one, and the rest of the
register. -/
theorem divide_byte (hw : 8 ≤ w) (poly r : BitVec w) (b : BitVec 8) :
    divide poly r (byteBits b) =
      divide poly ((b.setWidth w ^^^ (r >>> (w - 8))) <<< (w - 8)) (List.replicate 8 false) ^^^
        (r <<< 8) := by
  have hlen : (byteBits b).length = 8 := by simp [byteBits]
  have hlow : divide poly ((r <<< 8) >>> 8) (List.replicate 8 false) = r <<< 8 := by
    refine divide_ushiftRight poly fun i hi => ?_
    rw [BitVec.getLsbD_shiftLeft]
    simp [hi]
  have hsplit : r ^^^ topBits w (byteBits b) =
      ((b.setWidth w ^^^ (r >>> (w - 8))) <<< (w - 8)) ^^^ ((r <<< 8) >>> 8) := by
    rw [topBits_byteBits hw, BitVec.shiftLeft_xor_distrib, BitVec.xor_assoc, ← eq_high_xor_low hw,
      BitVec.xor_comm]
  rw [divide_eq_zeros poly r (by omega), hlen, hsplit, divide_xor, hlow]

end Crc
