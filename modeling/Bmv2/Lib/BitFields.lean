/-
# Bits of a byte string

A byte string read as a bit string, most significant bit first: `bitAt` is the
bit at a position, and `shlWindow` the byte that starts `o` bits into a pair of
adjacent bytes, which is how loops that move a bit field read it.
-/
import Bmv2.Lib.Bytes

/-- Bit `i` of a byte string, counted from its front; `false` beyond the end. -/
def bitAt (bs : List Byte) (i : ℕ) : Bool := (bs[i / 8]?.getD 0).getMsbD (i % 8)

theorem bitAt_eq_getMsbD (bs : List Byte) (n : ℕ) {k : ℕ} (hk : k < 8) :
    bitAt bs (8 * n + k) = (bs[n]?.getD 0).getMsbD k := by
  rw [bitAt, show (8 * n + k) / 8 = n by omega, show (8 * n + k) % 8 = k by omega]

theorem bitAt_of_le {bs : List Byte} {i : ℕ} (h : 8 * bs.length ≤ i) : bitAt bs i = false := by
  rw [bitAt, List.getElem?_eq_none (by omega)]
  simp

theorem bitAt_append (as bs : List Byte) (i : ℕ) :
    bitAt (as ++ bs) i =
      if i < 8 * as.length then bitAt as i else bitAt bs (i - 8 * as.length) := by
  unfold bitAt
  split
  · rw [List.getElem?_append_left (by omega)]
  · rw [List.getElem?_append_right (by omega), show (i - 8 * as.length) / 8 = i / 8 - as.length by
      omega, show (i - 8 * as.length) % 8 = i % 8 by omega]

theorem bitAt_cons (b : Byte) (bs : List Byte) (i : ℕ) :
    bitAt (b :: bs) i = if i < 8 then b.getMsbD i else bitAt bs (i - 8) := by
  have h := bitAt_append [b] bs i
  rw [List.singleton_append, List.length_singleton, mul_one] at h
  rw [h]
  split
  · next hi =>
    have hbit := bitAt_eq_getMsbD [b] 0 hi
    simpa using hbit
  · rfl

theorem bitAt_drop (bs : List Byte) (n i : ℕ) : bitAt (bs.drop n) i = bitAt bs (8 * n + i) := by
  rw [bitAt, bitAt, List.getElem?_drop, show (8 * n + i) / 8 = n + i / 8 by omega,
    show (8 * n + i) % 8 = i % 8 by omega]

theorem bitAt_take (bs : List Byte) {n i : ℕ} (h : i < 8 * n) :
    bitAt (bs.take n) i = bitAt bs i := by
  rw [bitAt, bitAt, List.getElem?_take_of_lt (by omega)]

theorem bitAt_replicate_zero (n i : ℕ) : bitAt (List.replicate n 0) i = false := by
  rw [bitAt, List.getElem?_replicate]
  split
  · simp
  · simp

/-- Byte strings of one length with the same bits are equal. -/
theorem eq_of_bitAt_eq {as bs : List Byte} (hlen : as.length = bs.length)
    (h : ∀ i < 8 * as.length, bitAt as i = bitAt bs i) : as = bs := by
  refine List.ext_getElem hlen fun n ha hb => BitVec.eq_of_getMsbD_eq fun k hk => ?_
  have hbit := h (8 * n + k) (by omega)
  rwa [bitAt_eq_getMsbD as n hk, bitAt_eq_getMsbD bs n hk, List.getElem?_eq_getElem ha,
    List.getElem?_eq_getElem hb] at hbit

/-- The bits of a byte string are those of the number it denotes. -/
theorem testBit_beNat (bs : List Byte) {i : ℕ} (h : i < 8 * bs.length) :
    (beNat bs).testBit (8 * bs.length - 1 - i) = bitAt bs i := by
  induction bs generalizing i with
  | nil => simp at h
  | cons b bs ih =>
    rw [List.length_cons] at h ⊢
    rw [testBit_beNat_cons, bitAt_cons]
    by_cases hi : i < 8
    · rw [if_neg (by omega), if_pos hi, BitVec.getMsbD,
        show 8 * (bs.length + 1) - 1 - i - 8 * bs.length = 8 - 1 - i by omega]
      simp [hi, BitVec.getLsbD]
    · rw [if_pos (by omega), if_neg hi, ← ih (by omega)]
      congr 1
      omega

/-! ## Windows -/

/-- The byte that starts `o` bits into `a`, followed by `b`. -/
def shlWindow (o : ℕ) (a b : Byte) : Byte := (a <<< o) ||| (b >>> (8 - o))

theorem getMsbD_shlWindow {o : ℕ} (a b : Byte) {k : ℕ} (ho : o < 8) (hk : k < 8) :
    (shlWindow o a b).getMsbD k = if k + o < 8 then a.getMsbD (k + o) else b.getMsbD (k + o - 8) := by
  rw [shlWindow, BitVec.getMsbD_or, BitVec.getMsbD_shiftLeft, BitVec.getMsbD_ushiftRight]
  by_cases h : k + o < 8
  · simp [h, hk, show k < 8 - o by omega]
  · have hout : a.getMsbD (k + o) = false := BitVec.getMsbD_of_ge a (k + o) (by omega)
    simp [h, hk, hout, show ¬ k < 8 - o by omega, show k - (8 - o) = k + o - 8 by omega]

/-- The window between two bytes of a string reads the string `o` bits further on. -/
theorem getMsbD_shlWindow_at (bs : List Byte) (n : ℕ) {o k : ℕ} (ho : o < 8) (hk : k < 8) :
    (shlWindow o (bs[n]?.getD 0) (bs[n + 1]?.getD 0)).getMsbD k = bitAt bs (8 * n + k + o) := by
  rw [getMsbD_shlWindow _ _ ho hk]
  split
  · next h => rw [Nat.add_assoc, bitAt_eq_getMsbD bs n h]
  · next h =>
    rw [show 8 * n + k + o = 8 * (n + 1) + (k + o - 8) by omega,
      bitAt_eq_getMsbD bs (n + 1) (by omega)]

theorem getMsbD_lowMask (n : ℕ) {k : ℕ} (hk : k < 8) :
    (0xff#8 >>> n).getMsbD k = decide (n ≤ k) := by
  have hones : ∀ j < 8, (0xff#8).getMsbD j = true := by decide
  rw [BitVec.getMsbD_ushiftRight, hones _ (by omega)]
  by_cases h : n ≤ k
  · simp [h, hk, show ¬ k < n by omega]
  · simp [h, show k < n by omega]

/-- A byte with its first `n` bits cleared. -/
theorem getMsbD_and_lowMask (b : Byte) (n : ℕ) {k : ℕ} (hk : k < 8) :
    (b &&& (0xff#8 >>> n)).getMsbD k = (decide (n ≤ k) && b.getMsbD k) := by
  rw [BitVec.getMsbD_and, getMsbD_lowMask n hk, Bool.and_comm]

/-- A byte with all but its first `n` bits cleared. -/
theorem getMsbD_and_highMask (b : Byte) (n : ℕ) {k : ℕ} (hk : k < 8) :
    (b &&& ~~~(0xff#8 >>> n)).getMsbD k = (decide (k < n) && b.getMsbD k) := by
  rw [BitVec.getMsbD_and, BitVec.getMsbD_not, getMsbD_lowMask n hk, Bool.and_comm]
  by_cases h : n ≤ k
  · simp [h, show ¬ k < n by omega]
  · simp [h, hk, show k < n by omega]
