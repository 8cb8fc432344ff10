/-
# Byte strings and the numbers they denote

Byte strings are read big-endian.  `beNat` is the number a byte string denotes;
the lemmas relate the operations on byte strings (concatenation, bytewise masks,
byte-by-byte comparison) to the operations on numbers, and `bitsOf` to the bit
string, most significant bit first.
-/
import Mathlib

/-- An 8-bit byte. -/
abbrev Byte := BitVec 8

/-- The number a byte string denotes, most significant byte first. -/
def beNat : List Byte → ℕ
  | [] => 0
  | b :: bs => 2 ^ (8 * bs.length) * b.toNat + beNat bs

@[simp] theorem beNat_nil : beNat [] = 0 := rfl

theorem beNat_cons (b : Byte) (bs : List Byte) :
    beNat (b :: bs) = 2 ^ (8 * bs.length) * b.toNat + beNat bs := rfl

theorem beNat_lt (bs : List Byte) : beNat bs < 2 ^ (8 * bs.length) := by
  induction bs with
  | nil => simp
  | cons b bs ih =>
    have hb : b.toNat + 1 ≤ 2 ^ 8 := b.isLt
    calc beNat (b :: bs) < 2 ^ (8 * bs.length) * (b.toNat + 1) := by
          rw [beNat_cons, Nat.mul_add_one]; omega
      _ ≤ 2 ^ (8 * bs.length) * 2 ^ 8 := Nat.mul_le_mul_left _ hb
      _ = 2 ^ (8 * (b :: bs).length) := by rw [List.length_cons, ← pow_add]; congr 1

theorem beNat_append (as bs : List Byte) :
    beNat (as ++ bs) = 2 ^ (8 * bs.length) * beNat as + beNat bs := by
  induction as with
  | nil => simp
  | cons a as ih =>
    rw [List.cons_append, beNat_cons, ih, beNat_cons, List.length_append]
    ring

theorem testBit_beNat_cons (b : Byte) (bs : List Byte) (i : ℕ) :
    (beNat (b :: bs)).testBit i =
      if i < 8 * bs.length then (beNat bs).testBit i else b.toNat.testBit (i - 8 * bs.length) := by
  rw [beNat_cons, Nat.testBit_two_pow_mul_add _ (beNat_lt bs)]

/-- Byte strings of one length denote the same number only when they are equal. -/
theorem beNat_inj {as bs : List Byte} (hlen : as.length = bs.length) :
    beNat as = beNat bs ↔ as = bs := by
  refine ⟨fun h => ?_, fun h => h ▸ rfl⟩
  induction as generalizing bs with
  | nil => exact (List.length_eq_zero_iff.mp hlen.symm).symm
  | cons a as ih =>
    obtain _ | ⟨b, bs⟩ := bs
    · simp at hlen
    · have hlen' : as.length = bs.length := by simpa using hlen
      rw [beNat_cons, beNat_cons, hlen'] at h
      have hlt : beNat as < 2 ^ (8 * bs.length) := hlen' ▸ beNat_lt as
      have hmod := congrArg (· % 2 ^ (8 * bs.length)) h
      have hdiv := congrArg (· / 2 ^ (8 * bs.length)) h
      simp only [Nat.mul_add_mod, Nat.mod_eq_of_lt hlt, Nat.mod_eq_of_lt (beNat_lt bs)] at hmod
      simp only [Nat.mul_add_div (Nat.two_pow_pos _), Nat.div_eq_of_lt hlt,
        Nat.div_eq_of_lt (beNat_lt bs), Nat.add_zero] at hdiv
      rw [ih hlen' hmod, BitVec.eq_of_toNat_eq hdiv]

/-! ## Bytewise masks -/

/-- The bytewise AND of two byte strings. -/
def andBytes (as bs : List Byte) : List Byte := List.zipWith (· &&& ·) as bs

theorem andBytes_cons (a b : Byte) (as bs : List Byte) :
    andBytes (a :: as) (b :: bs) = (a &&& b) :: andBytes as bs := rfl

theorem length_andBytes {as bs : List Byte} (h : as.length = bs.length) :
    (andBytes as bs).length = as.length := by simp [andBytes, h]

theorem andBytes_append {as bs as' bs' : List Byte} (h : as.length = bs.length) :
    andBytes (as ++ as') (bs ++ bs') = andBytes as bs ++ andBytes as' bs' :=
  List.zipWith_append h

theorem beNat_andBytes {as bs : List Byte} (h : as.length = bs.length) :
    beNat (andBytes as bs) = beNat as &&& beNat bs := by
  induction as generalizing bs with
  | nil => simp [andBytes]
  | cons a as ih =>
    obtain _ | ⟨b, bs⟩ := bs
    · simp at h
    · have h' : as.length = bs.length := by simpa using h
      have hcons : andBytes (a :: as) (b :: bs) = (a &&& b) :: andBytes as bs := rfl
      apply Nat.eq_of_testBit_eq
      intro i
      rw [hcons, testBit_beNat_cons, length_andBytes h', ih h', Nat.testBit_and, Nat.testBit_and,
        testBit_beNat_cons, testBit_beNat_cons, h']
      split <;> simp

theorem beNat_replicate_zero (n : ℕ) : beNat (List.replicate n 0) = 0 := by
  induction n with
  | zero => rfl
  | succ n ih => rw [List.replicate_succ, beNat_cons, ih]; rfl

theorem beNat_replicate_ff (n : ℕ) : beNat (List.replicate n 0xff#8) = 2 ^ (8 * n) - 1 := by
  induction n with
  | zero => rfl
  | succ n ih =>
    rw [List.replicate_succ, beNat_cons, ih, List.length_replicate, Nat.mul_add_one, pow_add]
    have hpos := Nat.two_pow_pos (8 * n)
    simp only [BitVec.toNat_ofNat]
    omega

theorem andBytes_replicate_ff (as : List Byte) {n : ℕ} (h : as.length = n) :
    andBytes as (List.replicate n 0xff#8) = as := by
  subst h
  induction as with
  | nil => rfl
  | cons a as ih =>
    have ha : a &&& 0xff#8 = a := BitVec.and_allOnes
    rw [List.length_cons, List.replicate_succ, andBytes, List.zipWith_cons_cons, ha]
    exact congrArg _ ih

theorem andBytes_assoc (as bs cs : List Byte) :
    andBytes (andBytes as bs) cs = andBytes as (andBytes bs cs) := by
  induction as generalizing bs cs with
  | nil => rfl
  | cons a as ih =>
    cases bs with
    | nil => rfl
    | cons b bs =>
      cases cs with
      | nil => rfl
      | cons c cs => simp only [andBytes_cons, ih, BitVec.and_assoc]

theorem andBytes_self (as : List Byte) : andBytes as as = as := by
  induction as with
  | nil => rfl
  | cons a as ih => rw [andBytes_cons, BitVec.and_self, ih]

/-- A mask over blocks masks block by block. -/
theorem andBytes_flatten {as bs : List (List Byte)}
    (h : List.Forall₂ (fun a b => a.length = b.length) as bs) :
    andBytes as.flatten bs.flatten = (List.zipWith andBytes as bs).flatten := by
  induction h with
  | nil => rfl
  | cons hlen _ ih =>
    rw [List.flatten_cons, List.flatten_cons, andBytes_append hlen, ih, List.zipWith_cons_cons,
      List.flatten_cons]

/-- A masked number is not larger. -/
theorem beNat_andBytes_le {as bs : List Byte} (h : as.length = bs.length) :
    beNat (andBytes as bs) ≤ beNat as := by
  rw [beNat_andBytes h]
  exact Nat.and_le_left

/-! ## Byte-by-byte comparison -/

/-- The first `n` bytes of two byte strings compared as unsigned bytes, first
difference deciding; `none` when one of them is shorter than `n`. -/
def memcmp (as bs : List Byte) (n : ℕ) : Option Ordering :=
  if n ≤ as.length ∧ n ≤ bs.length then
    some (List.compareLex compare ((as.take n).map BitVec.toNat) ((bs.take n).map BitVec.toNat))
  else none

/-- Numbers in blocks of `m` compare by block first, then inside the block. -/
theorem compare_block {m a b x y : ℕ} (hx : x < m) (hy : y < m) :
    compare (m * a + x) (m * b + y) = (compare a b).then (compare x y) := by
  rcases lt_trichotomy a b with hab | rfl | hab
  · have hstep : m * (a + 1) ≤ m * b := Nat.mul_le_mul_left _ hab
    rw [Nat.mul_add_one] at hstep
    have hlt : m * a + x < m * b + y := by omega
    rw [compare_lt_iff_lt.mpr hlt, compare_lt_iff_lt.mpr hab]
    rfl
  · have heq : compare a a = .eq := compare_eq_iff_eq.mpr rfl
    rw [heq, Ordering.then, Nat.compare_eq_ite_lt, Nat.compare_eq_ite_lt]
    simp
  · have hstep : m * (b + 1) ≤ m * a := Nat.mul_le_mul_left _ hab
    rw [Nat.mul_add_one] at hstep
    have hgt : m * b + y < m * a + x := by omega
    rw [compare_gt_iff_gt.mpr hgt, compare_gt_iff_gt.mpr hab]
    rfl

theorem compareLex_toNat_eq {as bs : List Byte} (h : as.length = bs.length) :
    List.compareLex compare (as.map BitVec.toNat) (bs.map BitVec.toNat)
      = compare (beNat as) (beNat bs) := by
  induction as generalizing bs with
  | nil =>
    obtain rfl : bs = [] := List.length_eq_zero_iff.mp h.symm
    simp
  | cons a as ih =>
    obtain _ | ⟨b, bs⟩ := bs
    · simp at h
    · have h' : as.length = bs.length := by simpa using h
      rw [List.map_cons, List.map_cons, List.compareLex_cons_cons, ih h', beNat_cons,
        beNat_cons, h', compare_block (h' ▸ beNat_lt as) (beNat_lt bs)]

theorem memcmp_eq {as bs : List Byte} {n : ℕ} (ha : n ≤ as.length) (hb : n ≤ bs.length) :
    memcmp as bs n = some (compare (beNat (as.take n)) (beNat (bs.take n))) := by
  rw [memcmp, if_pos ⟨ha, hb⟩, compareLex_toNat_eq (by simp [ha, hb])]

/-! ## Bit strings -/

/-- The bits of a byte, most significant first. -/
def byteBits (b : Byte) : List Bool := (List.range 8).map b.getMsbD

/-- The bits of a byte string, most significant first. -/
def bitsOf (bs : List Byte) : List Bool := bs.flatMap byteBits

@[simp] theorem bitsOf_nil : bitsOf [] = [] := rfl

theorem bitsOf_cons (b : Byte) (bs : List Byte) : bitsOf (b :: bs) = byteBits b ++ bitsOf bs := rfl

@[simp] theorem length_byteBits (b : Byte) : (byteBits b).length = 8 := by simp [byteBits]

@[simp] theorem length_bitsOf (bs : List Byte) : (bitsOf bs).length = 8 * bs.length := by
  induction bs with
  | nil => rfl
  | cons b bs ih => rw [bitsOf_cons, List.length_append, ih, length_byteBits, List.length_cons]; ring

theorem getElem?_byteBits (b : Byte) {i : ℕ} (hi : i < 8) :
    (byteBits b)[i]? = some (b.toNat.testBit (7 - i)) := by
  rw [byteBits, List.getElem?_map, List.getElem?_range hi, Option.map_some, BitVec.getMsbD]
  simp [hi, BitVec.getLsbD]

/-- The first `r` bits of a byte are what is left of it after a shift. -/
theorem take_byteBits_eq_iff {b c : Byte} {r : ℕ} (hr : r ≤ 8) :
    (byteBits b).take r = (byteBits c).take r ↔ b.toNat >>> (8 - r) = c.toNat >>> (8 - r) := by
  constructor
  · intro h
    apply Nat.eq_of_testBit_eq
    intro i
    rw [Nat.testBit_shiftRight, Nat.testBit_shiftRight]
    by_cases hi : i < r
    · have hbit := congrArg (·[r - 1 - i]?) h
      simp only [List.getElem?_take_of_lt (show r - 1 - i < r by omega),
        getElem?_byteBits _ (show r - 1 - i < 8 by omega), Option.some.injEq] at hbit
      rwa [show 7 - (r - 1 - i) = 8 - r + i by omega] at hbit
    · rw [Nat.testBit_lt_two_pow, Nat.testBit_lt_two_pow]
      · exact c.isLt.trans_le (Nat.pow_le_pow_right (by norm_num) (by omega))
      · exact b.isLt.trans_le (Nat.pow_le_pow_right (by norm_num) (by omega))
  · intro h
    apply List.ext_getElem?
    intro i
    by_cases hi : i < r
    · have hbit := congrArg (Nat.testBit · (r - 1 - i)) h
      simp only [Nat.testBit_shiftRight] at hbit
      rw [List.getElem?_take_of_lt hi, List.getElem?_take_of_lt hi,
        getElem?_byteBits _ (by omega), getElem?_byteBits _ (by omega),
        show 7 - i = 8 - r + (r - 1 - i) by omega, hbit]
    · rw [List.getElem?_take_eq_none (by omega), List.getElem?_take_eq_none (by omega)]

theorem byteBits_inj {b c : Byte} : byteBits b = byteBits c ↔ b = c := by
  refine ⟨fun h => ?_, fun h => h ▸ rfl⟩
  have htake : (byteBits b).take 8 = (byteBits c).take 8 := by rw [h]
  have := (take_byteBits_eq_iff (le_refl 8)).mp htake
  exact BitVec.eq_of_toNat_eq (by simpa using this)

/-- Two bit strings of whole bytes followed by less than a byte agree only when the
whole bytes and the rests do. -/
theorem bitsOf_append_inj {bs cs : List Byte} {p q : List Bool} (hp : p.length < 8)
    (hq : q.length < 8) : bitsOf bs ++ p = bitsOf cs ++ q ↔ bs = cs ∧ p = q := by
  refine ⟨fun h => ?_, by rintro ⟨rfl, rfl⟩; rfl⟩
  induction bs generalizing cs with
  | nil =>
    cases cs with
    | nil => exact ⟨rfl, by simpa using h⟩
    | cons c cs =>
      have hlen := congrArg List.length h
      simp at hlen
      omega
  | cons b bs ih =>
    cases cs with
    | nil =>
      have hlen := congrArg List.length h
      simp at hlen
      omega
    | cons c cs =>
      rw [bitsOf_cons, bitsOf_cons, List.append_assoc, List.append_assoc] at h
      obtain ⟨hb, hrest⟩ := List.append_inj h (by simp)
      obtain ⟨rfl, rfl⟩ := ih hrest
      rw [byteBits_inj.mp hb]
      exact ⟨rfl, rfl⟩
