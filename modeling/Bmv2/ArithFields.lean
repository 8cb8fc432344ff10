/-
# Values and bytes of a field

`Field` (`fields.h`, `fields.cpp`) with the bounds that it stores, under the
operations that read its bytes and those of `Data` (`data.h`) that store a value.

* `Coherent`: value and bytes denote one number of the width of the field;
* `syncValue_coherent`, `exportBytes_coherent`: the two directions of the synchronisation;
* `coherent_of_meets`: a field stays coherent in every run of `Sound` operations;
* `signed_set_not_coherent`: a signed field keeps a value above its range.
-/
import Bmv2.Lib.Residues
import Bmv2.ExprEval

namespace Bm

/-- The shift `1 << n` of an `int`, known where an `int` holds the result. -/
structure IntShift where
  oneShl : ℕ → ℤ
  oneShl_of_lt : ∀ n < 31, oneShl n = 2 ^ n

/-- The shift of a processor that looks at five bits of the distance. -/
def IntShift.wrapping : IntShift where
  oneShl n := (BitVec.ofNat 32 (2 ^ (n % 32))).toInt
  oneShl_of_lt n hn := by interval_cases n <;> rfl

/-- `bignum::export_bytes`: `mpz_export` ignores the sign, and writes a number of more than `size`
bytes past them. -/
def bignumExport (size : ℕ) (src : ℤ) : Option (List Byte) :=
  if src.natAbs < 2 ^ (8 * size) then some (natToBytes size src.natAbs) else none

/-- `Field` with the bounds that it stores. -/
structure ArithField extends DataField where
  mask : ℤ
  max : ℤ
  min : ℤ
  deriving DecidableEq

namespace ArithField

/-- The constructor of `Field`; a signed field of less than two bits fails its assertion. -/
def create (nbits : ℕ) (arith isSigned hidden : Bool) : Option ArithField :=
  let f : ArithField :=
    { nbits, bytes := List.replicate (nbitsToNbytes nbits) 0, hidden, isSigned, arith, value := 0,
      mask := 2 ^ nbits - 1, max := 1, min := 1 }
  if isSigned then
    if 1 < nbits then some { f with max := 2 ^ (nbits - 1) - 1, min := -2 ^ (nbits - 1) } else none
  else some f

/-- `Field::sync_value`. -/
def syncValue (f : ArithField) : ArithField :=
  let value := beNat f.bytes
  if f.isSigned && value.testBit (f.nbits - 1) then
    -- `clear_bit`, then `value += min`
    { f with value := (value - 2 ^ (f.nbits - 1) : ℕ) + f.min }
  else { f with value }

/-- `Field::set_bytes`. -/
def setBytes (f : ArithField) (src : List Byte) : Option ArithField :=
  if src.length = f.nbytes then
    let f : ArithField := { f with bytes := src }
    some (if f.arith then f.syncValue else f)
  else none

/-- `Field::export_bytes`. -/
def exportBytes (f : ArithField) : Option ArithField :=
  if !f.isSigned then
    let value := Int.land f.value f.mask
    (bignumExport f.nbytes value).map fun bytes => { f with value, bytes }
  else
    let value :=
      if f.value < f.min ∨ f.mask < f.value then
        let value := Int.land f.value f.mask
        if f.max < value then value - (f.mask + 1) else value
      else f.value
    if 0 ≤ value then
      (bignumExport f.nbytes value).map fun bytes => { f with value, bytes }
    else (bignumExport f.nbytes (value - f.min - f.min)).map fun bytes => { f with value, bytes }

/-- `Field::extract`. -/
def extract (f : ArithField) (data : List Byte) (hdrOffset : ℕ) : Option ArithField := do
  let bytes ← genericExtract data hdrOffset f.nbits
  let f : ArithField := { f with bytes }
  pure (if f.arith then f.syncValue else f)

/-- `Field::extract_VL`: the mask follows the computed width, the other bounds stay. -/
def extractVL (shift : IntShift) (f : ArithField) (data : List Byte) (hdrOffset : ℕ)
    (computedNbits : ℤ) : Option ArithField :=
  if computedNbits < 0 then none
  else
    let nbits := computedNbits.toNat
    extract { f with nbits, mask := shift.oneShl nbits - 1 } data hdrOffset

end ArithField

/-- The operations of `Data` that end with `export_bytes`. -/
inductive DataOp where
  | set (value : ℤ)
  | setBytes (bytes : List Byte)
  | setHexstring (hexstring : String)
  | add (src1 src2 : Data)
  | sub (src1 src2 : Data)
  | mod (src1 src2 : Data)
  | divide (src1 src2 : Data)
  | multiply (src1 src2 : Data)
  | shiftLeft (src1 src2 : Data)
  | shiftRight (src1 src2 : Data)
  | shiftLeftUint (src1 : Data) (src2 : ℕ)
  | shiftRightUint (src1 : Data) (src2 : ℕ)
  | bitAnd (src1 src2 : Data)
  | bitOr (src1 src2 : Data)
  | bitXor (src1 src2 : Data)
  | bitNeg (src : Data)

namespace DataOp

variable (cast : BignumCast)

/-- An operation on two numbers, after the assertion that both may be used. -/
def ofSources (op : ExprOpcode) (src1 src2 : Data) : Option ℤ :=
  if src1.arith && src2.arith then op.arith cast src1.value src2.value else none

/-- The result of the operation; `none` when an assertion fails. -/
def result : DataOp → Option ℤ
  | .set value => some value
  | .setBytes bytes => some (beNat bytes)
  | .setHexstring hexstring => Data.ofHexstring hexstring
  | .add src1 src2 => ofSources cast .add src1 src2
  | .sub src1 src2 => ofSources cast .sub src1 src2
  | .mod src1 src2 => ofSources cast .mod src1 src2
  | .divide src1 src2 => ofSources cast .div src1 src2
  | .multiply src1 src2 => ofSources cast .mul src1 src2
  | .shiftLeft src1 src2 => ofSources cast .shiftLeft src1 src2
  | .shiftRight src1 src2 => ofSources cast .shiftRight src1 src2
  | .shiftLeftUint src1 src2 => if src1.arith then some (src1.value <<< src2) else none
  | .shiftRightUint src1 src2 => if src1.arith then some (src1.value >>> src2) else none
  | .bitAnd src1 src2 => ofSources cast .bitAnd src1 src2
  | .bitOr src1 src2 => ofSources cast .bitOr src1 src2
  | .bitXor src1 src2 => ofSources cast .bitXor src1 src2
  | .bitNeg src => if src.arith then some (Int.not src.value) else none

end DataOp

/-- An operation on a field. -/
inductive FieldOp where
  | extract (data : List Byte) (hdrOffset : ℕ)
  | extractVL (data : List Byte) (hdrOffset : ℕ) (computedNbits : ℤ)
  | setBytes (src : List Byte)
  | data (op : DataOp)
  | twoCompMod (src width : Data)

/-- The result of an operation of `Data` on a field. -/
def FieldOp.result (cast : BignumCast) : FieldOp → Option ℤ
  | .data op => op.result cast
  | .twoCompMod src width =>
      if width.arith then (cast.toUint width.value).map (Data.twoCompMod src.value) else none
  | _ => none

namespace ArithField

variable (cast : BignumCast) (shift : IntShift)

/-- `Data::two_comp_mod`, which sets the value and leaves the bytes. -/
def twoCompMod (f : ArithField) (src width : Data) : Option ArithField :=
  if width.arith then
    (cast.toUint width.value).map fun uwidth => { f with value := Data.twoCompMod src.value uwidth }
  else none

/-- One operation. -/
def step (f : ArithField) : FieldOp → Option ArithField
  | .extract data hdrOffset => f.extract data hdrOffset
  | .extractVL data hdrOffset computedNbits => f.extractVL shift data hdrOffset computedNbits
  | .setBytes src => f.setBytes src
  | .data op => (op.result cast).bind fun value => ({ f with value } : ArithField).exportBytes
  | .twoCompMod src width => f.twoCompMod cast src width

/-! ## Coherence -/

/-- Value and bytes denote one number of the width of the field. -/
structure Coherent (f : ArithField) : Prop where
  length_bytes : f.bytes.length = f.nbytes
  /-- No bit above the width is set. -/
  beNat_bytes_lt : beNat f.bytes < 2 ^ f.nbits
  inWidth : InWidth f.isSigned f.nbits f.value
  value_eq : f.value = wrap f.isSigned f.nbits (beNat f.bytes)

/-- The stored bounds are those of the width. -/
structure BoundsFit (f : ArithField) : Prop where
  mask : f.mask = 2 ^ f.nbits - 1
  max : f.isSigned = true → f.max = 2 ^ (f.nbits - 1) - 1
  min : f.isSigned = true → f.min = -2 ^ (f.nbits - 1)

/-- The stored minimum belongs to the width if bytes of that width with the given top bit are
read. -/
def SignFits (f : ArithField) (nbits : ℕ) (sign : Bool) : Prop :=
  f.isSigned = true → 0 < nbits → sign = true → f.min = -2 ^ (nbits - 1)

/-- The bits in front of a field that `generic_extract` keeps are zero. -/
def NoStrayBits (data : List Byte) (hdrOffset nbits : ℕ) : Prop :=
  StrayPadding hdrOffset nbits → ∀ i < 8 - nbits, bitAt data (hdrOffset + i - (8 - nbits)) = false

/-- The operations that keep a field coherent. -/
def Sound (f : ArithField) : FieldOp → Prop
  | .extract data hdrOffset =>
      hdrOffset < 8 ∧ NoStrayBits data hdrOffset f.nbits ∧
        f.SignFits f.nbits (bitAt data hdrOffset)
  | .extractVL data hdrOffset computedNbits =>
      hdrOffset < 8 ∧ NoStrayBits data hdrOffset computedNbits.toNat ∧
        f.SignFits computedNbits.toNat (bitAt data hdrOffset)
  | .setBytes src =>
      beNat src < 2 ^ f.nbits ∧ f.SignFits f.nbits ((beNat src).testBit (f.nbits - 1))
  | .data op => ∀ value, op.result cast = some value →
      f.BoundsFit ∧ (f.isSigned = true → value < 2 ^ (f.nbits - 1) ∨ 2 ^ f.nbits ≤ value)
  | .twoCompMod src width =>
      ∃ uwidth : ℕ, width.value = uwidth ∧ 0 < uwidth ∧ uwidth < 2 ^ 32 ∧
        src.value.bmod (2 ^ uwidth) = f.value

/-- What an operation on a field should do: the field is coherent afterwards, and an operation of
`Data` stores its result modulo `2 ^ nbits`. -/
def StepRight (f : ArithField) (op : FieldOp) : Prop :=
  (∀ f', f.step cast shift op = some f' → f'.Coherent) ∧
    ∀ value, op.result cast = some value →
      ∃ f', f.step cast shift op = some f' ∧ f'.nbits = f.nbits ∧
        f'.value = wrap f.isSigned f.nbits value

end ArithField

/-! ## The two directions -/

theorem beNat_natToBytes {n v : ℕ} (h : v < 2 ^ (8 * n)) : beNat (natToBytes n v) = v := by
  apply Nat.eq_of_testBit_eq
  intro i
  by_cases hi : i < 8 * n
  · have hbit := testBit_beNat (natToBytes n v) (i := 8 * n - 1 - i)
    rw [length_natToBytes] at hbit
    rw [show i = 8 * n - 1 - (8 * n - 1 - i) by omega, hbit (by omega),
      bitAt_natToBytes v (by omega)]
  · have hlt := beNat_lt (natToBytes n v)
    rw [length_natToBytes] at hlt
    have hpow : 2 ^ (8 * n) ≤ 2 ^ i := Nat.pow_le_pow_right (by norm_num) (not_lt.mp hi)
    rw [Nat.testBit_lt_two_pow (hlt.trans_le hpow), Nat.testBit_lt_two_pow (h.trans_le hpow)]

theorem nbits_le_nbytes (nbits : ℕ) : nbits ≤ 8 * nbitsToNbytes nbits := by
  unfold nbitsToNbytes
  omega

namespace ArithField

variable {f f' : ArithField}

/-- **From the bytes to the value.** -/
theorem syncValue_coherent (hlen : f.bytes.length = f.nbytes) (hlt : beNat f.bytes < 2 ^ f.nbits)
    (hsign : f.SignFits f.nbits ((beNat f.bytes).testBit (f.nbits - 1))) :
    f.syncValue.Coherent := by
  have hvalue : f.syncValue =
      { f with value := wrap f.isSigned f.nbits (beNat f.bytes) } := by
    rw [syncValue, wrap_natCast hlt]
    by_cases hneg : (f.isSigned && (beNat f.bytes).testBit (f.nbits - 1)) = true
    · rw [if_pos hneg, if_pos hneg]
      rw [Bool.and_eq_true] at hneg
      have hge := Nat.ge_two_pow_of_testBit hneg.2
      have hpos : 0 < f.nbits := by
        by_contra h0
        obtain h0 : f.nbits = 0 := by omega
        rw [h0, pow_zero, Nat.lt_one_iff] at hlt
        rw [hlt] at hge
        exact absurd hge (by simp)
      have hpow : (2 : ℤ) ^ f.nbits = 2 * 2 ^ (f.nbits - 1) := by
        rw [← pow_succ', Nat.sub_add_cancel hpos]
      have hval : ((beNat f.bytes - 2 ^ (f.nbits - 1) : ℕ) : ℤ) + f.min =
          beNat f.bytes - 2 ^ f.nbits := by
        rw [hsign hneg.1 hpos hneg.2, Nat.cast_sub hge, hpow]
        push_cast
        ring
      rw [hval]
    · rw [if_neg hneg, if_neg hneg]
  rw [hvalue]
  exact ⟨hlen, hlt, inWidth_wrap .., rfl⟩

/-- A number of the width is exported in full. -/
theorem bignumExport_emod (nbits : ℕ) (value : ℤ) :
    bignumExport (nbitsToNbytes nbits) (value % 2 ^ nbits) =
      some (natToBytes (nbitsToNbytes nbits) (value % 2 ^ nbits).toNat) ∧
    beNat (natToBytes (nbitsToNbytes nbits) (value % 2 ^ nbits).toNat) =
      (value % 2 ^ nbits).toNat := by
  have hnonneg := Int.emod_nonneg value (show (2 : ℤ) ^ nbits ≠ 0 by positivity)
  have hlt := Int.emod_lt_of_pos value (show (0 : ℤ) < 2 ^ nbits by positivity)
  have hbytes : (value % 2 ^ nbits).toNat < 2 ^ (8 * nbitsToNbytes nbits) := by
    refine lt_of_lt_of_le ?_ (Nat.pow_le_pow_right (by norm_num) (nbits_le_nbytes nbits))
    zify
    rwa [Int.toNat_of_nonneg hnonneg]
  refine ⟨?_, beNat_natToBytes hbytes⟩
  rw [bignumExport, show (value % 2 ^ nbits).natAbs = (value % 2 ^ nbits).toNat by omega,
    if_pos hbytes]

/-- What `export_bytes` does when the stored bounds are those of the width and a signed value is not
in the upper half of the unsigned range. -/
theorem exportBytes_eq (hfit : f.BoundsFit) (hsigned : f.isSigned = true → 1 < f.nbits)
    (hvalue : f.isSigned = true → f.value < 2 ^ (f.nbits - 1) ∨ 2 ^ f.nbits ≤ f.value) :
    f.exportBytes = some { f with
      value := wrap f.isSigned f.nbits f.value
      bytes := natToBytes f.nbytes (f.value % 2 ^ f.nbits).toNat } := by
  have hexport := (bignumExport_emod f.nbits f.value).1
  rw [exportBytes]
  dsimp only
  rw [hfit.mask, land_two_pow_sub_one]
  cases hs : f.isSigned with
  | false =>
    rw [Bool.not_false, if_pos rfl]
    show (bignumExport (nbitsToNbytes f.nbits) _).map _ = _
    rw [hexport]
    rfl
  | true =>
    have hn := hsigned hs
    rw [Bool.not_true, if_neg (by simp), hfit.max hs, hfit.min hs]
    have hM : (2 : ℤ) ^ f.nbits = 2 * 2 ^ (f.nbits - 1) := by
      rw [← pow_succ', Nat.sub_add_cancel (by omega)]
    have hpos : (0 : ℤ) < 2 ^ (f.nbits - 1) := by positivity
    have hnonneg := Int.emod_nonneg f.value (show (2 : ℤ) ^ f.nbits ≠ 0 by positivity)
    have hlt := Int.emod_lt_of_pos f.value (show (0 : ℤ) < 2 ^ f.nbits by positivity)
    have hwrap := wrap_signed (by omega : 0 < f.nbits) f.value
    rw [show f.nbytes = nbitsToNbytes f.nbits from rfl]
    by_cases hrange : f.value < -2 ^ (f.nbits - 1) ∨ 2 ^ f.nbits - 1 < f.value
    · rw [if_pos hrange]
      by_cases hhigh : 2 ^ (f.nbits - 1) - 1 < f.value % 2 ^ f.nbits
      · rw [if_neg (by omega)] at hwrap
        rw [if_pos hhigh, if_neg (by omega), show f.value % 2 ^ f.nbits - (2 ^ f.nbits - 1 + 1) -
          -2 ^ (f.nbits - 1) - -2 ^ (f.nbits - 1) = f.value % 2 ^ f.nbits by omega, hexport, hwrap,
          sub_add_cancel]
        rfl
      · rw [if_pos (by omega)] at hwrap
        rw [if_neg hhigh, if_pos hnonneg, hexport, hwrap]
        rfl
    · rw [if_neg hrange]
      have hself : wrap true f.nbits f.value = f.value :=
        wrap_of_inWidth (by omega) ⟨by omega, by have := hvalue hs; omega⟩
      rw [hself]
      by_cases hneg : 0 ≤ f.value
      · have hemod : f.value % 2 ^ f.nbits = f.value := Int.emod_eq_of_lt hneg (by omega)
        rw [hemod] at hexport ⊢
        rw [if_pos hneg, hexport]
        rfl
      · have hemod : f.value - -2 ^ (f.nbits - 1) - -2 ^ (f.nbits - 1) = f.value % 2 ^ f.nbits := by
          rw [← Int.add_emod_right, Int.emod_eq_of_lt (by omega) (by omega)]
          omega
        rw [if_neg hneg, hemod, hexport]
        rfl

/-- **From the value to the bytes.** -/
theorem exportBytes_coherent (hfit : f.BoundsFit) (hsigned : f.isSigned = true → 1 < f.nbits)
    (hvalue : f.isSigned = true → f.value < 2 ^ (f.nbits - 1) ∨ 2 ^ f.nbits ≤ f.value) :
    ∃ f', f.exportBytes = some f' ∧ f'.Coherent ∧
      f' = { f with value := wrap f.isSigned f.nbits f.value, bytes := f'.bytes } := by
  have hbytes := (bignumExport_emod f.nbits f.value).2
  have hcast : ((f.value % 2 ^ f.nbits).toNat : ℤ) = f.value % 2 ^ f.nbits :=
    Int.toNat_of_nonneg (Int.emod_nonneg _ (by positivity))
  refine ⟨_, exportBytes_eq hfit hsigned hvalue, ⟨length_natToBytes .., ?_, inWidth_wrap .., ?_⟩, rfl⟩
  · show beNat (natToBytes (nbitsToNbytes f.nbits) _) < _
    rw [hbytes]
    zify
    rw [hcast]
    exact Int.emod_lt_of_pos _ (by positivity)
  · show wrap _ _ _ = wrap _ _ (beNat (natToBytes (nbitsToNbytes f.nbits) _) : ℕ)
    rw [hbytes, hcast, wrap_emod]

/-! ## Reading -/

/-- The bytes that `generic_extract` reads denote a number of the width with the top bit of the
data. -/
theorem genericExtract_beNat {data bytes : List Byte} {hdrOffset nbits : ℕ} (hoff : hdrOffset < 8)
    (hstray : NoStrayBits data hdrOffset nbits)
    (hbytes : genericExtract data hdrOffset nbits = some bytes) :
    bytes.length = nbitsToNbytes nbits ∧ beNat bytes < 2 ^ nbits ∧
      (0 < nbits → (beNat bytes).testBit (nbits - 1) = bitAt data hdrOffset) := by
  obtain ⟨hw, hlen⟩ := (exists_genericExtract_iff hoff).mp ⟨bytes, hbytes⟩
  obtain ⟨dst, hdst, hdlen, hbits⟩ := genericExtract_spec hoff hw hlen
  obtain rfl := Option.some.inj (hbytes.symm.trans hdst)
  have hle := nbits_le_nbytes nbits
  refine ⟨hdlen, ?_, fun hpos => ?_⟩
  · apply Nat.lt_pow_two_of_testBit
    intro i hi
    by_cases hhigh : i < 8 * nbitsToNbytes nbits
    · have hbit := testBit_beNat bytes (i := 8 * nbitsToNbytes nbits - 1 - i) (by omega)
      rw [hdlen, show 8 * nbitsToNbytes nbits - 1 - (8 * nbitsToNbytes nbits - 1 - i) = i by omega]
        at hbit
      rw [hbit, hbits _ (by omega)]
      by_cases hs : StrayPadding hdrOffset nbits
      · -- one byte, whose upper bits were in front of the field
        have hone : nbitsToNbytes nbits = 1 := by
          have hlt := hs.1
          have hcross := hs.2
          unfold nbitsToNbytes
          omega
        rw [hone] at hhigh ⊢
        rw [hstray hs _ (by omega), Bool.and_false]
      · rw [decide_eq_false (by rintro (hlow | hs'); exacts [by omega, hs hs']), Bool.false_and]
    · have hlt := beNat_lt bytes
      rw [hdlen] at hlt
      exact Nat.testBit_lt_two_pow
        (hlt.trans_le (Nat.pow_le_pow_right (by norm_num) (not_lt.mp hhigh)))
  · have hbit := testBit_beNat bytes (i := 8 * nbitsToNbytes nbits - nbits) (by omega)
    rw [hdlen, show 8 * nbitsToNbytes nbits - 1 - (8 * nbitsToNbytes nbits - nbits) = nbits - 1 by
      omega] at hbit
    rw [hbit, hbits _ (by omega), decide_eq_true (Or.inl le_rfl), Bool.true_and,
      Nat.add_sub_cancel]

/-- A field with what no operation changes. -/
structure SameKind (f f' : ArithField) : Prop where
  isSigned : f'.isSigned = f.isSigned
  arith : f'.arith = f.arith
  min : f'.min = f.min

theorem syncValue_sameKind (f : ArithField) : f.SameKind f.syncValue := by
  unfold syncValue
  dsimp only
  split <;> exact ⟨rfl, rfl, rfl⟩

theorem extract_coherent {data : List Byte} {hdrOffset : ℕ} (harith : f.arith = true)
    (hoff : hdrOffset < 8) (hstray : NoStrayBits data hdrOffset f.nbits)
    (hsign : f.SignFits f.nbits (bitAt data hdrOffset)) (h : f.extract data hdrOffset = some f') :
    f'.Coherent ∧ f.SameKind f' := by
  obtain ⟨bytes, hbytes, hf⟩ := Option.bind_eq_some_iff.mp h
  obtain rfl := Option.some.inj hf
  obtain ⟨hlen, hlt, htop⟩ := genericExtract_beNat hoff hstray hbytes
  rw [if_pos harith]
  constructor
  · apply syncValue_coherent hlen hlt
    intro hs hpos hbit
    exact hsign hs hpos (by rw [← htop hpos]; exact hbit)
  · obtain ⟨hs, ha, hm⟩ := syncValue_sameKind { f with bytes }
    exact ⟨hs, ha, hm⟩

/-! ## Runs -/

/-- What a run keeps. -/
structure Inv (f : ArithField) : Prop where
  arith : f.arith = true
  coherent : f.Coherent
  /-- A signed field is created with more than one bit. -/
  min_le : f.isSigned = true → f.min ≤ -2

theorem Inv.of_sameKind (hf : f.Inv) (hsame : f.SameKind f') (hcoherent : f'.Coherent) : f'.Inv where
  arith := hsame.arith.trans hf.arith
  coherent := hcoherent
  min_le hs := by
    rw [hsame.min]
    exact hf.min_le (hsame.isSigned.symm.trans hs)

theorem inv_create {nbits : ℕ} {isSigned hidden : Bool}
    (h : create nbits true isSigned hidden = some f) : f.Inv := by
  have hzero : beNat (List.replicate (nbitsToNbytes nbits) 0) = 0 := beNat_replicate_zero _
  have hcoherent : ∀ g : ArithField, g.nbits = nbits →
      g.bytes = List.replicate (nbitsToNbytes nbits) 0 → g.value = 0 → g.Coherent := by
    intro g hn hb hv
    have hwrap : wrap g.isSigned g.nbits 0 = 0 := by
      cases g.isSigned <;> simp [wrap]
    have hval : g.value = wrap g.isSigned g.nbits (beNat g.bytes) := by
      rw [hb, hzero, hv, Nat.cast_zero, hwrap]
    refine ⟨?_, ?_, ?_, hval⟩
    · rw [hb, List.length_replicate, Field.nbytes, hn]
    · rw [hb, hzero]
      exact Nat.two_pow_pos _
    · rw [hval]
      exact inWidth_wrap ..
  unfold create at h
  dsimp only at h
  split at h
  · split at h
    · next hs hn =>
      obtain rfl := Option.some.inj h
      refine ⟨rfl, hcoherent _ rfl rfl rfl, fun _ => ?_⟩
      have hle : (2 : ℤ) ^ 1 ≤ 2 ^ (nbits - 1) := pow_le_pow_right₀ (by norm_num) (by omega)
      show -2 ^ (nbits - 1) ≤ (-2 : ℤ)
      omega
    · cases h
  · next hs =>
    obtain rfl := Option.some.inj h
    exact ⟨rfl, hcoherent _ rfl rfl rfl, fun hs' => absurd hs' hs⟩

variable {cast shift}

/-- `two_comp_mod` is the balanced residue. -/
theorem twoCompMod_eq_bmod (src : ℤ) {uwidth : ℕ} (hpos : 0 < uwidth) (hlt : uwidth < 2 ^ 32) :
    Data.twoCompMod src uwidth = src.bmod (2 ^ uwidth) := by
  have hhalf : (uwidth + 2 ^ 32 - 1) % 2 ^ 32 = uwidth - 1 := by omega
  have hpow : (2 : ℤ) ^ uwidth = 2 * 2 ^ (uwidth - 1) := by
    rw [← pow_succ', Nat.sub_add_cancel hpos]
  have hwrap := wrap_signed hpos src
  rw [Data.twoCompMod]
  dsimp only
  rw [hhalf]
  show _ = wrap true uwidth src
  by_cases hrange : src < -2 ^ (uwidth - 1) ∨ 2 ^ (uwidth - 1) - 1 < src
  · rw [if_pos hrange, hwrap]
    by_cases hlow : src % 2 ^ uwidth < 2 ^ (uwidth - 1)
    · rw [if_pos hlow, if_neg (by omega)]
    · rw [if_neg hlow, if_pos (by omega)]
  · have hin : InWidth true uwidth src := ⟨by omega, by omega⟩
    rw [if_neg hrange, wrap_of_inWidth hpos hin]

/-- An operation that reads the bytes. -/
theorem step_sound_of_read (hf : f.Inv) {op : FieldOp} (hread : op.result cast = none)
    (h : ∀ f', f.step cast shift op = some f' → f'.Coherent ∧ f.SameKind f') :
    f.StepRight cast shift op ∧ ∀ f', f.step cast shift op = some f' → f'.Inv := by
  refine ⟨⟨fun f' hf' => (h f' hf').1, fun value hvalue => ?_⟩, fun f' hf' => ?_⟩
  · rw [hread] at hvalue
    cases hvalue
  · exact hf.of_sameKind (h f' hf').2 (h f' hf').1

/-- An operation that goes through and stores its result. -/
theorem step_sound_of_store (hf : f.Inv) {op : FieldOp}
    (h : ∀ value, op.result cast = some value → ∃ f', f.step cast shift op = some f' ∧
      f'.Coherent ∧ f' = { f with value := wrap f.isSigned f.nbits value, bytes := f'.bytes })
    (hnone : op.result cast = none → f.step cast shift op = none) :
    f.StepRight cast shift op ∧ ∀ f', f.step cast shift op = some f' → f'.Inv := by
  cases hresult : op.result cast with
  | none =>
    refine ⟨⟨fun f' hf' => ?_, fun value hvalue => ?_⟩, fun f' hf' => ?_⟩
    · rw [hnone hresult] at hf'
      cases hf'
    · rw [hresult] at hvalue
      cases hvalue
    · rw [hnone hresult] at hf'
      cases hf'
  | some value =>
    obtain ⟨g, hg, hcoherent, heq⟩ := h value hresult
    refine ⟨⟨fun f' hf' => ?_, fun value' hvalue' => ?_⟩, fun f' hf' => ?_⟩
    · obtain rfl := Option.some.inj (hg.symm.trans hf')
      exact hcoherent
    · obtain rfl := Option.some.inj (hresult.symm.trans hvalue')
      refine ⟨g, hg, ?_, ?_⟩
      · rw [heq]
      · rw [heq]
    · obtain rfl := Option.some.inj (hg.symm.trans hf')
      have hsame : f.SameKind g := by
        rw [heq]
        exact ⟨rfl, rfl, rfl⟩
      exact hf.of_sameKind hsame hcoherent

/-- **One operation.** -/
theorem step_sound (hf : f.Inv) {op : FieldOp} (hop : f.Sound cast op) :
    f.StepRight cast shift op ∧ ∀ f', f.step cast shift op = some f' → f'.Inv := by
  cases op with
  | extract data hdrOffset =>
    obtain ⟨hoff, hstray, hsign⟩ := hop
    exact step_sound_of_read hf rfl fun f' h => extract_coherent hf.arith hoff hstray hsign h
  | extractVL data hdrOffset computedNbits =>
    obtain ⟨hoff, hstray, hsign⟩ := hop
    refine step_sound_of_read hf rfl fun f' h => ?_
    rw [step, extractVL] at h
    split at h
    · cases h
    · obtain ⟨hcoherent, hs, ha, hm⟩ := extract_coherent
        (f := { f with
          nbits := computedNbits.toNat
          mask := shift.oneShl computedNbits.toNat - 1 }) hf.arith hoff hstray hsign h
      exact ⟨hcoherent, hs, ha, hm⟩
  | setBytes src =>
    obtain ⟨hlt, hsign⟩ := hop
    refine step_sound_of_read hf rfl fun f' h => ?_
    rw [step, setBytes] at h
    dsimp only at h
    split at h
    · next hlen =>
      rw [if_pos hf.arith] at h
      obtain rfl := Option.some.inj h
      obtain ⟨hs, ha, hm⟩ := syncValue_sameKind { f with bytes := src }
      exact ⟨syncValue_coherent hlen hlt hsign, hs, ha, hm⟩
    · cases h
  | data dataOp =>
    apply step_sound_of_store hf
    · intro value hvalue
      obtain ⟨⟨hmask, hmax, hmin⟩, hrange⟩ := hop value hvalue
      have hwidth : f.isSigned = true → 1 < f.nbits := by
        intro hs
        by_contra hle
        have hminle := hf.min_le hs
        rw [hmin hs, Nat.sub_eq_zero_of_le (not_lt.mp hle), pow_zero] at hminle
        omega
      obtain ⟨f', hf', hcoherent, heq⟩ := exportBytes_coherent (f := { f with value })
        ⟨hmask, hmax, hmin⟩ hwidth hrange
      refine ⟨f', ?_, hcoherent, heq⟩
      have hvalue' : dataOp.result cast = some value := hvalue
      rw [step, hvalue']
      exact hf'
    · intro hnone
      have hnone' : dataOp.result cast = none := hnone
      rw [step, hnone']
      rfl
  | twoCompMod src width =>
    obtain ⟨uwidth, hwidth, hpos, hlt, hsame⟩ := hop
    have hcast : cast.toUint width.value = some uwidth := by
      rw [hwidth, cast.toUint_of_lt uwidth hlt]
    have hself : wrap f.isSigned f.nbits f.value = f.value := by
      rw [hf.coherent.value_eq, wrap_wrap]
    have hres : Data.twoCompMod src.value uwidth = f.value := by
      rw [twoCompMod_eq_bmod src.value hpos hlt, hsame]
    apply step_sound_of_store hf
    · intro value hvalue
      rw [FieldOp.result] at hvalue
      rw [step, twoCompMod]
      split at hvalue
      · next ha =>
        rw [hcast, Option.map_some, hres] at hvalue
        obtain rfl := Option.some.inj hvalue
        rw [if_pos ha, hcast, Option.map_some, hres, hself]
        exact ⟨f, rfl, hf.coherent, rfl⟩
      · cases hvalue
    · intro hnone
      rw [FieldOp.result] at hnone
      rw [step, twoCompMod]
      split at hnone
      · rw [hcast] at hnone
        cases hnone
      · next ha => rw [if_neg ha]

/-- **Field coherence.**  In every run of sound operations on a field that is used for arithmetic,
each operation leaves the field coherent, and each operation of `Data` stores its result modulo
`2 ^ nbits`. -/
theorem coherent_of_meets {nbits : ℕ} {isSigned hidden : Bool} {f₀ : ArithField}
    {ops : List FieldOp} (hf : create nbits true isSigned hidden = some f₀)
    (hC : RunMeets (step cast shift) (Sound cast) f₀ ops) :
    RunMeets (step cast shift) (StepRight cast shift) f₀ ops ∧
      ∀ f, runFrom (step cast shift) f₀ ops = some f → f.Coherent :=
  ⟨RunMeets.of_invariant (fun _ _ hI hop => step_sound hI hop) (inv_create hf) hC,
    fun _ hrun => (runFrom_invariant_of_meets (fun _ _ _ hI hop hs => (step_sound hI hop).2 _ hs)
      (inv_create hf) hC hrun).coherent⟩

/-- A signed byte that is set to -3, and then to the byte of -2. -/
theorem coherent_signed_byte :
    RunMeets (step .checked .wrapping) (StepRight .checked .wrapping)
        ⟨⟨⟨8, [0], false⟩, true, true, 0⟩, 255, 127, -128⟩
        [.data (.set (-3)), .setBytes [0xfe]] ∧
      ∀ f, runFrom (step .checked .wrapping) ⟨⟨⟨8, [0], false⟩, true, true, 0⟩, 255, 127, -128⟩
        [.data (.set (-3)), .setBytes [0xfe]] = some f → f.Coherent := by
  have hcreate : create 8 true true false =
      some ⟨⟨⟨8, [0], false⟩, true, true, 0⟩, 255, 127, -128⟩ := rfl
  refine coherent_of_meets hcreate ⟨?_, ?_⟩
  · intro value hvalue
    obtain rfl := Option.some.inj hvalue
    exact ⟨⟨rfl, fun _ => rfl, fun _ => rfl⟩, fun _ => Or.inl (by decide)⟩
  · intro f hf
    have hset : step .checked .wrapping ⟨⟨⟨8, [0], false⟩, true, true, 0⟩, 255, 127, -128⟩
        (.data (.set (-3))) = some ⟨⟨⟨8, [0xfd], false⟩, true, true, -3⟩, 255, 127, -128⟩ := rfl
    obtain rfl := Option.some.inj (hset.symm.trans hf)
    exact ⟨⟨by decide, fun _ _ _ => rfl⟩, fun _ _ => trivial⟩

/-- A signed byte that is set to 200 has the bytes of -56 and keeps the value. -/
theorem signed_set_not_coherent : ∃ f₀ f : ArithField, create 8 true true false = some f₀ ∧
    runFrom (step .checked .wrapping) f₀ [.data (.set 200)] = some f ∧
      f.value = 200 ∧ f.bytes = [0xc8] ∧ ¬ f.Coherent := by
  refine ⟨_, _, rfl, rfl, rfl, rfl, fun h => ?_⟩
  have hlt : (200 : ℤ) < 2 ^ 7 := h.inWidth.2
  norm_num at hlt

end ArithField

end Bm
