/-
# Headers in the packet

`Field` with its `Data` part (`fields.h`, `data.h`) and `Header` (`headers.cpp`):
how headers are read from the bytes of a packet, changed and written back.
-/
import Bmv2.Extract

namespace Bm

/-- `mpz_export` to `n` bytes, most significant first. -/
def natToBytes : ℕ → ℕ → List Byte
  | 0, _ => []
  | n + 1, v => BitVec.ofNat 8 (v >>> (8 * n)) :: natToBytes n v

/-- `Field`, as a `Data` with a value: the value is used when `arith` is set. -/
structure DataField extends Field where
  isSigned : Bool
  arith : Bool
  value : ℤ
  deriving DecidableEq

namespace DataField

/-- `Field::sync_value`: the value that the bytes denote. -/
def syncValue (f : DataField) : DataField :=
  let value := beNat f.bytes
  if f.isSigned && value.testBit (f.nbits - 1) then
    -- `clear_bit`, then `value += min`
    { f with value := (value - 2 ^ (f.nbits - 1) : ℕ) - (2 ^ (f.nbits - 1) : ℕ) }
  else { f with value }

/-- `Field::export_bytes`: the value is brought into range and written to the bytes. -/
def exportBytes (f : DataField) : DataField :=
  let mask : ℤ := 2 ^ f.nbits - 1
  let max : ℤ := 2 ^ (f.nbits - 1) - 1
  let min : ℤ := -2 ^ (f.nbits - 1)
  if !f.isSigned then
    -- `value &= mask`
    let value := f.value % 2 ^ f.nbits
    { f with value, bytes := natToBytes f.nbytes value.toNat }
  else
    let value :=
      if f.value < min ∨ mask < f.value then
        let value := f.value % 2 ^ f.nbits
        if max < value then value - (mask + 1) else value
      else f.value
    if 0 ≤ value then { f with value, bytes := natToBytes f.nbytes value.toNat }
    else { f with value, bytes := natToBytes f.nbytes (value - min - min).toNat }

/-- `Data::set` and the arithmetic of `Data`: a new value, then `export_bytes`. -/
def set (f : DataField) (value : ℤ) : DataField := ({ f with value } : DataField).exportBytes

/-- `Field::set_bytes`: asserts the size, and takes the bytes as they are. -/
def setBytes (f : DataField) (src : List Byte) : Option DataField :=
  if src.length = f.nbytes then
    let f := { f with bytes := src }
    some (if f.arith then f.syncValue else f)
  else none

/-- `Field::extract`. -/
def extract (f : DataField) (data : List Byte) (hdrOffset : ℕ) : Option DataField := do
  let bytes ← genericExtract data hdrOffset f.nbits
  let f := { f with bytes }
  pure (if f.arith then f.syncValue else f)

/-- `Field::extract_VL`: the field takes the computed width; a container of negative size is an
error. -/
def extractVL (f : DataField) (data : List Byte) (hdrOffset : ℕ) (computedNbits : ℤ) :
    Option DataField :=
  if computedNbits < 0 then none
  else extract { f with nbits := computedNbits.toNat } data hdrOffset

/-- `Field::deparse`. -/
def deparse (f : DataField) (data : List Byte) (hdrOffset : ℕ) : Option (List Byte) :=
  genericDeparse f.bytes f.nbits data hdrOffset

end DataField

/-- `Header`; the hidden field `$valid$` comes last, `vlOffset` is the place of a field of
variable length. -/
structure DataHeader where
  fields : List DataField
  valid : Bool
  metadata : Bool
  nbytesPacket : ℕ
  vlOffset : Option ℕ
  deriving DecidableEq

namespace DataHeader

/-- `Header::is_valid`. -/
def isValid (h : DataHeader) : Bool := h.metadata || h.valid

/-- `Header::mark_valid`: sets the hidden field as well. -/
def markValid (h : DataHeader) : DataHeader :=
  { h with valid := true, fields := h.fields.modify (h.fields.length - 1) (·.set 1) }

/-- The loop of `Header::extract`: it ends at the hidden fields. -/
def extractFields : List DataField → List Byte → ℕ → Option (List DataField)
  | [], _, _ => some []
  | f :: fs, data, hdrOffset =>
      if f.hidden then some (f :: fs)
      else do
        let f ← f.extract data hdrOffset
        let hdrOffset := hdrOffset + f.nbits
        let fs ← extractFields fs (data.drop (hdrOffset / 8)) (hdrOffset % 8)
        pure (f :: fs)

/-- The loop of `Header::extract_VL`, after the fields `done` of `nbits` bits in all: the
expression for the length sees the fields that are extracted already. -/
def extractVLFields (vlOffset : ℕ) (vlExpr : List DataField → ℤ) :
    List DataField → List DataField → List Byte → ℕ → ℕ → Option (List DataField × ℕ)
  | done, [], _, _, nbits => some (done, nbits)
  | done, f :: fs, data, hdrOffset, nbits =>
      if f.hidden then some (done ++ f :: fs, nbits)
      else do
        let f ← if done.length = vlOffset then f.extractVL data hdrOffset (vlExpr (done ++ f :: fs))
          else f.extract data hdrOffset
        let hdrOffset := hdrOffset + f.nbits
        extractVLFields vlOffset vlExpr (done ++ [f]) fs (data.drop (hdrOffset / 8)) (hdrOffset % 8)
          (nbits + f.nbits)

/-- `Header::extract`; a header of variable length that is not whole bytes fails an assertion. -/
def extract (h : DataHeader) (vlExpr : List DataField → ℤ) (data : List Byte) :
    Option DataHeader :=
  match h.vlOffset with
  | none => do
      let fields ← extractFields h.fields data 0
      pure { h with fields }.markValid
  | some vlOffset => do
      let (fields, nbits) ← extractVLFields vlOffset vlExpr [] h.fields data 0 0
      if nbits % 8 = 0 then pure { h with fields, nbytesPacket := nbits / 8 }.markValid else none

/-- The loop of `Header::deparse`. -/
def deparseFields : List DataField → List Byte → ℕ → Option (List Byte)
  | [], data, _ => some data
  | f :: fs, data, hdrOffset =>
      if f.hidden then some data
      else do
        let data ← f.deparse data hdrOffset
        let hdrOffset := hdrOffset + f.nbits
        let rest ← deparseFields fs (data.drop (hdrOffset / 8)) (hdrOffset % 8)
        pure (data.take (hdrOffset / 8) ++ rest)

/-- `Header::deparse`: the buffer with the header written to its front. -/
def deparse (h : DataHeader) (data : List Byte) : Option (List Byte) := deparseFields h.fields data 0

end DataHeader

/-! ## Bytes and values -/

@[simp] theorem length_natToBytes (n v : ℕ) : (natToBytes n v).length = n := by
  induction n with
  | zero => rfl
  | succ n ih => rw [natToBytes, List.length_cons, ih]

theorem bitAt_natToBytes {n i : ℕ} (v : ℕ) (h : i < 8 * n) :
    bitAt (natToBytes n v) i = v.testBit (8 * n - 1 - i) := by
  induction n generalizing i with
  | zero => simp at h
  | succ n ih =>
    rw [natToBytes, bitAt_cons]
    by_cases hi : i < 8
    · rw [if_pos hi, BitVec.getMsbD, decide_eq_true hi, Bool.true_and, BitVec.getLsbD_ofNat,
        Nat.testBit_shiftRight, decide_eq_true (by omega), Bool.true_and]
      congr 1
      omega
    · rw [if_neg hi, ih (by omega)]
      congr 1
      omega

namespace DataField

/-- The bytes that `export_bytes` writes denote the value modulo `2 ^ nbits`. -/
theorem exportBytes_bytes (f : DataField) (hsigned : f.isSigned = true → 1 < f.nbits) :
    f.exportBytes.bytes = natToBytes f.nbytes (f.value % 2 ^ f.nbits).toNat := by
  unfold exportBytes
  dsimp only
  cases hs : f.isSigned with
  | false => rfl
  | true =>
    have hM : (2 : ℤ) ^ f.nbits = 2 * 2 ^ (f.nbits - 1) := by
      rw [← pow_succ', Nat.sub_add_cancel (by have := hsigned hs; omega)]
    have hpos : (0 : ℤ) < 2 ^ (f.nbits - 1) := by positivity
    generalize (2 : ℤ) ^ (f.nbits - 1) = half at *
    rw [hM]
    have hmod := Int.emod_nonneg f.value (show 2 * half ≠ 0 by omega)
    have hmodlt := Int.emod_lt_of_pos f.value (show 0 < 2 * half by omega)
    rw [Bool.not_true, if_neg (by simp)]
    by_cases hrange : f.value < -half ∨ 2 * half - 1 < f.value
    · rw [if_pos hrange]
      by_cases hhigh : half - 1 < f.value % (2 * half)
      · rw [if_pos hhigh, if_neg (by omega)]
        show natToBytes _ _ = _
        congr 2
        omega
      · rw [if_neg hhigh, if_pos hmod]
    · rw [if_neg hrange]
      by_cases hneg : 0 ≤ f.value
      · rw [if_pos hneg, Int.emod_eq_of_lt hneg (by omega)]
      · rw [if_neg hneg]
        show natToBytes _ _ = _
        have hwrap : (f.value + 2 * half) % (2 * half) = f.value % (2 * half) := Int.add_emod_right ..
        rw [← hwrap, Int.emod_eq_of_lt (by omega) (by omega)]
        congr 2
        omega

theorem set_toField (f : DataField) (value : ℤ) :
    (f.set value).toField = { f.toField with bytes := (f.set value).bytes } := by
  unfold set exportBytes
  dsimp only
  repeat' split
  all_goals rfl

@[simp] theorem set_nbits (f : DataField) (value : ℤ) : (f.set value).nbits = f.nbits := by
  rw [set_toField]

@[simp] theorem set_hidden (f : DataField) (value : ℤ) : (f.set value).hidden = f.hidden := by
  rw [set_toField]

@[simp] theorem set_isSigned (f : DataField) (value : ℤ) :
    (f.set value).isSigned = f.isSigned := by
  unfold set exportBytes
  dsimp only
  repeat' split
  all_goals rfl

theorem set_bytes (f : DataField) (value : ℤ) (hsigned : f.isSigned = true → 1 < f.nbits) :
    (f.set value).bytes = natToBytes f.nbytes (value % 2 ^ f.nbits).toNat :=
  exportBytes_bytes { f with value } hsigned

@[simp] theorem syncValue_toField (f : DataField) : f.syncValue.toField = f.toField := by
  unfold syncValue
  dsimp only
  split
  · rfl
  · rfl

@[simp] theorem syncValue_isSigned (f : DataField) : f.syncValue.isSigned = f.isSigned := by
  unfold syncValue
  dsimp only
  split
  · rfl
  · rfl

/-- What `set_bytes` does: the bytes, and the value when the field is used for arithmetic. -/
theorem setBytes_eq_some {f f' : DataField} {src : List Byte} (h : f.setBytes src = some f') :
    src.length = f.nbytes ∧ f'.toField = { f.toField with bytes := src } ∧
      f'.isSigned = f.isSigned := by
  unfold setBytes at h
  split at h
  · next hlen =>
    obtain rfl := Option.some.inj h
    dsimp only
    split
    · exact ⟨hlen, syncValue_toField _, syncValue_isSigned _⟩
    · exact ⟨hlen, rfl, rfl⟩
  · simp at h

/-- What `extract` does to a field. -/
theorem extract_eq_some {f f' : DataField} {data : List Byte} {hdrOffset : ℕ}
    (h : f.extract data hdrOffset = some f') :
    ∃ bytes, genericExtract data hdrOffset f.nbits = some bytes ∧
      f'.toField = { f.toField with bytes } ∧ f'.isSigned = f.isSigned := by
  unfold extract at h
  obtain ⟨bytes, hbytes, hf⟩ := Option.bind_eq_some_iff.mp h
  obtain rfl := Option.some.inj hf
  refine ⟨bytes, hbytes, ?_⟩
  split
  · exact ⟨syncValue_toField _, syncValue_isSigned _⟩
  · exact ⟨rfl, rfl⟩

end DataField

end Bm
