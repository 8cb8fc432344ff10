/-
# Fields, headers and the packet header vector

The state of the headers of a packet, as `Field`, `Header` and `PHV` hold it.
-/
import Bmv2.Lib.Bytes

namespace Bm

/-- `ByteContainer`: a vector of bytes. -/
abbrev ByteContainer := List Byte

/-- `nbits_to_nbytes`. -/
def nbitsToNbytes (nbits : ℕ) : ℕ := (nbits + 7) / 8

/-- `ByteContainer::apply_mask`: asserts that the sizes agree. -/
def applyMask (key mask : ByteContainer) : Option ByteContainer :=
  if key.length = mask.length then some (andBytes key mask) else none

/-- `Field`: the bytes of a header field. -/
structure Field where
  nbits : ℕ
  bytes : ByteContainer
  hidden : Bool
  deriving DecidableEq

/-- `Field::get_nbytes`. -/
def Field.nbytes (f : Field) : ℕ := nbitsToNbytes f.nbits

/-- The bytes of a field hold a number of `nbits` bits, padded with zero bits in
front. -/
structure Field.Canonical (f : Field) : Prop where
  length_bytes : f.bytes.length = f.nbytes
  beNat_lt : beNat f.bytes < 2 ^ f.nbits

/-- `Header`: a header instance. -/
structure Header where
  fields : List Field
  valid : Bool
  metadata : Bool
  deriving DecidableEq

/-- `Header::is_valid`. -/
def Header.isValid (h : Header) : Bool := h.metadata || h.valid

/-- `PHV`: the header instances of a packet, by header id. -/
structure PHV where
  headers : List Header
  deriving DecidableEq

end Bm
