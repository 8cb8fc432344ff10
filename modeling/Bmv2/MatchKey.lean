/-
# Match keys

`MatchKeyBuilder` (`match_units.h`, `match_units.cpp`) lays out the fields of a
table key, builds the key of a packet, and turns the match parameters of the
control plane into the key of a table entry.

The fields are pushed in the order of the P4 program.  `build` reorders them by
match type (RANGE, VALID, EXACT, LPM, TERNARY) and collects the static masks of the
fields in one mask over the whole key.  The functions that can hit a failing
assertion or an out-of-range access return `none` there.
-/
import Bmv2.Handles
import Bmv2.Lib.Blocks
import Bmv2.Phv

namespace Bm

/-! ## Parameters and fields -/

/-- `MatchKeyParam::Type`, in the order the implementation sorts by. -/
inductive MatchType where
  | range
  | valid
  | exact
  | lpm
  | ternary
  deriving DecidableEq, Repr, Inhabited

/-- The position of a match type in the enumeration. -/
def MatchType.toNat : MatchType → ℕ
  | .range => 0
  | .valid => 1
  | .exact => 2
  | .lpm => 3
  | .ternary => 4

/-- `MatchKeyParam`: `key` is the start of a range, `mask` its end. -/
structure MatchKeyParam where
  type : MatchType
  key : ByteContainer
  mask : ByteContainer := []
  prefixLength : ℤ := 0
  deriving DecidableEq, Inhabited

/-- `MatchKeyBuilder::KeyF`. -/
structure KeyF where
  header : ℕ
  fOffset : ℕ
  mtype : MatchType
  nbits : ℕ
  deriving DecidableEq, Inhabited

/-- The number of key bytes a field takes. -/
def KeyF.nbytes (f : KeyF) : ℕ := nbitsToNbytes f.nbits

/-- An element of the key of a table in the configuration: a field with an optional
static mask, or the validity of a header. -/
structure KeyField where
  header : ℕ
  fOffset : ℕ := 0
  mtype : MatchType
  nbits : ℕ := 8
  mask : Option ByteContainer := none
  deriving DecidableEq

/-- `MatchKeyBuilder` (the names of the fields, which only logs print, are left
out). -/
structure MatchKeyBuilder where
  keyInput : List KeyF := []
  nbytesKey : ℕ := 0
  hasBigMask : Bool := false
  bigMask : ByteContainer := []
  keyMapping : List ℕ := []
  invMapping : List ℕ := []
  keyOffsets : List ℕ := []
  built : Bool := false
  masks : List ByteContainer := []
  deriving DecidableEq

namespace MatchKeyBuilder

/-- `MatchKeyBuilder::push_back`. -/
def pushBack (kb : MatchKeyBuilder) (input : KeyF) (mask : ByteContainer) : MatchKeyBuilder :=
  { kb with
    keyInput := kb.keyInput ++ [input]
    nbytesKey := kb.nbytesKey + input.nbytes
    masks := kb.masks ++ [mask] }

/-- `push_back_field` without a mask. -/
def pushBackField (kb : MatchKeyBuilder) (header fOffset nbits : ℕ) (mtype : MatchType) :
    MatchKeyBuilder :=
  kb.pushBack ⟨header, fOffset, mtype, nbits⟩ (List.replicate (nbitsToNbytes nbits) 0xff)

/-- `push_back_field` with a mask, whose size is asserted. -/
def pushBackFieldMask (kb : MatchKeyBuilder) (header fOffset nbits : ℕ) (mask : ByteContainer)
    (mtype : MatchType) : Option MatchKeyBuilder :=
  if mask.length = nbitsToNbytes nbits then
    some { kb.pushBack ⟨header, fOffset, mtype, nbits⟩ mask with hasBigMask := true }
  else none

/-- `push_back_valid_header`: one byte, as if it were a field of 8 bits. -/
def pushBackValidHeader (kb : MatchKeyBuilder) (header : ℕ) : MatchKeyBuilder :=
  kb.pushBack ⟨header, 0, .valid, 8⟩ [0xff]

/-- Add an element of a table key, as `P4Objects` does. -/
def pushField (kb : MatchKeyBuilder) (f : KeyField) : Option MatchKeyBuilder :=
  match f.mtype, f.mask with
  | .valid, _ => some (kb.pushBackValidHeader f.header)
  | _, none => some (kb.pushBackField f.header f.fOffset f.nbits f.mtype)
  | _, some mask => kb.pushBackFieldMask f.header f.fOffset f.nbits mask f.mtype

/-- The builder of a table key. -/
def ofFields (fs : List KeyField) : Option MatchKeyBuilder := fs.foldlM pushField {}

/-! ## Building the layout -/

/-- `sort_fn`, in its reflexive form: by match type, then by position. -/
def sortLe (input : List KeyF) (i₁ i₂ : ℕ) : Prop :=
  (input.getD i₁ default).mtype.toNat < (input.getD i₂ default).mtype.toNat ∨
    (input.getD i₁ default).mtype.toNat = (input.getD i₂ default).mtype.toNat ∧ i₁ ≤ i₂

instance (input : List KeyF) : DecidableRel (sortLe input) := fun _ _ =>
  inferInstanceAs (Decidable (_ ∨ _))

/-- `inv_mapping`: the positions of the fields in the P4 key, sorted. -/
def buildInvMapping (input : List KeyF) : List ℕ :=
  (List.range input.length).insertionSort (sortLe input)

/-- `key_mapping`, the inverse of `inv_mapping`. -/
def buildKeyMapping (invMapping : List ℕ) : List ℕ :=
  invMapping.foldl (fun mapping idx => mapping.set (invMapping.getD idx 0) idx)
    (List.replicate invMapping.length 0)

/-- `key_offsets`: the offsets of the sorted fields, in the order of the P4 key. -/
def buildKeyOffsets (newInput : List KeyF) (keyMapping : List ℕ) : List ℕ :=
  keyMapping.map fun i => (blockOffsets (newInput.map KeyF.nbytes) 0).getD i 0

/-- `big_mask`: the masks of the fields, each at the offset of its field. -/
def buildBigMask (nbytesKey : ℕ) (keyOffsets : List ℕ) (masks : List ByteContainer) :
    ByteContainer :=
  (List.range keyOffsets.length).foldl
    (fun bigMask i => copyAt bigMask (keyOffsets.getD i 0) (masks.getD i []))
    (List.replicate nbytesKey 0)

/-- `MatchKeyBuilder::build`. -/
def build (kb : MatchKeyBuilder) : MatchKeyBuilder :=
  if kb.built then kb else
  let invMapping := buildInvMapping kb.keyInput
  let newInput := invMapping.map fun idx => kb.keyInput.getD idx default
  let keyMapping := buildKeyMapping invMapping
  let keyOffsets := buildKeyOffsets newInput keyMapping
  { kb with
    keyInput := newInput
    bigMask := buildBigMask kb.nbytesKey keyOffsets kb.masks
    keyMapping := keyMapping
    invMapping := invMapping
    keyOffsets := keyOffsets
    built := true }

/-- `apply_big_mask`. -/
def applyBigMask (kb : MatchKeyBuilder) (key : ByteContainer) : Option ByteContainer :=
  if kb.hasBigMask then applyMask key kb.bigMask else some key

/-! ## The key of a packet -/

/-- What one field contributes to the key of a packet: a header that is not valid
counts as all zero, unless the field is hidden. -/
def keyBytes (phv : PHV) (f : KeyF) : Option ByteContainer := do
  let header ← phv.headers[f.header]?
  if f.mtype = .valid then
    pure [if header.isValid then 1 else 0]
  else
    let field ← header.fields[f.fOffset]?
    if header.isValid || field.hidden then pure field.bytes
    else pure (List.replicate field.nbytes 0)

/-- `MatchKeyBuilder::operator()`: the key of a packet. -/
def buildKey (kb : MatchKeyBuilder) (phv : PHV) : Option ByteContainer := do
  let parts ← kb.keyInput.mapM (keyBytes phv)
  if kb.hasBigMask then applyMask parts.flatten kb.bigMask else pure parts.flatten

/-! ## Checking match parameters -/

/-- The checks of `match_params_sanity_check` on one parameter.  A negative prefix
length is larger than any width once it is cast to `size_t`. -/
def paramOk (param : MatchKeyParam) (f : KeyF) : Bool :=
  param.type == f.mtype && param.key.length == f.nbytes &&
    match param.type with
    | .valid | .exact => true
    | .lpm => decide (0 ≤ param.prefixLength ∧ param.prefixLength ≤ f.nbits)
    | .ternary => param.mask.length == f.nbytes
    | .range => param.mask.length == f.nbytes &&
        memcmp param.key param.mask f.nbytes != some .gt

/-- `match_params_sanity_check`. -/
def matchParamsSanityCheck (kb : MatchKeyBuilder) (params : List MatchKeyParam) : Bool :=
  params.length == kb.keyInput.length &&
    (kb.invMapping.zip kb.keyInput).all fun (pi, f) =>
      match params[pi]? with
      | none => false
      | some param => paramOk param f

end MatchKeyBuilder

/-! ## Entry keys -/

/-- `get_byte0_mask`. -/
def getByte0Mask (bitwidth : ℕ) : Byte :=
  if bitwidth % 8 = 0 then 0xff else BitVec.ofNat 8 (2 ^ (bitwidth % 8) - 1)

/-- `create_mask_from_pref_len`. -/
def createMaskFromPrefLen (prefixLength size : ℕ) : ByteContainer :=
  let mask := List.replicate (prefixLength / 8) 0xff ++ List.replicate (size - prefixLength / 8) 0
  if prefixLength % 8 = 0 then mask
  else mask.set (prefixLength / 8) (0xff#8 <<< (8 - prefixLength % 8))

/-- The two lines that an iteration of `match_params_to_entry` starts with: append the
key of the parameter, then mask its first byte (which must exist). -/
def appendParamKey (data : ByteContainer) (firstByte : ℕ) (key : ByteContainer) (nbits : ℕ) :
    Option ByteContainer :=
  let data := data ++ key
  if firstByte < data.length then
    some (data.modify firstByte (· &&& getByte0Mask nbits))
  else none

/-- `ExactMatchKey`.  The version that `MatchKey` carries is kept next to the key in
`Entry`. -/
structure ExactMatchKey where
  data : ByteContainer := []
  deriving DecidableEq

/-- `LPMMatchKey`. -/
structure LPMMatchKey where
  data : ByteContainer := []
  prefixLength : ℤ := 0
  deriving DecidableEq

/-- `TernaryMatchKey`: a default-constructed key has the largest priority value. -/
structure TernaryMatchKey where
  data : ByteContainer := []
  mask : ByteContainer := []
  priority : Int32 := Int32.maxValue
  deriving DecidableEq

/-- `RangeMatchKey`. -/
structure RangeMatchKey extends TernaryMatchKey where
  rangeWidths : List ℕ := []
  deriving DecidableEq

instance : Inhabited ExactMatchKey := ⟨{}⟩
instance : Inhabited LPMMatchKey := ⟨{}⟩
instance : Inhabited TernaryMatchKey := ⟨{}⟩
instance : Inhabited RangeMatchKey := ⟨{}⟩

/-- The loop of every `match_params_to_entry`, over the parameters in the order of the
implementation; `upd` is what it does to the rest of the key. -/
def paramLoop {X : Type} (params : List MatchKeyParam) (upd : X → MatchKeyParam → Option X) :
    List (ℕ × KeyF) → ByteContainer → ℕ → X → Option (ByteContainer × X)
  | [], data, _, x => some (data, x)
  | (pi, f) :: rest, data, firstByte, x => do
      let param ← params[pi]?
      let data ← appendParamKey data firstByte param.key f.nbits
      let x ← upd x param
      paramLoop params upd rest data (firstByte + param.key.length) x

/-- `match_params_to_entry` for `ExactMatchKey`. -/
def exactMatchParamsToEntry (kb : MatchKeyBuilder) (params : List MatchKeyParam) :
    Option ExactMatchKey := do
  let (data, _) ← paramLoop params (fun _ _ => some ()) (kb.invMapping.zip kb.keyInput) [] 0 ()
  pure { data }

/-- The bits that a parameter adds to the prefix length of an LPM key; a RANGE or
TERNARY parameter fails an assertion. -/
def paramPrefixLength (param : MatchKeyParam) : Option ℤ :=
  match param.type with
  | .valid => some 8
  | .exact => some (8 * param.key.length)
  | .lpm => some param.prefixLength
  | .range | .ternary => none

/-- `match_params_to_entry` for `LPMMatchKey`. -/
def lpmMatchParamsToEntry (kb : MatchKeyBuilder) (params : List MatchKeyParam) :
    Option LPMMatchKey := do
  let (data, prefixLength) ← paramLoop params
    (fun prefixLength param => (paramPrefixLength param).map (prefixLength + ·))
    (kb.invMapping.zip kb.keyInput) [] 0 0
  pure { data, prefixLength }

/-- The mask that a parameter contributes to a ternary or range key. -/
def paramMask (param : MatchKeyParam) : ByteContainer :=
  match param.type with
  | .valid => [0xff]
  | .exact => List.replicate param.key.length 0xff
  | .lpm => createMaskFromPrefLen param.prefixLength.toNat param.key.length
  | .range | .ternary => param.mask

/-- `match_params_to_entry_ternary_and_range`: the data and the mask. -/
def matchParamsToEntryTernaryAndRange (kb : MatchKeyBuilder) (params : List MatchKeyParam) :
    Option (ByteContainer × ByteContainer) :=
  paramLoop params (fun mask param => some (mask ++ paramMask param))
    (kb.invMapping.zip kb.keyInput) [] 0 []

/-- `match_params_to_entry` for `TernaryMatchKey`: `format_ternary_key` masks the
data, whose first byte must exist. -/
def ternaryMatchParamsToEntry (kb : MatchKeyBuilder) (params : List MatchKeyParam) :
    Option TernaryMatchKey := do
  let (data, mask) ← matchParamsToEntryTernaryAndRange kb params
  if data.length = mask.length ∧ data ≠ [] then some { data := andBytes data mask, mask }
  else none

/-- `match_params_to_entry` for `RangeMatchKey`: only the data behind the ranges is
masked. -/
def rangeMatchParamsToEntry (kb : MatchKeyBuilder) (params : List MatchKeyParam) :
    Option RangeMatchKey := do
  let (data, mask) ← matchParamsToEntryTernaryAndRange kb params
  let rangeWidths ← kb.invMapping.foldlM (fun widths pi => do
    let param ← params[pi]?
    pure (if param.type = .range then widths ++ [param.key.length] else widths)) []
  let w := rangeWidths.sum
  if data.length = mask.length ∧ w ≤ data.length then
    some { data := data.take w ++ andBytes (data.drop w) (mask.drop w), mask, rangeWidths }
  else none

/-! ## Entry keys back to match parameters -/

/-- The bytes of the field at position `i` of the P4 key, with its description. -/
def MatchKeyBuilder.fieldBytes (kb : MatchKeyBuilder) (i : ℕ) (data : ByteContainer) :
    Option (KeyF × ByteContainer) := do
  let impIdx ← kb.keyMapping[i]?
  let fInfo ← kb.keyInput[impIdx]?
  let byteOffset ← kb.keyOffsets[i]?
  if byteOffset + fInfo.nbytes ≤ data.length then
    some (fInfo, (data.drop byteOffset).take fInfo.nbytes)
  else none

/-- `pref_len_from_mask`: the number of bits set, byte by byte. -/
def prefLenFromMask (mask : ByteContainer) : ℤ :=
  (mask.map fun c =>
    if c = 0xff then 8 else
    let c := c - (c.sshiftRight 1 &&& 0x55)
    let c := (c &&& 0x33) + (c.sshiftRight 2 &&& 0x33)
    (((c + c.sshiftRight 4) &&& 0x0f).toNat : ℤ)).sum

/-- `entry_to_match_params` for `ExactMatchKey`. -/
def exactEntryToMatchParams (kb : MatchKeyBuilder) (key : ExactMatchKey) :
    Option (List MatchKeyParam) :=
  (List.range kb.keyMapping.length).mapM fun i => do
    let (fInfo, bytes) ← kb.fieldBytes i key.data
    if fInfo.mtype = .valid ∨ fInfo.mtype = .exact then
      some { type := fInfo.mtype, key := bytes }
    else none

/-- `entry_to_match_params` for `LPMMatchKey`: what the other fields leave of the prefix
length goes to the LPM field, or to the first field when there is none. -/
def lpmEntryToMatchParams (kb : MatchKeyBuilder) (key : LPMMatchKey) :
    Option (List MatchKeyParam) := do
  let (params, lpmIdx, pref) ← (List.range kb.keyMapping.length).foldlM
    (fun (params, lpmIdx, pref) i => do
      let (fInfo, bytes) ← kb.fieldBytes i key.data
      if fInfo.mtype = .ternary then none
      else
        let params := params ++ [{ type := fInfo.mtype, key := bytes : MatchKeyParam }]
        if fInfo.mtype = .lpm then some (params, i, pref)
        else some (params, lpmIdx, pref - 8 * (fInfo.nbytes : ℤ)))
    (([] : List MatchKeyParam), 0, key.prefixLength)
  let param ← params[lpmIdx]?
  pure (params.set lpmIdx { param with prefixLength := pref })

/-- `entry_to_match_params` for `TernaryMatchKey`, and for `RangeMatchKey`, which
inherits from it. -/
def ternaryEntryToMatchParams (kb : MatchKeyBuilder) (key : TernaryMatchKey) :
    Option (List MatchKeyParam) :=
  (List.range kb.keyMapping.length).mapM fun i => do
    let (fInfo, bytes) ← kb.fieldBytes i key.data
    match fInfo.mtype with
    | .valid | .exact => some { type := fInfo.mtype, key := bytes }
    | .range | .ternary => do
        let (_, mask) ← kb.fieldBytes i key.mask
        some { type := fInfo.mtype, key := bytes, mask }
    | .lpm => do
        let (_, mask) ← kb.fieldBytes i key.mask
        some { type := fInfo.mtype, key := bytes, prefixLength := prefLenFromMask mask }

/-- What a match unit does with the keys of its kind. -/
class MatchKey (K : Type) where
  data : K → ByteContainer
  withData : K → ByteContainer → K
  matchParamsToEntry : MatchKeyBuilder → List MatchKeyParam → Option K
  entryToMatchParams : MatchKeyBuilder → K → Option (List MatchKeyParam)
  /-- `set_priority`; only ternary and range keys have one. -/
  setPriority : K → Int32 → K
  /-- `get_priority`. -/
  getPriority : K → Int32

instance : MatchKey ExactMatchKey where
  data k := k.data
  withData k data := { k with data }
  matchParamsToEntry := exactMatchParamsToEntry
  entryToMatchParams := exactEntryToMatchParams
  setPriority k _ := k
  getPriority _ := -1

instance : MatchKey LPMMatchKey where
  data k := k.data
  withData k data := { k with data }
  matchParamsToEntry := lpmMatchParamsToEntry
  entryToMatchParams := lpmEntryToMatchParams
  setPriority k _ := k
  getPriority _ := -1

instance : MatchKey TernaryMatchKey where
  data k := k.data
  withData k data := { k with data }
  matchParamsToEntry := ternaryMatchParamsToEntry
  entryToMatchParams := ternaryEntryToMatchParams
  setPriority k priority := { k with priority }
  getPriority k := k.priority

instance : MatchKey RangeMatchKey where
  data k := k.data
  withData k data := { k with data }
  matchParamsToEntry := rangeMatchParamsToEntry
  entryToMatchParams kb k := ternaryEntryToMatchParams kb k.toTernaryMatchKey
  setPriority k priority := { k with priority }
  getPriority k := k.priority

end Bm
