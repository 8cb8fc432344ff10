/-
# Parse value sets

`ParseVSet` (`parser.cpp`) keeps the values of a parse value set, and for every
switch case that uses the set a shadow copy: the values padded to the layout of
the transition key and masked.  `EqualUnder` and `Agrees` compare two values, and
a value and a key, field by field under the mask.

* `padding_spec`: the padded value holds every field, with zeros in front of it
  or, for a field as in `StrayPadding`, bits of the field before it;
* `vset_matches`: runs in which no masked padding is set and no removed value is
  equal under the mask to another one.
-/
import Bmv2.Extract
import Bmv2.Lib.Runs

namespace Bm

/-- `ParseVSetCommon`: a set of values, padded and masked unless it is the base set. -/
structure ParseVSetCommon where
  withPadding : Bool
  compressedBitwidth : ℕ
  bitwidths : List ℕ
  mask : Option ByteContainer
  set : Finset ByteContainer
  deriving DecidableEq

namespace ParseVSetCommon

/-- The field `width`, in bytes, as `compute_width` sets it. -/
def width (s : ParseVSetCommon) : ℕ :=
  if s.withPadding then (s.bitwidths.map nbitsToNbytes).sum else nbitsToNbytes s.compressedBitwidth

/-- The loop of `do_padding`. -/
def padding : List ℕ → List Byte → ℕ → Option ByteContainer
  | [], _, _ => some []
  | w :: widths, src, offset => do
      let field ← genericExtract src offset w
      let rest ← padding widths (src.drop ((offset + w) / 8)) ((offset + w) % 8)
      pure (field ++ rest)

/-- `do_padding`. -/
def doPadding (s : ParseVSetCommon) (v : ByteContainer) : Option ByteContainer :=
  if !s.withPadding || s.bitwidths.length == 1 then some v
  else if v.length = nbitsToNbytes s.bitwidths.sum then
    padding s.bitwidths v (v.length * 8 - s.bitwidths.sum)
  else none

/-- `transform_input`: `mask_v` in a set with a mask. -/
def transformInput (s : ParseVSetCommon) (v : ByteContainer) : Option ByteContainer :=
  match s.mask with
  | none => some v
  | some mask => if v.length ≤ mask.length then some (andBytes v mask) else none

/-- What `add` and `remove` look for in the set. -/
def image (s : ParseVSetCommon) (v : ByteContainer) : Option ByteContainer := do
  let newV ← s.doPadding v
  let newV ← s.transformInput newV
  if newV.length = s.width then some newV else none

def add (s : ParseVSetCommon) (v : ByteContainer) : Option ParseVSetCommon :=
  (s.image v).map fun newV => { s with set := insert newV s.set }

def remove (s : ParseVSetCommon) (v : ByteContainer) : Option ParseVSetCommon :=
  (s.image v).map fun newV => { s with set := s.set.erase newV }

def clear (s : ParseVSetCommon) : ParseVSetCommon := { s with set := ∅ }

def contains (s : ParseVSetCommon) (v : ByteContainer) : Option Bool := do
  let newV ← s.transformInput v
  if v.length = s.width then some (decide (newV ∈ s.set)) else none

end ParseVSetCommon

/-- `ParseVSet`: the base set, which is its first shadow, and the shadows of the switch cases. -/
structure ParseVSet where
  compressedBitwidth : ℕ
  base : ParseVSetCommon
  shadows : List ParseVSetCommon
  deriving DecidableEq

namespace ParseVSet

/-- The constructor. -/
def new (compressedBitwidth : ℕ) : ParseVSet :=
  ⟨compressedBitwidth, ⟨false, compressedBitwidth, [], none, ∅⟩, []⟩

/-- `make_case_vset` and `make_case_vset_with_mask`: the shadow of a new switch case, whose key has
fields of the given widths. -/
def makeCase (s : ParseVSet) (c : List ℕ × Option ByteContainer) : Option ParseVSet :=
  if c.1 ≠ [] then
    some { s with shadows := s.shadows ++ [⟨true, s.compressedBitwidth, c.1, c.2, ∅⟩] }
  else none

def add (s : ParseVSet) (v : ByteContainer) : Option ParseVSet := do
  let base ← s.base.add v
  let shadows ← s.shadows.mapM (·.add v)
  pure { s with base, shadows }

def remove (s : ParseVSet) (v : ByteContainer) : Option ParseVSet := do
  let base ← s.base.remove v
  let shadows ← s.shadows.mapM (·.remove v)
  pure { s with base, shadows }

def clear (s : ParseVSet) : ParseVSet :=
  { s with base := s.base.clear, shadows := s.shadows.map (·.clear) }

end ParseVSet

/-- The operations of the control plane on a value set. -/
inductive VSetOp where
  | add (v : ByteContainer)
  | remove (v : ByteContainer)
  | clear
  deriving DecidableEq

/-- The operation on the set and its shadows. -/
def ParseVSet.step (s : ParseVSet) : VSetOp → Option ParseVSet
  | .add v => s.add v
  | .remove v => s.remove v
  | .clear => some s.clear

/-- What the operation is for: the set of values that the control plane has put in. -/
def VSetOp.apply (values : Finset ByteContainer) : VSetOp → Finset ByteContainer
  | .add v => insert v values
  | .remove v => values.erase v
  | .clear => ∅

/-! ## The layout of a key -/

/-- The widths of the fields in a key, each padded to bytes. -/
def paddedWidths (widths : List ℕ) : List ℕ := widths.map fun w => 8 * nbitsToNbytes w

/-- Whether the case looks at a bit of the key. -/
def maskBit (mask : Option ByteContainer) (i : ℕ) : Bool :=
  match mask with
  | none => true
  | some mask => bitAt mask i

/-- The place of the field `j` in a value of the set, which has no padding between fields. -/
def valueStart (widths : List ℕ) (v : ByteContainer) (j : ℕ) : ℕ :=
  8 * v.length - widths.sum + fieldStart widths j

/-- The place of the field `j` in a key, behind its padding. -/
def keyStart (widths : List ℕ) (j w : ℕ) : ℕ :=
  fieldStart (paddedWidths widths) j + fieldPad w

/-- The value has the fields of the key, under the mask. -/
def Agrees (widths : List ℕ) (mask : Option ByteContainer) (v key : ByteContainer) : Prop :=
  ∀ j w b : ℕ, widths[j]? = some w → b < w → maskBit mask (keyStart widths j w + b) = true →
    bitAt v (valueStart widths v j + b) = bitAt key (keyStart widths j w + b)

/-- Two values have the same fields, under the mask. -/
def EqualUnder (widths : List ℕ) (mask : Option ByteContainer) (v u : ByteContainer) : Prop :=
  ∀ j w b : ℕ, widths[j]? = some w → b < w → maskBit mask (keyStart widths j w + b) = true →
    bitAt v (valueStart widths v j + b) = bitAt u (valueStart widths u j + b)

/-- A key whose padding is zero where the mask keeps it. -/
structure CleanKey (widths : List ℕ) (mask : Option ByteContainer) (key : ByteContainer) :
    Prop where
  length_eq : key.length = (widths.map nbitsToNbytes).sum
  clean : ∀ j w i : ℕ, widths[j]? = some w → i < fieldPad w →
    maskBit mask (fieldStart (paddedWidths widths) j + i) = true →
      bitAt key (fieldStart (paddedWidths widths) j + i) = false

/-- No bit of the value gets into the padding of another field, where the mask keeps it. -/
def NoStrayBit (widths : List ℕ) (mask : Option ByteContainer) (v : ByteContainer) : Prop :=
  ∀ j w i : ℕ, widths[j]? = some w → i < fieldPad w →
    maskBit mask (fieldStart (paddedWidths widths) j + i) = true →
      readBit v (valueStart widths v j) w i = false

/-- A value of the compressed width of the set. -/
structure HasWidth (compressedBitwidth : ℕ) (v : ByteContainer) : Prop where
  length_eq : v.length = nbitsToNbytes compressedBitwidth
  beNat_lt : beNat v < 2 ^ compressedBitwidth

/-- The fields of the key are those of the values, and the mask has the length of the key. -/
structure CaseFits (compressedBitwidth : ℕ) (c : List ℕ × Option ByteContainer) : Prop where
  sum_eq : c.1.sum = compressedBitwidth
  mask_length : ∀ mask, c.2 = some mask → mask.length = (c.1.map nbitsToNbytes).sum

theorem length_paddedWidths (widths : List ℕ) :
    (paddedWidths widths).sum = 8 * (widths.map nbitsToNbytes).sum := by
  unfold paddedWidths
  induction widths with
  | nil => rfl
  | cons w widths ih =>
    rw [List.map_cons, List.map_cons, List.sum_cons, List.sum_cons, ih]
    ring

theorem getElem?_paddedWidths {widths : List ℕ} {j w : ℕ} (hj : widths[j]? = some w) :
    (paddedWidths widths)[j]? = some (8 * nbitsToNbytes w) := by
  simp [paddedWidths, hj]

/-- A place in a byte string of the length of a key. -/
theorem exists_keyField {widths : List ℕ} {p : ℕ} (hp : p < 8 * (widths.map nbitsToNbytes).sum) :
    ∃ j w i : ℕ, widths[j]? = some w ∧ i < 8 * nbitsToNbytes w ∧
      p = fieldStart (paddedWidths widths) j + i := by
  rw [← length_paddedWidths] at hp
  obtain ⟨j, w', i, hj, hi, hpj⟩ := exists_field hp
  unfold paddedWidths at hj
  rw [List.getElem?_map, Option.map_eq_some_iff] at hj
  obtain ⟨w, hw, rfl⟩ := hj
  exact ⟨j, w, i, hw, hi, hpj⟩

/-- Two byte strings of the length of a key are equal when every field and its padding are. -/
theorem eq_of_keyFields {widths : List ℕ} {x y : ByteContainer}
    (hx : x.length = (widths.map nbitsToNbytes).sum) (hy : y.length = (widths.map nbitsToNbytes).sum)
    (h : ∀ j w i : ℕ, widths[j]? = some w → i < 8 * nbitsToNbytes w →
      bitAt x (fieldStart (paddedWidths widths) j + i) =
        bitAt y (fieldStart (paddedWidths widths) j + i)) : x = y := by
  refine eq_of_bitAt_eq (hx.trans hy.symm) fun p hp => ?_
  obtain ⟨j, w, i, hj, hi, rfl⟩ := exists_keyField (hx ▸ hp)
  exact h j w i hj hi

/-! ## Padding and masking -/

/-- The loop of `do_padding` reads every field from its place. -/
theorem padding_spec {widths : List ℕ} {src : List Byte} {off : ℕ} (hoff : off < 8)
    (hzero : ZeroAligned off widths) (hlen : off + widths.sum ≤ 8 * src.length) :
    ∃ p, ParseVSetCommon.padding widths src off = some p ∧
      p.length = (widths.map nbitsToNbytes).sum ∧
      ∀ j w i : ℕ, widths[j]? = some w → i < 8 * nbitsToNbytes w →
        bitAt p (fieldStart (paddedWidths widths) j + i) =
          readBit src (off + fieldStart widths j) w i := by
  induction widths generalizing src off with
  | nil => exact ⟨[], rfl, rfl, fun j w i hj => by simp at hj⟩
  | cons w widths ih =>
    rw [List.sum_cons] at hlen
    obtain ⟨hzw, hzws⟩ := zeroAligned_cons.mp hzero
    obtain ⟨field, hfield, hflen, hfbits⟩ := genericExtract_readBit hoff
      (show 0 < w ∨ off = 0 by omega) (show _ ≤ src.length by unfold nbitsToNbytes; omega)
    have hdrop : (off + w) % 8 + widths.sum ≤ 8 * (src.drop ((off + w) / 8)).length := by
      rw [List.length_drop]
      omega
    obtain ⟨rest, hrest, hrlen, hrbits⟩ := ih (Nat.mod_lt _ (by norm_num))
      ((zeroAligned_congr (by omega)).mp hzws) hdrop
    refine ⟨field ++ rest, ?_, by simp [hflen, hrlen], fun j w' i hj hi => ?_⟩
    · rw [ParseVSetCommon.padding, hfield]
      simp only [Option.bind_eq_bind, Option.bind_some, hrest]
      rfl
    · rw [bitAt_append, hflen]
      cases j with
      | zero =>
        obtain rfl : w = w' := by simpa using hj
        simp only [fieldStart_zero, Nat.zero_add, Nat.add_zero]
        rw [if_pos hi, hfbits i hi]
      | succ j =>
        unfold paddedWidths at *
        rw [List.map_cons, fieldStart_cons, fieldStart_cons, if_neg (by omega),
          show 8 * nbitsToNbytes w + fieldStart (widths.map fun w => 8 * nbitsToNbytes w) j + i -
            8 * nbitsToNbytes w = fieldStart (widths.map fun w => 8 * nbitsToNbytes w) j + i by omega,
          hrbits j w' i (by simpa using hj) hi, readBit_drop]
        congr 1
        omega

theorem bitAt_andBytes (as bs : List Byte) (i : ℕ) :
    bitAt (andBytes as bs) i = (bitAt as i && bitAt bs i) := by
  unfold bitAt andBytes
  rw [List.getElem?_zipWith]
  cases as[i / 8]? with
  | none => simp
  | some a =>
    cases bs[i / 8]? with
    | none => simp
    | some b => simp

/-- A layout in which no field as in `StrayPadding` crosses a byte boundary. -/
theorem noStrayBit_of_layout {widths : List ℕ} {v : ByteContainer}
    (h : ∀ j w : ℕ, widths[j]? = some w → ¬ StrayPadding (valueStart widths v j % 8) w)
    (mask : Option ByteContainer) : NoStrayBit widths mask v := by
  intro j w i hj hi _
  unfold readBit
  rw [decide_eq_false (not_or.mpr ⟨not_le.mpr hi, h j w hj⟩), Bool.false_and]

namespace ParseVSetCommon

/-- The shadow of a switch case. -/
structure IsShadow (compressedBitwidth : ℕ) (c : List ℕ × Option ByteContainer)
    (s : ParseVSetCommon) : Prop where
  withPadding : s.withPadding = true
  bitwidths : s.bitwidths = c.1
  mask : s.mask = c.2
  nonempty : c.1 ≠ []
  fits : CaseFits compressedBitwidth c

variable {compressedBitwidth : ℕ} {c : List ℕ × Option ByteContainer} {s : ParseVSetCommon}
  {v : ByteContainer}

theorem IsShadow.width_eq (hs : s.IsShadow compressedBitwidth c) :
    s.width = (c.1.map nbitsToNbytes).sum := by
  unfold width
  rw [if_pos hs.withPadding, hs.bitwidths]

theorem IsShadow.transformInput_eq (hs : s.IsShadow compressedBitwidth c)
    (hv : v.length = (c.1.map nbitsToNbytes).sum) :
    ∃ x, s.transformInput v = some x ∧ x.length = (c.1.map nbitsToNbytes).sum ∧
      ∀ i, bitAt x i = (maskBit c.2 i && bitAt v i) := by
  unfold transformInput
  rw [hs.mask]
  cases hmask : c.2 with
  | none => exact ⟨v, rfl, hv, fun i => by simp [maskBit]⟩
  | some mask =>
    have hlen := hs.fits.mask_length mask hmask
    dsimp only
    rw [if_pos (by omega)]
    refine ⟨_, rfl, by rw [length_andBytes (by omega), hv], fun i => ?_⟩
    rw [bitAt_andBytes, Bool.and_comm]
    rfl

/-- A value of one field is not moved. -/
theorem readBit_single {w : ℕ} (hv : HasWidth w v) {i : ℕ} (hi : i < 8 * nbitsToNbytes w) :
    bitAt v i = readBit v (fieldPad w) w i := by
  have hpad := fieldPad_add w
  unfold readBit
  by_cases hread : fieldPad w ≤ i
  · rw [decide_eq_true (Or.inl hread), Bool.true_and]
    congr 1
    omega
  · rw [decide_eq_false, Bool.false_and, ← testBit_beNat v (hv.length_eq ▸ hi), hv.length_eq]
    · exact Nat.testBit_lt_two_pow (hv.beNat_lt.trans_le
        (Nat.pow_le_pow_right (by norm_num) (by omega)))
    · unfold StrayPadding fieldPad nbitsToNbytes at *
      omega

theorem IsShadow.doPadding_eq (hs : s.IsShadow compressedBitwidth c)
    (hzero : ZeroAligned (8 * nbitsToNbytes compressedBitwidth - compressedBitwidth) c.1)
    (hv : HasWidth compressedBitwidth v) :
    ∃ p, s.doPadding v = some p ∧ p.length = (c.1.map nbitsToNbytes).sum ∧
      ∀ j w i : ℕ, c.1[j]? = some w → i < 8 * nbitsToNbytes w →
        bitAt p (fieldStart (paddedWidths c.1) j + i) = readBit v (valueStart c.1 v j) w i := by
  have hsum := hs.fits.sum_eq
  unfold doPadding valueStart
  rw [hs.withPadding, hs.bitwidths, hsum, hv.length_eq]
  by_cases hone : c.1.length = 1
  · -- the value is its only field
    obtain ⟨w, hw⟩ := List.length_eq_one_iff.mp hone
    rw [hw] at hsum ⊢
    obtain rfl : w = compressedBitwidth := by simpa using hsum
    rw [if_pos (by rfl)]
    refine ⟨v, rfl, by simp [hv.length_eq], fun j w' i hj hi => ?_⟩
    match j with
    | 0 =>
      obtain rfl : w = w' := by simpa using hj
      rw [fieldStart_zero, fieldStart_zero, Nat.zero_add, Nat.add_zero]
      exact readBit_single hv hi
    | j + 1 => simp at hj
  · rw [if_neg (by simp [hone]), if_pos rfl, Nat.mul_comm]
    have hoff : 8 * nbitsToNbytes compressedBitwidth - compressedBitwidth < 8 := by
      unfold nbitsToNbytes
      omega
    refine padding_spec hoff hzero ?_
    rw [hv.length_eq, hsum]
    unfold nbitsToNbytes
    omega

/-- What `add` puts into a shadow: the fields and their padding, where the mask keeps them. -/
theorem IsShadow.image_eq (hs : s.IsShadow compressedBitwidth c)
    (hzero : ZeroAligned (8 * nbitsToNbytes compressedBitwidth - compressedBitwidth) c.1)
    (hv : HasWidth compressedBitwidth v) :
    ∃ x, s.image v = some x ∧ x.length = (c.1.map nbitsToNbytes).sum ∧
      ∀ j w i : ℕ, c.1[j]? = some w → i < 8 * nbitsToNbytes w →
        bitAt x (fieldStart (paddedWidths c.1) j + i) =
          (maskBit c.2 (fieldStart (paddedWidths c.1) j + i) &&
            readBit v (valueStart c.1 v j) w i) := by
  obtain ⟨p, hp, hplen, hpbits⟩ := hs.doPadding_eq hzero hv
  obtain ⟨x, hx, hxlen, hxbits⟩ := hs.transformInput_eq hplen
  refine ⟨x, ?_, hxlen, fun j w i hj hi => by rw [hxbits, hpbits j w i hj hi]⟩
  unfold image
  simp only [hp, hx, Option.bind_eq_bind, Option.bind_some]
  rw [if_pos (hxlen.trans hs.width_eq.symm)]

/-- The bits of the field itself. -/
theorem readBit_field (v : ByteContainer) (start w b : ℕ) :
    readBit v start w (fieldPad w + b) = bitAt v (start + b) := by
  unfold readBit
  rw [decide_eq_true (Or.inl (Nat.le_add_right _ _)), Bool.true_and]
  congr 1
  omega

/-- The image of a value is the masked key exactly when the value agrees with the key. -/
theorem IsShadow.image_eq_transformInput_iff (hs : s.IsShadow compressedBitwidth c)
    (hzero : ZeroAligned (8 * nbitsToNbytes compressedBitwidth - compressedBitwidth) c.1)
    (hv : HasWidth compressedBitwidth v) (hstray : NoStrayBit c.1 c.2 v) {key : ByteContainer}
    (hkey : CleanKey c.1 c.2 key) :
    s.image v = s.transformInput key ↔ Agrees c.1 c.2 v key := by
  obtain ⟨x, hx, hxlen, hxbits⟩ := hs.image_eq hzero hv
  obtain ⟨y, hy, hylen, hybits⟩ := hs.transformInput_eq hkey.length_eq
  rw [hx, hy, Option.some_inj]
  constructor
  · rintro rfl j w b hj hb hmask
    have hpad := fieldPad_add w
    have hbit := hxbits j w (fieldPad w + b) hj (by omega)
    rw [hybits, readBit_field, ← Nat.add_assoc] at hbit
    unfold keyStart at hmask ⊢
    rw [hmask, Bool.true_and, Bool.true_and] at hbit
    exact hbit.symm
  · intro hagrees
    refine eq_of_keyFields hxlen hylen fun j w i hj hi => ?_
    rw [hxbits j w i hj hi, hybits]
    cases hmask : maskBit c.2 (fieldStart (paddedWidths c.1) j + i) with
    | false => rfl
    | true =>
      rw [Bool.true_and, Bool.true_and]
      by_cases hpad : i < fieldPad w
      · rw [hstray j w i hj hpad hmask, hkey.clean j w i hj hpad hmask]
      · obtain ⟨b, rfl⟩ := Nat.exists_eq_add_of_le (not_lt.mp hpad)
        have hsum := fieldPad_add w
        rw [← Nat.add_assoc] at hmask ⊢
        rw [readBit_field]
        exact hagrees j w b hj (by omega) hmask

/-- Values with one image are equal under the mask. -/
theorem IsShadow.equalUnder_of_image_eq (hs : s.IsShadow compressedBitwidth c)
    (hzero : ZeroAligned (8 * nbitsToNbytes compressedBitwidth - compressedBitwidth) c.1)
    (hv : HasWidth compressedBitwidth v) {u : ByteContainer} (hu : HasWidth compressedBitwidth u)
    (himage : s.image u = s.image v) : EqualUnder c.1 c.2 v u := by
  obtain ⟨x, hx, -, hxbits⟩ := hs.image_eq hzero hv
  obtain ⟨y, hy, -, hybits⟩ := hs.image_eq hzero hu
  obtain rfl : x = y := Option.some.inj (hx.symm.trans (himage.symm.trans hy))
  intro j w b hj hb hmask
  have hpad := fieldPad_add w
  have hbit := hxbits j w (fieldPad w + b) hj (by omega)
  rw [hybits j w (fieldPad w + b) hj (by omega), readBit_field, readBit_field,
    ← Nat.add_assoc] at hbit
  unfold keyStart at hmask
  rw [hmask, Bool.true_and, Bool.true_and] at hbit
  exact hbit.symm

/-- The shadow holds the images of the values, and no value has a stray bit. -/
structure Shadows (compressedBitwidth : ℕ) (values : Finset ByteContainer)
    (c : List ℕ × Option ByteContainer) (s : ParseVSetCommon) : Prop extends
    s.IsShadow compressedBitwidth c where
  aligned : values.Nonempty →
    ZeroAligned (8 * nbitsToNbytes compressedBitwidth - compressedBitwidth) c.1
  stray : ∀ v ∈ values, NoStrayBit c.1 c.2 v
  mem_set : ∀ x, x ∈ s.set ↔ ∃ v ∈ values, s.image v = some x

theorem Shadows.add {values : Finset ByteContainer} (h : s.Shadows compressedBitwidth values c)
    (hzero : ZeroAligned (8 * nbitsToNbytes compressedBitwidth - compressedBitwidth) c.1)
    (hv : HasWidth compressedBitwidth v) (hstray : NoStrayBit c.1 c.2 v) :
    ∃ s', s.add v = some s' ∧ s'.Shadows compressedBitwidth (insert v values) c := by
  obtain ⟨x, hx, -, -⟩ := h.image_eq hzero hv
  refine ⟨{ s with set := insert x s.set }, by rw [ParseVSetCommon.add, hx]; rfl,
    ⟨h.withPadding, h.bitwidths, h.mask, h.nonempty, h.fits⟩, fun _ => hzero, fun u hu => ?_,
    fun y => ?_⟩
  · rcases Finset.mem_insert.mp hu with rfl | hu
    · exact hstray
    · exact h.stray u hu
  · show y ∈ insert x s.set ↔ ∃ u ∈ insert v values, s.image u = some y
    rw [Finset.mem_insert, h.mem_set]
    constructor
    · rintro (rfl | ⟨u, hu, huy⟩)
      · exact ⟨v, Finset.mem_insert_self v values, hx⟩
      · exact ⟨u, Finset.mem_insert_of_mem hu, huy⟩
    · rintro ⟨u, hu, huy⟩
      rcases Finset.mem_insert.mp hu with rfl | hu
      · exact .inl (Option.some.inj (huy.symm.trans hx))
      · exact .inr ⟨u, hu, huy⟩

theorem Shadows.remove {values : Finset ByteContainer} (h : s.Shadows compressedBitwidth values c)
    (hwidths : ∀ u ∈ values, HasWidth compressedBitwidth u)
    (hzero : ZeroAligned (8 * nbitsToNbytes compressedBitwidth - compressedBitwidth) c.1)
    (hv : HasWidth compressedBitwidth v)
    (hother : ∀ u ∈ values, EqualUnder c.1 c.2 v u → u = v) :
    ∃ s', s.remove v = some s' ∧ s'.Shadows compressedBitwidth (values.erase v) c := by
  obtain ⟨x, hx, -, -⟩ := h.image_eq hzero hv
  refine ⟨{ s with set := s.set.erase x }, by rw [ParseVSetCommon.remove, hx]; rfl,
    ⟨h.withPadding, h.bitwidths, h.mask, h.nonempty, h.fits⟩, fun _ => hzero,
    fun u hu => h.stray u (Finset.mem_of_mem_erase hu), fun y => ?_⟩
  show y ∈ s.set.erase x ↔ ∃ u ∈ values.erase v, s.image u = some y
  rw [Finset.mem_erase, h.mem_set]
  constructor
  · rintro ⟨hne, u, hu, huy⟩
    refine ⟨u, Finset.mem_erase.mpr ⟨?_, hu⟩, huy⟩
    rintro rfl
    exact hne (Option.some.inj (huy.symm.trans hx))
  · rintro ⟨u, hu, huy⟩
    obtain ⟨hne, hu⟩ := Finset.mem_erase.mp hu
    refine ⟨?_, u, hu, huy⟩
    -- no other value of the set has the image that is erased
    rintro rfl
    exact hne (hother u hu (h.equalUnder_of_image_eq hzero hv (hwidths u hu) (huy.trans hx.symm)))

theorem Shadows.clear {values : Finset ByteContainer} (h : s.Shadows compressedBitwidth values c) :
    s.clear.Shadows compressedBitwidth ∅ c :=
  ⟨⟨h.withPadding, h.bitwidths, h.mask, h.nonempty, h.fits⟩, fun hne => by simp at hne,
    fun _ hv => by simp at hv, fun _ => by simp [ParseVSetCommon.clear]⟩

/-- A switch case matches the keys that a value of the set agrees with. -/
theorem Shadows.contains_eq {values : Finset ByteContainer}
    (h : s.Shadows compressedBitwidth values c)
    (hwidths : ∀ u ∈ values, HasWidth compressedBitwidth u) {key : ByteContainer}
    (hkey : CleanKey c.1 c.2 key) :
    ∃ b, s.contains key = some b ∧ (b = true ↔ ∃ u ∈ values, Agrees c.1 c.2 u key) := by
  obtain ⟨y, hy, -, -⟩ := h.transformInput_eq hkey.length_eq
  refine ⟨decide (y ∈ s.set), ?_, ?_⟩
  · unfold contains
    rw [hy]
    simp only [Option.bind_eq_bind, Option.bind_some]
    rw [if_pos (hkey.length_eq.trans h.width_eq.symm)]
  · rw [decide_eq_true_iff, h.mem_set]
    refine exists_congr fun u => and_congr_right fun hu => ?_
    rw [← h.image_eq_transformInput_iff (h.aligned ⟨u, hu⟩) (hwidths u hu) (h.stray u hu) hkey, hy]

end ParseVSetCommon

/-! ## Runs -/

/-- An operation on a value of the compressed width. -/
def VSetOp.HasWidth (compressedBitwidth : ℕ) : VSetOp → Prop
  | .add v | .remove v => Bm.HasWidth compressedBitwidth v
  | .clear => True

/-- The operations that keep the shadows true to the set: no bit of an added value gets into the
padding of a key, and no other value of the set is equal under a mask to a removed one. -/
def VSetSafe (s : ParseVSet) : VSetOp → Prop
  | .add v => ∀ sh ∈ s.shadows,
      ZeroAligned (8 * nbitsToNbytes s.compressedBitwidth - s.compressedBitwidth) sh.bitwidths ∧
        NoStrayBit sh.bitwidths sh.mask v
  | .remove v => ∀ sh ∈ s.shadows,
      ZeroAligned (8 * nbitsToNbytes s.compressedBitwidth - s.compressedBitwidth) sh.bitwidths ∧
        ∀ u ∈ s.base.set, EqualUnder sh.bitwidths sh.mask v u → u = v
  | .clear => True

/-- A loop over a list that keeps its elements related to another list. -/
theorem forall₂_mapM {α β γ : Type} {R : γ → α → Prop} {Q : γ → β → Prop} {f : α → Option β}
    {cs : List γ} {xs : List α} (h : List.Forall₂ R cs xs)
    (hf : ∀ c, ∀ x ∈ xs, R c x → ∃ y, f x = some y ∧ Q c y) :
    ∃ ys, xs.mapM f = some ys ∧ List.Forall₂ Q cs ys := by
  induction h with
  | nil => exact ⟨[], rfl, .nil⟩
  | @cons c x cs xs hcx _ ih =>
    obtain ⟨y, hy, hcy⟩ := hf c x (by simp) hcx
    obtain ⟨ys, hys, hcys⟩ := ih fun c' x' hx' => hf c' x' (by simp [hx'])
    exact ⟨y :: ys, by simp [List.mapM_cons, hy, hys], .cons hcy hcys⟩

namespace ParseVSet

/-- The set holds the values, and the shadow of every switch case their images. -/
structure Holds (compressedBitwidth : ℕ) (cases : List (List ℕ × Option ByteContainer))
    (s : ParseVSet) (values : Finset ByteContainer) : Prop where
  width_eq : s.compressedBitwidth = compressedBitwidth
  base : s.base = ⟨false, compressedBitwidth, [], none, values⟩
  hasWidth : ∀ v ∈ values, HasWidth compressedBitwidth v
  shadows : List.Forall₂ (fun c sh => sh.Shadows compressedBitwidth values c) cases s.shadows

variable {compressedBitwidth : ℕ} {cases : List (List ℕ × Option ByteContainer)} {s : ParseVSet}

/-- The base set keeps the values as they are. -/
theorem base_image {values : Finset ByteContainer} {v : ByteContainer}
    (hv : HasWidth compressedBitwidth v) :
    (⟨false, compressedBitwidth, [], none, values⟩ : ParseVSetCommon).image v = some v :=
  if_pos hv.length_eq

/-- A new switch case gets an empty shadow. -/
theorem Holds.makeCase {c : List ℕ × Option ByteContainer} {s' : ParseVSet}
    (h : s.Holds compressedBitwidth cases ∅) (hfits : CaseFits compressedBitwidth c)
    (hs' : s.makeCase c = some s') : s'.Holds compressedBitwidth (cases ++ [c]) ∅ := by
  unfold ParseVSet.makeCase at hs'
  split at hs'
  · next hne =>
    obtain rfl := Option.some.inj hs'
    refine ⟨h.width_eq, h.base, h.hasWidth, List.rel_append h.shadows (.cons ?_ .nil)⟩
    exact ⟨⟨rfl, rfl, rfl, hne, hfits⟩, by simp, by simp, by simp⟩
  · cases hs'

theorem holds_of_makeCase (hfits : ∀ c ∈ cases, CaseFits compressedBitwidth c)
    (hconf : cases.foldlM makeCase (ParseVSet.new compressedBitwidth) = some s) :
    s.Holds compressedBitwidth cases ∅ := by
  suffices hall : ∀ (done rest : List (List ℕ × Option ByteContainer)) (s₀ : ParseVSet),
      (∀ c ∈ rest, CaseFits compressedBitwidth c) → s₀.Holds compressedBitwidth done ∅ →
        rest.foldlM makeCase s₀ = some s → s.Holds compressedBitwidth (done ++ rest) ∅ from
    hall [] cases _ hfits ⟨rfl, rfl, by simp, .nil⟩ hconf
  intro done rest
  induction rest generalizing done with
  | nil =>
    intro s₀ _ hs₀ hrun
    obtain rfl : s₀ = s := by simpa using hrun
    rwa [List.append_nil]
  | cons c rest ih =>
    intro s₀ hfits hs₀ hrun
    rw [List.foldlM_cons] at hrun
    obtain ⟨s₁, hs₁, hrun⟩ := Option.bind_eq_some_iff.mp hrun
    have hcase := ih (done ++ [c]) s₁ (fun c' hc' => hfits c' (by simp [hc']))
      (hs₀.makeCase (hfits c (by simp)) hs₁) hrun
    rwa [List.append_assoc, List.singleton_append] at hcase

/-- One operation. -/
theorem Holds.step {values : Finset ByteContainer} (h : s.Holds compressedBitwidth cases values)
    {op : VSetOp} (hop : op.HasWidth compressedBitwidth) (hsafe : VSetSafe s op) :
    ∃ s', s.step op = some s' ∧ s'.Holds compressedBitwidth cases (op.apply values) := by
  obtain ⟨hwidth, hbase, hhas, hshadows⟩ := h
  cases op with
  | add v =>
    obtain ⟨shs, hshs, hrel⟩ := forall₂_mapM hshadows (f := fun sh => sh.add v)
      (Q := fun c sh => sh.Shadows compressedBitwidth (insert v values) c) fun c sh hmem hsh => by
        obtain ⟨hzero, hstray⟩ := hsafe sh hmem
        rw [hwidth, hsh.bitwidths] at hzero
        rw [hsh.bitwidths, hsh.mask] at hstray
        exact hsh.add hzero hop hstray
    refine ⟨⟨s.compressedBitwidth, ⟨false, compressedBitwidth, [], none, insert v values⟩, shs⟩, ?_,
      hwidth, rfl, fun u hu => ?_, hrel⟩
    · show s.add v = _
      unfold ParseVSet.add
      rw [hbase, ParseVSetCommon.add, base_image hop, hshs]
      rfl
    · rcases Finset.mem_insert.mp hu with rfl | hu
      · exact hop
      · exact hhas u hu
  | remove v =>
    obtain ⟨shs, hshs, hrel⟩ := forall₂_mapM hshadows (f := fun sh => sh.remove v)
      (Q := fun c sh => sh.Shadows compressedBitwidth (values.erase v) c) fun c sh hmem hsh => by
        obtain ⟨hzero, hother⟩ := hsafe sh hmem
        rw [hwidth, hsh.bitwidths] at hzero
        rw [hsh.bitwidths, hsh.mask, hbase] at hother
        exact hsh.remove hhas hzero hop hother
    refine ⟨⟨s.compressedBitwidth, ⟨false, compressedBitwidth, [], none, values.erase v⟩, shs⟩, ?_,
      hwidth, rfl, fun u hu => hhas u (Finset.mem_of_mem_erase hu), hrel⟩
    show s.remove v = _
    unfold ParseVSet.remove
    rw [hbase, ParseVSetCommon.remove, base_image hop, hshs]
    rfl
  | clear =>
    refine ⟨s.clear, rfl, hwidth, ?_, by simp [VSetOp.apply], ?_⟩
    · show s.base.clear = _
      rw [hbase]
      rfl
    · show List.Forall₂ _ cases (s.shadows.map _)
      rw [List.forall₂_map_right_iff]
      exact hshadows.imp fun c sh hsh => hsh.clear

end ParseVSet

/-- **Parse value sets.**  In a run in which no bit of an added value gets into the padding of a key
and no other value of the set is equal under a mask to a removed one, a switch case matches a key
exactly when a value of the set agrees with it. -/
theorem vset_matches {compressedBitwidth : ℕ} {cases : List (List ℕ × Option ByteContainer)}
    (hfits : ∀ c ∈ cases, CaseFits compressedBitwidth c) {s₀ : ParseVSet}
    (hconf : cases.foldlM ParseVSet.makeCase (ParseVSet.new compressedBitwidth) = some s₀)
    {ops : List VSetOp} (hops : ∀ op ∈ ops, op.HasWidth compressedBitwidth)
    (hsafe : RunMeets ParseVSet.step VSetSafe s₀ ops) :
    ∃ s, runFrom ParseVSet.step s₀ ops = some s ∧ s.base.set = ops.foldl VSetOp.apply ∅ ∧
      ∀ (j : ℕ) (c : List ℕ × Option ByteContainer) (key : ByteContainer), cases[j]? = some c →
        CleanKey c.1 c.2 key → ∃ sh b, s.shadows[j]? = some sh ∧ sh.contains key = some b ∧
          (b = true ↔ ∃ v ∈ ops.foldl VSetOp.apply ∅, Agrees c.1 c.2 v key) := by
  have hstep : ∀ (s : ParseVSet) (values : Finset ByteContainer) (op : VSetOp),
      s.Holds compressedBitwidth cases values →
        op.HasWidth compressedBitwidth ∧ VSetSafe s op →
          ∃ s', s.step op = some s' ∧ s'.Holds compressedBitwidth cases (op.apply values) :=
    fun s values op hs hop => hs.step hop.1 hop.2
  obtain ⟨s, hrun, hs⟩ := runFrom_simulation (fun values op => op.apply values) hstep
    (ParseVSet.holds_of_makeCase hfits hconf) (hsafe.and_forall hops)
  refine ⟨s, hrun, by rw [hs.base], fun j c key hj hkey => ?_⟩
  obtain ⟨hlen, hget⟩ := List.forall₂_iff_get.mp hs.shadows
  obtain ⟨hlt, rfl⟩ := List.getElem?_eq_some_iff.mp hj
  obtain ⟨b, hb, hiff⟩ := (hget j hlt (hlen ▸ hlt)).contains_eq hs.hasWidth hkey
  exact ⟨_, b, List.getElem?_eq_getElem (hlen ▸ hlt), hb, hiff⟩

/-- Two values that differ under the mask: one of them is removed. -/
theorem vset_matches_masked :
    ∃ s₀ s, [([4, 8], some [0x0f, 0xf0])].foldlM ParseVSet.makeCase (ParseVSet.new 12) = some s₀ ∧
      runFrom ParseVSet.step s₀ [.add [0x01, 0x12], .add [0x02, 0x12], .remove [0x01, 0x12]] =
        some s ∧
      s.base.set = {[0x02, 0x12]} ∧ ∃ sh, s.shadows[0]? = some sh ∧
        sh.contains [0x02, 0x1f] = some true := by
  have hzero : ZeroAligned (8 * nbitsToNbytes 12 - 12) [4, 8] := by
    intro j w hj
    have hmem := List.mem_of_getElem? hj
    simp at hmem
    omega
  have hstray (v : ByteContainer) (hv : v.length = 2) :
      NoStrayBit [4, 8] (some [0x0f, 0xf0]) v := by
    refine noStrayBit_of_layout (fun j w hj => ?_) _
    unfold valueStart
    rw [hv]
    match j with
    | 0 =>
      obtain rfl : 4 = w := by simpa using hj
      decide
    | 1 =>
      obtain rfl : 8 = w := by simpa using hj
      decide
    | j + 2 => simp at hj
  have hdiffer : ¬ EqualUnder [4, 8] (some [0x0f, 0xf0]) [0x01, 0x12] [0x02, 0x12] := by
    intro heq
    have hbit := heq 0 4 2 rfl (by decide) (by decide)
    revert hbit
    decide
  have hsafe : RunMeets ParseVSet.step VSetSafe
      ⟨12, ⟨false, 12, [], none, ∅⟩, [⟨true, 12, [4, 8], some [0x0f, 0xf0], ∅⟩]⟩
      [.add [0x01, 0x12], .add [0x02, 0x12], .remove [0x01, 0x12]] := by
    refine ⟨fun sh hsh => ?_, fun s₁ hs₁ => ⟨fun sh hsh => ?_, fun s₂ hs₂ => ⟨fun sh hsh => ?_,
      fun _ _ => trivial⟩⟩⟩
    · obtain rfl := List.mem_singleton.mp hsh
      exact ⟨hzero, hstray _ rfl⟩
    · obtain rfl := Option.some.inj hs₁
      obtain rfl := List.mem_singleton.mp hsh
      exact ⟨hzero, hstray _ rfl⟩
    · obtain rfl := Option.some.inj hs₁
      obtain rfl := Option.some.inj hs₂
      obtain rfl := List.mem_singleton.mp hsh
      refine ⟨hzero, fun u hu heq => ?_⟩
      rcases Finset.mem_insert.mp hu with rfl | hu
      · exact absurd heq hdiffer
      · rcases Finset.mem_insert.mp hu with rfl | hu
        · rfl
        · simp at hu
  have hops : ∀ op ∈ [VSetOp.add [0x01, 0x12], .add [0x02, 0x12], .remove [0x01, 0x12]],
      op.HasWidth 12 := by
    intro op hop
    simp only [List.mem_cons, List.not_mem_nil, or_false] at hop
    rcases hop with rfl | rfl | rfl
    all_goals exact ⟨rfl, by decide⟩
  have hfits : ∀ c ∈ [([4, 8], some [0x0f#8, 0xf0#8])], CaseFits 12 c := by
    intro c hc
    obtain rfl := List.mem_singleton.mp hc
    exact ⟨rfl, fun mask hmask => by obtain rfl := Option.some.inj hmask; rfl⟩
  obtain ⟨s, hrun, hset, hmatch⟩ := vset_matches hfits rfl hops hsafe
  have hkey : CleanKey [4, 8] (some [0x0f, 0xf0]) [0x02, 0x1f] := by
    refine ⟨rfl, fun j w i hj hi hmask => ?_⟩
    match j with
    | 0 =>
      obtain rfl : 4 = w := by simpa using hj
      have hpad : ∀ i < 4, bitAt [0x02#8, 0x1f#8] i = false := by decide
      simpa using hpad i hi
    | 1 =>
      obtain rfl : 8 = w := by simpa using hj
      simp [fieldPad, nbitsToNbytes] at hi
    | j + 2 => simp at hj
  obtain ⟨sh, b, hsh, hb, hiff⟩ := hmatch 0 _ _ rfl hkey
  have hagrees : Agrees [4, 8] (some [0x0f, 0xf0]) [0x02, 0x12] [0x02, 0x1f] := by
    have hall : ∀ j < 2, ∀ b < 8, b < [4, 8].getD j 0 →
        maskBit (some [0x0f, 0xf0]) (keyStart [4, 8] j ([4, 8].getD j 0) + b) = true →
          bitAt [0x02#8, 0x12#8] (valueStart [4, 8] [0x02, 0x12] j + b) =
            bitAt [0x02#8, 0x1f#8] (keyStart [4, 8] j ([4, 8].getD j 0) + b) := by decide
    intro j w b hj hb hmask
    have hlt : j < 2 := (List.getElem?_eq_some_iff.mp hj).1
    obtain rfl : [4, 8].getD j 0 = w := by rw [List.getD_eq_getElem?_getD, hj, Option.getD_some]
    have hle : ∀ j < 2, [4, 8].getD j 0 ≤ 8 := by decide
    exact hall j hlt b (hb.trans_le (hle j hlt)) hb hmask
  refine ⟨_, s, rfl, hrun, ?_, sh, hsh, ?_⟩
  · rw [hset]
    decide
  · rw [hb, hiff.mpr ⟨[0x02, 0x12], by decide, hagrees⟩]

/-- Removing a value takes away another one with the same image; and a value with bits that get into
the padding of the next field is not found at all. -/
theorem vset_shared_image :
    (∃ s₀ s sh, [([8], some [0xf0])].foldlM ParseVSet.makeCase (ParseVSet.new 8) = some s₀ ∧
      runFrom ParseVSet.step s₀ [.add [0x11], .add [0x12], .remove [0x11]] = some s ∧
      [0x12] ∈ s.base.set ∧ Agrees [8] (some [0xf0]) [0x12] [0x12] ∧
      s.shadows[0]? = some sh ∧ sh.contains [0x12] = some false) ∧
    ∃ s₀ s sh, [([6, 4, 6], none)].foldlM ParseVSet.makeCase (ParseVSet.new 16) = some s₀ ∧
      runFrom ParseVSet.step s₀ [.add [0x04, 0x00]] = some s ∧
      [0x04, 0x00] ∈ s.base.set ∧ Agrees [6, 4, 6] none [0x04, 0x00] [0x01, 0x00, 0x00] ∧
      s.shadows[0]? = some sh ∧ sh.contains [0x01, 0x00, 0x00] = some false := by
  refine ⟨⟨_, _, _, rfl, rfl, by decide, fun j w b hj hb _ => ?_, rfl, by decide⟩,
    _, _, _, rfl, rfl, by decide, fun j w b hj hb _ => ?_, rfl, by decide⟩
  · match j with
    | 0 =>
      obtain rfl : 8 = w := by simpa using hj
      rfl
    | j + 1 => simp at hj
  · have hall : ∀ j < 3, ∀ b < 6, b < [6, 4, 6].getD j 0 →
        bitAt [0x04#8, 0x00#8] (valueStart [6, 4, 6] [0x04, 0x00] j + b) =
          bitAt [0x01#8, 0x00#8, 0x00#8] (keyStart [6, 4, 6] j ([6, 4, 6].getD j 0) + b) := by decide
    have hlt : j < 3 := (List.getElem?_eq_some_iff.mp hj).1
    obtain rfl : [6, 4, 6].getD j 0 = w := by rw [List.getD_eq_getElem?_getD, hj, Option.getD_some]
    have hle : ∀ j < 3, [6, 4, 6].getD j 0 ≤ 6 := by decide
    exact hall j hlt b (hb.trans_le (hle j hlt)) hb

end Bm
