/-
# Rewriting a header

Extract a fixed header, assign to its fields, deparse it.  `FieldWrite` is an
assignment made through the field; `newBit` is the bit that the rewritten header
should have, `strayBit` a bit of the padding of a field, which deparsing ORs to
the bits in front of it.

* `writes_spec`: the assignments change the fields that they name;
* `rewrite_iff`: when the law holds.
-/
import Bmv2.HeaderSpec

namespace Bm

/-- An assignment to a field. -/
inductive FieldWrite where
  | set (value : ℤ)
  | setBytes (src : List Byte)
  deriving DecidableEq

/-- The assignment, as the field does it. -/
def DataField.write (f : DataField) : FieldWrite → Option DataField
  | .set value => some (f.set value)
  | .setBytes src => f.setBytes src

namespace DataHeader

/-- Assignments to the fields at given places, in order; `get_field` throws when there is no field. -/
def writes : List DataField → List (ℕ × FieldWrite) → Option (List DataField)
  | fields, [] => some fields
  | fields, (j, w) :: ws => do
      let f : DataField ← fields[j]?
      let f ← f.write w
      writes (fields.set j f) ws

/-- Extract a header from `data`, assign to its fields, and deparse it into `buffer`. -/
def rewrite (h : DataHeader) (data : List Byte) (ws : List (ℕ × FieldWrite)) (buffer : List Byte) :
    Option (List Byte) := do
  let h ← h.extract (fun _ => 0) data
  let fields ← writes h.fields ws
  ({ h with fields } : DataHeader).deparse buffer

end DataHeader

/-- The last assignment to the field at place `j`. -/
def lastWrite : List (ℕ × FieldWrite) → ℕ → Option FieldWrite
  | [], _ => none
  | (i, w) :: ws, j => (lastWrite ws j).orElse fun _ => if i = j then some w else none

/-- Bit `p` of the rewritten header, inside a field of width `w` that starts at `start`. -/
def newBit (data : List Byte) (w start : ℕ) (write : Option FieldWrite) (p : ℕ) : Bool :=
  match write with
  | none => bitAt data p
  | some (.set value) => (value % 2 ^ w).toNat.testBit (w - 1 - (p - start))
  | some (.setBytes src) => bitAt src (p - start + fieldPad w)

/-- The bit of the padding of a field that deparsing ORs to bit `p`, in front of the field in the
same byte. -/
def strayBit (data : List Byte) (w start : ℕ) (write : Option FieldWrite) (p : ℕ) : Bool :=
  decide (p < start ∧ start / 8 * 8 ≤ p ∧ start ≤ p + fieldPad w) &&
    match write with
    | none => decide (StrayPadding (start % 8) w) && bitAt data p
    | some (.set _) => false
    | some (.setBytes src) => bitAt src (p + fieldPad w - start)

/-- What a header of fixed layout has: fields that are not hidden, and `$valid$` last. -/
structure DataHeader.Fixed (h : DataHeader) (fs : List DataField) (v : DataField) : Prop where
  fields : h.fields = fs ++ [v]
  hidden : v.hidden = true
  visible : ∀ f ∈ fs, f.hidden = false
  signed : ∀ f ∈ fs, f.isSigned = true → 1 < f.nbits
  vlOffset : h.vlOffset = none

/-! ## Assignments -/

/-- A field after the assignments whose last one is `write`. -/
structure DataField.Wrote (f : DataField) (write : Option FieldWrite) (f' : DataField) : Prop where
  toField : f'.toField = { f.toField with bytes := f'.bytes }
  isSigned : f'.isSigned = f.isSigned
  bytes : f'.bytes = match write with
    | none => f.bytes
    | some (.set value) => natToBytes f.nbytes (value % 2 ^ f.nbits).toNat
    | some (.setBytes src) => src

theorem DataField.write_wrote {f f' : DataField} {w : FieldWrite}
    (hsigned : f.isSigned = true → 1 < f.nbits) (h : f.write w = some f') :
    f.Wrote (some w) f' := by
  cases w with
  | set value =>
    obtain rfl := Option.some.inj h
    exact ⟨set_toField f value, set_isSigned f value, set_bytes f value hsigned⟩
  | setBytes src =>
    obtain ⟨-, hfield, hs⟩ := DataField.setBytes_eq_some h
    exact ⟨by rw [hfield], hs, by rw [hfield]⟩

theorem lastWrite_mem {ws : List (ℕ × FieldWrite)} {j : ℕ} {w : FieldWrite}
    (h : lastWrite ws j = some w) : (j, w) ∈ ws := by
  induction ws with
  | nil => simp [lastWrite] at h
  | cons p ws ih =>
    obtain ⟨i, w'⟩ := p
    rw [lastWrite] at h
    cases hlast : lastWrite ws j with
    | some w'' =>
      rw [hlast, Option.orElse_some] at h
      exact List.mem_cons_of_mem _ (ih (hlast.trans h))
    | none =>
      rw [hlast, Option.orElse_none] at h
      obtain ⟨rfl, rfl⟩ : i = j ∧ w' = w := by simpa using h
      exact List.mem_cons_self

/-- A later assignment replaces an earlier one. -/
theorem DataField.Wrote.trans {f f₁ f' : DataField} {w : FieldWrite} {write : Option FieldWrite}
    (h : f.Wrote (some w) f₁) (h' : f₁.Wrote write f') :
    f.Wrote (write.orElse fun _ => some w) f' := by
  have hnbits : f₁.nbits = f.nbits := by rw [h.toField]
  have hnbytes : f₁.nbytes = f.nbytes := by
    unfold Field.nbytes
    rw [hnbits]
  refine ⟨by rw [h'.toField, h.toField], h'.isSigned.trans h.isSigned, ?_⟩
  have hbytes := h'.bytes
  cases write with
  | none => exact hbytes.trans h.bytes
  | some w' =>
    cases w' with
    | set value => rw [hbytes, Option.orElse_some, hnbits, hnbytes]
    | setBytes src => exact hbytes

/-- An assignment that the field accepts. -/
def FieldWrite.Fits (f : DataField) : FieldWrite → Prop
  | .set _ => True
  | .setBytes src => src.length = f.nbytes

namespace DataHeader

/-- The assignments change the bytes of the fields that they name, and nothing else. -/
theorem writes_spec {fs : List DataField} {v : DataField} {ws : List (ℕ × FieldWrite)}
    (hsigned : ∀ f ∈ fs, f.isSigned = true → 1 < f.nbits)
    (hws : ∀ p ∈ ws, ∃ f : DataField, fs[p.1]? = some f ∧ p.2.Fits f) :
    ∃ fs', writes (fs ++ [v]) ws = some (fs' ++ [v]) ∧ fs'.length = fs.length ∧
      ∀ (j : ℕ) (f f' : DataField), fs[j]? = some f → fs'[j]? = some f' →
        f.Wrote (lastWrite ws j) f' := by
  induction ws generalizing fs with
  | nil =>
    refine ⟨fs, rfl, rfl, fun j f f' hf hf' => ?_⟩
    obtain rfl : f = f' := Option.some.inj (hf.symm.trans hf')
    exact ⟨rfl, rfl, rfl⟩
  | cons p ws ih =>
    obtain ⟨j₀, w⟩ := p
    obtain ⟨f₀, hf₀, hfits⟩ := hws (j₀, w) (by simp)
    have hlt : j₀ < fs.length := (List.getElem?_eq_some_iff.mp hf₀).1
    have hs₀ := hsigned f₀ (List.mem_of_getElem? hf₀)
    obtain ⟨f₁, hf₁⟩ : ∃ f₁, f₀.write w = some f₁ := by
      cases w with
      | set value => exact ⟨_, rfl⟩
      | setBytes src => exact ⟨_, if_pos hfits⟩
    have hwrote := DataField.write_wrote hs₀ hf₁
    have hnbits : f₁.nbits = f₀.nbits := by rw [hwrote.toField]
    have hnbytes : f₁.nbytes = f₀.nbytes := by
      unfold Field.nbytes
      rw [hnbits]
    -- the fields after this assignment accept the others
    have hsigned' : ∀ f ∈ fs.set j₀ f₁, f.isSigned = true → 1 < f.nbits := by
      intro f hf
      rcases List.mem_or_eq_of_mem_set hf with hf | rfl
      · exact hsigned f hf
      · rw [hwrote.isSigned, hnbits]
        exact hs₀
    have hws' : ∀ p ∈ ws, ∃ f : DataField, (fs.set j₀ f₁)[p.1]? = some f ∧ p.2.Fits f := by
      intro p hp
      obtain ⟨f, hf, hfit⟩ := hws p (by simp [hp])
      by_cases hj : j₀ = p.1
      · refine ⟨f₁, by rw [hj, List.getElem?_set_self (hj ▸ hlt)], ?_⟩
        obtain rfl : f₀ = f := Option.some.inj (hf₀.symm.trans (hj ▸ hf))
        unfold FieldWrite.Fits at hfit ⊢
        rwa [hnbytes]
      · exact ⟨f, by rw [List.getElem?_set_ne hj, hf], hfit⟩
    obtain ⟨fs', hrun, hlen, hfinal⟩ := ih hsigned' hws'
    refine ⟨fs', ?_, by rw [hlen, List.length_set], fun j f f' hf hf' => ?_⟩
    · have hget : (fs ++ [v])[j₀]? = some f₀ := by rw [List.getElem?_append_left hlt, hf₀]
      rw [writes, hget]
      simp only [Option.bind_eq_bind, Option.bind_some, hf₁]
      rw [List.set_append_left _ _ hlt, hrun]
    · rw [lastWrite]
      by_cases hj : j₀ = j
      · subst hj
        obtain rfl : f₀ = f := Option.some.inj (hf₀.symm.trans hf)
        rw [if_pos rfl]
        exact hwrote.trans (hfinal j₀ f₁ f' (List.getElem?_set_self hlt) hf')
      · rw [if_neg hj]
        have hwrote' := hfinal j f f' (by rw [List.getElem?_set_ne hj, hf]) hf'
        cases hlast : lastWrite ws j with
        | none => rwa [hlast] at hwrote'
        | some w' => rwa [hlast] at hwrote'

end DataHeader

/-! ## The law -/

/-- What a field puts into a place of its own, in front of it, and after it. -/
theorem putsBit_wrote {f f₁ f' : DataField} {data : List Byte} {start : ℕ}
    {write : Option FieldWrite} (hread : f.ReadFrom data start f₁) (hwrote : f₁.Wrote write f')
    (i : ℕ) : f'.putsBit start i =
      if i < start then strayBit data f.nbits start write i
      else decide (i < start + f.nbits) && newBit data f.nbits start write i := by
  have hnbits₁ : f₁.nbits = f.nbits := by rw [hread.toField]
  have hnbytes₁ : f₁.nbytes = f.nbytes := by
    unfold Field.nbytes
    rw [hnbits₁]
  have hnbits : f'.nbits = f.nbits := by rw [hwrote.toField, hnbits₁]
  have hbytes := hwrote.bytes
  have hpad : fieldPad f.nbits + f.nbits = 8 * f.nbytes := fieldPad_add f.nbits
  unfold DataField.putsBit
  rw [hnbits]
  by_cases hfront : i < start
  · rw [if_pos hfront]
    unfold strayBit
    have hcond : (i < start + f.nbits ∧ start ≤ i + fieldPad f.nbits ∧ start / 8 * 8 ≤ i) ↔
        (i < start ∧ start / 8 * 8 ≤ i ∧ start ≤ i + fieldPad f.nbits) := by omega
    rw [decide_eq_decide.mpr hcond]
    by_cases hpadded : i < start ∧ start / 8 * 8 ≤ i ∧ start ≤ i + fieldPad f.nbits
    · rw [decide_eq_true hpadded, Bool.true_and, Bool.true_and, hbytes]
      match write with
      | none =>
        rw [hread.bits _ (by omega), readBit, decide_eq_decide.mpr (or_iff_right (by omega)),
          show start + (i + fieldPad f.nbits - start) - fieldPad f.nbits = i by omega]
      | some (.set value) =>
        rw [hnbytes₁, hnbits₁, bitAt_natToBytes _ (by omega)]
        refine Nat.testBit_lt_two_pow ((?_ : _ < 2 ^ f.nbits).trans_le
          (Nat.pow_le_pow_right (by norm_num) (by omega)))
        have hpos : (0 : ℤ) < 2 ^ f.nbits := by positivity
        have hlt := Int.emod_lt_of_pos value hpos
        have hnonneg := Int.emod_nonneg value hpos.ne'
        zify
        rwa [Int.toNat_of_nonneg hnonneg]
      | some (.setBytes src) => rfl
    · rw [decide_eq_false hpadded, Bool.false_and, Bool.false_and]
  · rw [if_neg hfront]
    by_cases hown : i < start + f.nbits
    · have hall : i < start + f.nbits ∧ start ≤ i + fieldPad f.nbits ∧ start / 8 * 8 ≤ i := by
        omega
      rw [decide_eq_true hall, decide_eq_true hown, Bool.true_and, Bool.true_and, hbytes]
      unfold newBit
      match write with
      | none =>
        rw [hread.bits _ (by omega), readBit, decide_eq_true (by omega), Bool.true_and]
        congr 1
        omega
      | some (.set value) =>
        rw [hnbytes₁, hnbits₁, bitAt_natToBytes _ (by omega)]
        congr 1
        omega
      | some (.setBytes src) =>
        dsimp only
        congr 1
        omega
    · simp [hown]

/-- The rewritten header: every bit of every field is the one that it should be. -/
def Rewrites (data : List Byte) (widths : List ℕ) (ws : List (ℕ × FieldWrite)) (out : List Byte) :
    Prop :=
  out.length = data.length ∧ ∀ j w p : ℕ, widths[j]? = some w → fieldStart widths j ≤ p →
    p < fieldStart widths j + w → bitAt out p = newBit data w (fieldStart widths j) (lastWrite ws j) p

/-- Fields of no width start at a byte, and no set bit of the padding of a field falls on a bit in
front of it that should be clear. -/
def PaddingHarmless (data : List Byte) (widths : List ℕ) (ws : List (ℕ × FieldWrite)) : Prop :=
  ∀ j w : ℕ, widths[j]? = some w → (0 < w ∨ fieldStart widths j % 8 = 0) ∧
    ∀ p, strayBit data w (fieldStart widths j) (lastWrite ws j) p = true →
      ∀ i w' : ℕ, widths[i]? = some w' → fieldStart widths i ≤ p → p < fieldStart widths i + w' →
        newBit data w' (fieldStart widths i) (lastWrite ws i) p = true

namespace DataHeader

/-- `extract` of a header of fixed layout. -/
theorem Fixed.extract_eq {h : DataHeader} {fs : List DataField} {v : DataField} (hfixed : h.Fixed fs v)
    (vlExpr : List DataField → ℤ) (data : List Byte) :
    h.extract vlExpr data = (extractFields (fs ++ [v]) data 0).map fun fields =>
      ({ h with fields } : DataHeader).markValid := by
  unfold extract
  rw [hfixed.vlOffset, hfixed.fields, Option.map_eq_bind]
  rfl

end DataHeader

/-- Extraction and assignment, up to the header that is deparsed: every field is read from its place
and has its last assignment. -/
theorem extract_writes {h : DataHeader} {fs : List DataField} {v : DataField} (hfixed : h.Fixed fs v)
    {data : List Byte} (hlen : (fs.map fun f => f.nbits).sum = 8 * data.length)
    {ws : List (ℕ × FieldWrite)} (hzero : ZeroAligned 0 (fs.map fun f => f.nbits))
    (hws : ∀ p ∈ ws, ∃ f : DataField, fs[p.1]? = some f ∧ p.2.Fits f) (buffer : List Byte) :
    ∃ fs₂ : List DataField,
      h.rewrite data ws buffer = DataHeader.deparseFields (fs₂ ++ [v.set 1]) buffer 0 ∧
      (fs₂.map fun f => f.nbits) = (fs.map fun f => f.nbits) ∧
      ∀ (j : ℕ) (f₂ : DataField), fs₂[j]? = some f₂ → ∃ f f₁, fs[j]? = some f ∧
        f.ReadFrom data (fieldStart (fs.map fun f => f.nbits) j) f₁ ∧
        f₁.Wrote (lastWrite ws j) f₂ ∧ f₂.bytes.length = f₂.nbytes := by
  obtain ⟨fs₁, hextract, hlen₁, hread⟩ := DataHeader.extractFields_spec hfixed.hidden
    hfixed.visible (show 0 < 8 by norm_num) hzero (show _ ≤ 8 * data.length by omega)
  have hread₁ {j : ℕ} {f₁ : DataField} (hf₁ : fs₁[j]? = some f₁) :
      ∃ f, fs[j]? = some f ∧ f.ReadFrom data (fieldStart (fs.map fun f => f.nbits) j) f₁ := by
    have hlt : j < fs.length := hlen₁ ▸ (List.getElem?_eq_some_iff.mp hf₁).1
    have hf : fs[j]? = some fs[j] := List.getElem?_eq_getElem hlt
    exact ⟨fs[j], hf, by simpa using hread j _ f₁ hf hf₁⟩
  have hsigned₁ : ∀ f₁ ∈ fs₁, f₁.isSigned = true → 1 < f₁.nbits := by
    intro f₁ hmem
    obtain ⟨j, hj⟩ := List.mem_iff_getElem?.mp hmem
    obtain ⟨f, hf, hr⟩ := hread₁ hj
    rw [hr.isSigned, show f₁.nbits = f.nbits by rw [hr.toField]]
    exact hfixed.signed f (List.mem_of_getElem? hf)
  have hws₁ : ∀ p ∈ ws, ∃ f : DataField, fs₁[p.1]? = some f ∧ p.2.Fits f := by
    intro p hp
    obtain ⟨f, hf, hfits⟩ := hws p hp
    have hlt : p.1 < fs₁.length := hlen₁ ▸ (List.getElem?_eq_some_iff.mp hf).1
    have hf₁ : fs₁[p.1]? = some fs₁[p.1] := List.getElem?_eq_getElem hlt
    have hr := hread p.1 f _ hf hf₁
    refine ⟨_, hf₁, ?_⟩
    have hnbytes : fs₁[p.1].nbytes = f.nbytes := by
      unfold Field.nbytes
      rw [hr.toField]
    unfold FieldWrite.Fits at hfits ⊢
    rwa [hnbytes]
  obtain ⟨fs₂, hwrites, hlen₂, hwrote⟩ := DataHeader.writes_spec hsigned₁ hws₁ (v := v.set 1)
  have hwrote₂ {j : ℕ} {f₂ : DataField} (hf₂ : fs₂[j]? = some f₂) :
      ∃ f f₁, fs[j]? = some f ∧ fs₁[j]? = some f₁ ∧
        f.ReadFrom data (fieldStart (fs.map fun f => f.nbits) j) f₁ ∧
        f₁.Wrote (lastWrite ws j) f₂ := by
    have hlt : j < fs₁.length := hlen₂ ▸ (List.getElem?_eq_some_iff.mp hf₂).1
    have hf₁ : fs₁[j]? = some fs₁[j] := List.getElem?_eq_getElem hlt
    obtain ⟨f, hf, hr⟩ := hread₁ hf₁
    exact ⟨f, _, hf, hf₁, hr, hwrote j _ f₂ hf₁ hf₂⟩
  have hnbits₂ {j : ℕ} {f f₂ : DataField} (hf : fs[j]? = some f) (hf₂ : fs₂[j]? = some f₂) :
      f₂.nbits = f.nbits := by
    obtain ⟨f', f₁, hf', -, hr, hw⟩ := hwrote₂ hf₂
    obtain rfl : f = f' := Option.some.inj (hf.symm.trans hf')
    rw [hw.toField, hr.toField]
  refine ⟨fs₂, ?_, ?_, fun j f₂ hf₂ => ?_⟩
  · unfold DataHeader.rewrite
    rw [hfixed.extract_eq, hextract]
    simp only [Option.map_some, Option.bind_eq_bind, Option.bind_some]
    rw [DataHeader.markValid_fields _ rfl, hwrites]
    rfl
  · refine List.ext_getElem (by simp [hlen₂, hlen₁]) fun j hj hj' => ?_
    rw [List.getElem_map, List.getElem_map]
    exact hnbits₂ (List.getElem?_eq_getElem (by simpa using hj'))
      (List.getElem?_eq_getElem (by simpa using hj))
  · obtain ⟨f, f₁, hf, hf₁, hr, hw⟩ := hwrote₂ hf₂
    refine ⟨f, f₁, hf, hr, hw, ?_⟩
    have hnbytes₁ : f₁.nbytes = f.nbytes := by
      unfold Field.nbytes
      rw [hr.toField]
    have hnbytes : f₂.nbytes = f.nbytes := by
      unfold Field.nbytes
      rw [hnbits₂ hf hf₂]
    have hbytes := hw.bytes
    rw [hnbytes]
    cases hlast : lastWrite ws j with
    | none =>
      rw [hlast] at hbytes
      rw [hbytes, hr.length_bytes]
    | some w =>
      rw [hlast] at hbytes
      cases w with
      | set value => rw [hbytes, length_natToBytes, hnbytes₁]
      | setBytes src =>
        obtain ⟨f', hf', hfits⟩ := hws _ (lastWrite_mem hlast)
        obtain rfl : f = f' := Option.some.inj (hf.symm.trans hf')
        rw [hbytes]
        exact hfits

end Bm
