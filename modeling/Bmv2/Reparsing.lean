/-
# Packets that are parsed again

A packet that was deparsed, and parsed by a parser that finds the same headers.

* `NoPadding`: no field puts padding on the bits in front of it;
* `ParsedAs`: a header that was read from given bytes;
* `ParsedAs.spec`: it is deparsed to these bytes, and each field was read from its
  place;
* `Clean.bytes_eq`: without padding, the fields have the bytes that they had.
-/
import Bmv2.BufBuilder

namespace Bm

/-! ## Padding -/

/-- No field puts padding on the bits in front of it. -/
def NoPadding (fs : List DataField) : Prop :=
  ∀ (k : ℕ) (f : DataField), fs[k]? = some f →
    ∀ i < fieldStart (fs.map fun f => f.nbits) k,
      f.putsBit (fieldStart (fs.map fun f => f.nbits) k) i = false

/-- Where there is no padding, the bits that are put in the place of a field are its own. -/
theorem putsBit_iff_own {fs : List DataField} {j : ℕ} {f : DataField} (hpad : NoPadding fs)
    (hf : fs[j]? = some f) {b : ℕ} (hb : b < f.nbits) :
    PutsBit fs 0 (fieldStart (fs.map fun f => f.nbits) j + b) ↔
      bitAt f.bytes (fieldPad f.nbits + b) = true := by
  rw [← getD_flatMap_canonicalBits hf hb]
  refine ⟨getD_of_putsBit_iff.mpr (fun k g hg i hi hput => ?_) _, putsBit_of_getD⟩
  rw [hpad k g hg i hi] at hput
  cases hput

/-- The bits that a header is deparsed to. -/
theorem DataHeader.Deparsable.image_bits {h : DataHeader} (hdep : h.Deparsable) :
    h.image.length = h.nbytesPacket ∧
      ∀ i < 8 * h.nbytesPacket, (bitAt h.image i = true ↔ PutsBit h.visible 0 i) := by
  obtain ⟨hlen, himg⟩ := hdep.deparse_eq (List.length_replicate (n := h.nbytesPacket) (a := 0)).ge
  obtain ⟨out, hout, -, hin, -⟩ :=
    hdep.deparse_bits (List.length_replicate (n := h.nbytesPacket) (a := 0)).ge
  refine ⟨hlen, fun i hi => ?_⟩
  rw [← hin i hi, ← Option.some.inj (himg.symm.trans hout), bitAt_append, hlen, if_pos hi]

/-! ## Headers -/

@[simp] theorem DataField.syncValue_arith (f : DataField) : f.syncValue.arith = f.arith := by
  unfold DataField.syncValue
  dsimp only
  split
  · rfl
  · rfl

/-- The value depends on the bytes and the signedness. -/
theorem DataField.syncValue_congr {f f' : DataField} (hfield : f'.toField = f.toField)
    (hsigned : f'.isSigned = f.isSigned) : f'.syncValue.value = f.syncValue.value := by
  unfold DataField.syncValue
  rw [hfield, hsigned]
  dsimp only
  split
  · rfl
  · rfl

namespace DataHeader

/-- What a parser does not change in a field. -/
def fieldShape (f : DataField) : ℕ × Bool × Bool := (f.nbits, f.isSigned, f.arith)

/-- The header `h'` was read from the bytes `data`, by a parser that finds the fields of `h`. -/
structure ParsedAs (h : DataHeader) (data : List Byte) (h' : DataHeader) : Prop where
  read : ∃ (h₀ : DataHeader) (vlExpr : List DataField → ℤ) (rest : List Byte), h₀.WellFormed ∧
    h₀.tryExtract vlExpr (data ++ rest) = .ok h'
  shape : h'.visible.map fieldShape = h.visible.map fieldShape
  hidden : h'.fields.getLast? = h.markValid.fields.getLast?
  metadata : h'.metadata = h.metadata

/-- The header after its packet was deparsed and parsed again: metadata is not deparsed, and a
header that is not valid is not found. -/
def Reparsed (h h' : DataHeader) : Prop :=
  if h.metadata then h' = h
  else if h.valid then h.ParsedAs h.image h'
  else h'.isValid = false ∧ h'.fields.map fieldShape = h.fields.map fieldShape

/-- The values of the arithmetic fields are read from their bytes. -/
theorem synced_of_extractFields {fs out : List DataField} {v : DataField} {data : List Byte} {off : ℕ}
    (hvisible : ∀ f ∈ fs, f.hidden = false) (hv : v.hidden = true)
    (hrun : extractFields (fs ++ [v]) data off = some out) :
    ∀ f ∈ out, f.hidden = false → f.arith = true → f.value = f.syncValue.value := by
  induction fs generalizing out data off with
  | nil =>
    rw [List.nil_append, extractFields, if_pos hv, Option.some.injEq] at hrun
    subst hrun
    intro f hf hhidden
    rw [List.mem_singleton.mp hf, hv] at hhidden
    cases hhidden
  | cons f fs ih =>
    rw [List.cons_append, extractFields, if_neg (by simp [hvisible f])] at hrun
    obtain ⟨g, hg, hrun⟩ := Option.bind_eq_some_iff.mp hrun
    obtain ⟨gs, hgs, hcons⟩ := Option.bind_eq_some_iff.mp hrun
    obtain rfl := Option.some.inj hcons
    intro e he hhidden harith
    rcases List.mem_cons.mp he with rfl | he
    · obtain ⟨bytes, -, hcase⟩ := Option.bind_eq_some_iff.mp hg
      by_cases hf : f.arith = true
      · obtain rfl := Option.some.inj hcase
        rw [if_pos hf]
        exact (DataField.syncValue_congr (DataField.syncValue_toField _)
          (DataField.syncValue_isSigned _)).symm
      · obtain rfl := Option.some.inj hcase
        rw [if_neg hf] at harith
        exact absurd harith hf
    · exact ih (fun f hf => hvisible f (by simp [hf])) hgs e he hhidden harith

/-- Extraction changes bytes and values only. -/
theorem fieldShape_of_extractFields {fs out : List DataField} {data : List Byte} {off : ℕ}
    (hrun : extractFields fs data off = some out) : out.map fieldShape = fs.map fieldShape := by
  induction fs generalizing out data off with
  | nil =>
    obtain rfl := Option.some.inj hrun
    rfl
  | cons f fs ih =>
    rw [extractFields] at hrun
    by_cases hf : f.hidden = true
    · rw [if_pos hf] at hrun
      obtain rfl := Option.some.inj hrun
      rfl
    · rw [if_neg hf] at hrun
      obtain ⟨g, hg, hrun⟩ := Option.bind_eq_some_iff.mp hrun
      obtain ⟨gs, hgs, hcons⟩ := Option.bind_eq_some_iff.mp hrun
      obtain rfl := Option.some.inj hcons
      obtain ⟨bytes, -, hcase⟩ := Option.bind_eq_some_iff.mp hg
      have hshape : fieldShape g = fieldShape f := by
        obtain rfl := Option.some.inj hcase
        split
        · simp [fieldShape, DataField.syncValue_arith]
        · rfl
      rw [List.map_cons, List.map_cons, hshape, ih hgs]

/-- A header that was read from some bytes: it is deparsed to these bytes, and its fields were read
from their places in them. -/
theorem ParsedAs.spec {h h' : DataHeader} {data : List Byte} (hp : h.ParsedAs data h')
    (hlen : 8 * data.length = (h.visible.map fun f => f.nbits).sum) :
    h'.Deparsable ∧ h'.valid = true ∧ h'.nbytesPacket = data.length ∧ h'.image = data ∧
      (h'.visible.map fun f => f.nbits) = (h.visible.map fun f => f.nbits) ∧
        ∀ (j : ℕ) (f' : DataField), h'.visible[j]? = some f' →
          (f'.arith = true → f'.value = f'.syncValue.value) ∧ ∀ i < 8 * f'.nbytes,
            bitAt f'.bytes i =
              readBit data (fieldStart (h.visible.map fun f => f.nbits) j) f'.nbits i := by
  obtain ⟨h₀, vlExpr, rest, hwf, hrun⟩ := hp.read
  have hwidths' : (h'.visible.map fun f => f.nbits) = (h.visible.map fun f => f.nbits) := by
    have hshape := congrArg (List.map Prod.fst) hp.shape
    simpa [List.map_map, Function.comp_def, fieldShape] using hshape
  obtain ⟨hdep, himage, hvalid, -⟩ := Deparsable.image_of_tryExtract hwf hrun
  have hnbytes : h'.nbytesPacket = data.length := by
    have hsum := hdep.nbytes
    rw [hwidths', ← hlen] at hsum
    omega
  refine ⟨hdep, hvalid, hnbytes, ?_, hwidths', fun j f' hf' => ?_⟩
  · rw [himage, hnbytes, List.take_left]
  obtain ⟨fs₁, fs', v, nbytes, hv, hvis₁, hrun₁, -, rfl⟩ := hwf.tryExtract_eq_ok hrun
  obtain ⟨fs'', heq, hwidths, hvis', hzero, hsum⟩ := extractFields_eq_some hv hvis₁
    (show 0 < 8 by norm_num) (Nat.zero_le _) hrun₁
  obtain rfl : fs' = fs'' := (List.append_inj' heq rfl).1
  obtain ⟨fs'', hrun₂, hlenfs, hread⟩ := extractFields_spec hv hvis₁ (show 0 < 8 by norm_num) hzero hsum
  obtain rfl : fs' = fs'' := (List.append_inj' (Option.some.inj (hrun₁.symm.trans hrun₂)) rfl).1
  rw [visible_markValid rfl] at hf' hwidths'
  have hmem := List.mem_of_getElem? hf'
  refine ⟨synced_of_extractFields hvis₁ hv hrun₁ f' (by simp [hmem]) (hvis' f' hmem), fun i hi => ?_⟩
  have hlt : j < fs₁.length := hlenfs ▸ (List.getElem?_eq_some_iff.mp hf').1
  have hr := hread j _ f' (List.getElem?_eq_getElem hlt) hf'
  rw [Nat.zero_add, ← hwidths, hwidths'] at hr
  have hnbits : fs₁[j].nbits = f'.nbits := by rw [hr.toField]
  have hplace : fieldStart (h.visible.map fun f => f.nbits) j + f'.nbits ≤
      (h.visible.map fun f => f.nbits).sum := by
    rw [← hwidths']
    exact fieldStart_add_le_sum (by simp [hf'])
  have hpad := fieldPad_add f'.nbits
  have hnone : f'.nbits = 0 → nbitsToNbytes f'.nbits = 0 := fun h => by rw [h]; rfl
  rw [Field.nbytes] at hi
  rw [hr.bits i (by rw [Field.nbytes, hnbits]; exact hi), hnbits, readBit, readBit, bitAt_append,
    if_pos (by omega)]

/-- A header whose fields have no padding: the bits of their bytes in front of their widths are
zero, and no bits of other fields are read in their place. -/
structure Clean (h : DataHeader) : Prop where
  deparsable : h.Deparsable
  padding : ∀ (j : ℕ) (f : DataField), h.visible[j]? = some f →
    ¬ StrayPadding (fieldStart (h.visible.map fun f => f.nbits) j % 8) f.nbits ∧
      ∀ i < fieldPad f.nbits, bitAt f.bytes i = false
  marked : h.markValid.fields = h.fields

theorem Clean.noPadding {h : DataHeader} (hc : h.Clean) : NoPadding h.visible := by
  intro k f hf i hi
  unfold DataField.putsBit
  by_cases hplace : i < fieldStart (h.visible.map fun f => f.nbits) k + f.nbits ∧
      fieldStart (h.visible.map fun f => f.nbits) k ≤ i + fieldPad f.nbits ∧
        fieldStart (h.visible.map fun f => f.nbits) k / 8 * 8 ≤ i
  · rw [(hc.padding k f hf).2 _ (by omega), Bool.and_false]
  · rw [decide_eq_false hplace, Bool.false_and]

/-- Without padding, a field has the same bytes after it was parsed again. -/
theorem Clean.bytes_eq {h h' : DataHeader} (hc : h.Clean) (hp : h.ParsedAs h.image h') {j : ℕ}
    {f f' : DataField} (hf : h.visible[j]? = some f) (hf' : h'.visible[j]? = some f') :
    f'.bytes = f.bytes := by
  obtain ⟨hlenimg, hbits⟩ := hc.deparsable.image_bits
  have hsum := hc.deparsable.nbytes
  obtain ⟨hdep', -, -, -, hwidths, hread⟩ := hp.spec (by rw [hlenimg, hsum])
  have hn : f'.nbits = f.nbits := by
    have hw := congrArg (fun ws : List ℕ => ws[j]?) hwidths
    simpa [hf, hf'] using hw
  have hlen := hc.deparsable.bytes f (List.mem_of_getElem? hf)
  have hlen' := hdep'.bytes f' (List.mem_of_getElem? hf')
  rw [Field.nbytes] at hlen hlen'
  have hplace : fieldStart (h.visible.map fun f => f.nbits) j + f.nbits ≤
      (h.visible.map fun f => f.nbits).sum := fieldStart_add_le_sum (by simp [hf])
  refine eq_of_bitAt_eq (by rw [hlen, hlen', hn]) fun i hi => ?_
  rw [hlen'] at hi
  have hpad := fieldPad_add f.nbits
  rw [hn] at hi
  rw [(hread j f' hf').2 i (by rw [Field.nbytes, hn]; exact hi), hn, readBit]
  obtain ⟨hstray, hzero⟩ := hc.padding j f hf
  by_cases hin : fieldPad f.nbits ≤ i
  · obtain ⟨b, rfl⟩ := Nat.exists_eq_add_of_le hin
    rw [decide_eq_true (.inl hin), Bool.true_and, Bool.eq_iff_iff,
      show fieldStart (h.visible.map fun f => f.nbits) j + (fieldPad f.nbits + b) -
        fieldPad f.nbits = fieldStart (h.visible.map fun f => f.nbits) j + b by omega,
      hbits _ (by omega)]
    exact putsBit_iff_own hc.noPadding hf (by omega)
  · rw [decide_eq_false (by simp [hin, hstray]), Bool.false_and, hzero i (by omega)]

end DataHeader

/-- A field that was deparsed and parsed again: it has the same bytes, and the value that they
denote, where a value is kept. -/
structure DataField.Reread (f f' : DataField) : Prop where
  toField : f'.toField = f.toField
  isSigned : f'.isSigned = f.isSigned
  arith : f'.arith = f.arith
  value : f.arith = true → f'.value = f.syncValue.value

namespace DataHeader

/-- Without padding, a header is the same after it was parsed again. -/
theorem Clean.reread {h h' : DataHeader} (hc : h.Clean) (hp : h.ParsedAs h.image h') :
    ∃ v, h.fields = h.visible ++ [v] ∧ h'.fields = h'.visible ++ [v] ∧
      h'.visible.length = h.visible.length ∧ ∀ (j : ℕ) (f f' : DataField),
        h.visible[j]? = some f → h'.visible[j]? = some f' → f.Reread f' := by
  have hlenimg := hc.deparsable.image_bits.1
  obtain ⟨hdep', -, -, -, -, hread⟩ := hp.spec (by rw [hlenimg, hc.deparsable.nbytes])
  obtain ⟨v, hfields, -, hvisible⟩ := hc.deparsable.wellFormed.fields_eq
  obtain ⟨v', hfields', -, hvisible'⟩ := hdep'.wellFormed.fields_eq
  have hlast := hp.hidden
  rw [hc.marked, hfields, hfields', List.getLast?_concat, List.getLast?_concat] at hlast
  obtain rfl := Option.some.inj hlast
  have hlen := congrArg List.length hp.shape
  rw [List.length_map, List.length_map] at hlen
  refine ⟨v', hfields, hfields', hlen, fun j f f' hf hf' => ?_⟩
  have hshape : fieldShape f' = fieldShape f := by
    have hget := congrArg (fun ss => ss[j]?) hp.shape
    simpa [hf, hf'] using hget
  rw [fieldShape, fieldShape, Prod.mk.injEq, Prod.mk.injEq] at hshape
  obtain ⟨hn, hsigned, harith⟩ := hshape
  have hbytes := hc.bytes_eq hp hf hf'
  have hhidden : f'.hidden = f.hidden := by
    rw [hvisible f (List.mem_of_getElem? hf), hvisible' f' (List.mem_of_getElem? hf')]
  have hfield : f'.toField = f.toField := by
    rw [show f'.toField = ⟨f'.nbits, f'.bytes, f'.hidden⟩ from rfl, hn, hbytes, hhidden]
  refine ⟨hfield, hsigned, harith, fun ha => ?_⟩
  rw [(hread j f' hf').1 (harith.trans ha), DataField.syncValue_congr hfield hsigned]

/-- The header can be parsed again. -/
theorem Clean.exists_parsedAs {h : DataHeader} (hc : h.Clean) :
    ∃ h', h.ParsedAs h.image h' := by
  obtain ⟨v, hfields, hv, hvisible⟩ := hc.deparsable.wellFormed.fields_eq
  have hsum : 0 + (h.visible.map fun f => f.nbits).sum ≤ 8 * h.image.length := by
    rw [hc.deparsable.image_bits.1, ← hc.deparsable.nbytes, Nat.zero_add]
  obtain ⟨fs', hrun, hlen, hread⟩ := extractFields_spec hv hvisible (show 0 < 8 by norm_num)
    hc.deparsable.zero hsum
  rw [← hfields] at hrun
  refine ⟨{ h with fields := fs' ++ [v], vlOffset := none }.markValid,
    ⟨{ h with vlOffset := none }, fun _ => 0, [],
      ⟨hc.deparsable.hidden, fun _ => hc.deparsable.nbytes⟩, ?_⟩, ?_, ?_, rfl⟩
  · rw [List.append_nil]
    unfold tryExtract
    dsimp only
    rw [hrun]
    rfl
  · have hshape := fieldShape_of_extractFields hrun
    rw [hfields, List.map_append, List.map_append] at hshape
    rw [visible_markValid rfl]
    exact (List.append_inj' hshape rfl).1
  · rw [markValid_fields h hfields, markValid_fields _ rfl, List.getLast?_concat,
      List.getLast?_concat]

end DataHeader

/-! ## One field changed -/

/-- Another field of the same width in the place of the field `j`. -/
theorem widths_set {fs : List DataField} {j : ℕ} {f f' : DataField} (hf : fs[j]? = some f)
    (hn : f'.nbits = f.nbits) :
    ((fs.set j f').map fun f => f.nbits) = fs.map fun f => f.nbits := by
  obtain ⟨hlt, rfl⟩ := List.getElem?_eq_some_iff.mp hf
  rw [List.map_set, hn]
  have hself := List.set_getElem_self (show j < (fs.map fun f => f.nbits).length by simpa using hlt)
  rwa [List.getElem_map] at hself

namespace DataHeader

/-- The header with another field in place `j`. -/
def putField (h : DataHeader) (j : ℕ) (f : DataField) : DataHeader :=
  { h with fields := h.fields.set j f }

/-- A header that knows its length, and whose fields have the bytes of their widths. -/
structure Sized (h : DataHeader) : Prop where
  hidden : h.fields.map (fun f => f.hidden) = List.replicate (h.fields.length - 1) false ++ [true]
  nbytes : 8 * h.nbytesPacket = (h.visible.map fun f => f.nbits).sum
  bytes : ∀ f ∈ h.visible, f.bytes.length = f.nbytes

theorem Deparsable.sized {h : DataHeader} (hdep : h.Deparsable) : h.Sized :=
  ⟨hdep.hidden, hdep.nbytes, hdep.bytes⟩

theorem Sized.deparsable {h : DataHeader} (hs : h.Sized)
    (hzero : ZeroAligned 0 (h.visible.map fun f => f.nbits)) : h.Deparsable :=
  ⟨hs.hidden, hs.nbytes, hs.bytes, hzero⟩

section PutField

variable {h : DataHeader} {j : ℕ} {g : DataField}

/-- A visible field, among all fields. -/
theorem Sized.getElem?_fields (hs : h.Sized) (hg : h.visible[j]? = some g) :
    h.fields[j]? = some g := by
  obtain ⟨v, hfields, -, -⟩ := (show h.WellFormed from ⟨hs.hidden, fun _ => hs.nbytes⟩).fields_eq
  rw [hfields, List.getElem?_append_left (List.getElem?_eq_some_iff.mp hg).1]
  exact hg

theorem Sized.visible_putField (hs : h.Sized) (hg : h.visible[j]? = some g) (g' : DataField) :
    (h.putField j g').visible = h.visible.set j g' ∧
      (h.putField j g').fields.getLast? = h.fields.getLast? := by
  obtain ⟨v, hfields, -, -⟩ := (show h.WellFormed from ⟨hs.hidden, fun _ => hs.nbytes⟩).fields_eq
  have hlt := (List.getElem?_eq_some_iff.mp hg).1
  have hset : (h.putField j g').fields = h.visible.set j g' ++ [v] := by
    unfold putField
    dsimp only
    conv_lhs => rw [hfields]
    rw [List.set_append_left _ _ hlt]
  refine ⟨by rw [visible, hset, List.dropLast_concat], ?_⟩
  rw [hset, hfields, List.getLast?_concat, List.getLast?_concat]

/-- The widths after a change of one field. -/
theorem Sized.putField (hs : h.Sized) (hg : h.visible[j]? = some g) {g' : DataField}
    (hn : g'.nbits = g.nbits) (hhidden : g'.hidden = g.hidden)
    (hbytes : g'.bytes.length = g'.nbytes) :
    (h.putField j g').Sized ∧ ((h.putField j g').visible.map fun f => f.nbits) =
      h.visible.map fun f => f.nbits := by
  have hvisible := (hs.visible_putField hg g').1
  have hwidths := widths_set hg hn
  obtain ⟨hlt, hget⟩ := List.getElem?_eq_some_iff.mp (hs.getElem?_fields hg)
  refine ⟨⟨?_, ?_, ?_⟩, by rw [hvisible, hwidths]⟩
  · unfold DataHeader.putField
    dsimp only
    have hself := List.set_getElem_self
      (show j < (h.fields.map fun f => f.hidden).length by simpa using hlt)
    rw [List.getElem_map, hget] at hself
    rw [List.map_set, hhidden, hself, List.length_set]
    exact hs.hidden
  · rw [hvisible, hwidths]
    exact hs.nbytes
  · intro f hf
    rw [hvisible] at hf
    rcases List.mem_or_eq_of_mem_set hf with hf | rfl
    · exact hs.bytes f hf
    · exact hbytes

/-- A field whose own padding is zero does not make the header less clean. -/
theorem Clean.putField (hc : h.Clean) (hg : h.visible[j]? = some g) {g' : DataField}
    (hn : g'.nbits = g.nbits) (hhidden : g'.hidden = g.hidden)
    (hbytes : g'.bytes.length = g'.nbytes) (hzero : ∀ i < fieldPad g'.nbits, bitAt g'.bytes i = false) :
    (h.putField j g').Clean := by
  have hs := hc.deparsable.sized
  obtain ⟨hsized, hwidths⟩ := hs.putField hg hn hhidden hbytes
  obtain ⟨hvisible, hlast⟩ := hs.visible_putField hg g'
  refine ⟨hsized.deparsable (by rw [hwidths]; exact hc.deparsable.zero), fun k f hf => ?_, ?_⟩
  · rw [hwidths]
    rw [hvisible] at hf
    by_cases hk : j = k
    · subst hk
      rw [List.getElem?_set_self (List.getElem?_eq_some_iff.mp hg).1] at hf
      obtain rfl := Option.some.inj hf
      exact ⟨hn ▸ (hc.padding j g hg).1, hzero⟩
    · rw [List.getElem?_set_ne hk] at hf
      exact hc.padding k f hf
  · obtain ⟨v, hfields, -, -⟩ := hc.deparsable.wellFormed.fields_eq
    obtain ⟨v', hfields', -, -⟩ :=
      (show (h.putField j g').WellFormed from ⟨hsized.hidden, fun _ => hsized.nbytes⟩).fields_eq
    rw [hfields, hfields', List.getLast?_concat, List.getLast?_concat] at hlast
    obtain rfl := Option.some.inj hlast
    have hmarked := hc.marked
    rw [markValid_fields h hfields, hfields] at hmarked
    rw [markValid_fields _ hfields', hfields', (List.append_inj' hmarked rfl).2]

end PutField

end DataHeader

/-! ## Packets -/

/-- A packet that was deparsed and parsed again, by a parser that finds the same headers. -/
structure Packet.Reparsed (pkt pkt' : Packet) : Prop where
  data : pkt'.buffer.data = pkt.buffer.data
  headers : List.Forall₂ DataHeader.Reparsed pkt.phv.headers pkt'.phv.headers

/-- The headers of a packet have no padding. -/
def Packet.Clean (pkt : Packet) : Prop :=
  ∀ h ∈ pkt.phv.headers, h.metadata = false → h.valid = true → h.Clean

/-- The values of all fields, up to the field `offset` of the header `id`, are those of their
bytes. -/
def Packet.Synced (id offset : ℕ) (pkt : Packet) : Prop :=
  ∀ (i : ℕ) (h : DataHeader), pkt.phv.headers[i]? = some h → h.metadata = false → h.valid = true →
    ∀ (j : ℕ) (f : DataField), h.visible[j]? = some f → ¬ (i = id ∧ j = offset) → f.arith = true →
      f.value = f.syncValue.value

/-- The headers of two packets show the same, up to the field `offset` of the header `id`. -/
structure ShowsSame (id offset : ℕ) (phv phv' : DataPHV) : Prop where
  length_eq : phv'.headers.length = phv.headers.length
  header : ∀ (i : ℕ) (h h' : DataHeader), phv.headers[i]? = some h → phv'.headers[i]? = some h' →
    h'.isValid = h.isValid ∧ (h.isValid = true → h'.nbytesPacket = h.nbytesPacket ∧
      h'.fields.length = h.fields.length ∧
        ∀ (j : ℕ) (f f' : DataField), h.fields[j]? = some f → h'.fields[j]? = some f' →
          ¬ (i = id ∧ j = offset) → f'.toField = f.toField ∧ f'.isSigned = f.isSigned ∧
            f'.arith = f.arith ∧ (f.arith = true → f'.value = f.value))

theorem DataHeader.Reparsed.getElem? {hs hs' : List DataHeader}
    (hr : List.Forall₂ DataHeader.Reparsed hs hs') {id : ℕ} {h : DataHeader} (hh : hs[id]? = some h) :
    ∃ h', hs'[id]? = some h' ∧ h.Reparsed h' := by
  obtain ⟨hlt, rfl⟩ := List.getElem?_eq_some_iff.mp hh
  have hlt' : id < hs'.length := hr.length_eq ▸ hlt
  exact ⟨_, List.getElem?_eq_getElem hlt', hr.get hlt hlt'⟩

/-- A clean packet shows the same after it was parsed again. -/
theorem Packet.Clean.showsSame {pkt pkt' : Packet} (hclean : pkt.Clean) {id offset : ℕ}
    (hsync : pkt.Synced id offset) (hr : pkt.Reparsed pkt') :
    ShowsSame id offset pkt.phv pkt'.phv := by
  refine ⟨hr.headers.length_eq.symm, fun i h h' hh hh' => ?_⟩
  obtain ⟨h'', hh'', hreparsed⟩ := DataHeader.Reparsed.getElem? hr.headers hh
  obtain rfl := Option.some.inj (hh'.symm.trans hh'')
  unfold DataHeader.Reparsed at hreparsed
  cases hmeta : h.metadata with
  | true =>
    rw [if_pos hmeta] at hreparsed
    subst hreparsed
    refine ⟨rfl, fun _ => ⟨rfl, rfl, fun j f f' hf hf' _ => ?_⟩⟩
    obtain rfl := Option.some.inj (hf.symm.trans hf')
    exact ⟨rfl, rfl, rfl, fun _ => rfl⟩
  | false =>
    rw [if_neg (by simp [hmeta])] at hreparsed
    cases hvalid : h.valid with
    | false =>
      rw [if_neg (by simp [hvalid])] at hreparsed
      have hinvalid : h.isValid = false := by rw [DataHeader.isValid, hmeta, hvalid]; rfl
      exact ⟨hreparsed.1.trans hinvalid.symm, fun hv => by rw [hinvalid] at hv; cases hv⟩
    | true =>
      rw [if_pos hvalid] at hreparsed
      have hc := hclean h (List.mem_of_getElem? hh) hmeta hvalid
      have hlenimg := hc.deparsable.image_bits.1
      obtain ⟨-, hvalid', hnbytes, -⟩ := hreparsed.spec (by rw [hlenimg, hc.deparsable.nbytes])
      obtain ⟨v, hfields, hfields', hlen, hread⟩ := hc.reread hreparsed
      refine ⟨by simp [DataHeader.isValid, hvalid, hvalid'], fun _ => ⟨hnbytes.trans hlenimg, ?_,
        fun j f f' hf hf' hne => ?_⟩⟩
      · rw [hfields, hfields', List.length_append, List.length_append, hlen]
      · by_cases hj : j < h.visible.length
        · rw [hfields, List.getElem?_append_left hj] at hf
          rw [hfields', List.getElem?_append_left (hlen ▸ hj)] at hf'
          have hre := hread j f f' hf hf'
          exact ⟨hre.toField, hre.isSigned, hre.arith, fun ha =>
            (hre.value ha).trans (hsync i h hh hmeta hvalid j f hf hne ha).symm⟩
        · rw [hfields, List.getElem?_append_right (not_lt.mp hj)] at hf
          rw [hfields', List.getElem?_append_right (hlen ▸ not_lt.mp hj), hlen] at hf'
          obtain rfl := Option.some.inj (hf.symm.trans hf')
          exact ⟨rfl, rfl, rfl, fun _ => rfl⟩

/-- A valid header is read from the bytes that it was deparsed to. -/
theorem DataHeader.reparsed_iff_parsedAs {h h' : DataHeader} (hmeta : h.metadata = false)
    (hvalid : h.valid = true) : h.Reparsed h' ↔ h.ParsedAs h.image h' := by
  unfold DataHeader.Reparsed
  rw [if_neg (by simp [hmeta]), if_pos hvalid]

theorem DataHeader.Reparsed.not_valid {h h' : DataHeader} (hr : h.Reparsed h')
    (hvalid : h.isValid = false) : h'.isValid = false := by
  rw [DataHeader.isValid, Bool.or_eq_false_iff] at hvalid
  rw [DataHeader.Reparsed, if_neg (by simp [hvalid.1]), if_neg (by simp [hvalid.2])] at hr
  exact hr.1

theorem DataHeader.reparsed_of_not_valid {h : DataHeader} (hvalid : h.isValid = false)
    {h' : DataHeader} (hvalid' : h'.isValid = false)
    (hshape : h'.fields.map DataHeader.fieldShape = h.fields.map DataHeader.fieldShape) :
    h.Reparsed h' := by
  rw [DataHeader.isValid, Bool.or_eq_false_iff] at hvalid
  unfold DataHeader.Reparsed
  rw [if_neg (by simp [hvalid.1]), if_neg (by simp [hvalid.2])]
  exact ⟨hvalid', hshape⟩

/-- A clean packet can be parsed again, with any outcome for one of its headers. -/
theorem Packet.Clean.exists_reparsed {pkt : Packet} (hclean : pkt.Clean) {id : ℕ}
    {h h' : DataHeader} (hh : pkt.phv.headers[id]? = some h) (hr : h.Reparsed h') :
    ∃ pkt', pkt.Reparsed pkt' ∧ pkt'.phv.headers[id]? = some h' := by
  have hall (g : DataHeader) (hg : g ∈ pkt.phv.headers) : ∃ g', g.Reparsed g' := by
    unfold DataHeader.Reparsed
    by_cases hmeta : g.metadata = true
    · exact ⟨g, by rw [if_pos hmeta]⟩
    · simp only [if_neg hmeta]
      by_cases hvalid : g.valid = true
      · simp only [if_pos hvalid]
        exact (hclean g hg (by simpa using hmeta) hvalid).exists_parsedAs
      · simp only [if_neg hvalid]
        exact ⟨g, by simp [DataHeader.isValid, hmeta, hvalid], rfl⟩
  choose! again hagain using hall
  have hlt : id < pkt.phv.headers.length := (List.getElem?_eq_some_iff.mp hh).1
  refine ⟨{ pkt with phv := { pkt.phv with headers := (pkt.phv.headers.map again).set id h' } },
    ⟨rfl, List.forall₂_iff_get.mpr ⟨by simp, fun i hi hi' => ?_⟩⟩, ?_⟩
  · dsimp only
    rw [List.get_eq_getElem, List.get_eq_getElem, List.getElem_set]
    by_cases hid : id = i
    · subst hid
      obtain rfl : pkt.phv.headers[id] = h := (List.getElem?_eq_some_iff.mp hh).2
      rw [if_pos rfl]
      exact hr
    · rw [if_neg hid, List.getElem_map]
      exact hagain _ (List.getElem_mem _)
  · exact List.getElem?_set_self (by simpa using hlt)

end Bm
