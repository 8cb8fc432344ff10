/-
# The input of a calculation

`BufBuilder` (`calculations.cpp`): fields, constants and whole headers are written
one after another to a buffer that grows, each one at the bit where the one before
it ended, and the payload may follow.

* `append_spec`, `appendHeader_spec`: what one entry does to the buffer;
* `run_spec`: the whole list of entries;
* `isPacked_iff`: when the buffer is the concatenation of the canonical bits.
-/
import Bmv2.Deparser

namespace Bm

/-- The entries of a `BufBuilder`: `field_t`, `constant_t` and `header_t`. -/
inductive BufEntry where
  | field (headerId fieldOffset : ℕ)
  | constant (v : List Byte) (nbits : ℕ)
  | header (headerId : ℕ)
  deriving DecidableEq

/-- `BufBuilder`. -/
structure BufBuilder where
  entries : List BufEntry
  withPayload : Bool

/-- The state of the visitor `BufBuilder::Deparse`. -/
structure DeparseState where
  buf : List Byte
  nbits : ℕ
  deriving DecidableEq

namespace DeparseState

/-- `extend`: the buffer has room for `moreBits` more bits. -/
def extend (s : DeparseState) (moreBits : ℕ) : DeparseState where
  buf := s.buf ++ List.replicate (nbitsToNbytes (s.nbits + moreBits) - s.buf.length) 0
  nbits := s.nbits + moreBits

/-- Something is written at the pointer that `extend` returns. -/
def append (s : DeparseState) (moreBits : ℕ) (write : List Byte → Option (List Byte)) :
    Option DeparseState := do
  let out ← write ((s.extend moreBits).buf.drop (s.nbits / 8))
  pure { s.extend moreBits with buf := (s.extend moreBits).buf.take (s.nbits / 8) ++ out }

/-- The call operators of `Deparse`; a header asserts that the offset is 0. -/
def visit (phv : DataPHV) (s : DeparseState) : BufEntry → Option DeparseState
  | .field headerId fieldOffset => do
      let h ← phv.headers[headerId]?
      if h.isValid then
        let f ← h.fields[fieldOffset]?
        s.append f.nbits fun data => f.deparse data (s.nbits % 8)
      else pure s
  | .constant v nbits => s.append nbits fun data => genericDeparse v nbits data (s.nbits % 8)
  | .header headerId => do
      if s.nbits % 8 = 0 then
        let h ← phv.headers[headerId]?
        if h.isValid then s.append (h.nbytesPacket * 8) h.deparse else pure s
      else none

end DeparseState

/-- The call operator of `BufBuilder`: the buffer that it builds. -/
def BufBuilder.build (b : BufBuilder) (pkt : Packet) : Option (List Byte) := do
  let s ← b.entries.foldlM (DeparseState.visit pkt.phv) { buf := [], nbits := 0 }
  pure (if b.withPayload then s.buf ++ pkt.buffer.data else s.buf)

/-! ## What the buffer should hold -/

/-- The bits of a field, without the padding in front of them. -/
def DataField.canonicalBits (f : DataField) : List Bool :=
  (List.range f.nbits).map fun i => bitAt f.bytes (fieldPad f.nbits + i)

/-- A constant, as a field that holds it. -/
def constantField (v : List Byte) (nbits : ℕ) : DataField :=
  { nbits, bytes := v, hidden := false, isSigned := false, arith := false, value := 0 }

/-- What an entry contributes: a field of a valid header, a constant, or the fields of a valid
header. -/
def BufEntry.pieces (phv : DataPHV) : BufEntry → List DataField
  | .field headerId fieldOffset => match phv.headers[headerId]? with
      | some h => if h.isValid then h.fields[fieldOffset]?.toList else []
      | none => []
  | .constant v nbits => [constantField v nbits]
  | .header headerId => match phv.headers[headerId]? with
      | some h => if h.isValid then h.visible else []
      | none => []

namespace BufBuilder

/-- The fields and constants that are written, in order. -/
def pieces (b : BufBuilder) (phv : DataPHV) : List DataField := b.entries.flatMap (·.pieces phv)

/-- The concatenation of their bits. -/
def inputBits (b : BufBuilder) (phv : DataPHV) : List Bool :=
  (b.pieces phv).flatMap (·.canonicalBits)

end BufBuilder

/-- The bits, padded with zero bits to a byte boundary. -/
structure IsPacked (bits : List Bool) (buf : List Byte) : Prop where
  length_eq : buf.length = nbitsToNbytes bits.length
  bitAt_eq : ∀ i, bitAt buf i = bits.getD i false

/-- An entry refers to headers and fields that exist, and these and the constants have the bytes of
their widths. -/
def BufEntry.Ok (phv : DataPHV) : BufEntry → Prop
  | .field headerId fieldOffset => ∃ h, phv.headers[headerId]? = some h ∧
      ∃ f, h.fields[fieldOffset]? = some f ∧ f.bytes.length = f.nbytes
  | .constant v nbits => v.length = nbitsToNbytes nbits
  | .header headerId => ∃ h, phv.headers[headerId]? = some h ∧
      h.fields.map (fun f => f.hidden) = List.replicate (h.fields.length - 1) false ++ [true] ∧
        8 * h.nbytesPacket = (h.visible.map fun f => f.nbits).sum ∧
          ∀ f ∈ h.visible, f.bytes.length = f.nbytes

/-- A whole header comes at a byte boundary. -/
def BufEntry.AlignedAt (nbits : ℕ) : BufEntry → Prop
  | .header _ => nbits % 8 = 0
  | _ => True

/-- All whole headers come at byte boundaries. -/
def HeadersAligned (phv : DataPHV) : ℕ → List BufEntry → Prop
  | _, [] => True
  | nbits, e :: es =>
      e.AlignedAt nbits ∧ HeadersAligned phv (nbits + ((e.pieces phv).map fun f => f.nbits).sum) es

/-- Fields of no width come at byte boundaries, and the padding of a field, where it comes on bits
in front of the field, is zero or comes on ones. -/
def BufBuilder.PaddingClear (b : BufBuilder) (phv : DataPHV) : Prop :=
  let widths := (b.pieces phv).map fun f => f.nbits
  ZeroAligned 0 widths ∧ ∀ (j : ℕ) (f : DataField), (b.pieces phv)[j]? = some f →
    ∀ i < fieldStart widths j, f.putsBit (fieldStart widths j) i = true →
      (b.inputBits phv).getD i false = true

/-! ## Bits that are put -/

theorem putsBit_append {fs gs : List DataField} {start i : ℕ} :
    PutsBit (fs ++ gs) start i ↔
      PutsBit fs start i ∨ PutsBit gs (start + (fs.map fun f => f.nbits).sum) i := by
  induction fs generalizing start with
  | nil => simp [not_putsBit_nil]
  | cons f fs ih =>
    rw [List.cons_append, putsBit_cons, putsBit_cons, ih, List.map_cons, List.sum_cons, or_assoc,
      Nat.add_assoc]

theorem putsBit_singleton {f : DataField} {start i : ℕ} :
    PutsBit [f] start i ↔ f.putsBit start i = true := by
  rw [putsBit_cons]
  simp [not_putsBit_nil]

/-- Bits are put in front of the end of the last field. -/
theorem lt_of_putsBit {fs : List DataField} {start i : ℕ} (h : PutsBit fs start i) :
    i < start + (fs.map fun f => f.nbits).sum := by
  obtain ⟨j, f, hf, hput⟩ := h
  unfold DataField.putsBit at hput
  rw [Bool.and_eq_true, decide_eq_true_eq] at hput
  have hle : fieldStart (fs.map fun f => f.nbits) j + f.nbits ≤ (fs.map fun f => f.nbits).sum :=
    fieldStart_add_le_sum (by simp [hf])
  omega

theorem zeroAligned_append {start : ℕ} {ws ws' : List ℕ} :
    ZeroAligned start (ws ++ ws') ↔ ZeroAligned start ws ∧ ZeroAligned (start + ws.sum) ws' := by
  induction ws generalizing start with
  | nil =>
    have hnil : ZeroAligned start [] := fun j w hj => by simp at hj
    simp [hnil]
  | cons w ws ih =>
    rw [List.cons_append, zeroAligned_cons, zeroAligned_cons, ih, List.sum_cons, and_assoc,
      Nat.add_assoc]

/-! ## One entry -/

namespace DeparseState

/-- The buffer after the fields `ps`. -/
structure Holds (ps : List DataField) (s : DeparseState) : Prop where
  nbits_eq : s.nbits = (ps.map fun f => f.nbits).sum
  length_eq : s.buf.length = nbitsToNbytes s.nbits
  bits : ∀ i, bitAt s.buf i = true ↔ PutsBit ps 0 i

theorem Holds.empty : Holds [] { buf := [], nbits := 0 } :=
  ⟨rfl, rfl, fun i => by simp [not_putsBit_nil, bitAt_of_le]⟩

theorem Holds.lt_nbits {ps : List DataField} {s : DeparseState} (h : s.Holds ps) {i : ℕ}
    (hi : PutsBit ps 0 i) : i < s.nbits := by
  have hlt := lt_of_putsBit hi
  rw [h.nbits_eq]
  omega

/-- New room is filled with zeros. -/
theorem bitAt_extend (s : DeparseState) (more i : ℕ) :
    bitAt (s.extend more).buf i = bitAt s.buf i := by
  unfold extend
  rw [bitAt_append, bitAt_replicate_zero]
  split
  · rfl
  · next h => rw [bitAt_of_le (not_lt.mp h)]

theorem Holds.length_extend {ps : List DataField} {s : DeparseState} (h : s.Holds ps) (more : ℕ) :
    (s.extend more).buf.length = nbitsToNbytes (s.nbits + more) := by
  have hlen := h.length_eq
  unfold extend nbitsToNbytes at *
  rw [List.length_append, List.length_replicate]
  omega

/-- Writing at the pointer leaves the bytes in front of it. -/
theorem Holds.append_holds {ps : List DataField} {s : DeparseState} (h : s.Holds ps)
    (gs : List DataField) (write : List Byte → Option (List Byte)) (out : List Byte)
    (hwrite : write ((s.extend (gs.map fun f => f.nbits).sum).buf.drop (s.nbits / 8)) = some out)
    (hlen : out.length =
      ((s.extend (gs.map fun f => f.nbits).sum).buf.drop (s.nbits / 8)).length)
    (hbits : ∀ i, bitAt out i = true ↔
      PutsBit ps 0 (8 * (s.nbits / 8) + i) ∨ PutsBit gs s.nbits (8 * (s.nbits / 8) + i)) :
    ∃ s', s.append (gs.map fun f => f.nbits).sum write = some s' ∧ s'.Holds (ps ++ gs) := by
  have hextend := h.length_extend (gs.map fun f => f.nbits).sum
  have hbytes : s.nbits / 8 ≤ nbitsToNbytes (s.nbits + (gs.map fun f => f.nbits).sum) := by
    unfold nbitsToNbytes
    omega
  unfold append
  rw [hwrite]
  refine ⟨_, rfl, ?_, ?_, fun i => ?_⟩
  · show s.nbits + _ = _
    rw [List.map_append, List.sum_append, h.nbits_eq]
  · show (List.take _ _ ++ out).length = nbitsToNbytes (s.nbits + _)
    rw [List.length_append, List.length_take, hlen, List.length_drop, hextend]
    omega
  · show bitAt (List.take _ _ ++ out) i = true ↔ _
    rw [bitAt_append, List.length_take, hextend, Nat.min_eq_left hbytes, putsBit_append,
      Nat.zero_add, ← h.nbits_eq]
    split
    · next hi =>
      have hnone : ¬ PutsBit gs s.nbits i := not_putsBit (by omega)
      rw [bitAt_take _ hi, bitAt_extend, h.bits]
      simp only [hnone, or_false]
    · next hi =>
      rw [hbits, show 8 * (s.nbits / 8) + (i - 8 * (s.nbits / 8)) = i by omega]

/-- One field or constant. -/
theorem append_spec {ps : List DataField} {s : DeparseState} (h : s.Holds ps) {f : DataField}
    (hbytes : f.bytes.length = f.nbytes) (hzero : 0 < f.nbits ∨ s.nbits % 8 = 0) :
    ∃ s', s.append f.nbits (fun data => f.deparse data (s.nbits % 8)) = some s' ∧
      s'.Holds (ps ++ [f]) := by
  have hextend := h.length_extend f.nbits
  have hroom : nbitsToNbytes (s.nbits % 8 + f.nbits) ≤
      ((s.extend f.nbits).buf.drop (s.nbits / 8)).length := by
    rw [List.length_drop, hextend]
    unfold nbitsToNbytes
    omega
  obtain ⟨out, hout, hlen, hin, htail, hbeyond⟩ := genericDeparse_spec (Nat.mod_lt s.nbits
    (by norm_num)) hzero hbytes hroom
  have hspec := h.append_holds [f] (fun data => f.deparse data (s.nbits % 8)) out
  simp only [List.map_cons, List.map_nil, List.sum_cons, List.sum_nil, Nat.add_zero] at hspec
  refine hspec hout hlen fun i => ?_
  have hold : bitAt ((s.extend f.nbits).buf.drop (s.nbits / 8)) i = true ↔
      PutsBit ps 0 (8 * (s.nbits / 8) + i) := by
    rw [bitAt_drop, bitAt_extend, h.bits]
  rw [putsBit_singleton]
  by_cases hi : i < s.nbits % 8 + f.nbits
  · have hcond : (8 * (s.nbits / 8) + i < s.nbits + f.nbits ∧
        s.nbits ≤ 8 * (s.nbits / 8) + i + fieldPad f.nbits ∧
          s.nbits / 8 * 8 ≤ 8 * (s.nbits / 8) + i) ↔
        s.nbits % 8 ≤ i + fieldPad f.nbits := by omega
    have hplace : 8 * (s.nbits / 8) + i + fieldPad f.nbits - s.nbits =
        i + fieldPad f.nbits - s.nbits % 8 := by omega
    have hlt : PutsBit ps 0 (8 * (s.nbits / 8) + i) → i < s.nbits % 8 := fun hput => by
      have hlt := h.lt_nbits hput
      omega
    rw [hin i hi, Bool.or_eq_true, Bool.and_eq_true, decide_eq_true_eq, hold,
      and_iff_right_of_imp hlt]
    unfold DataField.putsBit
    rw [decide_eq_decide.mpr hcond, hplace]
    rfl
  · -- behind the field there is nothing yet
    have hnone : ¬ PutsBit ps 0 (8 * (s.nbits / 8) + i) := fun hput => by
      have hlt := h.lt_nbits hput
      omega
    have hput : f.putsBit s.nbits (8 * (s.nbits / 8) + i) = false := by
      unfold DataField.putsBit
      rw [decide_eq_false (by omega), Bool.false_and]
    simp only [hnone, hput, Bool.false_eq_true, or_false, iff_false]
    intro hbit
    by_cases hlast : i < 8 * nbitsToNbytes (s.nbits % 8 + f.nbits)
    · exact hnone (hold.mp (htail i (not_lt.mp hi) hlast hbit))
    · rw [hbeyond i (not_lt.mp hlast)] at hbit
      exact hnone (hold.mp hbit)

/-- A whole header. -/
theorem appendHeader_spec {ps : List DataField} {s : DeparseState} (h : s.Holds ps)
    {hdr : DataHeader} (hdep : hdr.Deparsable) (halign : s.nbits % 8 = 0) :
    ∃ s', s.append (hdr.nbytesPacket * 8) hdr.deparse = some s' ∧
      s'.Holds (ps ++ hdr.visible) := by
  have hsum : (hdr.visible.map fun f => f.nbits).sum = hdr.nbytesPacket * 8 := by
    rw [← hdep.nbytes, Nat.mul_comm]
  have hlen : ((s.extend (hdr.nbytesPacket * 8)).buf.drop (s.nbits / 8)).length =
      hdr.nbytesPacket := by
    rw [List.length_drop, h.length_extend]
    unfold nbitsToNbytes
    omega
  obtain ⟨out, hout, hlenout, hin, -⟩ := hdep.deparse_bits hlen.ge
  have hspec := h.append_holds hdr.visible hdr.deparse out
  rw [hsum] at hspec
  refine hspec hout hlenout fun i => ?_
  have hnone : ¬ PutsBit ps 0 (8 * (s.nbits / 8) + i) := fun hput => by
    have hlt := h.lt_nbits hput
    omega
  have hshift : PutsBit hdr.visible s.nbits (8 * (s.nbits / 8) + i) ↔ PutsBit hdr.visible 0 i := by
    have hadd := putsBit_add hdr.visible (s.nbits / 8) 0 i
    rwa [show 8 * (s.nbits / 8) + 0 = s.nbits by omega] at hadd
  rw [hshift]
  simp only [hnone, false_or]
  by_cases hi : i < 8 * hdr.nbytesPacket
  · exact hin i hi
  · rw [bitAt_of_le (by omega)]
    refine iff_of_false (by simp) fun hput => ?_
    have hlt := lt_of_putsBit hput
    omega

end DeparseState

/-! ## Entries that cannot be written -/

/-- A field of no width that does not start at a byte: the code reads a byte that it does not
have. -/
theorem deparse_eq_none {f : DataField} (hbytes : f.bytes.length = f.nbytes) {data : List Byte}
    {off : ℕ} (hzero : ¬ (0 < f.nbits ∨ off = 0)) : f.deparse data off = none := by
  have hnbits : f.nbits = 0 := by omega
  have hnil : f.bytes = [] := List.length_eq_zero_iff.mp (by rw [hbytes, Field.nbytes, hnbits]; rfl)
  unfold DataField.deparse genericDeparse
  rw [hnbits, hnil, if_neg (by omega)]
  dsimp only
  split
  · rfl
  · cases data[0]? with
    | none => rfl
    | some first => rfl

/-- The loop over the fields of a header goes through only when they can all be written. -/
theorem zeroAligned_of_deparseFields {fs : List DataField} {v : DataField}
    (hvisible : ∀ f ∈ fs, f.hidden = false) (hbytes : ∀ f ∈ fs, f.bytes.length = f.nbytes)
    {data out : List Byte} {off : ℕ} (h : DataHeader.deparseFields (fs ++ [v]) data off = some out) :
    ZeroAligned off (fs.map fun f => f.nbits) := by
  induction fs generalizing data off out with
  | nil => exact fun j w hj => by simp at hj
  | cons f fs ih =>
    rw [List.cons_append, DataHeader.deparseFields, if_neg (by simp [hvisible f (by simp)])] at h
    obtain ⟨data₁, hdata₁, hrest⟩ := Option.bind_eq_some_iff.mp h
    obtain ⟨rest, hrun, -⟩ := Option.bind_eq_some_iff.mp hrest
    have htail := ih (fun g hg => hvisible g (by simp [hg])) (fun g hg => hbytes g (by simp [hg])) hrun
    rw [List.map_cons, zeroAligned_cons]
    refine ⟨?_, (zeroAligned_congr (by omega)).mp htail⟩
    by_contra hzero
    rw [deparse_eq_none (hbytes f (by simp)) (by omega)] at hdata₁
    cases hdata₁

namespace DeparseState

/-- What has become of the fields `gs`: they are written behind the fields `ps`, or one of them
cannot be written. -/
def Outcome (ps gs : List DataField) (nbits : ℕ) (r : Option DeparseState) : Prop :=
  (ZeroAligned nbits (gs.map fun f => f.nbits) ∧ ∃ s', r = some s' ∧ s'.Holds (ps ++ gs)) ∨
    (¬ ZeroAligned nbits (gs.map fun f => f.nbits) ∧ r = none)

theorem Holds.outcome_nil {ps : List DataField} {s : DeparseState} (h : s.Holds ps) :
    Outcome ps [] s.nbits (some s) :=
  .inl ⟨fun j w hj => by simp at hj, s, rfl, by rwa [List.append_nil]⟩

theorem outcome_field {ps : List DataField} {s : DeparseState} (h : s.Holds ps) {f : DataField}
    (hbytes : f.bytes.length = f.nbytes) :
    Outcome ps [f] s.nbits (s.append f.nbits fun data => f.deparse data (s.nbits % 8)) := by
  have hone : ZeroAligned s.nbits [f.nbits] ↔ 0 < f.nbits ∨ s.nbits % 8 = 0 := by
    rw [zeroAligned_cons]
    exact and_iff_left fun j w hj => by simp at hj
  unfold Outcome
  rw [List.map_cons, List.map_nil, hone]
  by_cases hzero : 0 < f.nbits ∨ s.nbits % 8 = 0
  · exact .inl ⟨hzero, append_spec h hbytes hzero⟩
  · refine .inr ⟨hzero, ?_⟩
    unfold append
    dsimp only
    rw [deparse_eq_none hbytes hzero]
    rfl

theorem outcome_header {ps : List DataField} {s : DeparseState} (h : s.Holds ps) {hdr : DataHeader}
    (hhidden : hdr.fields.map (fun f => f.hidden) =
      List.replicate (hdr.fields.length - 1) false ++ [true])
    (hnbytes : 8 * hdr.nbytesPacket = (hdr.visible.map fun f => f.nbits).sum)
    (hbytes : ∀ f ∈ hdr.visible, f.bytes.length = f.nbytes) (halign : s.nbits % 8 = 0) :
    Outcome ps hdr.visible s.nbits (s.append (hdr.nbytesPacket * 8) hdr.deparse) := by
  have hstart : ZeroAligned s.nbits (hdr.visible.map fun f => f.nbits) ↔
      ZeroAligned 0 (hdr.visible.map fun f => f.nbits) := zeroAligned_congr halign
  by_cases hzero : ZeroAligned 0 (hdr.visible.map fun f => f.nbits)
  · exact .inl ⟨hstart.mpr hzero, appendHeader_spec h ⟨hhidden, hnbytes, hbytes, hzero⟩ halign⟩
  · refine .inr ⟨fun hz => hzero (hstart.mp hz), ?_⟩
    obtain ⟨v, hfields, -, hvisible⟩ :=
      DataHeader.WellFormed.fields_eq (h := hdr) ⟨hhidden, fun _ => hnbytes⟩
    unfold append
    cases hrun : hdr.deparse ((s.extend (hdr.nbytesPacket * 8)).buf.drop (s.nbits / 8)) with
    | none => rfl
    | some out =>
      rw [DataHeader.deparse, hfields] at hrun
      exact absurd (zeroAligned_of_deparseFields hvisible hbytes hrun) hzero

/-- One entry writes its pieces. -/
theorem visit_spec {phv : DataPHV} {ps : List DataField} {s : DeparseState} (h : s.Holds ps)
    {e : BufEntry} (hok : e.Ok phv) (halign : e.AlignedAt s.nbits) :
    Outcome ps (e.pieces phv) s.nbits (s.visit phv e) := by
  cases e with
  | field headerId fieldOffset =>
    obtain ⟨hdr, hhdr, f, hf, hbytes⟩ := hok
    unfold visit BufEntry.pieces
    simp only [hhdr, Option.bind_eq_bind, Option.bind_some]
    cases hdr.isValid with
    | false => exact h.outcome_nil
    | true => simpa only [if_true, hf, Option.bind_some, Option.toList_some] using outcome_field h hbytes
  | constant v nbits => exact outcome_field h (f := constantField v nbits) hok
  | header headerId =>
    obtain ⟨hdr, hhdr, hhidden, hnbytes, hbytes⟩ := hok
    unfold visit BufEntry.pieces
    simp only [hhdr, Option.bind_eq_bind, Option.bind_some]
    rw [if_pos (show s.nbits % 8 = 0 from halign)]
    cases hdr.isValid with
    | false => exact h.outcome_nil
    | true => exact outcome_header h hhidden hnbytes hbytes halign

/-- The list of entries writes the pieces of all of them. -/
theorem run_spec {phv : DataPHV} {ps : List DataField} {s : DeparseState} (h : s.Holds ps)
    {es : List BufEntry} (hok : ∀ e ∈ es, e.Ok phv) (halign : HeadersAligned phv s.nbits es) :
    Outcome ps (es.flatMap (·.pieces phv)) s.nbits (es.foldlM (visit phv) s) := by
  induction es generalizing ps s with
  | nil => exact h.outcome_nil
  | cons e es ih =>
    obtain ⟨hfirst, hrest⟩ := halign
    unfold Outcome
    rw [List.flatMap_cons, List.map_append, zeroAligned_append, List.foldlM_cons,
      ← List.append_assoc]
    rcases visit_spec h (hok e (by simp)) hfirst with ⟨hzero, s₁, hs₁, hholds⟩ | ⟨hzero, hs₁⟩
    · have hnbits : s₁.nbits = s.nbits + ((e.pieces phv).map fun f => f.nbits).sum := by
        rw [hholds.nbits_eq, h.nbits_eq, List.map_append, List.sum_append]
      rw [← hnbits] at hrest ⊢
      simp only [hs₁, Option.bind_eq_bind, Option.bind_some, hzero, true_and]
      exact ih hholds (fun e' he' => hok e' (by simp [he'])) hrest
    · simp only [hs₁, Option.bind_eq_bind, Option.bind_none, hzero, false_and, not_false_iff,
        and_self, or_true]

end DeparseState

/-! ## The concatenation of the bits -/

@[simp] theorem DataField.length_canonicalBits (f : DataField) :
    f.canonicalBits.length = f.nbits := by
  simp [canonicalBits]

theorem length_flatMap_canonicalBits (fs : List DataField) :
    (fs.flatMap (·.canonicalBits)).length = (fs.map fun f => f.nbits).sum := by
  simp [List.length_flatMap]

/-- The bits of the concatenation. -/
theorem getD_flatMap_canonicalBits {fs : List DataField} {j : ℕ} {f : DataField}
    (hf : fs[j]? = some f) {b : ℕ} (hb : b < f.nbits) :
    (fs.flatMap (·.canonicalBits)).getD (fieldStart (fs.map fun f => f.nbits) j + b) false =
      bitAt f.bytes (fieldPad f.nbits + b) := by
  induction fs generalizing j with
  | nil => simp at hf
  | cons g fs ih =>
    rw [List.flatMap_cons, List.map_cons]
    cases j with
    | zero =>
      obtain rfl : g = f := by simpa using hf
      rw [fieldStart_zero, Nat.zero_add, List.getD_append _ _ _ _ (by simpa using hb)]
      simp [DataField.canonicalBits, hb]
    | succ j =>
      rw [fieldStart_cons, List.getD_append_right _ _ _ _ (by simp; omega),
        DataField.length_canonicalBits,
        show g.nbits + fieldStart (fs.map fun f => f.nbits) j + b - g.nbits =
          fieldStart (fs.map fun f => f.nbits) j + b by omega]
      exact ih (by simpa using hf)

/-- A field puts its own bits as they are. -/
theorem putsBit_own {f : DataField} {start b : ℕ} (hb : b < f.nbits) :
    f.putsBit start (start + b) = bitAt f.bytes (fieldPad f.nbits + b) := by
  unfold DataField.putsBit
  rw [decide_eq_true (by omega), Bool.true_and,
    show start + b + fieldPad f.nbits - start = fieldPad f.nbits + b by omega]

/-- The concatenation of the bits is put. -/
theorem putsBit_of_getD {fs : List DataField} {i : ℕ}
    (h : (fs.flatMap (·.canonicalBits)).getD i false = true) : PutsBit fs 0 i := by
  have hlt : i < (fs.map fun f => f.nbits).sum := by
    by_contra hge
    rw [List.getD_eq_default _ _ (by rw [length_flatMap_canonicalBits]; omega)] at h
    cases h
  obtain ⟨j, w, b, hj, hb, rfl⟩ := exists_field hlt
  obtain ⟨f, hf, rfl⟩ : ∃ f, fs[j]? = some f ∧ f.nbits = w := by
    simpa [List.getElem?_map] using hj
  refine ⟨j, f, hf, ?_⟩
  rw [Nat.zero_add, putsBit_own hb, ← getD_flatMap_canonicalBits hf hb, h]

/-- Nothing else is put exactly when the padding comes on ones. -/
theorem getD_of_putsBit_iff {fs : List DataField} :
    (∀ i, PutsBit fs 0 i → (fs.flatMap (·.canonicalBits)).getD i false = true) ↔
      ∀ (j : ℕ) (f : DataField), fs[j]? = some f →
        ∀ i < fieldStart (fs.map fun f => f.nbits) j,
          f.putsBit (fieldStart (fs.map fun f => f.nbits) j) i = true →
            (fs.flatMap (·.canonicalBits)).getD i false = true := by
  constructor
  · intro h j f hf i _ hput
    exact h i ⟨j, f, hf, by rwa [Nat.zero_add]⟩
  · rintro h i ⟨j, f, hf, hput⟩
    rw [Nat.zero_add] at hput
    by_cases hi : i < fieldStart (fs.map fun f => f.nbits) j
    · exact h j f hf i hi hput
    · obtain ⟨b, rfl⟩ := Nat.exists_eq_add_of_le (not_lt.mp hi)
      have hb : b < f.nbits := by
        unfold DataField.putsBit at hput
        rw [Bool.and_eq_true, decide_eq_true_eq] at hput
        omega
      rw [getD_flatMap_canonicalBits hf hb, ← putsBit_own hb, hput]

/-- When the buffer is the concatenation of the bits. -/
theorem DeparseState.Holds.isPacked_iff {ps : List DataField} {s : DeparseState} (h : s.Holds ps) :
    IsPacked (ps.flatMap (·.canonicalBits)) s.buf ↔
      ∀ i, PutsBit ps 0 i → (ps.flatMap (·.canonicalBits)).getD i false = true := by
  constructor
  · intro hpacked i hput
    rw [← hpacked.bitAt_eq]
    exact (h.bits i).mpr hput
  · intro hall
    refine ⟨by rw [h.length_eq, h.nbits_eq, length_flatMap_canonicalBits], fun i => ?_⟩
    rw [Bool.eq_iff_iff, h.bits]
    exact ⟨hall i, putsBit_of_getD⟩

namespace BufBuilder

/-- Where no field has bits in its padding, only the fields of no width matter. -/
theorem paddingClear_iff_zeroAligned (b : BufBuilder) (phv : DataPHV)
    (hpad : ∀ f ∈ b.pieces phv, ∀ i < fieldPad f.nbits, bitAt f.bytes i = false) :
    b.PaddingClear phv ↔ ZeroAligned 0 ((b.pieces phv).map fun f => f.nbits) := by
  refine and_iff_left fun j f hf i hi hput => ?_
  unfold DataField.putsBit at hput
  rw [Bool.and_eq_true, decide_eq_true_eq] at hput
  obtain ⟨⟨-, hfront, -⟩, hbit⟩ := hput
  rw [hpad f (List.mem_of_getElem? hf) _ (by omega)] at hbit
  cases hbit

/-- A header with fields of 6, 4 and 6 bits, and the hidden field. -/
def splitHeader : DataHeader where
  fields := [⟨⟨6, [0], false⟩, false, false, 0⟩, ⟨⟨4, [0], false⟩, false, false, 0⟩,
    ⟨⟨6, [0], false⟩, false, false, 0⟩, ⟨⟨1, [0], true⟩, false, false, 0⟩]
  valid := false
  metadata := false
  nbytesPacket := 2
  vlOffset := none

/-- A packet with this one header, and a payload of one byte. -/
def splitPacket (h : DataHeader) : Packet where
  phv := ⟨[h], []⟩
  buffer := ⟨[0x3c, 0x00, 0x99], 2, by decide⟩
  payloadSize := 1

/-- Four bits of zero, then the second field. -/
def splitBuilder : BufBuilder := ⟨[.constant [0] 4, .field 0 1], false⟩

end BufBuilder

end Bm
