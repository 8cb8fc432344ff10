/-
# The deparser

`Deparser` (`deparser.cpp`): room for the valid headers is made in front of the
payload, and the headers are written there one after another.

* `Deparsable.deparse_eq`: a header is written to the bytes of its own length;
* `Deparsable.image_of_tryExtract`: for a header that was extracted, they are the
  bytes that it was extracted from;
* `deparse_spec`: the data of the packet that is sent.
-/
import Bmv2.ParserSafety

namespace Bm

/-- `Deparser`; a checksum is what its update does to the headers of a packet. -/
structure Deparser where
  headers : List ℕ
  checksums : List (Packet → DataPHV)

/-- Other content for the data of a buffer. -/
def PacketBuffer.setData (b : PacketBuffer) (data : List Byte) : PacketBuffer :=
  ⟨b.buffer.take b.head ++ data, b.head, by
    have hle := b.head_le
    rw [List.length_append, List.length_take]
    omega⟩

namespace Deparser

/-- `update_checksums`. -/
def updateChecksums (d : Deparser) (pkt : Packet) : Packet :=
  d.checksums.foldl (fun pkt update => { pkt with phv := update pkt }) pkt

/-- The loop of `get_headers_size`. -/
def headersSize (phv : DataPHV) : List ℕ → Option ℕ
  | [] => some 0
  | id :: ids => do
      let h ← phv.headers[id]?
      let size ← headersSize phv ids
      pure (if h.isValid then h.nbytesPacket + size else size)

/-- The loop of `deparse`: `data` starts at the place for the next header. -/
def emit (phv : DataPHV) : List ℕ → List Byte → Option (List Byte)
  | [], data => some data
  | id :: ids, data => do
      let h ← phv.headers[id]?
      if h.isValid then
        let data ← h.deparse data
        let rest ← emit phv ids (data.drop h.nbytesPacket)
        pure (data.take h.nbytesPacket ++ rest)
      else emit phv ids data

/-- `Deparser::deparse`. -/
def deparse (d : Deparser) (pkt : Packet) : Option Packet := do
  let pkt := d.updateChecksums pkt
  let size ← headersSize pkt.phv d.headers
  let buffer ← pkt.buffer.push size
  let data ← emit pkt.phv d.headers buffer.data
  pure { pkt with buffer := buffer.setData data }

/-- The valid headers, in the order of the deparser. -/
def validHeaders (phv : DataPHV) (ids : List ℕ) : List DataHeader :=
  (ids.filterMap fun id => phv.headers[id]?).filter fun h => h.isValid

end Deparser

/-! ## One header -/

namespace DataHeader

/-- The deparsed bytes of a header. -/
def image (h : DataHeader) : List Byte := (h.deparse (List.replicate h.nbytesPacket 0)).getD []

/-- A header that can be deparsed: it knows its length, and its fields have the bytes of their
widths. -/
structure Deparsable (h : DataHeader) : Prop where
  hidden : h.fields.map (fun f => f.hidden) = List.replicate (h.fields.length - 1) false ++ [true]
  nbytes : 8 * h.nbytesPacket = (h.visible.map fun f => f.nbits).sum
  bytes : ∀ f ∈ h.visible, f.bytes.length = f.nbytes
  zero : ZeroAligned 0 (h.visible.map fun f => f.nbits)

theorem Deparsable.wellFormed {h : DataHeader} (hh : h.Deparsable) : h.WellFormed :=
  ⟨hh.hidden, fun _ => hh.nbytes⟩

/-- The bits that deparsing leaves in a buffer. -/
theorem Deparsable.deparse_bits {h : DataHeader} (hh : h.Deparsable) {data : List Byte}
    (hlen : h.nbytesPacket ≤ data.length) :
    ∃ out, h.deparse data = some out ∧ out.length = data.length ∧
      (∀ i < 8 * h.nbytesPacket, (bitAt out i = true ↔ PutsBit h.visible 0 i)) ∧
      ∀ i, 8 * h.nbytesPacket ≤ i → bitAt out i = bitAt data i := by
  obtain ⟨v, hfields, hv, hvisible⟩ := hh.wellFormed.fields_eq
  have hsum := hh.nbytes
  obtain ⟨out, hout, hlenout, hin, hbeyond⟩ := deparseFields_spec hv hvisible hh.bytes
    (show 0 < 8 by norm_num) hh.zero (show _ ≤ 8 * data.length by omega)
  refine ⟨out, by rw [deparse, hfields, hout], hlenout, fun i hi => ?_, fun i hi => ?_⟩
  · rw [hin i (by omega)]
    simp
  · refine hbeyond i ?_
    unfold nbitsToNbytes
    omega

/-- A header is written to the front of a buffer, and nothing else changes. -/
theorem Deparsable.deparse_eq {h : DataHeader} (hh : h.Deparsable) {data : List Byte}
    (hlen : h.nbytesPacket ≤ data.length) :
    h.image.length = h.nbytesPacket ∧
      h.deparse data = some (h.image ++ data.drop h.nbytesPacket) := by
  obtain ⟨out, hout, hlenout, hin, hbeyond⟩ := hh.deparse_bits hlen
  obtain ⟨img, himg, hlenimg, hinimg, -⟩ := hh.deparse_bits
    (show h.nbytesPacket ≤ (List.replicate h.nbytesPacket (0 : Byte)).length by simp)
  have himage : h.image = img := by rw [image, himg, Option.getD_some]
  rw [List.length_replicate] at hlenimg
  rw [himage, hout]
  refine ⟨hlenimg, congrArg some (eq_of_bitAt_eq (by simp [hlenimg, hlenout]; omega)
    fun i _ => ?_)⟩
  rw [bitAt_append, hlenimg]
  by_cases hi : i < 8 * h.nbytesPacket
  · rw [if_pos hi, Bool.eq_iff_iff, hin i hi, hinimg i hi]
  · rw [if_neg hi, hbeyond i (not_lt.mp hi), bitAt_drop]
    congr 1
    omega

/-- A field that was read puts bits of the data back to where they came from. -/
theorem putsBit_readFrom {data : List Byte} {start i : ℕ} {f f' : DataField}
    (h : f.ReadFrom data start f') (hput : f'.putsBit start i = true) : bitAt data i = true := by
  have hnbits : f'.nbits = f.nbits := by rw [h.toField]
  unfold DataField.putsBit at hput
  rw [Bool.and_eq_true, decide_eq_true_eq, hnbits] at hput
  obtain ⟨⟨hbelow, hpad, -⟩, hbit⟩ := hput
  have hsum : fieldPad f.nbits + f.nbits = 8 * f.nbytes := fieldPad_add f.nbits
  rw [h.bits _ (by omega), readBit, Bool.and_eq_true,
    show start + (i + fieldPad f.nbits - start) - fieldPad f.nbits = i by omega] at hbit
  exact hbit.2

/-- A field that was read puts its own bits back. -/
theorem putsBit_of_readFrom {data : List Byte} {start i : ℕ} {f f' : DataField}
    (h : f.ReadFrom data start f') (hstart : start ≤ i) (hend : i < start + f.nbits)
    (hbit : bitAt data i = true) : f'.putsBit start i = true := by
  have hnbits : f'.nbits = f.nbits := by rw [h.toField]
  have hsum : fieldPad f.nbits + f.nbits = 8 * f.nbytes := fieldPad_add f.nbits
  unfold DataField.putsBit
  rw [hnbits, decide_eq_true (by omega), Bool.true_and, h.bits _ (by omega), readBit,
    decide_eq_true (by omega), Bool.true_and,
    show start + (i + fieldPad f.nbits - start) - fieldPad f.nbits = i by omega, hbit]

/-- A header that was extracted is deparsed to the bytes that it was extracted from. -/
theorem Deparsable.image_of_tryExtract {h h' : DataHeader} (hwf : h.WellFormed)
    {vlExpr : List DataField → ℤ} {data : List Byte} (hrun : h.tryExtract vlExpr data = .ok h') :
    h'.Deparsable ∧ h'.image = data.take h'.nbytesPacket ∧ h'.valid = true ∧
      h'.metadata = h.metadata := by
  obtain ⟨-, hinside⟩ := hwf.tryExtract hrun
  obtain ⟨fs₁, fs', v, nbytes, hv, hvis₁, hrun₁, hbytes, hmark⟩ := hwf.tryExtract_eq_ok hrun
  obtain ⟨fs'', heq, hwidths, hvis', hzero, hsum⟩ := extractFields_eq_some hv hvis₁
    (show 0 < 8 by norm_num) (Nat.zero_le _) hrun₁
  obtain rfl : fs' = fs'' := (List.append_inj' heq rfl).1
  obtain ⟨fs'', hrun₂, hlen, hread⟩ := extractFields_spec hv hvis₁ (show 0 < 8 by norm_num) hzero hsum
  obtain rfl : fs' = fs'' :=
    (List.append_inj' (Option.some.inj (hrun₁.symm.trans hrun₂)) rfl).1
  have hplace {j : ℕ} {f' : DataField} (hf' : fs'[j]? = some f') : ∃ f, fs₁[j]? = some f ∧
      f.ReadFrom data (fieldStart (fs₁.map fun f => f.nbits) j) f' := by
    have hlt : j < fs₁.length := hlen ▸ (List.getElem?_eq_some_iff.mp hf').1
    have hf : fs₁[j]? = some fs₁[j] := List.getElem?_eq_getElem hlt
    exact ⟨_, hf, by simpa using hread j _ f' hf hf'⟩
  have hfields : h'.fields = fs' ++ [v.set 1] := by
    rw [hmark]
    exact markValid_fields _ rfl
  have hvisible : h'.visible = fs' := by rw [visible, hfields, List.dropLast_concat]
  obtain rfl : h'.nbytesPacket = nbytes := by
    rw [hmark]
    rfl
  have hdep : h'.Deparsable := by
    refine ⟨?_, by rw [hvisible, hbytes], fun f' hmem => ?_, by rwa [hvisible, hwidths]⟩
    · rw [hfields]
      exact hidden_eq (by rw [DataField.set_hidden, hv]) hvis'
    · rw [hvisible] at hmem
      obtain ⟨j, hj⟩ := List.mem_iff_getElem?.mp hmem
      obtain ⟨f, -, hr⟩ := hplace hj
      rw [hr.length_bytes, Field.nbytes, Field.nbytes, hr.toField]
  refine ⟨hdep, ?_, by rw [hmark]; rfl, by rw [hmark]; rfl⟩
  obtain ⟨hlenimg, himg⟩ := hdep.deparse_eq hinside
  obtain ⟨out, hout, -, hin, -⟩ := hdep.deparse_bits hinside
  obtain rfl : h'.image ++ data.drop h'.nbytesPacket = out :=
    Option.some.inj (himg.symm.trans hout)
  refine eq_of_bitAt_eq (by rw [hlenimg, List.length_take, Nat.min_eq_left hinside]) fun i hi => ?_
  rw [hlenimg] at hi
  have hbit := hin i hi
  rw [bitAt_append, hlenimg, if_pos hi, hvisible] at hbit
  rw [bitAt_take data hi, Bool.eq_iff_iff, hbit]
  constructor
  · rintro ⟨j, f', hf', hput⟩
    obtain ⟨f, -, hr⟩ := hplace hf'
    rw [Nat.zero_add, hwidths] at hput
    exact putsBit_readFrom hr hput
  · intro hset
    obtain ⟨j, w, b, hj, hb, rfl⟩ := exists_field (show i < (fs'.map fun f => f.nbits).sum by omega)
    obtain ⟨f', hf', rfl⟩ : ∃ f', fs'[j]? = some f' ∧ f'.nbits = w := by
      simpa [List.getElem?_map] using hj
    obtain ⟨f, -, hr⟩ := hplace hf'
    have hnbits : f'.nbits = f.nbits := by rw [hr.toField]
    refine ⟨j, f', hf', ?_⟩
    rw [Nat.zero_add]
    rw [hwidths] at hset ⊢
    exact putsBit_of_readFrom hr (by omega) (by omega) hset

end DataHeader

/-! ## The headers of a packet -/

namespace Deparser

/-- The headers exist, and those that are valid can be deparsed. -/
def Ready (phv : DataPHV) (ids : List ℕ) : Prop :=
  ∀ id ∈ ids, ∃ h, phv.headers[id]? = some h ∧ (h.isValid = true → h.Deparsable)

theorem validHeaders_cons {phv : DataPHV} {id : ℕ} {h : DataHeader}
    (hh : phv.headers[id]? = some h) (ids : List ℕ) :
    validHeaders phv (id :: ids) =
      if h.isValid then h :: validHeaders phv ids else validHeaders phv ids := by
  unfold validHeaders
  rw [List.filterMap_cons_some hh, List.filter_cons]

/-- The sizes of the valid headers add up. -/
theorem headersSize_eq {phv : DataPHV} {ids : List ℕ} (hready : Ready phv ids) :
    headersSize phv ids = some ((validHeaders phv ids).map fun h => h.nbytesPacket).sum := by
  induction ids with
  | nil => rfl
  | cons id ids ih =>
    obtain ⟨h, hh, -⟩ := hready id (by simp)
    rw [headersSize, hh, ih fun id' hid' => hready id' (by simp [hid']), validHeaders_cons hh]
    cases hv : h.isValid with
    | false => simp [hv]
    | true => simp [hv]

/-- The valid headers are written one after another. -/
theorem emit_eq {phv : DataPHV} {ids : List ℕ} (hready : Ready phv ids) {data : List Byte}
    (hlen : ((validHeaders phv ids).map fun h => h.nbytesPacket).sum ≤ data.length) :
    emit phv ids data = some ((validHeaders phv ids).flatMap (fun h => h.image) ++
      data.drop ((validHeaders phv ids).map fun h => h.nbytesPacket).sum) := by
  induction ids generalizing data with
  | nil => rfl
  | cons id ids ih =>
    obtain ⟨h, hh, hvalid⟩ := hready id (by simp)
    have hready' : Ready phv ids := fun id' hid' => hready id' (by simp [hid'])
    rw [validHeaders_cons hh] at hlen ⊢
    rw [emit, hh]
    simp only [Option.bind_eq_bind, Option.bind_some]
    cases hv : h.isValid with
    | false =>
      rw [hv] at hlen
      simp only [Bool.false_eq_true, if_false] at hlen ⊢
      exact ih hready' hlen
    | true =>
      rw [hv] at hlen
      simp only [if_true, List.map_cons, List.sum_cons] at hlen ⊢
      obtain ⟨hlenimg, hrun⟩ := (hvalid hv).deparse_eq (show h.nbytesPacket ≤ data.length by omega)
      have hdrop : (h.image ++ data.drop h.nbytesPacket).drop h.nbytesPacket =
          data.drop h.nbytesPacket := by rw [List.drop_append_of_le_length (by omega), ← hlenimg]; simp
      have htake : (h.image ++ data.drop h.nbytesPacket).take h.nbytesPacket = h.image := by
        rw [← hlenimg, List.take_left]
      rw [hrun]
      simp only [Option.bind_some, hdrop, htake]
      rw [ih hready' (show _ ≤ (data.drop h.nbytesPacket).length by rw [List.length_drop]; omega),
        List.drop_drop]
      simp only [Option.bind_some, Option.pure_def, List.flatMap_cons, List.append_assoc]

/-- The checksums change headers only. -/
theorem updateChecksums_buffer (d : Deparser) (pkt : Packet) :
    (d.updateChecksums pkt).buffer = pkt.buffer := by
  unfold updateChecksums
  induction d.checksums generalizing pkt with
  | nil => rfl
  | cons update checksums ih => rw [List.foldl_cons, ih]

end Deparser

theorem PacketBuffer.data_setData (b : PacketBuffer) (data : List Byte) :
    (b.setData data).data = data := by
  have hle := b.head_le
  unfold PacketBuffer.setData PacketBuffer.data
  dsimp only
  rw [List.drop_append_of_le_length (by rw [List.length_take]; omega)]
  simp

/-- Room in front of the data: the data is the end of what is there now. -/
theorem PacketBuffer.push_eq {b : PacketBuffer} {bytes : ℕ} (hroom : bytes ≤ b.head) :
    ∃ b', b.push bytes = some b' ∧ b'.buffer = b.buffer ∧ b'.head = b.head - bytes ∧
      bytes ≤ b'.data.length ∧ b'.data.drop bytes = b.data := by
  have hle := b.head_le
  have hlen := b.length_data
  refine ⟨⟨b.buffer, b.head - bytes, (Nat.sub_le _ _).trans b.head_le⟩, if_pos (by omega), rfl, rfl, ?_,
    ?_⟩
  · rw [PacketBuffer.length_data]
    dsimp only
    omega
  · unfold PacketBuffer.data
    rw [List.drop_drop]
    congr 1
    dsimp only
    omega

/-- The data of the packet that is sent: the deparsed bytes of the valid headers, in the order of
the deparser, and the payload. -/
theorem Deparser.deparse_spec (d : Deparser) {pkt : Packet}
    (hready : Ready (d.updateChecksums pkt).phv d.headers)
    (hroom : ((validHeaders (d.updateChecksums pkt).phv d.headers).map fun h =>
      h.nbytesPacket).sum ≤ pkt.buffer.head) :
    ∃ out, d.deparse pkt = some out ∧ out.phv = (d.updateChecksums pkt).phv ∧
      out.buffer.data = (validHeaders (d.updateChecksums pkt).phv d.headers).flatMap
        (fun h => h.image) ++ pkt.buffer.data := by
  obtain ⟨b, hpush, -, -, hlen, hdrop⟩ := PacketBuffer.push_eq hroom
  refine ⟨{ d.updateChecksums pkt with buffer := b.setData _ }, ?_, rfl,
    PacketBuffer.data_setData _ _⟩
  unfold Deparser.deparse
  simp only [headersSize_eq hready, Option.bind_eq_bind, Option.bind_some]
  rw [updateChecksums_buffer, hpush]
  simp only [Option.bind_some, emit_eq hready hlen, hdrop]
  rfl

end Bm
