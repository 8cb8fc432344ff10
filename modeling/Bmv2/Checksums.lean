/-
# Checksums

`Checksum` with its two kinds (`checksums.cpp`): one that is based on a
calculation, and the checksum of an IPv4 header.

* `set_natCast`, `syncValue_set`: the field after `set`, and after its bytes were
  read again;
* `build_congr`: the input of a calculation does not change with fields that it
  does not contain;
* `Sets.verifiesNow_iff`, `Sets.verifies_iff`: when `verify` is true after `update`,
  and after the packet was deparsed and parsed again.
-/
import Bmv2.Reparsing
import Bmv2.InternetChecksum
import Bmv2.ArithFields

namespace Bm

/-- `Checksum`; the condition is an expression over the headers. -/
structure Checksum where
  headerId : ℕ
  fieldOffset : ℕ
  condition : Option (DataPHV → Bool)

/-- `is_checksum_condition_met`. -/
def Checksum.isConditionMet (c : Checksum) (phv : DataPHV) : Bool :=
  match c.condition with
  | none => true
  | some condition => condition phv

/-- `CalcBasedChecksum`, with its `NamedCalculation`: the builder of the input, and the hash. -/
structure CalcBasedChecksum extends Checksum where
  builder : BufBuilder
  hash : List Byte → BitVec 64

/-- `IPv4Checksum`. -/
structure IPv4Checksum extends Checksum

namespace CalcBasedChecksum

/-- `Calculation_::output`. -/
def output (c : CalcBasedChecksum) (pkt : Packet) : Option (BitVec 64) :=
  (c.builder.build pkt).map c.hash

/-- `update_`. -/
def update_ (c : CalcBasedChecksum) (pkt : Packet) : Option Packet := do
  let cksum ← c.output pkt
  let h ← pkt.phv.headers[c.headerId]?
  let f ← h.fields[c.fieldOffset]?
  let h := { h with fields := h.fields.set c.fieldOffset (f.set cksum.toNat) }
  pure { pkt with phv := pkt.phv.setHeader c.headerId h }

/-- `verify_`: `get<uint64_t>` asserts that the field has a value, and converts it by `toUint64`. -/
def verify_ (toUint64 : ℤ → Option ℕ) (c : CalcBasedChecksum) (pkt : Packet) : Option Bool := do
  let cksum ← c.output pkt
  let h ← pkt.phv.headers[c.headerId]?
  let f ← h.fields[c.fieldOffset]?
  if f.arith then
    let value ← toUint64 f.value
    pure (cksum.toNat == value)
  else none

/-- `update`. -/
def update (c : CalcBasedChecksum) (pkt : Packet) : Option Packet :=
  if c.isConditionMet pkt.phv then c.update_ pkt else some pkt

/-- `verify`. -/
def verify (toUint64 : ℤ → Option ℕ) (c : CalcBasedChecksum) (pkt : Packet) : Option Bool :=
  if c.isConditionMet pkt.phv then c.verify_ toUint64 pkt else some true

end CalcBasedChecksum

namespace IPv4Checksum

/-- The bytes that `cksum16` reads: `stack` is what the uninitialised buffer holds. -/
def buffer (h : DataHeader) (stack : List Byte) : Option (List Byte) := do
  let buffer ← h.deparse stack
  pure (((buffer.set 10 0).set 11 0).take h.nbytesPacket)

/-- `update_`. -/
def update_ (c : IPv4Checksum) (stack : List Byte) (phv : DataPHV) : Option DataPHV := do
  let h ← phv.headers[c.headerId]?
  if !h.isValid then pure phv
  else
    let f ← h.fields[c.fieldOffset]?
    let buf ← buffer h stack
    let f ← f.setBytes (hostBytes (Checksum.cksum16 buf))
    pure (phv.setHeader c.headerId { h with fields := h.fields.set c.fieldOffset f })

/-- `verify_`; `memcmp` compares two bytes. -/
def verify_ (c : IPv4Checksum) (stack : List Byte) (phv : DataPHV) : Option Bool := do
  let h ← phv.headers[c.headerId]?
  if !h.isValid then pure true
  else
    let f ← h.fields[c.fieldOffset]?
    let buf ← buffer h stack
    pure (hostBytes (Checksum.cksum16 buf) == f.bytes.take 2)

/-- `update`. -/
def update (c : IPv4Checksum) (stack : List Byte) (phv : DataPHV) : Option DataPHV :=
  if c.isConditionMet phv then c.update_ stack phv else some phv

/-- `verify`. -/
def verify (c : IPv4Checksum) (stack : List Byte) (phv : DataPHV) : Option Bool :=
  if c.isConditionMet phv then c.verify_ stack phv else some true

end IPv4Checksum

/-! ## The field of a checksum -/

namespace DataField

/-- The field after `set`: its bytes hold the residue of the number. -/
theorem set_natCast {f : DataField} (hsigned : f.isSigned = true → 1 < f.nbits) (v : ℕ) :
    f.set v = { f with
      bytes := natToBytes f.nbytes (v % 2 ^ f.nbits)
      value := if v < 2 ^ f.nbits then v else wrap f.isSigned f.nbits v } := by
  have hmod : (v : ℤ) % 2 ^ f.nbits = (v % 2 ^ f.nbits : ℕ) := by push_cast; rfl
  have hlt : v % 2 ^ f.nbits < 2 ^ f.nbits := Nat.mod_lt v (Nat.two_pow_pos _)
  have hcast : ((2 ^ f.nbits : ℕ) : ℤ) = 2 ^ f.nbits := by push_cast; rfl
  unfold set exportBytes
  dsimp only
  cases hs : f.isSigned with
  | false =>
    have hwrap : wrap false f.nbits v = (v % 2 ^ f.nbits : ℕ) := hmod
    rw [Bool.not_false, if_pos rfl, hmod, Int.toNat_natCast, hwrap]
    congr 1
    by_cases hv : v < 2 ^ f.nbits
    · rw [if_pos hv, Nat.mod_eq_of_lt hv]
    · rw [if_neg hv]
  | true =>
    have hn := hsigned hs
    have hhalf : (2 : ℤ) ^ f.nbits = 2 * 2 ^ (f.nbits - 1) := by
      rw [← pow_succ', Nat.sub_add_cancel (by omega)]
    have hpos : (0 : ℤ) < 2 ^ (f.nbits - 1) := by positivity
    have hwrap := wrap_signed (show 0 < f.nbits by omega) (v : ℤ)
    rw [hmod] at hwrap
    rw [Bool.not_true, if_neg (by simp), hmod]
    by_cases hv : v < 2 ^ f.nbits
    · have hrange : ¬ ((v : ℤ) < -2 ^ (f.nbits - 1) ∨ 2 ^ f.nbits - 1 < (v : ℤ)) := by omega
      rw [if_neg hrange, if_pos (Int.natCast_nonneg v), if_pos hv, Int.toNat_natCast,
        Nat.mod_eq_of_lt hv]
    · have hrange : (v : ℤ) < -2 ^ (f.nbits - 1) ∨ 2 ^ f.nbits - 1 < (v : ℤ) := by omega
      rw [if_pos hrange, if_neg hv]
      by_cases hhigh : (2 : ℤ) ^ (f.nbits - 1) - 1 < (v % 2 ^ f.nbits : ℕ)
      · have hneg : ¬ (0 : ℤ) ≤ (v % 2 ^ f.nbits : ℕ) - (2 ^ f.nbits - 1 + 1) := by omega
        rw [if_neg (by omega)] at hwrap
        have hbytes : ((v % 2 ^ f.nbits : ℕ) - (2 ^ f.nbits - 1 + 1) - -2 ^ (f.nbits - 1) -
            -2 ^ (f.nbits - 1) : ℤ).toNat = v % 2 ^ f.nbits := by omega
        rw [if_pos hhigh, if_neg hneg, hbytes, hwrap, sub_add_cancel]
      · rw [if_pos (by omega)] at hwrap
        rw [if_neg hhigh, if_pos (Int.natCast_nonneg _), hwrap, Int.toNat_natCast]

/-- The value that is read from the bytes again is the residue in the range of the width. -/
theorem syncValue_set {f : DataField} (hsigned : f.isSigned = true → 1 < f.nbits) (v : ℕ) :
    (f.set v).syncValue.value = wrap f.isSigned f.nbits v := by
  have hlt : v % 2 ^ f.nbits < 2 ^ f.nbits := Nat.mod_lt v (Nat.two_pow_pos _)
  have hbytes : beNat (natToBytes f.nbytes (v % 2 ^ f.nbits)) = v % 2 ^ f.nbits :=
    beNat_natToBytes (hlt.trans_le (Nat.pow_le_pow_right (by norm_num) (nbits_le_nbytes f.nbits)))
  have hmod : wrap f.isSigned f.nbits v = wrap f.isSigned f.nbits (v % 2 ^ f.nbits : ℕ) := by
    push_cast
    exact (wrap_emod _ _ _).symm
  rw [set_natCast hsigned, hmod, wrap_natCast hlt]
  unfold syncValue
  dsimp only
  rw [hbytes]
  by_cases hneg : (f.isSigned && (v % 2 ^ f.nbits).testBit (f.nbits - 1)) = true
  · rw [if_pos hneg, if_pos hneg]
    rw [Bool.and_eq_true] at hneg
    have hge := Nat.ge_two_pow_of_testBit hneg.2
    have hn := hsigned hneg.1
    have hhalf : (2 : ℤ) ^ f.nbits = 2 * 2 ^ (f.nbits - 1) := by
      rw [← pow_succ', Nat.sub_add_cancel (by omega)]
    push_cast [Nat.cast_sub hge]
    omega
  · rw [if_neg hneg, if_neg hneg]

end DataField

/-! ## What a calculation reads -/

/-- An entry contains the field `offset` of the header `id`. -/
def BufEntry.Reads (id offset : ℕ) : BufEntry → Prop
  | .field headerId fieldOffset => headerId = id ∧ fieldOffset = offset
  | .constant _ _ => False
  | .header headerId => headerId = id

/-- The bytes that a header is deparsed to depend on the bytes of its fields only. -/
theorem deparseFields_congr {fs fs' : List DataField}
    (h : fs'.map DataField.toField = fs.map DataField.toField) (data : List Byte) (off : ℕ) :
    DataHeader.deparseFields fs' data off = DataHeader.deparseFields fs data off := by
  induction fs generalizing fs' data off with
  | nil =>
    obtain rfl := List.map_eq_nil_iff.mp h
    rfl
  | cons f fs ih =>
    obtain ⟨f', fs', rfl, hf, hfs⟩ := List.map_eq_cons_iff.mp h
    have hnbits : f'.nbits = f.nbits := congrArg Field.nbits hf
    have hbytes : f'.bytes = f.bytes := congrArg Field.bytes hf
    have hhidden : f'.hidden = f.hidden := congrArg Field.hidden hf
    unfold DataHeader.deparseFields DataField.deparse
    simp only [hnbits, hbytes, hhidden, ih hfs]

theorem ShowsSame.toField_eq {id offset : ℕ} {phv phv' : DataPHV} (hs : ShowsSame id offset phv phv')
    {i : ℕ} (hi : i ≠ id) {h h' : DataHeader} (hh : phv.headers[i]? = some h)
    (hh' : phv'.headers[i]? = some h') (hvalid : h.isValid = true) :
    h'.fields.map DataField.toField = h.fields.map DataField.toField := by
  obtain ⟨-, hlen, hfields⟩ := (hs.header i h h' hh hh').2 hvalid
  refine List.ext_getElem (by simpa using hlen) fun j hj hj' => ?_
  rw [List.length_map] at hj hj'
  rw [List.getElem_map, List.getElem_map]
  exact (hfields j _ _ (List.getElem?_eq_getElem hj') (List.getElem?_eq_getElem hj) fun h => hi h.1).1

/-- An entry that does not contain the field is written in the same way. -/
theorem visit_congr {id offset : ℕ} {phv phv' : DataPHV} (hs : ShowsSame id offset phv phv')
    {e : BufEntry} (he : ¬ e.Reads id offset) (s : DeparseState) :
    DeparseState.visit phv' s e = DeparseState.visit phv s e := by
  have hheaders (i : ℕ) : (phv'.headers[i]? = none ∧ phv.headers[i]? = none) ∨
      ∃ h h', phv.headers[i]? = some h ∧ phv'.headers[i]? = some h' := by
    by_cases hi : i < phv.headers.length
    · exact .inr ⟨_, _, List.getElem?_eq_getElem hi, List.getElem?_eq_getElem (hs.length_eq ▸ hi)⟩
    · exact .inl ⟨List.getElem?_eq_none (by rw [hs.length_eq]; omega),
        List.getElem?_eq_none (not_lt.mp hi)⟩
  cases e with
  | constant v nbits => rfl
  | field headerId fieldOffset =>
    simp only [DeparseState.visit]
    rcases hheaders headerId with ⟨hnone', hnone⟩ | ⟨h, h', hh, hh'⟩
    · rw [hnone', hnone]
    · obtain ⟨hsame, hshown⟩ := hs.header headerId h h' hh hh'
      simp only [hh, hh', Option.bind_eq_bind, Option.bind_some, hsame]
      cases hvalid : h.isValid with
      | false => rfl
      | true =>
        obtain ⟨-, hlen, hfields⟩ := hshown hvalid
        simp only [if_true]
        by_cases hj : fieldOffset < h.fields.length
        · have hf := List.getElem?_eq_getElem hj
          have hf' := List.getElem?_eq_getElem (hlen ▸ hj : fieldOffset < h'.fields.length)
          obtain ⟨hfield, -⟩ := hfields fieldOffset _ _ hf hf' he
          have hnbits := congrArg Field.nbits hfield
          have hbytes := congrArg Field.bytes hfield
          simp only [hf, hf', Option.bind_some, DataField.deparse, hnbits, hbytes]
        · rw [List.getElem?_eq_none (by omega), List.getElem?_eq_none (by omega)]
  | header headerId =>
    simp only [DeparseState.visit]
    rcases hheaders headerId with ⟨hnone', hnone⟩ | ⟨h, h', hh, hh'⟩
    · rw [hnone', hnone]
    · obtain ⟨hsame, hshown⟩ := hs.header headerId h h' hh hh'
      simp only [hh, hh', Option.bind_eq_bind, Option.bind_some, hsame]
      cases hvalid : h.isValid with
      | false => rfl
      | true =>
        have hdeparse : h'.deparse = h.deparse :=
          funext fun data => deparseFields_congr (hs.toField_eq he hh hh' hvalid) data 0
        simp only [if_true, (hshown hvalid).1, hdeparse]

/-- The input of a calculation that does not contain the field. -/
theorem build_congr {id offset : ℕ} {b : BufBuilder} (hb : ∀ e ∈ b.entries, ¬ e.Reads id offset)
    {pkt pkt' : Packet} (hs : ShowsSame id offset pkt.phv pkt'.phv)
    (hdata : pkt'.buffer.data = pkt.buffer.data) : b.build pkt' = b.build pkt := by
  have hrun (es : List BufEntry) (hes : ∀ e ∈ es, ¬ e.Reads id offset) (s : DeparseState) :
      es.foldlM (DeparseState.visit pkt'.phv) s = es.foldlM (DeparseState.visit pkt.phv) s := by
    induction es generalizing s with
    | nil => rfl
    | cons e es ih =>
      rw [List.foldlM_cons, List.foldlM_cons, visit_congr hs (hes e (by simp))]
      exact congrArg _ (funext fun s' => ih (fun e' he' => hes e' (by simp [he'])) s')
  unfold BufBuilder.build
  rw [hrun b.entries hb, hdata]

/-- The packet after a change of the field shows the same elsewhere. -/
theorem showsSame_putField {phv : DataPHV} {id offset : ℕ} {h : DataHeader}
    (hh : phv.headers[id]? = some h) (f' : DataField) :
    ShowsSame id offset phv (phv.setHeader id (h.putField offset f')) := by
  refine ⟨List.length_set, fun i g g' hg hg' => ?_⟩
  by_cases hi : i = id
  · subst hi
    obtain rfl : h = g := Option.some.inj (hh.symm.trans hg)
    have hlt : i < phv.headers.length := (List.getElem?_eq_some_iff.mp hh).1
    obtain rfl : h.putField offset f' = g' := by
      simpa [DataPHV.setHeader, hlt] using hg'
    refine ⟨rfl, fun _ => ⟨rfl, List.length_set, fun j k k' hk hk' hne => ?_⟩⟩
    have hj : offset ≠ j := fun hj => hne ⟨rfl, hj.symm⟩
    rw [DataHeader.putField, List.getElem?_set_ne hj] at hk'
    obtain rfl := Option.some.inj (hk.symm.trans hk')
    exact ⟨rfl, rfl, rfl, fun _ => rfl⟩
  · have hsame : phv.headers[i]? = some g' := by
      rw [← List.getElem?_set_ne (Ne.symm hi)]
      exact hg'
    obtain rfl := Option.some.inj (hg.symm.trans hsame)
    refine ⟨rfl, fun _ => ⟨rfl, rfl, fun j k k' hk hk' _ => ?_⟩⟩
    obtain rfl := Option.some.inj (hk.symm.trans hk')
    exact ⟨rfl, rfl, rfl, fun _ => rfl⟩

/-! ## Checksums that are based on a calculation -/

namespace CalcBasedChecksum

/-- `verify` is true right after `update`. -/
def VerifiesNow (toUint64 : ℤ → Option ℕ) (c : CalcBasedChecksum) (pkt : Packet) : Prop :=
  ∃ pkt₁, c.update pkt = some pkt₁ ∧ c.verify toUint64 pkt₁ = some true

/-- `verify` is true right after `update`, and after the packet was deparsed and parsed again. -/
def Verifies (toUint64 : ℤ → Option ℕ) (c : CalcBasedChecksum) (pkt : Packet) : Prop :=
  ∃ pkt₁, c.update pkt = some pkt₁ ∧ c.verify toUint64 pkt₁ = some true ∧
    ∀ pkt₂, pkt₁.Reparsed pkt₂ → c.verify toUint64 pkt₂ = some true

/-- The field `f` of the header `h` is the one of the checksum; neither the calculation nor the
condition reads it. -/
structure Sets (c : CalcBasedChecksum) (pkt : Packet) (h : DataHeader) (f : DataField) : Prop where
  header : pkt.phv.headers[c.headerId]? = some h
  field : h.fields[c.fieldOffset]? = some f
  signed : f.isSigned = true → 1 < f.nbits
  input : ∀ e ∈ c.builder.entries, ¬ e.Reads c.headerId c.fieldOffset
  condition : ∀ phv phv', ShowsSame c.headerId c.fieldOffset phv phv' →
    c.isConditionMet phv' = c.isConditionMet phv

variable {c : CalcBasedChecksum} {toUint64 : ℤ → Option ℕ} {pkt : Packet} {h : DataHeader}
  {f : DataField}

/-- What `verify_` compares. -/
theorem verify_eq_true_iff (hh : pkt.phv.headers[c.headerId]? = some h)
    (hf : h.fields[c.fieldOffset]? = some f) :
    c.verify_ toUint64 pkt = some true ↔
      ∃ cksum, c.output pkt = some cksum ∧ f.arith = true ∧
        toUint64 f.value = some cksum.toNat := by
  unfold verify_
  simp only [hh, hf, Option.bind_eq_bind, Option.bind_some, Option.bind_eq_some_iff]
  refine exists_congr fun cksum => and_congr_right fun _ => ?_
  cases f.arith with
  | false => simp
  | true =>
    simp only [if_true, true_and]
    cases toUint64 f.value with
    | none => simp
    | some value =>
      show some (cksum.toNat == value) = some true ↔ _
      rw [Option.some.injEq, beq_iff_eq, Option.some.injEq]
      exact eq_comm

/-- The packet after `update_`. -/
def updated (c : CalcBasedChecksum) (pkt : Packet) (h : DataHeader) (f : DataField)
    (cksum : BitVec 64) : Packet :=
  { pkt with phv := pkt.phv.setHeader c.headerId (h.putField c.fieldOffset (f.set cksum.toNat)) }

/-- What `update` does: nothing is set when the condition is not met, or the calculation fails. -/
theorem Sets.update_eq (hs : c.Sets pkt h f) :
    c.update pkt = if c.isConditionMet pkt.phv then (c.output pkt).map (c.updated pkt h f)
      else some pkt := by
  unfold update update_
  split
  · cases hout : c.output pkt with
    | none => rfl
    | some cksum =>
      simp only [Option.bind_eq_bind, Option.bind_some, hs.header, hs.field]
      rfl
  · rfl

section Updated

variable {cksum : BitVec 64}

theorem Sets.header_updated (hs : c.Sets pkt h f) :
    (c.updated pkt h f cksum).phv.headers[c.headerId]? =
      some (h.putField c.fieldOffset (f.set cksum.toNat)) :=
  List.getElem?_set_self (List.getElem?_eq_some_iff.mp hs.header).1

theorem Sets.field_updated (hs : c.Sets pkt h f) :
    (h.putField c.fieldOffset (f.set cksum.toNat)).fields[c.fieldOffset]? =
      some (f.set cksum.toNat) :=
  List.getElem?_set_self (List.getElem?_eq_some_iff.mp hs.field).1

/-- Packets that show the same give the same input and the same condition. -/
theorem Sets.same (hs : c.Sets pkt h f) {pkt' : Packet}
    (hsame : ShowsSame c.headerId c.fieldOffset pkt.phv pkt'.phv)
    (hdata : pkt'.buffer.data = pkt.buffer.data) :
    c.isConditionMet pkt'.phv = c.isConditionMet pkt.phv ∧ c.output pkt' = c.output pkt := by
  refine ⟨hs.condition _ _ hsame, ?_⟩
  rw [output, output, build_congr hs.input hsame hdata]

theorem Sets.same_updated (hs : c.Sets pkt h f) (cksum : BitVec 64) :
    c.isConditionMet (c.updated pkt h f cksum).phv = c.isConditionMet pkt.phv ∧
      c.output (c.updated pkt h f cksum) = c.output pkt :=
  hs.same (showsSame_putField hs.header _) rfl

/-- `verify` after `update_`. -/
theorem Sets.verify_updated (hs : c.Sets pkt h f) (toUint64 : ℤ → Option ℕ) (hmet : c.isConditionMet pkt.phv = true)
    (hout : c.output pkt = some cksum) :
    c.verify toUint64 (c.updated pkt h f cksum) = some true ↔
      f.arith = true ∧ toUint64 (f.set cksum.toNat).value = some cksum.toNat := by
  have harith : (f.set cksum.toNat).arith = f.arith := by rw [DataField.set_natCast hs.signed]
  rw [verify, if_pos ((hs.same_updated cksum).1.trans hmet),
    verify_eq_true_iff hs.header_updated hs.field_updated, (hs.same_updated cksum).2, hout, harith]
  simp only [Option.some.injEq, exists_eq_left']

end Updated

/-- When `verify` is true right after `update`. -/
theorem Sets.verifiesNow_iff (hs : c.Sets pkt h f) (hconv : ∀ n : ℕ, n < 2 ^ 64 → toUint64 n = some n) :
    c.VerifiesNow toUint64 pkt ↔ c.isConditionMet pkt.phv = false ∨
      ∃ cksum, c.output pkt = some cksum ∧ f.arith = true ∧ (cksum.toNat < 2 ^ f.nbits ∨
        toUint64 (wrap f.isSigned f.nbits cksum.toNat) = some cksum.toNat) := by
  unfold VerifiesNow
  rw [hs.update_eq]
  cases hmet : c.isConditionMet pkt.phv with
  | false => simp [verify, hmet]
  | true =>
    rw [if_pos rfl]
    cases hout : c.output pkt with
    | none => simp
    | some cksum =>
      have hverify := hs.verify_updated toUint64 hmet hout
      simp only [Option.map_some, Option.some.injEq, exists_eq_left', Bool.true_eq_false, false_or]
      rw [hverify, DataField.set_natCast hs.signed]
      refine and_congr_right fun _ => ?_
      dsimp only
      by_cases hlt : cksum.toNat < 2 ^ f.nbits
      · simp [hlt, hconv _ cksum.isLt]
      · simp [hlt]

section Reparsed

variable {cksum : BitVec 64} (hs : c.Sets pkt h f) (hclean : pkt.Clean)
  (hsync : pkt.Synced c.headerId c.fieldOffset) (hmeta : h.metadata = false)
  (hvisible : h.visible[c.fieldOffset]? = some f)

include hs hclean hmeta hvisible

/-- A checksum is set without padding. -/
theorem Sets.clean_updated (cksum : BitVec 64) : (c.updated pkt h f cksum).Clean := by
  intro g hg hgmeta hgvalid
  rcases List.mem_or_eq_of_mem_set hg with hg | rfl
  · exact hclean g hg hgmeta hgvalid
  have hset := DataField.set_natCast hs.signed cksum.toNat
  have hlt : cksum.toNat % 2 ^ f.nbits < 2 ^ f.nbits := Nat.mod_lt _ (Nat.two_pow_pos _)
  have hpad := fieldPad_add f.nbits
  refine (hclean h (List.mem_of_getElem? hs.header) hmeta hgvalid).putField hvisible
    (DataField.set_nbits f _) (DataField.set_hidden f _) ?_ fun i hi => ?_
  · rw [hset]
    exact length_natToBytes _ _
  · rw [DataField.set_nbits] at hi
    rw [hset]
    dsimp only
    rw [Field.nbytes, bitAt_natToBytes _ (by omega)]
    exact Nat.testBit_lt_two_pow (hlt.trans_le (Nat.pow_le_pow_right (by norm_num) (by omega)))

include hsync

/-- The values of the other fields are as they were. -/
theorem Sets.synced_updated (cksum : BitVec 64) :
    (c.updated pkt h f cksum).Synced c.headerId c.fieldOffset := by
  intro i g hg hgmeta hgvalid j e he hne harith
  by_cases hi : i = c.headerId
  · subst hi
    obtain rfl := Option.some.inj (hg.symm.trans hs.header_updated)
    have hsized := (hclean h (List.mem_of_getElem? hs.header) hmeta hgvalid).deparsable.sized
    have hj : c.fieldOffset ≠ j := fun hj => hne ⟨rfl, hj.symm⟩
    rw [(hsized.visible_putField hvisible _).1, List.getElem?_set_ne hj] at he
    exact hsync _ h hs.header hmeta hgvalid j e he hne harith
  · have hg' : pkt.phv.headers[i]? = some g := by
      rw [← List.getElem?_set_ne (Ne.symm hi)]
      exact hg
    exact hsync i g hg' hgmeta hgvalid j e he hne harith

/-- `verify` of a packet that was parsed again gets the same checksum. -/
theorem Sets.verify_reparsed (toUint64 : ℤ → Option ℕ) (hmet : c.isConditionMet pkt.phv = true)
    (hout : c.output pkt = some cksum) {pkt₂ : Packet}
    (hr : (c.updated pkt h f cksum).Reparsed pkt₂) {h₂ : DataHeader} {f₂ : DataField}
    (hh₂ : pkt₂.phv.headers[c.headerId]? = some h₂) (hf₂ : h₂.fields[c.fieldOffset]? = some f₂) :
    c.verify toUint64 pkt₂ = some true ↔
      f₂.arith = true ∧ toUint64 f₂.value = some cksum.toNat := by
  have hshown := (hs.clean_updated hclean hmeta hvisible cksum).showsSame
    (hs.synced_updated hclean hsync hmeta hvisible cksum) hr
  have hmet₂ : c.isConditionMet pkt₂.phv = true :=
    (hs.condition _ _ hshown).trans ((hs.same_updated cksum).1.trans hmet)
  have hout₂ : c.output pkt₂ = some cksum := by
    rw [← hout, ← (hs.same_updated cksum).2, output, output,
      build_congr hs.input hshown hr.data]
  rw [verify, if_pos hmet₂, verify_eq_true_iff hh₂ hf₂, hout₂]
  simp only [Option.some.injEq, exists_eq_left']

omit hsync

/-- The field of the checksum after a valid header was parsed again. -/
theorem Sets.field_reparsed (hvalid : h.valid = true) {pkt₂ : Packet}
    (hr : (c.updated pkt h f cksum).Reparsed pkt₂) :
    ∃ h₂ f₂, pkt₂.phv.headers[c.headerId]? = some h₂ ∧ h₂.fields[c.fieldOffset]? = some f₂ ∧
      f₂.arith = f.arith ∧ (f.arith = true → f₂.value = wrap f.isSigned f.nbits cksum.toNat) := by
  obtain ⟨h₂, hh₂, hparsed⟩ := DataHeader.Reparsed.getElem? hr.headers hs.header_updated
  have hclean₁ := hs.clean_updated hclean hmeta hvisible cksum _
    (List.mem_of_getElem? hs.header_updated) hmeta hvalid
  rw [DataHeader.reparsed_iff_parsedAs (by exact hmeta) (by exact hvalid)] at hparsed
  obtain ⟨v, -, hfields₂, hlen, hread⟩ := hclean₁.reread hparsed
  have hsized := (hclean h (List.mem_of_getElem? hs.header) hmeta hvalid).deparsable.sized
  have hlt := (List.getElem?_eq_some_iff.mp hvisible).1
  have hset : (h.putField c.fieldOffset (f.set cksum.toNat)).visible[c.fieldOffset]? =
      some (f.set cksum.toNat) := by
    rw [(hsized.visible_putField hvisible _).1]
    exact List.getElem?_set_self hlt
  have hlt₂ : c.fieldOffset < h₂.visible.length :=
    hlen ▸ (List.getElem?_eq_some_iff.mp hset).1
  have hre := hread _ _ _ hset (List.getElem?_eq_getElem hlt₂)
  have harith : (f.set cksum.toNat).arith = f.arith := by rw [DataField.set_natCast hs.signed]
  refine ⟨h₂, _, hh₂, ?_, hre.arith.trans harith, fun ha => ?_⟩
  · rw [hfields₂, List.getElem?_append_left hlt₂]
    exact List.getElem?_eq_getElem hlt₂
  · rw [hre.value (harith.trans ha), DataField.syncValue_set hs.signed]

end Reparsed

/-- When `verify` is true also after the packet was deparsed and parsed again. -/
theorem Sets.verifies_iff (hs : c.Sets pkt h f) (hconv : ∀ n : ℕ, n < 2 ^ 64 → toUint64 n = some n)
    (hclean : pkt.Clean) (hsync : pkt.Synced c.headerId c.fieldOffset) (hmeta : h.metadata = false)
    (hvisible : h.visible[c.fieldOffset]? = some f) :
    c.Verifies toUint64 pkt ↔ c.isConditionMet pkt.phv = false ∨
      (h.isValid = true ∧ ∃ cksum, c.output pkt = some cksum ∧ f.arith = true ∧
        toUint64 (wrap f.isSigned f.nbits cksum.toNat) = some cksum.toNat) := by
  unfold Verifies
  rw [hs.update_eq]
  cases hmet : c.isConditionMet pkt.phv with
  | false =>
    simp only [Bool.false_eq_true, if_false, Option.some.injEq, exists_eq_left', true_or, iff_true]
    refine ⟨by rw [verify, hmet]; rfl, fun pkt₂ hr => ?_⟩
    rw [verify, hs.condition _ _ (hclean.showsSame hsync hr), hmet]
    rfl
  | true =>
  simp only [if_true, Bool.true_eq_false, false_or]
  cases hout : c.output pkt with
  | none => simp
  | some cksum =>
  simp only [Option.map_some, Option.some.injEq, exists_eq_left']
  have hclean₁ := hs.clean_updated hclean hmeta hvisible cksum
  have hverify {pkt₂ : Packet} (hr : (c.updated pkt h f cksum).Reparsed pkt₂) {h₂ : DataHeader}
      {f₂ : DataField} (hh₂ : pkt₂.phv.headers[c.headerId]? = some h₂)
      (hf₂ : h₂.fields[c.fieldOffset]? = some f₂) :=
    hs.verify_reparsed hclean hsync hmeta hvisible toUint64 hmet hout hr hh₂ hf₂
  have hisValid : h.isValid = h.valid := by rw [DataHeader.isValid, hmeta, Bool.false_or]
  rw [hisValid]
  cases hvalid : h.valid with
  | false =>
    -- nothing is known of the field of a header that is not found
    refine iff_of_false ?_ (by simp)
    rintro ⟨-, hall⟩
    obtain ⟨v, hv⟩ : ∃ v : ℕ, toUint64 v ≠ some cksum.toNat := by
      by_cases hzero : cksum.toNat = 0
      · exact ⟨1, by rw [hconv 1 (by norm_num), hzero]; simp⟩
      · exact ⟨0, by rw [hconv 0 (by norm_num)]; simpa using Ne.symm hzero⟩
    have hinvalid : (h.putField c.fieldOffset (f.set cksum.toNat)).isValid = false :=
      hisValid.trans hvalid
    have hshape : ((h.putField c.fieldOffset (f.set cksum.toNat)).putField c.fieldOffset
        { f.set cksum.toNat with value := v }).fields.map DataHeader.fieldShape =
          (h.putField c.fieldOffset (f.set cksum.toNat)).fields.map DataHeader.fieldShape := by
      simp [DataHeader.putField, DataHeader.fieldShape, List.map_set]
    obtain ⟨pkt₂, hr, hh₂⟩ := hclean₁.exists_reparsed hs.header_updated
      (DataHeader.reparsed_of_not_valid hinvalid (by exact hinvalid) hshape)
    have hf₂ : ((h.putField c.fieldOffset (f.set cksum.toNat)).putField c.fieldOffset
        { f.set cksum.toNat with value := v }).fields[c.fieldOffset]? =
          some { f.set cksum.toNat with value := v } :=
      List.getElem?_set_self (List.getElem?_eq_some_iff.mp hs.field_updated).1
    exact hv ((hverify hr hh₂ hf₂).mp (hall pkt₂ hr)).2
  | true =>
  simp only [true_and]
  constructor
  · rintro ⟨-, hall⟩
    obtain ⟨h₂, hparsed⟩ := (hclean₁ _ (List.mem_of_getElem? hs.header_updated) hmeta
      hvalid).exists_parsedAs
    obtain ⟨pkt₂, hr, hh₂⟩ := hclean₁.exists_reparsed hs.header_updated
      ((DataHeader.reparsed_iff_parsedAs (by exact hmeta) (by exact hvalid)).mpr hparsed)
    obtain ⟨h₂', f₂, hh₂', hf₂, harith, hvalue⟩ := hs.field_reparsed hclean hmeta hvisible hvalid hr
    obtain ⟨ha, hval⟩ := (hverify hr hh₂' hf₂).mp (hall pkt₂ hr)
    have ha' : f.arith = true := harith ▸ ha
    exact ⟨ha', hvalue ha' ▸ hval⟩
  · rintro ⟨ha, hwrap⟩
    refine ⟨(hs.verify_updated toUint64 hmet hout).mpr ⟨ha, ?_⟩, fun pkt₂ hr => ?_⟩
    · rw [DataField.set_natCast hs.signed]
      dsimp only
      split
      · exact hconv _ cksum.isLt
      · exact hwrap
    · obtain ⟨h₂, f₂, hh₂, hf₂, harith, hvalue⟩ := hs.field_reparsed hclean hmeta hvisible hvalid hr
      exact (hverify hr hh₂ hf₂).mpr ⟨harith.trans ha, (hvalue ha).symm ▸ hwrap⟩

end CalcBasedChecksum

end Bm
