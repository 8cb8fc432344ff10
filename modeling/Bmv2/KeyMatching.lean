/-
# What an entry matches

An entry is built from match parameters, and the key of a packet from its fields; which packets the
entry matches is up to the comparison of the two byte strings in the lookup structure.  Here this is
said field by field.

* `FieldMatches`: what the parameter of a field means, on numbers of as many bits as the field has;
* `FieldCompared`: what the comparison amounts to.  The prefix of an LPM parameter is counted over
  whole bytes, the padding in front of the field included, and the end of a range keeps the bits that
  the field does not have.
-/
import Bmv2.ArithFields
import Bmv2.EntryReadBack
import Bmv2.Lib.Prefixes

namespace Bm

open MatchKeyBuilder

/-! ## The fields of a packet -/

/-- The value of a field of the table key: 1 or 0 for the validity of a header, and 0 for a field whose
header is not valid, unless the field is hidden. -/
def fieldValue (phv : PHV) (f : KeyField) : ℕ :=
  match phv.headers[f.header]? with
  | none => 0
  | some header =>
      if f.mtype = .valid then if header.isValid then 1 else 0
      else
        match header.fields[f.fOffset]? with
        | none => 0
        | some field => if header.isValid || field.hidden then beNat field.bytes else 0

/-- The value that the key compares: the field under its static mask. -/
def packetValue (phv : PHV) (f : KeyField) : ℕ := fieldValue phv f &&& beNat f.maskBytes

/-- The packet has the header of the element of the table key, and the field with the width that the
layout was built for. -/
def PHV.Carries (phv : PHV) (f : KeyField) : Prop :=
  ∃ header, phv.headers[f.header]? = some header ∧
    (f.mtype ≠ .valid → ∃ field, header.fields[f.fOffset]? = some field ∧ field.nbits = f.nbits ∧
      field.Canonical)

/-! ## The meaning of a parameter -/

/-- The key of a parameter as a number of as many bits as the field has, under the static mask. -/
def keyValue (f : KeyField) (p : MatchKeyParam) : ℕ :=
  beNat p.key % 2 ^ f.toKeyF.nbits &&& beNat f.maskBytes

/-- The value satisfies the parameter, where a prefix is counted from the first of `bits` bits and a
range goes up to `stop`. -/
def Satisfies (bits stop : ℕ) (f : KeyField) (p : MatchKeyParam) (x : ℕ) : Prop :=
  match p.type with
  | .valid | .exact => x = keyValue f p
  | .lpm => x >>> (bits - p.prefixLength.toNat) = keyValue f p >>> (bits - p.prefixLength.toNat)
  | .ternary => x &&& beNat p.mask = keyValue f p &&& beNat p.mask
  | .range => keyValue f p ≤ x ∧ x ≤ stop

instance (bits stop : ℕ) (f : KeyField) (p : MatchKeyParam) (x : ℕ) :
    Decidable (Satisfies bits stop f p x) := by
  unfold Satisfies
  cases p.type <;> infer_instance

/-- What the parameter means: everything is read as a number of as many bits as the field has. -/
def FieldMatches (f : KeyField) (p : MatchKeyParam) (x : ℕ) : Prop :=
  Satisfies f.toKeyF.nbits (beNat p.mask % 2 ^ f.toKeyF.nbits) f p x

/-- What the lookup structures compare: prefixes are counted over whole bytes, and the end of a range
is taken as it is. -/
def FieldCompared (f : KeyField) (p : MatchKeyParam) (x : ℕ) : Prop :=
  Satisfies (8 * f.toKeyF.nbytes) (beNat p.mask) f p x

instance (f : KeyField) (p : MatchKeyParam) (x : ℕ) : Decidable (FieldMatches f p x) :=
  inferInstanceAs (Decidable (Satisfies ..))

instance (f : KeyField) (p : MatchKeyParam) (x : ℕ) : Decidable (FieldCompared f p x) :=
  inferInstanceAs (Decidable (Satisfies ..))

/-- Every field of the packet satisfies its own parameter. -/
def PacketMatches (fs : List KeyField) (params : List MatchKeyParam) (phv : PHV) : Prop :=
  List.Forall₂ (fun f p => FieldMatches f p (packetValue phv f)) fs params

/-- The entry of the parameters is found for the packet, alone in a lookup structure of its kind. -/
def entryMatches (K : Type) {S : Type} [MatchKey K] [LookupStructure K S] (kb : MatchKeyBuilder)
    (params : List MatchKeyParam) (phv : PHV) : Option Bool := do
  let key ← storedKey K kb params
  let lookupStructure ← LookupStructure.create K 1 kb.nbytesKey
  let lookupStructure ← LookupStructure.addEntry lookupStructure (MatchKey.setPriority key 0) 0
  let packetKey ← kb.buildKey phv
  let handle ← LookupStructure.lookup K lookupStructure packetKey
  pure handle.isSome

/-! ## Values of bytes -/

theorem beNat_widthMask (nbits : ℕ) : beNat (widthMask nbits (nbitsToNbytes nbits)) = 2 ^ nbits - 1 := by
  have hff : ∀ n, beNat (List.replicate n (0xff : Byte)) = 2 ^ (8 * n) - 1 := beNat_replicate_ff
  have hsplit := Nat.div_add_mod nbits 8
  by_cases hmod : nbits % 8 = 0
  · have hn : nbitsToNbytes nbits = nbits / 8 := by
      rw [nbitsToNbytes]
      omega
    have hmask : ∀ n, widthMask nbits n = List.replicate n 0xff := by
      intro n
      cases n with
      | zero => rfl
      | succ n => rw [widthMask, getByte0Mask, if_pos hmod, List.replicate_succ]
    have hbits : 8 * (nbits / 8) = nbits := by omega
    rw [hn, hmask, hff, hbits]
  · have hn : nbitsToNbytes nbits = nbits / 8 + 1 := by
      rw [nbitsToNbytes]
      omega
    have hlt : 2 ^ (nbits % 8) < 2 ^ 8 := Nat.pow_lt_pow_right (by norm_num) (by omega)
    have hpow : 2 ^ nbits = 2 ^ (8 * (nbits / 8)) * 2 ^ (nbits % 8) := by
      rw [← pow_add, hsplit]
    have hone : 1 ≤ 2 ^ (nbits % 8) := Nat.one_le_two_pow
    have hone' : 1 ≤ 2 ^ (8 * (nbits / 8)) := Nat.one_le_two_pow
    have hle : 2 ^ (8 * (nbits / 8)) ≤ 2 ^ (8 * (nbits / 8)) * 2 ^ (nbits % 8) :=
      Nat.le_mul_of_pos_right _ (by omega)
    rw [hn, widthMask, getByte0Mask, if_neg hmod, beNat_cons, hff, List.length_replicate,
      BitVec.toNat_ofNat, Nat.mod_eq_of_lt (by omega), hpow, Nat.mul_sub, Nat.mul_one]
    omega

namespace MatchKeyBuilder

variable {kb : MatchKeyBuilder} {fs : List KeyField} {params : List MatchKeyParam} {f : KeyField}
  {p : MatchKeyParam} {phv : PHV}

/-- Masking the first byte leaves a number of as many bits as the field has. -/
theorem Fits.beNat_paramBlock (h : Fits fs f p) :
    beNat (paramBlock f.toKeyF.nbits p) = beNat p.key % 2 ^ f.toKeyF.nbits := by
  have hlen := h.length_key
  rw [paramBlock_eq, beNat_andBytes (by simp), hlen, KeyF.nbytes, beNat_widthMask,
    Nat.and_two_pow_sub_one_eq_mod]

/-- The key that an entry keeps for a parameter, as a number. -/
theorem Fits.beNat_canonicalKey (hb : kb.Built fs) (h : Fits fs f p) (masked : Bool) :
    beNat (canonicalKey masked f p) = keyValue f p &&& beNat (keyMask masked p) := by
  have hblock := h.length_paramBlock.trans (h.length_keyMask masked).symm
  rw [canonicalKey, beNat_andBytes, beNat_andBytes hblock, h.beNat_paramBlock, keyValue,
    Nat.and_assoc, Nat.and_assoc, Nat.and_comm (beNat (keyMask masked p))]
  rw [length_andBytes hblock, h.length_paramBlock, hb.length_mask f h.1]

/-! ## The key of a packet -/

/-- What the field contributes to the key of the packet. -/
def packetBlock (phv : PHV) (f : KeyField) : ByteContainer :=
  andBytes ((keyBytes phv f.toKeyF).getD []) f.maskBytes

/-- A field that the packet has contributes its value, in as many bytes as the layout has for it. -/
theorem keyBytes_of_carries (h : phv.Carries f) :
    ∃ bytes, keyBytes phv f.toKeyF = some bytes ∧ bytes.length = f.toKeyF.nbytes ∧
      beNat bytes = fieldValue phv f ∧ fieldValue phv f < 2 ^ f.toKeyF.nbits := by
  obtain ⟨header, hheader, hfield⟩ := h
  by_cases hvalid : f.mtype = .valid
  · have hkeyF : f.toKeyF = ⟨f.header, 0, .valid, 8⟩ := if_pos hvalid
    have hvalue : fieldValue phv f = if header.isValid then 1 else 0 := by
      rw [fieldValue, hheader]
      exact if_pos hvalid
    have hkey : keyBytes phv f.toKeyF = some [if header.isValid then 1 else 0] := by
      rw [hkeyF, keyBytes, hheader]
      rfl
    refine ⟨_, hkey, ?_, ?_, ?_⟩
    · simp [hkeyF, KeyF.nbytes, nbitsToNbytes]
    · rw [hvalue]
      cases header.isValid <;> rfl
    · rw [hvalue, hkeyF]
      split <;> norm_num
  · obtain ⟨field, hget, hnbits, hcanonical⟩ := hfield hvalid
    have hkeyF : f.toKeyF = ⟨f.header, f.fOffset, f.mtype, f.nbits⟩ := if_neg hvalid
    have hvalue : fieldValue phv f =
        if header.isValid || field.hidden then beNat field.bytes else 0 := by
      simp only [fieldValue, hheader, if_neg hvalid, hget]
    have hkey : keyBytes phv f.toKeyF =
        some (if header.isValid || field.hidden then field.bytes else List.replicate field.nbytes 0) := by
      rw [hkeyF, keyBytes, hheader]
      simp only [Option.bind_eq_bind, Option.bind_some, if_neg hvalid, hget]
      split <;> rfl
    refine ⟨_, hkey, ?_, ?_, ?_⟩
    · rw [hkeyF, KeyF.nbytes, ← hnbits]
      split
      · exact hcanonical.length_bytes
      · exact List.length_replicate
    · rw [hvalue]
      split
      · rfl
      · exact beNat_replicate_zero _
    · rw [hvalue, hkeyF, ← hnbits]
      split
      · exact hcanonical.beNat_lt
      · exact Nat.two_pow_pos _

theorem length_packetBlock (hb : kb.Built fs) (hf : f ∈ fs) (h : phv.Carries f) :
    (packetBlock phv f).length = f.toKeyF.nbytes := by
  obtain ⟨bytes, hbytes, hlen, -, -⟩ := keyBytes_of_carries h
  rw [packetBlock, hbytes, Option.getD_some, length_andBytes (hlen.trans (hb.length_mask f hf).symm), hlen]

theorem beNat_packetBlock (hb : kb.Built fs) (hf : f ∈ fs) (h : phv.Carries f) :
    beNat (packetBlock phv f) = packetValue phv f := by
  obtain ⟨bytes, hbytes, hlen, hvalue, -⟩ := keyBytes_of_carries h
  rw [packetBlock, hbytes, Option.getD_some, beNat_andBytes (hlen.trans (hb.length_mask f hf).symm), hvalue,
    packetValue]

/-- The parts of the key of a packet. -/
theorem mapM_keyBytes (hb : kb.Built fs) (hcarries : ∀ f ∈ fs, phv.Carries f) :
    kb.keyInput.mapM (keyBytes phv) =
      some ((implFields fs).map fun f => (keyBytes phv f.toKeyF).getD []) := by
  rw [hb.keyInput, List.mapM_map]
  refine mapM_eq_some_map fun f hf => ?_
  obtain ⟨bytes, hbytes, -⟩ := keyBytes_of_carries (hcarries f ((implFields_perm fs).mem_iff.mp hf))
  rw [Function.comp_apply, hbytes, Option.getD_some]

/-- The key of a packet lays out the fields of the packet. -/
theorem buildKey_eq (hb : kb.Built fs) (hcheck : Checked fs params)
    (hcarries : ∀ f ∈ fs, phv.Carries f) :
    kb.buildKey phv = some (layOut (fun f _ => packetBlock phv f) fs params) := by
  have hlaid : layOut (fun f _ => (keyBytes phv f.toKeyF).getD []) fs params =
      ((implFields fs).map fun f => (keyBytes phv f.toKeyF).getD []).flatten := by
    rw [layOut, hcheck.zipWith_left]
  rw [buildKey, mapM_keyBytes hb hcarries]
  refine Eq.trans ?_ (applyBigMask_layOut (g := fun f _ => (keyBytes phv f.toKeyF).getD []) hb hcheck
    fun f p h => ?_)
  · rw [hlaid]
    rfl
  · obtain ⟨bytes, hbytes, hlen, -⟩ := keyBytes_of_carries (hcarries f h.1)
    rw [hbytes, Option.getD_some, hlen]

theorem length_packetKey (hb : kb.Built fs) (hcheck : Checked fs params)
    (hcarries : ∀ f ∈ fs, phv.Carries f) :
    (layOut (fun f _ => packetBlock phv f) fs params).length = kb.nbytesKey :=
  (length_layOut hcheck fun f _ hfits => length_packetBlock hb hfits.1 (hcarries f hfits.1)).trans
    hb.nbytesKey.symm

/-! ## Comparisons, field by field -/

variable {g h : KeyField → MatchKeyParam → ByteContainer}

/-- Two byte strings laid out alike are equal when they are field by field. -/
theorem layOut_inj (hcheck : Checked fs params)
    (hlen : ∀ f p, Fits fs f p → (g f p).length = (h f p).length) :
    layOut g fs params = layOut h fs params ↔
      List.Forall₂ (fun f p => g f p = h f p) (implFields fs) (implParams fs params) := by
  rw [layOut, layOut]
  rw [Checked] at hcheck
  generalize implFields fs = fields, implParams fs params = ps at hcheck ⊢
  induction hcheck with
  | nil => simp
  | cons hp _ ih =>
    rw [List.zipWith_cons_cons, List.zipWith_cons_cons, List.flatten_cons, List.flatten_cons,
      List.forall₂_cons, ← ih]
    exact ⟨fun heq => List.append_inj heq (hlen _ _ hp), fun heq => by rw [heq.1, heq.2]⟩

/-- The bits of a prefix mask. -/
theorem testBit_createMaskFromPrefLen {prefixLength size : ℕ} (h : prefixLength ≤ 8 * size) (j : ℕ) :
    (beNat (createMaskFromPrefLen prefixLength size)).testBit j =
      decide (8 * size - prefixLength ≤ j ∧ j < 8 * size) := by
  induction size generalizing prefixLength with
  | zero =>
    obtain rfl : prefixLength = 0 := by omega
    simp [createMaskFromPrefLen]
  | succ size ih =>
    by_cases hlong : 8 ≤ prefixLength
    · rw [createMaskFromPrefLen_of_le hlong, testBit_beNat_cons, length_createMaskFromPrefLen (by omega),
        ih (by omega)]
      by_cases hj : j < 8 * size
      · rw [if_pos hj, decide_eq_decide]
        omega
      · rw [if_neg hj]
        have hff : (0xff : Byte).toNat.testBit (j - 8 * size) = decide (j - 8 * size < 8) :=
          Nat.testBit_two_pow_sub_one 8 _
        rw [hff, decide_eq_decide]
        omega
    · rw [createMaskFromPrefLen_of_lt (by omega), testBit_beNat_cons, List.length_replicate,
        beNat_replicate_zero]
      by_cases hj : j < 8 * size
      · rw [if_pos hj, Nat.zero_testBit, eq_comm, decide_eq_false_iff_not]
        omega
      · rw [if_neg hj]
        change (0xff#8 <<< (8 - prefixLength)).getLsbD (j - 8 * size) = _
        have hff : ∀ i, (0xff#8).getLsbD i = decide (i < 8) := Nat.testBit_two_pow_sub_one 8
        rw [BitVec.getLsbD_shiftLeft, hff]
        by_cases hlow : j - 8 * size < 8 - prefixLength
        · rw [decide_eq_true hlow]
          simp only [Bool.not_true, Bool.and_false, Bool.false_and]
          rw [eq_comm, decide_eq_false_iff_not]
          omega
        · rw [decide_eq_false hlow, Bool.not_false, Bool.and_true, ← Bool.decide_and, decide_eq_decide]
          omega

theorem width_le (f : KeyField) : f.toKeyF.nbits ≤ 8 * f.toKeyF.nbytes := by
  rw [KeyF.nbytes, nbitsToNbytes]
  omega

theorem keyValue_lt (f : KeyField) (p : MatchKeyParam) : keyValue f p < 2 ^ f.toKeyF.nbits :=
  Nat.and_le_left.trans_lt (Nat.mod_lt _ (Nat.two_pow_pos _))

theorem packetValue_lt (h : phv.Carries f) : packetValue phv f < 2 ^ f.toKeyF.nbits := by
  obtain ⟨-, -, -, -, hlt⟩ := keyBytes_of_carries h
  exact Nat.and_le_left.trans_lt hlt

/-- Behind its mask the field of the packet equals what the entry keeps, when the comparison of the
field holds. -/
theorem Fits.compared_iff (hb : kb.Built fs) (hfits : Fits fs f p) (hrange : p.type ≠ .range)
    (hcarries : phv.Carries f) :
    andBytes (packetBlock phv f) (paramMask p) = canonicalKey true f p ↔
      FieldCompared f p (packetValue phv f) := by
  have hpacket := length_packetBlock hb hfits.1 hcarries
  have hmask := hpacket.trans hfits.length_paramMask.symm
  have hlen : (andBytes (packetBlock phv f) (paramMask p)).length = (canonicalKey true f p).length := by
    rw [length_andBytes hmask, hpacket, length_canonicalKey true hb hfits]
  have hvalues : andBytes (packetBlock phv f) (paramMask p) = canonicalKey true f p ↔
      packetValue phv f &&& beNat (paramMask p) = keyValue f p &&& beNat (paramMask p) := by
    rw [← beNat_packetBlock hb hfits.1 hcarries, ← beNat_andBytes hmask,
      ← hfits.keyMask_of_not_range hrange, ← hfits.beNat_canonicalKey hb true]
    rw [hfits.keyMask_of_not_range hrange]
    exact (beNat_inj hlen).symm
  have hpow := Nat.pow_le_pow_right (show 0 < 2 by norm_num) (width_le f)
  have hx := (packetValue_lt hcarries).trans_le hpow
  have hk := (keyValue_lt f p).trans_le hpow
  -- a mask of ones keeps both numbers
  have hones : ∀ n, n = f.toKeyF.nbytes →
      (packetValue phv f &&& beNat (List.replicate n 0xff) =
        keyValue f p &&& beNat (List.replicate n 0xff) ↔ packetValue phv f = keyValue f p) := by
    rintro n rfl
    have hff : beNat (List.replicate f.toKeyF.nbytes (0xff : Byte)) = 2 ^ (8 * f.toKeyF.nbytes) - 1 :=
      beNat_replicate_ff _
    rw [hff, Nat.and_two_pow_sub_one_eq_mod, Nat.and_two_pow_sub_one_eq_mod, Nat.mod_eq_of_lt hx,
      Nat.mod_eq_of_lt hk]
  rw [hvalues, FieldCompared, Satisfies, paramMask]
  cases htype : p.type with
  | valid => exact hones 1 (nbytes_toKeyF_of_valid (hfits.type_eq.symm.trans htype)).symm
  | exact => exact hones _ hfits.length_key
  | lpm =>
    obtain ⟨hnonneg, hle⟩ := hfits.prefixLength_le htype
    have hwidth := width_le f
    have hprefix : p.prefixLength.toNat ≤ 8 * f.toKeyF.nbytes := by omega
    rw [hfits.length_key]
    exact and_eq_and_iff hx hk (testBit_createMaskFromPrefLen hprefix)
  | ternary => exact Iff.rfl
  | range => exact absurd htype hrange

/-- Without masks an entry keeps the value of the key. -/
theorem Fits.beNat_canonicalKey_of_unmasked (hb : kb.Built fs) (hfits : Fits fs f p)
    (hternary : p.type ≠ .ternary) : beNat (canonicalKey false f p) = keyValue f p := by
  have hmask : keyMask false p = List.replicate f.toKeyF.nbytes 0xff := by
    rw [keyMask]
    cases htype : p.type with
    | ternary => exact absurd htype hternary
    | valid => rw [hfits.length_key]
    | exact => rw [hfits.length_key]
    | lpm => simp [hfits.length_key]
    | range => rw [hfits.length_key]
  have hff : beNat (List.replicate f.toKeyF.nbytes (0xff : Byte)) = 2 ^ (8 * f.toKeyF.nbytes) - 1 :=
    beNat_replicate_ff _
  have hk : keyValue f p < 2 ^ (8 * f.toKeyF.nbytes) :=
    (keyValue_lt f p).trans_le (Nat.pow_le_pow_right (by norm_num) (width_le f))
  rw [hfits.beNat_canonicalKey hb, hmask, hff, Nat.and_two_pow_sub_one_eq_mod, Nat.mod_eq_of_lt hk]

/-! ### Exact keys -/

/-- The bytes of an exact field, or of the validity of a header. -/
theorem Fits.compared_exact_iff (hb : kb.Built fs) (hfits : Fits fs f p)
    (hexact : p.type = .exact ∨ p.type = .valid) (hcarries : phv.Carries f) :
    packetBlock phv f = canonicalKey false f p ↔ FieldCompared f p (packetValue phv f) := by
  have hlen : (packetBlock phv f).length = (canonicalKey false f p).length := by
    rw [length_packetBlock hb hfits.1 hcarries, length_canonicalKey false hb hfits]
  rw [← beNat_inj hlen, beNat_packetBlock hb hfits.1 hcarries, hfits.beNat_canonicalKey_of_unmasked hb
    (by rcases hexact with htype | htype <;> simp [htype]), FieldCompared, Satisfies]
  rcases hexact with htype | htype <;> rw [htype]

/-! ### LPM keys -/

theorem bitsOf_append (as bs : List Byte) : bitsOf (as ++ bs) = bitsOf as ++ bitsOf bs :=
  List.flatMap_append

/-- The first elements of a list are a prefix of another of the same length. -/
theorem take_isPrefix_iff {α : Type} {as bs : List α} (hlen : as.length = bs.length) {n : ℕ} :
    as.take n <+: bs ↔ as.take n = bs.take n := by
  have htake : bs.take (as.take n).length = bs.take n := by
    rw [List.take_eq_take_iff, List.length_take, hlen]
    omega
  rw [List.prefix_iff_eq_take, htake]

/-- The bits that the parameters add to the prefix of an LPM key. -/
def prefixBits (ps : List MatchKeyParam) : ℕ :=
  (ps.map fun p => ((paramPrefixLength p).getD 0).toNat).sum

theorem toNat_lpmPrefixLength {fields : List KeyField} {ps : List MatchKeyParam}
    (hcheck : List.Forall₂ (Fits fs) fields ps) {n : ℤ} (hn : lpmPrefixLength ps = some n) :
    n.toNat = prefixBits ps := by
  have hsum := (foldlM_prefixLength hn).2
  have hnonneg : ∀ p ∈ ps, 0 ≤ (paramPrefixLength p).getD 0 := by
    intro p hp
    obtain ⟨i, hi, rfl⟩ := List.getElem_of_mem hp
    have hfits := hcheck.get (hcheck.length_eq ▸ hi) hi
    simp only [List.get_eq_getElem] at hfits
    rw [paramPrefixLength]
    cases htype : ps[i].type with
    | valid => simp
    | exact => simp
    | lpm => exact (hfits.prefixLength_le htype).1
    | range => simp
    | ternary => simp
  have hcast : ((prefixBits ps : ℕ) : ℤ) = (ps.map fun p => (paramPrefixLength p).getD 0).sum := by
    rw [prefixBits, Nat.cast_list_sum, List.map_map]
    congr 1
    refine List.map_congr_left fun p hp => ?_
    rw [Function.comp_apply, Int.toNat_of_nonneg (hnonneg p hp)]
  rw [zero_add] at hsum
  omega

/-- The prefix of an LPM key covers the exact fields, and the LPM field, which comes last, up to its
prefix length. -/
theorem take_bits_iff (hb : kb.Built fs) (hcarries : ∀ f ∈ fs, phv.Carries f)
    {fields : List KeyField} {ps : List MatchKeyParam} (hcheck : List.Forall₂ (Fits fs) fields ps)
    (hsorted : fields.Pairwise fun f f' => f.mtype.toNat ≤ f'.mtype.toNat)
    (hkinds : ∀ f ∈ fields, f.mtype = .exact ∨ f.mtype = .valid ∨ f.mtype = .lpm)
    (hone : fields.countP (fun f => f.mtype = .lpm) ≤ 1) :
    (bitsOf (List.zipWith (fun f _ => packetBlock phv f) fields ps).flatten).take (prefixBits ps) =
        (bitsOf (List.zipWith (canonicalKey false) fields ps).flatten).take (prefixBits ps) ↔
      List.Forall₂ (fun f p => FieldCompared f p (packetValue phv f)) fields ps := by
  induction hcheck with
  | nil => simp
  | @cons f p fields ps hfits hrest ih =>
    have hpacket := length_packetBlock hb hfits.1 (hcarries f hfits.1)
    have hkey := length_canonicalKey false hb hfits
    have htype := hfits.type_eq.trans (mtype_toKeyF f)
    obtain ⟨hfirst, hsorted⟩ := List.pairwise_cons.mp hsorted
    obtain ⟨hkind, hkinds⟩ := List.forall_mem_cons.mp hkinds
    rw [List.zipWith_cons_cons, List.zipWith_cons_cons, List.flatten_cons, List.flatten_cons,
      List.forall₂_cons, prefixBits, List.map_cons, List.sum_cons]
    by_cases hlpm : f.mtype = .lpm
    · -- nothing comes after the LPM field
      have hlast : fields = [] := by
        rw [List.eq_nil_iff_forall_not_mem]
        intro f' hf'
        have hle := hfirst f' hf'
        have hlpm' : f'.mtype = .lpm := by
          rcases hkinds f' hf' with hkind' | hkind' | hkind'
          · simp [hlpm, hkind', MatchType.toNat] at hle
          · simp [hlpm, hkind', MatchType.toNat] at hle
          · exact hkind'
        have hpos : 0 < fields.countP fun f => f.mtype = .lpm :=
          List.countP_pos_iff.mpr ⟨f', hf', by simpa using hlpm'⟩
        rw [List.countP_cons_of_pos (by simpa using hlpm)] at hone
        omega
      subst hlast
      cases hrest
      have hptype : p.type = .lpm := htype.trans hlpm
      obtain ⟨hnonneg, hle⟩ := hfits.prefixLength_le hptype
      have hwidth := width_le f
      have hbits : ((paramPrefixLength p).getD 0).toNat = p.prefixLength.toNat := by
        rw [paramPrefixLength, hptype]
        rfl
      rw [hbits, List.map_nil, List.sum_nil, Nat.add_zero, List.zipWith_nil_right,
        List.zipWith_nil_right, List.flatten_nil, List.append_nil, List.append_nil,
        take_bitsOf_eq_iff (hpacket.trans hkey.symm) (by omega),
        beNat_packetBlock hb hfits.1 (hcarries f hfits.1),
        hfits.beNat_canonicalKey_of_unmasked hb (by simp [hptype]), hpacket, FieldCompared, Satisfies,
        hptype]
      simp
    · have hexact : p.type = .exact ∨ p.type = .valid := by
        rw [htype]
        rcases hkind with hkind | hkind | hkind
        · exact Or.inl hkind
        · exact Or.inr hkind
        · exact absurd hkind hlpm
      have hbits : ((paramPrefixLength p).getD 0).toNat = 8 * f.toKeyF.nbytes := by
        rw [paramPrefixLength]
        rcases hexact with hexact | hexact
        · rw [hexact]
          simp only [Option.getD_some, hfits.length_key]
          omega
        · rw [hexact, nbytes_toKeyF_of_valid (hfits.type_eq.symm.trans hexact)]
          rfl
      rw [List.countP_cons_of_neg (by simpa using hlpm)] at hone
      have ih := ih hsorted hkinds hone
      rw [prefixBits] at ih
      have hfirstBits : 8 * f.toKeyF.nbytes = (bitsOf (packetBlock phv f)).length := by
        rw [length_bitsOf, hpacket]
      have hfirstBits' : 8 * f.toKeyF.nbytes = (bitsOf (canonicalKey false f p)).length := by
        rw [length_bitsOf, hkey]
      have hinj : bitsOf (packetBlock phv f) = bitsOf (canonicalKey false f p) ↔
          packetBlock phv f = canonicalKey false f p := by
        simpa using @bitsOf_append_inj (packetBlock phv f) (canonicalKey false f p) [] [] (by simp)
          (by simp)
      rw [hbits, bitsOf_append, bitsOf_append]
      nth_rewrite 1 [hfirstBits]
      nth_rewrite 1 [hfirstBits']
      rw [List.take_length_add_append, List.take_length_add_append, ← ih,
        ← hfits.compared_exact_iff hb hexact (hcarries f hfits.1), ← hinj]
      exact ⟨fun heq => List.append_inj heq (hfirstBits.symm.trans hfirstBits'),
        fun heq => by rw [heq.1, heq.2]⟩

/-! ### Ternary and range keys -/

/-- What the comparison of a range key amounts to, with the ranges in front; a ternary key is compared
like a range key without ranges. -/
theorem inRanges_iff (hb : kb.Built fs) (hcarries : ∀ f ∈ fs, phv.Carries f) {fields : List KeyField}
    {ps : List MatchKeyParam} (hcheck : List.Forall₂ (Fits fs) fields ps)
    (hsorted : fields.Pairwise fun f f' => f'.mtype = .range → f.mtype = .range) :
    InRanges ((fields.filter fun f => f.toKeyF.mtype = .range).map fun f => f.toKeyF.nbytes)
        (List.zipWith (fun f _ => packetBlock phv f) fields ps).flatten
        (List.zipWith (canonicalKey true) fields ps).flatten
        (List.zipWith (fun _ p => paramMask p) fields ps).flatten ↔
      List.Forall₂ (fun f p => FieldCompared f p (packetValue phv f)) fields ps := by
  induction hcheck with
  | nil => exact iff_of_true rfl List.Forall₂.nil
  | @cons f p fields ps hfits hrest ih =>
    have hpacket := length_packetBlock hb hfits.1 (hcarries f hfits.1)
    have hkey := length_canonicalKey true hb hfits
    have hmask := hfits.length_paramMask
    obtain ⟨hfirst, hsorted⟩ := List.pairwise_cons.mp hsorted
    have ih := ih hsorted
    simp only [List.zipWith_cons_cons, List.flatten_cons]
    rw [List.forall₂_cons]
    by_cases hrange : f.mtype = .range
    · have htype : p.type = .range := hfits.type_eq.trans ((mtype_toKeyF f).trans hrange)
      have hlow : beNat (canonicalKey true f p) = keyValue f p := by
        have hmasks : keyMask true p = keyMask false p := by
          rw [keyMask, keyMask, htype]
        rw [← hfits.beNat_canonicalKey_of_unmasked hb (by simp [htype]), canonicalKey, canonicalKey, hmasks]
      have hhigh : paramMask p = p.mask := by
        rw [paramMask, htype]
      rw [List.filter_cons_of_pos (by simpa [mtype_toKeyF] using hrange), List.map_cons, InRanges,
        List.take_left' hpacket, List.take_left' hkey, List.take_left' hmask, List.drop_left' hpacket,
        List.drop_left' hkey, List.drop_left' hmask, ih, beNat_packetBlock hb hfits.1 (hcarries f hfits.1),
        hlow, hhigh, FieldCompared, Satisfies, htype]
    · -- no range comes behind a field that is not one
      have hnone : (fields.filter fun f => f.toKeyF.mtype = .range) = [] := by
        rw [List.filter_eq_nil_iff]
        intro f' hf'
        simpa [mtype_toKeyF] using fun hrange' => hrange (hfirst f' hf' hrange')
      have htype : p.type ≠ .range := fun hptype =>
        hrange ((mtype_toKeyF f).symm.trans (hfits.type_eq.symm.trans hptype))
      have hlen : (andBytes (packetBlock phv f) (paramMask p)).length = (canonicalKey true f p).length := by
        rw [length_andBytes (hpacket.trans hmask.symm), hpacket, hkey]
      rw [hnone] at ih
      rw [List.filter_cons_of_neg (by simpa [mtype_toKeyF] using hrange), hnone, List.map_nil, InRanges,
        andBytes_append (hpacket.trans hmask.symm), ← hfits.compared_iff hb htype (hcarries f hfits.1), ← ih]
      exact ⟨fun heq => List.append_inj heq hlen,
        fun heq => congrArg₂ _ heq.1 heq.2⟩

/-! ## Looking an entry up -/

/-- Fields and parameters go together in the order of the implementation as in that of the P4 key. -/
theorem forall₂_impl_iff {R : KeyField → MatchKeyParam → Prop} (hlength : params.length = fs.length) :
    List.Forall₂ R (implFields fs) (implParams fs params) ↔ List.Forall₂ R fs params := by
  have hzip : ((implFields fs).zip (implParams fs params)).Perm (fs.zip params) := by
    have hid : (List.range fs.length).map
        (fun i => (fs.getD i ⟨0, 0, .range, 0, none⟩, params.getD i default)) = fs.zip params := by
      apply List.ext_getElem?
      intro i
      by_cases hi : i < fs.length
      · have hi' : i < params.length := hlength ▸ hi
        simp [hi, hi']
      · simp [hi]
    rw [implFields, implParams, List.zip_map', ← hid]
    exact (implOrder_perm fs).map _
  rw [List.forall₂_iff_zip, List.forall₂_iff_zip, length_implFields, implParams, List.length_map,
    length_implOrder, ← implParams]
  refine and_congr (iff_of_true rfl hlength.symm) ?_
  exact ⟨fun h a b hab => h (hzip.mem_iff.mpr hab), fun h a b hab => h (hzip.mem_iff.mp hab)⟩

/-- The entry alone: its key in slot 0. -/
def soleKey {K : Type} (k : K) : ℕ → Option K := Function.update (fun _ => none) 0 (some k)

theorem soleKey_eq_some {K : Type} {k k' : K} {i : ℕ} : soleKey k i = some k' ↔ i = 0 ∧ k = k' := by
  rw [soleKey, Function.update_apply]
  split <;> simp [*]

/-- An entry alone in its lookup structure is found when the structure selects it. -/
theorem entryMatches_iff_selects {K S : Type} [MatchKey K] [LookupStructure K S] [LawfulLookup K S]
    (hb : kb.Built fs) (hsanity : kb.matchParamsSanityCheck params = true) {k : K}
    (hstored : storedKey K kb params = some k) {s : S}
    (hcreate : LookupStructure.create K 1 kb.nbytesKey = some s)
    (hexact : LawfulLookup.Exact (soleKey (MatchKey.setPriority k 0))) {key : ByteContainer}
    (hkey : kb.buildKey phv = some key) (hlen : key.length = kb.nbytesKey) :
    ∃ b, entryMatches K kb params phv = some b ∧
      (b = true ↔ ∃ i, LawfulLookup.Selects (soleKey (MatchKey.setPriority k 0)) key i) := by
  obtain ⟨k₀, hk₀, hrest⟩ := Option.bind_eq_some_iff.mp hstored
  obtain ⟨data, hdata, hk⟩ := Option.bind_eq_some_iff.mp hrest
  obtain rfl : MatchKey.withData k₀ data = k := Option.some.inj hk
  have hok := LawfulLookup.keyOk_entry 0 hb hsanity hk₀ hdata
  obtain ⟨s', hadd, hholds⟩ := LawfulLookup.holds_addEntry (LawfulLookup.holds_create hcreate) hok
    (fun j k' hk' => by cases hk') rfl (fun j hj => absurd hj (Nat.not_lt_zero j)) Nat.zero_lt_one
    (by norm_num : 0 < 2 ^ 64)
  obtain ⟨r, hr, hselects⟩ := LawfulLookup.lookup_iff hholds hexact hlen
  refine ⟨r.isSome, ?_, ?_⟩
  · simp only [entryMatches, hstored, hcreate, hadd, hkey, hr, Option.bind_eq_bind, Option.bind_some]
    rfl
  · rw [Option.isSome_iff_exists]
    exact exists_congr hselects

/-- Relations that agree where a parameter fits its field hold of checked parameters together. -/
theorem forall₂_congr_of_fits {fields : List KeyField} {ps : List MatchKeyParam}
    (hcheck : List.Forall₂ (Fits fs) fields ps) {Q R : KeyField → MatchKeyParam → Prop}
    (hiff : ∀ f p, Fits fs f p → (Q f p ↔ R f p)) : List.Forall₂ Q fields ps ↔ List.Forall₂ R fields ps :=
  ⟨hcheck.mp fun f p hfits hq => (hiff f p hfits).mp hq,
    hcheck.mp fun f p hfits hr => (hiff f p hfits).mpr hr⟩

/-- The answer of a lookup structure that holds the entry only: whether the comparisons of all fields
hold. -/
def Answers (K : Type) {S : Type} [MatchKey K] [LookupStructure K S] (kb : MatchKeyBuilder)
    (fs : List KeyField) (params : List MatchKeyParam) (phv : PHV) : Prop :=
  ∃ b, entryMatches K kb params phv = some b ∧
    (b = true ↔ List.Forall₂ (fun f p => FieldCompared f p (packetValue phv f)) fs params)

/-- What an entry list with one entry answers: whether the key of the entry matches. -/
theorem exists_wins_iff {K : Type} [MatchKey K] [ListKey K] [ListKeySpec K] {k : K} {key : ByteContainer} :
    (∃ i, Wins (soleKey k) key i) ↔ ListKeySpec.Matches key k := by
  constructor
  · rintro ⟨i, hi⟩
    obtain ⟨k', hk', hmatch⟩ := hi.candidate
    rwa [← (soleKey_eq_some.mp hk').2] at hmatch
  · intro hmatch
    refine ⟨0, rfl, ⟨k, soleKey_eq_some.mpr ⟨rfl, rfl⟩, hmatch⟩, fun j hj hmatch' => ?_⟩
    obtain ⟨k', hk', -⟩ := hmatch'
    rw [(soleKey_eq_some.mp hk').1]
    exact Or.inr ⟨rfl, le_refl 0⟩

/-- One entry in slot 0, whose priority is not the largest, is all that an entry list needs to answer. -/
theorem listExact_soleKey {K : Type} [MatchKey K] [ListKey K] [ListKeySpec K] (k : K) :
    ListExact (soleKey (MatchKey.setPriority k 0)) where
  slot_zero _ _ _ := rfl
  priority i k' hk' := by
    rw [← (soleKey_eq_some.mp hk').2, ListKeySpec.priority_setPriority]
    decide

theorem Answers.unique {K K' S S' : Type} [MatchKey K] [LookupStructure K S] [MatchKey K']
    [LookupStructure K' S'] (h : Answers K kb fs params phv) (h' : Answers K' kb fs params phv) :
    entryMatches K kb params phv = entryMatches K' kb params phv := by
  obtain ⟨b, hb, hiff⟩ := h
  obtain ⟨b', hb', hiff'⟩ := h'
  rw [hb, hb', Option.some.injEq, Bool.eq_iff_iff, hiff, hiff']

section Units

variable (hb : kb.Built fs) (hsanity : kb.matchParamsSanityCheck params = true)
  (hwidth : ∀ f ∈ fs, 0 < f.toKeyF.nbits) (hcarries : ∀ f ∈ fs, phv.Carries f)

include hb hsanity hwidth hcarries

theorem answers_exact (hexact : ∀ f ∈ fs, f.mtype = .exact ∨ f.mtype = .valid) :
    Answers ExactMatchKey kb fs params phv := by
  obtain ⟨hlength, hcheck⟩ := checked_of_sanityCheck hb hsanity
  have hstored := (storedKey_exact hb hlength hcheck hexact).trans (if_pos (key_ne_nil hwidth hcheck.all))
  obtain ⟨b, hb', hiff⟩ := entryMatches_iff_selects hb hsanity hstored rfl trivial
    (buildKey_eq hb hcheck hcarries) (length_packetKey hb hcheck hcarries)
  have hequal : (∃ i, LawfulLookup.Selects
      (soleKey (MatchKey.setPriority (⟨layOut (canonicalKey false) fs params⟩ : ExactMatchKey) 0))
      (layOut (fun f _ => packetBlock phv f) fs params) i) ↔
      layOut (fun f _ => packetBlock phv f) fs params = layOut (canonicalKey false) fs params := by
    constructor
    · rintro ⟨i, hi⟩
      exact (congrArg ExactMatchKey.data (soleKey_eq_some.mp hi).2).symm
    · intro heq
      exact ⟨0, soleKey_eq_some.mpr ⟨rfl, by rw [heq]; rfl⟩⟩
  refine ⟨b, hb', ?_⟩
  rw [hiff, hequal, ← forall₂_impl_iff hlength, layOut_inj hcheck fun f p hfits =>
    (length_packetBlock hb hfits.1 (hcarries f hfits.1)).trans (length_canonicalKey false hb hfits).symm]
  exact forall₂_congr_of_fits hcheck fun f p hfits => hfits.compared_exact_iff hb
    (by rw [hfits.type_eq, mtype_toKeyF]; exact hexact f hfits.1) (hcarries f hfits.1)

theorem answers_lpm (hkinds : ∀ f ∈ fs, f.mtype = .exact ∨ f.mtype = .valid ∨ f.mtype = .lpm)
    (hone : fs.countP (fun f => f.mtype = .lpm) ≤ 1) (hsize : kb.nbytesKey ≤ 64) :
    Answers LPMMatchKey kb fs params phv := by
  obtain ⟨hlength, hcheck⟩ := checked_of_sanityCheck hb hsanity
  obtain ⟨n, hn⟩ : ∃ n, lpmPrefixLength (implParams fs params) = some n := by
    obtain ⟨k, hk, -⟩ := exists_lpmEntry hb hwidth hsanity hkinds
    change lpmMatchParamsToEntry kb params = some k at hk
    rw [lpmMatchParamsToEntry_eq hb hlength, if_pos (key_ne_nil hwidth hcheck.all)] at hk
    obtain ⟨n, hn, -⟩ := Option.map_eq_some_iff.mp hk
    exact ⟨n, hn⟩
  have hstored := (storedKey_lpm hb hlength hcheck).trans (if_pos (key_ne_nil hwidth hcheck.all))
  rw [hn, Option.map_some] at hstored
  have hcreate : (LookupStructure.create LPMMatchKey 1 kb.nbytesKey : Option LPMTrieStructure) =
      some ⟨⟨TrieNode.empty, kb.nbytesKey, true⟩⟩ := by
    change (LpmTrie.create kb.nbytesKey true).map LPMTrieStructure.mk = _
    rw [LpmTrie.create, if_pos hsize]
    rfl
  obtain ⟨b, hb', hiff⟩ := entryMatches_iff_selects hb hsanity hstored hcreate trivial
    (buildKey_eq hb hcheck hcarries) (length_packetKey hb hcheck hcarries)
  have hprefix : (∃ i, LawfulLookup.Selects
      (soleKey (MatchKey.setPriority (⟨layOut (canonicalKey false) fs params, n⟩ : LPMMatchKey) 0))
      (layOut (fun f _ => packetBlock phv f) fs params) i) ↔
      (bitsOf (layOut (fun f _ => packetBlock phv f) fs params)).take (prefixBits (implParams fs params)) =
        (bitsOf (layOut (canonicalKey false) fs params)).take (prefixBits (implParams fs params)) := by
    rw [← toNat_lpmPrefixLength hcheck hn, eq_comm, ← take_isPrefix_iff (by
      rw [length_bitsOf, length_bitsOf, length_packetKey hb hcheck hcarries, length_layOut hcheck
        fun f p hfits => length_canonicalKey false hb hfits, hb.nbytesKey])]
    constructor
    · rintro ⟨i, k, hk, hbits, -⟩
      rw [← (soleKey_eq_some.mp hk).2] at hbits
      exact hbits
    · intro hbits
      refine ⟨0, _, soleKey_eq_some.mpr ⟨rfl, rfl⟩, hbits, fun j k' hk' _ => ?_⟩
      rw [(soleKey_eq_some.mp hk').2]
  refine ⟨b, hb', ?_⟩
  rw [hiff, hprefix, ← forall₂_impl_iff hlength]
  have hperm := implFields_perm fs
  exact take_bits_iff hb hcarries hcheck (implFields_pairwise fs)
    (fun f hf => hkinds f (hperm.mem_iff.mp hf)) (hperm.countP_eq _ ▸ hone)

theorem answers_ternary (hnorange : ∀ f ∈ fs, f.mtype ≠ .range) (hne : fs ≠ []) :
    Answers TernaryMatchKey kb fs params phv := by
  obtain ⟨hlength, hcheck⟩ := checked_of_sanityCheck hb hsanity
  have hstored := (storedKey_ternary hb hlength hcheck hnorange).trans
    (if_pos ⟨key_ne_nil hwidth hcheck.all, sum_implSizes_ne_zero hwidth hne⟩)
  obtain ⟨b, hb', hiff⟩ := entryMatches_iff_selects hb hsanity hstored rfl (listExact_soleKey _)
    (buildKey_eq hb hcheck hcarries) (length_packetKey hb hcheck hcarries)
  have hnone : ((implFields fs).filter fun f => f.toKeyF.mtype = .range) = [] := by
    rw [List.filter_eq_nil_iff]
    intro f hf
    simpa [mtype_toKeyF] using hnorange f ((implFields_perm fs).mem_iff.mp hf)
  have hranges := inRanges_iff hb hcarries hcheck (implFields_sorted fs)
  rw [hnone, List.map_nil] at hranges
  exact ⟨b, hb', (hiff.trans exists_wins_iff).trans (hranges.trans (forall₂_impl_iff hlength))⟩

theorem answers_range : Answers RangeMatchKey kb fs params phv := by
  obtain ⟨hlength, hcheck⟩ := checked_of_sanityCheck hb hsanity
  have hstored := (storedKey_range hb hlength hcheck).trans (if_pos (key_ne_nil hwidth hcheck.all))
  obtain ⟨b, hb', hiff⟩ := entryMatches_iff_selects hb hsanity hstored rfl (listExact_soleKey _)
    (buildKey_eq hb hcheck hcarries) (length_packetKey hb hcheck hcarries)
  have hranges := inRanges_iff hb hcarries hcheck (implFields_sorted fs)
  exact ⟨b, hb', (hiff.trans exists_wins_iff).trans (hranges.trans (forall₂_impl_iff hlength))⟩

end Units

/-! ## Where the comparison differs from the meaning -/

/-- What the parameter means and what is compared are the same for the field: the bits that a prefix
leaves out, as many as the field is padded with, are behind the static mask, and the end of a range has
no bits that the field does not have, or all those that it has. -/
def FieldExact (f : KeyField) (p : MatchKeyParam) : Prop :=
  match p.type with
  | .lpm => ∀ j < f.toKeyF.nbits, f.toKeyF.nbits - p.prefixLength.toNat ≤ j →
      j < 8 * f.toKeyF.nbytes - p.prefixLength.toNat → (beNat f.maskBytes).testBit j = false
  | .range => beNat p.mask < 2 ^ f.toKeyF.nbits ∨
      beNat p.mask % 2 ^ f.toKeyF.nbits = 2 ^ f.toKeyF.nbits - 1
  | _ => True

instance (f : KeyField) (p : MatchKeyParam) : Decidable (FieldExact f p) := by
  unfold FieldExact
  cases p.type <;> infer_instance

/-- What satisfies the parameter passes the comparison. -/
theorem Fits.compared_of_matches {x : ℕ} (h : FieldMatches f p x) : FieldCompared f p x := by
  have hwidth := width_le f
  rw [FieldMatches, Satisfies] at h
  rw [FieldCompared, Satisfies]
  cases htype : p.type with
  | valid => simpa only [htype] using h
  | exact => simpa only [htype] using h
  | ternary => simpa only [htype] using h
  | lpm =>
    simp only [htype] at h
    exact shiftRight_eq_of_le (by omega) h
  | range =>
    simp only [htype] at h
    exact ⟨h.1, h.2.trans (Nat.mod_le _ _)⟩

/-- Where the two are the same, what passes the comparison satisfies the parameter. -/
theorem FieldExact.matches_of_compared (hexact : FieldExact f p) {y : ℕ} (hy : y < 2 ^ f.toKeyF.nbits)
    (h : FieldCompared f p (y &&& beNat f.maskBytes)) : FieldMatches f p (y &&& beNat f.maskBytes) := by
  have hx : y &&& beNat f.maskBytes < 2 ^ f.toKeyF.nbits := Nat.and_le_left.trans_lt hy
  rw [FieldCompared, Satisfies] at h
  rw [FieldMatches, Satisfies]
  rw [FieldExact] at hexact
  cases htype : p.type with
  | valid => simpa only [htype] using h
  | exact => simpa only [htype] using h
  | ternary => simpa only [htype] using h
  | lpm =>
    simp only [htype] at h hexact
    rw [shiftRight_eq_iff] at h ⊢
    intro j hj
    by_cases hcompared : 8 * f.toKeyF.nbytes - p.prefixLength.toNat ≤ j
    · exact h j hcompared
    · by_cases hbit : j < f.toKeyF.nbits
      · have hmask := hexact j hbit hj (not_le.mp hcompared)
        rw [keyValue, Nat.testBit_and, Nat.testBit_and, hmask, Bool.and_false, Bool.and_false]
      · have hpow := Nat.pow_le_pow_right (show 0 < 2 by norm_num) (not_lt.mp hbit)
        rw [Nat.testBit_lt_two_pow (hx.trans_le hpow),
          Nat.testBit_lt_two_pow ((keyValue_lt f p).trans_le hpow)]
  | range =>
    simp only [htype] at h hexact
    refine ⟨h.1, ?_⟩
    rcases hexact with hlt | hall
    · rw [Nat.mod_eq_of_lt hlt]
      exact h.2
    · rw [hall]
      omega

theorem beNat_maskBytes_of_none (hmask : f.mask = none) :
    beNat f.maskBytes = 2 ^ (8 * f.toKeyF.nbytes) - 1 := by
  have hnone : f.hasMask = false := by
    rw [KeyField.hasMask, hmask, Option.isSome_none, Bool.and_false]
  rw [maskBytes_of_not_hasMask hnone]
  exact beNat_replicate_ff _

/-- The key of the parameter passes its own comparison. -/
theorem Fits.compared_keyValue (hfits : Fits fs f p) : FieldCompared f p (keyValue f p) := by
  rw [FieldCompared, Satisfies]
  cases htype : p.type with
  | valid => rfl
  | exact => rfl
  | ternary => rfl
  | lpm => rfl
  | range =>
    refine ⟨le_refl _, (Nat.and_le_left.trans (Nat.mod_le _ _)).trans ?_⟩
    have hlen := hfits.length_key
    have hmask := hfits.length_mask (Or.inr htype)
    have hok := hfits.2
    simp only [paramOk, Bool.and_eq_true, htype, bne_iff_ne] at hok
    rw [memcmp_eq hlen.ge hmask.ge] at hok
    have hle := hok.2.2
    rw [ne_eq, Option.some.injEq, compare_gt_iff_gt, not_lt] at hle
    rwa [List.take_of_length_le hlen.le, List.take_of_length_le hmask.le] at hle

/-- Where the comparison differs from the meaning, some value of the field passes the comparison
without satisfying the parameter. -/
theorem Fits.exists_mismatch (hfits : Fits fs f p) (hrange : f.mtype = .range → f.mask = none)
    (hexact : ¬ FieldExact f p) : ∃ y < 2 ^ f.toKeyF.nbits, FieldCompared f p (y &&& beNat f.maskBytes) ∧
      ¬ FieldMatches f p (y &&& beNat f.maskBytes) := by
  rw [FieldExact] at hexact
  simp only [FieldCompared, FieldMatches, Satisfies]
  cases htype : p.type with
  | valid => simp [htype] at hexact
  | exact => simp [htype] at hexact
  | ternary => simp [htype] at hexact
  | lpm =>
    -- a bit that the comparison leaves out is flipped
    simp only [htype, not_forall, Bool.not_eq_false] at hexact
    obtain ⟨j, hj, hlow, hhigh, hmask⟩ := hexact
    have hx : (keyValue f p ^^^ 2 ^ j) &&& beNat f.maskBytes = keyValue f p ^^^ 2 ^ j := by
      apply Nat.eq_of_testBit_eq
      intro i
      rw [Nat.testBit_and, testBit_xor_two_pow]
      by_cases hij : j = i
      · rw [← hij, hmask, Bool.and_true]
      · rw [decide_eq_false hij, Bool.bne_false, keyValue, Nat.testBit_and, Bool.and_assoc, Bool.and_self]
    refine ⟨keyValue f p ^^^ 2 ^ j, Nat.xor_lt_two_pow (keyValue_lt f p)
      (Nat.pow_lt_pow_right (by norm_num) hj), ?_, ?_⟩
    · rw [hx, shiftRight_eq_iff]
      intro i hi
      rw [testBit_xor_two_pow, decide_eq_false (by omega), Bool.bne_false]
    · rw [hx, shiftRight_eq_iff]
      intro h
      have hbit := h j hlow
      rw [testBit_xor_two_pow, decide_eq_true rfl, Bool.bne_true] at hbit
      exact Bool.not_ne_self _ hbit
  | range =>
    simp only [htype, not_or, not_lt] at hexact
    obtain ⟨hlarge, hnot⟩ := hexact
    have hpos := Nat.two_pow_pos f.toKeyF.nbits
    have hmod := Nat.mod_lt (beNat p.mask) hpos
    have hones := beNat_maskBytes_of_none
      (hrange ((mtype_toKeyF f).symm.trans (hfits.type_eq.symm.trans htype)))
    have hpow := Nat.pow_le_pow_right (show 0 < 2 by norm_num) (width_le f)
    have hx : (2 ^ f.toKeyF.nbits - 1) &&& beNat f.maskBytes = 2 ^ f.toKeyF.nbits - 1 := by
      rw [hones, Nat.and_two_pow_sub_one_eq_mod, Nat.mod_eq_of_lt (by omega)]
    have hkey := keyValue_lt f p
    refine ⟨2 ^ f.toKeyF.nbits - 1, by omega, ?_, ?_⟩
    · rw [hx]
      exact ⟨by omega, by omega⟩
    · rw [hx]
      exact fun h => absurd h.2 (by omega)

/-! ## Packets with given fields -/

/-- Two elements of a table key whose values do not depend on each other: they are of different headers,
or they are different fields of a header that no parameter wants invalid. -/
def Apart (a b : KeyField × MatchKeyParam) : Prop :=
  a.1.header = b.1.header → (a.1.mtype = .valid → beNat a.2.key ≠ 0) ∧
    (b.1.mtype = .valid → beNat b.2.key ≠ 0) ∧
    (a.1.mtype ≠ .valid → b.1.mtype ≠ .valid → a.1.fOffset ≠ b.1.fOffset)

instance : DecidableRel Apart := fun _ _ => inferInstanceAs (Decidable (_ → _))

instance : Std.Symm Apart where
  symm a b h heq := by
    obtain ⟨ha, hb, hoffset⟩ := h heq.symm
    exact ⟨hb, ha, fun hb' ha' hsame => hoffset ha' hb' hsame.symm⟩

/-- A packet whose fields have the given values, where a parameter for the validity of a header is
met. -/
def packetOf (pairs : List (KeyField × MatchKeyParam)) (value : KeyField × MatchKeyParam → ℕ) : PHV where
  headers := (List.range ((pairs.map fun a => a.1.header).sum + 1)).map fun header => {
    fields := (List.range ((pairs.map fun a => a.1.fOffset).sum + 1)).map fun offset =>
      match pairs.find? fun a => a.1.header = header ∧ a.1.mtype ≠ .valid ∧ a.1.fOffset = offset with
      | none => ⟨0, [], false⟩
      | some a => ⟨a.1.nbits, natToBytes (nbitsToNbytes a.1.nbits) (value a), false⟩
    valid := pairs.all fun a => decide (a.1.header = header → a.1.mtype = .valid → beNat a.2.key ≠ 0)
    metadata := false }

section PacketOf

variable {pairs : List (KeyField × MatchKeyParam)} {value : KeyField × MatchKeyParam → ℕ}
  {a : KeyField × MatchKeyParam}

theorem getElem?_packetOf (value : KeyField × MatchKeyParam → ℕ) (ha : a ∈ pairs) :
    ∃ header, (packetOf pairs value).headers[a.1.header]? = some header ∧
      header.isValid = pairs.all (fun b => decide (b.1.header = a.1.header → b.1.mtype = .valid →
        beNat b.2.key ≠ 0)) ∧
      header.fields[a.1.fOffset]? =
        match pairs.find? fun b => b.1.header = a.1.header ∧ b.1.mtype ≠ .valid ∧
          b.1.fOffset = a.1.fOffset with
        | none => some ⟨0, [], false⟩
        | some b => some ⟨b.1.nbits, natToBytes (nbitsToNbytes b.1.nbits) (value b), false⟩ := by
  have hheader : a.1.header < (pairs.map fun b => b.1.header).sum + 1 :=
    Nat.lt_succ_of_le (List.single_le_sum (fun _ _ => Nat.zero_le _) _ (List.mem_map.mpr ⟨a, ha, rfl⟩))
  have hoffset : a.1.fOffset < (pairs.map fun b => b.1.fOffset).sum + 1 :=
    Nat.lt_succ_of_le (List.single_le_sum (fun _ _ => Nat.zero_le _) _ (List.mem_map.mpr ⟨a, ha, rfl⟩))
  refine ⟨_, by rw [packetOf, List.getElem?_map, List.getElem?_range hheader]; rfl, rfl, ?_⟩
  simp only [List.getElem?_map, List.getElem?_range hoffset, Option.map_some]
  split <;> rfl

/-- The values of the fields are those given, and the headers are as the parameters want them. -/
theorem packetOf_spec (hapart : pairs.Pairwise Apart)
    (hvalue : ∀ b ∈ pairs, value b < 2 ^ b.1.toKeyF.nbits)
    (hvalid : ∀ b ∈ pairs, b.1.mtype = .valid → value b ≤ 1 ∧ value b = beNat b.2.key) (ha : a ∈ pairs) :
    (packetOf pairs value).Carries a.1 ∧ fieldValue (packetOf pairs value) a.1 = value a := by
  obtain ⟨header, hheader, hisValid, hfield⟩ := getElem?_packetOf value ha
  by_cases htype : a.1.mtype = .valid
  · refine ⟨⟨header, hheader, fun hne => absurd htype hne⟩, ?_⟩
    obtain ⟨hle, heq⟩ := hvalid a ha htype
    have hfieldValue : fieldValue (packetOf pairs value) a.1 = if header.isValid then 1 else 0 := by
      rw [fieldValue, hheader]
      exact if_pos htype
    rw [hfieldValue, hisValid]
    by_cases hzero : beNat a.2.key = 0
    · have hinvalid : pairs.all (fun b => decide (b.1.header = a.1.header → b.1.mtype = .valid →
          beNat b.2.key ≠ 0)) = false := by
        rw [List.all_eq_false]
        exact ⟨a, ha, by simp [htype, hzero]⟩
      rw [hinvalid, heq, hzero]
      rfl
    · have hall : pairs.all (fun b => decide (b.1.header = a.1.header → b.1.mtype = .valid →
          beNat b.2.key ≠ 0)) = true := by
        rw [List.all_eq_true]
        intro b hb
        rw [decide_eq_true_eq]
        intro hsame hb'
        by_cases hab : b = a
        · rw [hab]
          exact hzero
        · exact (hapart.forall hb ha hab hsame).1 hb'
      rw [hall, if_pos rfl]
      omega
  · have hkeyF : a.1.toKeyF.nbits = a.1.nbits := by rw [KeyField.toKeyF, if_neg htype]
    obtain ⟨b, hfind⟩ : ∃ b, pairs.find? (fun b => b.1.header = a.1.header ∧ b.1.mtype ≠ .valid ∧
        b.1.fOffset = a.1.fOffset) = some b := by
      rw [← Option.isSome_iff_exists, List.find?_isSome]
      exact ⟨a, ha, by simp [htype]⟩
    -- no other element of the key is the same field
    have hb := List.mem_of_find?_eq_some hfind
    have hsame : b.1.header = a.1.header ∧ b.1.mtype ≠ .valid ∧ b.1.fOffset = a.1.fOffset := by
      simpa using List.find?_some hfind
    obtain rfl : b = a := by
      by_contra hab
      exact (hapart.forall hb ha hab hsame.1).2.2 hsame.2.1 htype hsame.2.2
    simp only [hfind] at hfield
    have hlt : value b < 2 ^ b.1.nbits := hkeyF ▸ hvalue b ha
    have hbytes : beNat (natToBytes (nbitsToNbytes b.1.nbits) (value b)) = value b := by
      refine beNat_natToBytes (hlt.trans_le (Nat.pow_le_pow_right (by norm_num) ?_))
      rw [nbitsToNbytes]
      omega
    have hall : header.isValid = true := by
      rw [hisValid, List.all_eq_true]
      intro c hc
      rw [decide_eq_true_eq]
      intro hheader' hc'
      have hne : c ≠ b := fun h => htype (h ▸ hc')
      exact (hapart.forall hc ha hne hheader').1 hc'
    refine ⟨⟨header, hheader, fun _ => ⟨_, hfield, rfl, length_natToBytes _ _, ?_⟩⟩, ?_⟩
    · rw [hbytes]
      exact hlt
    · simp only [fieldValue, hheader, if_neg htype, hfield, hall, Bool.true_or, if_true, hbytes]

end PacketOf

end MatchKeyBuilder

/-! ## The entry and its parameters -/

/-- On every packet that has the fields of the table key, the entry matches when every field satisfies
its own parameter. -/
def MatchesAsMeant (K : Type) {S : Type} [MatchKey K] [LookupStructure K S] (kb : MatchKeyBuilder)
    (fs : List KeyField) (params : List MatchKeyParam) : Prop :=
  ∀ phv : PHV, (∀ f ∈ fs, phv.Carries f) →
    (entryMatches K kb params phv = some true ↔ PacketMatches fs params phv)

/-- What the parameters mean and what is compared are the same: for every field, unless some parameter
for the validity of a header is neither 0 nor 1, so that nothing matches. -/
def ParamsExact (fs : List KeyField) (params : List MatchKeyParam) : Prop :=
  (∃ a ∈ fs.zip params, a.1.mtype = .valid ∧ 1 < beNat a.2.key) ∨
    ∀ a ∈ fs.zip params, FieldExact a.1 a.2

instance (fs : List KeyField) (params : List MatchKeyParam) : Decidable (ParamsExact fs params) :=
  inferInstanceAs (Decidable (_ ∨ _))

/-- The entry matches as its parameters mean if, and for a key whose elements are apart only if, the
comparison is what the parameters mean. -/
def MeantIffExact (K : Type) {S : Type} [MatchKey K] [LookupStructure K S] (kb : MatchKeyBuilder)
    (fs : List KeyField) (params : List MatchKeyParam) : Prop :=
  (ParamsExact fs params → MatchesAsMeant K kb fs params) ∧
    ((fs.zip params).Pairwise Apart → MatchesAsMeant K kb fs params → ParamsExact fs params)

section Meaning

variable {kb : MatchKeyBuilder} {fs : List KeyField} {params : List MatchKeyParam}

/-- Fields and parameters that go together. -/
theorem fits_of_mem_zip (hlength : params.length = fs.length) (hcheck : Checked fs params)
    {a : KeyField × MatchKeyParam} (ha : a ∈ fs.zip params) : Fits fs a.1 a.2 :=
  (List.forall₂_iff_zip.mp ((forall₂_impl_iff hlength).mp hcheck)).2 ha

/-- The value of the validity of a header is 0 or 1. -/
theorem packetValue_le_one {f : KeyField} (phv : PHV) (hvalid : f.mtype = .valid) :
    packetValue phv f ≤ 1 := by
  refine Nat.and_le_left.trans ?_
  rw [fieldValue]
  split
  · exact Nat.zero_le _
  · rw [if_pos hvalid]
    split <;> omega

/-- The key of a parameter for the validity of a header is one byte, and is kept. -/
theorem keyValue_of_valid {f : KeyField} {p : MatchKeyParam} (hfits : Fits fs f p)
    (hvalid : f.mtype = .valid) : keyValue f p = beNat p.key := by
  have hkeyF : f.toKeyF = ⟨f.header, 0, .valid, 8⟩ := if_pos hvalid
  have hlen := hfits.length_key
  have hlt := beNat_lt p.key
  have hones : beNat f.maskBytes = 2 ^ 8 - 1 := by
    rw [KeyField.maskBytes, if_pos hvalid]
    rfl
  have hbyte : f.toKeyF.nbytes = 1 := nbytes_toKeyF_of_valid ((mtype_toKeyF f).trans hvalid)
  rw [hlen, hbyte] at hlt
  have hsmall : beNat p.key % 2 ^ 8 = beNat p.key := Nat.mod_eq_of_lt hlt
  rw [keyValue, hkeyF, hones, Nat.and_two_pow_sub_one_eq_mod]
  change beNat p.key % 2 ^ 8 % 2 ^ 8 = _
  rw [hsmall, hsmall]

/-- A parameter for the validity of a header that is neither 0 nor 1 lets no packet through. -/
theorem not_compared_of_valid {f : KeyField} {p : MatchKeyParam} (hfits : Fits fs f p)
    (hvalid : f.mtype = .valid) (hlarge : 1 < beNat p.key) (phv : PHV) :
    ¬ FieldCompared f p (packetValue phv f) := by
  have hle := packetValue_le_one phv hvalid
  have htype : p.type = .valid := hfits.type_eq.trans ((mtype_toKeyF f).trans hvalid)
  rw [FieldCompared, Satisfies, htype, keyValue_of_valid hfits hvalid]
  simp only
  omega

/-- A packet that the comparison lets through although one of its fields does not satisfy its
parameter. -/
theorem exists_packet_mismatch (hlength : params.length = fs.length) (hcheck : Checked fs params)
    (hrange : ∀ f ∈ fs, f.mtype = .range → f.mask = none) (hapart : (fs.zip params).Pairwise Apart)
    (hvalid : ∀ a ∈ fs.zip params, a.1.mtype = .valid → beNat a.2.key ≤ 1)
    {a : KeyField × MatchKeyParam} (ha : a ∈ fs.zip params) (hexact : ¬ FieldExact a.1 a.2) :
    ∃ phv : PHV, (∀ f ∈ fs, phv.Carries f) ∧
      List.Forall₂ (fun f p => FieldCompared f p (packetValue phv f)) fs params ∧
      ¬ FieldMatches a.1 a.2 (packetValue phv a.1) := by
  have hfits : ∀ b ∈ fs.zip params, Fits fs b.1 b.2 := fun b hb => fits_of_mem_zip hlength hcheck hb
  obtain ⟨y, hy, hcompared, hdiffers⟩ := (hfits a ha).exists_mismatch (hrange a.1 (hfits a ha).1) hexact
  have hnotValid : a.1.mtype ≠ .valid := by
    intro hvalid'
    refine hexact ?_
    rw [FieldExact, (hfits a ha).type_eq, mtype_toKeyF, hvalid']
    trivial
  -- the other fields have the values of their keys
  obtain ⟨value, hvalue⟩ : ∃ value : KeyField × MatchKeyParam → ℕ,
      value = fun b => if b = a then y else keyValue b.1 b.2 := ⟨_, rfl⟩
  have hvalue_self : value a = y := by rw [hvalue]; exact if_pos rfl
  have hvalue_of_ne : ∀ b, b ≠ a → value b = keyValue b.1 b.2 := fun b hb => by
    rw [hvalue]; exact if_neg hb
  have hlt : ∀ b ∈ fs.zip params, value b < 2 ^ b.1.toKeyF.nbits := by
    intro b _
    by_cases hba : b = a
    · rw [hba, hvalue_self]
      exact hy
    · rw [hvalue_of_ne b hba]
      exact keyValue_lt b.1 b.2
  have hbit : ∀ b ∈ fs.zip params, b.1.mtype = .valid → value b ≤ 1 ∧ value b = beNat b.2.key := by
    intro b hb hvalidb
    have hba : b ≠ a := fun h => hnotValid (h ▸ hvalidb)
    have heq := keyValue_of_valid (hfits b hb) hvalidb
    rw [hvalue_of_ne b hba, heq]
    exact ⟨hvalid b hb hvalidb, rfl⟩
  have hspec := fun b hb => packetOf_spec hapart hlt hbit (a := b) hb
  have hself : packetValue (packetOf (fs.zip params) value) a.1 = y &&& beNat a.1.maskBytes := by
    rw [packetValue, (hspec a ha).2, hvalue_self]
  refine ⟨packetOf (fs.zip params) value, fun f hf => ?_, ?_, by rwa [hself]⟩
  · obtain ⟨i, hi, rfl⟩ := List.getElem_of_mem hf
    have hmem : (fs[i], params[i]) ∈ fs.zip params :=
      List.mem_iff_getElem.mpr ⟨i, by simp [hi, hlength], by simp⟩
    exact (hspec _ hmem).1
  · rw [List.forall₂_iff_zip]
    refine ⟨hlength.symm, fun {f p} hb => ?_⟩
    by_cases hba : (f, p) = a
    · subst hba
      rw [hself]
      exact hcompared
    · rw [packetValue, (hspec _ hb).2, hvalue_of_ne _ hba, keyValue, Nat.and_assoc, Nat.and_self]
      exact (hfits _ hb).compared_keyValue

theorem meant_of_answers {K S : Type} [MatchKey K] [LookupStructure K S]
    (hanswers : ∀ phv : PHV, (∀ f ∈ fs, phv.Carries f) → Answers K kb fs params phv)
    (hlength : params.length = fs.length) (hcheck : Checked fs params)
    (hrange : ∀ f ∈ fs, f.mtype = .range → f.mask = none) : MeantIffExact K kb fs params := by
  have hmatches : ∀ phv : PHV, (∀ f ∈ fs, phv.Carries f) → (entryMatches K kb params phv = some true ↔
      List.Forall₂ (fun f p => FieldCompared f p (packetValue phv f)) fs params) := by
    intro phv hcarries
    obtain ⟨b, hb, hiff⟩ := hanswers phv hcarries
    rw [hb, Option.some.injEq, hiff]
  have hfits : ∀ b ∈ fs.zip params, Fits fs b.1 b.2 := fun b hb => fits_of_mem_zip hlength hcheck hb
  refine ⟨fun hexact phv hcarries => ?_, fun hapart hmeant => ?_⟩
  · rw [hmatches phv hcarries, PacketMatches, List.forall₂_iff_zip, List.forall₂_iff_zip]
    rcases hexact with ⟨a, ha, hvalid, hlarge⟩ | hexact
    · have hnot := not_compared_of_valid (hfits a ha) hvalid hlarge phv
      exact iff_of_false (fun h => hnot (h.2 ha)) fun h => hnot (Fits.compared_of_matches (h.2 ha))
    · refine and_congr_right fun _ => ⟨fun h f p hfp => ?_, fun h f p hfp =>
        Fits.compared_of_matches (h hfp)⟩
      obtain ⟨-, -, -, -, hlt⟩ := keyBytes_of_carries (hcarries f (hfits _ hfp).1)
      exact (hexact _ hfp).matches_of_compared hlt (h hfp)
  · by_contra hnot
    rw [ParamsExact, not_or] at hnot
    obtain ⟨hvalid, hall⟩ := hnot
    push Not at hvalid hall
    obtain ⟨a, ha, hexact⟩ := hall
    obtain ⟨phv, hcarries, hcompared, hdiffers⟩ :=
      exists_packet_mismatch hlength hcheck hrange hapart hvalid ha hexact
    have hall := (hmeant phv hcarries).mp ((hmatches phv hcarries).mpr hcompared)
    exact hdiffers ((List.forall₂_iff_zip.mp hall).2 ha)

end Meaning

end Bm
