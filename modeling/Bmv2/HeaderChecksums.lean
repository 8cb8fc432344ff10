/-
# Checksums of headers

`IPv4Checksum`: the header is deparsed to a buffer, in which the place of the
checksum is cleared, so that `update` and `verify` see the same bytes.

* `rfc1071_flipBit`: the checksum sees every single bit;
* `acceptsBytes`: what `verify` tells from the bytes of a header;
* `Layout.verifies_iff`: when `verify` is true after `update`;
* `Layout.seesFlips_iff`: when it is false after a bit was flipped;
* `checksums_verify_iff`: both kinds of checksums.
-/
import Bmv2.Checksums

namespace Bm

/-! ## Single bits -/

/-- The string with bit `i` flipped. -/
def flipBit (bs : List Byte) (i : ℕ) : List Byte := bs.modify (i / 8) (· ^^^ (0x80#8 >>> (i % 8)))

@[simp] theorem length_flipBit (bs : List Byte) (i : ℕ) : (flipBit bs i).length = bs.length :=
  List.length_modify ..

theorem bitAt_flipBit {bs : List Byte} {i : ℕ} (hi : i < 8 * bs.length) (k : ℕ) :
    bitAt (flipBit bs i) k = (bitAt bs k ^^ decide (k = i)) := by
  have hmask : ∀ m < 8, ∀ j < 8, (0x80#8 >>> m).getMsbD j = decide (j = m) := by decide
  unfold bitAt flipBit
  rw [List.getElem?_modify]
  by_cases hbyte : i / 8 = k / 8
  · have hlt : k / 8 < bs.length := by omega
    rw [List.getElem?_eq_getElem hlt]
    simp only [hbyte, if_true, Option.map_eq_map, Option.map_some, Option.getD_some]
    rw [BitVec.getMsbD_xor, hmask _ (Nat.mod_lt _ (by norm_num)) _ (Nat.mod_lt _ (by norm_num))]
    congr 1
    exact decide_eq_decide.mpr (by omega)
  · have hne : ¬ k = i := fun h => hbyte (by rw [h])
    simp [hbyte, hne]

theorem bitAt_set {bs : List Byte} {n : ℕ} (hn : n < bs.length) (b : Byte) (i : ℕ) :
    bitAt (bs.set n b) i = if i / 8 = n then b.getMsbD (i % 8) else bitAt bs i := by
  unfold bitAt
  rw [List.getElem?_set]
  by_cases hi : i / 8 = n
  · rw [if_pos hi, if_pos hi.symm, if_pos (hi ▸ hn), Option.getD_some]
  · rw [if_neg hi, if_neg (Ne.symm hi)]

/-- A flipped bit changes a byte by a power of two. -/
theorem toNat_flip (b : Byte) {m : ℕ} (hm : m < 8) :
    (b ^^^ (0x80#8 >>> m)).toNat = b.toNat + 2 ^ (7 - m) ∨
      b.toNat = (b ^^^ (0x80#8 >>> m)).toNat + 2 ^ (7 - m) := by
  have hall : ∀ m < 8, ∀ b : Byte, (b ^^^ (0x80#8 >>> m)).toNat = b.toNat + 2 ^ (7 - m) ∨
      b.toNat = (b ^^^ (0x80#8 >>> m)).toNat + 2 ^ (7 - m) := by decide +kernel
  exact hall m hm b

/-- No single bit counts for nothing modulo 65535. -/
theorem not_modEq_add {x y n m : ℕ} (h : y = x + 256 ^ n * 2 ^ m) : ¬ x ≡ y [MOD 65535] := by
  intro hmod
  rw [h, Nat.modEq_iff_dvd' (Nat.le_add_right _ _), Nat.add_sub_cancel_left,
    show (256 : ℕ) = 2 ^ 8 from rfl, ← Nat.pow_mul, ← Nat.pow_add] at hmod
  have hcoprime : Nat.Coprime 65535 (2 ^ (8 * n + m)) := Nat.Coprime.pow_right _ (by norm_num)
  have hone := hcoprime.eq_one_of_dvd hmod
  omega

/-- The checksum sees every single bit. -/
theorem rfc1071_flipBit {bs : List Byte} {i : ℕ} (hi : i < 8 * bs.length) :
    rfc1071 (flipBit bs i) ≠ rfc1071 bs := by
  intro heq
  have hlt : i / 8 < bs.length := by omega
  have hm : i % 8 < 8 := Nat.mod_lt _ (by norm_num)
  have hsum : onesSum (netWords (flipBit bs i)) = onesSum (netWords bs) := by
    have hnot := congrArg (~~~·) heq
    simpa [rfc1071] using hnot
  have hspec (cs : List Byte) : SameOnes 65535 (256 * leNat cs) (onesSum (netWords cs)).toNat :=
    (netWords_spec cs).symm.trans (onesSum_spec (by norm_num) (netWords cs)).symm
  have hmod : 256 * leNat bs ≡ 256 * leNat (flipBit bs i) [MOD 65535] := by
    have hnew := hspec (flipBit bs i)
    rw [hsum] at hnew
    exact ((hspec bs).trans hnew.symm).modEq
  have hsplit (b : Byte) : 256 * leNat (bs.take (i / 8) ++ b :: bs.drop (i / 8 + 1)) =
      256 * leNat (bs.take (i / 8)) + 256 ^ (i / 8 + 1) * (256 * leNat (bs.drop (i / 8 + 1))) +
        256 ^ (i / 8 + 1) * b.toNat := by
    rw [leNat_append, List.length_take, Nat.min_eq_left (by omega),
      show leNat (b :: bs.drop (i / 8 + 1)) = b.toNat + 256 * leNat (bs.drop (i / 8 + 1)) from rfl]
    ring
  have hbs : bs = bs.take (i / 8) ++ bs[i / 8] :: bs.drop (i / 8 + 1) := by
    rw [← List.drop_eq_getElem_cons hlt, List.take_append_drop]
  have hflip : flipBit bs i =
      bs.take (i / 8) ++ (bs[i / 8] ^^^ (0x80#8 >>> (i % 8))) :: bs.drop (i / 8 + 1) :=
    List.modify_eq_take_cons_drop hlt
  have hold := hsplit bs[i / 8]
  have hnew := hsplit (bs[i / 8] ^^^ (0x80#8 >>> (i % 8)))
  rw [← hbs] at hold
  rw [← hflip] at hnew
  rcases toNat_flip bs[i / 8] hm with h | h
  · refine not_modEq_add (n := i / 8 + 1) (m := 7 - i % 8) ?_ hmod
    rw [hold, hnew, h]
    ring
  · refine not_modEq_add (n := i / 8 + 1) (m := 7 - i % 8) ?_ hmod.symm
    rw [hold, hnew, h]
    ring

theorem netBytes_inj {x y : BitVec 16} (h : netBytes x = netBytes y) : x = y := by
  have hwords := congrArg netWords h
  rw [netWords_netBytes, netWords_netBytes] at hwords
  simpa using hwords

/-! ## The bytes of a header -/

/-- The bytes with the checksum at byte 10 cleared. -/
def clearChecksum (bs : List Byte) : List Byte := (bs.set 10 0).set 11 0

@[simp] theorem length_clearChecksum (bs : List Byte) : (clearChecksum bs).length = bs.length := by
  simp [clearChecksum]

theorem bitAt_clearChecksum {bs : List Byte} (hlen : 12 ≤ bs.length) (i : ℕ) :
    bitAt (clearChecksum bs) i = (!decide (80 ≤ i ∧ i < 96) && bitAt bs i) := by
  have hzero (m : ℕ) : (0 : Byte).getMsbD m = false := by simp
  unfold clearChecksum
  rw [bitAt_set (by rw [List.length_set]; omega), bitAt_set (by omega), hzero]
  by_cases h11 : i / 8 = 11
  · rw [if_pos h11, decide_eq_true (by omega), Bool.not_true, Bool.false_and]
  · by_cases h10 : i / 8 = 10
    · rw [if_neg h11, if_pos h10, decide_eq_true (by omega), Bool.not_true, Bool.false_and]
    · rw [if_neg h11, if_neg h10, decide_eq_false (by omega), Bool.not_false, Bool.true_and]

/-- What `verify_` tells from the bytes of a header. -/
def acceptsBytes (bs : List Byte) : Bool :=
  netBytes (rfc1071 (clearChecksum bs)) == (bs.drop 10).take 2

/-- No single bit can be flipped. -/
theorem acceptsBytes_flipBit {bs : List Byte} (hlen : 12 ≤ bs.length) {i : ℕ}
    (hi : i < 8 * bs.length) (h : acceptsBytes bs = true) : acceptsBytes (flipBit bs i) = false := by
  have hlenflip : 12 ≤ (flipBit bs i).length := by rwa [length_flipBit]
  have hfield (cs : List Byte) (b : ℕ) (hb : b < 16) :
      bitAt ((cs.drop 10).take 2) b = bitAt cs (80 + b) := by
    rw [bitAt_take _ (by omega), bitAt_drop]
  unfold acceptsBytes at h ⊢
  rw [beq_iff_eq] at h
  rw [beq_eq_false_iff_ne]
  by_cases hplace : 80 ≤ i ∧ i < 96
  · -- a bit of the checksum
    have hclear : clearChecksum (flipBit bs i) = clearChecksum bs := by
      refine eq_of_bitAt_eq (by simp) fun k _ => ?_
      rw [bitAt_clearChecksum hlenflip, bitAt_clearChecksum hlen, bitAt_flipBit hi]
      by_cases hk : k = i
      · rw [hk, decide_eq_true hplace, Bool.not_true, Bool.false_and, Bool.false_and]
      · rw [decide_eq_false hk, Bool.xor_false]
    rw [hclear, h]
    intro heq
    have hbit := congrArg (fun cs => bitAt cs (i - 80)) heq
    rw [hfield bs _ (by omega), hfield (flipBit bs i) _ (by omega), bitAt_flipBit hi,
      show 80 + (i - 80) = i by omega, decide_eq_true rfl, Bool.xor_true] at hbit
    cases hb : bitAt bs i with
    | false => simp [hb] at hbit
    | true => simp [hb] at hbit
  · have hclear : clearChecksum (flipBit bs i) = flipBit (clearChecksum bs) i := by
      refine eq_of_bitAt_eq (by simp) fun k _ => ?_
      rw [bitAt_clearChecksum hlenflip, bitAt_flipBit hi,
        bitAt_flipBit (by rwa [length_clearChecksum]), bitAt_clearChecksum hlen]
      by_cases hk : k = i
      · rw [hk, decide_eq_false hplace, Bool.not_false, Bool.true_and, Bool.true_and]
      · rw [decide_eq_false hk, Bool.xor_false, Bool.xor_false]
    have hsame : ((flipBit bs i).drop 10).take 2 = (bs.drop 10).take 2 := by
      refine eq_of_bitAt_eq (by simp) fun k hk => ?_
      have hk16 : k < 16 := by
        rw [List.length_take] at hk
        omega
      rw [hfield _ _ hk16, hfield _ _ hk16, bitAt_flipBit hi, decide_eq_false (by omega),
        Bool.xor_false]
    rw [hclear, hsame, ← h]
    exact fun heq => rfc1071_flipBit (by rwa [length_clearChecksum]) (netBytes_inj heq)

/-! ## The fields around one of them -/

/-- A field other than the field `j` puts a bit in place `i`. -/
def OthersPut (fs : List DataField) (j i : ℕ) : Prop :=
  ∃ (k : ℕ) (f : DataField), k ≠ j ∧ fs[k]? = some f ∧
    f.putsBit (fieldStart (fs.map fun f => f.nbits) k) i = true

section Fields

variable {fs : List DataField} {j : ℕ} {f f' : DataField}

theorem putsBit_iff_othersPut (hf : fs[j]? = some f) (i : ℕ) :
    PutsBit fs 0 i ↔
      f.putsBit (fieldStart (fs.map fun f => f.nbits) j) i = true ∨ OthersPut fs j i := by
  constructor
  · rintro ⟨k, g, hg, hput⟩
    rw [Nat.zero_add] at hput
    by_cases hk : k = j
    · subst hk
      obtain rfl := Option.some.inj (hf.symm.trans hg)
      exact .inl hput
    · exact .inr ⟨k, g, hk, hg, hput⟩
  · rintro (hput | ⟨k, g, -, hg, hput⟩)
    · exact ⟨j, f, hf, by rwa [Nat.zero_add]⟩
    · exact ⟨k, g, hg, by rwa [Nat.zero_add]⟩

theorem othersPut_set (hf : fs[j]? = some f) (hn : f'.nbits = f.nbits) (i : ℕ) :
    OthersPut (fs.set j f') j i ↔ OthersPut fs j i := by
  unfold OthersPut
  rw [widths_set hf hn]
  refine exists_congr fun k => exists_congr fun g => and_congr_right fun hk => ?_
  rw [List.getElem?_set_ne (Ne.symm hk)]

/-- The bits that a field of 16 bits puts at a byte boundary are its own. -/
theorem putsBit_sixteen (hn : f.nbits = 16) (n i : ℕ) :
    f.putsBit (8 * n) i = (decide (8 * n ≤ i ∧ i < 8 * n + 16) && bitAt f.bytes (i - 8 * n)) := by
  unfold DataField.putsBit
  have hpad : fieldPad 16 = 0 := rfl
  rw [hn, hpad, Nat.add_zero]
  congr 1
  exact decide_eq_decide.mpr (by omega)

/-- No other field puts bits in the place of a field of 16 bits at a byte boundary. -/
theorem not_othersPut (hf : fs[j]? = some f) (hn : f.nbits = 16) {n : ℕ}
    (hstart : fieldStart (fs.map fun f => f.nbits) j = 8 * n) {i : ℕ} (hi : 8 * n ≤ i)
    (hi' : i < 8 * n + 16) : ¬ OthersPut fs j i := by
  rintro ⟨k, g, hk, hg, hput⟩
  have hwf : (fs.map fun f => f.nbits)[j]? = some 16 := by simp [hf, hn]
  have hwg : (fs.map fun f => f.nbits)[k]? = some g.nbits := by simp [hg]
  unfold DataField.putsBit at hput
  rw [Bool.and_eq_true, decide_eq_true_eq] at hput
  rcases Nat.lt_or_gt_of_ne hk with hlt | hlt
  · have hle := fieldStart_add_le hwg hlt
    omega
  · have hle := fieldStart_add_le hwf hlt
    omega

/-- The padding does not matter to a field of 16 bits at a byte boundary. -/
theorem noPadding_set (hf : fs[j]? = some f) (hn : f.nbits = 16) {n : ℕ}
    (hstart : fieldStart (fs.map fun f => f.nbits) j = 8 * n) (hn' : f'.nbits = 16) :
    NoPadding (fs.set j f') ↔ NoPadding fs := by
  have hlt : j < fs.length := (List.getElem?_eq_some_iff.mp hf).1
  have hnone {g : DataField} (hg : g.nbits = 16) {i : ℕ} (hi : i < 8 * n) :
      g.putsBit (8 * n) i = false := by
    rw [putsBit_sixteen hg, decide_eq_false (by omega), Bool.false_and]
  unfold NoPadding
  rw [widths_set hf (hn'.trans hn.symm)]
  refine forall_congr' fun k => ?_
  by_cases hk : k = j
  · subst hk
    rw [List.getElem?_set_self hlt, hstart, hf]
    simp only [Option.some.injEq, forall_eq']
    exact iff_of_true (fun i hi => hnone hn' hi) fun i hi => hnone hn hi
  · rw [List.getElem?_set_ne (Ne.symm hk)]

end Fields

/-- The field with its bit `b` flipped. -/
def DataField.flip (f : DataField) (b : ℕ) : DataField :=
  { f with bytes := flipBit f.bytes (fieldPad f.nbits + b) }

namespace IPv4Checksum

/-- A header of at most 60 bytes with a field of 16 bits at byte 10. -/
structure Layout (h : DataHeader) (offset : ℕ) : Prop extends h.Sized where
  small : h.nbytesPacket ≤ 60
  start : fieldStart (h.visible.map fun f => f.nbits) offset = 8 * 10
  field : ∃ f, h.visible[offset]? = some f ∧ f.nbits = 16

section Layout

variable {h : DataHeader} {offset : ℕ} {f : DataField}

theorem Layout.nbits_eq (hl : Layout h offset) (hf : h.visible[offset]? = some f) : f.nbits = 16 := by
  obtain ⟨f₀, hf₀, hn⟩ := hl.field
  obtain rfl := Option.some.inj (hf.symm.trans hf₀)
  exact hn

theorem Layout.le_nbytes (hl : Layout h offset) : 12 ≤ h.nbytesPacket := by
  obtain ⟨f, hf, hn⟩ := hl.field
  have hle : fieldStart (h.visible.map fun f => f.nbits) offset + f.nbits ≤
      (h.visible.map fun f => f.nbits).sum := fieldStart_add_le_sum (by simp [hf])
  have hstart := hl.start
  have hnbytes := hl.nbytes
  omega

/-- The layout after a change of one field. -/
theorem Layout.putField (hl : Layout h offset) {j : ℕ} {g g' : DataField}
    (hg : h.visible[j]? = some g) (hn : g'.nbits = g.nbits) (hhidden : g'.hidden = g.hidden)
    (hbytes : g'.bytes.length = g'.nbytes) : Layout (h.putField j g') offset := by
  obtain ⟨hsized, hwidths⟩ := hl.toSized.putField hg hn hhidden hbytes
  refine ⟨hsized, hl.small, by rw [hwidths]; exact hl.start, ?_⟩
  obtain ⟨f, hf, hnf⟩ := hl.field
  have hw := congrArg (fun ws : List ℕ => ws[offset]?) hwidths
  simpa [hf, hnf] using hw

/-- The bytes in the place of the checksum are those of its field. -/
theorem Layout.image_field (hl : Layout h offset)
    (hzero : ZeroAligned 0 (h.visible.map fun f => f.nbits)) (hf : h.visible[offset]? = some f) :
    (h.image.drop 10).take 2 = f.bytes := by
  have hn := hl.nbits_eq hf
  have hle := hl.le_nbytes
  obtain ⟨hlenimg, hbits⟩ := (hl.toSized.deparsable hzero).image_bits
  have hlen : f.bytes.length = 2 := by
    rw [hl.bytes f (List.mem_of_getElem? hf), Field.nbytes, hn]
    rfl
  have hlen' : ((h.image.drop 10).take 2).length = 2 := by
    rw [List.length_take, List.length_drop]
    omega
  refine eq_of_bitAt_eq (hlen'.trans hlen.symm) fun i hi => ?_
  rw [hlen'] at hi
  have hnone : ¬ OthersPut h.visible offset (8 * 10 + i) :=
    not_othersPut hf hn hl.start (by omega) (by omega)
  rw [bitAt_take _ (by omega), bitAt_drop, Bool.eq_iff_iff, hbits _ (by omega),
    putsBit_iff_othersPut hf, hl.start, putsBit_sixteen hn, decide_eq_true (by omega),
    Bool.true_and, Nat.add_sub_cancel_left]
  simp only [hnone, or_false]

/-- Headers in which the other fields put the same bits. -/
theorem Layout.clearChecksum_image (hl : Layout h offset)
    (hzero : ZeroAligned 0 (h.visible.map fun f => f.nbits)) {h' : DataHeader}
    (hl' : Layout h' offset) (hzero' : ZeroAligned 0 (h'.visible.map fun f => f.nbits))
    (hnbytes : h'.nbytesPacket = h.nbytesPacket)
    (hothers : ∀ i < 8 * h.nbytesPacket,
      (OthersPut h'.visible offset i ↔ OthersPut h.visible offset i)) :
    clearChecksum h'.image = clearChecksum h.image := by
  obtain ⟨f, hf, hn⟩ := hl.field
  obtain ⟨f', hf', hn'⟩ := hl'.field
  have hle := hl.le_nbytes
  obtain ⟨hlen, hbits⟩ := (hl.toSized.deparsable hzero).image_bits
  obtain ⟨hlen', hbits'⟩ := (hl'.toSized.deparsable hzero').image_bits
  refine eq_of_bitAt_eq (by simp [hlen, hlen', hnbytes]) fun i hi => ?_
  rw [length_clearChecksum, hlen', hnbytes] at hi
  rw [bitAt_clearChecksum (by omega), bitAt_clearChecksum (by omega)]
  by_cases hplace : 80 ≤ i ∧ i < 96
  · rw [decide_eq_true hplace, Bool.not_true, Bool.false_and, Bool.false_and]
  · congr 1
    rw [Bool.eq_iff_iff, hbits i hi, hbits' i (hnbytes ▸ hi), putsBit_iff_othersPut hf,
      putsBit_iff_othersPut hf', hl.start, hl'.start, putsBit_sixteen hn, putsBit_sixteen hn',
      decide_eq_false (by omega), Bool.false_and, Bool.false_and, hothers i hi]

/-- The bytes that are checked do not depend on what was in the buffer. -/
theorem Layout.buffer_eq (hl : Layout h offset)
    (hzero : ZeroAligned 0 (h.visible.map fun f => f.nbits)) {stack : List Byte}
    (hstack : stack.length = 60) : buffer h stack = some (clearChecksum h.image) := by
  have hsmall := hl.small
  have hle := hl.le_nbytes
  obtain ⟨hlen, hdeparse⟩ := (hl.toSized.deparsable hzero).deparse_eq (hstack ▸ hsmall)
  unfold buffer clearChecksum
  rw [hdeparse]
  simp only [Option.bind_eq_bind, Option.bind_some, Option.pure_def, Option.some.injEq]
  rw [List.set_append_left _ _ (by omega), List.set_append_left _ _ (by rw [List.length_set]; omega),
    List.take_left' (by rw [List.length_set, List.length_set, hlen])]

/-- What `verify_` tells. -/
theorem Layout.verify_eq {c : IPv4Checksum} {phv : DataPHV}
    (hh : phv.headers[c.headerId]? = some h) (hvalid : h.isValid = true)
    (hl : Layout h c.fieldOffset) (hzero : ZeroAligned 0 (h.visible.map fun f => f.nbits))
    {stack : List Byte} (hstack : stack.length = 60) :
    c.verify_ stack phv = some (acceptsBytes h.image) := by
  obtain ⟨f, hf, hn⟩ := hl.field
  have hfield := hl.image_field hzero hf
  have htake : f.bytes.take 2 = f.bytes := by rw [← hfield, List.take_take, min_self]
  unfold verify_ acceptsBytes
  simp only [hh, Option.bind_eq_bind, Option.bind_some, hvalid, Bool.not_true, Bool.false_eq_true,
    if_false, hl.getElem?_fields hf, hl.buffer_eq hzero hstack, hostBytes_cksum16, htake, hfield]
  rfl

/-- A header that was read from other bytes. -/
theorem Layout.parsedAs (hl : Layout h offset) {data : List Byte} {h' : DataHeader}
    (hp : h.ParsedAs data h') (hlen : data.length = h.nbytesPacket) :
    Layout h' offset ∧ ZeroAligned 0 (h'.visible.map fun f => f.nbits) ∧ h'.isValid = true ∧
      h'.image = data := by
  obtain ⟨hdep, hvalid, hnbytes, himage, hwidths, -⟩ := hp.spec (by rw [hlen, hl.nbytes])
  obtain ⟨f, hf, hn⟩ := hl.field
  refine ⟨⟨hdep.sized, by rw [hnbytes, hlen]; exact hl.small, by rw [hwidths]; exact hl.start, ?_⟩,
    hdep.zero, by rw [DataHeader.isValid, hvalid, Bool.or_true], himage⟩
  have hw := congrArg (fun ws : List ℕ => ws[offset]?) hwidths
  simpa [hf, hn] using hw

/-- A header that was parsed again from its own bytes. -/
theorem Layout.reparsed (hl : Layout h offset)
    (hzero : ZeroAligned 0 (h.visible.map fun f => f.nbits)) (hvalid : h.isValid = true)
    {h' : DataHeader} (hr : h.Reparsed h') :
    Layout h' offset ∧ ZeroAligned 0 (h'.visible.map fun f => f.nbits) ∧ h'.isValid = true ∧
      h'.image = h.image := by
  cases hmeta : h.metadata with
  | true =>
    rw [DataHeader.Reparsed, if_pos hmeta] at hr
    subst hr
    exact ⟨hl, hzero, hvalid, rfl⟩
  | false =>
    rw [DataHeader.isValid, hmeta, Bool.false_or] at hvalid
    rw [DataHeader.reparsed_iff_parsedAs hmeta hvalid] at hr
    exact hl.parsedAs hr (hl.toSized.deparsable hzero).image_bits.1

end Layout

/-! ## Update, then verify -/

/-- `verify` is true right after `update`, and after the packet was deparsed and parsed again,
unless the condition is met only then. -/
def Verifies (c : IPv4Checksum) (phv : DataPHV) : Prop :=
  ∃ phv₁, (∀ stack : List Byte, stack.length = 60 → c.update stack phv = some phv₁) ∧
    (∀ stack : List Byte, stack.length = 60 → c.verify stack phv₁ = some true) ∧
      ∀ phv₂ : DataPHV, List.Forall₂ DataHeader.Reparsed phv₁.headers phv₂.headers →
        (c.isConditionMet phv₂ = true → c.isConditionMet phv₁ = true) →
          ∀ stack : List Byte, stack.length = 60 → c.verify stack phv₂ = some true

section Update

variable {c : IPv4Checksum} {phv : DataPHV} {h : DataHeader}

/-- The header after `update_` has a checksum that is accepted. -/
theorem Layout.update_spec (hh : phv.headers[c.headerId]? = some h) (hvalid : h.isValid = true)
    (hl : Layout h c.fieldOffset) (hzero : ZeroAligned 0 (h.visible.map fun f => f.nbits)) :
    ∃ f f' : DataField, h.visible[c.fieldOffset]? = some f ∧ f'.toField = { f.toField with
        bytes := f'.bytes } ∧ f'.bytes.length = f'.nbytes ∧
      acceptsBytes (h.putField c.fieldOffset f').image = true ∧
        ∀ stack : List Byte, stack.length = 60 → c.update_ stack phv =
          some (phv.setHeader c.headerId (h.putField c.fieldOffset f')) := by
  obtain ⟨f, hf, hn⟩ := hl.field
  generalize hsum : netBytes (rfc1071 (clearChecksum h.image)) = sum
  have hlen : sum.length = f.nbytes := by
    rw [← hsum, Field.nbytes, hn]
    rfl
  obtain ⟨f', hf'⟩ : ∃ f', f.setBytes sum = some f' := by
    rw [DataField.setBytes, if_pos hlen]
    exact ⟨_, rfl⟩
  obtain ⟨-, hfield, -⟩ := DataField.setBytes_eq_some hf'
  have hbytes : f'.bytes = sum := by rw [hfield]
  have hn' : f'.nbits = f.nbits := by rw [hfield]
  have hlen' : f'.bytes.length = f'.nbytes := by rw [hbytes, hlen, Field.nbytes, Field.nbytes, hn']
  have hl' := hl.putField hf hn' (by rw [hfield]) hlen'
  have hzero' : ZeroAligned 0 ((h.putField c.fieldOffset f').visible.map fun f => f.nbits) := by
    rw [(hl.toSized.putField hf hn' (by rw [hfield]) hlen').2]
    exact hzero
  have hvisible := (hl.toSized.visible_putField hf f').1
  have hf₁ : (h.putField c.fieldOffset f').visible[c.fieldOffset]? = some f' := by
    rw [hvisible]
    exact List.getElem?_set_self (List.getElem?_eq_some_iff.mp hf).1
  refine ⟨f, f', hf, by rw [hbytes]; exact hfield, hlen', ?_, fun stack hstack => ?_⟩
  · have hclear := hl.clearChecksum_image hzero hl' hzero' rfl fun i _ => by
      rw [hvisible]
      exact othersPut_set hf hn' i
    rw [acceptsBytes, hclear, hsum, hl'.image_field hzero' hf₁, hbytes, beq_self_eq_true]
  · unfold update_
    simp only [hh, Option.bind_eq_bind, Option.bind_some, hvalid, Bool.not_true, Bool.false_eq_true,
      if_false, hl.getElem?_fields hf, hl.buffer_eq hzero hstack, hostBytes_cksum16, hsum, hf']
    rfl

theorem getElem?_setHeader (hh : phv.headers[c.headerId]? = some h) (h' : DataHeader) :
    (phv.setHeader c.headerId h').headers[c.headerId]? = some h' :=
  List.getElem?_set_self (List.getElem?_eq_some_iff.mp hh).1

/-- The header after `update`. -/
theorem Layout.updated (hh : phv.headers[c.headerId]? = some h) (hl : Layout h c.fieldOffset)
    (hmet : c.isConditionMet phv = true) (hvalid : h.isValid = true)
    (hzero : ZeroAligned 0 (h.visible.map fun f => f.nbits)) :
    ∃ phv₁ h₁, (∀ stack : List Byte, stack.length = 60 → c.update stack phv = some phv₁) ∧
      phv₁.headers[c.headerId]? = some h₁ ∧ Layout h₁ c.fieldOffset ∧
        ZeroAligned 0 (h₁.visible.map fun f => f.nbits) ∧ h₁.isValid = true ∧
          acceptsBytes h₁.image = true ∧ (NoPadding h₁.visible ↔ NoPadding h.visible) := by
  obtain ⟨f, f', hf, hfield, hlen', haccepts, hupdate⟩ := hl.update_spec hh hvalid hzero
  have hn := hl.nbits_eq hf
  have hn' : f'.nbits = f.nbits := by rw [hfield]
  have hhidden : f'.hidden = f.hidden := by rw [hfield]
  refine ⟨phv.setHeader c.headerId (h.putField c.fieldOffset f'), h.putField c.fieldOffset f',
    fun stack hstack => ?_, getElem?_setHeader hh _,
    hl.putField hf hn' hhidden hlen', ?_, hvalid, haccepts, ?_⟩
  · rw [update, if_pos hmet, hupdate stack hstack]
  · rw [(hl.toSized.putField hf hn' hhidden hlen').2]
    exact hzero
  · rw [(hl.toSized.visible_putField hf f').1]
    exact noPadding_set hf hn hl.start (hn'.trans hn)

/-- A header that was deparsed has fields that can be written. -/
theorem Layout.zeroAligned (hl : Layout h c.fieldOffset) {stack out : List Byte}
    (hout : h.deparse stack = some out) : ZeroAligned 0 (h.visible.map fun f => f.nbits) := by
  obtain ⟨v, hfields, -, hvisible⟩ :=
    (show h.WellFormed from ⟨hl.hidden, fun _ => hl.nbytes⟩).fields_eq
  unfold DataHeader.deparse at hout
  rw [hfields] at hout
  exact zeroAligned_of_deparseFields hvisible hl.bytes hout

/-- When `verify` is true after `update`. -/
theorem Layout.verifies_iff (hh : phv.headers[c.headerId]? = some h) (hl : Layout h c.fieldOffset) :
    c.Verifies phv ↔ c.isConditionMet phv = false ∨ h.isValid = false ∨
      ZeroAligned 0 (h.visible.map fun f => f.nbits) := by
  constructor
  · rintro ⟨phv₁, hupdate, -, -⟩
    by_cases hmet : c.isConditionMet phv = true
    · by_cases hvalid : h.isValid = true
      · obtain ⟨f, hf, -⟩ := hl.field
        have hrun := hupdate (List.replicate 60 0) List.length_replicate
        rw [update, if_pos hmet, update_] at hrun
        simp only [hh, Option.bind_eq_bind, Option.bind_some, hvalid, Bool.not_true,
          Bool.false_eq_true, if_false, hl.getElem?_fields hf, buffer] at hrun
        cases hout : h.deparse (List.replicate 60 0) with
        | none => rw [hout] at hrun; cases hrun
        | some out => exact .inr (.inr (hl.zeroAligned hout))
      · exact .inr (.inl (by simpa using hvalid))
    · exact .inl (by simpa using hmet)
  · intro hcond
    by_cases hmet : c.isConditionMet phv = true
    · cases hvalid : h.isValid with
      | false =>
        refine ⟨phv, fun stack _ => ?_, fun stack _ => ?_, fun phv₂ hr _ stack _ => ?_⟩
        · simp [update, update_, hmet, hh, hvalid]
        · simp [verify, verify_, hmet, hh, hvalid]
        · obtain ⟨h₂, hh₂, hr₂⟩ := DataHeader.Reparsed.getElem? hr hh
          have hinvalid := hr₂.not_valid hvalid
          by_cases hmet₂ : c.isConditionMet phv₂ = true
          · simp [verify, verify_, hmet₂, hh₂, hinvalid]
          · simp [verify, hmet₂]
      | true =>
        have hzero : ZeroAligned 0 (h.visible.map fun f => f.nbits) := by
          rcases hcond with hcond | hcond | hcond
          · rw [hmet] at hcond
            cases hcond
          · rw [hvalid] at hcond
            cases hcond
          · exact hcond
        obtain ⟨phv₁, h₁, hupdate, hh₁, hl₁, hzero₁, hvalid₁, haccepts, -⟩ :=
          hl.updated hh hmet hvalid hzero
        refine ⟨phv₁, hupdate, fun stack hstack => ?_, fun phv₂ hr _ stack hstack => ?_⟩
        · unfold verify
          split
          · rw [hl₁.verify_eq hh₁ hvalid₁ hzero₁ hstack, haccepts]
          · rfl
        · obtain ⟨h₂, hh₂, hr₂⟩ := DataHeader.Reparsed.getElem? hr hh₁
          unfold verify
          split
          · obtain ⟨hl₂, hzero₂, hvalid₂, himage⟩ := hl₁.reparsed hzero₁ hvalid₁ hr₂
            rw [hl₂.verify_eq hh₂ hvalid₂ hzero₂ hstack, himage, haccepts]
          · rfl
    · refine ⟨phv, fun stack _ => ?_, fun stack _ => ?_, fun phv₂ _ honly stack _ => ?_⟩
      · simp [update, hmet]
      · simp [verify, hmet]
      · have hmet₂ : ¬ c.isConditionMet phv₂ = true := fun h => hmet (honly h)
        simp [verify, hmet₂]

end Update

/-! ## Bits that are flipped -/

section Flip

variable {h : DataHeader} {offset j b : ℕ} {g : DataField}

theorem Layout.flip (hl : Layout h offset) (hg : h.visible[j]? = some g) (b : ℕ) :
    Layout (h.putField j (g.flip b)) offset ∧
      ((h.putField j (g.flip b)).visible.map fun f => f.nbits) = h.visible.map fun f => f.nbits := by
  have hbytes : (g.flip b).bytes.length = (g.flip b).nbytes := by
    rw [DataField.flip, length_flipBit]
    exact hl.bytes g (List.mem_of_getElem? hg)
  have hnbits : (g.flip b).nbits = g.nbits := rfl
  have hhidden : (g.flip b).hidden = g.hidden := rfl
  exact ⟨hl.putField hg hnbits hhidden hbytes, (hl.toSized.putField hg hnbits hhidden hbytes).2⟩

/-- The bits of the flipped field. -/
theorem Layout.bitAt_flip (hl : Layout h offset) (hg : h.visible[j]? = some g) (hb : b < g.nbits)
    (i : ℕ) : bitAt (g.flip b).bytes i =
      (bitAt g.bytes i ^^ decide (i = fieldPad g.nbits + b)) := by
  have hlen := hl.bytes g (List.mem_of_getElem? hg)
  have hpad := fieldPad_add g.nbits
  rw [Field.nbytes] at hlen
  exact bitAt_flipBit (by rw [hlen]; omega) i

/-- Elsewhere a flipped field puts the bits that it put before. -/
theorem Layout.putsBit_flip (hl : Layout h offset) (hg : h.visible[j]? = some g) (hb : b < g.nbits)
    {start i : ℕ} (hi : i ≠ start + b) : (g.flip b).putsBit start i = g.putsBit start i := by
  unfold DataField.putsBit
  rw [show (g.flip b).nbits = g.nbits from rfl, hl.bitAt_flip hg hb]
  by_cases hplace : i < start + g.nbits ∧ start ≤ i + fieldPad g.nbits ∧ start / 8 * 8 ≤ i
  · rw [decide_eq_false (show ¬ i + fieldPad g.nbits - start = fieldPad g.nbits + b by omega),
      Bool.xor_false]
  · rw [decide_eq_false hplace, Bool.false_and, Bool.false_and]

theorem Layout.noPadding_flip (hl : Layout h offset) (hg : h.visible[j]? = some g)
    (hb : b < g.nbits) (hpad : NoPadding h.visible) : NoPadding (h.visible.set j (g.flip b)) := by
  have hnbits : (g.flip b).nbits = g.nbits := rfl
  intro k f' hf' i hi
  rw [widths_set hg hnbits] at hi ⊢
  by_cases hk : j = k
  · subst hk
    rw [List.getElem?_set_self (List.getElem?_eq_some_iff.mp hg).1] at hf'
    obtain rfl := Option.some.inj hf'
    rw [hl.putsBit_flip hg hb (by omega)]
    exact hpad j g hg i hi
  · rw [List.getElem?_set_ne hk] at hf'
    exact hpad k f' hf' i hi

/-- Without padding, one bit of the bytes is flipped. -/
theorem Layout.image_flip (hl : Layout h offset)
    (hzero : ZeroAligned 0 (h.visible.map fun f => f.nbits)) (hpad : NoPadding h.visible)
    (hg : h.visible[j]? = some g) (hb : b < g.nbits) :
    (h.putField j (g.flip b)).image =
      flipBit h.image (fieldStart (h.visible.map fun f => f.nbits) j + b) := by
  obtain ⟨hl', hwidths⟩ := hl.flip hg b
  have hvisible := (hl.toSized.visible_putField hg (g.flip b)).1
  have hpad' : NoPadding (h.putField j (g.flip b)).visible := by
    rw [hvisible]
    exact hl.noPadding_flip hg hb hpad
  obtain ⟨hlen, hbits⟩ := (hl.toSized.deparsable hzero).image_bits
  obtain ⟨hlen', hbits'⟩ := (hl'.toSized.deparsable (hwidths ▸ hzero)).image_bits
  have hnbytes : (h.putField j (g.flip b)).nbytesPacket = h.nbytesPacket := rfl
  have hplace : fieldStart (h.visible.map fun f => f.nbits) j + g.nbits ≤
      (h.visible.map fun f => f.nbits).sum := fieldStart_add_le_sum (by simp [hg])
  have hsum := hl.nbytes
  refine eq_of_bitAt_eq (by rw [hlen', hnbytes, length_flipBit, hlen]) fun i hi => ?_
  rw [hlen', hnbytes] at hi
  rw [bitAt_flipBit (by omega), Bool.eq_iff_iff, hbits' i hi]
  obtain ⟨k, w, m, hk, hm, rfl⟩ := exists_field (show i < (h.visible.map fun f => f.nbits).sum by omega)
  obtain ⟨e, he, rfl⟩ : ∃ e, h.visible[k]? = some e ∧ e.nbits = w := by
    simpa [List.getElem?_map] using hk
  have hold : bitAt h.image (fieldStart (h.visible.map fun f => f.nbits) k + m) =
      bitAt e.bytes (fieldPad e.nbits + m) := by
    rw [Bool.eq_iff_iff, hbits _ hi]
    exact putsBit_iff_own hpad he hm
  have hnew {e' : DataField} (he' : (h.putField j (g.flip b)).visible[k]? = some e')
      (hn' : e'.nbits = e.nbits) := putsBit_iff_own hpad' he' (hn' ▸ hm)
  rw [hwidths, hvisible] at hnew
  rw [hold, hvisible]
  by_cases hkj : k = j
  · -- the field with the flipped bit
    subst hkj
    obtain rfl := Option.some.inj (hg.symm.trans he)
    rw [hnew (List.getElem?_set_self (List.getElem?_eq_some_iff.mp hg).1) rfl,
      show (g.flip b).nbits = g.nbits from rfl, hl.bitAt_flip hg hb]
    simp only [Nat.add_right_inj]
  · have hne : ¬ fieldStart (h.visible.map fun f => f.nbits) k + m =
        fieldStart (h.visible.map fun f => f.nbits) j + b := fun heq =>
      hkj (field_unique (p := fieldStart (h.visible.map fun f => f.nbits) k + m) hk
        (show (h.visible.map fun f => f.nbits)[j]? = some g.nbits by simp [hg])
        (by omega) (by omega) (by omega) (by omega))
    rw [hnew ((List.getElem?_set_ne (Ne.symm hkj)).trans he) rfl, decide_eq_false hne, Bool.xor_false]

/-- With padding, there is a bit that can be flipped without a change of the bytes. -/
theorem Layout.exists_hidden_flip (hl : Layout h offset)
    (hzero : ZeroAligned 0 (h.visible.map fun f => f.nbits)) (hpad : ¬ NoPadding h.visible) :
    ∃ (j b : ℕ) (g : DataField), h.visible[j]? = some g ∧ b < g.nbits ∧
      (h.putField j (g.flip b)).image = h.image := by
  unfold NoPadding at hpad
  push Not at hpad
  obtain ⟨k, f, hf, i, hi, hput⟩ := hpad
  rw [ne_eq, Bool.not_eq_false] at hput
  have hsum := hl.nbytes
  have hle : fieldStart (h.visible.map fun f => f.nbits) k + f.nbits ≤
      (h.visible.map fun f => f.nbits).sum := fieldStart_add_le_sum (by simp [hf])
  obtain ⟨j, w, b, hj, hb, rfl⟩ := exists_field (show i < (h.visible.map fun f => f.nbits).sum by omega)
  obtain ⟨g, hg, rfl⟩ : ∃ g, h.visible[j]? = some g ∧ g.nbits = w := by
    simpa [List.getElem?_map] using hj
  refine ⟨j, b, g, hg, hb, ?_⟩
  have hkj : j ≠ k := by
    rintro rfl
    omega
  obtain ⟨hl', hwidths⟩ := hl.flip hg b
  have hvisible := (hl.toSized.visible_putField hg (g.flip b)).1
  obtain ⟨hlen, hbits⟩ := (hl.toSized.deparsable hzero).image_bits
  obtain ⟨hlen', hbits'⟩ := (hl'.toSized.deparsable (hwidths ▸ hzero)).image_bits
  have hnbytes : (h.putField j (g.flip b)).nbytesPacket = h.nbytesPacket := rfl
  refine eq_of_bitAt_eq (by rw [hlen', hnbytes, hlen]) fun i hi => ?_
  rw [hlen', hnbytes] at hi
  rw [Bool.eq_iff_iff, hbits i hi, hbits' i hi, hvisible]
  have hlt := (List.getElem?_eq_some_iff.mp hg).1
  by_cases hplace : i = fieldStart (h.visible.map fun f => f.nbits) j + b
  · -- the padding of the other field puts the bit in any case
    subst hplace
    refine iff_of_true ⟨k, f, (List.getElem?_set_ne hkj).trans hf, ?_⟩ ⟨k, f, hf, ?_⟩
    · rw [Nat.zero_add, widths_set hg (show (g.flip b).nbits = g.nbits from rfl)]
      exact hput
    · rw [Nat.zero_add]
      exact hput
  · unfold PutsBit
    rw [widths_set hg (show (g.flip b).nbits = g.nbits from rfl)]
    simp only [Nat.zero_add]
    constructor
    · rintro ⟨m, e, he, hm⟩
      by_cases hmj : j = m
      · subst hmj
        rw [List.getElem?_set_self hlt] at he
        obtain rfl := Option.some.inj he
        exact ⟨j, g, hg, by rwa [hl.putsBit_flip hg hb hplace] at hm⟩
      · exact ⟨m, e, (List.getElem?_set_ne hmj).symm.trans he, hm⟩
    · rintro ⟨m, e, he, hm⟩
      by_cases hmj : j = m
      · subst hmj
        obtain rfl := Option.some.inj (hg.symm.trans he)
        exact ⟨j, g.flip b, List.getElem?_set_self hlt, by rwa [hl.putsBit_flip hg hb hplace]⟩
      · exact ⟨m, e, (List.getElem?_set_ne hmj).trans he, hm⟩

end Flip

/-! ## Update, then a flip -/

/-- After `update`, the check fails when any bit of a field is flipped. -/
def SeesFlips (c : IPv4Checksum) (phv : DataPHV) : Prop :=
  ∀ (phv₁ : DataPHV) (h₁ : DataHeader),
    (∀ stack : List Byte, stack.length = 60 → c.update stack phv = some phv₁) →
      phv₁.headers[c.headerId]? = some h₁ → ∀ (j b : ℕ) (g : DataField),
        h₁.visible[j]? = some g → b < g.nbits → ∀ stack : List Byte, stack.length = 60 →
          c.verify_ stack (phv₁.setHeader c.headerId (h₁.putField j (g.flip b))) = some false

/-- After `update`, the check fails when any bit is flipped in the bytes that the header is deparsed
to, before they are parsed again. -/
def SeesWireFlips (c : IPv4Checksum) (phv : DataPHV) : Prop :=
  ∀ (phv₁ : DataPHV) (h₁ : DataHeader),
    (∀ stack : List Byte, stack.length = 60 → c.update stack phv = some phv₁) →
      phv₁.headers[c.headerId]? = some h₁ → ∀ i < 8 * h₁.nbytesPacket, ∀ (phv₂ : DataPHV)
        (h₂ : DataHeader), phv₂.headers[c.headerId]? = some h₂ →
          h₁.ParsedAs (flipBit h₁.image i) h₂ → ∀ stack : List Byte, stack.length = 60 →
            c.verify_ stack phv₂ = some false

section Flips

variable {c : IPv4Checksum} {phv : DataPHV} {h : DataHeader}

/-- When flipped bits are seen. -/
theorem Layout.seesFlips_iff (hh : phv.headers[c.headerId]? = some h) (hl : Layout h c.fieldOffset)
    (hmet : c.isConditionMet phv = true) (hvalid : h.isValid = true)
    (hzero : ZeroAligned 0 (h.visible.map fun f => f.nbits)) :
    c.SeesWireFlips phv ∧ (c.SeesFlips phv ↔ NoPadding h.visible) := by
  obtain ⟨phv₁, h₁, hupdate, hh₁, hl₁, hzero₁, hvalid₁, haccepts, hpad⟩ :=
    hl.updated hh hmet hvalid hzero
  have hlen₁ := (hl₁.toSized.deparsable hzero₁).image_bits.1
  have hle := hl₁.le_nbytes
  have hunique {phv' : DataPHV} {h' : DataHeader}
      (hupdate' : ∀ stack : List Byte, stack.length = 60 → c.update stack phv = some phv')
      (hh' : phv'.headers[c.headerId]? = some h') : phv₁ = phv' ∧ h₁ = h' := by
    have hstack : (List.replicate 60 (0 : Byte)).length = 60 := List.length_replicate
    obtain rfl := Option.some.inj ((hupdate _ hstack).symm.trans (hupdate' _ hstack))
    exact ⟨rfl, Option.some.inj (hh₁.symm.trans hh')⟩
  refine ⟨fun phv' h' hupdate' hh' i hi phv₂ h₂ hh₂ hp stack hstack => ?_,
    fun hsees => ?_, fun hclean phv' h' hupdate' hh' j b g hg hb stack hstack => ?_⟩
  · obtain ⟨rfl, rfl⟩ := hunique hupdate' hh'
    obtain ⟨hl₂, hzero₂, hvalid₂, himage⟩ :=
      hl₁.parsedAs hp (by rw [length_flipBit, hlen₁])
    rw [hl₂.verify_eq hh₂ hvalid₂ hzero₂ hstack, himage,
      acceptsBytes_flipBit (by omega) (by omega) haccepts]
  · -- a hidden flip would be accepted
    by_contra hnot
    rw [← hpad] at hnot
    obtain ⟨j, b, g, hg, hb, himage⟩ := hl₁.exists_hidden_flip hzero₁ hnot
    obtain ⟨hl', hwidths⟩ := hl₁.flip hg b
    have hfalse := hsees phv₁ h₁ hupdate hh₁ j b g hg hb (List.replicate 60 0) List.length_replicate
    rw [hl'.verify_eq (getElem?_setHeader hh₁ _) (by exact hvalid₁) (hwidths ▸ hzero₁)
      List.length_replicate, himage, haccepts] at hfalse
    cases hfalse
  · obtain ⟨rfl, rfl⟩ := hunique hupdate' hh'
    obtain ⟨hl', hwidths⟩ := hl₁.flip hg b
    have hplace : fieldStart (h₁.visible.map fun f => f.nbits) j + g.nbits ≤
        (h₁.visible.map fun f => f.nbits).sum := fieldStart_add_le_sum (by simp [hg])
    have hsum := hl₁.nbytes
    rw [hl'.verify_eq (getElem?_setHeader hh₁ _) (by exact hvalid₁) (hwidths ▸ hzero₁) hstack,
      hl₁.image_flip hzero₁ (hpad.mpr hclean) hg hb,
      acceptsBytes_flipBit (by omega) (by omega) haccepts]

end Flips

end IPv4Checksum

/-! ## Both kinds of checksums -/

/-- A valid header of twelve bytes, with the checksum in the last two. -/
def twelveBytes : DataHeader :=
  ⟨[⟨⟨80, [0x45, 0, 0, 12, 0, 0, 0, 0, 64, 6], false⟩, false, false, 0⟩,
    ⟨⟨16, [0, 0], false⟩, false, false, 0⟩, ⟨⟨1, [1], true⟩, false, true, 1⟩], true, false, 12, none⟩

/-- The field of a checksum. -/
def checksumField (nbits : ℕ) : DataField :=
  ⟨⟨nbits, List.replicate (nbitsToNbytes nbits) 0, false⟩, false, true, 0⟩

/-- A valid header with the checksum as its only field. -/
def checksumHeader (nbits : ℕ) : DataHeader :=
  ⟨[checksumField nbits, ⟨⟨1, [1], true⟩, false, true, 1⟩], true, false, nbits / 8, none⟩

/-- A packet with this header only. -/
def checksumPacket (nbits : ℕ) : Packet := ⟨⟨[checksumHeader nbits], []⟩, ⟨[], 0, le_rfl⟩, 0⟩

/-- The Internet checksum of the byte 1. -/
def onesChecksum : CalcBasedChecksum :=
  ⟨⟨0, 0, none⟩, ⟨[.constant [0x01] 8], false⟩, fun bs => (Hash.cksum16 bs).setWidth 64⟩

theorem onesChecksum_sets (nbits : ℕ) :
    onesChecksum.Sets (checksumPacket nbits) (checksumHeader nbits) (checksumField nbits) where
  header := rfl
  field := rfl
  signed := fun h => by cases h
  input := by
    intro e he
    obtain rfl := List.mem_singleton.mp he
    exact id
  condition := fun _ _ _ => rfl

theorem onesChecksum_output (pkt : Packet) : onesChecksum.output pkt = some 0xfeff := by
  have hbuild : onesChecksum.builder.build pkt = some [0x01] := rfl
  have hsum : Hash.cksum16 [0x01] = 0xfeff := by
    rw [hash_cksum16_eq]
    decide
  rw [CalcBasedChecksum.output, hbuild]
  show some ((Hash.cksum16 [0x01]).setWidth 64) = _
  rw [hsum]
  rfl

end Bm
