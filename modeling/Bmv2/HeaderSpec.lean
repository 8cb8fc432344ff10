/-
# The loops over the fields of a header

What `Header::extract` and `Header::deparse` do to the fields and to the buffer,
by bits.

* `extractFields_spec`: every field is read from its place;
* `deparseFields_spec`: the buffer that deparsing leaves, in terms of the bits
  that the fields put into it.
-/
import Bmv2.Headers

namespace Bm

/-! ## Extraction -/

/-- A field that was read from the bit `start` of `data`. -/
structure DataField.ReadFrom (data : List Byte) (start : ℕ) (f f' : DataField) : Prop where
  toField : f'.toField = { f.toField with bytes := f'.bytes }
  isSigned : f'.isSigned = f.isSigned
  length_bytes : f'.bytes.length = f.nbytes
  bits : ∀ i < 8 * f.nbytes, bitAt f'.bytes i = readBit data start f.nbits i

theorem DataField.ReadFrom.of_drop {data : List Byte} {n start : ℕ} {f f' : DataField}
    (h : f.ReadFrom (data.drop n) start f') : f.ReadFrom data (8 * n + start) f' := by
  refine ⟨h.toField, h.isSigned, h.length_bytes, fun i hi => ?_⟩
  rw [h.bits i hi, readBit_drop]

/-- One field. -/
theorem extract_spec {f : DataField} {data : List Byte} {off : ℕ} (hoff : off < 8)
    (hzero : 0 < f.nbits ∨ off = 0) (hlen : off + f.nbits ≤ 8 * data.length) :
    ∃ f', f.extract data off = some f' ∧ f.ReadFrom data off f' := by
  have hinside : nbitsToNbytes (off + f.nbits) ≤ data.length := by
    unfold nbitsToNbytes
    omega
  obtain ⟨bytes, hbytes, hblen, hbits⟩ := genericExtract_readBit hoff hzero hinside
  obtain ⟨f', hf'⟩ : ∃ f', f.extract data off = some f' := by
    unfold DataField.extract
    rw [hbytes]
    exact ⟨_, rfl⟩
  obtain ⟨bytes', hbytes', hfield, hsigned⟩ := DataField.extract_eq_some hf'
  obtain rfl : bytes = bytes' := Option.some.inj (hbytes.symm.trans hbytes')
  have hb : f'.bytes = bytes := by rw [hfield]
  refine ⟨f', hf', ⟨by rw [hb, hfield], hsigned, by rw [hb, hblen]; rfl, fun i hi => ?_⟩⟩
  rw [hb, hbits i hi]

namespace DataHeader

/-- The loop of `extract` reads every field from its place. -/
theorem extractFields_spec {fs : List DataField} {v : DataField} (hv : v.hidden = true)
    (hvisible : ∀ f ∈ fs, f.hidden = false) {data : List Byte} {off : ℕ} (hoff : off < 8)
    (hzero : ZeroAligned off (fs.map fun f => f.nbits))
    (hlen : off + (fs.map fun f => f.nbits).sum ≤ 8 * data.length) :
    ∃ fs', extractFields (fs ++ [v]) data off = some (fs' ++ [v]) ∧ fs'.length = fs.length ∧
      ∀ (j : ℕ) (f f' : DataField), fs[j]? = some f → fs'[j]? = some f' →
        f.ReadFrom data (off + fieldStart (fs.map fun f => f.nbits) j) f' := by
  induction fs generalizing data off with
  | nil =>
    refine ⟨[], ?_, rfl, fun j f f' hf => by simp at hf⟩
    rw [List.nil_append, extractFields, if_pos hv]
  | cons f fs ih =>
    rw [List.map_cons, List.sum_cons] at hlen
    rw [List.map_cons, zeroAligned_cons] at hzero
    obtain ⟨hzf, hzfs⟩ := hzero
    obtain ⟨f₁, hf₁, hread⟩ := extract_spec (f := f) hoff (by omega) (show _ ≤ 8 * data.length by omega)
    have hnbits : f₁.nbits = f.nbits := by rw [hread.toField]
    -- the rest is read from the byte in which this field ends
    have hdrop : (off + f.nbits) % 8 + (fs.map fun f => f.nbits).sum ≤
        8 * (data.drop ((off + f.nbits) / 8)).length := by
      rw [List.length_drop]
      omega
    obtain ⟨fs', hfs', hlen', hreads⟩ := ih (fun g hg => hvisible g (by simp [hg]))
      (Nat.mod_lt _ (by norm_num))
      ((zeroAligned_congr (by omega)).mp hzfs) hdrop
    refine ⟨f₁ :: fs', ?_, by simp [hlen'], fun j g g' hg hg' => ?_⟩
    · rw [List.cons_append, extractFields, if_neg (by simp [hvisible f (by simp)]), hf₁]
      simp only [Option.bind_eq_bind, Option.bind_some, hnbits, hfs']
      rfl
    · cases j with
      | zero =>
        obtain rfl : f = g := by simpa using hg
        obtain rfl : f₁ = g' := by simpa using hg'
        simpa using hread
      | succ j =>
        have hrest := (hreads j g g' (by simpa using hg) (by simpa using hg')).of_drop
        rw [List.map_cons, fieldStart_cons]
        rwa [show 8 * ((off + f.nbits) / 8) + ((off + f.nbits) % 8 +
          fieldStart (fs.map fun f => f.nbits) j) =
            off + (f.nbits + fieldStart (fs.map fun f => f.nbits) j) by omega] at hrest

/-- When the loop goes through, the fields are inside the data, and keep their widths. -/
theorem extractFields_eq_some {fs out : List DataField} {v : DataField} (hv : v.hidden = true)
    (hvisible : ∀ f ∈ fs, f.hidden = false) {data : List Byte} {off : ℕ} (hoff : off < 8)
    (hlen : off ≤ 8 * data.length) (h : extractFields (fs ++ [v]) data off = some out) :
    ∃ fs', out = fs' ++ [v] ∧ (fs'.map fun f => f.nbits) = (fs.map fun f => f.nbits) ∧
      (∀ f ∈ fs', f.hidden = false) ∧ ZeroAligned off (fs.map fun f => f.nbits) ∧
        off + (fs.map fun f => f.nbits).sum ≤ 8 * data.length := by
  induction fs generalizing data off out with
  | nil =>
    rw [List.nil_append, extractFields, if_pos hv] at h
    obtain rfl := Option.some.inj h
    exact ⟨[], rfl, rfl, by simp, fun j w hj => by simp at hj, by simpa using hlen⟩
  | cons f fs ih =>
    rw [List.cons_append, extractFields, if_neg (by simp [hvisible f (by simp)])] at h
    obtain ⟨f₁, hf₁, hrest⟩ := Option.bind_eq_some_iff.mp h
    obtain ⟨out₁, hout₁, hcons⟩ := Option.bind_eq_some_iff.mp hrest
    obtain rfl := Option.some.inj hcons
    obtain ⟨bytes, hbytes, hfield, -⟩ := DataField.extract_eq_some hf₁
    obtain ⟨hzero, hinside⟩ := (exists_genericExtract_iff hoff).mp ⟨bytes, hbytes⟩
    have hnbits : f₁.nbits = f.nbits := by rw [hfield]
    have hhidden : f₁.hidden = f.hidden := by rw [hfield]
    rw [hnbits] at hout₁
    unfold nbitsToNbytes at hinside
    obtain ⟨fs', rfl, hwidths, hvis', hzeros, hsum⟩ := ih (fun g hg => hvisible g (by simp [hg]))
      (Nat.mod_lt _ (by norm_num)) (by rw [List.length_drop]; omega) hout₁
    rw [List.length_drop] at hsum
    refine ⟨f₁ :: fs', rfl, by simp [hnbits, hwidths], ?_, ?_, ?_⟩
    · intro g hg
      rcases List.mem_cons.mp hg with rfl | hg
      · rw [hhidden]
        exact hvisible f (by simp)
      · exact hvis' g hg
    · rw [List.map_cons, zeroAligned_cons]
      exact ⟨by omega, (zeroAligned_congr (by omega)).mp hzeros⟩
    · rw [List.map_cons, List.sum_cons]
      omega

theorem markValid_fields (h : DataHeader) {fs : List DataField} {v : DataField}
    (hfields : h.fields = fs ++ [v]) : h.markValid.fields = fs ++ [v.set 1] := by
  unfold markValid
  dsimp only
  rw [hfields, List.length_append, List.length_singleton, Nat.add_sub_cancel,
    List.modify_eq_take_cons_drop (by simp)]
  simp

end DataHeader

/-! ## Deparsing -/

/-- The bit that a field at bit `start` puts in place `i`: one of its own, or one of its padding
into the byte in which it starts. -/
def DataField.putsBit (f : DataField) (start i : ℕ) : Bool :=
  decide (i < start + f.nbits ∧ start ≤ i + fieldPad f.nbits ∧ start / 8 * 8 ≤ i) &&
    bitAt f.bytes (i + fieldPad f.nbits - start)

/-- Some field of the list puts a bit in place `i`. -/
def PutsBit (fs : List DataField) (start i : ℕ) : Prop :=
  ∃ (j : ℕ) (f : DataField), fs[j]? = some f ∧
    f.putsBit (start + fieldStart (fs.map fun f => f.nbits) j) i = true

theorem not_putsBit_nil (start i : ℕ) : ¬ PutsBit [] start i := by
  rintro ⟨j, f, hf, -⟩
  simp at hf

theorem putsBit_cons {f : DataField} {fs : List DataField} {start i : ℕ} :
    PutsBit (f :: fs) start i ↔ f.putsBit start i = true ∨ PutsBit fs (start + f.nbits) i := by
  constructor
  · rintro ⟨j, g, hg, hput⟩
    cases j with
    | zero =>
      obtain rfl : f = g := by simpa using hg
      exact .inl (by simpa using hput)
    | succ j =>
      rw [List.map_cons, fieldStart_cons, ← Nat.add_assoc] at hput
      exact .inr ⟨j, g, by simpa using hg, hput⟩
  · rintro (hput | ⟨j, g, hg, hput⟩)
    · exact ⟨0, f, rfl, by simpa using hput⟩
    · refine ⟨j + 1, g, by simpa using hg, ?_⟩
      rwa [List.map_cons, fieldStart_cons, ← Nat.add_assoc]

/-- Whole bytes may be left out in front. -/
theorem putsBit_add (fs : List DataField) (n start i : ℕ) :
    PutsBit fs (8 * n + start) (8 * n + i) ↔ PutsBit fs start i := by
  unfold PutsBit
  refine exists_congr fun j => exists_congr fun f => and_congr_right fun _ => ?_
  generalize fieldStart (fs.map fun f => f.nbits) j = s
  unfold DataField.putsBit
  have hcond : (8 * n + i < 8 * n + start + s + f.nbits ∧
      8 * n + start + s ≤ 8 * n + i + fieldPad f.nbits ∧ (8 * n + start + s) / 8 * 8 ≤ 8 * n + i) ↔
      (i < start + s + f.nbits ∧ start + s ≤ i + fieldPad f.nbits ∧ (start + s) / 8 * 8 ≤ i) := by
    omega
  rw [decide_eq_decide.mpr hcond,
    show 8 * n + i + fieldPad f.nbits - (8 * n + start + s) = i + fieldPad f.nbits - (start + s) by
      omega]

/-- Fields put no bits in front of the byte in which the first one starts. -/
theorem not_putsBit {fs : List DataField} {start i : ℕ} (h : i < start / 8 * 8) :
    ¬ PutsBit fs start i := by
  rintro ⟨j, f, -, hput⟩
  unfold DataField.putsBit at hput
  simp only [Bool.and_eq_true, decide_eq_true_eq] at hput
  omega

namespace DataHeader

/-- The loop of `deparse`: every place gets the bits that the fields put there, and in front of the
first field the bits that were there. -/
theorem deparseFields_spec {fs : List DataField} {v : DataField} (hv : v.hidden = true)
    (hvisible : ∀ f ∈ fs, f.hidden = false) (hbytes : ∀ f ∈ fs, f.bytes.length = f.nbytes)
    {data : List Byte} {off : ℕ} (hoff : off < 8) (hzero : ZeroAligned off (fs.map fun f => f.nbits))
    (hlen : off + (fs.map fun f => f.nbits).sum ≤ 8 * data.length) :
    ∃ out, deparseFields (fs ++ [v]) data off = some out ∧ out.length = data.length ∧
      (∀ i < off + (fs.map fun f => f.nbits).sum,
        (bitAt out i = true ↔ (i < off ∧ bitAt data i = true) ∨ PutsBit fs off i)) ∧
      ∀ i, 8 * nbitsToNbytes (off + (fs.map fun f => f.nbits).sum) ≤ i →
        bitAt out i = bitAt data i := by
  induction fs generalizing data off with
  | nil =>
    refine ⟨data, by rw [List.nil_append, deparseFields, if_pos hv], rfl, fun i hi => ?_,
      fun _ _ => rfl⟩
    have hi' : i < off := by simpa using hi
    simp [hi', not_putsBit_nil]
  | cons f fs ih =>
    rw [List.map_cons, List.sum_cons] at hlen ⊢
    rw [List.map_cons, zeroAligned_cons] at hzero
    obtain ⟨hzf, hzfs⟩ := hzero
    obtain ⟨data₁, hrun₁, hlen₁, hin₁, -, hout₁⟩ := genericDeparse_spec hoff (show 0 < f.nbits ∨ off = 0 by
      omega) (hbytes f (by simp)) (show nbitsToNbytes (off + f.nbits) ≤ data.length by
        unfold nbitsToNbytes
        omega)
    generalize hn : (off + f.nbits) / 8 = n
    have hdrop : (off + f.nbits) % 8 + (fs.map fun f => f.nbits).sum ≤
        8 * (data₁.drop n).length := by
      rw [List.length_drop]
      omega
    obtain ⟨rest, hrest, hlenrest, hinrest, houtrest⟩ := ih (fun g hg => hvisible g (by simp [hg]))
      (fun g hg => hbytes g (by simp [hg])) (Nat.mod_lt _ (by norm_num))
      ((zeroAligned_congr (by omega)).mp hzfs) hdrop
    have hlenout : (data₁.take n ++ rest).length = data.length := by
      rw [List.length_append, List.length_take, hlenrest, List.length_drop]
      omega
    refine ⟨data₁.take n ++ rest, ?_, hlenout, fun i hi => ?_, fun i hi => ?_⟩
    · rw [List.cons_append, deparseFields, if_neg (by simp [hvisible f (by simp)])]
      unfold DataField.deparse
      simp only [hrun₁, Option.bind_eq_bind, Option.bind_some, hn, hrest]
      rfl
    · -- what the first field did to place `i`
      have hfirst (hi' : i < off + f.nbits) : bitAt data₁ i = true ↔
          (i < off ∧ bitAt data i = true) ∨ f.putsBit off i = true := by
        rw [hin₁ i hi']
        unfold DataField.putsBit fieldPad
        simp only [Bool.or_eq_true, Bool.and_eq_true, decide_eq_true_eq]
        have hbyte : off / 8 * 8 ≤ i := by omega
        simp only [hi', hbyte, true_and, and_true]
      rw [bitAt_append, List.length_take, Nat.min_eq_left (by omega), putsBit_cons]
      by_cases hfront : i < 8 * n
      · rw [if_pos hfront, bitAt_take data₁ hfront, hfirst (by omega)]
        have hnone : ¬ PutsBit fs (off + f.nbits) i := not_putsBit (by omega)
        simp only [hnone, or_false]
      · rw [if_neg hfront, hinrest (i - 8 * n) (by omega), bitAt_drop,
          show 8 * n + (i - 8 * n) = i by omega]
        have hshift : PutsBit fs ((off + f.nbits) % 8) (i - 8 * n) ↔
            PutsBit fs (off + f.nbits) i := by
          have hadd := putsBit_add fs n ((off + f.nbits) % 8) (i - 8 * n)
          rw [show 8 * n + (off + f.nbits) % 8 = off + f.nbits by omega,
            show 8 * n + (i - 8 * n) = i by omega] at hadd
          exact hadd.symm
        rw [hshift]
        by_cases hown : i < off + f.nbits
        · simp only [show i - 8 * n < (off + f.nbits) % 8 by omega, true_and, hfirst hown, or_assoc]
        · have hnot : f.putsBit off i = false := by
            unfold DataField.putsBit
            simp [hown]
          simp [show ¬ i - 8 * n < (off + f.nbits) % 8 by omega, show ¬ i < off by omega, hnot]
    · unfold nbitsToNbytes at hi houtrest hout₁
      rw [bitAt_append, List.length_take, if_neg (by omega), Nat.min_eq_left (by omega),
        houtrest _ (by omega), bitAt_drop, show 8 * n + (i - 8 * n) = i by omega,
        hout₁ i (by omega)]

end DataHeader

end Bm
