/-
# Keys give back their parameters

`entry_to_match_params` undoes `match_params_to_entry`: the fields are permuted by match type and
laid out in one byte string (and one mask), and every field finds its own bytes again.  What comes
back is the canonical form of the parameters, which builds the same key.

* `MatchKeyBuilder.layOut`: a byte string in the order of the implementation, read back with
  `fieldBytes_layOut`;
* `MatchKeyBuilder.canonicalParam`: what an entry gives back for a parameter.
-/
import Bmv2.UniqueEntries

namespace Bm

/-! ## Masks of bytes -/

/-- The mask behind which `get_byte0_mask` leaves a field of the given width. -/
def widthMask (nbits : ℕ) : ℕ → ByteContainer
  | 0 => []
  | n + 1 => getByte0Mask nbits :: List.replicate n 0xff

@[simp] theorem length_widthMask (nbits n : ℕ) : (widthMask nbits n).length = n := by
  cases n <;> simp [widthMask]

/-- The mask of a prefix that is longer than a byte: a whole byte of ones, then the mask of the rest. -/
theorem createMaskFromPrefLen_of_le {prefixLength : ℕ} (hlong : 8 ≤ prefixLength) (size : ℕ) :
    createMaskFromPrefLen prefixLength (size + 1) =
      0xff :: createMaskFromPrefLen (prefixLength - 8) size := by
  have hdiv : prefixLength / 8 = (prefixLength - 8) / 8 + 1 := by omega
  have hmod : prefixLength % 8 = (prefixLength - 8) % 8 := by omega
  rw [createMaskFromPrefLen, createMaskFromPrefLen, hdiv, hmod, Nat.add_sub_add_right,
    List.replicate_succ, List.cons_append]
  split
  · rfl
  · rw [List.set_cons_succ]

/-- The mask of a prefix that ends in the first byte. -/
theorem createMaskFromPrefLen_of_lt {prefixLength : ℕ} (hshort : prefixLength < 8) (size : ℕ) :
    createMaskFromPrefLen prefixLength (size + 1) =
      (0xff#8 <<< (8 - prefixLength)) :: List.replicate size 0 := by
  have hdiv : prefixLength / 8 = 0 := by omega
  have hmod : prefixLength % 8 = prefixLength := by omega
  rw [createMaskFromPrefLen, hdiv, hmod, Nat.sub_zero, List.replicate_zero, List.nil_append,
    List.replicate_succ]
  split
  next hzero => rw [hzero]; rfl
  next => rw [List.set_cons_zero]

/-- A prefix mask has as many bits set as the prefix is long. -/
theorem prefLenFromMask_createMaskFromPrefLen {prefixLength size : ℕ} (h : prefixLength ≤ 8 * size) :
    prefLenFromMask (createMaskFromPrefLen prefixLength size) = prefixLength := by
  induction size generalizing prefixLength with
  | zero =>
    obtain rfl : prefixLength = 0 := by omega
    rfl
  | succ size ih =>
    by_cases hlong : 8 ≤ prefixLength
    · have hrest : prefLenFromMask (createMaskFromPrefLen (prefixLength - 8) size) =
          (prefixLength - 8 : ℕ) := ih (by omega)
      rw [prefLenFromMask] at hrest
      rw [createMaskFromPrefLen_of_le hlong, prefLenFromMask, List.map_cons, List.sum_cons, hrest,
        if_pos rfl]
      omega
    · have hzero : ∀ n, prefLenFromMask (List.replicate n 0) = 0 := by
        intro n
        induction n with
        | zero => rfl
        | succ n ih =>
          rw [prefLenFromMask] at ih
          rw [prefLenFromMask, List.replicate_succ, List.map_cons, List.sum_cons, ih]
          rfl
      have hshort : prefixLength < 8 := by omega
      have hrest := hzero size
      rw [prefLenFromMask] at hrest
      rw [createMaskFromPrefLen_of_lt hshort, prefLenFromMask, List.map_cons, List.sum_cons, hrest]
      interval_cases prefixLength <;> rfl

namespace MatchKeyBuilder

variable {kb : MatchKeyBuilder} {fs : List KeyField} {params : List MatchKeyParam}

theorem paramBlock_eq (nbits : ℕ) (param : MatchKeyParam) :
    paramBlock nbits param = andBytes param.key (widthMask nbits param.key.length) := by
  rw [paramBlock]
  cases param.key with
  | nil => rfl
  | cons b bs =>
    have hrest : andBytes bs (List.replicate bs.length 0xff) = bs := andBytes_replicate_ff bs rfl
    rw [List.length_cons, widthMask, andBytes_cons, hrest]
    rfl

/-! ## Laying out what the fields contribute -/

/-- The bytes that the fields contribute, in the order of the implementation. -/
def layOut (g : KeyField → MatchKeyParam → ByteContainer) (fs : List KeyField)
    (params : List MatchKeyParam) : ByteContainer :=
  (List.zipWith g (implFields fs) (implParams fs params)).flatten

/-- The field of a layout with a parameter that passes the sanity check. -/
def Fits (fs : List KeyField) (f : KeyField) (param : MatchKeyParam) : Prop :=
  f ∈ fs ∧ paramOk param f.toKeyF = true

/-- All parameters pass the sanity check. -/
abbrev Checked (fs : List KeyField) (params : List MatchKeyParam) : Prop :=
  List.Forall₂ (Fits fs) (implFields fs) (implParams fs params)

theorem checked_of_sanityCheck (hb : kb.Built fs) (hcheck : kb.matchParamsSanityCheck params = true) :
    params.length = fs.length ∧ Checked fs params := by
  obtain ⟨hlength, hall⟩ := (matchParamsSanityCheck_iff hb params).mp hcheck
  refine ⟨hlength, List.forall₂_iff_get.mpr ⟨hall.length_eq, fun i hi hi' => ?_⟩⟩
  exact ⟨(implFields_perm fs).mem_iff.mp (List.get_mem _ _), hall.get hi hi'⟩

theorem Checked.all (h : Checked fs params) :
    List.Forall₂ (fun f param => paramOk param (KeyField.toKeyF f) = true) (implFields fs)
      (implParams fs params) :=
  h.imp fun _ _ hf => hf.2

variable {g h : KeyField → MatchKeyParam → ByteContainer}

theorem layOut_congr (hcheck : Checked fs params) (hgh : ∀ f p, Fits fs f p → g f p = h f p) :
    layOut g fs params = layOut h fs params :=
  congrArg List.flatten (hcheck.zipWith_congr hgh)

/-- The blocks have the sizes of the fields. -/
theorem map_length_blocks (hcheck : Checked fs params)
    (hlen : ∀ f p, Fits fs f p → (g f p).length = f.toKeyF.nbytes) :
    (List.zipWith g (implFields fs) (implParams fs params)).map List.length = implSizes fs := by
  rw [List.map_zipWith, hcheck.zipWith_congr hlen, hcheck.zipWith_left, implSizes, List.map_map]
  rfl

theorem length_layOut (hcheck : Checked fs params)
    (hlen : ∀ f p, Fits fs f p → (g f p).length = f.toKeyF.nbytes) :
    (layOut g fs params).length = (implSizes fs).sum := by
  rw [layOut, List.length_flatten, map_length_blocks hcheck hlen]

/-- Masking what is laid out masks what every field contributes. -/
theorem andBytes_layOut (hcheck : Checked fs params)
    (hlen : ∀ f p, Fits fs f p → (g f p).length = (h f p).length) :
    andBytes (layOut g fs params) (layOut h fs params) =
      layOut (fun f p => andBytes (g f p) (h f p)) fs params := by
  rw [layOut, layOut, layOut]
  rw [Checked] at hcheck
  generalize implFields fs = fields, implParams fs params = ps at hcheck
  induction hcheck with
  | nil => rfl
  | cons hp _ ih =>
    simp only [List.zipWith_cons_cons, List.flatten_cons]
    rw [andBytes_append (hlen _ _ hp), ih]

theorem layOut_maskBytes (hb : kb.Built fs) (hcheck : Checked fs params) :
    layOut (fun f _ => f.maskBytes) fs params = kb.bigMask := by
  rw [layOut, hb.bigMask, hcheck.zipWith_left]

theorem layOut_paramMask (hcheck : Checked fs params) :
    layOut (fun _ p => paramMask p) fs params = paramMaskBytes fs params := by
  rw [layOut, paramMaskBytes, hcheck.zipWith_right]

/-- A field without a static mask keeps all its bits. -/
theorem maskBytes_of_not_hasMask {f : KeyField} (hnone : f.hasMask = false) :
    f.maskBytes = List.replicate f.toKeyF.nbytes 0xff := by
  rw [KeyField.hasMask, Bool.and_eq_false_iff] at hnone
  rw [KeyField.maskBytes, KeyField.toKeyF]
  by_cases hvalid : f.mtype = .valid
  · simp [hvalid, KeyF.nbytes, nbitsToNbytes]
  · rcases hnone with hvalid' | hnomask
    · exact absurd (by simpa using hvalid') hvalid
    · have hnomask' : f.mask = none := by simpa using hnomask
      rw [if_neg hvalid, if_neg hvalid, hnomask']
      rfl

/-- The static masks, which are all ones when the builder does not keep them. -/
theorem applyBigMask_layOut (hb : kb.Built fs) (hcheck : Checked fs params)
    (hlen : ∀ f p, Fits fs f p → (g f p).length = f.toKeyF.nbytes) :
    kb.applyBigMask (layOut g fs params) =
      some (layOut (fun f p => andBytes (g f p) f.maskBytes) fs params) := by
  rw [applyBigMask]
  split
  next =>
    have hlength : (layOut g fs params).length = kb.bigMask.length := by
      rw [length_layOut hcheck hlen, length_bigMask hb]
    rw [applyMask, if_pos hlength]
    have hmask := andBytes_layOut (g := g) (h := fun f _ => f.maskBytes) hcheck
      fun f p hf => (hlen f p hf).trans (hb.length_mask f hf.1).symm
    rw [← hmask, layOut_maskBytes hb hcheck]
  next hbig =>
    refine congrArg some (layOut_congr hcheck fun f p hf => ?_)
    have hnone : f.hasMask = false := by
      rw [hb.hasBigMask, Bool.not_eq_true, List.any_eq_false] at hbig
      exact Bool.eq_false_iff.mpr (hbig f hf.1)
    have hkept : andBytes (g f p) (List.replicate f.toKeyF.nbytes 0xff) = g f p :=
      andBytes_replicate_ff _ (hlen f p hf)
    rw [maskBytes_of_not_hasMask hnone, hkept]

/-- Every field finds its own bytes again. -/
theorem fieldBytes_layOut (hb : kb.Built fs) (hcheck : Checked fs params)
    (hlen : ∀ f p, Fits fs f p → (g f p).length = f.toKeyF.nbytes) {i : ℕ} {f : KeyField}
    {p : MatchKeyParam} (hf : fs[i]? = some f) (hp : params[i]? = some p) :
    kb.fieldBytes i (layOut g fs params) = some (f.toKeyF, g f p) := by
  obtain ⟨hi, hfi⟩ := List.getElem?_eq_some_iff.mp hf
  obtain ⟨j, hji⟩ := exists_implOrder fs hi
  have hblock : (List.zipWith g (implFields fs) (implParams fs params))[j]? = some (g f p) := by
    rw [List.getElem?_zipWith, implFields, implParams, List.getElem?_map, List.getElem?_map, hji]
    simp [hf, hp]
  have hsizes := map_length_blocks hcheck hlen
  have hinput : kb.keyInput[j]? = some f.toKeyF := by
    rw [hb.keyInput, implFields, List.getElem?_map, List.getElem?_map, hji]
    simp [hf]
  have hnbytes : (g f p).length = f.toKeyF.nbytes := by
    have hsize := congrArg (·[j]?) hsizes
    simp only [List.getElem?_map, hblock, Option.map_some, implSizes, ← hb.keyInput, hinput] at hsize
    exact Option.some.inj hsize
  have hat := block_at_offset hblock
  rw [hsizes, hnbytes] at hat
  -- there is room for the field, since its bytes can be read
  obtain ⟨bytes, hbytes⟩ := fieldBytes_eq_some hb
    ((length_layOut hcheck hlen).trans hb.nbytesKey.symm) hi
  rw [hfi] at hbytes
  rw [hbytes]
  rw [fieldBytes, hb.keyMapping j i hji] at hbytes
  simp only [Option.bind_eq_bind, Option.bind_some, hinput, hb.keyOffsets j i hji] at hbytes
  split at hbytes
  · rw [← (Prod.mk.inj (Option.some.inj hbytes)).2, layOut, hat]
  · cases hbytes

/-! ## Canonical parameters -/

/-- The bits of a key that count: those behind the mask of a ternary parameter and, in the units
that keep masks, those of the prefix of an LPM parameter. -/
def keyMask (masked : Bool) (param : MatchKeyParam) : ByteContainer :=
  match param.type with
  | .ternary => param.mask
  | .lpm =>
      if masked then createMaskFromPrefLen param.prefixLength.toNat param.key.length
      else List.replicate param.key.length 0xff
  | _ => List.replicate param.key.length 0xff

/-- The key that an entry keeps for a parameter: the bits above the width of the field are cleared,
then the bits that do not count, then those outside the static mask. -/
def canonicalKey (masked : Bool) (f : KeyField) (param : MatchKeyParam) : ByteContainer :=
  andBytes (andBytes (paramBlock f.toKeyF.nbits param) (keyMask masked param)) f.maskBytes

/-- The parameter that an entry gives back, without the parts that its type does not use. -/
def canonicalParam (masked : Bool) (f : KeyField) (param : MatchKeyParam) : MatchKeyParam where
  type := param.type
  key := canonicalKey masked f param
  mask := if param.type = .ternary ∨ param.type = .range then param.mask else []
  prefixLength := if param.type = .lpm then param.prefixLength else 0

/-- The parameters that an entry gives back, in the order of the P4 key. -/
def canonicalParams (masked : Bool) (fs : List KeyField) (params : List MatchKeyParam) :
    List MatchKeyParam :=
  List.zipWith (canonicalParam masked) fs params

section Canonical

variable {masked : Bool} {f : KeyField} {p : MatchKeyParam}

theorem Fits.length_key (h : Fits fs f p) : p.key.length = f.toKeyF.nbytes :=
  length_key_of_paramOk h.2

theorem Fits.type_eq (h : Fits fs f p) : p.type = f.toKeyF.mtype := by
  have hok := h.2
  simp only [paramOk, Bool.and_eq_true, beq_iff_eq] at hok
  exact hok.1.1

theorem Fits.length_paramBlock (h : Fits fs f p) :
    (paramBlock f.toKeyF.nbits p).length = f.toKeyF.nbytes :=
  (MatchKeyBuilder.length_paramBlock _ p).trans h.length_key

theorem mtype_toKeyF (f : KeyField) : f.toKeyF.mtype = f.mtype := by
  rw [KeyField.toKeyF]
  split
  next hvalid => exact hvalid.symm
  next => rfl

theorem Fits.length_paramMask (h : Fits fs f p) : (paramMask p).length = f.toKeyF.nbytes :=
  length_paramMask_of_paramOk h.2 nbytes_toKeyF_of_valid

theorem Fits.length_mask (h : Fits fs f p) (htype : p.type = .ternary ∨ p.type = .range) :
    p.mask.length = f.toKeyF.nbytes := by
  have hmask := h.length_paramMask
  rw [paramMask] at hmask
  rcases htype with htype | htype
  · rwa [htype] at hmask
  · rwa [htype] at hmask

theorem Fits.prefixLength_le (h : Fits fs f p) (htype : p.type = .lpm) :
    0 ≤ p.prefixLength ∧ p.prefixLength ≤ f.toKeyF.nbits := by
  have hok := h.2
  simp only [paramOk, Bool.and_eq_true, htype] at hok
  exact of_decide_eq_true hok.2

theorem Fits.length_keyMask (h : Fits fs f p) (masked : Bool) : (keyMask masked p).length = f.toKeyF.nbytes := by
  rw [keyMask]
  split
  next htype => exact h.length_mask (Or.inl htype)
  next htype =>
    split
    · have hmask := h.length_paramMask
      rwa [paramMask, htype] at hmask
    · rw [List.length_replicate, h.length_key]
  next => rw [List.length_replicate, h.length_key]

/-- In the units that keep masks only a range is not masked. -/
theorem Fits.keyMask_of_not_range (h : Fits fs f p) (hrange : p.type ≠ .range) :
    keyMask true p = paramMask p := by
  rw [keyMask, paramMask]
  cases htype : p.type with
  | valid => simp [h.length_key, nbytes_toKeyF_of_valid (h.type_eq.symm.trans htype)]
  | exact => rfl
  | lpm => rfl
  | ternary => rfl
  | range => exact absurd htype hrange

/-- The canonical key is the key behind a mask that only depends on what the key is not. -/
theorem canonicalKey_eq (masked : Bool) (f : KeyField) (p : MatchKeyParam) :
    canonicalKey masked f p = andBytes p.key
      (andBytes (andBytes (widthMask f.toKeyF.nbits p.key.length) (keyMask masked p)) f.maskBytes) := by
  rw [canonicalKey, paramBlock_eq, andBytes_assoc, andBytes_assoc]
  exact congrArg _ (andBytes_assoc _ _ _).symm

theorem length_canonicalKey (masked : Bool) (hb : kb.Built fs) (h : Fits fs f p) :
    (canonicalKey masked f p).length = f.toKeyF.nbytes := by
  have hkey := h.length_key
  have hmask := h.length_keyMask masked
  rw [canonicalKey, length_andBytes, length_andBytes, length_paramBlock, hkey]
  · rw [length_paramBlock, hkey, hmask]
  · rw [length_andBytes, length_paramBlock, hkey, hb.length_mask f h.1]
    rw [length_paramBlock, hkey, hmask]

theorem keyMask_canonicalParam (hb : kb.Built fs) (h : Fits fs f p) :
    keyMask masked (canonicalParam masked f p) = keyMask masked p := by
  have hlength := (length_canonicalKey masked hb h).trans h.length_key.symm
  rw [keyMask, keyMask]
  cases htype : p.type <;> simp [canonicalParam, htype, hlength]

/-- A canonical key is its own canonical form. -/
theorem canonicalKey_canonicalParam (hb : kb.Built fs) (h : Fits fs f p) :
    canonicalKey masked f (canonicalParam masked f p) = canonicalKey masked f p := by
  have hlength := (length_canonicalKey masked hb h).trans h.length_key.symm
  rw [canonicalKey_eq, keyMask_canonicalParam hb h]
  change andBytes (canonicalKey masked f p) (andBytes (andBytes
    (widthMask f.toKeyF.nbits (canonicalKey masked f p).length) _) _) = _
  rw [hlength, canonicalKey_eq, andBytes_assoc, andBytes_self]

theorem paramMask_canonicalParam (hb : kb.Built fs) (h : Fits fs f p) :
    paramMask (canonicalParam masked f p) = paramMask p := by
  have hlength := (length_canonicalKey masked hb h).trans h.length_key.symm
  rw [paramMask, paramMask]
  cases htype : p.type <;> simp [canonicalParam, htype, hlength]

theorem paramPrefixLength_canonicalParam (masked : Bool) (hb : kb.Built fs) (h : Fits fs f p) :
    paramPrefixLength (canonicalParam masked f p) = paramPrefixLength p := by
  have hlength := (length_canonicalKey masked hb h).trans h.length_key.symm
  rw [paramPrefixLength, paramPrefixLength]
  cases htype : p.type <;> simp [canonicalParam, htype, hlength]

/-- Canonical parameters pass the sanity check: clearing bits only lowers the start of a range. -/
theorem fits_canonicalParam (hb : kb.Built fs) (h : Fits fs f p) :
    Fits fs f (canonicalParam masked f p) := by
  have hlength := length_canonicalKey masked hb h
  refine ⟨h.1, ?_⟩
  have hok := h.2
  simp only [paramOk, Bool.and_eq_true, beq_iff_eq] at hok ⊢
  refine ⟨⟨hok.1.1, hlength⟩, ?_⟩
  cases htype : p.type with
  | valid => simp [canonicalParam, htype]
  | exact => simp [canonicalParam, htype]
  | lpm =>
    rw [htype] at hok
    simpa [canonicalParam, htype] using hok.2
  | ternary =>
    rw [htype] at hok
    simpa [canonicalParam, htype] using hok.2
  | range =>
    rw [htype] at hok
    simp only [Bool.and_eq_true, beq_iff_eq, bne_iff_ne] at hok
    obtain ⟨-, hmask, hle⟩ := hok
    have hkey := h.length_key
    have hcmp : ∀ start : ByteContainer, start.length = f.toKeyF.nbytes →
        memcmp start p.mask f.toKeyF.nbytes = some (compare (beNat start) (beNat p.mask)) := by
      intro start hstart
      rw [memcmp_eq hstart.ge hmask.ge, ← hstart, List.take_length, hstart, ← hmask, List.take_length]
    have hlower : beNat (canonicalKey masked f p) ≤ beNat p.key := by
      rw [canonicalKey_eq]
      apply beNat_andBytes_le
      rw [length_andBytes, length_andBytes, length_widthMask]
      · rw [length_widthMask, h.length_keyMask, hkey]
      · rw [length_andBytes, length_widthMask, hkey, hb.length_mask f h.1]
        rw [length_widthMask, h.length_keyMask, hkey]
    simp only [canonicalParam, htype, or_true, if_true, Bool.and_eq_true, beq_iff_eq, bne_iff_ne]
    refine ⟨hmask, ?_⟩
    rw [hcmp _ hkey, ne_eq, Option.some.injEq, compare_gt_iff_gt, not_lt] at hle
    rw [hcmp _ hlength, ne_eq, Option.some.injEq, compare_gt_iff_gt, not_lt]
    exact hlower.trans hle

theorem implParams_canonicalParams (hlength : params.length = fs.length) :
    implParams fs (canonicalParams masked fs params) =
      List.zipWith (canonicalParam masked) (implFields fs) (implParams fs params) := by
  have hlt : ∀ i ∈ implOrder fs, i < fs.length := fun i => lt_of_mem_implOrder
  rw [implParams, implFields, implParams, List.zipWith_map, List.zipWith_self]
  refine List.map_congr_left fun i hi => ?_
  have hi' : i < params.length := hlength ▸ hlt i hi
  simp [canonicalParams, hlt i hi, hi']

theorem checked_canonicalParams (hb : kb.Built fs) (hlength : params.length = fs.length)
    (hcheck : Checked fs params) : Checked fs (canonicalParams masked fs params) := by
  rw [Checked, implParams_canonicalParams hlength]
  rw [Checked] at hcheck
  generalize implFields fs = fields, implParams fs params = ps at hcheck
  induction hcheck with
  | nil => exact .nil
  | cons hp _ ih => exact .cons (fits_canonicalParam hb hp) ih

/-- What is laid out for the canonical parameters. -/
theorem layOut_canonicalParams (hlength : params.length = fs.length) (hcheck : Checked fs params)
    (hg : ∀ f p, Fits fs f p → g f (canonicalParam masked f p) = g f p) :
    layOut g fs (canonicalParams masked fs params) = layOut g fs params := by
  rw [layOut, implParams_canonicalParams hlength, hcheck.zipWith_zipWith, hcheck.zipWith_congr hg, layOut]

theorem map_canonicalParams {α : Type} (masked : Bool) (hlength : params.length = fs.length)
    (hcheck : Checked fs params) {c : MatchKeyParam → α}
    (hc : ∀ f p, Fits fs f p → c (canonicalParam masked f p) = c p) :
    (implParams fs (canonicalParams masked fs params)).map c = (implParams fs params).map c := by
  rw [implParams_canonicalParams hlength, List.map_zipWith, hcheck.zipWith_congr hc,
    hcheck.zipWith_right]

/-- The keys of canonical parameters are as long as those of the parameters. -/
theorem key_ne_nil_canonicalParams (hb : kb.Built fs) (hlength : params.length = fs.length)
    (hcheck : Checked fs params) :
    (∀ p ∈ implParams fs (canonicalParams masked fs params), p.key ≠ []) ↔
      ∀ p ∈ implParams fs params, p.key ≠ [] := by
  have hmap := map_canonicalParams masked (c := fun p => p.key.length) hlength hcheck
    fun f p h => (length_canonicalKey _ hb h).trans h.length_key.symm
  have hiff : ∀ ps : List MatchKeyParam,
      (∀ p ∈ ps, p.key ≠ []) ↔ ∀ n ∈ ps.map fun p => p.key.length, n ≠ 0 := by
    intro ps
    simp [List.length_eq_zero_iff]
  rw [hiff, hiff, hmap]

/-! ## What is read back -/

theorem getElem?_canonicalParams {i : ℕ} (hf : fs[i]? = some f) (hp : params[i]? = some p) :
    (canonicalParams masked fs params)[i]? = some (canonicalParam masked f p) := by
  rw [canonicalParams, List.getElem?_zipWith, hf, hp]

/-- Every parameter of the P4 key fits its field. -/
theorem Checked.fits (hcheck : Checked fs params) {i : ℕ}
    (hf : fs[i]? = some f) (hp : params[i]? = some p) : Fits fs f p := by
  obtain ⟨hi, -⟩ := List.getElem?_eq_some_iff.mp hf
  obtain ⟨j, hji⟩ := exists_implOrder fs hi
  have hfield : (implFields fs)[j]? = some f := by
    rw [implFields, List.getElem?_map, hji]
    simp [hf]
  have hparam : (implParams fs params)[j]? = some p := by
    rw [implParams, List.getElem?_map, hji]
    simp [hp]
  obtain ⟨hj, rfl⟩ := List.getElem?_eq_some_iff.mp hfield
  obtain ⟨hj', rfl⟩ := List.getElem?_eq_some_iff.mp hparam
  exact hcheck.get hj hj'

/-- A conversion field by field gives a list when it gives the elements of the list. -/
theorem mapM_range_eq_some {α : Type} {c : ℕ → Option α} {l : List α} {n : ℕ} (hn : l.length = n)
    (hc : ∀ i < n, c i = l[i]?) : (List.range n).mapM c = some l := by
  subst hn
  induction l using List.reverseRecOn with
  | nil => rfl
  | append_singleton l a ih =>
    have hlast := hc l.length (by simp)
    rw [List.getElem?_concat_length] at hlast
    have hinit : (List.range l.length).mapM c = some l := by
      refine ih fun i hi => ?_
      rw [hc i (by rw [List.length_append]; omega), List.getElem?_append_left hi]
    rw [List.length_append, List.length_singleton, List.range_succ, List.mapM_append, hinit]
    simp [hlast]

/-- The masks of a ternary key are read back as the parts of its parameters that are not the key. -/
theorem ternaryEntryToMatchParams_layOut (hb : kb.Built fs) (hlength : params.length = fs.length)
    (hcheck : Checked fs params) {k : TernaryMatchKey}
    (hdata : k.data = layOut (canonicalKey true) fs params)
    (hmask : k.mask = layOut (fun _ p => paramMask p) fs params) :
    ternaryEntryToMatchParams kb k = some (canonicalParams true fs params) := by
  refine mapM_range_eq_some ?_ fun i hi => ?_
  · rw [canonicalParams, List.length_zipWith, hlength, hb.length_keyMapping, min_self]
  · rw [hb.length_keyMapping] at hi
    have hf := List.getElem?_eq_getElem hi
    have hp := List.getElem?_eq_getElem (hlength.symm ▸ hi : i < params.length)
    have hfits := hcheck.fits hf hp
    rw [getElem?_canonicalParams hf hp, hdata, hmask,
      fieldBytes_layOut hb hcheck (fun f p h => length_canonicalKey _ hb h) hf hp,
      fieldBytes_layOut hb hcheck (fun f p h => h.length_paramMask) hf hp]
    generalize fs[i] = f, params[i] = p at hfits
    have htype := hfits.type_eq
    simp only [Option.bind_eq_bind, Option.bind_some]
    cases hmtype : f.toKeyF.mtype with
    | valid => simp [canonicalParam, htype, hmtype]
    | exact => simp [canonicalParam, htype, hmtype]
    | range => simp [canonicalParam, htype, hmtype, paramMask]
    | ternary => simp [canonicalParam, htype, hmtype, paramMask]
    | lpm =>
      have hprefix := hfits.prefixLength_le (htype.trans hmtype)
      have hbits : f.toKeyF.nbits ≤ 8 * f.toKeyF.nbytes := by
        rw [KeyF.nbytes, nbitsToNbytes]
        omega
      have hpref : prefLenFromMask (paramMask p) = p.prefixLength := by
        rw [paramMask, htype, hmtype, prefLenFromMask_createMaskFromPrefLen]
        · exact Int.toNat_of_nonneg hprefix.1
        · rw [hfits.length_key]
          omega
      simp [canonicalParam, htype, hmtype, hpref]

/-- An exact key is read back when all its fields are exact. -/
theorem exactEntryToMatchParams_layOut (hb : kb.Built fs) (hlength : params.length = fs.length)
    (hcheck : Checked fs params) (hexact : ∀ f ∈ fs, f.mtype = .exact ∨ f.mtype = .valid) :
    exactEntryToMatchParams kb ⟨layOut (canonicalKey masked) fs params⟩ =
      some (canonicalParams masked fs params) := by
  refine mapM_range_eq_some ?_ fun i hi => ?_
  · rw [canonicalParams, List.length_zipWith, hlength, hb.length_keyMapping, min_self]
  · rw [hb.length_keyMapping] at hi
    have hf := List.getElem?_eq_getElem hi
    have hp := List.getElem?_eq_getElem (hlength.symm ▸ hi : i < params.length)
    have hfits := hcheck.fits hf hp
    rw [getElem?_canonicalParams hf hp,
      fieldBytes_layOut hb hcheck (fun f p h => length_canonicalKey _ hb h) hf hp]
    generalize fs[i] = f, params[i] = p at hfits
    have htype := hfits.type_eq
    have hmtype := mtype_toKeyF f
    simp only [Option.bind_eq_bind, Option.bind_some]
    rcases hexact f hfits.1 with hkind | hkind
    · simp [canonicalParam, htype, hmtype, hkind]
    · simp [canonicalParam, htype, hmtype, hkind]

/-! ## LPM keys -/

/-- The bits that a parameter adds to an LPM key besides its prefix length. -/
def otherBits (p : MatchKeyParam) : ℤ := if p.type = .lpm then 0 else 8 * p.key.length

theorem implParams_perm (hlength : params.length = fs.length) : (implParams fs params).Perm params := by
  have hmap := (implOrder_perm fs).map fun i => params.getD i default
  have hid : (List.range fs.length).map (fun i => params.getD i default) = params := by
    rw [← hlength]
    refine List.ext_getElem (by simp) fun i hi hi' => ?_
    simp [hi']
  rwa [hid] at hmap

/-- A list that is zero but for one place. -/
theorem sum_eq_of_zero {l : List ℤ} {idx : ℕ} {x : ℤ} (hx : l[idx]? = some x)
    (hzero : ∀ i y, l[i]? = some y → i ≠ idx → y = 0) : l.sum = x := by
  induction l generalizing idx with
  | nil => cases hx
  | cons a l ih =>
    cases idx with
    | zero =>
      obtain rfl : a = x := Option.some.inj hx
      have hrest : l.sum = 0 := by
        refine List.sum_eq_zero fun y hy => ?_
        obtain ⟨i, hi⟩ := List.mem_iff_getElem?.mp hy
        exact hzero (i + 1) y hi (Nat.succ_ne_zero i)
      rw [List.sum_cons, hrest, add_zero]
    | succ idx =>
      have hhead : a = 0 := hzero 0 a rfl (Nat.succ_ne_zero idx).symm
      rw [List.sum_cons, hhead, zero_add]
      refine ih hx fun i y hi hne => hzero (i + 1) y hi ?_
      omega

/-- What holds at one place at most. -/
theorem index_eq_of_countP_le_one {α : Type} {P : α → Bool} {l : List α} (hone : l.countP P ≤ 1)
    {i j : ℕ} {a b : α} (hi : l[i]? = some a) (hj : l[j]? = some b) (ha : P a = true)
    (hb : P b = true) : i = j := by
  induction l generalizing i j with
  | nil => cases hi
  | cons x l ih =>
    have hnone : ∀ {k : ℕ} {c : α}, P x = true → l[k]? = some c → P c ≠ true := by
      intro k c hx hk hc
      have hpos := List.countP_pos_iff.mpr ⟨c, List.mem_of_getElem? hk, hc⟩
      rw [List.countP_cons_of_pos hx] at hone
      omega
    cases i with
    | zero =>
      obtain rfl : x = a := Option.some.inj hi
      cases j with
      | zero => rfl
      | succ j => exact absurd hb (hnone ha hj)
    | succ i =>
      cases j with
      | zero =>
        obtain rfl : x = b := Option.some.inj hj
        exact absurd ha (hnone hb hi)
      | succ j =>
        have hle : l.countP P ≤ 1 := (List.sublist_cons_self x l).countP_le.trans hone
        rw [ih hle hi hj]

/-- The prefix length of an LPM key is the sum of what its parameters add. -/
theorem foldlM_prefixLength {ps : List MatchKeyParam} {x y : ℤ}
    (hfold : ps.foldlM (fun prefixLength param => (paramPrefixLength param).map (prefixLength + ·)) x =
      some y) :
    (∀ p ∈ ps, (paramPrefixLength p).isSome) ∧
      y = x + (ps.map fun p => (paramPrefixLength p).getD 0).sum := by
  induction ps generalizing x with
  | nil =>
    obtain rfl : x = y := by simpa using hfold
    simp
  | cons p ps ih =>
    rw [List.foldlM_cons, Option.bind_eq_bind, Option.bind_eq_some_iff] at hfold
    obtain ⟨x', hx', hfold⟩ := hfold
    obtain ⟨d, hd, rfl⟩ := Option.map_eq_some_iff.mp hx'
    obtain ⟨hsome, rfl⟩ := ih hfold
    refine ⟨?_, ?_⟩
    · intro q hq
      rcases List.mem_cons.mp hq with rfl | hq
      · rw [hd, Option.isSome_some]
      · exact hsome q hq
    · rw [List.map_cons, List.sum_cons, hd, Option.getD_some, add_assoc]

/-- The loop of `entry_to_match_params` for LPM keys, over fields that are read back as `cs` and of
which at most one is an LPM field. -/
theorem lpmLoop {cs : List MatchKeyParam} {data : ByteContainer} (total : ℤ)
    (hread : ∀ i p, cs[i]? = some p → ∃ fInfo, kb.fieldBytes i data = some (fInfo, p.key) ∧
      fInfo.mtype = p.type ∧ fInfo.nbytes = p.key.length ∧ p.mask = [] ∧ p.type ≠ .ternary)
    (hone : ∀ (i j : ℕ) (p q : MatchKeyParam), cs[i]? = some p → cs[j]? = some q → p.type = .lpm →
      q.type = .lpm → i = j) {n : ℕ} (hn : n ≤ cs.length) :
    ∃ idx, (List.range n).foldlM (fun (params, lpmIdx, pref) i => do
        let (fInfo, bytes) ← kb.fieldBytes i data
        if fInfo.mtype = .ternary then none
        else
          let params := params ++ [{ type := fInfo.mtype, key := bytes : MatchKeyParam }]
          if fInfo.mtype = .lpm then some (params, i, pref)
          else some (params, lpmIdx, pref - 8 * (fInfo.nbytes : ℤ)))
        (([] : List MatchKeyParam), 0, total) =
        some ((cs.take n).map fun p => { p with prefixLength := 0 }, idx,
          total - ((cs.take n).map otherBits).sum) ∧
      (idx = 0 ∨ idx < n) ∧
      ∀ (i : ℕ) (p : MatchKeyParam), i < n → cs[i]? = some p → p.type = .lpm → i = idx := by
  induction n with
  | zero => exact ⟨0, by simp, Or.inl rfl, fun i _ hi => absurd hi i.not_lt_zero⟩
  | succ n ih =>
    obtain ⟨idx, hfold, hidx, hlpm⟩ := ih (by omega)
    have hp : cs[n]? = some cs[n] := List.getElem?_eq_getElem (by omega)
    obtain ⟨fInfo, hbytes, htype, hnbytes, hmask, hternary⟩ := hread n _ hp
    have hbare : ({ type := fInfo.mtype, key := cs[n].key } : MatchKeyParam) =
        { cs[n] with prefixLength := 0 } := by
      rw [htype, ← hmask]
    rw [List.range_succ, List.foldlM_append, hfold]
    simp only [Option.bind_eq_bind, Option.bind_some, List.foldlM_cons, List.foldlM_nil, hbytes,
      htype, if_neg hternary]
    rw [← htype, hbare, List.take_succ_eq_append_getElem (by omega), List.map_append,
      List.map_append, List.sum_append]
    by_cases hkind : fInfo.mtype = .lpm
    · refine ⟨n, ?_, Or.inr n.lt_succ_self, fun i p hi hcs hptype => ?_⟩
      · rw [if_pos hkind]
        simp [otherBits, ← htype, hkind]
      · exact hone i n p _ hcs hp hptype (htype.symm.trans hkind)
    · refine ⟨idx, ?_, hidx.imp_right fun h => by omega, fun i p hi hcs hptype => ?_⟩
      · rw [if_neg hkind]
        simp only [Option.pure_def, Option.bind_some, Option.some.injEq, Prod.mk.injEq, true_and]
        refine ⟨rfl, ?_⟩
        rw [List.map_singleton, List.sum_singleton, otherBits, ← htype, if_neg hkind, hnbytes]
        ring
      · rcases Nat.lt_succ_iff_lt_or_eq.mp hi with hi | rfl
        · exact hlpm i p hi hcs hptype
        · obtain rfl : cs[i] = p := Option.some.inj (hp.symm.trans hcs)
          exact absurd (htype.trans hptype) hkind

/-- An LPM key is read back when at most one of its fields is an LPM field: the prefix length that
the others leave is its own. -/
theorem lpmEntryToMatchParams_layOut (hb : kb.Built fs) (hlength : params.length = fs.length)
    (hcheck : Checked fs params) (hne : fs ≠ []) (hone : fs.countP (fun f => f.mtype = .lpm) ≤ 1)
    {prefixLength : ℤ}
    (hfold : (implParams fs params).foldlM
      (fun prefixLength param => (paramPrefixLength param).map (prefixLength + ·)) 0 =
        some prefixLength) :
    lpmEntryToMatchParams kb ⟨layOut (canonicalKey false) fs params, prefixLength⟩ =
      some (canonicalParams false fs params) := by
  obtain ⟨hsome, htotal⟩ := foldlM_prefixLength hfold
  set cs := canonicalParams false fs params with hcs
  have hlen : cs.length = fs.length := by
    rw [hcs, canonicalParams, List.length_zipWith, hlength, min_self]
  -- every parameter stems from its field
  have hfield : ∀ (i : ℕ) (p : MatchKeyParam), cs[i]? = some p → ∃ f q, fs[i]? = some f ∧ params[i]? = some q ∧
      Fits fs f q ∧ p = canonicalParam false f q := by
    intro i p hp
    obtain ⟨hi, -⟩ := List.getElem?_eq_some_iff.mp hp
    have hf := List.getElem?_eq_getElem (hlen ▸ hi : i < fs.length)
    have hq := List.getElem?_eq_getElem (by omega : i < params.length)
    refine ⟨_, _, hf, hq, hcheck.fits hf hq, ?_⟩
    exact Option.some.inj (hp.symm.trans (getElem?_canonicalParams hf hq))
  have hkinds : ∀ (i : ℕ) (q : MatchKeyParam), params[i]? = some q → (paramPrefixLength q).isSome := by
    intro i q hq
    exact hsome q ((implParams_perm hlength).mem_iff.mpr (List.mem_of_getElem? hq))
  have hread : ∀ (i : ℕ) (p : MatchKeyParam), cs[i]? = some p → ∃ fInfo,
      kb.fieldBytes i (layOut (canonicalKey false) fs params) = some (fInfo, p.key) ∧
        fInfo.mtype = p.type ∧ fInfo.nbytes = p.key.length ∧ p.mask = [] ∧ p.type ≠ .ternary := by
    intro i p hp
    obtain ⟨f, q, hf, hq, hfits, rfl⟩ := hfield i p hp
    have hkind := hkinds i q hq
    refine ⟨f.toKeyF, fieldBytes_layOut hb hcheck (fun f p h => length_canonicalKey _ hb h) hf hq,
      hfits.type_eq.symm, (length_canonicalKey _ hb hfits).symm, ?_, ?_⟩
    · rw [paramPrefixLength] at hkind
      cases htype : q.type <;> simp_all [canonicalParam]
    · rw [paramPrefixLength] at hkind
      cases htype : q.type <;> simp_all [canonicalParam]
  have hone' : ∀ (i j : ℕ) (p q : MatchKeyParam), cs[i]? = some p → cs[j]? = some q →
      p.type = .lpm → q.type = .lpm → i = j := by
    intro i j p q hp hq hptype hqtype
    obtain ⟨f, p', hf, hp', hfits, rfl⟩ := hfield i p hp
    obtain ⟨f', q', hf', hq', hfits', rfl⟩ := hfield j q hq
    have hlpm : f.mtype = .lpm := (mtype_toKeyF f).symm.trans (hfits.type_eq.symm.trans hptype)
    have hlpm' : f'.mtype = .lpm := (mtype_toKeyF f').symm.trans (hfits'.type_eq.symm.trans hqtype)
    exact index_eq_of_countP_le_one hone hf hf' (decide_eq_true hlpm) (decide_eq_true hlpm')
  have hbits : ∀ p ∈ cs, (paramPrefixLength p).getD 0 = p.prefixLength + otherBits p := by
    intro p hp
    obtain ⟨i, hi⟩ := List.mem_iff_getElem?.mp hp
    obtain ⟨f, q, hf, hq, hfits, rfl⟩ := hfield i p hi
    have hkind := hkinds i q hq
    have hlength := length_canonicalKey false hb hfits
    rw [← paramPrefixLength_canonicalParam false hb hfits] at hkind
    rw [otherBits]
    cases htype : q.type with
    | valid =>
      have hone := nbytes_toKeyF_of_valid (hfits.type_eq.symm.trans htype)
      simp [paramPrefixLength, canonicalParam, htype, hlength, hone]
    | exact => simp [paramPrefixLength, canonicalParam, htype]
    | lpm => simp [paramPrefixLength, canonicalParam, htype]
    | range => simp [paramPrefixLength, canonicalParam, htype] at hkind
    | ternary => simp [paramPrefixLength, canonicalParam, htype] at hkind
  have hsum : prefixLength - (cs.map otherBits).sum = (cs.map MatchKeyParam.prefixLength).sum := by
    have hmap := map_canonicalParams false (c := fun p => (paramPrefixLength p).getD 0)
      hlength hcheck fun f p h => by rw [paramPrefixLength_canonicalParam _ hb h]
    have hcsPerm : (implParams fs cs).Perm cs := implParams_perm hlen
    have hperm := (hcsPerm.map fun p => (paramPrefixLength p).getD 0).sum_eq
    have htotal' : prefixLength = (cs.map fun p => p.prefixLength + otherBits p).sum := by
      rw [htotal, zero_add, ← hmap, hperm]
      exact congrArg List.sum (List.map_congr_left hbits)
    rw [htotal', List.sum_map_add]
    ring
  obtain ⟨idx, hloop, hidx, hlpm⟩ := lpmLoop prefixLength hread hone' le_rfl
  have hpos : 0 < cs.length := by
    rw [hlen]
    exact List.length_pos_iff.mpr hne
  have hidx' : idx < cs.length := by omega
  -- only the LPM field has a prefix length
  have hpref : prefixLength - (cs.map otherBits).sum = cs[idx].prefixLength := by
    rw [hsum]
    have hx : (cs.map MatchKeyParam.prefixLength)[idx]? = some cs[idx].prefixLength := by simp [hidx']
    refine sum_eq_of_zero hx fun i y hy hne => ?_
    rw [List.getElem?_map, Option.map_eq_some_iff] at hy
    obtain ⟨p, hp, rfl⟩ := hy
    have hlt := (List.getElem?_eq_some_iff.mp hp).1
    have hnot : p.type ≠ .lpm := fun htype => hne (hlpm i p hlt hp htype)
    obtain ⟨f, q, -, -, -, rfl⟩ := hfield i p hp
    exact if_neg hnot
  rw [List.take_length] at hloop
  rw [lpmEntryToMatchParams, hb.length_keyMapping, ← hlen, hloop]
  simp only [Option.bind_eq_bind, Option.bind_some, hpref]
  rw [List.getElem?_map, List.getElem?_eq_getElem hidx']
  refine congrArg some (List.ext_getElem? fun i => ?_)
  rw [List.getElem?_set]
  split
  next heq =>
    subst heq
    rw [if_pos (by simpa using hidx'), List.getElem?_eq_getElem hidx']
  next hne =>
    rw [List.getElem?_map]
    cases hp : cs[i]? with
    | none => rfl
    | some p =>
      have hlt := (List.getElem?_eq_some_iff.mp hp).1
      have hnot : p.type ≠ .lpm := fun htype => hne (hlpm i p hlt hp htype).symm
      obtain ⟨f, q, -, -, -, rfl⟩ := hfield i p hp
      have hzero : (canonicalParam false f q).prefixLength = 0 := if_neg hnot
      rw [Option.map_some, ← hzero]

end Canonical

end MatchKeyBuilder

end Bm
