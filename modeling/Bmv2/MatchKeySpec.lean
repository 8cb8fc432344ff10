/-
# What a key layout contains

For a builder made from a list of fields: the order that `build` puts the fields in, the
static mask over the whole key, and the shape of the entry that match parameters become.
-/
import Bmv2.MatchKey

namespace Bm

/-- The field as the builder records it. -/
def KeyField.toKeyF (f : KeyField) : KeyF :=
  if f.mtype = .valid then ⟨f.header, 0, .valid, 8⟩ else ⟨f.header, f.fOffset, f.mtype, f.nbits⟩

/-- The static mask of the field over its bytes. -/
def KeyField.maskBytes (f : KeyField) : ByteContainer :=
  if f.mtype = .valid then [0xff] else f.mask.getD (List.replicate (nbitsToNbytes f.nbits) 0xff)

/-- The field comes with a static mask. -/
def KeyField.hasMask (f : KeyField) : Bool := decide (f.mtype ≠ .valid) && f.mask.isSome

namespace MatchKeyBuilder

/-! ## Pushing fields -/

/-- The builder after the fields `fs` have been pushed. -/
structure Pushed (kb : MatchKeyBuilder) (fs : List KeyField) : Prop where
  keyInput : kb.keyInput = fs.map KeyField.toKeyF
  nbytesKey : kb.nbytesKey = ((fs.map KeyField.toKeyF).map KeyF.nbytes).sum
  masks : kb.masks = fs.map KeyField.maskBytes
  hasBigMask : kb.hasBigMask = fs.any KeyField.hasMask
  length_mask : ∀ f ∈ fs, f.maskBytes.length = f.toKeyF.nbytes
  built : kb.built = false

/-- All three ways to push a field append it with its mask. -/
theorem pushField_eq (kb : MatchKeyBuilder) (f : KeyField) :
    kb.pushField f =
      if f.maskBytes.length = f.toKeyF.nbytes then
        some { kb.pushBack f.toKeyF f.maskBytes with hasBigMask := kb.hasBigMask || f.hasMask }
      else none := by
  obtain ⟨header, fOffset, mtype, nbits, mask⟩ := f
  cases mtype <;> cases mask <;>
    simp [pushField, KeyField.maskBytes, KeyField.toKeyF, KeyField.hasMask, pushBackValidHeader,
      pushBackField, pushBackFieldMask, pushBack, KeyF.nbytes, nbitsToNbytes] <;>
    rfl

theorem pushed_pushField {kb kb' : MatchKeyBuilder} {fs : List KeyField} {f : KeyField}
    (h : kb.Pushed fs) (hpush : kb.pushField f = some kb') : kb'.Pushed (fs ++ [f]) := by
  rw [pushField_eq] at hpush
  split at hpush
  · rename_i hlen
    cases hpush
    refine ⟨?_, ?_, ?_, ?_, ?_, h.built⟩
    · simp [pushBack, h.keyInput]
    · simp [pushBack, h.nbytesKey]
    · simp [pushBack, h.masks]
    · simp [h.hasBigMask]
    · intro g hg
      rcases List.mem_append.mp hg with hg | hg
      · exact h.length_mask g hg
      · rw [List.mem_singleton.mp hg]
        exact hlen
  · cases hpush

theorem pushed_foldlM {kb kb' : MatchKeyBuilder} {fs gs : List KeyField} (h : kb.Pushed fs)
    (hpush : gs.foldlM pushField kb = some kb') : kb'.Pushed (fs ++ gs) := by
  induction gs generalizing kb fs with
  | nil =>
    obtain rfl : kb = kb' := by simpa using hpush
    simpa using h
  | cons g gs ih =>
    rw [List.foldlM_cons, Option.bind_eq_bind, Option.bind_eq_some_iff] at hpush
    obtain ⟨kb₁, hg, hgs⟩ := hpush
    simpa using ih (pushed_pushField h hg) hgs

theorem pushed_of_ofFields {kb : MatchKeyBuilder} {fs : List KeyField}
    (h : ofFields fs = some kb) : kb.Pushed fs :=
  have hempty : Pushed {} [] := ⟨rfl, rfl, rfl, rfl, by simp, rfl⟩
  pushed_foldlM hempty h

/-! ## The layout -/

/-- The positions of the fields in the P4 key, in the order of the implementation. -/
def implOrder (fs : List KeyField) : List ℕ :=
  buildInvMapping (fs.map KeyField.toKeyF)

/-- The fields in the order of the implementation. -/
def implFields (fs : List KeyField) : List KeyField :=
  (implOrder fs).map fun i => fs.getD i ⟨0, 0, .range, 0, none⟩

theorem implOrder_perm (fs : List KeyField) : (implOrder fs).Perm (List.range fs.length) := by
  rw [implOrder, buildInvMapping, List.length_map]
  exact List.perm_insertionSort _ _

@[simp] theorem length_implOrder (fs : List KeyField) : (implOrder fs).length = fs.length := by
  simpa using (implOrder_perm fs).length_eq

theorem lt_of_mem_implOrder {fs : List KeyField} {i : ℕ} (hi : i ∈ implOrder fs) : i < fs.length := by
  simpa using (implOrder_perm fs).mem_iff.mp hi

/-- The order of the implementation only permutes the fields. -/
theorem implFields_perm (fs : List KeyField) : (implFields fs).Perm fs := by
  have hmap := (implOrder_perm fs).map fun i => fs.getD i ⟨0, 0, .range, 0, none⟩
  have hid : (List.range fs.length).map (fun i => fs.getD i ⟨0, 0, .range, 0, none⟩) = fs := by
    apply List.ext_getElem?
    intro i
    by_cases hi : i < fs.length
    · simp [hi]
    · simp [hi]
  rw [hid] at hmap
  exact hmap

/-- The bytes of the fields, in the order of the implementation. -/
def implSizes (fs : List KeyField) : List ℕ :=
  ((implFields fs).map KeyField.toKeyF).map KeyF.nbytes

@[simp] theorem length_implFields (fs : List KeyField) : (implFields fs).length = fs.length :=
  (implFields_perm fs).length_eq

/-- `key_mapping` inverts the order of the implementation. -/
theorem getElem?_keyMapping (fs : List KeyField) {j i : ℕ} (hji : (implOrder fs)[j]? = some i) :
    (buildKeyMapping (implOrder fs))[i]? = some j := by
  have hnodup : (implOrder fs).Nodup := (implOrder_perm fs).nodup_iff.mpr List.nodup_range
  have hget : ∀ {k}, k < fs.length → (implOrder fs)[k]? = some ((implOrder fs).getD k 0) := by
    intro k hk
    simp [hk]
  obtain ⟨hj, -⟩ := List.getElem?_eq_some_iff.mp hji
  rw [length_implOrder] at hj
  have hpos : (implOrder fs).getD j 0 = i := by
    rw [List.getD_eq_getElem?_getD, hji, Option.getD_some]
  rw [← hpos, buildKeyMapping]
  refine getElem?_foldl_set _ id _ (fun k hk l hl hkl => ?_) ?_ ?_
  · have hk' := hget (lt_of_mem_implOrder hk)
    have hl' := hget (lt_of_mem_implOrder hl)
    rw [hkl, ← hl'] at hk'
    exact (List.getElem?_inj (by simpa using lt_of_mem_implOrder hk) hnodup).mp hk'
  · exact (implOrder_perm fs).mem_iff.mpr (by simpa using hj)
  · rw [hpos, List.length_replicate, length_implOrder]
    exact lt_of_mem_implOrder (List.mem_of_getElem? hji)

@[simp] theorem length_keyMapping (fs : List KeyField) :
    (buildKeyMapping (implOrder fs)).length = fs.length := by
  simp [buildKeyMapping]

theorem getElem?_keyOffsets (fs : List KeyField) {j i : ℕ} (hji : (implOrder fs)[j]? = some i) :
    (buildKeyOffsets ((implFields fs).map KeyField.toKeyF) (buildKeyMapping (implOrder fs)))[i]? =
      some ((implSizes fs).take j).sum := by
  have hj : j < (implSizes fs).length := by
    simpa [implSizes] using (List.getElem?_eq_some_iff.mp hji).1
  rw [buildKeyOffsets, List.getElem?_map, getElem?_keyMapping fs hji, Option.map_some,
    List.getD_eq_getElem?_getD]
  change some ((blockOffsets (implSizes fs) 0)[j]?.getD 0) = _
  rw [getElem?_blockOffsets _ _ hj, Option.getD_some, Nat.zero_add]

/-- Every position of the P4 key has a position in the implementation. -/
theorem exists_implOrder (fs : List KeyField) {i : ℕ} (hi : i < fs.length) :
    ∃ j : ℕ, (implOrder fs)[j]? = some i :=
  List.mem_iff_getElem?.mp ((implOrder_perm fs).mem_iff.mpr (List.mem_range.mpr hi))

/-- The mask over the whole key is the concatenation of the masks of the fields. -/
theorem buildBigMask_eq (fs : List KeyField)
    (hmask : ∀ f ∈ fs, f.maskBytes.length = f.toKeyF.nbytes) :
    buildBigMask (implSizes fs).sum
        (buildKeyOffsets ((implFields fs).map KeyField.toKeyF) (buildKeyMapping (implOrder fs)))
        (fs.map KeyField.maskBytes) =
      ((implFields fs).map KeyField.maskBytes).flatten := by
  have hzero : List.replicate (implSizes fs).sum (0 : Byte) =
      ((implSizes fs).map fun n => List.replicate n 0).flatten := by
    induction implSizes fs with
    | nil => rfl
    | cons n ns ih => rw [List.sum_cons, List.replicate_add, ih, List.map_cons, List.flatten_cons]
  have hpos : ∀ {j i : ℕ}, (implOrder fs)[j]? = some i →
      (buildKeyMapping (implOrder fs)).getD i 0 = j := by
    intro j i hji
    rw [List.getD_eq_getElem?_getD, getElem?_keyMapping fs hji, Option.getD_some]
  have hsize : ∀ {j i : ℕ}, (implOrder fs)[j]? = some i →
      (implSizes fs)[j]? = some ((fs.map KeyField.maskBytes).getD i []).length := by
    intro j i hji
    have hi := lt_of_mem_implOrder (List.mem_of_getElem? hji)
    rw [implSizes, implFields, List.map_map, List.map_map, List.getElem?_map, hji]
    simp [hi, hmask fs[i] (List.getElem_mem hi)]
  rw [buildBigMask, hzero, List.foldl_ext (g := fun arr i =>
    copyAt arr ((implSizes fs).take ((buildKeyMapping (implOrder fs)).getD i 0)).sum
      ((fs.map KeyField.maskBytes).getD i []))]
  · rw [foldl_copyAt _ _ _ _ (implSizes fs)]
    · congr 1
      apply List.ext_getElem?
      intro j
      by_cases hj : j < fs.length
      · obtain ⟨i, hji⟩ : ∃ i, (implOrder fs)[j]? = some i := ⟨_, List.getElem?_eq_getElem (by simpa)⟩
        have hi := lt_of_mem_implOrder (List.mem_of_getElem? hji)
        have hread := getElem?_foldl_set (fun i => (buildKeyMapping (implOrder fs)).getD i 0)
          (fun i => (fs.map KeyField.maskBytes).getD i []) (List.range (buildKeyOffsets
            ((implFields fs).map KeyField.toKeyF) (buildKeyMapping (implOrder fs))).length)
          (l := (implSizes fs).map fun n => List.replicate n 0) (i := i) ?_ ?_ ?_
        · rw [hpos hji] at hread
          rw [hread, implFields, List.map_map, List.getElem?_map, hji]
          simp [hi]
        · intro k hk l hl hkl
          obtain ⟨jk, hjk⟩ := exists_implOrder fs (i := k) (by simpa [buildKeyOffsets] using hk)
          obtain ⟨jl, hjl⟩ := exists_implOrder fs (i := l) (by simpa [buildKeyOffsets] using hl)
          simp only [hpos hjk, hpos hjl] at hkl
          rw [hkl, hjl] at hjk
          exact (Option.some.inj hjk).symm
        · simpa [buildKeyOffsets] using hi
        · rw [hpos hji]
          simpa [implSizes] using hj
      · rw [List.getElem?_eq_none (by simpa [implSizes] using hj),
          List.getElem?_eq_none (by simpa using hj)]
    · simp [Function.comp_def]
    · intro i hi
      obtain ⟨j, hji⟩ := exists_implOrder fs (i := i) (by simpa [buildKeyOffsets] using hi)
      rw [hpos hji]
      exact hsize hji
  · intro arr i hi
    obtain ⟨j, hji⟩ := exists_implOrder fs (i := i) (by simpa [buildKeyOffsets] using hi)
    rw [List.getD_eq_getElem?_getD, getElem?_keyOffsets fs hji, hpos hji, Option.getD_some]

/-- The builder after `build`, for the fields `fs`. -/
structure Built (kb : MatchKeyBuilder) (fs : List KeyField) : Prop where
  length_mask : ∀ f ∈ fs, f.maskBytes.length = f.toKeyF.nbytes
  invMapping : kb.invMapping = implOrder fs
  keyInput : kb.keyInput = (implFields fs).map KeyField.toKeyF
  nbytesKey : kb.nbytesKey = (implSizes fs).sum
  bigMask : kb.bigMask = ((implFields fs).map KeyField.maskBytes).flatten
  hasBigMask : kb.hasBigMask = fs.any KeyField.hasMask
  length_keyMapping : kb.keyMapping.length = fs.length
  keyMapping : ∀ j i : ℕ, (implOrder fs)[j]? = some i → kb.keyMapping[i]? = some j
  keyOffsets : ∀ j i : ℕ, (implOrder fs)[j]? = some i →
    kb.keyOffsets[i]? = some ((implSizes fs).take j).sum

theorem built_of_pushed {kb : MatchKeyBuilder} {fs : List KeyField} (h : kb.Pushed fs) :
    kb.build.Built fs := by
  have hinv : buildInvMapping kb.keyInput = implOrder fs := by rw [h.keyInput, implOrder]
  have hinput : (implOrder fs).map (fun idx => kb.keyInput.getD idx default) =
      (implFields fs).map KeyField.toKeyF := by
    rw [implFields, List.map_map]
    refine List.map_congr_left fun i hi => ?_
    have hlt := lt_of_mem_implOrder hi
    simp [h.keyInput, hlt]
  have hnbytes : kb.nbytesKey = (implSizes fs).sum := by
    rw [h.nbytesKey]
    exact ((((implFields_perm fs).map KeyField.toKeyF).map KeyF.nbytes).sum_eq).symm
  rw [build, if_neg (by simp [h.built])]
  simp only [hinv, hinput]
  exact {
    length_mask := h.length_mask
    invMapping := rfl
    keyInput := rfl
    nbytesKey := hnbytes
    bigMask := by rw [hnbytes, h.masks]; exact buildBigMask_eq fs h.length_mask
    hasBigMask := h.hasBigMask
    length_keyMapping := length_keyMapping fs
    keyMapping := fun _ _ => getElem?_keyMapping fs
    keyOffsets := fun _ _ => getElem?_keyOffsets fs }

/-! ## Checked parameters -/

/-- The parameters in the order of the implementation. -/
def implParams (fs : List KeyField) (params : List MatchKeyParam) : List MatchKeyParam :=
  (implOrder fs).map fun pi => params.getD pi default

variable {kb : MatchKeyBuilder} {fs : List KeyField}

/-- The sanity check looks at every parameter next to its field. -/
theorem matchParamsSanityCheck_iff (hb : kb.Built fs) (params : List MatchKeyParam) :
    kb.matchParamsSanityCheck params = true ↔
      params.length = fs.length ∧
        List.Forall₂ (fun f param => paramOk param f.toKeyF = true) (implFields fs)
          (implParams fs params) := by
  have hinput : kb.keyInput.length = fs.length := by rw [hb.keyInput]; simp
  rw [matchParamsSanityCheck, Bool.and_eq_true, beq_iff_eq, hinput]
  refine and_congr_right fun hlen => ?_
  rw [hb.invMapping, hb.keyInput, implFields, implParams, List.map_map, List.forall₂_map_left_iff,
    List.forall₂_map_right_iff]
  have hlt : ∀ pi ∈ implOrder fs, pi < params.length := fun pi hpi => hlen ▸ lt_of_mem_implOrder hpi
  revert hlt
  induction implOrder fs with
  | nil => simp
  | cons pi order ih =>
    intro hlt
    have hpi := hlt pi (by simp)
    have hrest := ih fun k hk => hlt k (List.mem_cons_of_mem _ hk)
    rw [List.map_cons, List.zip_cons_cons, List.all_cons, Bool.and_eq_true, List.forall₂_cons]
    exact and_congr (by simp [hpi]) hrest

/-! ## The shape of an entry -/

/-- What a parameter contributes to the data of a key. -/
def paramBlock (nbits : ℕ) (param : MatchKeyParam) : ByteContainer :=
  param.key.modify 0 (· &&& getByte0Mask nbits)

/-- The data of a key before any mask. -/
def paramData (fs : List KeyField) (params : List MatchKeyParam) : ByteContainer :=
  (List.zipWith (fun f param => paramBlock f.toKeyF.nbits param) (implFields fs)
    (implParams fs params)).flatten

theorem appendParamKey_eq (data key : ByteContainer) (nbits : ℕ) :
    appendParamKey data data.length key nbits =
      if key = [] then none
      else some (data ++ key.modify 0 (· &&& getByte0Mask nbits)) := by
  cases key with
  | nil => simp [appendParamKey]
  | cons b bs =>
    rw [appendParamKey, if_pos (by simp), if_neg (by simp),
      List.modify_eq_take_cons_drop (by simp)]
    simp

/-- The loop of `match_params_to_entry` concatenates the blocks of the parameters. -/
theorem paramLoop_eq {X : Type} {params : List MatchKeyParam} (upd : X → MatchKeyParam → Option X)
    {l : List (ℕ × KeyF)} {ps : List MatchKeyParam}
    (hps : List.Forall₂ (fun e p => params[e.1]? = some p) l ps) (data : ByteContainer) (x : X) :
    paramLoop params upd l data data.length x =
      if ∀ p ∈ ps, p.key ≠ [] then
        (ps.foldlM upd x).map fun x =>
          (data ++ (List.zipWith (fun e p => paramBlock e.2.nbits p) l ps).flatten, x)
      else none := by
  induction hps generalizing data x with
  | nil => simp [paramLoop]
  | @cons e p l ps hp hps ih =>
    obtain ⟨pi, f⟩ := e
    rw [paramLoop, hp]
    simp only [Option.bind_eq_bind, Option.bind_some, appendParamKey_eq, List.forall_mem_cons]
    by_cases hkey : p.key = []
    · simp [hkey]
    · rw [if_neg hkey, Option.bind_some, List.foldlM_cons]
      cases upd x p with
      | none => simp
      | some x' =>
        have hlen : data.length + p.key.length = (data ++ paramBlock f.nbits p).length := by
          simp [paramBlock]
        rw [Option.bind_some, hlen]
        change paramLoop params upd l (data ++ paramBlock f.nbits p) _ x' = _
        rw [ih]
        simp [hkey]

/-- The loop over the parameters of a table. -/
theorem paramLoop_of_length (hb : kb.Built fs) {X : Type} {params : List MatchKeyParam}
    (hlen : params.length = fs.length) (upd : X → MatchKeyParam → Option X) (x : X) :
    paramLoop params upd (kb.invMapping.zip kb.keyInput) [] 0 x =
      if ∀ p ∈ implParams fs params, p.key ≠ [] then
        ((implParams fs params).foldlM upd x).map fun x => (paramData fs params, x)
      else none := by
  have hlt : ∀ pi ∈ implOrder fs, pi < params.length := fun pi hpi => hlen ▸ lt_of_mem_implOrder hpi
  have hps : List.Forall₂ (fun (e : ℕ × KeyF) p => params[e.1]? = some p)
      (kb.invMapping.zip kb.keyInput) (implParams fs params) := by
    rw [hb.invMapping, hb.keyInput, implFields, implParams, List.map_map]
    revert hlt
    induction implOrder fs with
    | nil => simp
    | cons pi order ih =>
      intro hlt
      refine List.Forall₂.cons ?_ (ih fun k hk => hlt k (List.mem_cons_of_mem _ hk))
      simp [hlt pi (by simp)]
  have hdata : (List.zipWith (fun (e : ℕ × KeyF) p => paramBlock e.2.nbits p)
      (kb.invMapping.zip kb.keyInput) (implParams fs params)).flatten = paramData fs params := by
    rw [paramData, hb.invMapping, hb.keyInput, implFields, implParams, List.map_map]
    congr 1
    induction implOrder fs with
    | nil => rfl
    | cons pi order ih =>
      simp only [List.map_cons, List.zip_cons_cons, List.zipWith_cons_cons, ih]
      rfl
  have hloop := paramLoop_eq upd hps [] x
  simp only [List.length_nil, List.nil_append, hdata] at hloop
  exact hloop

/-! ## Sizes -/

/-- Every checked parameter has the size of its field. -/
theorem length_key_of_paramOk {param : MatchKeyParam} {f : KeyF} (h : paramOk param f = true) :
    param.key.length = f.nbytes := by
  simp only [paramOk, Bool.and_eq_true, beq_iff_eq] at h
  exact h.1.2

theorem length_createMaskFromPrefLen {prefixLength size : ℕ} (h : prefixLength / 8 ≤ size) :
    (createMaskFromPrefLen prefixLength size).length = size := by
  rw [createMaskFromPrefLen]
  split <;> simp <;> omega

theorem length_paramMask_of_paramOk {param : MatchKeyParam} {f : KeyF} (h : paramOk param f = true)
    (hvalid : f.mtype = .valid → f.nbytes = 1) : (paramMask param).length = f.nbytes := by
  have hkey := length_key_of_paramOk h
  simp only [paramOk, Bool.and_eq_true, beq_iff_eq] at h
  obtain ⟨⟨htype, -⟩, hrest⟩ := h
  rw [paramMask]
  cases hp : param.type with
  | valid => simp [hvalid (htype ▸ hp)]
  | exact => simp [hkey]
  | lpm =>
    rw [hp] at hrest
    simp only [decide_eq_true_eq] at hrest
    rw [length_createMaskFromPrefLen, hkey]
    rw [hkey, KeyF.nbytes, nbitsToNbytes]
    omega
  | ternary => rw [hp] at hrest; simpa using hrest
  | range =>
    rw [hp] at hrest
    simp only [Bool.and_eq_true, beq_iff_eq] at hrest
    exact hrest.1

@[simp] theorem length_paramBlock (nbits : ℕ) (param : MatchKeyParam) :
    (paramBlock nbits param).length = param.key.length := by simp [paramBlock]

theorem nbytes_toKeyF_of_valid {f : KeyField} (h : f.toKeyF.mtype = .valid) : f.toKeyF.nbytes = 1 := by
  have hmtype : f.mtype = .valid := by
    by_contra hne
    rw [KeyField.toKeyF, if_neg hne] at h
    exact hne h
  simp [KeyField.toKeyF, hmtype, KeyF.nbytes, nbitsToNbytes]

/-- The masks of the parameters, concatenated. -/
def paramMaskBytes (fs : List KeyField) (params : List MatchKeyParam) : ByteContainer :=
  ((implParams fs params).map paramMask).flatten

theorem length_paramData (hcheck : List.Forall₂ (fun f param => paramOk param (KeyField.toKeyF f) = true)
    (implFields fs) (implParams fs params)) : (paramData fs params).length = (implSizes fs).sum := by
  rw [paramData, implSizes, List.length_flatten]
  congr 1
  generalize implFields fs = fields, implParams fs params = ps at hcheck
  induction hcheck with
  | nil => rfl
  | cons hp _ ih => simp [ih, length_key_of_paramOk hp]

theorem length_paramMaskBytes
    (hcheck : List.Forall₂ (fun f param => paramOk param (KeyField.toKeyF f) = true)
      (implFields fs) (implParams fs params)) :
    (paramMaskBytes fs params).length = (implSizes fs).sum := by
  rw [paramMaskBytes, implSizes, List.length_flatten]
  congr 1
  generalize implFields fs = fields, implParams fs params = ps at hcheck
  induction hcheck with
  | nil => rfl
  | cons hp _ ih => simp [ih, length_paramMask_of_paramOk hp nbytes_toKeyF_of_valid]

theorem length_bigMask (hb : kb.Built fs) : kb.bigMask.length = (implSizes fs).sum := by
  rw [hb.bigMask, implSizes, List.length_flatten, List.map_map, List.map_map]
  congr 1
  exact List.map_congr_left fun f hf => hb.length_mask f ((implFields_perm fs).mem_iff.mp hf)

/-! ## Back to parameters -/

/-- The bytes of every field can be read back out of data of the right size. -/
theorem fieldBytes_eq_some (hb : kb.Built fs) {data : ByteContainer}
    (hlen : data.length = kb.nbytesKey) {i : ℕ} (hi : i < fs.length) :
    ∃ bytes, kb.fieldBytes i data = some (fs[i].toKeyF, bytes) := by
  obtain ⟨j, hji⟩ := exists_implOrder fs hi
  obtain ⟨hj, -⟩ := List.getElem?_eq_some_iff.mp hji
  rw [length_implOrder] at hj
  have hinput : kb.keyInput[j]? = some fs[i].toKeyF := by
    rw [hb.keyInput, implFields, List.getElem?_map, List.getElem?_map, hji]
    simp [hi]
  have hsize : (implSizes fs)[j]? = some fs[i].toKeyF.nbytes := by
    rw [implSizes, List.getElem?_map, ← hb.keyInput, hinput, Option.map_some]
  have hle : ((implSizes fs).take j).sum + fs[i].toKeyF.nbytes ≤ data.length := by
    obtain ⟨hjlen, hget⟩ := List.getElem?_eq_some_iff.mp hsize
    have hsum : (implSizes fs).sum =
        ((implSizes fs).take j).sum + ((implSizes fs)[j] + ((implSizes fs).drop (j + 1)).sum) := by
      rw [← List.sum_cons, ← List.drop_eq_getElem_cons hjlen, ← List.sum_append, List.take_append_drop]
    rw [hlen, hb.nbytesKey, hsum, hget]
    omega
  refine ⟨(data.drop ((implSizes fs).take j).sum).take fs[i].toKeyF.nbytes, ?_⟩
  rw [fieldBytes, hb.keyMapping j i hji]
  simp only [Option.bind_eq_bind, Option.bind_some, hinput, hb.keyOffsets j i hji]
  rw [if_pos hle]

/-- A conversion field by field goes through when it does for every field. -/
theorem isSome_mapM_fields {α : Type} {g : ℕ → Option α} {n : ℕ} (hg : ∀ i < n, (g i).isSome) :
    ((List.range n).mapM g).isSome := by
  have hgen : ∀ l : List ℕ, (∀ i ∈ l, (g i).isSome) → (l.mapM g).isSome := by
    intro l hl
    induction l with
    | nil => simp
    | cons i l ih =>
      obtain ⟨a, ha⟩ := Option.isSome_iff_exists.mp (hl i (by simp))
      obtain ⟨as, has⟩ := Option.isSome_iff_exists.mp (ih fun j hj => hl j (by simp [hj]))
      simp [ha, has]
  exact hgen _ fun i hi => hg i (List.mem_range.mp hi)

end MatchKeyBuilder

end Bm
