/-
# Reading an entry back

`get_entry` on the handle that `add_entry` returned gives back the parameters in their canonical
form, and `retrieve_handle` of these returns the handle, in every state of a unit of any kind.

The layouts have to be those of the kind: an exact unit reads back exact fields and header
validities, an LPM unit at most one LPM field, and a ternary unit masks the start of a range, which is
for range units to keep.
-/
import Bmv2.KeyReadBack
import Bmv2.SlotBounds

namespace Bm

open MatchKeyBuilder

/-! ## The key that is stored -/

/-- The key of an entry but for its priority: the parameters behind the static masks. -/
def storedKey (K : Type) [MatchKey K] (kb : MatchKeyBuilder) (params : List MatchKeyParam) :
    Option K := do
  let key : K ← MatchKey.matchParamsToEntry kb params
  let data ← kb.applyBigMask (MatchKey.data key)
  pure (MatchKey.withData key data)

section Stored

variable {kb : MatchKeyBuilder} {fs : List KeyField} {params : List MatchKeyParam} {masked : Bool}

/-- Only ternary keys and, in the units that keep masks, LPM keys are masked. -/
theorem canonicalKey_of_unmasked {f : KeyField} {p : MatchKeyParam} (hternary : p.type ≠ .ternary)
    (hlpm : p.type = .lpm → masked = false) :
    canonicalKey masked f p = andBytes (paramBlock f.toKeyF.nbits p) f.maskBytes := by
  have hmask : keyMask masked p = List.replicate p.key.length 0xff := by
    rw [keyMask]
    cases htype : p.type with
    | ternary => exact absurd htype hternary
    | lpm => simp [hlpm htype]
    | valid => rfl
    | exact => rfl
    | range => rfl
  have hkept : andBytes (paramBlock f.toKeyF.nbits p) (List.replicate p.key.length 0xff) =
      paramBlock f.toKeyF.nbits p := andBytes_replicate_ff _ (length_paramBlock _ p)
  rw [canonicalKey, hmask, hkept]

/-- A key without masks keeps what is laid out, behind the static masks. -/
theorem applyBigMask_paramData (hb : kb.Built fs) (hcheck : Checked fs params)
    (hkinds : ∀ f ∈ fs, f.mtype ≠ .ternary ∧ (f.mtype = .lpm → masked = false)) :
    kb.applyBigMask (paramData fs params) = some (layOut (canonicalKey masked) fs params) := by
  refine (applyBigMask_layOut hb hcheck fun f p h => h.length_paramBlock).trans (congrArg some ?_)
  refine layOut_congr hcheck fun f p h => ?_
  have htype := h.type_eq.trans (mtype_toKeyF f)
  obtain ⟨hternary, hlpm⟩ := hkinds f h.1
  rw [canonicalKey_of_unmasked (htype ▸ hternary) (htype ▸ hlpm)]

theorem storedKey_exact (hb : kb.Built fs) (hlength : params.length = fs.length)
    (hcheck : Checked fs params) (hexact : ∀ f ∈ fs, f.mtype = .exact ∨ f.mtype = .valid) :
    storedKey ExactMatchKey kb params =
      if ∀ p ∈ implParams fs params, p.key ≠ [] then
        some ⟨layOut (canonicalKey false) fs params⟩
      else none := by
  have hkinds : ∀ f ∈ fs, f.mtype ≠ .ternary ∧ (f.mtype = .lpm → false = false) := by
    intro f hf
    rcases hexact f hf with hkind | hkind <;> simp [hkind]
  change (exactMatchParamsToEntry kb params).bind _ = _
  rw [exactMatchParamsToEntry_eq hb hlength]
  split
  · rw [Option.bind_some]
    change (kb.applyBigMask (paramData fs params)).bind _ = _
    rw [applyBigMask_paramData hb hcheck hkinds]
    rfl
  · rfl

/-- What the parameters add to the prefix length of an LPM key. -/
def lpmPrefixLength (ps : List MatchKeyParam) : Option ℤ :=
  ps.foldlM (fun prefixLength param => (paramPrefixLength param).map (prefixLength + ·)) 0

theorem storedKey_lpm (hb : kb.Built fs) (hlength : params.length = fs.length)
    (hcheck : Checked fs params) :
    storedKey LPMMatchKey kb params =
      if ∀ p ∈ implParams fs params, p.key ≠ [] then
        (lpmPrefixLength (implParams fs params)).map fun prefixLength =>
          ⟨layOut (canonicalKey false) fs params, prefixLength⟩
      else none := by
  change (lpmMatchParamsToEntry kb params).bind _ = _
  rw [lpmMatchParamsToEntry_eq hb hlength]
  change (if _ then (lpmPrefixLength (implParams fs params)).map _ else none).bind _ = _
  split
  · cases hfold : lpmPrefixLength (implParams fs params) with
    | none => rfl
    | some prefixLength =>
      -- a parameter that adds to the prefix length is not masked
      have hkinds : ∀ f ∈ fs, f.mtype ≠ .ternary ∧ (f.mtype = .lpm → false = false) := by
        intro f hf
        refine ⟨fun hternary => ?_, fun _ => rfl⟩
        obtain ⟨j, hj, rfl⟩ := List.getElem_of_mem ((implFields_perm fs).mem_iff.mpr hf)
        have hj' : j < (implParams fs params).length := hcheck.length_eq ▸ hj
        have hfits := hcheck.get hj hj'
        have hsome := (foldlM_prefixLength hfold).1 _ (List.getElem_mem hj')
        have htype := hfits.type_eq.trans ((mtype_toKeyF _).trans hternary)
        rw [paramPrefixLength] at hsome
        simp only [List.get_eq_getElem] at htype
        rw [htype] at hsome
        cases hsome
      rw [Option.map_some, Option.bind_some, Option.map_some]
      change (kb.applyBigMask (paramData fs params)).bind _ = _
      rw [applyBigMask_paramData hb hcheck hkinds]
      rfl
  · rfl

/-- What the parameters and the static masks leave of the data. -/
theorem applyBigMask_masked (hb : kb.Built fs) (hcheck : Checked fs params) :
    kb.applyBigMask
        (layOut (fun f p => andBytes (paramBlock f.toKeyF.nbits p) (keyMask masked p)) fs params) =
      some (layOut (canonicalKey masked) fs params) := by
  refine applyBigMask_layOut hb hcheck fun f p h => ?_
  rw [length_andBytes (h.length_paramBlock.trans (h.length_keyMask _).symm), h.length_paramBlock]

theorem length_paramData_eq (hcheck : Checked fs params) :
    (paramData fs params).length = (paramMaskBytes fs params).length := by
  rw [length_paramData hcheck.all, length_paramMaskBytes hcheck.all]

theorem storedKey_ternary (hb : kb.Built fs) (hlength : params.length = fs.length)
    (hcheck : Checked fs params) (hnorange : ∀ f ∈ fs, f.mtype ≠ .range) :
    storedKey TernaryMatchKey kb params =
      if (∀ p ∈ implParams fs params, p.key ≠ []) ∧ (implSizes fs).sum ≠ 0 then
        some { data := layOut (canonicalKey true) fs params
               mask := layOut (fun _ p => paramMask p) fs params }
      else none := by
  have hmasked : andBytes (paramData fs params) (paramMaskBytes fs params) =
      layOut (fun f p => andBytes (paramBlock f.toKeyF.nbits p) (keyMask true p)) fs params := by
    rw [← layOut_paramMask hcheck]
    refine (andBytes_layOut hcheck fun f p h => h.length_paramBlock.trans h.length_paramMask.symm).trans
      (layOut_congr hcheck fun f p h => congrArg _ ?_)
    have htype := h.type_eq.trans (mtype_toKeyF f)
    rw [h.keyMask_of_not_range (htype ▸ hnorange f h.1)]
  have hempty : paramData fs params ≠ [] ↔ (implSizes fs).sum ≠ 0 := by
    rw [← length_paramData hcheck.all, ne_eq, ne_eq, List.length_eq_zero_iff]
  change (ternaryMatchParamsToEntry kb params).bind _ = _
  rw [ternaryMatchParamsToEntry, matchParamsToEntryTernaryAndRange_eq hb hlength]
  by_cases hkeys : ∀ p ∈ implParams fs params, p.key ≠ []
  · rw [if_pos hkeys, Option.bind_eq_bind, Option.bind_some]
    by_cases hpos : (implSizes fs).sum ≠ 0
    · simp only
      rw [if_pos ⟨length_paramData_eq hcheck, hempty.mpr hpos⟩, if_pos ⟨hkeys, hpos⟩, hmasked,
        Option.bind_some, layOut_paramMask hcheck]
      change (kb.applyBigMask (layOut _ fs params)).bind _ = _
      rw [applyBigMask_masked hb hcheck]
      rfl
    · simp only
      rw [if_neg fun h => hpos (hempty.mp h.2), if_neg fun h => hpos h.2]
      rfl
  · rw [if_neg hkeys, if_neg fun h => hkeys h.1]
    rfl

/-! ### Ranges -/

instance (input : List KeyF) : Std.Total (sortLe input) where
  total i j := by
    simp only [sortLe]
    omega

instance (input : List KeyF) : IsTrans ℕ (sortLe input) where
  trans i j k := by
    simp only [sortLe]
    omega

/-- `build` sorts the fields by match type. -/
theorem implFields_pairwise (fs : List KeyField) :
    (implFields fs).Pairwise fun f f' => f.mtype.toNat ≤ f'.mtype.toNat := by
  rw [implFields, List.pairwise_map]
  have hsorted := List.pairwise_insertionSort (sortLe (fs.map KeyField.toKeyF))
    (List.range (fs.map KeyField.toKeyF).length)
  refine (List.Pairwise.and_mem.mp hsorted).imp fun {i j} h => ?_
  obtain ⟨hi, hj, hle⟩ := h
  have hi' := lt_of_mem_implOrder (show i ∈ implOrder fs from hi)
  have hj' := lt_of_mem_implOrder (show j ∈ implOrder fs from hj)
  have htype : ∀ k (hk : k < fs.length),
      ((fs.map KeyField.toKeyF).getD k default).mtype = (fs.getD k ⟨0, 0, .range, 0, none⟩).mtype := by
    intro k hk
    simp [hk, mtype_toKeyF]
  rw [sortLe, htype i hi', htype j hj'] at hle
  omega

/-- `build` puts the ranges first. -/
theorem implFields_sorted (fs : List KeyField) :
    (implFields fs).Pairwise fun f f' => f'.mtype = .range → f.mtype = .range := by
  refine (implFields_pairwise fs).imp fun {f f'} hle hrange => ?_
  rw [hrange] at hle
  cases htype : f.mtype <;> simp [htype, MatchType.toNat] at hle ⊢

/-- The data of a range key: behind the ranges everything is masked. -/
theorem rangeData_eq {fields : List KeyField} {ps : List MatchKeyParam}
    (hcheck : List.Forall₂ (Fits fs) fields ps)
    (hsorted : fields.Pairwise fun f f' => f'.mtype = .range → f.mtype = .range) :
    (List.zipWith (fun f p => paramBlock (KeyField.toKeyF f).nbits p) fields ps).flatten.take
        (rangeWidthsOf ps).sum ++
      andBytes
        ((List.zipWith (fun f p => paramBlock (KeyField.toKeyF f).nbits p) fields ps).flatten.drop
          (rangeWidthsOf ps).sum)
        ((ps.map paramMask).flatten.drop (rangeWidthsOf ps).sum) =
      (List.zipWith (fun f p => andBytes (paramBlock f.toKeyF.nbits p) (keyMask true p)) fields
        ps).flatten := by
  induction hcheck with
  | nil => rfl
  | @cons f p fields ps h hrest ih =>
    have htype := h.type_eq.trans (mtype_toKeyF f)
    obtain ⟨hfirst, hsorted⟩ := List.pairwise_cons.mp hsorted
    have hrest' := ih hsorted
    simp only [List.zipWith_cons_cons, List.flatten_cons, List.map_cons]
    by_cases hrange : p.type = .range
    · have hwidths : (rangeWidthsOf (p :: ps)).sum = p.key.length + (rangeWidthsOf ps).sum := by
        simp [rangeWidthsOf, hrange]
      have hkept : andBytes (paramBlock f.toKeyF.nbits p) (keyMask true p) =
          paramBlock f.toKeyF.nbits p := by
        rw [keyMask, hrange]
        exact andBytes_replicate_ff _ (length_paramBlock _ p)
      have hblock : p.key.length = (paramBlock f.toKeyF.nbits p).length :=
        (length_paramBlock _ p).symm
      have hmask : p.key.length = (paramMask p).length :=
        h.length_key.trans h.length_paramMask.symm
      rw [hwidths, hkept, ← hrest']
      nth_rewrite 1 [hblock]
      nth_rewrite 1 [hblock]
      rw [List.take_length_add_append, List.drop_length_add_append, hmask,
        List.drop_length_add_append, List.append_assoc]
    · -- behind a field that is not a range there is none
      have hwidths : rangeWidthsOf ps = [] := by
        rw [rangeWidthsOf, List.map_eq_nil_iff, List.filter_eq_nil_iff]
        intro q hq
        obtain ⟨i, hi, rfl⟩ := List.getElem_of_mem hq
        have hi' : i < fields.length := hrest.length_eq.symm ▸ hi
        have hq := (hrest.get hi' hi).type_eq.trans (mtype_toKeyF _)
        have hnot : fields[i].mtype ≠ .range := fun hr =>
          hrange (htype.trans (hfirst _ (List.getElem_mem hi') hr))
        simp only [List.get_eq_getElem] at hq
        rw [decide_eq_true_eq, hq]
        exact hnot
      have hwidths' : rangeWidthsOf (p :: ps) = [] := by
        rw [rangeWidthsOf] at hwidths ⊢
        rw [List.filter_cons_of_neg (by simpa using hrange), hwidths]
      rw [hwidths] at hrest'
      simp only [List.sum_nil, List.take_zero, List.drop_zero, List.nil_append] at hrest'
      rw [hwidths', List.sum_nil, List.take_zero, List.drop_zero, List.drop_zero, List.nil_append,
        andBytes_append (h.length_paramBlock.trans h.length_paramMask.symm), hrest',
        h.keyMask_of_not_range hrange]

/-- The widths of the ranges of a layout. -/
def layoutRangeWidths (fs : List KeyField) : List ℕ :=
  ((implFields fs).filter fun f => f.toKeyF.mtype = .range).map fun f => f.toKeyF.nbytes

theorem storedKey_range (hb : kb.Built fs) (hlength : params.length = fs.length)
    (hcheck : Checked fs params) :
    storedKey RangeMatchKey kb params =
      if ∀ p ∈ implParams fs params, p.key ≠ [] then
        some { data := layOut (canonicalKey true) fs params
               mask := layOut (fun _ p => paramMask p) fs params
               rangeWidths := layoutRangeWidths fs }
      else none := by
  have hle : (rangeWidthsOf (implParams fs params)).sum ≤ (paramData fs params).length := by
    rw [length_paramData hcheck.all]
    exact (sum_rangeWidthsOf_le _).trans_eq (congrArg List.sum (map_length_key hcheck.all))
  have hdata := rangeData_eq hcheck (implFields_sorted fs)
  change (rangeMatchParamsToEntry kb params).bind _ = _
  rw [rangeMatchParamsToEntry, matchParamsToEntryTernaryAndRange_eq hb hlength,
    foldlM_rangeWidths hb hlength]
  split
  · simp only [Option.bind_eq_bind, Option.bind_some]
    rw [if_pos ⟨length_paramData_eq hcheck, hle⟩, Option.bind_some]
    change (kb.applyBigMask (List.take _ (paramData fs params) ++ andBytes (List.drop _ _)
      (List.drop _ (paramMaskBytes fs params)))).bind _ = _
    rw [paramData, paramMaskBytes, hdata]
    change (kb.applyBigMask (layOut _ fs params)).bind _ = _
    rw [applyBigMask_masked hb hcheck, rangeWidthsOf_eq hcheck.all, layOut_paramMask hcheck]
    rfl
  · rfl

/-! ## Keys that are built again -/

variable {K : Type} [MatchKey K]

/-- The layouts that a kind of unit reads back: the stored key of checked parameters gives back the
canonical parameters, which are stored as the same key. -/
structure KeysReadBack (K : Type) [MatchKey K] (kb : MatchKeyBuilder) (masked : Bool)
    (fs : List KeyField) : Prop where
  entryToMatchParams : ∀ (params : List MatchKeyParam) (k : K) (priority : Int32),
    params.length = fs.length → Checked fs params → storedKey K kb params = some k →
    MatchKey.entryToMatchParams kb (MatchKey.setPriority k priority) =
      some (canonicalParams masked fs params)
  storedKey_eq : ∀ params : List MatchKeyParam, params.length = fs.length → Checked fs params →
    storedKey K kb (canonicalParams masked fs params) = storedKey K kb params
  setPriority_getPriority : ∀ (k : K) (priority : Int32),
    MatchKey.setPriority k (MatchKey.getPriority (MatchKey.setPriority k priority)) =
      MatchKey.setPriority k priority

theorem length_canonicalParams (hlength : params.length = fs.length) :
    (canonicalParams masked fs params).length = fs.length := by
  rw [canonicalParams, List.length_zipWith, hlength, min_self]

theorem layOut_canonicalKey_canonicalParams (hb : kb.Built fs) (hlength : params.length = fs.length)
    (hcheck : Checked fs params) :
    layOut (canonicalKey masked) fs (canonicalParams masked fs params) =
      layOut (canonicalKey masked) fs params :=
  layOut_canonicalParams hlength hcheck fun _ _ h => canonicalKey_canonicalParam hb h

theorem layOut_paramMask_canonicalParams (hb : kb.Built fs) (hlength : params.length = fs.length)
    (hcheck : Checked fs params) :
    layOut (fun _ p => paramMask p) fs (canonicalParams masked fs params) =
      layOut (fun _ p => paramMask p) fs params :=
  layOut_canonicalParams hlength hcheck fun _ _ h => paramMask_canonicalParam hb h

theorem keysReadBack_exact (hb : kb.Built fs)
    (hexact : ∀ f ∈ fs, f.mtype = .exact ∨ f.mtype = .valid) :
    KeysReadBack ExactMatchKey kb false fs where
  entryToMatchParams params k priority hlength hcheck hk := by
    rw [storedKey_exact hb hlength hcheck hexact] at hk
    split at hk
    · cases hk
      exact exactEntryToMatchParams_layOut hb hlength hcheck hexact
    · cases hk
  storedKey_eq params hlength hcheck := by
    rw [storedKey_exact hb hlength hcheck hexact, storedKey_exact hb (length_canonicalParams hlength)
      (checked_canonicalParams hb hlength hcheck) hexact,
      layOut_canonicalKey_canonicalParams hb hlength hcheck]
    exact if_congr (key_ne_nil_canonicalParams hb hlength hcheck) rfl rfl
  setPriority_getPriority _ _ := rfl

theorem keysReadBack_lpm (hb : kb.Built fs) (hne : fs ≠ [])
    (hone : fs.countP (fun f => f.mtype = .lpm) ≤ 1) : KeysReadBack LPMMatchKey kb false fs where
  entryToMatchParams params k priority hlength hcheck hk := by
    rw [storedKey_lpm hb hlength hcheck] at hk
    split at hk
    · obtain ⟨prefixLength, hprefix, rfl⟩ := Option.map_eq_some_iff.mp hk
      exact lpmEntryToMatchParams_layOut hb hlength hcheck hne hone hprefix
    · cases hk
  storedKey_eq params hlength hcheck := by
    have hprefix : lpmPrefixLength (implParams fs (canonicalParams false fs params)) =
        lpmPrefixLength (implParams fs params) := by
      have hmap := map_canonicalParams false hlength hcheck
        fun f p h => paramPrefixLength_canonicalParam _ hb h
      have hfold : ∀ ps : List MatchKeyParam, lpmPrefixLength ps =
          (ps.map paramPrefixLength).foldlM (fun x (d : Option ℤ) => d.map (x + ·)) 0 :=
        fun ps => List.foldlM_map.symm
      rw [hfold, hfold, hmap]
    rw [storedKey_lpm hb hlength hcheck, storedKey_lpm hb (length_canonicalParams hlength)
      (checked_canonicalParams hb hlength hcheck),
      layOut_canonicalKey_canonicalParams hb hlength hcheck, hprefix]
    exact if_congr (key_ne_nil_canonicalParams hb hlength hcheck) rfl rfl
  setPriority_getPriority _ _ := rfl

theorem keysReadBack_ternary (hb : kb.Built fs) (hnorange : ∀ f ∈ fs, f.mtype ≠ .range) :
    KeysReadBack TernaryMatchKey kb true fs where
  entryToMatchParams params k priority hlength hcheck hk := by
    rw [storedKey_ternary hb hlength hcheck hnorange] at hk
    split at hk
    · cases hk
      exact ternaryEntryToMatchParams_layOut hb hlength hcheck rfl rfl
    · cases hk
  storedKey_eq params hlength hcheck := by
    rw [storedKey_ternary hb hlength hcheck hnorange, storedKey_ternary hb
      (length_canonicalParams hlength) (checked_canonicalParams hb hlength hcheck) hnorange,
      layOut_canonicalKey_canonicalParams hb hlength hcheck,
      layOut_paramMask_canonicalParams hb hlength hcheck]
    exact if_congr (and_congr_left' (key_ne_nil_canonicalParams hb hlength hcheck)) rfl rfl
  setPriority_getPriority _ _ := rfl

theorem keysReadBack_range (hb : kb.Built fs) : KeysReadBack RangeMatchKey kb true fs where
  entryToMatchParams params k priority hlength hcheck hk := by
    rw [storedKey_range hb hlength hcheck] at hk
    split at hk
    · cases hk
      exact ternaryEntryToMatchParams_layOut hb hlength hcheck rfl rfl
    · cases hk
  storedKey_eq params hlength hcheck := by
    rw [storedKey_range hb hlength hcheck, storedKey_range hb (length_canonicalParams hlength)
      (checked_canonicalParams hb hlength hcheck),
      layOut_canonicalKey_canonicalParams hb hlength hcheck,
      layOut_paramMask_canonicalParams hb hlength hcheck]
    exact if_congr (key_ne_nil_canonicalParams hb hlength hcheck) rfl rfl
  setPriority_getPriority _ _ := rfl

end Stored

namespace MatchUnit

variable {K V S : Type} [MatchKey K]

theorem buildEntryFromMatchKey_eq (mu : MatchUnit K V S) (matchKey : List MatchKeyParam)
    (priority : Int32) :
    mu.buildEntryFromMatchKey matchKey priority =
      if mu.matchKeyBuilder.matchParamsSanityCheck matchKey then
        (storedKey K mu.matchKeyBuilder matchKey).map fun k => .ok (MatchKey.setPriority k priority)
      else some (.error .badMatchKey) := by
  rw [buildEntryFromMatchKey, storedKey]
  split
  · cases (MatchKey.matchParamsToEntry mu.matchKeyBuilder matchKey : Option K) with
    | none => rfl
    | some key =>
      simp only [Option.bind_eq_bind, Option.bind_some]
      cases mu.matchKeyBuilder.applyBigMask (MatchKey.data key) <;> rfl
  · rfl

/-- A key that a unit builds gives back the canonical parameters, and is built from them. -/
theorem build_canonicalParams {mu : MatchUnit K V S} {fs : List KeyField} {masked : Bool}
    (hb : mu.matchKeyBuilder.Built fs) (hkeys : KeysReadBack K mu.matchKeyBuilder masked fs)
    {params : List MatchKeyParam} {priority : Int32} {k : K}
    (hbuild : mu.buildEntryFromMatchKey params priority = some (.ok k)) :
    MatchKey.entryToMatchParams mu.matchKeyBuilder k = some (canonicalParams masked fs params) ∧
      mu.buildEntryFromMatchKey (canonicalParams masked fs params) (MatchKey.getPriority k) =
        some (.ok k) := by
  have hsanity := sanityCheck_of_build hbuild
  obtain ⟨hlength, hcheck⟩ := checked_of_sanityCheck hb hsanity
  rw [buildEntryFromMatchKey_eq, if_pos hsanity, Option.map_eq_some_iff] at hbuild
  obtain ⟨stored, hstored, hk⟩ := hbuild
  obtain rfl : MatchKey.setPriority stored priority = k := Except.ok.inj hk
  refine ⟨hkeys.entryToMatchParams params stored priority hlength hcheck hstored, ?_⟩
  have hsanity' : mu.matchKeyBuilder.matchParamsSanityCheck (canonicalParams masked fs params) =
      true := (matchParamsSanityCheck_iff hb _).mpr
    ⟨length_canonicalParams hlength, (checked_canonicalParams hb hlength hcheck).all⟩
  rw [buildEntryFromMatchKey_eq, if_pos hsanity', hkeys.storedKey_eq params hlength hcheck, hstored,
    Option.map_some, hkeys.setPriority_getPriority]

end MatchUnit

/-! ## The slot of a key that was just added -/

/-- A lookup structure that finds the slot of a key right after the key was added. -/
class RetrievesAdded (K : Type) (S : outParam Type) [MatchKey K] [LookupStructure K S]
    [LawfulLookup K S] [LookupBound K S] : Prop where
  retrieveHandle_added : ∀ {size n b : ℕ} {s s' : S} {keys : ℕ → Option K} {k : K} {i : ℕ},
    LookupBound.Below size n s keys b → LawfulLookup.KeyOk n k →
    LookupStructure.entryExists s k = some false → keys i = none → (∀ j < i, (keys j).isSome) →
    i < size → i < 2 ^ 64 → LookupStructure.addEntry s k i = some s' →
    LookupStructure.retrieveHandle s' k = some (some i)

instance : RetrievesAdded ExactMatchKey ExactMap where
  retrieveHandle_added _ _ _ _ _ _ _ hadd := by
    cases hadd
    exact congrArg some (Function.update_self ..)

instance : RetrievesAdded LPMMatchKey LPMTrieStructure where
  retrieveHandle_added {_ _ _ s _ _ k i} _ _ _ _ _ _ _ hadd := by
    obtain ⟨trie, htrie, rfl⟩ := Option.map_eq_some_iff.mp hadd
    obtain ⟨⟨bytes, key⟩, hsplit, htrie⟩ := Option.bind_eq_some_iff.mp htrie
    cases htrie
    show LpmTrie.retrieveValue _ _ _ = _
    rw [LpmTrie.retrieveValue, hsplit]
    simp [TrieNode.get_insert]

instance (K : Type) [MatchKey K] [ListKey K] [ListKeySpec K] : RetrievesAdded K (EntryMap K) where
  retrieveHandle_added {_ _ _ s s' keys k i} h hok hnew hfree hlow hlt hlt64 hadd := by
    obtain ⟨b, hb, hiff⟩ := LawfulLookup.entryExists_iff h hok
    obtain rfl : b = false := Option.some.inj (hb.symm.trans hnew)
    obtain ⟨s'', hs'', hholds⟩ := LawfulLookup.holds_addEntry h hok
      (fun j k' hk' hsame => by simpa using hiff.mpr ⟨j, k', hk', hsame⟩) hfree hlow hlt hlt64
    obtain rfl : s'' = s' := Option.some.inj (hs''.symm.trans hadd)
    have hkey : Function.update keys i (some k) i = some k := Function.update_self ..
    obtain ⟨low, -, hret, hlow0⟩ := EntryMap.Holds.retrieveHandle_eq hholds hkey
    -- the slot was the lowest free one, so slot 0 is in use
    have hzero : (Function.update keys i (some k) 0).isSome := by
      by_cases hi : i = 0
      · rw [hi, Function.update_self, Option.isSome_some]
      · rw [Function.update_of_ne (Ne.symm hi)]
        exact hlow 0 (Nat.pos_of_ne_zero hi)
    rw [hret, hlow0.mpr hzero, Nat.sub_zero]

/-! ## Units -/

namespace MatchUnit

variable {K V S : Type} [Inhabited K] [Inhabited V] [MatchKey K] [LookupStructure K S]
  [LawfulLookup K S] [LookupBound K S] {fs : List KeyField} {mu mu' : MatchUnit K V S} {b : ℕ}
  {masked : Bool}

/-- An entry that is added can be read back, while its slot and the version of the slot fit in the
handle: `get_entry` gives back the canonical parameters, and `retrieve_handle` of what it gives back
returns the handle. -/
def ReadsBack {K V S : Type} [MatchKey K] [LookupStructure K S] (mu : MatchUnit K V S) (masked : Bool)
    (fs : List KeyField) : Prop :=
  ∀ params value priority now handle mu', mu.addEntry params value priority now =
      some (.ok handle, mu') → lowestFree mu.handles < 2 ^ 24 →
    (∀ old : Entry K V, mu.entries[lowestFree mu.handles]? = some old → old.version < 256) →
    ∃ priority',
      mu'.getEntry handle = some (.ok (canonicalParams masked fs params, value, priority')) ∧
      mu'.retrieveHandle (canonicalParams masked fs params) priority' = some (.ok handle)

theorem Filled.readsBack [RetrievesAdded K S] (h : mu.Filled (fun _ => True) fs b)
    (hkeys : KeysReadBack K mu.matchKeyBuilder masked fs) : mu.ReadsBack masked fs := by
  intro params value priority now handle mu' hadd hslot hversion
  obtain ⟨hshape, hslots, heffect⟩ := h.toSlots.addEntry_effect hadd
  cases heffect with
  | quiet hquiet => exact absurd hquiet (by simp [UnitOp.Quiet])
  | added k old hbuild hnew hlt hlt64 hold hhandles hentries hlookup =>
    obtain ⟨hparams, hagain⟩ := build_canonicalParams h.built hkeys hbuild
    have hfree : mu.keys (lowestFree mu.handles) = none :=
      Option.not_isSome_iff_eq_none.mp (mt h.isSome_keys.mp (lowestFree_notMem mu.handles))
    have hretrieve := RetrievesAdded.retrieveHandle_added h.below
      (keyOk_of_built h.built h.nbytesKey hbuild) hnew hfree
      (fun j hj => h.isSome_keys.mpr (mem_of_lt_lowestFree hj)) hlt hlt64 hlookup
    have hentry : mu'.entries[lowestFree mu.handles]? = some ⟨k, old.version, value⟩ := by
      rw [hentries, List.getElem?_set_self (h.length_entries ▸ hlt)]
    refine ⟨MatchKey.getPriority k, ?_, ?_⟩
    · have hcheck : mu'.checkHandle (handleSet old.version (lowestFree mu.handles)) =
          some (.ok ⟨k, old.version, value⟩) := by
        refine hslots.checkHandle_eq_ok.mpr ⟨live_eq_some.mpr ⟨?_, ?_⟩, ?_⟩
        · rw [handleInternal_handleSet hslot, hhandles]
          exact Finset.mem_insert_self _ _
        · rw [handleInternal_handleSet hslot, hentry]
        · rw [handleVersion_handleSet hslot, Nat.mod_eq_of_lt (hversion old hold)]
      rw [getEntry, hcheck]
      simp only [Option.bind_eq_bind, Option.bind_some]
      rw [hshape.matchKeyBuilder, hparams]
      rfl
    · have hagain' : mu'.buildEntryFromMatchKey (canonicalParams masked fs params)
          (MatchKey.getPriority k) = some (.ok k) := by
        rw [← hagain, buildEntryFromMatchKey, buildEntryFromMatchKey, hshape.matchKeyBuilder]
      rw [retrieveHandle, hagain']
      simp only [Option.bind_eq_bind, Option.bind_some]
      rw [hretrieve]
      simp only [Option.bind_some, hentry]
      rfl

/-- **Run lemma.** -/
theorem filled_of_run {size : ℕ} {kb : MatchKeyBuilder} (hfs : MatchKeyBuilder.ofFields fs = some kb)
    {mu₀ : MatchUnit K V S} (hcreate : create size kb = some mu₀) {ops : List (UnitOp V)}
    (hrun : runFrom step mu₀ ops = some mu) : ∃ b, mu.Filled (fun _ => True) fs b := by
  refine runFrom_invariant (I := fun mu => ∃ b, mu.Filled (fun _ => True) fs b)
    (fun mu op mu' h hstep => ?_) ⟨0, filled_create hfs hcreate⟩ hrun
  obtain ⟨b, h⟩ := h
  obtain ⟨⟨r, mu₁⟩, hexec, rfl⟩ := Option.map_eq_some_iff.mp hstep
  exact h.exec hexec (by cases op <;> trivial)

end MatchUnit

open MatchUnit

/-- **Entries are read back** in every state that a run of an empty unit reaches, for the layouts
that the kind of unit is for; the units that keep masks clear the bits of an LPM key behind its prefix,
as those of a ternary key. -/
theorem entry_read_back {V : Type} [Inhabited V] {fs : List KeyField} {kb : MatchKeyBuilder}
    (hfs : MatchKeyBuilder.ofFields fs = some kb) (size : ℕ) (ops : List (UnitOp V)) :
    ((∀ f ∈ fs, f.mtype = .exact ∨ f.mtype = .valid) →
      ∀ mu₀ mu : MatchUnit ExactMatchKey V ExactMap, create size kb = some mu₀ →
        runFrom step mu₀ ops = some mu → mu.ReadsBack false fs) ∧
    (fs ≠ [] → fs.countP (fun f => f.mtype = .lpm) ≤ 1 →
      ∀ mu₀ mu : MatchUnit LPMMatchKey V LPMTrieStructure, create size kb = some mu₀ →
        runFrom step mu₀ ops = some mu → mu.ReadsBack false fs) ∧
    ((∀ f ∈ fs, f.mtype ≠ .range) →
      ∀ mu₀ mu : MatchUnit TernaryMatchKey V TernaryMap, create size kb = some mu₀ →
        runFrom step mu₀ ops = some mu → mu.ReadsBack true fs) ∧
    ∀ mu₀ mu : MatchUnit RangeMatchKey V RangeMap, create size kb = some mu₀ →
      runFrom step mu₀ ops = some mu → mu.ReadsBack true fs := by
  refine ⟨fun hexact mu₀ mu hcreate hrun => ?_, fun hne hone mu₀ mu hcreate hrun => ?_,
    fun hnorange mu₀ mu hcreate hrun => ?_, fun mu₀ mu hcreate hrun => ?_⟩
  · obtain ⟨b, h⟩ := filled_of_run hfs hcreate hrun
    exact h.readsBack (keysReadBack_exact h.built hexact)
  · obtain ⟨b, h⟩ := filled_of_run hfs hcreate hrun
    exact h.readsBack (keysReadBack_lpm h.built hne hone)
  · obtain ⟨b, h⟩ := filled_of_run hfs hcreate hrun
    exact h.readsBack (keysReadBack_ternary h.built hnorange)
  · obtain ⟨b, h⟩ := filled_of_run hfs hcreate hrun
    exact h.readsBack (keysReadBack_range h.built)

/-- A ternary unit that has one entry, with an LPM field of 12 bits, an exact field behind a static
mask and a ternary field. -/
theorem entry_read_back_mixed :
    ∃ kb, ∃ mu₀ mu : MatchUnit TernaryMatchKey ℕ TernaryMap,
      MatchKeyBuilder.ofFields [⟨0, 0, .lpm, 12, none⟩, ⟨0, 0, .exact, 8, some [0x0f]⟩,
        ⟨0, 0, .ternary, 8, none⟩] = some kb ∧
      create 2 kb = some mu₀ ∧
      runFrom step mu₀ [.addEntry [⟨.lpm, [0x0a, 0xbc], [], 7⟩, ⟨.exact, [0x11], [], 0⟩,
        ⟨.ternary, [0x12], [0xf0], 0⟩] 10 1 0] = some mu ∧
      mu.ReadsBack true [⟨0, 0, .lpm, 12, none⟩, ⟨0, 0, .exact, 8, some [0x0f]⟩,
        ⟨0, 0, .ternary, 8, none⟩] := by
  refine ⟨_, _, _, rfl, rfl, rfl, ?_⟩
  have hfs : MatchKeyBuilder.ofFields [⟨0, 0, .lpm, 12, none⟩, ⟨0, 0, .exact, 8, some [0x0f]⟩,
    ⟨0, 0, .ternary, 8, none⟩] = some _ := rfl
  exact (entry_read_back hfs 2 [.addEntry [⟨.lpm, [0x0a, 0xbc], [], 7⟩, ⟨.exact, [0x11], [], 0⟩,
    ⟨.ternary, [0x12], [0xf0], 0⟩] 10 1 0]).2.2.1 (by decide) _ _ rfl rfl

/-- What is not read back: the key of an LPM field in a ternary unit keeps its prefix only; fields that
the kind of unit does not have stop `get_entry` or are masked; the prefix lengths of two LPM fields
are added up, and without any field there is none to set. -/
theorem entry_not_read_back :
    (∃ kb, ∃ mu : MatchUnit TernaryMatchKey ℕ TernaryMap,
      MatchKeyBuilder.ofFields [⟨0, 0, .lpm, 8, none⟩] = some kb ∧ create 1 kb = some mu ∧
        ¬ mu.ReadsBack false [⟨0, 0, .lpm, 8, none⟩]) ∧
    (∃ kb, ∃ mu : MatchUnit TernaryMatchKey ℕ TernaryMap,
      MatchKeyBuilder.ofFields [⟨0, 0, .range, 8, none⟩] = some kb ∧ create 1 kb = some mu ∧
        ∀ masked, ¬ mu.ReadsBack masked [⟨0, 0, .range, 8, none⟩]) ∧
    (∃ kb, ∃ mu : MatchUnit ExactMatchKey ℕ ExactMap,
      MatchKeyBuilder.ofFields [⟨0, 0, .ternary, 8, none⟩] = some kb ∧ create 1 kb = some mu ∧
        ∀ masked, ¬ mu.ReadsBack masked [⟨0, 0, .ternary, 8, none⟩]) ∧
    (∃ kb, ∃ mu : MatchUnit LPMMatchKey ℕ LPMTrieStructure,
      MatchKeyBuilder.ofFields [⟨0, 0, .lpm, 8, none⟩, ⟨0, 0, .lpm, 8, none⟩] = some kb ∧
        create 1 kb = some mu ∧
        ∀ masked, ¬ mu.ReadsBack masked [⟨0, 0, .lpm, 8, none⟩, ⟨0, 0, .lpm, 8, none⟩]) ∧
    ∃ kb, ∃ mu : MatchUnit LPMMatchKey ℕ LPMTrieStructure,
      MatchKeyBuilder.ofFields [] = some kb ∧ create 1 kb = some mu ∧
        ∀ masked, ¬ mu.ReadsBack masked [] := by
  refine ⟨⟨_, _, rfl, rfl, fun h => ?_⟩, ⟨_, _, rfl, rfl, fun masked h => ?_⟩,
    ⟨_, _, rfl, rfl, fun masked h => ?_⟩, ⟨_, _, rfl, rfl, fun masked h => ?_⟩,
    ⟨_, _, rfl, rfl, fun masked h => ?_⟩⟩
  · obtain ⟨priority', hget, -⟩ := h [⟨.lpm, [0xff], [], 4⟩] 0 0 0 0 _ rfl (by decide)
      (fun old hold => by cases hold; decide)
    cases hget
  · obtain ⟨priority', hget, -⟩ := h [⟨.range, [0x01], [0x02], 0⟩] 0 0 0 0 _ rfl (by decide)
      (fun old hold => by cases hold; decide)
    cases masked <;> cases hget
  · obtain ⟨priority', hget, -⟩ := h [⟨.ternary, [0x01], [0x02], 0⟩] 0 0 0 0 _ rfl (by decide)
      (fun old hold => by cases hold; decide)
    cases hget
  · obtain ⟨priority', hget, -⟩ := h [⟨.lpm, [0x01], [], 8⟩, ⟨.lpm, [0x02], [], 8⟩] 0 0 0 0 _ rfl
      (by decide) (fun old hold => by cases hold; decide)
    cases masked <;> cases hget
  · obtain ⟨priority', hget, -⟩ := h [] 0 0 0 0 _ rfl (by decide)
      (fun old hold => by cases hold; decide)
    cases hget

end Bm
