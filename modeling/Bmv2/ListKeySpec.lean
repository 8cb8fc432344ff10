/-
# What the comparison functions decide

The packets that a ternary or a range key matches, and the comparison loops of
`TernaryMap` and `RangeMap` as decisions of that.
-/
import Bmv2.LookupStructures
import Bmv2.MatchKeySpec

namespace Bm

/-! ## Comparison loops -/

theorem maskedBytesEq_eq {key data mask : ByteContainer} {n o : ℕ} (hkey : key.length = o + n)
    (hdata : data.length = o + n) (hmask : mask.length = o + n) :
    maskedBytesEq key data mask (List.range' o n) =
      some (decide (andBytes (key.drop o) (mask.drop o) = data.drop o)) := by
  induction n generalizing o with
  | zero =>
    rw [Nat.add_zero] at hkey hdata
    rw [List.drop_of_length_le hkey.le, List.drop_of_length_le hdata.le]
    rfl
  | succ n ih =>
    have hk : o < key.length := by omega
    have hd : o < data.length := by omega
    have hm : o < mask.length := by omega
    have ih' := ih (o := o + 1) (by omega) (by omega) (by omega)
    rw [List.range'_succ, maskedBytesEq, ih', List.getElem?_eq_getElem hk, List.getElem?_eq_getElem hd,
      List.getElem?_eq_getElem hm, List.drop_eq_getElem_cons hk, List.drop_eq_getElem_cons hd,
      List.drop_eq_getElem_cons hm]
    simp only [Option.bind_eq_bind, Option.bind_some]
    by_cases hbyte : data[o] = key[o] &&& mask[o]
    · rw [if_neg (not_not.mpr hbyte)]
      refine congrArg some (decide_eq_decide.mpr ?_)
      rw [andBytes_cons, List.cons.injEq]
      exact ⟨fun h => ⟨hbyte.symm, h⟩, fun h => h.2⟩
    · rw [if_pos hbyte]
      refine congrArg some (decide_eq_false ?_).symm
      rw [andBytes_cons, List.cons.injEq]
      exact fun h => hbyte h.1.symm

/-- The key lies in the ranges from `lo` to `hi` whose widths in bytes come first; what
follows is compared under a mask. -/
def InRanges : List ℕ → (key lo hi : ByteContainer) → Prop
  | [], key, lo, hi => andBytes key hi = lo
  | w :: ws, key, lo, hi =>
      (beNat (lo.take w) ≤ beNat (key.take w) ∧ beNat (key.take w) ≤ beNat (hi.take w)) ∧
        InRanges ws (key.drop w) (lo.drop w) (hi.drop w)

instance : (ws : List ℕ) → (key lo hi : ByteContainer) → Decidable (InRanges ws key lo hi)
  | [], _, _, _ => inferInstanceAs (Decidable (_ = _))
  | w :: ws, key, lo, hi =>
      have := instDecidableInRanges ws (key.drop w) (lo.drop w) (hi.drop w)
      inferInstanceAs (Decidable (_ ∧ _))

theorem memcmpAt_eq {as bs : ByteContainer} {n offset w : ℕ} (has : as.length = n) (hbs : bs.length = n)
    (hw : 0 < w) (hle : offset + w ≤ n) :
    memcmpAt as bs offset w =
      some (compare (beNat ((as.drop offset).take w)) (beNat ((bs.drop offset).take w))) := by
  rw [memcmpAt, if_pos (by omega), memcmp_eq (by simp; omega) (by simp; omega)]

theorem rangeCmpFrom_eq {key : ByteContainer} {k : RangeMatchKey} {n : ℕ} (hkey : key.length = n)
    (hdata : k.data.length = n) (hmask : k.mask.length = n) {ws : List ℕ} {offset : ℕ}
    (hpos : ∀ w ∈ ws, 0 < w) (hle : offset + ws.sum ≤ n) :
    rangeCmpFrom n key k ws offset =
      some (decide (InRanges ws (key.drop offset) (k.data.drop offset) (k.mask.drop offset))) := by
  induction ws generalizing offset with
  | nil =>
    rw [List.sum_nil, Nat.add_zero] at hle
    rw [rangeCmpFrom, maskedBytesEq_eq (by omega) (by omega) (by omega)]
    rfl
  | cons w ws ih =>
    rw [List.sum_cons] at hle
    have hw := hpos w (by simp)
    have hle' : offset + w + ws.sum ≤ n := by omega
    have ih' := ih (fun v hv => hpos v (by simp [hv])) hle'
    rw [rangeCmpFrom, memcmpAt_eq hkey hdata hw (by omega), memcmpAt_eq hkey hmask hw (by omega), ih']
    simp only [Option.bind_eq_bind, Option.bind_some, compare_lt_iff_lt, compare_gt_iff_gt, InRanges,
      List.drop_drop]
    split
    · rename_i hlt
      simp [not_le.mpr hlt]
    · rename_i hge
      split
      · rename_i hgt
        simp [not_le.mpr hgt]
      · rename_i hle'
        simp [not_lt.mp hge, not_lt.mp hle']

/-! ## Entry keys of a unit -/

/-- What the keys of an entry list are for: which keys a unit makes, and which packets
each of them matches. -/
class ListKeySpec (K : Type) [MatchKey K] [ListKey K] where
  KeyOk : ℕ → K → Prop
  Matches : ByteContainer → K → Prop
  cmp_iff : ∀ {n : ℕ} {key : ByteContainer} {k : K}, KeyOk n k → key.length = n →
    ∃ b, ListKey.cmp n key k = some b ∧ (b = true ↔ Matches key k)
  keyOk_entry : ∀ {kb : MatchKeyBuilder} {fs : List KeyField} {params : List MatchKeyParam} {k : K}
    {data : ByteContainer} (priority : Int32), kb.Built fs → kb.matchParamsSanityCheck params = true →
    MatchKey.matchParamsToEntry kb params = some k → kb.applyBigMask (MatchKey.data k) = some data →
    KeyOk kb.nbytesKey (MatchKey.setPriority (MatchKey.withData k data) priority)
  isSome_entryToMatchParams : ∀ {kb : MatchKeyBuilder} {fs : List KeyField} {k : K}, kb.Built fs →
    KeyOk kb.nbytesKey k → (MatchKey.entryToMatchParams kb k).isSome
  priority_setPriority : ∀ (k : K) (priority : Int32),
    PriorityKey.priority (MatchKey.setPriority k priority) = priority

/-- The data and the mask have the size of the packet keys. -/
def TernaryMatchKey.KeyOk (n : ℕ) (k : TernaryMatchKey) : Prop :=
  k.data.length = n ∧ k.mask.length = n

/-- The packets that a ternary key matches. -/
def TernaryMatchKey.Matches (key : ByteContainer) (k : TernaryMatchKey) : Prop :=
  andBytes key k.mask = k.data

/-- The data and the mask have the size of the packet keys, and the ranges fit in. -/
structure RangeMatchKey.KeyOk (n : ℕ) (k : RangeMatchKey) : Prop where
  length_data : k.data.length = n
  length_mask : k.mask.length = n
  pos : ∀ w ∈ k.rangeWidths, 0 < w
  sum_le : k.rangeWidths.sum ≤ n

/-- The packets that a range key matches. -/
def RangeMatchKey.Matches (key : ByteContainer) (k : RangeMatchKey) : Prop :=
  InRanges k.rangeWidths key k.data k.mask

namespace MatchKeyBuilder

variable {kb : MatchKeyBuilder} {fs : List KeyField} {params : List MatchKeyParam}

theorem length_applyBigMask {key data : ByteContainer} (h : kb.applyBigMask key = some data) :
    data.length = key.length := by
  rw [applyBigMask] at h
  split at h
  · rw [applyMask] at h
    split at h
    · rename_i hlen
      cases h
      exact length_andBytes hlen
    · cases h
  · cases h
    rfl

/-- A key of the size of the table key can be masked. -/
theorem exists_applyBigMask (hb : kb.Built fs) {key : ByteContainer} (hlen : key.length = kb.nbytesKey) :
    ∃ data, kb.applyBigMask key = some data := by
  rw [applyBigMask]
  split
  · rw [applyMask, if_pos]
    · exact ⟨_, rfl⟩
    · rw [hlen, length_bigMask hb, hb.nbytesKey]
  · exact ⟨_, rfl⟩

/-- The loop of the ternary and range keys collects the masks of the parameters. -/
theorem foldlM_paramMask (ps : List MatchKeyParam) (mask : ByteContainer) :
    ps.foldlM (fun mask param => some (mask ++ paramMask param)) mask =
      some (mask ++ (ps.map paramMask).flatten) := by
  induction ps generalizing mask with
  | nil => simp
  | cons p ps ih => rw [List.foldlM_cons, Option.bind_eq_bind, Option.bind_some, ih]; simp

theorem matchParamsToEntryTernaryAndRange_eq (hb : kb.Built fs) (hlen : params.length = fs.length) :
    matchParamsToEntryTernaryAndRange kb params =
      if ∀ p ∈ implParams fs params, p.key ≠ [] then
        some (paramData fs params, paramMaskBytes fs params)
      else none := by
  rw [matchParamsToEntryTernaryAndRange, paramLoop_of_length hb hlen, foldlM_paramMask]
  rfl

/-- The widths of the ranges among the parameters. -/
def rangeWidthsOf (ps : List MatchKeyParam) : List ℕ :=
  (ps.filter fun p => p.type = .range).map fun p => p.key.length

theorem foldlM_rangeWidths (hb : kb.Built fs) (hlen : params.length = fs.length) :
    kb.invMapping.foldlM (fun widths pi => do
      let param ← params[pi]?
      pure (if param.type = .range then widths ++ [param.key.length] else widths)) [] =
      some (rangeWidthsOf (implParams fs params)) := by
  have hlt : ∀ pi ∈ implOrder fs, pi < params.length := fun pi hpi => hlen ▸ lt_of_mem_implOrder hpi
  have hgen : ∀ (order : List ℕ) (widths : List ℕ), (∀ pi ∈ order, pi < params.length) →
      order.foldlM (fun widths pi => do
        let param ← params[pi]?
        pure (if param.type = .range then widths ++ [param.key.length] else widths)) widths =
        some (widths ++ rangeWidthsOf (order.map fun pi => params.getD pi default)) := by
    intro order
    induction order with
    | nil => intro widths _; simp [rangeWidthsOf]
    | cons pi order ih =>
      intro widths hlt
      have hpi := hlt pi (by simp)
      rw [List.foldlM_cons, List.getElem?_eq_getElem hpi]
      refine (ih (if params[pi].type = .range then widths ++ [params[pi].key.length] else widths)
        fun k hk => hlt k (by simp [hk])).trans ?_
      by_cases hrange : params[pi].type = .range
      · simp [rangeWidthsOf, hpi, hrange]
      · simp [rangeWidthsOf, hpi, hrange]
  rw [hb.invMapping, hgen _ _ hlt, List.nil_append]
  rfl

theorem sum_rangeWidthsOf_le (ps : List MatchKeyParam) :
    (rangeWidthsOf ps).sum ≤ (ps.map fun p => p.key.length).sum :=
  ((List.filter_sublist (l := ps)).map _).sum_le_sum fun _ _ => Nat.zero_le _

theorem pos_of_mem_rangeWidthsOf {ps : List MatchKeyParam} (hne : ∀ p ∈ ps, p.key ≠ []) {w : ℕ}
    (hw : w ∈ rangeWidthsOf ps) : 0 < w := by
  obtain ⟨p, hp, rfl⟩ := List.mem_map.mp hw
  exact List.length_pos_iff.mpr (hne p (List.mem_of_mem_filter hp))

/-- Checked parameters, in the order of the implementation, have the sizes of the
fields. -/
theorem map_length_key (hcheck : List.Forall₂ (fun f param => paramOk param (KeyField.toKeyF f) = true)
    (implFields fs) (implParams fs params)) :
    (implParams fs params).map (fun p => p.key.length) = implSizes fs := by
  rw [implSizes, List.map_map]
  generalize implFields fs = fields, implParams fs params = ps at hcheck
  induction hcheck with
  | nil => rfl
  | cons hp _ ih => simp [ih, length_key_of_paramOk hp]

/-- A ternary key is read back field by field, whatever the types of the fields. -/
theorem isSome_ternaryEntryToMatchParams (hb : kb.Built fs) {k : TernaryMatchKey}
    (hdata : k.data.length = kb.nbytesKey) (hmask : k.mask.length = kb.nbytesKey) :
    (ternaryEntryToMatchParams kb k).isSome := by
  refine isSome_mapM_fields fun i hi => ?_
  rw [hb.length_keyMapping] at hi
  obtain ⟨bytes, hbytes⟩ := fieldBytes_eq_some hb hdata hi
  obtain ⟨mask, hmask⟩ := fieldBytes_eq_some hb hmask hi
  rw [hbytes, hmask]
  simp only [Option.bind_eq_bind, Option.bind_some]
  cases fs[i].toKeyF.mtype <;> rfl

end MatchKeyBuilder

open MatchKeyBuilder

instance : ListKeySpec TernaryMatchKey where
  KeyOk := TernaryMatchKey.KeyOk
  Matches := TernaryMatchKey.Matches
  cmp_iff := by
    rintro n key k ⟨hdata, hmask⟩ hkey
    refine ⟨_, ?_, decide_eq_true_iff (p := andBytes key k.mask = k.data)⟩
    change maskedBytesEq key k.data k.mask (List.range n) = _
    rw [List.range_eq_range', maskedBytesEq_eq (by omega) (by omega) (by omega)]
    rfl
  keyOk_entry := by
    intro kb fs params k data priority hb hcheck hk hdata
    obtain ⟨hlen, hall⟩ := (matchParamsSanityCheck_iff hb params).mp hcheck
    change ternaryMatchParamsToEntry kb params = some k at hk
    rw [ternaryMatchParamsToEntry, matchParamsToEntryTernaryAndRange_eq hb hlen] at hk
    split at hk
    · simp only [Option.bind_eq_bind, Option.bind_some] at hk
      split at hk
      · cases hk
        refine ⟨(length_applyBigMask hdata).trans ?_, ?_⟩
        · rename_i hboth
          exact (length_andBytes hboth.1).trans ((length_paramData hall).trans hb.nbytesKey.symm)
        · exact (length_paramMaskBytes hall).trans hb.nbytesKey.symm
      · cases hk
    · cases hk
  isSome_entryToMatchParams hb hok := isSome_ternaryEntryToMatchParams hb hok.1 hok.2
  priority_setPriority _ _ := rfl

instance : ListKeySpec RangeMatchKey where
  KeyOk := RangeMatchKey.KeyOk
  Matches := RangeMatchKey.Matches
  cmp_iff := by
    rintro n key k hk hkey
    refine ⟨_, ?_, decide_eq_true_iff (p := InRanges k.rangeWidths key k.data k.mask)⟩
    change rangeCmpFrom n key k k.rangeWidths 0 = _
    rw [rangeCmpFrom_eq hkey hk.length_data hk.length_mask hk.pos (by simpa using hk.sum_le)]
    rfl
  keyOk_entry := by
    intro kb fs params k data priority hb hcheck hk hdata
    obtain ⟨hlen, hall⟩ := (matchParamsSanityCheck_iff hb params).mp hcheck
    change rangeMatchParamsToEntry kb params = some k at hk
    rw [rangeMatchParamsToEntry, matchParamsToEntryTernaryAndRange_eq hb hlen,
      foldlM_rangeWidths hb hlen] at hk
    split at hk
    · rename_i hne
      simp only [Option.bind_eq_bind, Option.bind_some] at hk
      split at hk
      · rename_i hboth
        cases hk
        have hsum := (sum_rangeWidthsOf_le (implParams fs params)).trans_eq
          (congrArg List.sum (map_length_key hall))
        refine ⟨(length_applyBigMask hdata).trans ?_, ?_, fun w => pos_of_mem_rangeWidthsOf hne, ?_⟩
        · change (List.take _ _ ++ andBytes (List.drop _ _) (List.drop _ _)).length = _
          have hdrop := hboth.1
          rw [List.length_append, length_andBytes (by simp [hdrop]), List.length_take, List.length_drop,
            hb.nbytesKey, ← length_paramData hall]
          omega
        · exact (length_paramMaskBytes hall).trans hb.nbytesKey.symm
        · exact hsum.trans_eq hb.nbytesKey.symm
      · cases hk
    · cases hk
  isSome_entryToMatchParams hb hok :=
    isSome_ternaryEntryToMatchParams hb hok.length_data hok.length_mask
  priority_setPriority _ _ := rfl

end Bm
