/-
# What a lookup structure holds

A lookup structure stands for a map from slots to keys, and finds the slot of the key
that a packet selects: the equal key in an exact table, the longest prefix in an LPM
table, and the entry of the least priority in a ternary or range table.  Match units are
verified against the laws of `LawfulLookup`, which the four kinds of keys meet.

Two of the laws hold under conditions only.  A trie deletes safely unless its 8-bit
counters mislead it (`LpmTrie.DeletesSafely`), and an entry list answers exactly when
slot 0 is in use and no priority is the largest one.
-/
import Bmv2.ListKeySpec
import Bmv2.LpmTrieSpec

namespace Bm

/-- The laws of a lookup structure. -/
class LawfulLookup (K : Type) (S : outParam Type) [MatchKey K] [LookupStructure K S] where
  /-- The table keys that a kind of table allows. -/
  Admits : List KeyField → Prop
  /-- The shape of the keys of entries, for packet keys of the given size. -/
  KeyOk : ℕ → K → Prop
  /-- The keys that the structure cannot hold side by side. -/
  Same : K → K → Prop
  /-- The structure, for a table and for packet keys of the given sizes, holds these keys. -/
  Holds : ℕ → ℕ → S → (ℕ → Option K) → Prop
  /-- The slot is the one that the packet key selects. -/
  Selects : (ℕ → Option K) → ByteContainer → ℕ → Prop
  /-- The keys are such that the structure answers exactly. -/
  Exact : (ℕ → Option K) → Prop
  /-- The structure can take the key out. -/
  DeletesSafely : S → K → Prop
  keyOk_entry : ∀ {kb : MatchKeyBuilder} {fs : List KeyField} {params : List MatchKeyParam} {k : K}
    {data : ByteContainer} (priority : Int32), kb.Built fs → kb.matchParamsSanityCheck params = true →
    MatchKey.matchParamsToEntry kb params = some k → kb.applyBigMask (MatchKey.data k) = some data →
    KeyOk kb.nbytesKey (MatchKey.setPriority (MatchKey.withData k data) priority)
  isSome_entryToMatchParams : ∀ {kb : MatchKeyBuilder} {fs : List KeyField} {k : K}, kb.Built fs →
    Admits fs → KeyOk kb.nbytesKey k → (MatchKey.entryToMatchParams kb k).isSome
  same_refl : ∀ k, Same k k
  exact_empty : Exact fun _ => none
  isSome_of_selects : ∀ {keys : ℕ → Option K} {key : ByteContainer} {i : ℕ}, Selects keys key i →
    (keys i).isSome
  holds_create : ∀ {size n : ℕ} {s : S}, LookupStructure.create K size n = some s →
    Holds size n s fun _ => none
  holds_clear : ∀ {size n : ℕ} {s : S} {keys : ℕ → Option K}, Holds size n s keys →
    ∃ s', LookupStructure.clear K s = some s' ∧ Holds size n s' fun _ => none
  entryExists_iff : ∀ {size n : ℕ} {s : S} {keys : ℕ → Option K} {k : K}, Holds size n s keys →
    KeyOk n k → ∃ b, LookupStructure.entryExists s k = some b ∧
      (b = true ↔ ∃ i k', keys i = some k' ∧ Same k' k)
  holds_addEntry : ∀ {size n : ℕ} {s : S} {keys : ℕ → Option K} {k : K} {i : ℕ}, Holds size n s keys →
    KeyOk n k → (∀ j k', keys j = some k' → ¬ Same k' k) → keys i = none →
    (∀ j < i, (keys j).isSome) → i < size → i < 2 ^ 64 →
    ∃ s', LookupStructure.addEntry s k i = some s' ∧ Holds size n s' (Function.update keys i (some k))
  holds_deleteEntry : ∀ {size n : ℕ} {s : S} {keys : ℕ → Option K} {k : K} {i : ℕ},
    Holds size n s keys → keys i = some k → ∃ s', LookupStructure.deleteEntry s k = some s' ∧
      (DeletesSafely s k → Holds size n s' (Function.update keys i none))
  retrieveHandle_eq : ∀ {size n : ℕ} {s : S} {keys : ℕ → Option K} {k : K} {i : ℕ},
    Holds size n s keys → Exact keys → keys i = some k →
    LookupStructure.retrieveHandle s k = some (some i)
  lookup_iff : ∀ {size n : ℕ} {s : S} {keys : ℕ → Option K} {key : ByteContainer},
    Holds size n s keys → Exact keys → key.length = n →
    ∃ r, LookupStructure.lookup K s key = some r ∧ ∀ i, r = some i ↔ Selects keys key i

/-! ## Exact tables -/

/-- The hash map holds the keys of the slots in use. -/
structure ExactMap.Holds (n : ℕ) (s : ExactMap) (keys : ℕ → Option ExactMatchKey) : Prop where
  keyOk : ∀ i k, keys i = some k → k.data.length = n
  iff : ∀ data i, s.entriesMap data = some i ↔ keys i = some ⟨data⟩

theorem ExactMap.Holds.update {n : ℕ} {s : ExactMap} {keys : ℕ → Option ExactMatchKey}
    (h : s.Holds n keys) {k : ExactMatchKey} {i : ℕ} (hlen : k.data.length = n)
    (hnew : s.entriesMap k.data = none) (hfree : keys i = none) :
    ExactMap.Holds n ⟨Function.update s.entriesMap k.data (some i)⟩
      (Function.update keys i (some k)) where
  keyOk j k' hk' := by
    by_cases hji : j = i
    · rw [hji, Function.update_self, Option.some.injEq] at hk'
      rwa [← hk']
    · rw [Function.update_of_ne hji] at hk'
      exact h.keyOk j k' hk'
  iff data j := by
    change Function.update s.entriesMap k.data (some i) data = some j ↔ _
    by_cases hdata : data = k.data
    · subst hdata
      rw [Function.update_self, Option.some.injEq]
      by_cases hji : j = i
      · simp [hji]
      · rw [Function.update_of_ne hji, ← h.iff, hnew]
        simp [Ne.symm hji]
    · rw [Function.update_of_ne hdata, h.iff]
      by_cases hji : j = i
      · rw [hji, Function.update_self, hfree, Option.some.injEq]
        exact iff_of_false (by simp) fun hk => hdata (congrArg ExactMatchKey.data hk).symm
      · rw [Function.update_of_ne hji]

theorem ExactMap.Holds.erase {n : ℕ} {s : ExactMap} {keys : ℕ → Option ExactMatchKey}
    (h : s.Holds n keys) {k : ExactMatchKey} {i : ℕ} (hk : keys i = some k) :
    ExactMap.Holds n ⟨Function.update s.entriesMap k.data none⟩ (Function.update keys i none) where
  keyOk j k' hk' := by
    by_cases hji : j = i
    · simp [hji] at hk'
    · rw [Function.update_of_ne hji] at hk'
      exact h.keyOk j k' hk'
  iff data j := by
    change Function.update s.entriesMap k.data none data = some j ↔ _
    have hi : s.entriesMap k.data = some i := (h.iff _ _).mpr hk
    by_cases hdata : data = k.data
    · subst hdata
      rw [Function.update_self]
      by_cases hji : j = i
      · simp [hji]
      · rw [Function.update_of_ne hji, ← h.iff, hi, Option.some.injEq]
        simp [Ne.symm hji]
    · rw [Function.update_of_ne hdata, h.iff]
      by_cases hji : j = i
      · rw [hji, Function.update_self, hk, Option.some.injEq]
        exact iff_of_false (fun hk => hdata (congrArg ExactMatchKey.data hk).symm) (by simp)
      · rw [Function.update_of_ne hji]

namespace MatchKeyBuilder

variable {kb : MatchKeyBuilder} {fs : List KeyField}

theorem exactMatchParamsToEntry_eq (hb : kb.Built fs) {params : List MatchKeyParam}
    (hlen : params.length = fs.length) :
    exactMatchParamsToEntry kb params =
      if ∀ p ∈ implParams fs params, p.key ≠ [] then some ⟨paramData fs params⟩ else none := by
  have hfold : ∀ ps : List MatchKeyParam, ps.foldlM (fun (_ : Unit) _ => some ()) () = some () := by
    intro ps
    induction ps with
    | nil => rfl
    | cons p ps ih => rw [List.foldlM_cons, Option.bind_eq_bind, Option.bind_some, ih]
  rw [exactMatchParamsToEntry, paramLoop_of_length hb hlen, hfold]
  split <;> rfl

end MatchKeyBuilder

open MatchKeyBuilder

instance : LawfulLookup ExactMatchKey ExactMap where
  Admits fs := ∀ f ∈ fs, f.mtype = .exact ∨ f.mtype = .valid
  KeyOk n k := k.data.length = n
  Same k k' := k = k'
  Holds _ n s keys := s.Holds n keys
  Selects keys key i := keys i = some ⟨key⟩
  Exact _ := True
  DeletesSafely _ _ := True
  keyOk_entry := by
    intro kb fs params k data priority hb hcheck hk hdata
    obtain ⟨hlen, hall⟩ := (matchParamsSanityCheck_iff hb params).mp hcheck
    change exactMatchParamsToEntry kb params = some k at hk
    rw [exactMatchParamsToEntry_eq hb hlen] at hk
    split at hk
    · cases hk
      exact (length_applyBigMask hdata).trans ((length_paramData hall).trans hb.nbytesKey.symm)
    · cases hk
  isSome_entryToMatchParams := by
    intro kb fs k hb hadmits hlen
    refine isSome_mapM_fields fun i hi => ?_
    rw [hb.length_keyMapping] at hi
    obtain ⟨bytes, hbytes⟩ := fieldBytes_eq_some hb hlen hi
    have htype : fs[i].toKeyF.mtype = .valid ∨ fs[i].toKeyF.mtype = .exact := by
      have hor := hadmits fs[i] (List.getElem_mem hi)
      rw [KeyField.toKeyF]
      split
      · exact Or.inl rfl
      · tauto
    rw [hbytes]
    simp [htype]
  same_refl _ := rfl
  exact_empty := trivial
  isSome_of_selects h := Option.isSome_iff_exists.mpr ⟨_, h⟩
  holds_create h := by
    cases h
    exact ⟨by simp, by simp⟩
  holds_clear _ := ⟨_, rfl, by simp, by simp⟩
  entryExists_iff {_ _ s keys k} h _ := by
    refine ⟨_, rfl, ?_⟩
    rw [Option.isSome_iff_exists]
    constructor
    · rintro ⟨i, hi⟩
      exact ⟨i, k, (h.iff _ _).mp hi, rfl⟩
    · rintro ⟨i, k', hk', rfl⟩
      exact ⟨i, (h.iff _ _).mpr hk'⟩
  holds_addEntry {_ _ s keys k i} h hlen hnew hfree _ _ _ := by
    refine ⟨_, rfl, h.update hlen ?_ hfree⟩
    cases hmap : s.entriesMap k.data with
    | none => rfl
    | some j => exact absurd rfl (hnew j k ((h.iff _ _).mp hmap))
  holds_deleteEntry h hk := ⟨_, rfl, fun _ => h.erase hk⟩
  retrieveHandle_eq h _ hk := congrArg some ((h.iff _ _).mpr hk)
  lookup_iff h _ _ := ⟨_, rfl, fun i => h.iff _ i⟩

/-! ## LPM tables -/

/-- The data has the size of the packet keys, and the prefix length stays inside. -/
structure LPMMatchKey.KeyOk (n : ℕ) (k : LPMMatchKey) : Prop where
  length_data : k.data.length = n
  nonneg : 0 ≤ k.prefixLength
  le : k.prefixLength ≤ 8 * n

/-- The prefix as a bit string. -/
def LPMMatchKey.bits (k : LPMMatchKey) : List Bool := (bitsOf k.data).take k.prefixLength.toNat

/-- The key at the slot is the longest prefix of the packet key. -/
def LPMMatchKey.Selects (keys : ℕ → Option LPMMatchKey) (key : ByteContainer) (i : ℕ) : Prop :=
  ∃ k, keys i = some k ∧ k.bits <+: bitsOf key ∧
    ∀ j k', keys j = some k' → k'.bits <+: bitsOf key → k'.bits.length ≤ k.bits.length

/-- The trie represents the map from the prefixes of the slots in use to the slots. -/
structure LPMTrieStructure.Holds (n : ℕ) (s : LPMTrieStructure) (keys : ℕ → Option LPMMatchKey) :
    Prop where
  releaseMemory : s.trie.releaseMemory = true
  keyWidthBytes : s.trie.keyWidthBytes = n
  le : n ≤ 64
  keyOk : ∀ i k, keys i = some k → k.KeyOk n
  represents : ∃ m, s.trie.root.Represents m ∧
    ∀ p i, m p = some i ↔ ∃ k, keys i = some k ∧ k.bits = p

namespace LPMTrieStructure.Holds

variable {n : ℕ} {s : LPMTrieStructure} {keys : ℕ → Option LPMMatchKey}

theorem map_bits {m : List Bool → Option ℕ}
    (hm : ∀ p i, m p = some i ↔ ∃ k, keys i = some k ∧ k.bits = p) {k : LPMMatchKey} {i : ℕ}
    (hk : keys i = some k) : m k.bits = some i := (hm _ _).mpr ⟨k, hk, rfl⟩

theorem wellFormed {k : LPMMatchKey} (hk : k.KeyOk n) : k.prefixLength.toNat ≤ 8 * k.data.length := by
  have hle := hk.le
  rw [hk.length_data]
  omega

theorem insert (h : s.Holds n keys) {k : LPMMatchKey} {i : ℕ} (hok : k.KeyOk n)
    (hnew : ∀ j k', keys j = some k' → k'.bits ≠ k.bits) (hfree : keys i = none) :
    ∃ s', LookupStructure.addEntry s k i = some s' ∧
      LPMTrieStructure.Holds n s' (Function.update keys i (some k)) := by
  obtain ⟨m, hrep, hm⟩ := h.represents
  obtain ⟨t', hstep, hiff⟩ := LpmTrie.step_represents hrep
    (.insert k.data k.prefixLength.toNat i) (wellFormed hok)
  have hinsert : s.trie.insert k.data k.prefixLength.toNat i = some t' := hstep
  have hfields := LpmTrie.step_const hstep
  refine ⟨⟨t'⟩, congrArg (Option.map LPMTrieStructure.mk) hinsert, hfields.1.trans h.releaseMemory,
    hfields.2.trans h.keyWidthBytes, h.le, ?_, _, hiff.mpr trivial, ?_⟩
  · intro j k' hk'
    by_cases hji : j = i
    · rw [hji, Function.update_self, Option.some.injEq] at hk'
      exact hk' ▸ hok
    · rw [Function.update_of_ne hji] at hk'
      exact h.keyOk j k' hk'
  · intro p j
    change Function.update m k.bits (some i) p = some j ↔ _
    by_cases hp : p = k.bits
    · subst hp
      rw [Function.update_self, Option.some.injEq]
      by_cases hji : j = i
      · simp [hji]
      · rw [Function.update_of_ne hji]
        exact iff_of_false (Ne.symm hji) fun ⟨k', hk', hbits⟩ => hnew j k' hk' hbits
    · rw [Function.update_of_ne hp, hm]
      by_cases hji : j = i
      · subst hji
        rw [Function.update_self, hfree]
        simp [Ne.symm hp]
      · rw [Function.update_of_ne hji]

theorem delete (h : s.Holds n keys) {k : LPMMatchKey} {i : ℕ} (hk : keys i = some k) :
    ∃ s', LookupStructure.deleteEntry s k = some s' ∧
      (s.trie.DeletesSafely (.delete k.data k.prefixLength.toNat) →
        LPMTrieStructure.Holds n s' (Function.update keys i none)) := by
  obtain ⟨m, hrep, hm⟩ := h.represents
  have hwf := wellFormed (h.keyOk i k hk)
  obtain ⟨t', hstep, hiff⟩ := LpmTrie.step_represents hrep
    (.delete k.data k.prefixLength.toNat) hwf
  have hfields := LpmTrie.step_const hstep
  obtain ⟨⟨found, t₁⟩, hdelete, rfl⟩ := Option.map_eq_some_iff.mp hstep
  refine ⟨⟨t₁⟩, congrArg (Option.map _) hdelete, fun hsafe => ⟨hfields.1.trans h.releaseMemory,
    hfields.2.trans h.keyWidthBytes, h.le, ?_, _, hiff.mpr hsafe, ?_⟩⟩
  · intro j k' hk'
    by_cases hji : j = i
    · simp [hji] at hk'
    · rw [Function.update_of_ne hji] at hk'
      exact h.keyOk j k' hk'
  · intro p j
    change Function.update m k.bits none p = some j ↔ _
    by_cases hp : p = k.bits
    · subst hp
      rw [Function.update_self]
      by_cases hji : j = i
      · simp [hji]
      · rw [Function.update_of_ne hji]
        refine iff_of_false (by simp) fun ⟨k', hk', hbits⟩ => hji ?_
        have hmap := map_bits hm hk'
        rw [hbits, map_bits hm hk, Option.some.injEq] at hmap
        exact hmap.symm
    · rw [Function.update_of_ne hp, hm]
      by_cases hji : j = i
      · subst hji
        rw [Function.update_self, hk]
        simp [Ne.symm hp]
      · rw [Function.update_of_ne hji]

end LPMTrieStructure.Holds

namespace MatchKeyBuilder

variable {kb : MatchKeyBuilder} {fs : List KeyField}

/-- The prefix length of an LPM key stays within the bits of its fields. -/
theorem foldlM_paramPrefixLength {fields : List KeyField} {ps : List MatchKeyParam}
    (hall : List.Forall₂ (fun f param => paramOk param (KeyField.toKeyF f) = true) fields ps) {x y : ℤ}
    (h : ps.foldlM (fun prefixLength param => (paramPrefixLength param).map (prefixLength + ·)) x =
      some y) :
    x ≤ y ∧ y ≤ x + 8 * (((fields.map KeyField.toKeyF).map KeyF.nbytes).sum : ℕ) := by
  induction hall generalizing x with
  | nil =>
    obtain rfl : x = y := by simpa using h
    simp
  | @cons f p fields ps hp _ ih =>
    rw [List.foldlM_cons, Option.bind_eq_bind, Option.bind_eq_some_iff] at h
    obtain ⟨x', hx', h⟩ := h
    obtain ⟨d, hd, rfl⟩ := Option.map_eq_some_iff.mp hx'
    obtain ⟨hlow, hhigh⟩ := ih h
    have hbound : 0 ≤ d ∧ d ≤ 8 * (f.toKeyF.nbytes : ℕ) := by
      have hkey := length_key_of_paramOk hp
      simp only [paramOk, Bool.and_eq_true, beq_iff_eq] at hp
      obtain ⟨⟨htype, -⟩, hrest⟩ := hp
      rw [paramPrefixLength] at hd
      cases hpt : p.type with
      | valid =>
        rw [hpt] at hd htype
        rw [nbytes_toKeyF_of_valid htype.symm]
        obtain rfl : 8 = d := by simpa using hd
        omega
      | exact =>
        rw [hpt] at hd
        obtain rfl : 8 * (p.key.length : ℤ) = d := by simpa using hd
        omega
      | lpm =>
        rw [hpt] at hd hrest
        obtain rfl : p.prefixLength = d := by simpa using hd
        simp only [decide_eq_true_eq] at hrest
        have hbits : f.toKeyF.nbits ≤ 8 * f.toKeyF.nbytes := by
          rw [KeyF.nbytes, nbitsToNbytes]
          omega
        omega
      | range => simp [hpt] at hd
      | ternary => simp [hpt] at hd
    simp only [List.map_cons, List.sum_cons]
    push_cast at hhigh ⊢
    omega

theorem lpmMatchParamsToEntry_eq (hb : kb.Built fs) {params : List MatchKeyParam}
    (hlen : params.length = fs.length) :
    lpmMatchParamsToEntry kb params =
      if ∀ p ∈ implParams fs params, p.key ≠ [] then
        ((implParams fs params).foldlM (fun prefixLength param =>
          (paramPrefixLength param).map (prefixLength + ·)) 0).map fun prefixLength =>
            ⟨paramData fs params, prefixLength⟩
      else none := by
  rw [lpmMatchParamsToEntry, paramLoop_of_length hb hlen]
  split
  · cases (implParams fs params).foldlM (fun prefixLength param =>
      (paramPrefixLength param).map (prefixLength + ·)) 0 <;> rfl
  · rfl

/-- The loop of `entry_to_match_params` over the first `n` fields of an LPM table. -/
theorem exists_lpmEntryToMatchParams_loop (hb : kb.Built fs)
    (hadmits : ∀ f ∈ fs, f.mtype = .exact ∨ f.mtype = .valid ∨ f.mtype = .lpm) {k : LPMMatchKey}
    (hlen : k.data.length = kb.nbytesKey) {n : ℕ} (hn : n ≤ fs.length) : ∃ params lpmIdx pref,
    (List.range n).foldlM (fun (params, lpmIdx, pref) i => do
      let (fInfo, bytes) ← kb.fieldBytes i k.data
      if fInfo.mtype = .ternary then none
      else
        let params := params ++ [{ type := fInfo.mtype, key := bytes : MatchKeyParam }]
        if fInfo.mtype = .lpm then some (params, i, pref)
        else some (params, lpmIdx, pref - 8 * (fInfo.nbytes : ℤ)))
      (([] : List MatchKeyParam), 0, k.prefixLength) = some (params, lpmIdx, pref) ∧
    params.length = n ∧ (lpmIdx = 0 ∨ lpmIdx < n) := by
  induction n with
  | zero => exact ⟨[], 0, k.prefixLength, rfl, rfl, Or.inl rfl⟩
  | succ n ih =>
    obtain ⟨params, lpmIdx, pref, hfold, hplen, hidx⟩ := ih (by omega)
    obtain ⟨bytes, hbytes⟩ := fieldBytes_eq_some hb hlen (show n < fs.length by omega)
    have hternary : fs[n].toKeyF.mtype ≠ .ternary := by
      have hor := hadmits fs[n] (List.getElem_mem _)
      rw [KeyField.toKeyF]
      split
      · simp
      · rcases hor with h | h | h <;> simp [h]
    rw [List.range_succ, List.foldlM_append, hfold]
    simp only [Option.bind_eq_bind, Option.bind_some, List.foldlM_cons, List.foldlM_nil, hbytes,
      if_neg hternary]
    split
    · exact ⟨_, _, _, rfl, by simp [hplen], Or.inr n.lt_succ_self⟩
    · exact ⟨_, _, _, rfl, by simp [hplen], hidx.imp_right fun h => by omega⟩

/-- Every field of an LPM table but a ternary one is read back. -/
theorem isSome_lpmEntryToMatchParams (hb : kb.Built fs) (hne : fs ≠ [])
    (hadmits : ∀ f ∈ fs, f.mtype = .exact ∨ f.mtype = .valid ∨ f.mtype = .lpm) {k : LPMMatchKey}
    (hlen : k.data.length = kb.nbytesKey) : (lpmEntryToMatchParams kb k).isSome := by
  obtain ⟨params, lpmIdx, pref, hfold, hplen, hidx⟩ :=
    exists_lpmEntryToMatchParams_loop hb hadmits hlen le_rfl
  have hlt : lpmIdx < params.length := by
    have := List.length_pos_iff.mpr hne
    omega
  rw [lpmEntryToMatchParams, hb.length_keyMapping, hfold]
  simp [hlt]

end MatchKeyBuilder

instance : LawfulLookup LPMMatchKey LPMTrieStructure where
  Admits fs := fs ≠ [] ∧ ∀ f ∈ fs, f.mtype = .exact ∨ f.mtype = .valid ∨ f.mtype = .lpm
  KeyOk := LPMMatchKey.KeyOk
  Same k k' := k.bits = k'.bits
  Holds _ n s keys := s.Holds n keys
  Selects := LPMMatchKey.Selects
  Exact _ := True
  DeletesSafely s k := s.trie.DeletesSafely (.delete k.data k.prefixLength.toNat)
  keyOk_entry := by
    intro kb fs params k data priority hb hcheck hk hdata
    obtain ⟨hlen, hall⟩ := (matchParamsSanityCheck_iff hb params).mp hcheck
    change lpmMatchParamsToEntry kb params = some k at hk
    rw [lpmMatchParamsToEntry_eq hb hlen] at hk
    split at hk
    · obtain ⟨prefixLength, hfold, rfl⟩ := Option.map_eq_some_iff.mp hk
      obtain ⟨hlow, hhigh⟩ := foldlM_paramPrefixLength hall hfold
      refine ⟨(length_applyBigMask hdata).trans ((length_paramData hall).trans hb.nbytesKey.symm),
        hlow, ?_⟩
      change prefixLength ≤ _
      rw [hb.nbytesKey, implSizes]
      simpa using hhigh
    · cases hk
  isSome_entryToMatchParams hb hadmits hok :=
    isSome_lpmEntryToMatchParams hb hadmits.1 hadmits.2 hok.length_data
  same_refl _ := rfl
  exact_empty := trivial
  isSome_of_selects h := Option.isSome_iff_exists.mpr ⟨_, h.choose_spec.1⟩
  holds_create {size n s} h := by
    obtain ⟨t, ht, rfl⟩ := Option.map_eq_some_iff.mp h
    rw [LpmTrie.create] at ht
    split at ht
    · cases ht
      rename_i hle
      exact ⟨rfl, rfl, hle, by simp, _, TrieNode.represents_empty, by simp⟩
    · cases ht
  holds_clear {size n s keys} h := by
    refine ⟨⟨⟨TrieNode.empty, n, true⟩⟩, ?_, rfl, rfl, h.le, by simp, _, TrieNode.represents_empty,
      by simp⟩
    change (LpmTrie.create s.trie.keyWidthBytes true).map LPMTrieStructure.mk = _
    rw [LpmTrie.create, h.keyWidthBytes, if_pos h.le]
    rfl
  entryExists_iff {size n s keys k} h hok := by
    obtain ⟨m, hrep, hm⟩ := h.represents
    refine ⟨_, (LpmTrie.answers_of_represents hrep).hasPrefix k.data k.prefixLength.toNat
      (LPMTrieStructure.Holds.wellFormed hok), ?_⟩
    rw [Option.isSome_iff_exists]
    exact exists_congr fun i => hm _ i
  holds_addEntry h hok hnew hfree _ _ _ := h.insert hok hnew hfree
  holds_deleteEntry h hk := h.delete hk
  retrieveHandle_eq {size n s keys k i} h _ hk := by
    obtain ⟨m, hrep, hm⟩ := h.represents
    refine ((LpmTrie.answers_of_represents hrep).retrieveValue k.data k.prefixLength.toNat
      (LPMTrieStructure.Holds.wellFormed (h.keyOk i k hk))).trans ?_
    exact congrArg some (LPMTrieStructure.Holds.map_bits hm hk)
  lookup_iff {size n s keys key} h _ hlen := by
    obtain ⟨m, hrep, hm⟩ := h.represents
    obtain ⟨r, hr, hlongest⟩ := (LpmTrie.answers_of_represents hrep).lookup key
      (hlen.trans h.keyWidthBytes.symm)
    refine ⟨r, hr, fun i => ?_⟩
    have hmax : ∀ p : List Bool, (∀ q, q <+: bitsOf key → m q ≠ none → q.length ≤ p.length) ↔
        ∀ j k', keys j = some k' → k'.bits <+: bitsOf key → k'.bits.length ≤ p.length := by
      refine fun p => ⟨fun h j k' hk' hpre => h _ hpre (by simp [LPMTrieStructure.Holds.map_bits hm hk']),
        fun h q hq hne => ?_⟩
      obtain ⟨j, hj⟩ := Option.ne_none_iff_exists'.mp hne
      obtain ⟨k', hk', rfl⟩ := (hm q j).mp hj
      exact h j k' hk' hq
    have hspec : LongestMatch m (bitsOf key) (some i) ↔ LPMMatchKey.Selects keys key i := by
      constructor
      · rintro ⟨p, hp, hpi, hpmax⟩
        obtain ⟨k, hk, rfl⟩ := (hm p i).mp hpi
        exact ⟨k, hk, hp, (hmax _).mp hpmax⟩
      · rintro ⟨k, hk, hpre, hkmax⟩
        exact ⟨k.bits, hpre, LPMTrieStructure.Holds.map_bits hm hk, (hmax _).mpr hkmax⟩
    rw [← hspec]
    exact ⟨fun hri => hri ▸ hlongest, fun h => hlongest.eq h⟩

/-! ## Ternary and range tables -/

section Lists

variable {K : Type} [MatchKey K] [ListKey K] [ListKeySpec K]

/-- The key at the slot matches the packet key. -/
def MatchesAt (keys : ℕ → Option K) (key : ByteContainer) (i : ℕ) : Prop :=
  ∃ k, keys i = some k ∧ ListKeySpec.Matches key k

/-- Among the matching keys the slot has the least priority, and it is the smallest slot
among ties. -/
def Wins (keys : ℕ → Option K) (key : ByteContainer) (i : ℕ) : Prop :=
  IsBest {j | (keys j).isSome} (EntryList.prioOf keys) (MatchesAt keys key) i

/-- An entry list answers exactly for these keys: slot 0 is in use when any slot is, and
no priority is the one that lookups start with. -/
structure ListExact (keys : ℕ → Option K) : Prop where
  slot_zero : ∀ i k, keys i = some k → (keys 0).isSome
  priority : ∀ i k, keys i = some k → PriorityKey.priority k ≠ Int32.maxValue

/-- The list of the map holds the keys. -/
structure EntryMap.Holds (size n : ℕ) (s : EntryMap K) (keys : ℕ → Option K) : Prop where
  nbytesKey : s.nbytesKey = n
  length : s.entryList.entries.length = size
  keyOk : ∀ i k, keys i = some k → ListKeySpec.KeyOk n k
  distinct : EntryList.Distinct keys
  holds : ∃ is, s.entryList.Holds keys is

namespace EntryMap.Holds

variable {size n : ℕ} {s : EntryMap K} {keys : ℕ → Option K} {key : ByteContainer}

theorem cmp_isSome (h : s.Holds size n keys) (hlen : key.length = n) (i : ℕ) (k : K)
    (hk : keys i = some k) : (ListKey.cmp s.nbytesKey key k).isSome := by
  obtain ⟨b, hb, -⟩ := ListKeySpec.cmp_iff (h.keyOk i k hk) hlen
  rw [h.nbytesKey, hb]
  rfl

theorem accepts_iff (h : s.Holds size n keys) (hlen : key.length = n) (i : ℕ) :
    EntryList.accepts (ListKey.cmp s.nbytesKey key) keys i ↔ MatchesAt keys key i := by
  refine exists_congr fun k => and_congr_right fun hk => ?_
  obtain ⟨b, hb, hiff⟩ := ListKeySpec.cmp_iff (h.keyOk i k hk) hlen
  rw [h.nbytesKey, hb, Option.some.injEq, hiff]

/-- What a lookup returns: nothing unless a matching key has a priority below the largest
one, else the distance of the winner from the lowest slot in use. -/
theorem lookup_spec (h : s.Holds size n keys) (hlen : key.length = n) :
    ∃ r, LookupStructure.lookup K s key = some r ∧
      ((∀ i, MatchesAt keys key i → EntryList.prioOf keys i = Int32.maxValue.toInt) → r = none) ∧
      ((∃ i, MatchesAt keys key i ∧ EntryList.prioOf keys i < Int32.maxValue.toInt) →
        ∃ i low, Wins keys key i ∧ low ≤ i ∧ (low = 0 ↔ (keys 0).isSome) ∧ r = some (i - low)) := by
  obtain ⟨is, his⟩ := h.holds
  have hset : {j | j ∈ is} = {j | (keys j).isSome} := Set.ext his.mem_iff
  refine ⟨_, EntryList.lookup_eq his (h.cmp_isSome hlen), fun hnone => ?_, fun hsome => ?_⟩
  · rw [firstMin_of_forall_le fun i _ hi => (hnone i ((h.accepts_iff hlen i).mp hi)).ge]
    rfl
  · obtain ⟨j, hj, hlt⟩ := hsome
    have hjis : j ∈ is := (his.mem_iff j).mpr (by obtain ⟨k, hk, -⟩ := hj; simp [hk])
    obtain ⟨i, hfirst, hbest⟩ := firstMin_of_exists_lt none his.sorted
      ⟨j, hjis, (h.accepts_iff hlen j).mpr hj, hlt⟩
    obtain ⟨low, hlow, hle, hhandle⟩ := his.handleFromEntry hbest.mem
    refine ⟨i, low, ?_, hle, ?_, ?_⟩
    · rw [Wins, ← hset]
      exact ⟨hbest.mem, (h.accepts_iff hlen i).mp hbest.candidate,
        fun k hk hmatch => hbest.least k hk ((h.accepts_iff hlen k).mpr hmatch)⟩
    · rw [← his.mem_iff 0, ← his.handleFromEntry_eq_iff hbest.mem, hhandle, Option.some.injEq]
      omega
    · rw [hfirst, hlow]
      rfl

/-- A key that the list holds is found, as its distance from the lowest slot in use. -/
theorem retrieveHandle_eq (h : s.Holds size n keys) {i : ℕ} {k : K} (hk : keys i = some k) :
    ∃ low ≤ i, LookupStructure.retrieveHandle s k = some (some (i - low)) ∧
      (low = 0 ↔ (keys 0).isSome) := by
  obtain ⟨is, his⟩ := h.holds
  have hi : i ∈ is := (his.mem_iff i).mpr (by simp [hk])
  obtain ⟨low, -, hle, hhandle⟩ := his.handleFromEntry hi
  refine ⟨low, hle, ?_, ?_⟩
  · change s.entryList.retrieveHandle k = _
    rw [EntryList.retrieveHandle, EntryList.findEntry_of_key his h.distinct hk]
    simp [hhandle]
  · rw [← his.mem_iff 0, ← his.handleFromEntry_eq_iff hi, hhandle, Option.some.injEq]
    omega

end EntryMap.Holds

instance : LawfulLookup K (EntryMap K) where
  Admits _ := True
  KeyOk := ListKeySpec.KeyOk
  Same k k' := k = k'
  Holds size n s keys := s.Holds size n keys
  Selects := Wins
  Exact := ListExact
  DeletesSafely _ _ := True
  keyOk_entry := ListKeySpec.keyOk_entry
  isSome_entryToMatchParams hb _ hok := ListKeySpec.isSome_entryToMatchParams hb hok
  same_refl _ := rfl
  exact_empty := ⟨by simp, by simp⟩
  isSome_of_selects h := h.mem
  holds_create {size n s} h := by
    cases h
    exact ⟨rfl, List.length_replicate, by simp, by simp [EntryList.Distinct], [],
      EntryList.holds_create size⟩
  holds_clear h := ⟨_, rfl, h.nbytesKey, h.length, by simp, by simp [EntryList.Distinct], [],
    EntryList.holds_clear _⟩
  entryExists_iff {_ _ s keys k} h _ := by
    obtain ⟨is, his⟩ := h.holds
    obtain ⟨r, hr, hspec⟩ := EntryList.findEntry_eq his k
    refine ⟨r.isSome, congrArg (Option.map Option.isSome) hr, ?_⟩
    cases r with
    | none =>
      refine iff_of_false (by simp) ?_
      rintro ⟨i, k', hk', rfl⟩
      exact hspec i hk'
    | some i => exact iff_of_true rfl ⟨i, k, hspec, rfl⟩
  holds_addEntry {size n s keys k i} h hok hnew hfree hbelow hsize hlt := by
    obtain ⟨is, his⟩ := h.holds
    obtain ⟨l', is', hadd, hholds, hlength⟩ :=
      EntryList.holds_add his k hfree hbelow (h.length.symm ▸ hsize) hlt
    refine ⟨_, congrArg (Option.map _) hadd, h.nbytesKey, hlength.trans h.length, ?_, ?_, is', hholds⟩
    · intro j k' hk'
      by_cases hji : j = i
      · rw [hji, Function.update_self, Option.some.injEq] at hk'
        exact hk' ▸ hok
      · rw [Function.update_of_ne hji] at hk'
        exact h.keyOk j k' hk'
    · intro j j' k' hj hj'
      by_cases hji : j = i
      · by_cases hji' : j' = i
        · rw [hji, hji']
        · rw [hji, Function.update_self, Option.some.injEq] at hj
          rw [Function.update_of_ne hji'] at hj'
          exact absurd hj.symm (hnew j' k' hj')
      · rw [Function.update_of_ne hji] at hj
        by_cases hji' : j' = i
        · rw [hji', Function.update_self, Option.some.injEq] at hj'
          exact absurd hj'.symm (hnew j k' hj)
        · rw [Function.update_of_ne hji'] at hj'
          exact h.distinct j j' k' hj hj'
  holds_deleteEntry {size n s keys k i} h hk := by
    obtain ⟨is, his⟩ := h.holds
    obtain ⟨l', is', hdelete, hholds, hlength⟩ := EntryList.holds_deleteEntry his h.distinct hk
    have hkept : ∀ j k', Function.update keys i none j = some k' → keys j = some k' := by
      intro j k' hk'
      by_cases hji : j = i
      · simp [hji] at hk'
      · rwa [Function.update_of_ne hji] at hk'
    exact ⟨_, congrArg (Option.map _) hdelete, fun _ => ⟨h.nbytesKey, hlength.trans h.length,
      fun j k' hk' => h.keyOk j k' (hkept j k' hk'),
      fun j j' k' hj hj' => h.distinct j j' k' (hkept j k' hj) (hkept j' k' hj'), is', hholds⟩⟩
  retrieveHandle_eq {size n s keys k i} h hexact hk := by
    obtain ⟨low, -, hret, hlow⟩ := h.retrieveHandle_eq hk
    obtain rfl := hlow.mpr (hexact.slot_zero i k hk)
    exact hret
  lookup_iff {size n s keys key} h hexact hlen := by
    obtain ⟨r, hr, hnone, hsome⟩ := h.lookup_spec hlen
    refine ⟨r, hr, fun i => ?_⟩
    have hlt : ∀ j, MatchesAt keys key j → EntryList.prioOf keys j < Int32.maxValue.toInt := by
      rintro j ⟨k, hk, -⟩
      refine lt_of_le_of_ne (EntryList.prioOf_le keys (by simp [hk] : (keys j).isSome)) fun heq => ?_
      rw [EntryList.prioOf, hk] at heq
      exact hexact.priority j k hk (Int32.toInt_inj.mp heq)
    by_cases hmatch : ∃ j, MatchesAt keys key j
    · obtain ⟨j, hj⟩ := hmatch
      obtain ⟨b, low, hwins, -, hlow, rfl⟩ := hsome ⟨j, hj, hlt j hj⟩
      obtain ⟨k, hk, -⟩ := hj
      obtain rfl := hlow.mpr (hexact.slot_zero j k hk)
      rw [Nat.sub_zero, Option.some.injEq]
      exact ⟨fun h => h ▸ hwins, fun h => hwins.unique h⟩
    · rw [hnone fun j hj => absurd ⟨j, hj⟩ hmatch]
      exact iff_of_false (by simp) fun hwins => hmatch ⟨i, hwins.candidate⟩

end Lists

end Bm
