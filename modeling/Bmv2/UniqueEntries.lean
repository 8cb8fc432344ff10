/-
# Entries are unique

No two live entries of a unit have the same effective key: the masked bytes in an exact
table, the bits of the prefix in an LPM table, and data, mask and priority in a ternary or
range table.  `add_entry` refuses a key that is live, and what it refuses changes nothing.

The lookup structure has to hold the keys for that, which a trie does as long as it deletes
safely: `entries_unique` is about runs, `lpm_entry_added_twice` about a trie that loses
entries.
-/
import Bmv2.MatchUnitInv

namespace Bm

variable {K V S E : Type}

namespace MatchUnit

section Add

variable [MatchKey K] [LookupStructure K S]

/-- The unit builds the key for some parameters. -/
def Builds (mu : MatchUnit K V S) (k : K) : Prop :=
  ∃ matchKey priority, mu.buildEntryFromMatchKey matchKey priority = some (.ok k)

/-- A live entry has the effective key of `k`. -/
def IsLive (mu : MatchUnit K V S) (effective : K → E) (k : K) : Prop :=
  ∃ i k', mu.keys i = some k' ∧ effective k' = effective k

/-- No two live entries have one effective key, the unit counts them, and `add_entry` fails exactly
when it should, without any effect. -/
structure EntriesUnique (mu : MatchUnit K V S) (effective : K → E) : Prop where
  distinct : ∀ i j k k', mu.keys i = some k → mu.keys j = some k' → effective k = effective k' → i = j
  numEntries : mu.numEntries = mu.handles.card
  le_size : mu.numEntries ≤ mu.size
  badMatchKey : ∀ matchKey value priority now r mu',
    mu.addEntry matchKey value priority now = some (r, mu') →
      (r = .error .badMatchKey ↔ mu.matchKeyBuilder.matchParamsSanityCheck matchKey = false)
  duplicateEntry : ∀ matchKey value priority now r mu',
    mu.addEntry matchKey value priority now = some (r, mu') →
      (r = .error .duplicateEntry ↔
        ∃ k, mu.buildEntryFromMatchKey matchKey priority = some (.ok k) ∧ mu.IsLive effective k)
  tableFull : ∀ matchKey value priority now r mu',
    mu.addEntry matchKey value priority now = some (r, mu') →
      (r = .error .tableFull ↔ mu.size ≤ mu.numEntries ∧
        ∃ k, mu.buildEntryFromMatchKey matchKey priority = some (.ok k) ∧ ¬ mu.IsLive effective k)
  unchanged : ∀ matchKey value priority now code mu',
    mu.addEntry matchKey value priority now = some (.error code, mu') → mu' = mu

/-! ## What `add_entry` returns -/

variable {mu mu' : MatchUnit K V S} {matchKey : List MatchKeyParam} {value : V} {priority : Int32}
  {now : ℕ}

omit [LookupStructure K S] in
theorem sanityCheck_of_build {k : K}
    (hbuild : mu.buildEntryFromMatchKey matchKey priority = some (.ok k)) :
    mu.matchKeyBuilder.matchParamsSanityCheck matchKey = true := by
  rw [buildEntryFromMatchKey] at hbuild
  split at hbuild
  next hcheck => exact hcheck
  next => cases hbuild

/-- What the checks of `add_entry` find before an entry is written. -/
inductive AddFails (mu : MatchUnit K V S) (matchKey : List MatchKeyParam) (priority : Int32) :
    MatchErrorCode → Prop
  | badMatchKey (hcheck : mu.matchKeyBuilder.matchParamsSanityCheck matchKey = false) :
      AddFails mu matchKey priority .badMatchKey
  | duplicateEntry (k : K) (hbuild : mu.buildEntryFromMatchKey matchKey priority = some (.ok k))
      (hexists : LookupStructure.entryExists mu.lookupStructure k = some true) :
      AddFails mu matchKey priority .duplicateEntry
  | tableFull (k : K) (hbuild : mu.buildEntryFromMatchKey matchKey priority = some (.ok k))
      (hnew : LookupStructure.entryExists mu.lookupStructure k = some false)
      (hfull : mu.size ≤ mu.numEntries) : AddFails mu matchKey priority .tableFull
  | noHandle (k : K) (hbuild : mu.buildEntryFromMatchKey matchKey priority = some (.ok k))
      (hnew : LookupStructure.entryExists mu.lookupStructure k = some false)
      (hroom : mu.numEntries < mu.size) (hfree : 2 ^ 64 ≤ lowestFree mu.handles) :
      AddFails mu matchKey priority .error

/-- `add_entry` fails at one of its checks and changes nothing, or it succeeds on a new key. -/
theorem addEntry_cases {r : Except MatchErrorCode ℕ}
    (hadd : mu.addEntry matchKey value priority now = some (r, mu')) :
    (∃ code, r = .error code ∧ mu' = mu ∧ mu.AddFails matchKey priority code) ∨
    ∃ handle k, r = .ok handle ∧ mu.buildEntryFromMatchKey matchKey priority = some (.ok k) ∧
      LookupStructure.entryExists mu.lookupStructure k = some false ∧ mu.numEntries < mu.size := by
  obtain ⟨⟨r₀, mu₀⟩, hadd', hadd⟩ := Option.bind_eq_some_iff.mp hadd
  obtain ⟨res, hbuild, hadd'⟩ := Option.bind_eq_some_iff.mp hadd'
  have herror : ∀ code, mu.AddFails matchKey priority code →
      some (Except.error code, mu) = some (r₀, mu₀) →
      ∃ code, r = .error code ∧ mu' = mu ∧ mu.AddFails matchKey priority code := by
    intro code hfails heq
    cases heq
    obtain ⟨rfl, rfl⟩ := Prod.mk.inj (Option.some.inj hadd)
    exact ⟨code, rfl, rfl, hfails⟩
  cases res with
  | error code =>
    left
    rw [buildEntryFromMatchKey] at hbuild
    split at hbuild
    · obtain ⟨_, -, hbuild⟩ := Option.bind_eq_some_iff.mp hbuild
      obtain ⟨_, -, hbuild⟩ := Option.bind_eq_some_iff.mp hbuild
      cases hbuild
    next hcheck =>
      cases hbuild
      exact herror _ (.badMatchKey (Bool.eq_false_iff.mpr hcheck)) hadd'
  | ok k =>
    obtain ⟨b, hb, hadd'⟩ := Option.bind_eq_some_iff.mp hadd'
    cases b with
    | true => exact .inl (herror _ (.duplicateEntry k hbuild hb) hadd')
    | false =>
      rw [if_neg (by simp), getAndSetHandle] at hadd'
      by_cases hfull : mu.size ≤ mu.numEntries
      · rw [if_pos hfull] at hadd'
        exact .inl (herror _ (.tableFull k hbuild hb hfull) hadd')
      · rw [if_neg hfull, HandleMgr.getHandle] at hadd'
        by_cases hfree : lowestFree mu.handles < 2 ^ 64
        · right
          rw [if_pos hfree] at hadd'
          obtain ⟨old, -, hadd'⟩ := Option.bind_eq_some_iff.mp hadd'
          obtain ⟨s, -, hadd'⟩ := Option.bind_eq_some_iff.mp hadd'
          obtain ⟨rfl, rfl⟩ := Prod.mk.inj (Option.some.inj hadd')
          obtain ⟨m, -, hadd⟩ := Option.bind_eq_some_iff.mp hadd
          obtain ⟨rfl, -⟩ := Prod.mk.inj (Option.some.inj hadd)
          exact ⟨_, k, rfl, hbuild, hb, not_le.mp hfull⟩
        · rw [if_neg hfree] at hadd'
          exact .inl (herror _ (.noHandle k hbuild hb (not_le.mp hfull) (not_lt.mp hfree)) hadd')

/-! ## The invariant -/

variable [LawfulLookup K S] {fs : List KeyField} {effective : K → E}

/-- The live keys have been built by the unit, and one that is live is not added again. -/
structure Distinct (mu : MatchUnit K V S) : Prop where
  builds : ∀ i k, mu.keys i = some k → mu.Builds k
  eq_of_same : ∀ i j k k', mu.keys i = some k → mu.keys j = some k' → LawfulLookup.Same k k' → i = j

/-- Whether a key is live is what the lookup structure answers. -/
theorem Inv.isLive_iff (h : mu.Inv fs) (hdistinct : mu.Distinct)
    (hsame : ∀ k k', mu.Builds k → mu.Builds k' →
      (LawfulLookup.Same k k' ↔ effective k = effective k'))
    {k : K} (hbuild : mu.buildEntryFromMatchKey matchKey priority = some (.ok k)) {b : Bool}
    (hexists : LookupStructure.entryExists mu.lookupStructure k = some b) :
    b = true ↔ mu.IsLive effective k := by
  obtain ⟨b', hb', hiff⟩ := LawfulLookup.entryExists_iff h.holds (h.keyOk hbuild)
  obtain rfl := Option.some.inj (hb'.symm.trans hexists)
  rw [hiff]
  constructor
  · rintro ⟨i, k', hk', heq⟩
    exact ⟨i, k', hk', (hsame k' k (hdistinct.builds i k' hk') ⟨_, _, hbuild⟩).mp heq⟩
  · rintro ⟨i, k', hk', heq⟩
    exact ⟨i, k', hk', (hsame k' k (hdistinct.builds i k' hk') ⟨_, _, hbuild⟩).mpr heq⟩

/-- The result of `add_entry` tells which check failed. -/
theorem Inv.addEntry_spec (h : mu.Inv fs) (hdistinct : mu.Distinct)
    (hsame : ∀ k k', mu.Builds k → mu.Builds k' →
      (LawfulLookup.Same k k' ↔ effective k = effective k')) {r : Except MatchErrorCode ℕ}
    (hadd : mu.addEntry matchKey value priority now = some (r, mu')) :
    (r = .error .badMatchKey ↔ mu.matchKeyBuilder.matchParamsSanityCheck matchKey = false) ∧
    (r = .error .duplicateEntry ↔
      ∃ k, mu.buildEntryFromMatchKey matchKey priority = some (.ok k) ∧ mu.IsLive effective k) ∧
    (r = .error .tableFull ↔ mu.size ≤ mu.numEntries ∧
      ∃ k, mu.buildEntryFromMatchKey matchKey priority = some (.ok k) ∧ ¬ mu.IsLive effective k) ∧
    ∀ code, r = .error code → mu' = mu := by
  -- a key that has been built passed the check, and is the only one
  have hchecked : ∀ k, mu.buildEntryFromMatchKey matchKey priority = some (.ok k) →
      mu.matchKeyBuilder.matchParamsSanityCheck matchKey ≠ false := by
    intro k hbuild hcheck
    rw [sanityCheck_of_build hbuild] at hcheck
    cases hcheck
  have hlive : ∀ k, mu.buildEntryFromMatchKey matchKey priority = some (.ok k) →
      ∀ b, LookupStructure.entryExists mu.lookupStructure k = some b →
      ((∃ k', mu.buildEntryFromMatchKey matchKey priority = some (.ok k') ∧ mu.IsLive effective k') ↔
        b = true) ∧
      ((∃ k', mu.buildEntryFromMatchKey matchKey priority = some (.ok k') ∧
        ¬ mu.IsLive effective k') ↔ b = false) := by
    intro k hbuild b hb
    have hiff := h.isLive_iff hdistinct hsame hbuild hb
    simp only [hbuild, Option.some.injEq, Except.ok.injEq, exists_eq_left', ← hiff,
      Bool.not_eq_true, and_self]
  rcases addEntry_cases hadd with ⟨code, rfl, rfl, hfails⟩ | ⟨handle, k, rfl, hbuild, hnew, hroom⟩
  · cases hfails with
    | badMatchKey hcheck =>
      have hnone : ∀ P : K → Prop,
          ¬ ∃ k, mu'.buildEntryFromMatchKey matchKey priority = some (.ok k) ∧ P k :=
        fun P hk => hchecked _ hk.choose_spec.1 hcheck
      simp [hcheck, hnone]
    | duplicateEntry k hbuild hexists =>
      obtain ⟨hyes, hno⟩ := hlive k hbuild true hexists
      simp [hyes, hno, hchecked k hbuild]
    | tableFull k hbuild hnew hfull =>
      obtain ⟨hyes, hno⟩ := hlive k hbuild false hnew
      simp [hyes, hno, hchecked k hbuild, hfull]
    | noHandle k hbuild hnew hroom _ =>
      obtain ⟨hyes, hno⟩ := hlive k hbuild false hnew
      simp [hyes, hno, hchecked k hbuild, hroom]
  · obtain ⟨hyes, hno⟩ := hlive k hbuild false hnew
    simp [hyes, hno, hchecked k hbuild, hroom]

theorem Inv.entriesUnique (h : mu.Inv fs) (hdistinct : mu.Distinct)
    (hsame : ∀ k k', mu.Builds k → mu.Builds k' →
      (LawfulLookup.Same k k' ↔ effective k = effective k')) : mu.EntriesUnique effective where
  distinct i j k k' hk hk' heq := hdistinct.eq_of_same i j k k' hk hk'
    ((hsame k k' (hdistinct.builds i k hk) (hdistinct.builds j k' hk')).mpr heq)
  numEntries := h.card.symm
  le_size := by
    rw [← h.card, ← Finset.card_range mu.size]
    exact Finset.card_le_card fun i hi => Finset.mem_range.mpr (h.lt i hi).1
  badMatchKey _ _ _ _ _ _ hadd := (h.addEntry_spec hdistinct hsame hadd).1
  duplicateEntry _ _ _ _ _ _ hadd := (h.addEntry_spec hdistinct hsame hadd).2.1
  tableFull _ _ _ _ _ _ hadd := (h.addEntry_spec hdistinct hsame hadd).2.2.1
  unchanged _ _ _ _ code _ hadd := (h.addEntry_spec hdistinct hsame hadd).2.2.2 code rfl

omit [LookupStructure K S] [LawfulLookup K S] in
/-- The keys of a unit that has the same layout are built alike. -/
theorem Builds.congr {k : K} (h : mu.Builds k) (hkb : mu'.matchKeyBuilder = mu.matchKeyBuilder) :
    mu'.Builds k := by
  obtain ⟨matchKey, priority, hbuild⟩ := h
  refine ⟨matchKey, priority, ?_⟩
  rw [← hbuild, buildEntryFromMatchKey, buildEntryFromMatchKey, hkb]

/-- Keys that stay where they are, but for some that go. -/
theorem Distinct.of_subset (h : mu.Distinct) (hkb : mu'.matchKeyBuilder = mu.matchKeyBuilder)
    (hkeys : ∀ i k, mu'.keys i = some k → mu.keys i = some k) : mu'.Distinct where
  builds i k hk := (h.builds i k (hkeys i k hk)).congr hkb
  eq_of_same i j k k' hk hk' := h.eq_of_same i j k k' (hkeys i k hk) (hkeys j k' hk')

/-- **Step lemma.** -/
theorem Distinct.of_effect [Inhabited K] [Inhabited V] (h : mu.Distinct) (hinv : mu.Inv fs)
    (hsymm : ∀ k k' : K, LawfulLookup.Same k k' → LawfulLookup.Same k' k) {op : UnitOp V}
    {r : UnitResult V} (hshape : SameShape mu mu') (heffect : Effect mu mu' op r) : mu'.Distinct := by
  cases heffect with
  | quiet hquiet hhandles hentries _ =>
    refine h.of_subset hshape.matchKeyBuilder fun i k hk => ?_
    rwa [keys, live_congr hhandles hentries] at hk
  | added k old hbuild hnew hlt _ _ hhandles hentries _ =>
    have hkeys := keys_update (live_added hinv.toSlots hlt hhandles hentries)
    obtain ⟨b, hb, hiff⟩ := LawfulLookup.entryExists_iff hinv.holds (hinv.keyOk hbuild)
    obtain rfl : b = false := Option.some.inj (hb.symm.trans hnew)
    have hfresh : ∀ i k', mu.keys i = some k' → ¬ LawfulLookup.Same k' k :=
      fun i k' hk' hsame => by simpa using hiff.mpr ⟨i, k', hk', hsame⟩
    constructor
    · intro i k' hk'
      rw [hkeys] at hk'
      by_cases hi : i = lowestFree mu.handles
      · rw [hi, Function.update_self] at hk'
        cases hk'
        exact Builds.congr ⟨_, _, hbuild⟩ hshape.matchKeyBuilder
      · rw [Function.update_of_ne hi] at hk'
        exact (h.builds i k' hk').congr hshape.matchKeyBuilder
    · intro i j k₁ k₂ hk₁ hk₂ hsame
      rw [hkeys] at hk₁ hk₂
      by_cases hi : i = lowestFree mu.handles <;> by_cases hj : j = lowestFree mu.handles
      · rw [hi, hj]
      · rw [hi, Function.update_self] at hk₁
        rw [Function.update_of_ne hj] at hk₂
        cases hk₁
        exact absurd (hsymm _ _ hsame) (hfresh j k₂ hk₂)
      · rw [hj, Function.update_self] at hk₂
        rw [Function.update_of_ne hi] at hk₁
        cases hk₂
        exact absurd hsame (hfresh i k₁ hk₁)
      · rw [Function.update_of_ne hi] at hk₁
        rw [Function.update_of_ne hj] at hk₂
        exact h.eq_of_same i j k₁ k₂ hk₁ hk₂ hsame
  | @deleted handle e hcheck hhandles hentries _ =>
    refine h.of_subset hshape.matchKeyBuilder fun i k hk => ?_
    rw [keys_update (live_deleted hhandles hentries)] at hk
    by_cases hi : i = handleInternal handle
    · rw [hi, Function.update_self] at hk
      cases hk
    · rwa [Function.update_of_ne hi] at hk
  | modified e hcheck hhandles hentries _ =>
    obtain ⟨hlive, -⟩ := hinv.checkHandle_eq_ok.mp hcheck
    have hkey : mu.keys (handleInternal _) = some e.key := keys_eq_some.mpr ⟨e, hlive, rfl⟩
    refine h.of_subset hshape.matchKeyBuilder fun i k hk => ?_
    rwa [keys_update (live_modified hinv.toSlots (live_eq_some.mp hlive).1 hhandles hentries),
      Option.map_some, ← hkey, Function.update_eq_self] at hk
  | reset hhandles _ _ =>
    refine h.of_subset hshape.matchKeyBuilder fun i k hk => ?_
    rw [keys, live_of_handles hhandles] at hk
    cases hk

end Add

/-! ## Progress -/

section Progress

variable [MatchKey K] [LookupStructure K S] {fs : List KeyField} {mu : MatchUnit K V S}
  {matchKey : List MatchKeyParam} {priority : Int32}

omit [LookupStructure K S] in
/-- A key is built, or the parameters are refused. -/
theorem exists_build (hb : mu.matchKeyBuilder.Built fs)
    (hentry : mu.matchKeyBuilder.matchParamsSanityCheck matchKey = true → ∃ key : K,
      MatchKey.matchParamsToEntry mu.matchKeyBuilder matchKey = some key ∧
      (MatchKey.data key).length = mu.matchKeyBuilder.nbytesKey) :
    ∃ res, mu.buildEntryFromMatchKey matchKey priority = some res := by
  rw [buildEntryFromMatchKey]
  split
  next hcheck =>
    obtain ⟨key, hkey, hlen⟩ := hentry hcheck
    obtain ⟨data, hdata⟩ := MatchKeyBuilder.exists_applyBigMask hb hlen
    rw [hkey, Option.bind_eq_bind, Option.bind_some, hdata]
    exact ⟨_, rfl⟩
  next => exact ⟨_, rfl⟩

theorem handleInternal_handleSet_le (v slot : ℕ) : handleInternal (handleSet v slot) ≤ slot := by
  rw [handleInternal_eq_mod, handleSet, Nat.mod_mod_of_dvd _ (by decide), Nat.or_mod_two_pow]
  have hzero : ((v &&& 0xff) <<< 24) % 2 ^ 24 = 0 := by
    rw [Nat.shiftLeft_eq]
    exact Nat.mul_mod_left _ _
  rw [hzero, Nat.zero_or]
  exact Nat.mod_le _ _

/-- `add_entry` returns when the lookup structure answers and takes the key. -/
theorem Slots.exists_addEntry (h : mu.Slots) {k : K} {b : Bool}
    (hbuild : mu.buildEntryFromMatchKey matchKey priority = some (.ok k))
    (hb : LookupStructure.entryExists mu.lookupStructure k = some b)
    (hs : b = false → lowestFree mu.handles < mu.size → lowestFree mu.handles < 2 ^ 64 →
      ∃ s, LookupStructure.addEntry mu.lookupStructure k (lowestFree mu.handles) = some s)
    (value : V) (now : ℕ) : ∃ r mu', mu.addEntry matchKey value priority now = some (r, mu') := by
  rw [addEntry, addEntry_, hbuild]
  simp only [Option.bind_eq_bind, Option.bind_some, hb]
  cases b with
  | true => exact ⟨_, _, rfl⟩
  | false =>
    simp only [Bool.false_eq_true, if_false, getAndSetHandle]
    by_cases hfull : mu.size ≤ mu.numEntries
    · rw [if_pos hfull]
      exact ⟨_, _, rfl⟩
    · rw [if_neg hfull, HandleMgr.getHandle]
      by_cases hfree : lowestFree mu.handles < 2 ^ 64
      · have hlt : lowestFree mu.handles < mu.size := lowestFree_lt (by rw [h.card]; omega)
        obtain ⟨s, hs⟩ := hs rfl hlt hfree
        have hentry : lowestFree mu.handles < mu.entries.length := h.length_entries.symm ▸ hlt
        have hmeta : handleInternal (handleSet mu.entries[lowestFree mu.handles].version
            (lowestFree mu.handles)) < mu.entryMeta.length :=
          (handleInternal_handleSet_le _ _).trans_lt (h.length_entryMeta.symm ▸ hlt)
        rw [if_pos hfree]
        simp only [List.getElem?_eq_getElem hentry, Option.bind_some, hs, pure,
          List.getElem?_eq_getElem hmeta]
        exact ⟨_, _, rfl⟩
      · rw [if_neg hfree]
        exact ⟨_, _, rfl⟩

/-- `add_entry` returns. -/
theorem Inv.exists_addEntry [LawfulLookup K S] (h : mu.Inv fs)
    (hbuild : ∃ res, mu.buildEntryFromMatchKey matchKey priority = some res) (value : V) (now : ℕ) :
    ∃ r mu', mu.addEntry matchKey value priority now = some (r, mu') := by
  obtain ⟨res, hbuild⟩ := hbuild
  cases res with
  | error code =>
    rw [addEntry, addEntry_, hbuild]
    exact ⟨_, _, rfl⟩
  | ok k =>
    have hok := h.keyOk hbuild
    obtain ⟨b, hb, hiff⟩ := LawfulLookup.entryExists_iff h.holds hok
    refine h.toSlots.exists_addEntry hbuild hb (fun hfalse hlt hfree => ?_) value now
    have hslot : mu.keys (lowestFree mu.handles) = none :=
      Option.not_isSome_iff_eq_none.mp (mt h.isSome_keys.mp (lowestFree_notMem mu.handles))
    obtain ⟨s, hs, -⟩ := LawfulLookup.holds_addEntry h.holds hok
      (fun i k' hk' hsame => by simpa [hfalse] using hiff.mpr ⟨i, k', hk', hsame⟩) hslot
      (fun j hj => h.isSome_keys.mpr (mem_of_lt_lowestFree hj)) hlt hfree
    exact ⟨s, hs⟩

end Progress

/-! ## Runs -/

/-- **Run lemma.**  The entries are unique in every state that a run reaches whose deletions the
lookup structure can make. -/
theorem entriesUnique_of_run [Inhabited K] [Inhabited V] [MatchKey K] [LookupStructure K S]
    [LawfulLookup K S] {fs : List KeyField} {effective : K → E}
    (hsymm : ∀ k k' : K, LawfulLookup.Same k k' → LawfulLookup.Same k' k)
    (hsame : ∀ mu : MatchUnit K V S, mu.Inv fs → ∀ k k', mu.Builds k → mu.Builds k' →
      (LawfulLookup.Same k k' ↔ effective k = effective k'))
    {size : ℕ} {kb : MatchKeyBuilder} (hfs : MatchKeyBuilder.ofFields fs = some kb)
    {mu₀ mu : MatchUnit K V S} (hcreate : create size kb = some mu₀) {ops : List (UnitOp V)}
    (hops : RunMeets step DeletesSafely mu₀ ops) (hrun : runFrom step mu₀ ops = some mu) :
    mu.Inv fs ∧ mu.EntriesUnique effective := by
  obtain ⟨hinv, hlive⟩ := inv_create hfs hcreate
  have hempty : ∀ i k, mu₀.keys i ≠ some k := by
    intro i k hk
    rw [keys, hlive] at hk
    cases hk
  have hstart : mu₀.Distinct :=
    ⟨fun i k hk => absurd hk (hempty i k), fun i j k k' hk => absurd hk (hempty i k)⟩
  obtain ⟨hinv', hdistinct⟩ : mu.Inv fs ∧ mu.Distinct := by
    refine runFrom_invariant_of_meets (I := fun mu => mu.Inv fs ∧ mu.Distinct)
      (fun mu op mu' h hC hstep => ?_) ⟨hinv, hstart⟩ hops hrun
    obtain ⟨⟨r, mu₁⟩, hexec, rfl⟩ := Option.map_eq_some_iff.mp hstep
    obtain ⟨hshape, hslots, heffect⟩ := h.1.toSlots.exec_effect hexec
    exact ⟨h.1.of_effect hshape hslots heffect hC, h.2.of_effect h.1 hsymm hshape heffect⟩
  exact ⟨hinv', hinv'.entriesUnique hdistinct (hsame mu hinv')⟩

/-- Deletions are safe where the lookup structure can take out every key. -/
theorem deletesSafely_of_forall [Inhabited K] [Inhabited V] [MatchKey K] [LookupStructure K S]
    [LawfulLookup K S] (hall : ∀ (s : S) (k : K), LawfulLookup.DeletesSafely s k)
    {mu : MatchUnit K V S} {ops : List (UnitOp V)} : RunMeets step DeletesSafely mu ops := by
  refine RunMeets.imp (fun mu op _ => ?_) (RunMeets.of_forall (P := fun _ => True) fun _ _ => trivial)
  cases op with
  | deleteEntry handle => exact fun e _ => hall _ _
  | _ => trivial

end MatchUnit

/-! ## Effective keys -/

/-- The bytes behind the mask. -/
def ExactMatchKey.effective (k : ExactMatchKey) : ByteContainer := k.data

/-- Data, mask and priority. -/
def TernaryMatchKey.effective (k : TernaryMatchKey) : ByteContainer × ByteContainer × Int32 :=
  (k.data, k.mask, k.priority)

namespace MatchKeyBuilder

variable {kb : MatchKeyBuilder} {fs : List KeyField} {params : List MatchKeyParam}

/-- Checked parameters have as many key bytes as their fields, which are not empty. -/
theorem key_ne_nil (hpos : ∀ f ∈ fs, 0 < f.toKeyF.nbits)
    (hcheck : List.Forall₂ (fun f param => paramOk param (KeyField.toKeyF f) = true)
      (implFields fs) (implParams fs params)) : ∀ p ∈ implParams fs params, p.key ≠ [] := by
  intro p hp hnil
  obtain ⟨i, hi, rfl⟩ := List.getElem_of_mem hp
  have hi' : i < (implFields fs).length := hcheck.length_eq ▸ hi
  have hok := hcheck.get hi' hi
  have hlen := length_key_of_paramOk hok
  have hf := hpos _ ((implFields_perm fs).mem_iff.mp (List.getElem_mem hi'))
  simp only [List.get_eq_getElem] at hlen
  rw [hnil, List.length_nil, KeyF.nbytes, nbitsToNbytes] at hlen
  omega

/-- A key with a field has a byte. -/
theorem sum_implSizes_ne_zero (hpos : ∀ f ∈ fs, 0 < f.toKeyF.nbits) (hne : fs ≠ []) :
    (implSizes fs).sum ≠ 0 := by
  intro hzero
  obtain ⟨f, hf⟩ := List.exists_mem_of_ne_nil fs hne
  rw [implSizes, List.map_map] at hzero
  have hnbytes := List.sum_eq_zero_iff.mp hzero f.toKeyF.nbytes
    (List.mem_map.mpr ⟨f, (implFields_perm fs).mem_iff.mpr hf, rfl⟩)
  have hbits := hpos f hf
  rw [KeyF.nbytes, nbitsToNbytes] at hnbytes
  omega

/-- The widths of the ranges among checked parameters are those of the range fields. -/
theorem rangeWidthsOf_eq
    (hcheck : List.Forall₂ (fun f param => paramOk param (KeyField.toKeyF f) = true)
      (implFields fs) (implParams fs params)) :
    rangeWidthsOf (implParams fs params) =
      ((implFields fs).filter fun f => f.toKeyF.mtype = .range).map fun f => f.toKeyF.nbytes := by
  rw [rangeWidthsOf]
  generalize implFields fs = fields, implParams fs params = ps at hcheck
  induction hcheck with
  | nil => rfl
  | @cons f p fields ps hp _ ih =>
    have hlen := length_key_of_paramOk hp
    have htype : p.type = f.toKeyF.mtype := by
      simp only [paramOk, Bool.and_eq_true, beq_iff_eq] at hp
      exact hp.1.1
    rw [List.filter_cons, List.filter_cons, htype]
    split
    · rw [List.map_cons, List.map_cons, ih, hlen]
    · exact ih

/-! ### Keys can be built -/

variable (hb : kb.Built fs) (hpos : ∀ f ∈ fs, 0 < f.toKeyF.nbits)
  (hcheck : kb.matchParamsSanityCheck params = true)
include hb hpos hcheck

theorem exists_exactEntry : ∃ key : ExactMatchKey,
    MatchKey.matchParamsToEntry kb params = some key ∧ (MatchKey.data key).length = kb.nbytesKey := by
  obtain ⟨hlen, hall⟩ := (matchParamsSanityCheck_iff hb params).mp hcheck
  refine ⟨⟨paramData fs params⟩, ?_, (length_paramData hall).trans hb.nbytesKey.symm⟩
  show exactMatchParamsToEntry kb params = _
  rw [exactMatchParamsToEntry_eq hb hlen, if_pos (key_ne_nil hpos hall)]

theorem exists_lpmEntry (hadmits : ∀ f ∈ fs, f.mtype = .exact ∨ f.mtype = .valid ∨ f.mtype = .lpm) :
    ∃ key : LPMMatchKey,
      MatchKey.matchParamsToEntry kb params = some key ∧
        (MatchKey.data key).length = kb.nbytesKey := by
  obtain ⟨hlen, hall⟩ := (matchParamsSanityCheck_iff hb params).mp hcheck
  have hfields : ∀ f ∈ implFields fs, f.mtype = .exact ∨ f.mtype = .valid ∨ f.mtype = .lpm :=
    fun f hf => hadmits f ((implFields_perm fs).mem_iff.mp hf)
  have hfold : ∀ x : ℤ, ∃ y, (implParams fs params).foldlM (fun prefixLength param =>
      (paramPrefixLength param).map (prefixLength + ·)) x = some y := by
    generalize implFields fs = fields, implParams fs params = ps at hall hfields
    induction hall with
    | nil => exact fun x => ⟨x, rfl⟩
    | @cons f p fields ps hp _ ih =>
      intro x
      have htype : p.type = f.toKeyF.mtype := by
        simp only [paramOk, Bool.and_eq_true, beq_iff_eq] at hp
        exact hp.1.1
      obtain ⟨d, hd⟩ : ∃ d, paramPrefixLength p = some d := by
        have hf := hfields f List.mem_cons_self
        rw [paramPrefixLength, htype, KeyField.toKeyF]
        split <;> rcases hf with h | h | h <;> simp_all
      obtain ⟨y, hy⟩ := ih (fun g hg => hfields g (List.mem_cons_of_mem _ hg)) (x + d)
      refine ⟨y, ?_⟩
      rw [List.foldlM_cons, hd]
      exact hy
  obtain ⟨prefixLength, hprefix⟩ := hfold 0
  refine ⟨⟨paramData fs params, prefixLength⟩, ?_, (length_paramData hall).trans hb.nbytesKey.symm⟩
  show lpmMatchParamsToEntry kb params = _
  rw [lpmMatchParamsToEntry_eq hb hlen, if_pos (key_ne_nil hpos hall), hprefix]
  rfl

theorem exists_ternaryEntry (hne : fs ≠ []) : ∃ key : TernaryMatchKey,
    MatchKey.matchParamsToEntry kb params = some key ∧ (MatchKey.data key).length = kb.nbytesKey := by
  obtain ⟨hlen, hall⟩ := (matchParamsSanityCheck_iff hb params).mp hcheck
  have hdata := length_paramData hall
  have hmask := length_paramMaskBytes hall
  have hnonempty : paramData fs params ≠ [] := by
    intro hnil
    rw [hnil, List.length_nil] at hdata
    exact sum_implSizes_ne_zero hpos hne hdata.symm
  refine ⟨⟨andBytes (paramData fs params) (paramMaskBytes fs params), paramMaskBytes fs params,
    Int32.maxValue⟩, ?_, ?_⟩
  · show ternaryMatchParamsToEntry kb params = _
    rw [ternaryMatchParamsToEntry, matchParamsToEntryTernaryAndRange_eq hb hlen,
      if_pos (key_ne_nil hpos hall)]
    simp only [Option.bind_eq_bind, Option.bind_some]
    rw [if_pos ⟨hdata.trans hmask.symm, hnonempty⟩]
  · exact (length_andBytes (hdata.trans hmask.symm)).trans (hdata.trans hb.nbytesKey.symm)

theorem exists_rangeEntry : ∃ key : RangeMatchKey,
    MatchKey.matchParamsToEntry kb params = some key ∧ (MatchKey.data key).length = kb.nbytesKey := by
  obtain ⟨hlen, hall⟩ := (matchParamsSanityCheck_iff hb params).mp hcheck
  have hdata := length_paramData hall
  have hmask := length_paramMaskBytes hall
  have hsum : (rangeWidthsOf (implParams fs params)).sum ≤ (paramData fs params).length := by
    rw [hdata]
    exact (sum_rangeWidthsOf_le _).trans_eq (congrArg List.sum (map_length_key hall))
  have hentry : rangeMatchParamsToEntry kb params = some
      { data := (paramData fs params).take (rangeWidthsOf (implParams fs params)).sum ++
          andBytes ((paramData fs params).drop (rangeWidthsOf (implParams fs params)).sum)
            ((paramMaskBytes fs params).drop (rangeWidthsOf (implParams fs params)).sum)
        mask := paramMaskBytes fs params
        rangeWidths := rangeWidthsOf (implParams fs params) } := by
    rw [rangeMatchParamsToEntry, matchParamsToEntryTernaryAndRange_eq hb hlen,
      if_pos (key_ne_nil hpos hall), foldlM_rangeWidths hb hlen]
    simp only [Option.bind_eq_bind, Option.bind_some]
    rw [if_pos ⟨hdata.trans hmask.symm, hsum⟩]
  refine ⟨_, hentry, ?_⟩
  show (List.take _ _ ++ andBytes (List.drop _ _) (List.drop _ _)).length = _
  rw [List.length_append, length_andBytes (by simp [hdata, hmask]), List.length_take,
    List.length_drop, hb.nbytesKey, ← hdata]
  omega

end MatchKeyBuilder

open MatchKeyBuilder MatchUnit

section Kinds

variable {V : Type} {fs : List KeyField}

/-- The range keys of a unit are split alike. -/
theorem rangeWidths_of_builds {mu : MatchUnit RangeMatchKey V RangeMap} (h : mu.Inv fs)
    {k : RangeMatchKey} (hbuilds : mu.Builds k) : k.rangeWidths =
      ((implFields fs).filter fun f => f.toKeyF.mtype = .range).map fun f => f.toKeyF.nbytes := by
  obtain ⟨matchKey, priority, hbuild⟩ := hbuilds
  obtain ⟨hlen, hall⟩ := (matchParamsSanityCheck_iff h.built matchKey).mp
    (sanityCheck_of_build hbuild)
  rw [buildEntryFromMatchKey, if_pos (sanityCheck_of_build hbuild)] at hbuild
  obtain ⟨key, hkey, hbuild⟩ := Option.bind_eq_some_iff.mp hbuild
  obtain ⟨data, -, hbuild⟩ := Option.bind_eq_some_iff.mp hbuild
  cases hbuild
  show key.rangeWidths = _
  change rangeMatchParamsToEntry mu.matchKeyBuilder matchKey = some key at hkey
  rw [rangeMatchParamsToEntry, foldlM_rangeWidths h.built hlen] at hkey
  obtain ⟨⟨data', mask⟩, -, hkey⟩ := Option.bind_eq_some_iff.mp hkey
  simp only [Option.bind_eq_bind, Option.bind_some] at hkey
  split at hkey
  · cases hkey
    exact rangeWidthsOf_eq hall
  · cases hkey

theorem same_exact_iff (k k' : ExactMatchKey) :
    LawfulLookup.Same k k' ↔ k.effective = k'.effective := by
  cases k
  cases k'
  exact ExactMatchKey.mk.injEq _ _ ▸ Iff.rfl

theorem same_ternary_iff (k k' : TernaryMatchKey) :
    LawfulLookup.Same k k' ↔ k.effective = k'.effective := by
  cases k
  cases k'
  show TernaryMatchKey.mk _ _ _ = _ ↔ _
  simp [TernaryMatchKey.effective]

theorem same_range_iff {mu : MatchUnit RangeMatchKey V RangeMap} (h : mu.Inv fs)
    {k k' : RangeMatchKey} (hk : mu.Builds k) (hk' : mu.Builds k') :
    LawfulLookup.Same k k' ↔ k.effective = k'.effective := by
  have hwidths := (rangeWidths_of_builds h hk).trans (rangeWidths_of_builds h hk').symm
  rw [← same_ternary_iff]
  cases k
  cases k'
  subst hwidths
  show RangeMatchKey.mk _ _ = _ ↔ TernaryMatchKey.mk _ _ _ = _
  simp

end Kinds

/-- `add_entry` returns, whatever it is called with. -/
def MatchUnit.AddReturns {K V S : Type} [MatchKey K] [LookupStructure K S] (mu : MatchUnit K V S) :
    Prop :=
  ∀ matchKey value priority now, ∃ r mu', mu.addEntry matchKey value priority now = some (r, mu')

/-- **Entries are unique.**  In every state that a run of an empty unit of any kind reaches no two
live entries share their effective key, and `add_entry` fails without effect exactly for bad
parameters, for a key that is live and in a full unit; in an LPM unit the deletions of the
run have to be safe. -/
theorem entries_unique {V : Type} [Inhabited V] {fs : List KeyField} {kb : MatchKeyBuilder}
    (hfs : MatchKeyBuilder.ofFields fs = some kb) (size : ℕ) (ops : List (UnitOp V)) :
    (∀ mu₀ mu : MatchUnit ExactMatchKey V ExactMap, create size kb = some mu₀ →
      runFrom step mu₀ ops = some mu → mu.EntriesUnique ExactMatchKey.effective ∧
        ((∀ f ∈ fs, 0 < f.toKeyF.nbits) → mu.AddReturns)) ∧
    (∀ mu₀ mu : MatchUnit LPMMatchKey V LPMTrieStructure, create size kb = some mu₀ →
      RunMeets step DeletesSafely mu₀ ops → runFrom step mu₀ ops = some mu →
      mu.EntriesUnique LPMMatchKey.bits ∧ ((∀ f ∈ fs, 0 < f.toKeyF.nbits) →
        (∀ f ∈ fs, f.mtype = .exact ∨ f.mtype = .valid ∨ f.mtype = .lpm) → mu.AddReturns)) ∧
    (∀ mu₀ mu : MatchUnit TernaryMatchKey V TernaryMap, create size kb = some mu₀ →
      runFrom step mu₀ ops = some mu → mu.EntriesUnique TernaryMatchKey.effective ∧
        ((∀ f ∈ fs, 0 < f.toKeyF.nbits) → fs ≠ [] → mu.AddReturns)) ∧
    (∀ mu₀ mu : MatchUnit RangeMatchKey V RangeMap, create size kb = some mu₀ →
      runFrom step mu₀ ops = some mu →
      mu.EntriesUnique (fun k => k.toTernaryMatchKey.effective) ∧
        ((∀ f ∈ fs, 0 < f.toKeyF.nbits) → mu.AddReturns)) := by
  refine ⟨fun mu₀ mu hcreate hrun => ?_, fun mu₀ mu hcreate hops hrun => ?_,
    fun mu₀ mu hcreate hrun => ?_, fun mu₀ mu hcreate hrun => ?_⟩
  · obtain ⟨hinv, hunique⟩ := entriesUnique_of_run (fun k k' h => Eq.symm h)
      (fun _ _ k k' _ _ => same_exact_iff k k') hfs hcreate (deletesSafely_of_forall fun _ _ => trivial) hrun
    exact ⟨hunique, fun hpos matchKey value priority now => hinv.exists_addEntry
      (exists_build hinv.built (exists_exactEntry hinv.built hpos)) value now⟩
  · obtain ⟨hinv, hunique⟩ := entriesUnique_of_run (fun k k' h => Eq.symm h)
      (fun _ _ k k' _ _ => Iff.rfl) hfs hcreate hops hrun
    exact ⟨hunique, fun hpos hadmits matchKey value priority now => hinv.exists_addEntry
      (exists_build hinv.built fun hcheck => exists_lpmEntry hinv.built hpos hcheck hadmits) value now⟩
  · obtain ⟨hinv, hunique⟩ := entriesUnique_of_run (fun k k' h => Eq.symm h)
      (fun _ _ k k' _ _ => same_ternary_iff k k') hfs hcreate (deletesSafely_of_forall fun _ _ => trivial) hrun
    exact ⟨hunique, fun hpos hne matchKey value priority now => hinv.exists_addEntry
      (exists_build hinv.built fun hcheck => exists_ternaryEntry hinv.built hpos hcheck hne) value now⟩
  · obtain ⟨hinv, hunique⟩ := entriesUnique_of_run (fun k k' h => Eq.symm h)
      (fun _ hinv k k' hk hk' => same_range_iff hinv hk hk') hfs hcreate
      (deletesSafely_of_forall fun _ _ => trivial) hrun
    exact ⟨hunique, fun hpos matchKey value priority now => hinv.exists_addEntry
      (exists_build hinv.built (exists_rangeEntry hinv.built hpos)) value now⟩

/-- A ternary unit in which 0x11 behind the mask 0x0f is the same key as 0x01. -/
theorem entries_unique_masked :
    ∃ kb, ∃ mu₀ mu : MatchUnit TernaryMatchKey ℕ TernaryMap,
      MatchKeyBuilder.ofFields [⟨0, 0, .ternary, 8, none⟩] = some kb ∧ create 2 kb = some mu₀ ∧
      runFrom step mu₀ [.addEntry [⟨.ternary, [0x11], [0x0f], 0⟩] 10 1 0] = some mu ∧
      (mu.addEntry [⟨.ternary, [0x01], [0x0f], 0⟩] 20 1 0).map (·.1) =
        some (.error .duplicateEntry) ∧
      mu.EntriesUnique TernaryMatchKey.effective := by
  refine ⟨_, _, _, rfl, rfl, rfl, rfl, ?_⟩
  have hfs : MatchKeyBuilder.ofFields [⟨0, 0, .ternary, 8, none⟩] = some _ := rfl
  exact ((entries_unique hfs 2 [.addEntry [⟨.ternary, [0x11], [0x0f], 0⟩] 10 1 0]).2.2.1 _ _ rfl
    rfl).1

/-! ## A trie that loses entries -/

namespace LpmOverflow

/-- One field of 16 bits. -/
def fields : List KeyField := [⟨0, 0, .lpm, 16, none⟩]

/-- The layout of the table key. -/
def kb : MatchKeyBuilder := ((MatchKeyBuilder.ofFields fields).getD {}).build

/-- The prefix `00/8`, and after it the prefixes `00b/16`. -/
def params : ℕ → List MatchKeyParam
  | 0 => [⟨.lpm, [0, 0], [], 8⟩]
  | b + 1 => [⟨.lpm, [0, BitVec.ofNat 8 b], [], 16⟩]

/-- The key for the parameters. -/
def key : ℕ → LPMMatchKey
  | 0 => ⟨[0, 0], 8⟩
  | b + 1 => ⟨[0, BitVec.ofNat 8 b], 16⟩

theorem build_params {mu : MatchUnit LPMMatchKey ℕ LPMTrieStructure}
    (hkb : mu.matchKeyBuilder = kb) (i : ℕ) (priority : Int32) :
    mu.buildEntryFromMatchKey (params i) priority = some (.ok (key i)) := by
  rw [buildEntryFromMatchKey, hkb]
  cases i with
  | zero => rfl
  | succ b => rfl

theorem bits_key (b : ℕ) : (key (b + 1)).bits = bitsOf [0, BitVec.ofNat 8 b] := rfl

theorem bits_key_ne {i j : ℕ} (hi : i < 257) (hj : j < 257) (hne : i ≠ j) :
    (key i).bits ≠ (key j).bits := by
  intro heq
  have hlength := congrArg List.length heq
  cases i with
  | zero =>
    cases j with
    | zero => exact hne rfl
    | succ c => cases hlength
  | succ b =>
    cases j with
    | zero => cases hlength
    | succ c =>
      rw [bits_key, bits_key] at heq
      have hbytes := ((bitsOf_append_inj (p := []) (q := []) (by simp) (by simp)).mp
        (by simpa using heq)).1
      have hmod := congrArg BitVec.toNat (List.cons.inj (List.cons.inj hbytes).2).1
      simp only [BitVec.toNat_ofNat] at hmod
      omega

/-- What the unit holds after `n` additions. -/
structure Filled (n : ℕ) (mu : MatchUnit LPMMatchKey ℕ LPMTrieStructure) : Prop where
  inv : mu.Inv fields
  kb : mu.matchKeyBuilder = kb
  size : mu.size = 257
  handles : mu.handles = Finset.range n
  keys : ∀ i < n, mu.keys i = some (key i)
  version : ∀ e ∈ mu.entries, e.version = 0
  root : n = 0 → mu.lookupStructure.trie.root = TrieNode.empty
  node : 0 < n → ∃ a, mu.lookupStructure.trie.root.branches 0 = some a ∧ a.prefixes 0 = some 0 ∧
    a.prefNum = 1 ∧ a.branchNum = BitVec.ofNat 8 (n - 1) ∧
    ∀ b : Byte, (a.branches b).isSome ↔ b.toNat < n - 1

variable {mu mu' : MatchUnit LPMMatchKey ℕ LPMTrieStructure} {n : ℕ}

theorem lowestFree_range (n : ℕ) : lowestFree (Finset.range n) = n := by
  apply le_antisymm
  · exact (lowestFree_le_card _).trans (Finset.card_range n).le
  · by_contra hlt
    exact lowestFree_notMem (Finset.range n) (Finset.mem_range.mpr (not_le.mp hlt))

/-- The next prefix is not live. -/
theorem Filled.not_exists (h : Filled n mu) (hn : n < 257) :
    LookupStructure.entryExists mu.lookupStructure (key n) = some false := by
  have hbuild := build_params h.kb n 0
  obtain ⟨b, hb, hiff⟩ := LawfulLookup.entryExists_iff h.inv.holds (h.inv.keyOk hbuild)
  rw [hb]
  refine congrArg some (Bool.eq_false_iff.mpr fun htrue => ?_)
  obtain ⟨i, k, hk, hsame⟩ := hiff.mp htrue
  have hi : i < n := by
    have hmem := h.inv.isSome_keys.mp (Option.isSome_iff_exists.mpr ⟨k, hk⟩)
    rwa [h.handles, Finset.mem_range] at hmem
  rw [h.keys i hi, Option.some.injEq] at hk
  rw [← hk] at hsame
  exact bits_key_ne (hi.trans hn) hn (ne_of_lt hi) hsame

/-- The node of the byte 0 after the next prefix. -/
theorem Filled.node_insert (h : Filled n mu) (hn : n < 257) {s : LPMTrieStructure}
    (hs : LookupStructure.addEntry mu.lookupStructure (key n) n = some s) :
    ∃ a, s.trie.root.branches 0 = some a ∧ a.prefixes 0 = some 0 ∧ a.prefNum = 1 ∧
      a.branchNum = BitVec.ofNat 8 n ∧ ∀ b : Byte, (a.branches b).isSome ↔ b.toNat < n := by
  cases n with
  | zero =>
    obtain ⟨t, ht, rfl⟩ := Option.map_eq_some_iff.mp hs
    cases ht
    refine ⟨TrieNode.empty.insert 0 [] 0, ?_, rfl, rfl, rfl, fun b => ?_⟩
    · show (TrieNode.insert 0 mu.lookupStructure.trie.root [0] 0).branches 0 = _
      rw [h.root rfl]
      rfl
    · exact iff_of_false Bool.false_ne_true (Nat.not_lt_zero _)
  | succ b =>
    obtain ⟨a, ha, hprefix, hpref, hbranch, hbranches⟩ := h.node (Nat.succ_pos b)
    obtain ⟨t, ht, rfl⟩ := Option.map_eq_some_iff.mp hs
    cases ht
    have hb : (BitVec.ofNat 8 b).toNat = b := by
      rw [BitVec.toNat_ofNat]
      omega
    have hnone : a.branches (BitVec.ofNat 8 b) = none := by
      rw [← Option.not_isSome_iff_eq_none, hbranches, hb]
      exact lt_irrefl b
    refine ⟨a.addBranch (BitVec.ofNat 8 b) (TrieNode.empty.insert (b + 1) [] 0), ?_, hprefix, hpref,
      ?_, fun c => ?_⟩
    · have hroot : TrieNode.insert (b + 1) mu.lookupStructure.trie.root [0, BitVec.ofNat 8 b] 0 =
          mu.lookupStructure.trie.root.setBranch 0
            (TrieNode.insert (b + 1) a [BitVec.ofNat 8 b] 0) := by
        rw [TrieNode.insert, ha]
      show (TrieNode.insert (b + 1) mu.lookupStructure.trie.root [0, BitVec.ofNat 8 b] 0).branches 0 =
        _
      have hchild : TrieNode.insert (b + 1) a [BitVec.ofNat 8 b] 0 =
          a.addBranch (BitVec.ofNat 8 b) (TrieNode.empty.insertPrefix 0 (b + 1)) := by
        rw [TrieNode.insert, hnone]
        rfl
      rw [hroot, TrieNode.branches_setBranch, if_pos rfl, hchild]
      rfl
    · show a.branchNum + 1 = _
      rw [hbranch]
      exact BitVec.ofNat_add_ofNat b 1
    · rw [TrieNode.branches_addBranch]
      split
      next heq =>
        rw [heq, hb]
        exact iff_of_true rfl (Nat.lt_succ_self b)
      next hne =>
        rw [hbranches]
        have hne' : c.toNat ≠ b := fun heq => hne (BitVec.eq_of_toNat_eq (heq.trans hb.symm))
        show c.toNat < b ↔ c.toNat < b + 1
        omega

/-- **Step lemma.** -/
theorem Filled.step (h : Filled n mu) (hn : n < 257) :
    ∃ mu', mu.step (.addEntry (params n) 0 0 0) = some mu' ∧ Filled (n + 1) mu' := by
  have hbuild := build_params h.kb n 0
  have hfree : lowestFree mu.handles = n := by rw [h.handles, lowestFree_range]
  have hcard : mu.numEntries = n := by rw [← h.inv.card, h.handles, Finset.card_range]
  obtain ⟨r, mu', hadd⟩ := h.inv.exists_addEntry ⟨_, hbuild⟩ 0 0
  have hok : ∃ handle, r = .ok handle := by
    rcases addEntry_cases hadd with ⟨code, -, -, hfails⟩ | ⟨handle, k, hr, -⟩
    · exfalso
      cases hfails with
      | badMatchKey hcheck => rw [sanityCheck_of_build hbuild] at hcheck; cases hcheck
      | duplicateEntry k hbuild' hexists =>
        obtain rfl : key n = k := by simpa using hbuild.symm.trans hbuild'
        rw [h.not_exists hn] at hexists
        cases hexists
      | tableFull k hbuild' hnew hfull => rw [hcard, h.size] at hfull; omega
      | noHandle k hbuild' hnew hroom hfree' => rw [hfree] at hfree'; omega
    · exact ⟨handle, hr⟩
  obtain ⟨handle, rfl⟩ := hok
  have hexec : mu.exec (.addEntry (params n) 0 0 0) = some (.handle (.ok handle), mu') := by
    rw [exec, hadd]
    rfl
  refine ⟨mu', by rw [MatchUnit.step, hexec]; rfl, ?_⟩
  obtain ⟨hshape, hslots, heffect⟩ := h.inv.toSlots.exec_effect hexec
  have hinv := h.inv.of_effect hshape hslots heffect trivial
  cases heffect with
  | quiet hquiet => exact absurd hquiet (by simp [UnitOp.Quiet])
  | added k old hbuild' _ hlt _ hold hhandles hentries hlookup =>
    obtain rfl : key n = k := by simpa using hbuild.symm.trans hbuild'
    have hkeys := keys_update (live_added h.inv.toSlots hlt hhandles hentries)
    rw [hfree] at hold hhandles hentries hlookup hkeys
    refine ⟨hinv, hshape.matchKeyBuilder.trans h.kb, hshape.size.trans h.size, ?_, fun i hi => ?_,
      fun e he => ?_, fun hzero => absurd hzero (Nat.succ_ne_zero n), fun _ => h.node_insert hn hlookup⟩
    · rw [hhandles, h.handles, Finset.range_add_one]
    · rw [hkeys]
      by_cases hin : i = n
      · rw [hin, Function.update_self]
        rfl
      · rw [Function.update_of_ne hin]
        exact h.keys i (by omega)
    · rw [hentries] at he
      rcases List.mem_or_eq_of_mem_set he with he | rfl
      · exact h.version e he
      · exact h.version old (List.mem_of_getElem? hold)

/-- **Run lemma.** -/
theorem exists_filled (hn : n ≤ 257) : ∃ mu₀ mu : MatchUnit LPMMatchKey ℕ LPMTrieStructure,
    create 257 ((MatchKeyBuilder.ofFields fields).getD {}) = some mu₀ ∧
    runFrom MatchUnit.step mu₀ ((List.range n).map fun i => .addEntry (params i) 0 0 0) = some mu ∧
    Filled n mu := by
  induction n with
  | zero =>
    have hfs : MatchKeyBuilder.ofFields fields = some _ := rfl
    refine ⟨_, _, rfl, rfl, ⟨(inv_create hfs rfl).1, rfl, rfl, rfl, fun i hi => ?_, fun e he => ?_,
      fun _ => rfl, fun hpos => absurd hpos (lt_irrefl 0)⟩⟩
    · exact absurd hi (Nat.not_lt_zero i)
    · rw [List.eq_of_mem_replicate he]
  | succ n ih =>
    obtain ⟨mu₀, mu, hcreate, hrun, hfilled⟩ := ih (by omega)
    obtain ⟨mu', hstep, hfilled'⟩ := hfilled.step (by omega)
    refine ⟨mu₀, mu', hcreate, ?_, hfilled'⟩
    rw [List.range_succ, List.map_append, runFrom_append, hrun]
    exact runFrom_cons_eq_some.mpr ⟨mu', hstep, rfl⟩

/-- The trie without the node of the byte 0. -/
theorem Filled.trie_delete (h : Filled 257 mu) {s : LPMTrieStructure}
    (hs : LookupStructure.deleteEntry mu.lookupStructure (key 0) = some s) :
    s.trie.root.branches 0 = none := by
  obtain ⟨a, ha, hprefix, hpref, hbranch, -⟩ := h.node (by decide)
  obtain ⟨⟨found, t⟩, ht, rfl⟩ := Option.map_eq_some_iff.mp hs
  have hsplit : splitPrefix (key 0).data (key 0).prefixLength.toNat = some ([0], 0) := rfl
  have hget : mu.lookupStructure.trie.root.get [0] 0 = some 0 := by
    rw [TrieNode.get, ha]
    exact hprefix
  have hzero : (a.deletePrefix 0).countersZero = true := by
    show (a.prefNum - 1 == 0 && a.branchNum == 0) = true
    rw [hpref, hbranch]
    rfl
  rw [LpmTrie.delete_of_split hsplit, hget, if_neg (by simp), if_pos h.inv.holds.releaseMemory] at ht
  cases ht
  show (TrieNode.delete mu.lookupStructure.trie.root [0] 0).1.branches 0 = none
  rw [TrieNode.delete, ha]
  simp only [TrieNode.delete, hzero, Bool.and_true, if_true]
  rw [TrieNode.branches_deleteBranch, if_pos rfl]

/-- The deletion of the first prefix frees the node of all the others: the second prefix is still
live, and not in the trie any more. -/
theorem Filled.delete (h : Filled 257 mu) : ∃ mu',
    mu.step (.deleteEntry 0) = some mu' ∧ mu'.Slots ∧ mu'.keys 1 = some (key 1) ∧
    mu'.matchKeyBuilder = LpmOverflow.kb ∧ LookupStructure.entryExists mu'.lookupStructure (key 1) = some false := by
  have hkey := h.keys 0 (by decide)
  obtain ⟨e, hlive, hekey⟩ := keys_eq_some.mp hkey
  have hcheck : mu.checkHandle 0 = some (.ok e) := by
    refine h.inv.checkHandle_eq_ok.mpr ⟨hlive, ?_⟩
    rw [h.version e (List.mem_of_getElem? (live_eq_some.mp hlive).2)]
    rfl
  obtain ⟨mu', hdelete⟩ := h.inv.exists_deleteEntry hcheck
  have hexec : mu.exec (.deleteEntry 0) = some (.done (.ok ()), mu') := by
    rw [exec, hdelete]
    rfl
  refine ⟨mu', by rw [MatchUnit.step, hexec]; rfl, ?_⟩
  obtain ⟨hshape, hslots, heffect⟩ := h.inv.toSlots.exec_effect hexec
  cases heffect with
  | quiet hquiet => exact absurd hquiet (by simp [UnitOp.Quiet])
  | deleted e' hcheck' hhandles hentries hlookup =>
    obtain rfl : e = e' := by simpa using hcheck.symm.trans hcheck'
    refine ⟨hslots, ?_, hshape.matchKeyBuilder.trans h.kb, ?_⟩
    · rw [keys_update (live_deleted hhandles hentries), Function.update_of_ne (by decide)]
      exact h.keys 1 (by decide)
    · rw [hekey] at hlookup
      have hgone := h.trie_delete hlookup
      show mu'.lookupStructure.trie.hasPrefix [0, 0] 16 = some false
      have hsplit : splitPrefix [0, 0] 16 = some ([0, 0], 0) := rfl
      rw [LpmTrie.hasPrefix, LpmTrie.retrieveValue, hsplit]
      show some (TrieNode.get mu'.lookupStructure.trie.root [0, 0] 0).isSome = _
      rw [TrieNode.get, hgone]
      rfl

end LpmOverflow

open LpmOverflow in
/-- With 256 prefixes below it a node of the trie counts no branches, and is freed with them when its
own prefix is deleted: a prefix that is still live is then not refused. -/
theorem lpm_entry_added_twice :
    ∃ kb, ∃ mu₀ mu : MatchUnit LPMMatchKey ℕ LPMTrieStructure,
      MatchKeyBuilder.ofFields fields = some kb ∧ create 257 kb = some mu₀ ∧
      runFrom step mu₀ (((List.range 257).map fun i => .addEntry (params i) 0 0 0) ++
        [.deleteEntry 0]) = some mu ∧
      (∃ code mu', mu.addEntry (params 1) 0 0 0 = some (code, mu') ∧
        code ≠ .error .duplicateEntry) ∧
      ¬ mu.EntriesUnique LPMMatchKey.bits := by
  obtain ⟨mu₀, mu₁, hcreate, hrun, hfilled⟩ := exists_filled le_rfl
  obtain ⟨mu, hstep, hslots, hkey, hkb, hexists⟩ := hfilled.delete
  have hbuild := build_params hkb 1 0
  obtain ⟨r, mu', hadd⟩ := hslots.exists_addEntry hbuild hexists (fun _ _ _ => ⟨_, rfl⟩) 0 0
  have hne : r ≠ .error .duplicateEntry := by
    rintro rfl
    rcases addEntry_cases hadd with ⟨code, hcode, -, hfails⟩ | ⟨handle, k, hr, -⟩
    · cases hcode
      cases hfails with
      | duplicateEntry k hbuild' htrue =>
        obtain rfl : key 1 = k := by simpa using hbuild.symm.trans hbuild'
        rw [hexists] at htrue
        cases htrue
    · cases hr
  refine ⟨_, mu₀, mu, rfl, hcreate, ?_, ⟨r, mu', hadd, hne⟩, fun hunique => ?_⟩
  · rw [runFrom_append, hrun]
    exact runFrom_cons_eq_some.mpr ⟨mu, hstep, rfl⟩
  · exact hne ((hunique.duplicateEntry _ _ _ _ _ _ hadd).mpr
      ⟨key 1, hbuild, 1, key 1, hkey, rfl⟩)

end Bm
