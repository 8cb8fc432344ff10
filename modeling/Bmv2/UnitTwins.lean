/-
# Units that cannot be told apart

Two match units with the same entries under the same handles, whose free slots have the same versions, answer
every further run of operations alike, although their lookup structures may have come about in different ways:
`Twin.results`.  So a dump (`UnitDump`) brings a unit back in full exactly when its free slots are new.
-/
import Bmv2.Ageing
import Bmv2.LiveHandles
import Bmv2.UnitDump
import Bmv2.UniqueEntries

namespace Bm

/-- The packets of the operation carry the fields of the key. -/
def UnitOp.Carries {V : Type} (fs : List KeyField) : UnitOp V → Prop
  | .lookup phv _ _ => ∀ f ∈ fs, phv.Carries f
  | _ => True

namespace MatchUnit

/-! ## Versions -/

section Versions

variable {K V S : Type} [Inhabited K] [Inhabited V] [MatchKey K] [LookupStructure K S] {mu mu' : MatchUnit K V S}

omit [Inhabited K] [Inhabited V] [MatchKey K] [LookupStructure K S] in
theorem VersionsMatch.of_live (h : mu.VersionsMatch)
    (hlive : ∀ i e', mu'.live i = some e' → ∃ e, mu.live i = some e ∧ e'.version = e.version)
    (hmeta : mu'.entryMeta.map EntryMeta.version = mu.entryMeta.map EntryMeta.version) : mu'.VersionsMatch := by
  intro i e' he'
  obtain ⟨e, he, hversion⟩ := hlive i e' he'
  obtain ⟨m, hm, hmatch⟩ := h i e he
  have hget := congrArg (fun ms : List ℕ => ms[i]?) hmeta
  simp only [List.getElem?_map, hm, Option.map_some] at hget
  obtain ⟨m', hm', hsame⟩ := Option.map_eq_some_iff.mp hget
  exact ⟨m', hm', by rw [hsame, hmatch, hversion]⟩

/-- An entry is added: the version in its handle is the version of its slot. -/
theorem VersionsMatch.addEntry (h : mu.VersionsMatch) (hslots : mu.Slots) (hsize : mu.size ≤ 2 ^ 24)
    {matchKey : List MatchKeyParam} {value : V} {priority : Int32} {now : ℕ} {r : Except MatchErrorCode ℕ}
    (hadd : mu.addEntry matchKey value priority now = some (r, mu')) : mu'.VersionsMatch := by
  obtain ⟨-, -, heffect⟩ := hslots.addEntry_effect hadd
  obtain ⟨⟨r₀, mu₀⟩, hadd', hadd⟩ := Option.bind_eq_some_iff.mp hadd
  have hsame : mu₀.entryMeta = mu.entryMeta := entryMeta_addEntry hadd'
  cases heffect with
  | quiet hquiet hhandles hentries _ =>
    cases r₀ with
    | error code =>
      cases hadd
      refine h.of_live (fun i e' he' => ⟨e', ?_, rfl⟩) (by rw [hsame])
      rwa [live_congr hhandles hentries] at he'
    | ok handle =>
      obtain ⟨m, -, hadd⟩ := Option.bind_eq_some_iff.mp hadd
      cases hadd
      exact hquiet.elim
  | added k old _ _ hlt _ hold hhandles hentries _ =>
    cases r₀ with
    | error code => cases hadd
    | ok handle =>
      obtain ⟨m, hm, hadd⟩ := Option.bind_eq_some_iff.mp hadd
      obtain ⟨hhandle, rfl⟩ := Prod.mk.inj (Option.some.inj hadd)
      obtain rfl := Except.ok.inj hhandle
      have hslot : lowestFree mu.handles < 2 ^ 24 := hlt.trans_le hsize
      have hlive := live_added hslots hlt hhandles hentries
      rw [handleInternal_handleSet hslot] at hm
      intro i e he
      rw [hlive] at he
      dsimp only
      rw [handleInternal_handleSet hslot, handleVersion_handleSet hslot]
      by_cases hi : i = lowestFree mu.handles
      · subst hi
        rw [Function.update_self, Option.some.injEq] at he
        subst he
        obtain ⟨hltm, -⟩ := List.getElem?_eq_some_iff.mp hm
        exact ⟨_, List.getElem?_set_self hltm, rfl⟩
      · rw [Function.update_of_ne hi] at he
        obtain ⟨m', hm', hmatch⟩ := h i e he
        exact ⟨m', by rw [List.getElem?_set_ne (Ne.symm hi), hsame, hm'], hmatch⟩

/-- Meta data are written without the version. -/
theorem map_version_set {ms : List EntryMeta} {slot : ℕ} {m m' : EntryMeta} (hm : ms[slot]? = some m)
    (hversion : m'.version = m.version) :
    (ms.set slot m').map EntryMeta.version = ms.map EntryMeta.version := by
  rw [List.map_set, hversion]
  refine List.ext_getElem? fun i => ?_
  by_cases hi : slot = i
  · subst hi
    obtain ⟨hlt, -⟩ := List.getElem?_eq_some_iff.mp hm
    rw [List.getElem?_set_self (by rwa [List.length_map]), List.getElem?_map, hm]
    rfl
  · rw [List.getElem?_set_ne hi]

/-- **Step lemma.** -/
theorem VersionsMatch.exec (h : mu.VersionsMatch) (hslots : mu.Slots) (hsize : mu.size ≤ 2 ^ 24) {op : UnitOp V}
    {r : UnitResult V} (hexec : mu.exec op = some (r, mu')) : mu'.VersionsMatch := by
  have hlike {mu' : MatchUnit K V S} (hsame : SameEntries mu mu')
      (hmeta : mu'.entryMeta.map EntryMeta.version = mu.entryMeta.map EntryMeta.version) : mu'.VersionsMatch :=
    h.of_live (fun i e' he' => ⟨e', by rwa [live_congr hsame.handles hsame.entries] at he', rfl⟩) hmeta
  cases op with
  | addEntry matchKey value priority now =>
    obtain ⟨⟨r₀, mu₀⟩, hadd, heq⟩ := Option.map_eq_some_iff.mp hexec
    cases heq
    exact h.addEntry hslots hsize hadd
  | deleteEntry handle =>
    obtain ⟨⟨r₀, mu₀⟩, hdelete, heq⟩ := Option.map_eq_some_iff.mp hexec
    cases heq
    refine h.of_live (fun i e' he' => ?_) (by rw [entryMeta_deleteEntry hdelete])
    obtain ⟨-, -, heffect⟩ := hslots.deleteEntry_effect hdelete
    cases heffect with
    | quiet _ hhandles hentries _ => exact ⟨e', by rwa [live_congr hhandles hentries] at he', rfl⟩
    | deleted e _ hhandles hentries _ =>
      rw [live_deleted hhandles hentries] at he'
      by_cases hi : i = handleInternal handle
      · rw [hi, Function.update_self] at he'
        cases he'
      · exact ⟨e', by rwa [Function.update_of_ne hi] at he', rfl⟩
  | modifyEntry handle value =>
    obtain ⟨⟨r₀, mu₀⟩, hmodify, heq⟩ := Option.map_eq_some_iff.mp hexec
    cases heq
    refine h.of_live (fun i e' he' => ?_) (by rw [entryMeta_modifyEntry hmodify])
    obtain ⟨-, -, heffect⟩ := hslots.modifyEntry_effect hmodify
    cases heffect with
    | quiet _ hhandles hentries _ => exact ⟨e', by rwa [live_congr hhandles hentries] at he', rfl⟩
    | modified e hcheck hhandles hentries _ =>
      obtain ⟨hlive, -⟩ := hslots.checkHandle_eq_ok.mp hcheck
      rw [live_modified hslots (live_eq_some.mp hlive).1 hhandles hentries] at he'
      by_cases hi : i = handleInternal handle
      · subst hi
        rw [Function.update_self, Option.some.injEq] at he'
        exact ⟨e, hlive, by rw [← he']⟩
      · exact ⟨e', by rwa [Function.update_of_ne hi] at he', rfl⟩
  | setEntryTtl handle ttlMs now =>
    obtain ⟨⟨r₀, mu₀⟩, hset, heq⟩ := Option.map_eq_some_iff.mp hexec
    cases heq
    refine hlike (setEntryTtl_same hset) ?_
    rw [MatchUnit.setEntryTtl] at hset
    split at hset
    · obtain ⟨m, hm, hset⟩ := Option.bind_eq_some_iff.mp hset
      cases hset
      exact map_version_set hm rfl
    · cases hset
      rfl
  | lookup phv ingressLength ingressTsMs =>
    obtain ⟨⟨r₀, mu₀⟩, hlookup, heq⟩ := Option.map_eq_some_iff.mp hexec
    cases heq
    refine hlike (lookup_same hlookup) ?_
    obtain ⟨key, -, hlookup⟩ := Option.bind_eq_some_iff.mp hlookup
    obtain ⟨found, -, hlookup⟩ := Option.bind_eq_some_iff.mp hlookup
    cases found with
    | none =>
      cases hlookup
      rfl
    | some found =>
      obtain ⟨m, hm, hlookup⟩ := Option.bind_eq_some_iff.mp hlookup
      cases hlookup
      exact map_version_set hm rfl
  | resetCounters =>
    cases hexec
    refine hlike (resetCounters_same mu) ?_
    rw [MatchUnit.resetCounters, List.map_map]
    rfl
  | setDirectMeters meterArray =>
    obtain ⟨mu₀, hset, heq⟩ := Option.map_eq_some_iff.mp hexec
    cases heq
    refine hlike (setDirectMeters_same hset) ?_
    rw [MatchUnit.setDirectMeters] at hset
    split at hset
    · cases hset
      rfl
    · cases hset
  | resetState =>
    obtain ⟨mu₀, hreset, heq⟩ := Option.map_eq_some_iff.mp hexec
    cases heq
    obtain ⟨s, -, hreset⟩ := Option.bind_eq_some_iff.mp hreset
    cases hreset
    intro i e he
    obtain ⟨hmem, -⟩ := live_eq_some.mp he
    cases Finset.notMem_empty i hmem

end Versions

/-! ## Twins -/


variable {K V S : Type} [MatchKey K] [LookupStructure K S] [LawfulLookup K S] {fs : List KeyField}
  {mu mu' : MatchUnit K V S}

/-- The units have the same entries under the same handles. -/
structure Alike (fs : List KeyField) (mu mu' : MatchUnit K V S) : Prop where
  inv : mu.Inv fs
  inv' : mu'.Inv fs
  shape : SameShape mu mu'
  handles : mu'.handles = mu.handles
  live : mu'.live = mu.live

namespace Alike

theorem keys (h : Alike fs mu mu') : mu'.keys = mu.keys := by
  funext i
  rw [MatchUnit.keys, MatchUnit.keys, h.live]

theorem holds (h : Alike fs mu mu') : LawfulLookup.Holds mu.size mu.nbytesKey mu'.lookupStructure mu.keys := by
  have hholds := h.inv'.holds
  rwa [h.keys, h.shape.size, h.shape.nbytesKey] at hholds

/-- Meta data are there for the same slots. -/
theorem exists_entryMeta (h : Alike fs mu mu') {i : ℕ} {m : EntryMeta} (hm : mu.entryMeta[i]? = some m) :
    ∃ m', mu'.entryMeta[i]? = some m' := by
  obtain ⟨hlt, -⟩ := List.getElem?_eq_some_iff.mp hm
  refine ⟨_, List.getElem?_eq_getElem ?_⟩
  rw [h.inv'.length_entryMeta, h.shape.size, ← h.inv.length_entryMeta]
  exact hlt

/-- Both answer a packet alike. -/
theorem lookupKey [DumpKey K] [DumpedLookup K S] (h : Alike fs mu mu') {key : ByteContainer}
    (hlen : key.length = mu.nbytesKey) :
    ∃ found, mu.lookupKey key = some found ∧ mu'.lookupKey key = some found := by
  obtain ⟨r, hr, hiff⟩ := LawfulLookup.lookup_iff h.inv.holds (DumpedLookup.exact _) hlen
  obtain ⟨r', hr', hiff'⟩ := LawfulLookup.lookup_iff h.holds (DumpedLookup.exact _) hlen
  obtain rfl : r = r' := Option.ext fun i => (hiff i).trans (hiff' i).symm
  cases r with
  | none => exact ⟨none, lookupKey_of_none hr, lookupKey_of_none hr'⟩
  | some slot =>
    have hsome := LawfulLookup.isSome_of_selects ((hiff slot).mp rfl)
    obtain ⟨k, hk⟩ := Option.isSome_iff_exists.mp hsome
    obtain ⟨e, he, -⟩ := keys_eq_some.mp hk
    exact ⟨_, lookupKey_of_some hr (live_eq_some.mp he).2,
      lookupKey_of_some hr' (live_eq_some.mp (h.live ▸ he)).2⟩

/-- A packet finds the same entry in both. -/
theorem exists_lookup [DumpKey K] [DumpedLookup K S] (h : Alike fs mu mu') {phv : PHV}
    (hcarries : ∀ f ∈ fs, phv.Carries f) {ingressLength ingressTsMs : ℕ} {r : Option (MatchUnitLookup V)}
    {t : MatchUnit K V S} (hlookup : mu.lookup phv ingressLength ingressTsMs = some (r, t)) :
    ∃ t', mu'.lookup phv ingressLength ingressTsMs = some (r, t') := by
  obtain ⟨key, hkey, hlen⟩ := MatchKeyBuilder.exists_buildKey h.inv.built hcarries
  obtain ⟨found, hfound, hlookup'⟩ := h.lookupKey (hlen.trans h.inv.nbytesKey.symm)
  rw [MatchUnit.lookup, hkey] at hlookup
  rw [MatchUnit.lookup, h.shape.matchKeyBuilder, hkey]
  simp only [Option.bind_eq_bind, Option.bind_some, hfound] at hlookup
  simp only [Option.bind_eq_bind, Option.bind_some, hlookup']
  cases found with
  | none =>
    cases hlookup
    exact ⟨_, rfl⟩
  | some found =>
    obtain ⟨m, hm, hlookup⟩ := Option.bind_eq_some_iff.mp hlookup
    cases hlookup
    obtain ⟨m', hm'⟩ := h.exists_entryMeta hm
    simp only [hm']
    exact ⟨_, rfl⟩

end Alike

/-- The units are alike, and their slots have the same versions. -/
structure Twin (fs : List KeyField) (mu mu' : MatchUnit K V S) : Prop extends Alike fs mu mu' where
  versions : mu'.entries.map Entry.version = mu.entries.map Entry.version

namespace Twin

theorem numEntries (h : Twin fs mu mu') : mu'.numEntries = mu.numEntries := by
  rw [← h.inv.card, ← h.inv'.card, h.handles]

theorem checkHandle (h : Twin fs mu mu') (handle : ℕ) : mu'.checkHandle handle = mu.checkHandle handle := by
  rw [h.inv.checkHandle_eq, h.inv'.checkHandle_eq, h.live]

/-- Both know the same keys. -/
theorem entryExists (h : Twin fs mu mu') {k : K} (hok : LawfulLookup.KeyOk mu.nbytesKey k) :
    LookupStructure.entryExists mu'.lookupStructure k = LookupStructure.entryExists mu.lookupStructure k := by
  obtain ⟨b, hb, hiff⟩ := LawfulLookup.entryExists_iff h.inv.holds hok
  obtain ⟨b', hb', hiff'⟩ := LawfulLookup.entryExists_iff h.holds hok
  rw [hb, hb', Bool.eq_iff_iff.mpr (hiff'.trans hiff.symm)]

/-- The old version of a slot. -/
theorem exists_entry (h : Twin fs mu mu') {i : ℕ} {e : Entry K V} (he : mu.entries[i]? = some e) :
    ∃ e', mu'.entries[i]? = some e' ∧ e'.version = e.version := by
  have hget := congrArg (fun vs : List ℕ => vs[i]?) h.versions
  simp only [List.getElem?_map, he, Option.map_some] at hget
  exact Option.map_eq_some_iff.mp hget

omit [MatchKey K] [LookupStructure K S] [LawfulLookup K S] in
theorem map_version_set {es es' : List (Entry K V)} (h : es'.map Entry.version = es.map Entry.version) (i : ℕ)
    {e e' : Entry K V} (hversion : e'.version = e.version) :
    (es'.set i e').map Entry.version = (es.set i e).map Entry.version := by
  rw [List.map_set, List.map_set, h, hversion]

variable [Inhabited K] [Inhabited V]

/-- The same operation with the same result, on both. -/
theorem of_effects (h : Twin fs mu mu') {t t' : MatchUnit K V S} {op : UnitOp V} {r : UnitResult V}
    (hsafe : mu.DeletesSafely op) (hsafe' : mu'.DeletesSafely op) (hexec : mu.exec op = some (r, t))
    (hexec' : mu'.exec op = some (r, t')) : Twin fs t t' := by
  obtain ⟨hshape, hslots, heffect⟩ := h.inv.exec_effect hexec
  obtain ⟨hshape', hslots', heffect'⟩ := h.inv'.exec_effect hexec'
  have hsame : SameShape t t' :=
    ⟨by rw [hshape'.size, hshape.size, h.shape.size], by rw [hshape'.nbytesKey, hshape.nbytesKey, h.shape.nbytesKey],
      by rw [hshape'.matchKeyBuilder, hshape.matchKeyBuilder, h.shape.matchKeyBuilder]⟩
  suffices hall : t'.handles = t.handles ∧ t'.live = t.live ∧
      t'.entries.map Entry.version = t.entries.map Entry.version from
    ⟨⟨h.inv.exec hsafe hexec, h.inv'.exec hsafe' hexec', hsame, hall.1, hall.2.1⟩, hall.2.2⟩
  cases heffect with
  | quiet hquiet hhandles hentries _ =>
    cases heffect' with
    | quiet _ hhandles' hentries' _ =>
      rw [hhandles', hhandles, live_congr hhandles' hentries', live_congr hhandles hentries, hentries', hentries]
      exact ⟨h.handles, h.live, h.versions⟩
    | added => exact hquiet.elim
    | deleted => exact hquiet.elim
    | modified => exact hquiet.elim
    | reset => exact hquiet.elim
  | added k old hbuild _ hlt _ hold hhandles hentries _ =>
    generalize handleSet old.version (lowestFree mu.handles) = handle at heffect'
    cases heffect' with
    | quiet hquiet => exact hquiet.elim
    | added k' old' hbuild' _ hlt' _ hold' hhandles' hentries' _ =>
      rw [buildEntry_congr h.shape.matchKeyBuilder, hbuild, Option.some.injEq, Except.ok.injEq] at hbuild'
      subst hbuild'
      have hlive := live_added h.inv.toSlots hlt hhandles hentries
      have hlive' := live_added h.inv'.toSlots hlt' hhandles' hentries'
      rw [h.handles] at hhandles' hentries' hlive' hold'
      obtain ⟨e', he', hversion⟩ := h.exists_entry hold
      obtain rfl := Option.some.inj (hold'.symm.trans he')
      rw [hhandles', hhandles, hlive', hlive, h.live, hversion, hentries', hentries]
      exact ⟨rfl, rfl, map_version_set h.versions _ hversion⟩
  | deleted e hcheck hhandles hentries _ =>
    cases heffect' with
    | quiet hquiet => exact hquiet.elim
    | deleted e' hcheck' hhandles' hentries' _ =>
      rw [h.checkHandle] at hcheck'
      cases hcheck.symm.trans hcheck'
      rw [hhandles', hhandles, live_deleted hhandles' hentries', live_deleted hhandles hentries, hentries', hentries,
        h.handles, h.live]
      exact ⟨rfl, rfl, map_version_set h.versions _ rfl⟩
  | modified e hcheck hhandles hentries _ =>
    cases heffect' with
    | quiet hquiet => exact hquiet.elim
    | modified e' hcheck' hhandles' hentries' _ =>
      have hmem := (live_eq_some.mp (h.inv.checkHandle_eq_ok.mp hcheck).1).1
      rw [h.checkHandle] at hcheck'
      cases hcheck.symm.trans hcheck'
      rw [hhandles', hhandles, live_modified h.inv'.toSlots (h.handles ▸ hmem) hhandles' hentries',
        live_modified h.inv.toSlots hmem hhandles hentries, hentries', hentries, h.live]
      exact ⟨h.handles, rfl, map_version_set h.versions _ rfl⟩
  | reset hhandles hentries _ =>
    cases heffect' with
    | quiet hquiet => exact hquiet.elim
    | reset hhandles' hentries' _ =>
      rw [live_of_handles hhandles', live_of_handles hhandles, hhandles', hhandles, hentries', hentries, h.shape.size]
      exact ⟨rfl, rfl, rfl⟩

omit [Inhabited K] [Inhabited V] in
theorem symm (h : Twin fs mu mu') : Twin fs mu' mu where
  inv := h.inv'
  inv' := h.inv
  shape := ⟨h.shape.size.symm, h.shape.nbytesKey.symm, h.shape.matchKeyBuilder.symm⟩
  handles := h.handles.symm
  live := h.live.symm
  versions := h.versions.symm

/-- `add_entry` finds the same on both. -/
theorem exists_addEntry (h : Twin fs mu mu') {matchKey : List MatchKeyParam} {value : V} {priority : Int32}
    {now : ℕ} {r : Except MatchErrorCode ℕ} {t : MatchUnit K V S}
    (hadd : mu.addEntry matchKey value priority now = some (r, t)) :
    ∃ t', mu'.addEntry matchKey value priority now = some (r, t') := by
  have hbuild' := buildEntry_congr h.shape.matchKeyBuilder matchKey priority
  have hexists : ∀ k, mu.buildEntryFromMatchKey matchKey priority = some (.ok k) →
      LookupStructure.entryExists mu'.lookupStructure k = LookupStructure.entryExists mu.lookupStructure k :=
    fun k hbuild => h.entryExists (h.inv.keyOk hbuild)
  obtain ⟨-, -, heffect⟩ := h.inv.addEntry_effect hadd
  rcases addEntry_cases hadd with ⟨code, rfl, rfl, hfails⟩ | ⟨handle, k, rfl, -, -, hroom⟩
  · refine ⟨mu', ?_⟩
    rw [addEntry, addEntry_, hbuild']
    cases hfails with
    | badMatchKey hcheck =>
      rw [buildEntryFromMatchKey, hcheck]
      rfl
    | duplicateEntry k hbuild hold =>
      simp only [hbuild, Option.bind_eq_bind, Option.bind_some, hexists k hbuild, hold]
      rfl
    | tableFull k hbuild hnew hfull =>
      simp only [hbuild, Option.bind_eq_bind, Option.bind_some, hexists k hbuild, hnew, Bool.false_eq_true, if_false,
        getAndSetHandle, h.shape.size, h.numEntries, if_pos hfull]
      rfl
    | noHandle k hbuild hnew hroom hfree =>
      simp only [hbuild, Option.bind_eq_bind, Option.bind_some, hexists k hbuild, hnew, Bool.false_eq_true, if_false,
        getAndSetHandle, h.shape.size, h.numEntries, if_neg (not_le.mpr hroom), HandleMgr.getHandle, h.handles,
        if_neg (not_lt.mpr hfree)]
      rfl
  · cases heffect with
    | quiet hquiet => exact hquiet.elim
    | added k old hbuild hnew hlt hlt64 hold _ _ _ =>
      have hok := h.inv.keyOk hbuild
      obtain ⟨b, hb, hiff⟩ := LawfulLookup.entryExists_iff h.holds hok
      rw [hexists k hbuild, hnew, Option.some.injEq] at hb
      have hfree : mu.keys (lowestFree mu.handles) = none :=
        Option.not_isSome_iff_eq_none.mp (mt h.inv.isSome_keys.mp (lowestFree_notMem mu.handles))
      obtain ⟨s, hs, -⟩ := LawfulLookup.holds_addEntry h.holds hok
        (fun i k' hk' hsame => by simpa [← hb] using hiff.mpr ⟨i, k', hk', hsame⟩) hfree
        (fun j hj => h.inv.isSome_keys.mpr (mem_of_lt_lowestFree hj)) hlt hlt64
      obtain ⟨old', hold', hversion⟩ := h.exists_entry hold
      have hmeta : handleInternal (handleSet old.version (lowestFree mu.handles)) < mu'.entryMeta.length := by
        rw [h.inv'.length_entryMeta, h.shape.size]
        exact (handleInternal_handleSet_le _ _).trans_lt hlt
      rw [addEntry, addEntry_, hbuild']
      simp only [hbuild, Option.bind_eq_bind, Option.bind_some, hexists k hbuild, hnew, Bool.false_eq_true, if_false,
        getAndSetHandle, h.shape.size, h.numEntries, if_neg (not_le.mpr hroom), HandleMgr.getHandle, h.handles,
        if_pos hlt64, hold', hs, hversion, pure, List.getElem?_eq_getElem hmeta]
      exact ⟨_, rfl⟩

/-- **Step lemma**: the same operation has the same result. -/
theorem exists_exec [DumpKey K] [DumpedLookup K S] (h : Twin fs mu mu') {op : UnitOp V} {r : UnitResult V} {t :
    MatchUnit K V S}
    (hcarries : op.Carries fs) (hexec : mu.exec op = some (r, t)) : ∃ t', mu'.exec op = some (r, t') := by
  have hmap {R : Type} {x y : Option (R × MatchUnit K V S)} (f : R → UnitResult V)
      (hxy : ∀ res t, x = some (res, t) → ∃ t', y = some (res, t'))
      (hx : x.map (fun rt => (f rt.1, rt.2)) = some (r, t)) : ∃ t', y.map (fun rt =>
        (f rt.1, rt.2)) = some (r, t') := by
    obtain ⟨⟨res, t₀⟩, hres, heq⟩ := Option.map_eq_some_iff.mp hx
    cases heq
    obtain ⟨t', hy⟩ := hxy res t₀ hres
    exact ⟨t', by rw [hy]; rfl⟩
  cases op with
  | addEntry matchKey value priority now => exact hmap _ (fun _ _ => h.exists_addEntry) hexec
  | deleteEntry handle =>
    refine hmap _ (fun res t₀ hdelete => ?_) hexec
    obtain ⟨found, hcheck, -⟩ := Option.bind_eq_some_iff.mp hdelete
    cases found with
    | error code =>
      rw [deleteEntry_of_error hcheck] at hdelete
      cases hdelete
      exact ⟨mu', deleteEntry_of_error ((h.checkHandle handle).trans hcheck)⟩
    | ok e =>
      obtain rfl := h.inv.deleteEntry_ok hcheck hdelete
      exact h.inv'.exists_deleteEntry ((h.checkHandle handle).trans hcheck)
  | modifyEntry handle value =>
    refine hmap _ (fun res t₀ hmodify => ?_) hexec
    obtain ⟨found, hcheck, -⟩ := Option.bind_eq_some_iff.mp hmodify
    have hcheck' := (h.checkHandle handle).trans hcheck
    cases found with
    | error code =>
      rw [modifyEntry_of_error hcheck] at hmodify
      cases hmodify
      exact ⟨mu', modifyEntry_of_error hcheck' value⟩
    | ok e =>
      rw [MatchUnit.modifyEntry, hcheck] at hmodify
      cases hmodify
      rw [MatchUnit.modifyEntry, hcheck']
      exact ⟨_, rfl⟩
  | setEntryTtl handle ttlMs now =>
    refine hmap _ (fun res t₀ hset => ?_) hexec
    have hvalid : mu'.validHandle handle = mu.validHandle handle := by rw [validHandle, validHandle, h.handles]
    rw [MatchUnit.setEntryTtl] at hset ⊢
    rw [hvalid]
    split at hset
    next hvalid =>
      obtain ⟨m, hm, hset⟩ := Option.bind_eq_some_iff.mp hset
      cases hset
      obtain ⟨m', hm'⟩ := h.exists_entryMeta hm
      rw [if_pos hvalid, show mu'.getEntryMeta handle = some m' from hm']
      exact ⟨_, rfl⟩
    next hvalid =>
      cases hset
      rw [if_neg hvalid]
      exact ⟨_, rfl⟩
  | lookup phv ingressLength ingressTsMs => exact hmap _ (fun _ _ => h.exists_lookup hcarries) hexec
  | resetCounters =>
    cases hexec
    exact ⟨_, rfl⟩
  | setDirectMeters meterArray =>
    obtain ⟨t₀, hset, heq⟩ := Option.map_eq_some_iff.mp hexec
    cases heq
    rw [MatchUnit.setDirectMeters] at hset
    split at hset
    next hsize =>
      rw [exec, MatchUnit.setDirectMeters, if_pos (h.shape.size.trans hsize)]
      exact ⟨_, rfl⟩
    next => cases hset
  | resetState =>
    obtain ⟨t₀, -, heq⟩ := Option.map_eq_some_iff.mp hexec
    cases heq
    obtain ⟨s, hs, -⟩ := LawfulLookup.holds_clear h.inv'.holds
    rw [exec, MatchUnit.resetState, hs]
    exact ⟨_, rfl⟩

end Twin

/-! ## Runs -/

/-- What the operations of a run return, and the unit that they leave. -/
def results [Inhabited K] [Inhabited V] (mu : MatchUnit K V S) :
    List (UnitOp V) → Option (List (UnitResult V) × MatchUnit K V S)
  | [] => some ([], mu)
  | op :: ops => do
      let (r, mu) ← mu.exec op
      let (rs, mu) ← results mu ops
      pure (r :: rs, mu)

variable [Inhabited K] [Inhabited V] [DumpKey K] [DumpedLookup K S]

/-- **Run lemma**: twins answer every run alike. -/
theorem Twin.results (h : Twin fs mu mu') {ops : List (UnitOp V)} (hcarries : ∀ op ∈ ops, op.Carries fs)
    (hsafe : RunMeets step DeletesSafely mu ops) (hsafe' : RunMeets step DeletesSafely mu' ops)
    {rs : List (UnitResult V)} {t : MatchUnit K V S} (hrun : mu.results ops = some (rs, t)) :
    ∃ t', mu'.results ops = some (rs, t') ∧ Twin fs t t' := by
  induction ops generalizing mu mu' rs with
  | nil =>
    cases hrun
    exact ⟨mu', rfl, h⟩
  | cons op ops ih =>
    obtain ⟨⟨r, mu₁⟩, hexec, hrun⟩ := Option.bind_eq_some_iff.mp hrun
    obtain ⟨⟨rs₁, t₁⟩, hrest, heq⟩ := Option.bind_eq_some_iff.mp hrun
    cases heq
    obtain ⟨mu₁', hexec'⟩ := h.exists_exec (hcarries op (by simp)) hexec
    have hstep : step mu op = some mu₁ := by rw [step, hexec]; rfl
    have hstep' : step mu' op = some mu₁' := by rw [step, hexec']; rfl
    obtain ⟨t', hrest', htwin⟩ := ih (h.of_effects hsafe.1 hsafe'.1 hexec hexec')
      (fun op hop => hcarries op (List.mem_cons_of_mem _ hop)) (hsafe.2 _ hstep) (hsafe'.2 _ hstep') hrest
    refine ⟨t', ?_, htwin⟩
    rw [MatchUnit.results, hexec']
    simp only [Option.bind_eq_bind, Option.bind_some, hrest']
    rfl

/-- The slots that are not in use are new. -/
def FreeNew (mu : MatchUnit K V S) : Prop := ∀ i ∉ mu.handles, ∀ e, mu.entries[i]? = some e → e.version = 0

omit [Inhabited K] [Inhabited V] [DumpKey K] [DumpedLookup K S] in
theorem Restored.alike (h : Restored fs mu mu') (hmu : mu.Inv fs) : Alike fs mu mu' :=
  ⟨hmu, h.inv, h.shape, h.handles, h.live⟩

omit [Inhabited K] [Inhabited V] [DumpKey K] [DumpedLookup K S] in
/-- The unit that a dump brings back is a twin exactly when the free slots are new. -/
theorem Restored.twin_iff (h : Restored fs mu mu') (hmu : mu.Inv fs) : Twin fs mu mu' ↔ mu.FreeNew := by
  constructor
  · intro htwin i hi e he
    obtain ⟨e', he', hversion⟩ := htwin.exists_entry he
    rw [← hversion]
    exact h.free i hi e' he'
  · intro hfree
    refine ⟨h.alike hmu, List.ext_getElem? fun i => ?_⟩
    rw [List.getElem?_map, List.getElem?_map]
    by_cases hi : i ∈ mu.handles
    · obtain ⟨e, he⟩ := hmu.toSlots.exists_live hi
      have he' : mu'.live i = some e := h.live ▸ he
      rw [(live_eq_some.mp he).2, (live_eq_some.mp he').2]
    · by_cases hlt : i < mu.size
      · obtain ⟨e, he⟩ : ∃ e, mu.entries[i]? = some e := ⟨_, List.getElem?_eq_getElem (hmu.length_entries.symm ▸ hlt)⟩
        obtain ⟨e', he'⟩ : ∃ e', mu'.entries[i]? = some e' :=
          ⟨_, List.getElem?_eq_getElem (by rw [h.inv.length_entries, h.shape.size]; exact hlt)⟩
        rw [he, he', Option.map_some, Option.map_some, hfree i hi e he, h.free i hi e' he']
      · rw [List.getElem?_eq_none (by rw [h.inv.length_entries, h.shape.size]; omega),
          List.getElem?_eq_none (by rw [hmu.length_entries]; omega)]

end MatchUnit

/-- What a dump of a unit does, in every state of every unit of the configuration.

* It can be made as long as the versions of the slots in use fit a handle.
* A new unit reads it back, to the end.
* When all free slots are new, no run of further operations tells the two units apart. -/
structure UnitDumpRestores (K S : Type) [Inhabited K] [MatchKey K] [LookupStructure K S] [LawfulLookup K S]
    [DumpKey K] (fs : List KeyField) (kb : MatchKeyBuilder) (size : ℕ) : Prop where
  serialized : ∀ {V : Type} [Inhabited V] (format : ValueFormat V) (new mu : MatchUnit K V S)
    (ops : List (UnitOp V)), MatchUnit.create size kb = some new →
    RunMeets MatchUnit.step MatchUnit.DeletesSafely new ops → runFrom MatchUnit.step new ops = some mu →
    mu.directMeters = none → ((mu.serialize format).isSome ↔ ∀ i e, mu.live i = some e → e.version < 256)
  restored : ∀ {V : Type} [Inhabited V] (format : ValueFormat V) (new mu : MatchUnit K V S)
    (ops : List (UnitOp V)), MatchUnit.create size kb = some new →
    RunMeets MatchUnit.step MatchUnit.DeletesSafely new ops → runFrom MatchUnit.step new ops = some mu →
    mu.directMeters = none → (∀ i e, mu.live i = some e → format.Restores e.value) →
      ∀ text, mu.serialize format = some text →
    ∀ now, ∃ mu', TextStream.Reads (new.deserialize format now) text mu' ∧ mu.Restored fs mu' ∧
      (mu.FreeNew → ∀ ops', (∀ op ∈ ops', op.Carries fs) → RunMeets MatchUnit.step MatchUnit.DeletesSafely mu ops' →
        RunMeets MatchUnit.step MatchUnit.DeletesSafely mu' ops' →
        (mu'.results ops').map Prod.fst = (mu.results ops').map Prod.fst)

open MatchUnit

/-- The states that a run reaches. -/
theorem reached_of_run {K V S : Type} [Inhabited K] [Inhabited V] [MatchKey K] [LookupStructure K S]
    [LawfulLookup K S] {fs : List KeyField} {new mu : MatchUnit K V S} (hnew : new.IsFresh fs)
    (hsize : new.size ≤ 2 ^ 24) {ops : List (UnitOp V)} (hops : RunMeets step DeletesSafely new ops)
    (hrun : runFrom step new ops = some mu) : mu.Inv fs ∧ SameShape mu new ∧ mu.VersionsMatch := by
  refine runFrom_invariant_of_meets (I := fun mu : MatchUnit K V S => mu.Inv fs ∧ SameShape mu new ∧ mu.VersionsMatch)
    (fun mu op mu' h hsafe hstep => ?_) ⟨hnew.inv, .rfl', ?_⟩ hops hrun
  · obtain ⟨hinv, hshape, hversions⟩ := h
    obtain ⟨⟨r, mu₁⟩, hexec, rfl⟩ := Option.map_eq_some_iff.mp hstep
    obtain ⟨hsame, -, -⟩ := hinv.exec_effect hexec
    refine ⟨hinv.exec hsafe hexec, ?_, hversions.exec hinv.toSlots (hshape.size ▸ hsize) hexec⟩
    exact ⟨hshape.size.trans hsame.size.symm, hshape.nbytesKey.trans hsame.nbytesKey.symm,
      hshape.matchKeyBuilder.trans hsame.matchKeyBuilder.symm⟩
  · intro i e he
    rw [live_of_handles hnew.handles] at he
    cases he

theorem unitDumpRestores {K S : Type} [Inhabited K] [MatchKey K] [LookupStructure K S] [LawfulLookup K S]
    [DumpKey K] [DumpedLookup K S] {fs : List KeyField} {kb : MatchKeyBuilder}
    (hfs : MatchKeyBuilder.ofFields fs = some kb) (hpos : 0 < kb.nbytesKey) {size : ℕ} (hsize : size ≤ 2 ^ 24) :
    UnitDumpRestores K S fs kb size := by
  have hcreated {V : Type} [Inhabited V] {new : MatchUnit K V S} (hnew : create size kb = some new) :
      new.size ≤ 2 ^ 24 ∧ 0 < new.nbytesKey := by
    obtain ⟨s, -, hnew⟩ := Option.bind_eq_some_iff.mp hnew
    cases hnew
    exact ⟨hsize, hpos⟩
  constructor
  · intro V _ format new mu ops hnew hops hrun _
    obtain ⟨hinv, -, hversions⟩ := reached_of_run (isFresh_create hfs hnew) (hcreated hnew).1 hops hrun
    exact isSome_serialize_iff format hinv.toSlots hversions
  · intro V _ format new mu ops hnew hops hrun _ hvalue text htext now
    have hfresh := isFresh_create hfs hnew
    obtain ⟨hinv, hshape, hversions⟩ := reached_of_run hfresh (hcreated hnew).1 hops hrun
    obtain ⟨mu', hreads, hrestored⟩ := deserialize_restores hinv hversions hfresh hshape
      (hshape.nbytesKey ▸ (hcreated hnew).2) now hvalue htext
    refine ⟨mu', hreads, hrestored, fun hfree ops' hcarries hsafe hsafe' => ?_⟩
    have htwin := (hrestored.twin_iff hinv).mpr hfree
    refine Option.ext fun rs => ?_
    rw [Option.map_eq_some_iff, Option.map_eq_some_iff]
    constructor
    · rintro ⟨⟨rs, t⟩, hresults, rfl⟩
      obtain ⟨t', hresults', -⟩ := htwin.symm.results hcarries hsafe' hsafe hresults
      exact ⟨_, hresults', rfl⟩
    · rintro ⟨⟨rs, t⟩, hresults, rfl⟩
      obtain ⟨t', hresults', -⟩ := htwin.results hcarries hsafe hsafe' hresults
      exact ⟨_, hresults', rfl⟩

end Bm
