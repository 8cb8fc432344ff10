/-
# The invariant of a match unit

The lookup structure of a unit holds the keys of the slots in use.  Every operation keeps
that, as long as the lookup structure can take out the keys it is asked to.
-/
import Bmv2.LookupSpec
import Bmv2.MatchUnitSpec

namespace Bm

variable {K V S : Type}

namespace MatchUnit

/-! ## The invariant -/

/-- The invariant of a match unit whose table key has the fields `fs`. -/
structure Inv [MatchKey K] [LookupStructure K S] [LawfulLookup K S] (fs : List KeyField)
    (mu : MatchUnit K V S) : Prop extends mu.Slots where
  built : mu.matchKeyBuilder.Built fs
  nbytesKey : mu.nbytesKey = mu.matchKeyBuilder.nbytesKey
  holds : LawfulLookup.Holds mu.size mu.nbytesKey mu.lookupStructure mu.keys

section Spec

variable [MatchKey K] [LookupStructure K S] [LawfulLookup K S] {fs : List KeyField}
  {mu mu' : MatchUnit K V S}

theorem Inv.isSome_keys (h : mu.Inv fs) {i : ℕ} : (mu.keys i).isSome ↔ i ∈ mu.handles :=
  h.toSlots.isSome_keys

/-- The keys that a unit builds have the shape its lookup structure asks for. -/
theorem keyOk_of_built (hbuilt : mu.matchKeyBuilder.Built fs)
    (hnbytes : mu.nbytesKey = mu.matchKeyBuilder.nbytesKey) {matchKey : List MatchKeyParam}
    {priority : Int32} {k : K} (hk : mu.buildEntryFromMatchKey matchKey priority = some (.ok k)) :
    LawfulLookup.KeyOk mu.nbytesKey k := by
  rw [buildEntryFromMatchKey] at hk
  split at hk
  · rename_i hcheck
    obtain ⟨key, hkey, hk⟩ := Option.bind_eq_some_iff.mp hk
    obtain ⟨data, hdata, hk⟩ := Option.bind_eq_some_iff.mp hk
    cases hk
    rw [hnbytes]
    exact LawfulLookup.keyOk_entry priority hbuilt hcheck hkey hdata
  · cases hk

theorem Inv.keyOk (h : mu.Inv fs) {matchKey : List MatchKeyParam} {priority : Int32} {k : K}
    (hk : mu.buildEntryFromMatchKey matchKey priority = some (.ok k)) :
    LawfulLookup.KeyOk mu.nbytesKey k := keyOk_of_built h.built h.nbytesKey hk

/-- A unit that has kept its shape has the invariant when its lookup structure holds the
keys. -/
theorem Inv.of_holds (h : mu.Inv fs) (hshape : SameShape mu mu') (hslots : mu'.Slots)
    (hholds : LawfulLookup.Holds mu.size mu.nbytesKey mu'.lookupStructure mu'.keys) : mu'.Inv fs :=
  ⟨hslots, hshape.matchKeyBuilder ▸ h.built,
    by rw [hshape.nbytesKey, hshape.matchKeyBuilder, h.nbytesKey],
    by rw [hshape.size, hshape.nbytesKey]; exact hholds⟩

/-- A handle that checks out can be deleted. -/
theorem Inv.exists_deleteEntry (h : mu.Inv fs) {handle : ℕ} {e : Entry K V}
    (hcheck : mu.checkHandle handle = some (.ok e)) :
    ∃ mu', mu.deleteEntry handle = some (.ok (), mu') := by
  obtain ⟨hlive, -⟩ := h.checkHandle_eq_ok.mp hcheck
  obtain ⟨hmem, -⟩ := live_eq_some.mp hlive
  obtain ⟨s, hs, -⟩ := LawfulLookup.holds_deleteEntry h.holds (keys_eq_some.mpr ⟨e, hlive, rfl⟩)
  refine ⟨{ mu with
      entries := mu.entries.set (handleInternal handle) { e with version := (e.version + 1) % 2 ^ 32 }
      lookupStructure := s
      handles := mu.handles.erase (handleInternal handle)
      numEntries := mu.numEntries - 1 }, ?_⟩
  rw [deleteEntry, hcheck]
  simp only [Option.bind_eq_bind, Option.bind_some, hs, unsetHandle, HandleMgr.releaseHandle,
    if_pos hmem]
  rfl

end Spec

/-! ## Lookup -/

section Lookup

variable [LookupStructure K S] {mu : MatchUnit K V S} {key : ByteContainer}

/-- A hit on a slot of the table returns what is stored there. -/
theorem lookupKey_of_some {slot : ℕ} {entry : Entry K V}
    (hlookup : LookupStructure.lookup K mu.lookupStructure key = some (some slot))
    (hentry : mu.entries[slot]? = some entry) :
    mu.lookupKey key = some (some ⟨handleSet entry.version slot, slot, entry.value⟩) := by
  rw [lookupKey, hlookup]
  simp only [Option.bind_eq_bind, Option.bind_some, hentry]
  rfl

theorem lookupKey_of_none (hlookup : LookupStructure.lookup K mu.lookupStructure key = some none) :
    mu.lookupKey key = some none := by
  rw [lookupKey, hlookup]
  rfl

end Lookup

/-! ## Operations keep the invariant -/

section Step

variable [Inhabited K] [Inhabited V] [MatchKey K] [LookupStructure K S] [LawfulLookup K S]
  {fs : List KeyField} {mu mu' : MatchUnit K V S}

/-- A created unit has the invariant and holds nothing. -/
theorem inv_create {size : ℕ} {kb : MatchKeyBuilder} (hfs : MatchKeyBuilder.ofFields fs = some kb)
    (h : create size kb = some mu) : mu.Inv fs ∧ mu.live = fun _ => none := by
  obtain ⟨s, hs, hmu⟩ := Option.bind_eq_some_iff.mp h
  cases hmu
  have hn : kb.nbytesKey = kb.build.nbytesKey := by
    rw [MatchKeyBuilder.build]
    split <;> rfl
  refine ⟨⟨⟨rfl, by simp, List.length_replicate, List.length_replicate⟩,
    MatchKeyBuilder.built_of_pushed (MatchKeyBuilder.pushed_of_ofFields hfs), hn, ?_⟩,
    live_of_handles rfl⟩
  exact LawfulLookup.holds_create hs

/-- The operation takes out no key that the lookup structure cannot take out. -/
def DeletesSafely (mu : MatchUnit K V S) : UnitOp V → Prop
  | .deleteEntry handle => ∀ e, mu.checkHandle handle = some (.ok e) →
      LawfulLookup.DeletesSafely mu.lookupStructure e.key
  | _ => True

/-- An operation that deletes safely keeps the invariant. -/
theorem Inv.of_effect (h : mu.Inv fs) {op : UnitOp V} {r : UnitResult V} (hshape : SameShape mu mu')
    (hslots : mu'.Slots) (heffect : Effect mu mu' op r) (hsafe : mu.DeletesSafely op) : mu'.Inv fs := by
  refine h.of_holds hshape hslots ?_
  cases heffect with
  | quiet hquiet hhandles hentries hlookup =>
    have hkeys : mu'.keys = mu.keys := funext fun i => by rw [keys, keys, live_congr hhandles hentries]
    rw [hlookup, hkeys]
    exact h.holds
  | added k old hbuild hnew hlt hlt64 hold hhandles hentries hlookup =>
    have hok := h.keyOk hbuild
    obtain ⟨b, hb, hiff⟩ := LawfulLookup.entryExists_iff h.holds hok
    obtain rfl : b = false := Option.some.inj (hb.symm.trans hnew)
    have hfree : mu.keys (lowestFree mu.handles) = none :=
      Option.not_isSome_iff_eq_none.mp (mt h.isSome_keys.mp (lowestFree_notMem mu.handles))
    obtain ⟨s, hs, hholds⟩ := LawfulLookup.holds_addEntry h.holds hok
      (fun i k' hk' hsame => by simpa using hiff.mpr ⟨i, k', hk', hsame⟩) hfree
      (fun j hj => h.isSome_keys.mpr (mem_of_lt_lowestFree hj)) hlt hlt64
    obtain rfl := Option.some.inj (hs.symm.trans hlookup)
    rw [keys_update (live_added h.toSlots hlt hhandles hentries)]
    exact hholds
  | deleted e hcheck hhandles hentries hlookup =>
    obtain ⟨hlive, -⟩ := h.checkHandle_eq_ok.mp hcheck
    obtain ⟨s, hs, hholds⟩ :=
      LawfulLookup.holds_deleteEntry h.holds (keys_eq_some.mpr ⟨e, hlive, rfl⟩)
    obtain rfl := Option.some.inj (hs.symm.trans hlookup)
    rw [keys_update (live_deleted hhandles hentries)]
    exact hholds (hsafe e hcheck)
  | modified e hcheck hhandles hentries hlookup =>
    obtain ⟨hlive, -⟩ := h.checkHandle_eq_ok.mp hcheck
    have hkey : mu.keys (handleInternal _) = some e.key := keys_eq_some.mpr ⟨e, hlive, rfl⟩
    rw [hlookup, keys_update (live_modified h.toSlots (live_eq_some.mp hlive).1 hhandles hentries),
      Option.map_some, ← hkey, Function.update_eq_self]
    exact h.holds
  | reset hhandles hentries hlookup =>
    obtain ⟨s, hs, hholds⟩ := LawfulLookup.holds_clear h.holds
    obtain rfl := Option.some.inj (hs.symm.trans hlookup)
    have hkeys : mu'.keys = fun _ => none := funext fun i => by rw [keys, live_of_handles hhandles]; rfl
    rw [hkeys]
    exact hholds

/-- Every operation that deletes safely keeps the invariant. -/
theorem Inv.exec (h : mu.Inv fs) {op : UnitOp V} {r : UnitResult V} (hsafe : mu.DeletesSafely op)
    (hexec : mu.exec op = some (r, mu')) : mu'.Inv fs := by
  obtain ⟨hshape, hslots, heffect⟩ := h.toSlots.exec_effect hexec
  exact h.of_effect hshape hslots heffect hsafe

end Step

end MatchUnit

end Bm
