/-
# Lookups that find slots in use

What the operations of a match unit need in order to go through, one lemma for each operation: the unit keeps
its invariant, its lookup structure measures the slots from slot 0 (`LiveLookup.Anchored`), and a packet
carries the fields of the key.  The last section compares the reference counts of a table with counts that are
not above them.
-/
import Bmv2.KeyMatching
import Bmv2.MemberRefs

namespace Bm

/-! ## Lookups that find slots in use -/

/-- A lookup structure that finds nothing but slots in use, as long as its keys are anchored. -/
class LiveLookup (K : Type) (S : outParam Type) [MatchKey K] [LookupStructure K S]
    [LawfulLookup K S] where
  /-- The structure measures its slots from slot 0. -/
  Anchored : (ℕ → Option K) → Prop
  anchored_empty : Anchored fun _ => none
  anchored_add : ∀ {keys : ℕ → Option K} {k : K} {i : ℕ}, Anchored keys → (∀ j < i, (keys j).isSome) →
    Anchored (Function.update keys i (some k))
  keyOk_of_holds : ∀ {size n : ℕ} {s : S} {keys : ℕ → Option K} {k : K} {i : ℕ},
    LawfulLookup.Holds size n s keys → keys i = some k → LawfulLookup.KeyOk n k
  lookup_live : ∀ {size n : ℕ} {s : S} {keys : ℕ → Option K} {key : ByteContainer},
    LawfulLookup.Holds size n s keys → Anchored keys → key.length = n →
    ∃ r, LookupStructure.lookup K s key = some r ∧ ∀ i, r = some i → (keys i).isSome

instance : LiveLookup ExactMatchKey ExactMap where
  Anchored _ := True
  anchored_empty := trivial
  anchored_add _ _ := trivial
  keyOk_of_holds h hk := h.keyOk _ _ hk
  lookup_live h _ hlen := by
    obtain ⟨r, hr, hiff⟩ := LawfulLookup.lookup_iff h trivial hlen
    exact ⟨r, hr, fun i hi => LawfulLookup.isSome_of_selects ((hiff i).mp hi)⟩

instance : LiveLookup LPMMatchKey LPMTrieStructure where
  Anchored _ := True
  anchored_empty := trivial
  anchored_add _ _ := trivial
  keyOk_of_holds h hk := h.keyOk _ _ hk
  lookup_live h _ hlen := by
    obtain ⟨r, hr, hiff⟩ := LawfulLookup.lookup_iff h trivial hlen
    exact ⟨r, hr, fun i hi => LawfulLookup.isSome_of_selects ((hiff i).mp hi)⟩

instance (K : Type) [MatchKey K] [ListKey K] [ListKeySpec K] : LiveLookup K (EntryMap K) where
  Anchored keys := ∀ i, (keys i).isSome → (keys 0).isSome
  anchored_empty _ h := h
  anchored_add {keys k i} _ hlow j _ := by
    by_cases hi : i = 0
    · rw [hi, Function.update_self]
      rfl
    · rw [Function.update_of_ne (Ne.symm hi)]
      exact hlow 0 (Nat.pos_of_ne_zero hi)
  keyOk_of_holds h hk := h.keyOk _ _ hk
  lookup_live {size n s keys key} h hanchored hlen := by
    obtain ⟨r, hr, hnone, hsome⟩ := EntryMap.Holds.lookup_spec h hlen
    refine ⟨r, hr, fun i hi => ?_⟩
    by_cases hlow : ∃ j, MatchesAt keys key j ∧ EntryList.prioOf keys j < Int32.maxValue.toInt
    · obtain ⟨b, low, hwins, -, hzero, rfl⟩ := hsome hlow
      obtain rfl := hzero.mpr (hanchored b hwins.mem)
      cases hi
      exact hwins.mem
    · -- every matching entry has the largest priority, and none is found
      rw [hnone fun j hj => ?_] at hi
      · cases hi
      · have hmem : (keys j).isSome := by
          obtain ⟨k, hk, -⟩ := hj
          rw [hk]
          rfl
        exact le_antisymm (EntryList.prioOf_le keys hmem) (not_lt.mp fun hlt => hlow ⟨j, hj, hlt⟩)

/-! ## Match units -/

namespace MatchKeyBuilder

variable {kb : MatchKeyBuilder} {fs : List KeyField} {phv : PHV}

/-- The key of a packet that carries the fields has the size of the table key. -/
theorem exists_buildKey (hb : kb.Built fs) (hcarries : ∀ f ∈ fs, phv.Carries f) :
    ∃ key, kb.buildKey phv = some key ∧ key.length = kb.nbytesKey := by
  have hlength : (((implFields fs).map fun f => (keyBytes phv f.toKeyF).getD []).flatten).length =
      kb.nbytesKey := by
    rw [List.length_flatten, List.map_map, hb.nbytesKey, implSizes, List.map_map]
    refine congrArg List.sum (List.map_congr_left fun f hf => ?_)
    obtain ⟨bytes, hbytes, hlen, -⟩ := keyBytes_of_carries (hcarries f ((implFields_perm fs).mem_iff.mp hf))
    rw [Function.comp_apply, Function.comp_apply, hbytes, Option.getD_some, hlen]
  obtain ⟨key, hkey⟩ := exists_applyBigMask hb hlength
  refine ⟨key, ?_, (length_applyBigMask hkey).trans hlength⟩
  rw [buildKey, mapM_keyBytes hb hcarries]
  exact hkey

end MatchKeyBuilder

namespace MatchUnit

variable {K V S : Type} [MatchKey K] [LookupStructure K S] {mu mu' : MatchUnit K V S}
  {fs : List KeyField}

/-! ### Meters -/

omit [MatchKey K] [LookupStructure K S] in
theorem getAndSetHandle_directMeters {slot : ℕ} (h : mu.getAndSetHandle = .ok (slot, mu')) :
    mu'.directMeters = mu.directMeters := by
  rw [getAndSetHandle] at h
  split at h
  · cases h
  · split at h
    · cases h
    · cases h
      rfl

theorem addEntry_directMeters {matchKey : List MatchKeyParam} {value : V} {priority : Int32} {now : ℕ}
    {r : Except MatchErrorCode ℕ} (hadd : mu.addEntry matchKey value priority now = some (r, mu')) :
    mu'.directMeters = mu.directMeters := by
  obtain ⟨⟨r₀, mu₀⟩, hadd', hadd⟩ := Option.bind_eq_some_iff.mp hadd
  have hmeters : mu₀.directMeters = mu.directMeters := by
    obtain ⟨res, -, hadd'⟩ := Option.bind_eq_some_iff.mp hadd'
    cases res with
    | error code =>
      cases hadd'
      rfl
    | ok k =>
      obtain ⟨b, -, hadd'⟩ := Option.bind_eq_some_iff.mp hadd'
      split at hadd'
      · cases hadd'
        rfl
      · cases hset : mu.getAndSetHandle with
        | error code =>
          rw [hset] at hadd'
          cases hadd'
          rfl
        | ok taken =>
          rw [hset] at hadd'
          have htaken := getAndSetHandle_directMeters hset
          obtain ⟨old, -, hadd'⟩ := Option.bind_eq_some_iff.mp hadd'
          obtain ⟨s, -, hadd'⟩ := Option.bind_eq_some_iff.mp hadd'
          cases hadd'
          exact htaken
  cases r₀ with
  | error code =>
    cases hadd
    exact hmeters
  | ok handle =>
    obtain ⟨m, -, hadd⟩ := Option.bind_eq_some_iff.mp hadd
    cases hadd
    exact hmeters

omit [MatchKey K] in
theorem deleteEntry_directMeters {handle : ℕ} {r : Except MatchErrorCode Unit}
    (hdelete : mu.deleteEntry handle = some (r, mu')) : mu'.directMeters = mu.directMeters := by
  obtain ⟨res, -, hdelete⟩ := Option.bind_eq_some_iff.mp hdelete
  cases res with
  | error code =>
    cases hdelete
    rfl
  | ok e =>
    obtain ⟨s, -, hdelete⟩ := Option.bind_eq_some_iff.mp hdelete
    dsimp only at hdelete
    rw [unsetHandle] at hdelete
    split at hdelete
    next hunset =>
      cases hdelete
      rfl
    next hunset =>
      cases hdelete
      split at hunset <;> cases hunset
      rfl

omit [MatchKey K] [LookupStructure K S] in
theorem modifyEntry_directMeters {handle : ℕ} {value : V} {r : Except MatchErrorCode Unit}
    (hmodify : mu.modifyEntry handle value = some (r, mu')) : mu'.directMeters = mu.directMeters := by
  obtain ⟨res, -, hmodify⟩ := Option.bind_eq_some_iff.mp hmodify
  cases res <;> cases hmodify <;> rfl

omit [MatchKey K] in
theorem lookup_directMeters {phv : PHV} {ingressLength ingressTsMs : ℕ}
    {res : Option (MatchUnitLookup V)} (hlookup : mu.lookup phv ingressLength ingressTsMs = some (res, mu')) :
    mu'.directMeters = mu.directMeters := by
  obtain ⟨key, -, hlookup⟩ := Option.bind_eq_some_iff.mp hlookup
  obtain ⟨found, -, hlookup⟩ := Option.bind_eq_some_iff.mp hlookup
  cases found with
  | none =>
    cases hlookup
    rfl
  | some found =>
    obtain ⟨m, -, hlookup⟩ := Option.bind_eq_some_iff.mp hlookup
    cases hlookup
    rfl

/-! ### Operations that return -/

section Returns

variable [LawfulLookup K S] [LiveLookup K S]

omit [LiveLookup K S] in
theorem Inv.of_same (h : mu.Inv fs) (hsame : SameEntries mu mu') : mu'.Inv fs := by
  refine h.of_holds hsame.toSameShape (h.toSlots.of_sameEntries hsame) ?_
  have hkeys : mu'.keys = mu.keys :=
    funext fun i => by rw [keys, keys, live_congr hsame.handles hsame.entries]
  rw [hsame.lookupStructure, hkeys]
  exact h.holds

omit [MatchKey K] [LookupStructure K S] [LawfulLookup K S] [LiveLookup K S] in
/-- The slot of a handle that is looked at has meta data. -/
theorem Slots.exists_entryMeta (h : mu.Slots) {handle : ℕ} (hvalid : mu.validHandle handle = true) :
    ∃ m, mu.getEntryMeta handle = some m := by
  have hlt := (h.lt _ (of_decide_eq_true hvalid)).1
  exact ⟨_, List.getElem?_eq_getElem (h.length_entryMeta.symm ▸ hlt)⟩

/-- `lookup` returns, and finds the value of an entry in use. -/
theorem Inv.exists_lookup (h : mu.Inv fs) (hanchored : LiveLookup.Anchored mu.keys) {phv : PHV}
    (hcarries : ∀ f ∈ fs, phv.Carries f) (ingressLength ingressTsMs : ℕ) :
    ∃ res mu', mu.lookup phv ingressLength ingressTsMs = some (res, mu') ∧
      ∀ found, res = some found → ∃ i, mu.values i = some found.value := by
  obtain ⟨key, hkey, hlen⟩ := MatchKeyBuilder.exists_buildKey h.built hcarries
  obtain ⟨r, hr, hlive⟩ := LiveLookup.lookup_live h.holds hanchored (hlen.trans h.nbytesKey.symm)
  rw [lookup, hkey]
  simp only [Option.bind_eq_bind, Option.bind_some]
  cases r with
  | none =>
    rw [lookupKey_of_none hr]
    exact ⟨none, mu, rfl, by simp⟩
  | some slot =>
    obtain ⟨e, he⟩ := h.exists_live (h.isSome_keys.mp (hlive slot rfl))
    obtain ⟨hmem, hentry⟩ := live_eq_some.mp he
    have hmeta : handleInternal (handleSet e.version slot) < mu.entryMeta.length :=
      (handleInternal_handleSet_le _ _).trans_lt (h.length_entryMeta.symm ▸ (h.lt slot hmem).1)
    rw [lookupKey_of_some hr hentry]
    simp only [Option.bind_some, List.getElem?_eq_getElem hmeta]
    refine ⟨_, _, rfl, fun found hfound => ⟨slot, ?_⟩⟩
    cases hfound
    rw [values, he]
    rfl

/-- `get_entry` returns, and reads the value of an entry in use. -/
theorem Inv.exists_getEntry (h : mu.Inv fs) (hadmits : LawfulLookup.Admits K fs) (handle : ℕ) :
    (∃ code, mu.getEntry handle = some (.error code)) ∨
      mu.validHandle handle = true ∧ ∃ params value priority,
        mu.getEntry handle = some (.ok (params, value, priority)) ∧ ∃ i, mu.values i = some value := by
  rw [getEntry, h.checkHandle_eq]
  simp only [Option.bind_eq_bind, Option.bind_some]
  cases he : mu.live (handleInternal handle) with
  | none => exact .inl ⟨_, rfl⟩
  | some e =>
    by_cases hversion : handleVersion handle = e.version
    · obtain ⟨hmem, -⟩ := live_eq_some.mp he
      have hok := LiveLookup.keyOk_of_holds h.holds (keys_eq_some.mpr ⟨e, he, rfl⟩)
      obtain ⟨params, hparams⟩ := Option.isSome_iff_exists.mp
        (LawfulLookup.isSome_entryToMatchParams h.built hadmits (h.nbytesKey ▸ hok))
      simp only [if_pos hversion, hparams, Option.bind_some]
      exact .inr ⟨decide_eq_true hmem, params, e.value, _, rfl, _, by rw [values, he]; rfl⟩
    · simp only [if_neg hversion]
      exact .inl ⟨_, rfl⟩

end Returns

/-! ### Operations that keep the keys anchored -/

section Keep

variable [Inhabited K] [Inhabited V] [LawfulLookup K S] [LiveLookup K S]

theorem Inv.addEntry_live (h : mu.Inv fs) (hanchored : LiveLookup.Anchored mu.keys)
    {matchKey : List MatchKeyParam} {value : V} {priority : Int32} {now : ℕ} {r : Except MatchErrorCode ℕ}
    (hadd : mu.addEntry matchKey value priority now = some (r, mu')) :
    mu'.Inv fs ∧ LiveLookup.Anchored mu'.keys ∧ mu'.size = mu.size := by
  obtain ⟨hshape, hslots, heffect⟩ := h.toSlots.addEntry_effect hadd
  refine ⟨h.of_effect hshape hslots heffect trivial, ?_, hshape.size⟩
  cases heffect with
  | quiet _ hhandles hentries _ =>
    rwa [show mu'.keys = mu.keys from funext fun i => by rw [keys, keys, live_congr hhandles hentries]]
  | added k old _ _ hlt _ _ hhandles hentries _ =>
    rw [keys_update (live_added h.toSlots hlt hhandles hentries)]
    exact LiveLookup.anchored_add hanchored fun j hj => h.isSome_keys.mpr (mem_of_lt_lowestFree hj)

theorem Inv.deleteEntry_live (h : mu.Inv fs) {handle : ℕ} {e : Entry K V}
    (hcheck : mu.checkHandle handle = some (.ok e))
    (hsafe : LawfulLookup.DeletesSafely mu.lookupStructure e.key)
    (hanchored : LiveLookup.Anchored (Function.update mu.keys (handleInternal handle) none))
    {r : Except MatchErrorCode Unit} (hdelete : mu.deleteEntry handle = some (r, mu')) :
    mu'.Inv fs ∧ LiveLookup.Anchored mu'.keys ∧ mu'.size = mu.size := by
  obtain rfl := h.toSlots.deleteEntry_ok hcheck hdelete
  obtain ⟨hshape, hslots, heffect⟩ := h.toSlots.deleteEntry_effect hdelete
  refine ⟨h.of_effect hshape hslots heffect fun e' he' => ?_, ?_, hshape.size⟩
  · cases hcheck.symm.trans he'
    exact hsafe
  · cases heffect with
    | quiet hquiet => exact hquiet.elim
    | deleted e' _ hhandles hentries _ =>
      rw [keys_update (live_deleted hhandles hentries)]
      exact hanchored

theorem Inv.modifyEntry_live (h : mu.Inv fs) (hanchored : LiveLookup.Anchored mu.keys) {handle : ℕ}
    {value : V} {r : Except MatchErrorCode Unit} (hmodify : mu.modifyEntry handle value = some (r, mu')) :
    mu'.Inv fs ∧ LiveLookup.Anchored mu'.keys ∧ mu'.size = mu.size := by
  obtain ⟨hshape, hslots, heffect⟩ := h.toSlots.modifyEntry_effect hmodify
  refine ⟨h.of_effect hshape hslots heffect trivial, ?_, hshape.size⟩
  cases heffect with
  | quiet _ hhandles hentries _ =>
    rwa [show mu'.keys = mu.keys from funext fun i => by rw [keys, keys, live_congr hhandles hentries]]
  | modified e hcheck hhandles hentries _ =>
    obtain ⟨hlive, -⟩ := h.checkHandle_eq_ok.mp hcheck
    have hkey : mu.keys (handleInternal handle) = some e.key := keys_eq_some.mpr ⟨e, hlive, rfl⟩
    rwa [keys_update (live_modified h.toSlots (live_eq_some.mp hlive).1 hhandles hentries),
      Option.map_some, ← hkey, Function.update_eq_self]

end Keep

end MatchUnit

open MatchUnit

/-! ## Counts that are not too low -/

/-- Another member or group. -/
def Target.withNum : Target → ℕ → Target
  | mbr _, j => mbr j
  | grp _, j => grp j

namespace IndirectIndexRefCount

variable {rc rc' rc₀ rc₁ : IndirectIndexRefCount} {x : Target} {index : IndirectIndex}

theorem exists_set (hx : x.index = some index) (hlow : ∀ j < x.num, (rc.count (x.withNum j)).isSome)
    (value : ℕ) : ∃ rc', rc.set index value = some rc' := by
  have hle : index.get ≤ (rc.counts index).length := by
    obtain ⟨hid, hmbr, -⟩ := Target.index_spec hx
    rw [hid]
    by_contra hlt
    have hsome := hlow _ (not_le.mp hlt)
    cases x <;> simp [counts, hmbr, count, Target.withNum] at hsome
  rw [set, putAt, if_pos hle]
  exact ⟨_, rfl⟩

theorem exists_increase (hx : x.index = some index) {c : ℕ} (hc : rc.count x = some c) :
    ∃ rc', rc.increase index = some rc' ∧
      rc'.count = Function.update rc.count x (some ((c + 1) % 2 ^ 32)) := by
  have hget := (get_eq hx).trans hc
  refine ⟨_, ?_, count_withCounts_set hx hget⟩
  rw [increase, hget]
  rfl

theorem exists_decrease (hx : x.index = some index) {c : ℕ} (hc : rc.count x = some c) :
    ∃ rc', rc.decrease index = some rc' ∧
      rc'.count = Function.update rc.count x (some ((c + (2 ^ 32 - 1)) % 2 ^ 32)) := by
  have hget := (get_eq hx).trans hc
  refine ⟨_, ?_, count_withCounts_set hx hget⟩
  rw [decrease, hget]
  rfl

/-- The counts `rc` are not above those of `rc'`, which are 32-bit numbers. -/
structure AtMost (rc rc' : IndirectIndexRefCount) : Prop where
  isSome : ∀ x, (rc.count x).isSome ↔ (rc'.count x).isSome
  le : ∀ x c c', rc.count x = some c → rc'.count x = some c' → c ≤ c'
  lt : ∀ x c', rc'.count x = some c' → c' < 2 ^ 32

theorem AtMost.exists_count (h : rc.AtMost rc') {c : ℕ} (hc : rc.count x = some c) :
    ∃ c', rc'.count x = some c' ∧ c ≤ c' ∧ c' < 2 ^ 32 := by
  obtain ⟨c', hc'⟩ := Option.isSome_iff_exists.mp ((h.isSome x).mp (by rw [hc]; rfl))
  exact ⟨c', hc', h.le x c c' hc hc', h.lt x c' hc'⟩

/-- The counts of one member or group are replaced. -/
theorem AtMost.update (h : rc₀.AtMost rc) {c₀ c : ℕ}
    (hrc₁ : rc₁.count = Function.update rc₀.count x (some c₀))
    (hrc' : rc'.count = Function.update rc.count x (some c)) (hle : c₀ ≤ c) (hlt : c < 2 ^ 32) :
    rc₁.AtMost rc' := by
  refine ⟨fun y => ?_, fun y d d' hd hd' => ?_, fun y d' hd' => ?_⟩
  · rw [hrc₁, hrc', Function.update_apply, Function.update_apply]
    split
    · exact Iff.rfl
    · exact h.isSome y
  · rw [hrc₁, Function.update_apply] at hd
    rw [hrc', Function.update_apply] at hd'
    split at hd
    next hy =>
      rw [if_pos hy] at hd'
      cases hd
      cases hd'
      exact hle
    next hy =>
      rw [if_neg hy] at hd'
      exact h.le y d d' hd hd'
  · rw [hrc', Function.update_apply] at hd'
    split at hd'
    · cases hd'
      exact hlt
    · exact h.lt y d' hd'

/-- A count goes up. -/
theorem AtMost.raise (h : rc₀.AtMost rc) {c c' : ℕ} (hc : rc.count x = some c)
    (hrc' : rc'.count = Function.update rc.count x (some c')) (hle : c ≤ c') (hlt : c' < 2 ^ 32) :
    rc₀.AtMost rc' := by
  obtain ⟨c₀, hc₀⟩ := Option.isSome_iff_exists.mp ((h.isSome x).mpr (by rw [hc]; rfl))
  have hsame : rc₀.count = Function.update rc₀.count x (some c₀) := by
    rw [← hc₀, Function.update_eq_self]
  exact h.update hsame hrc' ((h.le x c₀ c hc₀ hc).trans hle) hlt

theorem AtMost.hasRoom (h : rc₀.AtMost rc) (hroom : rc.HasRoom x) : rc₀.HasRoom x := by
  intro hc₀
  obtain ⟨c, hc, hle, hlt⟩ := h.exists_count hc₀
  exact hroom (by rw [hc]; congr 1; omega)

/-- A new member or group has the same count on both sides. -/
theorem AtMost.set (h : rc₀.AtMost rc) (hx : x.index = some index) {value : ℕ}
    (hrc₁ : rc₀.set index value = some rc₁) (hrc' : rc.set index value = some rc') (hlt : value < 2 ^ 32) :
    rc₁.AtMost rc' :=
  h.update (count_set hx hrc₁) (count_set hx hrc') le_rfl hlt

/-- What is counted in the table is counted here too, or it is not counted here. -/
theorem AtMost.increase (h : rc₀.AtMost rc) (hx : x.index = some index) (hroom : rc.HasRoom x)
    (hrc : rc.increase index = some rc') :
    rc₀.AtMost rc' ∧ ∃ rc₁, rc₀.increase index = some rc₁ ∧ rc₁.AtMost rc' := by
  obtain ⟨c, hc, hcount⟩ := count_increase hx hrc
  have hlt := h.lt x c hc
  have hne : c ≠ 2 ^ 32 - 1 := fun heq => hroom (heq ▸ hc)
  have hmod : (c + 1) % 2 ^ 32 = c + 1 := Nat.mod_eq_of_lt (by omega)
  rw [hmod] at hcount
  refine ⟨h.raise hc hcount (by omega) (by omega), ?_⟩
  obtain ⟨c₀, hc₀⟩ := Option.isSome_iff_exists.mp ((h.isSome x).mpr (by rw [hc]; rfl))
  have hle := h.le x c₀ c hc₀ hc
  obtain ⟨rc₁, hrc₁, hcount₁⟩ := exists_increase hx hc₀
  rw [Nat.mod_eq_of_lt (by omega)] at hcount₁
  exact ⟨rc₁, hrc₁, h.update hcount₁ hcount (by omega) (by omega)⟩

/-- A reference less. -/
theorem AtMost.decrease (h : rc₀.AtMost rc) (hx : x.index = some index) (hpos : rc₀.count x ≠ some 0)
    (hrc : rc.decrease index = some rc') : ∃ rc₁, rc₀.decrease index = some rc₁ ∧ rc₁.AtMost rc' := by
  obtain ⟨c, hc, hcount⟩ := count_decrease hx hrc
  obtain ⟨c₀, hc₀⟩ := Option.isSome_iff_exists.mp ((h.isSome x).mpr (by rw [hc]; rfl))
  have hle := h.le x c₀ c hc₀ hc
  have hlt := h.lt x c hc
  have hne : c₀ ≠ 0 := fun heq => hpos (heq ▸ hc₀)
  obtain ⟨rc₁, hrc₁, hcount₁⟩ := exists_decrease hx hc₀
  exact ⟨rc₁, hrc₁, h.update hcount₁ hcount (by omega) (Nat.mod_lt _ (by norm_num))⟩

/-- The members of a group have a reference less. -/
theorem AtMost.decreaseMembers (h : rc₀.AtMost rc) {mbrs : List ℕ} (hnodup : mbrs.Nodup)
    (hpos : ∀ i ∈ mbrs, rc₀.count (.mbr i) ≠ some 0)
    (hrc : MatchTableIndirectWS.decreaseMembers rc mbrs = some rc') :
    ∃ rc₁, MatchTableIndirectWS.decreaseMembers rc₀ mbrs = some rc₁ ∧ rc₁.AtMost rc' := by
  induction mbrs generalizing rc₀ rc with
  | nil =>
    cases hrc
    exact ⟨rc₀, rfl, h⟩
  | cons i mbrs ih =>
    obtain ⟨hi, hnodup⟩ := List.nodup_cons.mp hnodup
    obtain ⟨rc₂, hrc₂, hrc⟩ := Option.bind_eq_some_iff.mp hrc
    obtain ⟨index, hindex, hrc₂⟩ := Option.bind_eq_some_iff.mp hrc₂
    obtain ⟨rc₃, hrc₃, h₃⟩ := h.decrease (x := .mbr i) hindex (hpos i List.mem_cons_self) hrc₂
    obtain ⟨c, -, hcount⟩ := count_decrease (x := .mbr i) hindex hrc₃
    have hrest : ∀ j ∈ mbrs, rc₃.count (.mbr j) ≠ some 0 := by
      intro j hj
      have hne : Target.mbr j ≠ .mbr i := fun heq => hi (Target.mbr.inj heq ▸ hj)
      rw [hcount, Function.update_of_ne hne]
      exact hpos j (List.mem_cons_of_mem _ hj)
    obtain ⟨rc₁, hrc₁, h₁⟩ := ih h₃ hnodup hrest hrc
    refine ⟨rc₁, ?_, h₁⟩
    rw [MatchTableIndirectWS.decreaseMembers, List.foldlM_cons, hindex]
    simp only [Option.bind_eq_bind, Option.bind_some, hrc₃]
    exact hrc₁

end IndirectIndexRefCount

end Bm
