/-
# Members in use

A lookup in an indirect table follows an index to a member: the index of the entry that was hit, or the
default index; in a table with groups, through a group.  The module shows that the member is in use, and that
no operation runs into a failed assertion or leaves an array, in every run whose steps keep the indices live
(`MatchTableIndirect.KeepsLive`, `MatchTableIndirectWS.KeepsLive`).

The reference counts may be too high: an entry that the match unit refuses stays counted.  So the invariant
has counts of its own, which are right (`RefInv`) and not above those of the table.
-/
import Bmv2.LiveLookups

namespace Bm

open MatchUnit

/-! ## The invariant of a table -/

/-- An index of the member or group leads to a member in use. -/
def Target.Resolves (mbrHandles grpHandles : HandleMgr) (groups : List (Finset ℕ)) : Target → Prop
  | mbr i => i ∈ mbrHandles
  | grp g => g ∈ grpHandles ∧ groups[g]? ≠ some ∅

/-- The members that an index of the member or group can lead to. -/
def Target.LeadsTo (mbrHandles grpHandles : HandleMgr) (groups : List (Finset ℕ)) : Target → ℕ → Prop
  | mbr i, m => m = i ∧ m ∈ mbrHandles
  | grp g, m => g ∈ grpHandles ∧ m ∈ mbrHandles ∧ ∃ mbrs, groups[g]? = some mbrs ∧ m ∈ mbrs

/-- The meters of the unit fit its entries, when the table has meters. -/
def MatchTableAbstract.MetersFit {K V S : Type} (t : MatchTableAbstract K V S) : Prop :=
  t.withMeters = true →
    ∃ meters, t.matchUnit.directMeters = some meters ∧ meters.length = t.matchUnit.size

/-- A member or group that the table does not count is in no entry. -/
theorem RefInv.eq_zero_of_atMost {K S : Type} {t : MatchTableIndirect K S} {grpHandles : HandleMgr}
    {groups : List (Finset ℕ)} {rc : IndirectIndexRefCount} {x : Target}
    (h : RefInv { t with indexRefCount := rc } grpHandles groups) (hmost : rc.AtMost t.indexRefCount)
    (hcount : t.indexRefCount.count x = some 0) : rc.count x = some 0 ∧ entryRefs t.matchUnit x = 0 := by
  obtain ⟨c, hc⟩ := Option.isSome_iff_exists.mp ((hmost.isSome x).mpr (by rw [hcount]; rfl))
  obtain rfl : c = 0 := Nat.le_zero.mp (hmost.le x c 0 hc hcount)
  obtain ⟨heq, -⟩ := h.count x 0 hc
  exact ⟨hc, (Nat.add_eq_zero_iff.mp heq.symm).1⟩

/-- What is in an entry is counted. -/
theorem RefInv.count_ne_zero {K S : Type} {t : MatchTableIndirect K S} {grpHandles : HandleMgr}
    {groups : List (Finset ℕ)} {x : Target} (h : RefInv t grpHandles groups)
    (hpos : 0 < entryRefs t.matchUnit x) : t.indexRefCount.count x ≠ some 0 := by
  intro hzero
  have := (h.count x 0 hzero).1
  omega

theorem Target.Resolves.live {mbrHandles grpHandles : HandleMgr} {groups : List (Finset ℕ)} {x : Target}
    (h : x.Resolves mbrHandles grpHandles groups) : x.Live mbrHandles grpHandles := by
  cases x with
  | mbr i => exact h
  | grp g => exact h.1

namespace MatchTableAbstract

variable {K V S : Type} {t t' : MatchTableAbstract K V S}

/-- The meters of a table come with its configuration, one for each entry. -/
def Fits (t : MatchTableAbstract K V S) : AbstractOp → Prop
  | .setDirectMeters meterArray => t.matchUnit.size = meterArray.length
  | _ => True

/-- What all tables share returns. -/
theorem exists_exec (hslots : t.matchUnit.Slots) (hmeters : t.MetersFit) {op : AbstractOp} (hfits : t.Fits op) :
    ∃ r t', t.exec op = some (r, t') := by
  cases op with
  | setDirectMeters meterArray =>
    have hsize : t.matchUnit.size = meterArray.length := hfits
    rw [exec, setDirectMeters, MatchUnit.setDirectMeters, if_pos hsize]
    exact ⟨_, _, rfl⟩
  | resetCounters => exact ⟨_, _, rfl⟩
  | writeCounters handle bytes packets =>
    rw [exec, writeCounters]
    split
    · exact ⟨_, _, rfl⟩
    · split
      · exact ⟨_, _, rfl⟩
      next hvalid =>
        obtain ⟨m, hm⟩ := hslots.exists_entryMeta (by simpa [isValidHandle] using hvalid)
        rw [hm]
        exact ⟨_, _, rfl⟩
  | setMeterRates handle configs =>
    rw [exec, setMeterRates]
    split
    · exact ⟨_, _, rfl⟩
    next hwith =>
      split
      · exact ⟨_, _, rfl⟩
      next hvalid =>
        obtain ⟨meters, hsome, hlen⟩ := hmeters (by simpa using hwith)
        have hlt : handleInternal handle < meters.length := by
          have hvalid : t.matchUnit.validHandle handle = true := by simpa [isValidHandle] using hvalid
          exact hlen ▸ (hslots.lt _ (of_decide_eq_true hvalid)).1
        rw [MatchUnit.getMeter, hsome]
        simp only [Option.bind_eq_bind, Option.bind_some, List.getElem?_eq_getElem hlt]
        exact ⟨_, _, rfl⟩
  | setEntryTtl handle ttlMs now =>
    rw [exec, setEntryTtl]
    split
    · exact ⟨_, _, rfl⟩
    · rw [MatchUnit.setEntryTtl]
      split
      next hvalid =>
        obtain ⟨m, hm⟩ := hslots.exists_entryMeta hvalid
        rw [hm]
        exact ⟨_, _, rfl⟩
      · exact ⟨_, _, rfl⟩

theorem MetersFit.exec (h : t.MetersFit) {op : AbstractOp} {r : TableResult}
    (hexec : t.exec op = some (r, t')) : t'.MetersFit := by
  cases op with
  | setDirectMeters meterArray =>
    obtain ⟨t₀, hset, heq⟩ := Option.map_eq_some_iff.mp hexec
    cases heq
    obtain ⟨mu, hmu, hset⟩ := Option.bind_eq_some_iff.mp hset
    cases hset
    rw [MatchUnit.setDirectMeters] at hmu
    split at hmu
    next hsize =>
      cases hmu
      exact fun _ => ⟨meterArray, rfl, hsize.symm⟩
    next => cases hmu
  | resetCounters =>
    cases hexec
    show MetersFit t.resetCounters.2
    rw [resetCounters]
    split
    · exact h
    · exact h
  | writeCounters handle bytes packets =>
    obtain ⟨⟨r₀, t₀⟩, hwrite, heq⟩ := Option.map_eq_some_iff.mp hexec
    cases heq
    rw [writeCounters] at hwrite
    split at hwrite
    · cases hwrite
      exact h
    · split at hwrite
      · cases hwrite
        exact h
      · obtain ⟨m, -, hwrite⟩ := Option.bind_eq_some_iff.mp hwrite
        cases hwrite
        exact h
  | setMeterRates handle configs =>
    obtain ⟨⟨r₀, t₀⟩, hset, heq⟩ := Option.map_eq_some_iff.mp hexec
    cases heq
    rw [setMeterRates] at hset
    split at hset
    · cases hset
      exact h
    · split at hset
      · cases hset
        exact h
      · obtain ⟨m, -, hset⟩ := Option.bind_eq_some_iff.mp hset
        cases hset
        intro hwith
        obtain ⟨meters, hsome, hlen⟩ := h hwith
        refine ⟨_, congrArg (Option.map _) hsome, ?_⟩
        rw [List.length_set]
        exact hlen
  | setEntryTtl handle ttlMs now =>
    obtain ⟨⟨r₀, t₀⟩, hset, heq⟩ := Option.map_eq_some_iff.mp hexec
    cases heq
    rw [setEntryTtl] at hset
    split at hset
    · cases hset
      exact h
    · obtain ⟨⟨r₁, mu⟩, hmu, hset⟩ := Option.bind_eq_some_iff.mp hset
      cases hset
      rw [MatchUnit.setEntryTtl] at hmu
      split at hmu
      · obtain ⟨m, -, hmu⟩ := Option.bind_eq_some_iff.mp hmu
        cases hmu
        exact h
      · cases hmu
        exact h

end MatchTableAbstract

/-- Any parameters that pass the check make a key. -/
def KeysBuild (K : Type) [MatchKey K] (fs : List KeyField) : Prop :=
  ∀ kb : MatchKeyBuilder, kb.Built fs → ∀ params, kb.matchParamsSanityCheck params = true →
    ∃ key : K, MatchKey.matchParamsToEntry kb params = some key ∧ (MatchKey.data key).length = kb.nbytesKey

namespace MatchTableIndirect

variable {K S : Type}

/-- The default of the table is the member or group. -/
def IsDefault (t : MatchTableIndirect K S) (x : Target) : Prop :=
  t.defaultSet = true ∧ x.index = some t.defaultIndex

/-- An entry or the default of the table refers to the member or group. -/
def Refers (t : MatchTableIndirect K S) (x : Target) : Prop := 0 < entryRefs t.matchUnit x ∨ t.IsDefault x

variable [MatchKey K] [LookupStructure K S] [LawfulLookup K S] [LiveLookup K S]

/-- The invariant of a table of members, and of a table with the groups given. -/
structure Sound (fs : List KeyField) (t : MatchTableIndirect K S) (grpHandles : HandleMgr)
    (groups : List (Finset ℕ)) : Prop where
  unit : t.matchUnit.Inv fs
  anchored : LiveLookup.Anchored t.matchUnit.keys
  refs : ∃ rc, rc.AtMost t.indexRefCount ∧ RefInv { t with indexRefCount := rc } grpHandles groups
  stored : ∀ mbr ∈ t.mbrHandles, mbr < t.actionEntries.length
  resolves : ∀ x, t.Refers x → x.Resolves t.mbrHandles grpHandles groups
  default : t.defaultSet = true → ∃ x : Target, x.index = some t.defaultIndex
  meters : t.toMatchTableAbstract.MetersFit

namespace Sound

variable {fs : List KeyField} {t : MatchTableIndirect K S} {grpHandles grpHandles' : HandleMgr}
  {groups groups' : List (Finset ℕ)} {x : Target} {index : IndirectIndex}

/-- The unit stays as it is, and what entries and the default refer to still leads to a member. -/
theorem of_same_unit (h : t.Sound fs grpHandles groups) {t' : MatchTableIndirect K S}
    (hbase : t'.toMatchTableAbstract = t.toMatchTableAbstract) (hset : t'.defaultSet = t.defaultSet)
    (hindex : t'.defaultIndex = t.defaultIndex)
    (hrefs : ∃ rc, rc.AtMost t'.indexRefCount ∧ RefInv { t' with indexRefCount := rc } grpHandles' groups')
    (hstored : ∀ mbr ∈ t'.mbrHandles, mbr < t'.actionEntries.length)
    (hkeeps : ∀ x : Target, t.Refers x → x.Resolves t.mbrHandles grpHandles groups →
      x.Resolves t'.mbrHandles grpHandles' groups') : t'.Sound fs grpHandles' groups' := by
  refine ⟨hbase ▸ h.unit, hbase ▸ h.anchored, hrefs, hstored, fun x hx => ?_, ?_, hbase ▸ h.meters⟩
  · have hrefers : t.Refers x := by
      rw [Refers, IsDefault, hbase, hset, hindex] at hx
      exact hx
    exact hkeeps x hrefers (h.resolves x hrefers)
  · rw [hset, hindex]
    exact h.default

/-- The entries and the counts are replaced. -/
theorem of_unit (h : t.Sound fs grpHandles groups) {mu : MatchUnit K IndirectIndex S}
    {rc : IndirectIndexRefCount}
    (hunit : mu.Inv fs ∧ LiveLookup.Anchored mu.keys ∧ mu.size = t.matchUnit.size)
    (hmeters : mu.directMeters = t.matchUnit.directMeters)
    (hrefs : ∃ rc₀, rc₀.AtMost rc ∧ RefInv { t with indexRefCount := rc₀, matchUnit := mu } grpHandles groups)
    (hentries : ∀ x, 0 < entryRefs mu x →
      0 < entryRefs t.matchUnit x ∨ x.Resolves t.mbrHandles grpHandles groups) :
    ({ t with indexRefCount := rc, matchUnit := mu } : MatchTableIndirect K S).Sound fs grpHandles groups := by
  refine ⟨hunit.1, hunit.2.1, hrefs, h.stored, fun x hx => ?_, h.default, fun hwith => ?_⟩
  · rcases hx with hx | hx
    · exact (hentries x hx).elim (fun hx => h.resolves x (.inl hx)) id
    · exact h.resolves x (.inr hx)
  · obtain ⟨meters, hsome, hlen⟩ := h.meters hwith
    exact ⟨meters, hmeters.trans hsome, hlen.trans hunit.2.2.symm⟩

/-! ### Counts of the table -/

theorem exists_count (h : t.Sound fs grpHandles groups) (hx : x.Live t.mbrHandles grpHandles) :
    (∃ index, x.index = some index) ∧ ∃ c, t.indexRefCount.count x = some c := by
  obtain ⟨rc, hmost, hinv⟩ := h.refs
  obtain ⟨c, hc, -, -⟩ := hmost.exists_count (hinv.exists_count hx)
  exact ⟨hinv.exists_index hx, c, hc⟩

/-! ### Operations on members -/

theorem memberAdded (h : t.Sound fs grpHandles groups) {mbr : ℕ} {actionEntry : ActionEntry}
    {actionEntries : List ActionEntry} {rc : IndirectIndexRefCount}
    (hmbr : mbr = lowestFree t.mbrHandles % 2 ^ 32) (hindex : (Target.mbr mbr).index = some index)
    (hput : putAt t.actionEntries mbr actionEntry = some actionEntries)
    (hrc : t.indexRefCount.set index 0 = some rc) (n : ℕ) :
    ({ t with
      mbrHandles := insert (lowestFree t.mbrHandles) t.mbrHandles
      actionEntries, indexRefCount := rc, numMembers := n } : MatchTableIndirect K S).Sound
        fs grpHandles groups := by
  obtain ⟨rc₀, hmost, hinv⟩ := h.refs
  have hfree : lowestFree t.mbrHandles % 2 ^ 32 = lowestFree t.mbrHandles :=
    RefInv.lowestFree_mod fun i hi => (hinv.live (.mbr i) hi).2
  have hlow : ∀ j < (Target.mbr mbr).num, (rc₀.count ((Target.mbr mbr).withNum j)).isSome := by
    intro j hj
    rw [hmbr, hfree] at hj
    exact (hinv.live (.mbr j) (mem_of_lt_lowestFree hj)).1
  obtain ⟨rc₁, hrc₁⟩ := IndirectIndexRefCount.exists_set hindex hlow 0
  refine h.of_same_unit rfl rfl rfl ⟨rc₁, hmost.set hindex hrc₁ hrc (by norm_num),
    hinv.memberAdded hmbr hindex hrc₁ n⟩ (fun i hi => ?_) fun x _ hx => ?_
  · show i < actionEntries.length
    rw [length_putAt hput]
    rcases Finset.mem_insert.mp hi with rfl | hi
    · omega
    · exact (h.stored i hi).trans_le (le_max_left _ _)
  · cases x with
    | mbr i => exact Finset.mem_insert_of_mem hx
    | grp g => exact hx

theorem memberDeleted (h : t.Sound fs grpHandles groups) {mbr : ℕ}
    (hcount : t.indexRefCount.count (.mbr mbr) = some 0) (hdefault : ¬ t.IsDefault (.mbr mbr)) (n : ℕ) :
    ({ t with mbrHandles := t.mbrHandles.erase mbr, numMembers := n } : MatchTableIndirect K S).Sound
      fs grpHandles groups := by
  obtain ⟨rc₀, hmost, hinv⟩ := h.refs
  obtain ⟨hzero, hentries⟩ := hinv.eq_zero_of_atMost hmost hcount
  refine h.of_same_unit rfl rfl rfl ⟨rc₀, hmost, hinv.memberDeleted hzero n⟩
    (fun i hi => h.stored i (Finset.mem_of_mem_erase hi)) fun x hrefers hx => ?_
  cases x with
  | mbr i =>
    refine Finset.mem_erase.mpr ⟨?_, hx⟩
    rintro rfl
    exact hrefers.elim (fun hpos => by omega) hdefault
  | grp g => exact hx

theorem memberModified (h : t.Sound fs grpHandles groups) (mbr : ℕ) (actionEntry : ActionEntry) :
    ({ t with actionEntries := t.actionEntries.set mbr actionEntry } : MatchTableIndirect K S).Sound
      fs grpHandles groups := by
  obtain ⟨rc₀, hmost, hinv⟩ := h.refs
  refine h.of_same_unit rfl rfl rfl
    ⟨rc₀, hmost, hinv.slots, hinv.count, hinv.live, hinv.entry, hinv.group⟩ (fun i hi => ?_) fun x _ hx => hx
  show i < (t.actionEntries.set mbr actionEntry).length
  rw [List.length_set]
  exact h.stored i hi

/-- The default is replaced. -/
theorem defaultSet (h : t.Sound fs grpHandles groups) (hx : x.Resolves t.mbrHandles grpHandles groups)
    (hindex : x.index = some index) :
    ({ t with defaultIndex := index, defaultSet := true } : MatchTableIndirect K S).Sound
      fs grpHandles groups := by
  obtain ⟨rc₀, hmost, hinv⟩ := h.refs
  refine ⟨h.unit, h.anchored, ⟨rc₀, hmost, hinv.slots, hinv.count, hinv.live, hinv.entry, hinv.group⟩,
    h.stored, fun y hy => ?_, fun _ => ⟨x, hindex⟩, h.meters⟩
  rcases hy with hy | ⟨-, hy⟩
  · exact h.resolves y (.inl hy)
  · exact Target.index_inj hindex hy ▸ hx

/-! ### Operations on entries -/

section Entries

variable [Inhabited K] {mu : MatchUnit K IndirectIndex S} {rc : IndirectIndexRefCount}

/-- An entry that the unit refuses is counted all the same. -/
theorem entryAdded (h : t.Sound fs grpHandles groups) (hx : x.Resolves t.mbrHandles grpHandles groups)
    (hindex : x.index = some index) (hroom : t.indexRefCount.HasRoom x)
    (hrc : t.indexRefCount.increase index = some rc) {matchKey : List MatchKeyParam} {priority : Int32}
    {now : ℕ} {res : Except MatchErrorCode ℕ}
    (hadd : t.matchUnit.addEntry matchKey index priority now = some (res, mu)) :
    ({ t with indexRefCount := rc, matchUnit := mu } : MatchTableIndirect K S).Sound fs grpHandles groups := by
  obtain ⟨rc₀, hmost, hinv⟩ := h.refs
  obtain ⟨hmost', rc₁, hrc₁, hmost₁⟩ := hmost.increase hindex hroom hrc
  have hunit := h.unit.addEntry_live h.anchored hadd
  have hmeters := addEntry_directMeters hadd
  rcases addEntry_cases hadd with ⟨code, -, rfl, -⟩ | ⟨handle, k, rfl, -⟩
  · exact h.of_unit hunit hmeters ⟨rc₀, hmost', hinv⟩ fun y hy => .inl hy
  · refine h.of_unit hunit hmeters ⟨rc₁, hmost₁, hinv.entryAdded hx.live hindex hrc₁
      (hmost.hasRoom hroom) hadd⟩ fun y hy => ?_
    have hrefs := (entryRefs_addEntry h.unit.toSlots hadd).2.1 y
    simp only [Target.some_eq_index_iff hindex] at hrefs
    by_cases hyx : y = x
    · exact .inr (hyx ▸ hx)
    · rw [if_neg hyx] at hrefs
      exact .inl (by omega)

theorem entryDeleted (h : t.Sound fs grpHandles groups) {handle : ℕ}
    (hvalue : t.matchUnit.getValue handle = some (.ok index))
    (hrc : t.indexRefCount.decrease index = some rc)
    (hsafe : ∀ e, t.matchUnit.checkHandle handle = some (.ok e) →
      LawfulLookup.DeletesSafely t.matchUnit.lookupStructure e.key ∧
      LiveLookup.Anchored (Function.update t.matchUnit.keys (handleInternal handle) none))
    {res : Except MatchErrorCode Unit} (hdelete : t.matchUnit.deleteEntry handle = some (res, mu)) :
    ({ t with indexRefCount := rc, matchUnit := mu } : MatchTableIndirect K S).Sound fs grpHandles groups := by
  obtain ⟨rc₀, hmost, hinv⟩ := h.refs
  obtain ⟨e, hcheck, hlive, rfl⟩ := h.unit.toSlots.getValue_ok hvalue
  have hentry : t.matchUnit.values (handleInternal handle) = some e.value := by rw [values, hlive]; rfl
  obtain ⟨y, -, hindex⟩ := hinv.entry _ _ hentry
  have hpos : rc₀.count y ≠ some 0 := hinv.count_ne_zero (RefInv.entryRefs_pos hentry hindex)
  obtain ⟨rc₁, hrc₁, hmost₁⟩ := hmost.decrease hindex hpos hrc
  obtain ⟨hdeletes, hanchored⟩ := hsafe e hcheck
  refine h.of_unit (h.unit.deleteEntry_live hcheck hdeletes hanchored hdelete)
    (deleteEntry_directMeters hdelete) ⟨rc₁, hmost₁, hinv.entryDeleted hvalue hrc₁ hdelete⟩
    fun z hz => .inl ?_
  have hrefs := (entryRefs_deleteEntry h.unit.toSlots hcheck hdelete).2.1 z
  omega

theorem entryModified (h : t.Sound fs grpHandles groups) {handle : ℕ} {old : IndirectIndex}
    (hvalue : t.matchUnit.getValue handle = some (.ok old)) {rc₁ : IndirectIndexRefCount}
    (hdec : t.indexRefCount.decrease old = some rc₁) (hx : x.Resolves t.mbrHandles grpHandles groups)
    (hindex : x.index = some index) (hinc : rc₁.increase index = some rc)
    (hroom : x.index = some old ∨ t.indexRefCount.HasRoom x) {res : Except MatchErrorCode Unit}
    (hmodify : t.matchUnit.modifyEntry handle index = some (res, mu)) :
    ({ t with indexRefCount := rc, matchUnit := mu } : MatchTableIndirect K S).Sound fs grpHandles groups := by
  obtain ⟨rc₀, hmost, hinv⟩ := h.refs
  obtain ⟨e, hcheck, hlive, rfl⟩ := h.unit.toSlots.getValue_ok hvalue
  have hentry : t.matchUnit.values (handleInternal handle) = some e.value := by rw [values, hlive]; rfl
  obtain ⟨y, -, hold⟩ := hinv.entry _ _ hentry
  have hpos : rc₀.count y ≠ some 0 := hinv.count_ne_zero (RefInv.entryRefs_pos hentry hold)
  obtain ⟨rc₂, hrc₂, hmost₂⟩ := hmost.decrease hold hpos hdec
  -- the old reference is no longer counted, so there is room for one more to the same thing
  have hroom₁ : rc₁.HasRoom x := by
    obtain ⟨c, hc, hcount⟩ := IndirectIndexRefCount.count_decrease hold hdec
    rw [IndirectIndexRefCount.HasRoom, hcount, Function.update_apply]
    split
    next hxy =>
      have hlt := hmost.lt y c hc
      obtain ⟨c₀, hc₀⟩ := Option.isSome_iff_exists.mp ((hmost.isSome y).mpr (by rw [hc]; rfl))
      have hle := hmost.le y c₀ c hc₀ hc
      have hne : c₀ ≠ 0 := fun heq => hpos (heq ▸ hc₀)
      rw [ne_eq, Option.some.injEq]
      omega
    next hxy =>
      exact hroom.resolve_left fun hsame => hxy (Target.index_inj hsame hold)
  obtain ⟨-, rc₃, hrc₃, hmost₃⟩ := hmost₂.increase hindex hroom₁ hinc
  have hghost := hinv.entryModified hvalue hrc₂ hx.live hindex hrc₃
    (hroom.imp_right hmost.hasRoom) hmodify
  refine h.of_unit (h.unit.modifyEntry_live h.anchored hmodify) (modifyEntry_directMeters hmodify)
    ⟨rc₃, hmost₃, hghost⟩ fun z hz => ?_
  have hrefs := (entryRefs_modifyEntry h.unit.toSlots hcheck hmodify).2.1 z
  simp only [Target.some_eq_index_iff hindex] at hrefs
  by_cases hzx : z = x
  · exact .inr (hzx ▸ hx)
  · rw [if_neg hzx] at hrefs
    exact .inl (by omega)

end Entries

/-! ### Meta data, resets -/

/-- Nothing but meta data and meters differs. -/
theorem of_same (h : t.Sound fs grpHandles groups) {base : MatchTableAbstract K IndirectIndex S}
    (hsame : SameEntries t.matchUnit base.matchUnit) (hmeters : base.MetersFit) :
    ({ t with toMatchTableAbstract := base } : MatchTableIndirect K S).Sound fs grpHandles groups := by
  obtain ⟨rc₀, hmost, hinv⟩ := h.refs
  have hinv' := hinv.of_same hsame
  have hkeys : base.matchUnit.keys = t.matchUnit.keys :=
    funext fun i => by rw [keys, keys, live_congr hsame.handles hsame.entries]
  refine ⟨h.unit.of_same hsame, hkeys.symm ▸ h.anchored,
    ⟨rc₀, hmost, hinv'.slots, hinv'.count, hinv'.live, hinv'.entry, hinv'.group⟩, h.stored, fun x hx => ?_,
    h.default, hmeters⟩
  have hrefs : entryRefs base.matchUnit x = entryRefs t.matchUnit x := by
    rw [entryRefs, entryRefs, hsame.handles, hsame.values_eq]
  refine h.resolves x ?_
  rw [Refers, hrefs] at hx
  exact hx

theorem of_lookup (h : t.Sound fs grpHandles groups) {phv : PHV} {ingressLength ingressTsMs : ℕ}
    {res : Option (MatchUnitLookup IndirectIndex)} {mu : MatchUnit K IndirectIndex S}
    (hmu : t.matchUnit.lookup phv ingressLength ingressTsMs = some (res, mu)) :
    (t.withUnit mu).Sound fs grpHandles groups := by
  have hsame := lookup_same hmu
  have hmeters : ({ t.toMatchTableAbstract with matchUnit := mu } :
      MatchTableAbstract K IndirectIndex S).MetersFit := by
    intro hwith
    obtain ⟨meters, hsome, hlen⟩ := h.meters hwith
    exact ⟨meters, (lookup_directMeters hmu).trans hsome, hlen.trans hsame.size.symm⟩
  exact h.of_same hsame hmeters

/-- A table without entries, members and default. -/
theorem of_empty (hunit : t.matchUnit.Inv fs)
    (hhandles : t.matchUnit.handles = ∅) (hrc : t.indexRefCount = {}) (hmbrs : t.mbrHandles = ∅)
    (hdefault : t.defaultSet = false) (hmeters : t.toMatchTableAbstract.MetersFit) :
    t.Sound fs ∅ groups := by
  have hkeys : t.matchUnit.keys = fun _ => none :=
    funext fun i => by rw [keys, live_of_handles hhandles, Option.map_none]
  have hinv : RefInv t ∅ groups := refInv_empty hunit.toSlots hhandles hrc hmbrs
  have hcount : ∀ y, t.indexRefCount.count y = none := by
    intro y
    rw [hrc]
    cases y <;> rfl
  refine ⟨hunit, hkeys ▸ LiveLookup.anchored_empty, ⟨t.indexRefCount, ⟨fun _ => Iff.rfl, ?_, ?_⟩, hinv⟩,
    ?_, fun x hx => ?_, ?_, hmeters⟩
  · intro y c c' hc
    rw [hcount] at hc
    cases hc
  · intro y c hc
    rw [hcount] at hc
    cases hc
  · rw [hmbrs]
    exact fun i hi => absurd hi (Finset.notMem_empty i)
  · rcases hx with hx | ⟨hset, -⟩
    · rw [entryRefs, hhandles, Finset.filter_empty] at hx
      exact absurd hx (Nat.lt_irrefl 0)
    · rw [hdefault] at hset
      cases hset
  · rw [hdefault]
    exact fun hset => by cases hset

theorem resetState [Inhabited K] (h : t.Sound fs grpHandles groups) (hdefault : t.defaultSet = false)
    {t' : MatchTableIndirect K S} (hreset : t.resetState = some t') : t'.Sound fs ∅ [] := by
  obtain ⟨mu, hmu, hreset⟩ := Option.bind_eq_some_iff.mp hreset
  have hmeters : mu.directMeters = t.matchUnit.directMeters ∧ mu.size = t.matchUnit.size ∧ mu.handles = ∅ := by
    obtain ⟨s, -, hmu⟩ := Option.bind_eq_some_iff.mp hmu
    cases hmu
    exact ⟨rfl, rfl, rfl⟩
  cases hreset
  obtain ⟨hshape, hslots, heffect⟩ := resetState_effect (r := .done (.ok ())) hmu
  refine of_empty (h.unit.of_effect hshape hslots heffect trivial) hmeters.2.2 rfl rfl hdefault ?_
  intro hwith
  obtain ⟨meters, hsome, hlen⟩ := h.meters hwith
  exact ⟨meters, hmeters.1.trans hsome, hlen.trans hmeters.2.1.symm⟩

end Sound

theorem sound_of_isNew [Inhabited K] {fs : List KeyField} {kb : MatchKeyBuilder}
    (hfs : MatchKeyBuilder.ofFields fs = some kb) {size : ℕ} {t : MatchTableIndirect K S}
    (h : t.IsNew size kb) : t.Sound fs ∅ [] := by
  obtain ⟨hunit, hlive⟩ := inv_create hfs h.matchUnit
  have hhandles : t.matchUnit.handles = ∅ := by
    refine Finset.eq_empty_of_forall_notMem fun i hi => ?_
    obtain ⟨e, he⟩ := hunit.toSlots.exists_live hi
    rw [hlive] at he
    cases he
  exact .of_empty hunit hhandles h.indexRefCount h.mbrHandles h.defaultSet fun hwith => by
    rw [h.withMeters] at hwith
    cases hwith

/-! ## Steps that keep the indices live -/

/-- The operation on members and entries is safe.

* The action is one of the table, and a new member has a number that an index holds.
* The default member is not deleted, unless an entry or group still uses it.
* A reference more can be counted, and an entry is modified to a member in use.
* The lookup structure takes the deleted key out, and finds the others afterwards. -/
def KeepsLive (t : MatchTableIndirect K S) : MemberOp → Prop
  | .abstract op => t.toMatchTableAbstract.Fits op
  | .addMember actionFn _ =>
      (t.getNextNode actionFn).isSome ∧ lowestFree t.mbrHandles ≤ IndirectIndex.indexMask
  | .deleteMember mbr => t.IsDefault (.mbr mbr) → t.indexRefCount.count (.mbr mbr) ≠ some 0
  | .modifyMember _ actionFn _ => (t.getNextNode actionFn).isSome
  | .addEntry _ mbr _ _ => t.indexRefCount.HasRoom (.mbr mbr)
  | .deleteEntry handle => ∀ e, t.matchUnit.checkHandle handle = some (.ok e) →
      LawfulLookup.DeletesSafely t.matchUnit.lookupStructure e.key ∧
      LiveLookup.Anchored (Function.update t.matchUnit.keys (handleInternal handle) none)
  | .modifyEntry handle mbr => ∀ old, t.matchUnit.getValue handle = some (.ok old) →
      mbr ∈ t.mbrHandles ∧ ((Target.mbr mbr).index = some old ∨ t.indexRefCount.HasRoom (.mbr mbr))
  | .setDefaultMember _ => True

/-- The same for all operations on a table of members; it is reset only without a default. -/
def KeepsLiveIn (fs : List KeyField) (t : MatchTableIndirect K S) : IndirectOp → Prop
  | .mbr op => t.KeepsLive op
  | .lookup phv _ _ => ∀ f ∈ fs, phv.Carries f
  | .resetState => t.defaultSet = false

variable {fs : List KeyField} {t t' : MatchTableIndirect K S} {grpHandles : HandleMgr}
  {groups : List (Finset ℕ)}

/-- **Step lemma**, of the operations on members and entries. -/
theorem Sound.of_memberEffect [Inhabited K] (h : t.Sound fs grpHandles groups) {op : MemberOp} {r : TableResult}
    (hsafe : t.KeepsLive op) (heffect : MemberEffect t t' op r) : t'.Sound fs grpHandles groups := by
  cases heffect with
  | abstract hexec ht' =>
    subst ht'
    exact h.of_same (MatchTableAbstract.exec_same hexec) (h.meters.exec hexec)
  | refused _ ht' =>
    subst ht'
    exact h
  | memberAdded hmbr hindex hput hrc ht' =>
    subst ht'
    exact h.memberAdded hmbr hindex hput hrc _
  | memberDeleted hmem hcount ht' =>
    subst ht'
    exact h.memberDeleted hcount (fun hdefault => hsafe hdefault hcount) _
  | memberModified hmem ht' =>
    subst ht'
    exact h.memberModified _ _
  | entryAdded hmem hindex hrc hadd ht' =>
    subst ht'
    exact h.entryAdded (x := .mbr _) hmem hindex hsafe hrc hadd
  | entryDeleted hvalue hrc hdelete ht' =>
    subst ht'
    exact h.entryDeleted hvalue hrc hsafe hdelete
  | entryModified hvalue hdec hmem hindex hinc hmodify ht' =>
    subst ht'
    exact h.entryModified (x := .mbr _) hvalue hdec hmem hindex hinc (hsafe _ hvalue).2 hmodify
  | entryLost hvalue hdec hnot ht' => exact absurd (hsafe _ hvalue).1 hnot
  | defaultSet hmem hindex ht' =>
    subst ht'
    exact h.defaultSet (x := .mbr _) hmem hindex

/-! ### Operations return -/

omit [LookupStructure K S] [LawfulLookup K S] [LiveLookup K S] in
/-- An array that has an element for every handle can be written at the lowest free one. -/
theorem le_of_lowestFree {s : HandleMgr} {n : ℕ} (h : ∀ i ∈ s, i < n) : lowestFree s ≤ n := by
  by_contra hlt
  exact lt_irrefl n (h n (mem_of_lt_lowestFree (not_le.mp hlt)))

namespace Sound

/-- The entry that a handle leads to refers to something that is counted. -/
theorem exists_decrease (h : t.Sound fs grpHandles groups) {handle : ℕ} {index : IndirectIndex}
    (hvalue : t.matchUnit.getValue handle = some (.ok index)) :
    ∃ rc, t.indexRefCount.decrease index = some rc ∧
      ∀ x : Target, (t.indexRefCount.count x).isSome → (rc.count x).isSome := by
  obtain ⟨e, hcheck, hlive, rfl⟩ := h.unit.toSlots.getValue_ok hvalue
  obtain ⟨rc₀, -, hinv⟩ := h.refs
  obtain ⟨y, hy, hindex⟩ := hinv.entry (handleInternal handle) e.value (by
    show t.matchUnit.values _ = _
    rw [values, hlive]
    rfl)
  obtain ⟨-, c, hc⟩ := h.exists_count hy
  obtain ⟨rc, hrc, hcount⟩ := IndirectIndexRefCount.exists_decrease hindex hc
  refine ⟨rc, hrc, fun x hx => ?_⟩
  rw [hcount, Function.update_apply]
  split
  · rfl
  · exact hx

theorem exists_getValue (h : t.Sound fs grpHandles groups) (handle : ℕ) :
    ∃ res, t.matchUnit.getValue handle = some res := by
  rw [getValue, h.unit.toSlots.checkHandle_eq]
  simp only [Option.bind_eq_bind, Option.bind_some]
  split <;> exact ⟨_, rfl⟩

theorem exists_addMember (h : t.Sound fs grpHandles groups) {actionFn : ℕ} {actionData : List ℕ}
    (hsafe : t.KeepsLive (.addMember actionFn actionData)) :
    ∃ r t', t.addMember actionFn actionData = some (r, t') := by
  obtain ⟨hnode, hfree⟩ := hsafe
  obtain ⟨nextNode, hnode⟩ := Option.isSome_iff_exists.mp hnode
  rw [addMember, hnode]
  simp only [Option.bind_eq_bind, Option.bind_some, HandleMgr.getHandle]
  split
  next => exact ⟨_, _, rfl⟩
  next mbr mbrHandles hget =>
    split at hget
    next =>
      cases hget
      have hmod : lowestFree t.mbrHandles % 2 ^ 32 = lowestFree t.mbrHandles := by
        rw [IndirectIndex.indexMask] at hfree
        exact Nat.mod_eq_of_lt (by omega)
      obtain ⟨index, hindex⟩ := Option.isSome_iff_exists.mp
        (Target.isSome_index (x := .mbr (lowestFree t.mbrHandles)) |>.mpr hfree)
      have hlow : ∀ j < lowestFree t.mbrHandles, (t.indexRefCount.count (.mbr j)).isSome := by
        intro j hj
        obtain ⟨-, c, hc⟩ := h.exists_count (x := .mbr j) (mem_of_lt_lowestFree hj)
        exact Option.isSome_iff_exists.mpr ⟨c, hc⟩
      obtain ⟨rc, hrc⟩ := IndirectIndexRefCount.exists_set hindex hlow 0
      have hle := le_of_lowestFree h.stored
      rw [hmod, entriesInsert, putAt, if_pos hle, show IndirectIndex.makeMbrIndex _ = some index from hindex]
      simp only [Option.bind_eq_bind, Option.bind_some, hrc]
      exact ⟨_, _, rfl⟩
    next => cases hget

theorem exists_deleteMember (h : t.Sound fs grpHandles groups) (mbr : ℕ) :
    ∃ r t', t.deleteMember mbr = some (r, t') := by
  rw [deleteMember]
  by_cases hmem : mbr ∈ t.mbrHandles
  · obtain ⟨⟨index, hindex⟩, c, hc⟩ := h.exists_count (x := .mbr mbr) hmem
    rw [if_neg (by rwa [isValidMbr_eq, not_not]), show IndirectIndex.makeMbrIndex mbr = some index from hindex]
    simp only [Option.bind_eq_bind, Option.bind_some, (IndirectIndexRefCount.get_eq hindex).trans hc,
      HandleMgr.releaseHandle, if_pos hmem]
    split <;> exact ⟨_, _, rfl⟩
  · rw [if_pos (by rwa [isValidMbr_eq])]
    exact ⟨_, _, rfl⟩

theorem exists_modifyMember (h : t.Sound fs grpHandles groups) {mbr actionFn : ℕ} {actionData : List ℕ}
    (hsafe : t.KeepsLive (.modifyMember mbr actionFn actionData)) :
    ∃ r t', t.modifyMember mbr actionFn actionData = some (r, t') := by
  obtain ⟨nextNode, hnode⟩ := Option.isSome_iff_exists.mp hsafe
  rw [modifyMember, hnode]
  simp only [Option.bind_eq_bind, Option.bind_some]
  by_cases hmem : mbr ∈ t.mbrHandles
  · rw [if_neg (by rwa [isValidMbr_eq, not_not]), if_pos (h.stored mbr hmem)]
    exact ⟨_, _, rfl⟩
  · rw [if_pos (by rwa [isValidMbr_eq])]
    exact ⟨_, _, rfl⟩

theorem exists_setDefaultMember (h : t.Sound fs grpHandles groups) (mbr : ℕ) :
    ∃ r t', t.setDefaultMember mbr = some (r, t') := by
  rw [setDefaultMember]
  by_cases hmem : mbr ∈ t.mbrHandles
  · obtain ⟨⟨index, hindex⟩, -⟩ := h.exists_count (x := .mbr mbr) hmem
    rw [if_neg (by rwa [isValidMbr_eq, not_not]), show IndirectIndex.makeMbrIndex mbr = some index from hindex]
    exact ⟨_, _, rfl⟩
  · rw [if_pos (by rwa [isValidMbr_eq])]
    exact ⟨_, _, rfl⟩

/-! #### Entries -/

theorem exists_addEntry (h : t.Sound fs grpHandles groups) (hbuild : KeysBuild K fs)
    (matchKey : List MatchKeyParam) (mbr : ℕ) (priority : Int32) (now : ℕ) :
    ∃ r t', t.addEntry matchKey mbr priority now = some (r, t') := by
  rw [addEntry]
  by_cases hmem : mbr ∈ t.mbrHandles
  · obtain ⟨⟨index, hindex⟩, c, hc⟩ := h.exists_count (x := .mbr mbr) hmem
    obtain ⟨rc, hrc, -⟩ := IndirectIndexRefCount.exists_increase hindex hc
    have hkey : ∃ res, t.matchUnit.buildEntryFromMatchKey matchKey priority = some res :=
      exists_build h.unit.built (hbuild _ h.unit.built matchKey)
    obtain ⟨res, mu, hadd⟩ := h.unit.exists_addEntry hkey index now
    rw [if_neg (by rwa [isValidMbr_eq, not_not]), show IndirectIndex.makeMbrIndex mbr = some index from hindex]
    simp only [Option.bind_eq_bind, Option.bind_some, hrc, hadd]
    exact ⟨_, _, rfl⟩
  · rw [if_pos (by rwa [isValidMbr_eq])]
    exact ⟨_, _, rfl⟩

theorem exists_deleteEntry (h : t.Sound fs grpHandles groups) (handle : ℕ) :
    ∃ r t', t.deleteEntry handle = some (r, t') := by
  obtain ⟨res, hvalue⟩ := h.exists_getValue handle
  rw [deleteEntry, hvalue]
  cases res with
  | error code => exact ⟨_, _, rfl⟩
  | ok index =>
    obtain ⟨rc, hrc, -⟩ := h.exists_decrease hvalue
    obtain ⟨e, hcheck, -, -⟩ := h.unit.toSlots.getValue_ok hvalue
    obtain ⟨mu, hdelete⟩ := h.unit.exists_deleteEntry hcheck
    simp only [Option.bind_eq_bind, Option.bind_some, hrc, hdelete]
    exact ⟨_, _, rfl⟩

/-- The unit modifies an entry that it has read. -/
theorem exists_modifyUnit (h : t.Sound fs grpHandles groups) {handle : ℕ} {old : IndirectIndex}
    (hvalue : t.matchUnit.getValue handle = some (.ok old)) (index : IndirectIndex) :
    ∃ r mu, t.matchUnit.modifyEntry handle index = some (r, mu) := by
  obtain ⟨e, hcheck, -, -⟩ := h.unit.toSlots.getValue_ok hvalue
  rw [MatchUnit.modifyEntry, hcheck]
  exact ⟨_, _, rfl⟩

theorem exists_modifyEntry (h : t.Sound fs grpHandles groups) (handle mbr : ℕ) :
    ∃ r t', t.modifyEntry handle mbr = some (r, t') := by
  obtain ⟨res, hvalue⟩ := h.exists_getValue handle
  rw [modifyEntry, hvalue]
  cases res with
  | error code => exact ⟨_, _, rfl⟩
  | ok old =>
    obtain ⟨rc, hrc, hsome⟩ := h.exists_decrease hvalue
    simp only [Option.bind_eq_bind, Option.bind_some, hrc]
    by_cases hmem : mbr ∈ t.mbrHandles
    · obtain ⟨⟨index, hindex⟩, c, hc⟩ := h.exists_count (x := .mbr mbr) hmem
      obtain ⟨c', hc'⟩ := Option.isSome_iff_exists.mp (hsome (.mbr mbr) (by rw [hc]; rfl))
      obtain ⟨rc', hrc', -⟩ := IndirectIndexRefCount.exists_increase hindex hc'
      obtain ⟨r, mu, hmodify⟩ := h.exists_modifyUnit hvalue index
      rw [if_neg (by rwa [isValidMbr_eq, not_not]), show IndirectIndex.makeMbrIndex mbr = some index from hindex]
      simp only [Option.bind_some, hrc', hmodify]
      exact ⟨_, _, rfl⟩
    · rw [if_pos (by rwa [isValidMbr_eq])]
      exact ⟨_, _, rfl⟩

/-- Every operation on members and entries returns. -/
theorem exists_execMember (h : t.Sound fs grpHandles groups) (hbuild : KeysBuild K fs) {op : MemberOp}
    (hsafe : t.KeepsLive op) : ∃ r t', t.execMember op = some (r, t') := by
  have hmap {R : Type} {x : Option (R × MatchTableIndirect K S)} (f : R → TableResult)
      (hx : ∃ r t', x = some (r, t')) : ∃ r t', x.map (fun rt => (f rt.1, rt.2)) = some (r, t') := by
    obtain ⟨r, t', rfl⟩ := hx
    exact ⟨_, _, rfl⟩
  cases op with
  | abstract op =>
    obtain ⟨r, base, hexec⟩ := MatchTableAbstract.exists_exec h.unit.toSlots h.meters hsafe
    rw [execMember, hexec]
    exact ⟨_, _, rfl⟩
  | addMember actionFn actionData => exact hmap _ (h.exists_addMember hsafe)
  | deleteMember mbr => exact hmap _ (h.exists_deleteMember mbr)
  | modifyMember mbr actionFn actionData => exact hmap _ (h.exists_modifyMember hsafe)
  | addEntry matchKey mbr priority now => exact hmap _ (h.exists_addEntry hbuild matchKey mbr priority now)
  | deleteEntry handle => exact hmap _ (h.exists_deleteEntry handle)
  | modifyEntry handle mbr => exact hmap _ (h.exists_modifyEntry handle mbr)
  | setDefaultMember mbr => exact hmap _ (h.exists_setDefaultMember mbr)

/-! ### Lookups -/

theorem exists_target (h : t.Sound fs grpHandles groups) {i : ℕ} {index : IndirectIndex}
    (hvalue : t.matchUnit.values i = some index) :
    ∃ x : Target, x.index = some index ∧ x.Resolves t.mbrHandles grpHandles groups := by
  obtain ⟨rc₀, -, hinv⟩ := h.refs
  obtain ⟨x, -, hindex⟩ := hinv.entry i index hvalue
  exact ⟨x, hindex, h.resolves x (.inl (RefInv.entryRefs_pos hvalue hindex))⟩

/-- The index that a lookup follows leads to a member. -/
theorem exists_followed (h : t.Sound fs grpHandles groups) {res : Option (MatchUnitLookup IndirectIndex)}
    (hres : ∀ found, res = some found → ∃ i, t.matchUnit.values i = some found.value)
    (hne : ¬ (res.isNone ∧ !t.defaultSet)) :
    ∃ x : Target, x.index = some ((res.map MatchUnitLookup.value).getD t.defaultIndex) ∧
      x.Resolves t.mbrHandles grpHandles groups := by
  cases res with
  | some found =>
    obtain ⟨i, hvalue⟩ := hres found rfl
    exact h.exists_target hvalue
  | none =>
    have hset : t.defaultSet = true := by simpa using hne
    obtain ⟨x, hindex⟩ := h.default hset
    exact ⟨x, hindex, h.resolves x (.inr ⟨hset, hindex⟩)⟩

theorem exists_actionEntry (h : t.Sound fs grpHandles groups) {mbr : ℕ} (hmem : mbr ∈ t.mbrHandles) :
    ∃ actionEntry, t.actionEntries[mbr]? = some actionEntry :=
  ⟨_, List.getElem?_eq_getElem (h.stored mbr hmem)⟩

/-- `get_entry` returns when the index of an entry can be taken apart. -/
theorem exists_entryCommonInfo (h : t.Sound fs grpHandles groups) {handle : ℕ}
    (hvalid : t.matchUnit.validHandle handle = true) (now : ℕ) :
    ∃ common, t.entryCommonInfo handle now = some common := by
  rw [MatchTableAbstract.entryCommonInfo]
  split
  · exact ⟨_, rfl⟩
  · obtain ⟨m, hm⟩ := h.unit.toSlots.exists_entryMeta hvalid
    rw [hm]
    exact ⟨_, rfl⟩

end Sound

end MatchTableIndirect

theorem Target.getMbr_of_index {i : ℕ} {index : IndirectIndex} (h : (mbr i).index = some index) :
    index.getMbr = some i := by
  obtain ⟨hget, hmbr, -⟩ := index_spec h
  rw [IndirectIndex.getMbr, if_pos hmbr, hget]
  rfl

theorem Target.getGrp_of_index {g : ℕ} {index : IndirectIndex} (h : (grp g).index = some index) :
    index.getGrp = some g := by
  obtain ⟨hget, -, hgrp⟩ := index_spec h
  rw [IndirectIndex.getGrp, if_pos hgrp, hget]
  rfl

theorem Target.exists_mbrAndGrp {x : Target} {index : IndirectIndex} (h : x.index = some index) :
    ∃ mbrAndGrp, index.mbrAndGrp = some mbrAndGrp := by
  obtain ⟨-, hmbr, -⟩ := index_spec h
  rw [IndirectIndex.mbrAndGrp, hmbr]
  cases x with
  | mbr i =>
    rw [if_pos rfl, getMbr_of_index h]
    exact ⟨_, rfl⟩
  | grp g =>
    rw [if_neg (by simp), getGrp_of_index h]
    exact ⟨_, rfl⟩

/-! ## Tables of members -/

namespace MatchTableIndirect

variable {K S : Type} [MatchKey K] [LookupStructure K S]

/-- `get_member`. -/
def getMember (t : MatchTableIndirect K S) (mbr : ℕ) : Option (Except MatchErrorCode ActionFnEntry) :=
  if !t.isValidMbr mbr then some (.error .invalidMbrHandle)
  else do
    let entry ← t.actionEntries[mbr]?
    pure (.ok entry.actionFn)

/-- `get_default_entry`: no default, or its member. -/
def getDefaultEntry (t : MatchTableIndirect K S) : Option (Option ℕ) :=
  if !t.defaultSet then some none else t.defaultIndex.getMbr.map some

/-- What a lookup answers that finds `res` in the match unit: the empty action, without an entry and a
default, else the action entry of a member in use that the index leads to. -/
structure Answers (t : MatchTableIndirect K S) (grpHandles : HandleMgr) (groups : List (Finset ℕ))
    (res : Option (MatchUnitLookup IndirectIndex)) (actionEntry : ActionEntry) : Prop where
  empty : res = none → t.defaultSet = false → actionEntry = t.emptyAction
  followed : res.isSome ∨ t.defaultSet = true → ∃ (x : Target) (mbr : ℕ),
    x.index = some ((res.map MatchUnitLookup.value).getD t.defaultIndex) ∧
      x.LeadsTo t.mbrHandles grpHandles groups mbr ∧ t.actionEntries[mbr]? = some actionEntry

/-- Every packet gets an action entry, and everything can be read. -/
structure Reliable (fs : List KeyField) (t : MatchTableIndirect K S) : Prop where
  lookup : ∀ (phv : PHV) (ingressLength ingressTsMs : ℕ), (∀ f ∈ fs, phv.Carries f) →
    ∃ res mu actionEntry, t.matchUnit.lookup phv ingressLength ingressTsMs = some (res, mu) ∧
      t.lookup phv ingressLength ingressTsMs =
        some ((actionEntry, res.map MatchUnitLookup.handle), t.withUnit mu) ∧
      t.Answers ∅ [] res actionEntry
  getEntry : ∀ handle now, (t.getEntry handle now).isSome
  getMember : ∀ mbr, (t.getMember mbr).isSome
  getDefaultEntry : t.getDefaultEntry.isSome

omit [MatchKey K] [LookupStructure K S] in
theorem answers_empty {t : MatchTableIndirect K S} {grpHandles : HandleMgr} {groups : List (Finset ℕ)}
    {res : Option (MatchUnitLookup IndirectIndex)} (hempty : res.isNone ∧ !t.defaultSet) :
    t.Answers grpHandles groups res t.emptyAction := by
  obtain ⟨hnone, hset⟩ := hempty
  obtain rfl := Option.isNone_iff_eq_none.mp hnone
  refine ⟨fun _ _ => rfl, fun h => ?_⟩
  rcases h with h | h
  · cases h
  · rw [h] at hset
    cases hset

omit [MatchKey K] [LookupStructure K S] in
theorem answers_followed {t : MatchTableIndirect K S} {grpHandles : HandleMgr} {groups : List (Finset ℕ)}
    {res : Option (MatchUnitLookup IndirectIndex)} (hne : ¬ (res.isNone ∧ !t.defaultSet)) {x : Target}
    (hindex : x.index = some ((res.map MatchUnitLookup.value).getD t.defaultIndex)) {mbr : ℕ}
    (hleads : x.LeadsTo t.mbrHandles grpHandles groups mbr) {actionEntry : ActionEntry}
    (hentry : t.actionEntries[mbr]? = some actionEntry) : t.Answers grpHandles groups res actionEntry := by
  refine ⟨fun hnone hset => absurd ⟨by rw [hnone]; rfl, by rw [hset]; rfl⟩ hne, fun _ => ?_⟩
  exact ⟨x, mbr, hindex, hleads, hentry⟩

variable [LawfulLookup K S] [LiveLookup K S] {fs : List KeyField} {t t' : MatchTableIndirect K S}

theorem Sound.exists_resetState [Inhabited K] {grpHandles : HandleMgr} {groups : List (Finset ℕ)}
    (h : t.Sound fs grpHandles groups) : ∃ t', t.resetState = some t' := by
  obtain ⟨s, hs, -⟩ := LawfulLookup.holds_clear h.unit.holds
  rw [MatchTableIndirect.resetState, MatchUnit.resetState, hs]
  exact ⟨_, rfl⟩

theorem Sound.isSome_getMember {grpHandles : HandleMgr} {groups : List (Finset ℕ)}
    (h : t.Sound fs grpHandles groups) (mbr : ℕ) : (t.getMember mbr).isSome := by
  rw [MatchTableIndirect.getMember]
  by_cases hmem : mbr ∈ t.mbrHandles
  · obtain ⟨actionEntry, hentry⟩ := h.exists_actionEntry hmem
    rw [if_neg (by rwa [isValidMbr_eq, not_not]), hentry]
    rfl
  · rw [if_pos (by rwa [isValidMbr_eq])]
    rfl

theorem Sound.reliable (h : t.Sound fs ∅ []) (hadmits : LawfulLookup.Admits K fs) : t.Reliable fs := by
  refine ⟨fun phv ingressLength ingressTsMs hcarries => ?_, fun handle now => ?_, fun mbr => ?_, ?_⟩
  · obtain ⟨res, mu, hmu, hres⟩ := h.unit.exists_lookup h.anchored hcarries ingressLength ingressTsMs
    by_cases hempty : res.isNone ∧ !t.defaultSet
    · refine ⟨res, mu, t.emptyAction, hmu, ?_, answers_empty hempty⟩
      rw [lookup, hmu, Option.isNone_iff_eq_none.mp hempty.1]
      simp only [Option.bind_eq_bind, Option.bind_some]
      rw [if_pos ⟨rfl, hempty.2⟩]
      rfl
    · obtain ⟨x, hindex, hx⟩ := h.exists_followed hres hempty
      cases x with
      | grp g => exact absurd hx.1 (Finset.notMem_empty g)
      | mbr i =>
        have hmem : i ∈ t.mbrHandles := hx
        have hvalid : (t.withUnit mu).isValidMbr i = true := decide_eq_true hmem
        obtain ⟨actionEntry, hentry⟩ := h.exists_actionEntry hmem
        refine ⟨res, mu, actionEntry, hmu, ?_, answers_followed hempty hindex ⟨rfl, hx⟩ hentry⟩
        rw [lookup, hmu]
        simp only [Option.bind_eq_bind, Option.bind_some]
        rw [if_neg (show ¬ (res.isNone = true ∧ (!(t.withUnit mu).defaultSet) = true) from hempty)]
        show (((res.map MatchUnitLookup.value).getD t.defaultIndex).getMbr).bind _ = _
        rw [Target.getMbr_of_index hindex, Option.bind_some, if_pos hvalid]
        show (t.actionEntries[i]?).bind _ = _
        rw [hentry]
        rfl
  · rw [getEntry]
    rcases h.unit.exists_getEntry hadmits handle with ⟨code, hget⟩ | ⟨hvalid, params, index, priority, hget, i, hvalue⟩
    · rw [hget]
      rfl
    · obtain ⟨x, hindex, hx⟩ := h.exists_target hvalue
      obtain ⟨common, hcommon⟩ := h.exists_entryCommonInfo hvalid now
      cases x with
      | grp g => exact absurd hx.1 (Finset.notMem_empty g)
      | mbr i =>
        rw [hget]
        simp only [Option.bind_eq_bind, Option.bind_some, Target.getMbr_of_index hindex, hcommon]
        rfl
  · exact h.isSome_getMember mbr
  · rw [getDefaultEntry]
    split
    · rfl
    next hset =>
      obtain ⟨x, hindex⟩ := h.default (by simpa using hset)
      cases x with
      | grp g => exact absurd (h.resolves _ (.inr ⟨by simpa using hset, hindex⟩)).1 (Finset.notMem_empty g)
      | mbr i =>
        rw [Target.getMbr_of_index hindex]
        rfl

/-- **Step lemma**, of all operations on a table of members. -/
theorem Sound.exists_exec [Inhabited K] (h : t.Sound fs ∅ []) (hbuild : KeysBuild K fs)
    (hadmits : LawfulLookup.Admits K fs) {op : IndirectOp} (hsafe : t.KeepsLiveIn fs op) :
    ∃ t', t.step op = some t' ∧ t'.Sound fs ∅ [] := by
  cases op with
  | mbr op =>
    obtain ⟨r, t', hexec⟩ := h.exists_execMember hbuild hsafe
    refine ⟨t', ?_, h.of_memberEffect hsafe (execMember_effect hexec)⟩
    rw [step, exec, hexec]
    rfl
  | lookup phv ingressLength ingressTsMs =>
    obtain ⟨res, mu, actionEntry, hmu, hlookup, -⟩ :=
      (h.reliable hadmits).lookup phv ingressLength ingressTsMs hsafe
    refine ⟨t.withUnit mu, ?_, ?_⟩
    · rw [step, exec, hlookup]
      rfl
    · exact h.of_lookup hmu
  | resetState =>
    obtain ⟨t', hreset⟩ := h.exists_resetState
    refine ⟨t', ?_, h.resetState hsafe hreset⟩
    rw [step, exec, hreset]
    rfl

end MatchTableIndirect

/-! ## Groups -/

/-- The members of a group in use are counted. -/
theorem RefInv.count_mbr_ne_zero {K S : Type} {t : MatchTableIndirect K S} {grpHandles : HandleMgr}
    {groups : List (Finset ℕ)} (h : RefInv t grpHandles groups) {g i : ℕ} (hg : g ∈ grpHandles)
    {mbrs : Finset ℕ} (hmbrs : groups[g]? = some mbrs) (hi : i ∈ mbrs) :
    t.indexRefCount.count (.mbr i) ≠ some 0 := by
  intro hzero
  have heq := (h.count _ 0 hzero).1
  have hpos := RefInv.groupRefs_pos hg hmbrs hi
  omega

namespace MatchTableIndirect.Sound

variable {K S : Type} [MatchKey K] [LookupStructure K S] [LawfulLookup K S] [LiveLookup K S]
  {fs : List KeyField} {t : MatchTableIndirect K S} {grpHandles : HandleMgr}
  {groups groups' : List (Finset ℕ)} {g : ℕ} {index : IndirectIndex} {rc : IndirectIndexRefCount}

theorem exists_group (h : t.Sound fs grpHandles groups) (hg : g ∈ grpHandles) :
    ∃ mbrs, groups[g]? = some mbrs ∧ mbrs ⊆ t.mbrHandles := by
  obtain ⟨rc₀, -, hinv⟩ := h.refs
  exact hinv.group g hg

theorem groupCreated (h : t.Sound fs grpHandles groups) (hgrp : g = lowestFree grpHandles % 2 ^ 32)
    (hput : putAt groups g ∅ = some groups') (hindex : (Target.grp g).index = some index)
    (hrc : t.indexRefCount.set index 0 = some rc) :
    ({ t with indexRefCount := rc } : MatchTableIndirect K S).Sound fs
      (insert (lowestFree grpHandles) grpHandles) groups' := by
  obtain ⟨rc₀, hmost, hinv⟩ := h.refs
  have hfree : lowestFree grpHandles % 2 ^ 32 = lowestFree grpHandles :=
    RefInv.lowestFree_mod fun i hi => (hinv.live (.grp i) hi).2
  have hlow : ∀ j < (Target.grp g).num, (rc₀.count ((Target.grp g).withNum j)).isSome := by
    intro j hj
    rw [hgrp, hfree] at hj
    exact (hinv.live (.grp j) (mem_of_lt_lowestFree hj)).1
  obtain ⟨rc₁, hrc₁⟩ := IndirectIndexRefCount.exists_set hindex hlow 0
  refine h.of_same_unit rfl rfl rfl ⟨rc₁, hmost.set hindex hrc₁ hrc (by norm_num),
    hinv.groupCreated hgrp hput hindex hrc₁⟩ h.stored fun x _ hx => ?_
  cases x with
  | mbr i => exact hx
  | grp j =>
    obtain ⟨hj, hne⟩ := hx
    refine ⟨Finset.mem_insert_of_mem hj, ?_⟩
    have hjg : j ≠ g := by
      rintro rfl
      rw [hgrp, hfree] at hj
      exact lowestFree_notMem grpHandles hj
    rwa [show groups'[j]? = groups[j]? from
      (congrFun (getElem?_putAt hput) j).trans (Function.update_of_ne hjg _ _)]

theorem groupDeleted (h : t.Sound fs grpHandles groups) (hg : g ∈ grpHandles)
    (hcount : t.indexRefCount.count (.grp g) = some 0) (hdefault : ¬ t.IsDefault (.grp g))
    {mbrs : Finset ℕ} (hmbrs : groups[g]? = some mbrs)
    (hrc : MatchTableIndirectWS.decreaseMembers t.indexRefCount (mbrs.sort (· ≤ ·)) = some rc) :
    ({ t with indexRefCount := rc } : MatchTableIndirect K S).Sound fs (grpHandles.erase g) groups := by
  obtain ⟨rc₀, hmost, hinv⟩ := h.refs
  obtain ⟨hzero, hentries⟩ := hinv.eq_zero_of_atMost hmost hcount
  obtain ⟨rc₁, hrc₁, hmost₁⟩ := hmost.decreaseMembers (Finset.sort_nodup _ _)
    (fun i hi => hinv.count_mbr_ne_zero hg hmbrs ((Finset.mem_sort _).mp hi)) hrc
  refine h.of_same_unit rfl rfl rfl ⟨rc₁, hmost₁, hinv.groupDeleted hg hzero hmbrs hrc₁⟩ h.stored
    fun x hrefers hx => ?_
  cases x with
  | mbr i => exact hx
  | grp j =>
    refine ⟨Finset.mem_erase.mpr ⟨?_, hx.1⟩, hx.2⟩
    rintro rfl
    exact hrefers.elim (fun hpos => by omega) hdefault

/-- The members of a group are replaced; a group that is referred to keeps a member. -/
theorem of_groups_set (h : t.Sound fs grpHandles groups) {mbrs mbrs' : Finset ℕ}
    (hmbrs : groups[g]? = some mbrs) (hne : t.Refers (.grp g) → mbrs' ≠ ∅)
    (hrefs : ∃ rc₀, rc₀.AtMost rc ∧
      RefInv { t with indexRefCount := rc₀ } grpHandles (groups.set g mbrs')) :
    ({ t with indexRefCount := rc } : MatchTableIndirect K S).Sound fs grpHandles (groups.set g mbrs') := by
  obtain ⟨hlt, -⟩ := List.getElem?_eq_some_iff.mp hmbrs
  refine h.of_same_unit rfl rfl rfl hrefs h.stored fun x hrefers hx => ?_
  cases x with
  | mbr i => exact hx
  | grp j =>
    refine ⟨hx.1, ?_⟩
    by_cases hjg : j = g
    · subst hjg
      rw [List.getElem?_set_self hlt, ne_eq, Option.some.injEq]
      exact hne hrefers
    · rw [List.getElem?_set_ne (Ne.symm hjg)]
      exact hx.2

theorem mbrPut (h : t.Sound fs grpHandles groups) {mbr : ℕ} (hmbr : mbr ∈ t.mbrHandles) (hg : g ∈ grpHandles)
    {mbrs : Finset ℕ} (hmbrs : groups[g]? = some mbrs) (hnew : mbr ∉ mbrs)
    (hindex : (Target.mbr mbr).index = some index) (hrc : t.indexRefCount.increase index = some rc)
    (hroom : t.indexRefCount.HasRoom (.mbr mbr)) :
    ({ t with indexRefCount := rc } : MatchTableIndirect K S).Sound fs grpHandles
      (groups.set g (insert mbr mbrs)) := by
  obtain ⟨rc₀, hmost, hinv⟩ := h.refs
  obtain ⟨-, rc₁, hrc₁, hmost₁⟩ := hmost.increase hindex hroom hrc
  exact h.of_groups_set hmbrs (fun _ => Finset.insert_ne_empty _ _)
    ⟨rc₁, hmost₁, hinv.mbrPut hmbr hg hmbrs hnew hindex hrc₁ (hmost.hasRoom hroom)⟩

theorem mbrTaken (h : t.Sound fs grpHandles groups) {mbr : ℕ} (hg : g ∈ grpHandles) {mbrs : Finset ℕ}
    (hmbrs : groups[g]? = some mbrs) (hold : mbr ∈ mbrs) (hindex : (Target.mbr mbr).index = some index)
    (hrc : t.indexRefCount.decrease index = some rc)
    (hlast : groups[g]? = some {mbr} → ¬ t.Refers (.grp g)) :
    ({ t with indexRefCount := rc } : MatchTableIndirect K S).Sound fs grpHandles
      (groups.set g (mbrs.erase mbr)) := by
  obtain ⟨rc₀, hmost, hinv⟩ := h.refs
  obtain ⟨rc₁, hrc₁, hmost₁⟩ := hmost.decrease hindex (hinv.count_mbr_ne_zero hg hmbrs hold) hrc
  refine h.of_groups_set hmbrs (fun hrefers hempty => ?_)
    ⟨rc₁, hmost₁, hinv.mbrTaken hg hmbrs hold hindex hrc₁⟩
  have hsingle : mbrs = {mbr} := by rw [← Finset.insert_erase hold, hempty, insert_empty_eq]
  exact hlast (hsingle ▸ hmbrs) hrefers

end MatchTableIndirect.Sound

/-! ## Tables of groups -/

namespace MatchTableIndirectWS

variable {K S : Type} [MatchKey K] [LookupStructure K S]

/-- `get_group`: the members. -/
def getGroup (t : MatchTableIndirectWS K S) (grp : ℕ) : Option (Except MatchErrorCode (Finset ℕ)) :=
  if !t.isValidGrp grp then some (.error .invalidGrpHandle) else (t.groups[grp]?).map .ok

/-- `get_default_entry`: no default, or the member and the group that it reports. -/
def getDefaultEntry (t : MatchTableIndirectWS K S) : Option (Option (ℕ × ℕ)) :=
  if !t.defaultSet then some none else t.defaultIndex.mbrAndGrp.map some

/-- Every packet gets an action entry, whatever its hash, and everything can be read. -/
structure Reliable (fs : List KeyField) (t : MatchTableIndirectWS K S) : Prop where
  lookup : ∀ (phv : PHV) (ingressLength ingressTsMs h : ℕ), (∀ f ∈ fs, phv.Carries f) →
    ∃ res mu actionEntry, t.matchUnit.lookup phv ingressLength ingressTsMs = some (res, mu) ∧
      t.lookup phv ingressLength ingressTsMs h =
        some ((actionEntry, res.map MatchUnitLookup.handle), t.withUnit mu) ∧
      t.Answers t.grpHandles t.groups res actionEntry
  getEntry : ∀ handle now, (t.getEntry handle now).isSome
  getMember : ∀ mbr, (t.getMember mbr).isSome
  getGroup : ∀ grp, (t.getGroup grp).isSome
  getDefaultEntry : t.getDefaultEntry.isSome

variable [LawfulLookup K S] [LiveLookup K S] {fs : List KeyField} {t t' : MatchTableIndirectWS K S}

/-- The operation on a table with groups is safe.

* A new group has a number that an index holds.
* The default group is not deleted, unless an entry still uses it.
* A reference more can be counted, and an entry is modified to a group in use that has members.
* The last member stays in a group that an entry or the default uses, and the default group has members.
* The table is reset only without groups and a default. -/
def KeepsLive (fs : List KeyField) (t : MatchTableIndirectWS K S) : IndirectWSOp → Prop
  | .mbr op => t.toMatchTableIndirect.KeepsLive op
  | .createGroup => lowestFree t.grpHandles ≤ IndirectIndex.indexMask
  | .deleteGroup grp => t.IsDefault (.grp grp) → t.indexRefCount.count (.grp grp) ≠ some 0
  | .addMemberToGroup mbr _ => t.indexRefCount.HasRoom (.mbr mbr)
  | .removeMemberFromGroup mbr grp => t.groups[grp]? = some {mbr} → ¬ t.Refers (.grp grp)
  | .addEntryWS _ grp _ _ => t.indexRefCount.HasRoom (.grp grp)
  | .modifyEntryWS handle grp => ∀ old, t.matchUnit.getValue handle = some (.ok old) →
      grp ∈ t.grpHandles ∧ t.groups[grp]? ≠ some ∅ ∧
        ((Target.grp grp).index = some old ∨ t.indexRefCount.HasRoom (.grp grp))
  | .setDefaultGroup grp => grp ∈ t.grpHandles → t.groups[grp]? ≠ some ∅
  | .lookup phv _ _ _ => ∀ f ∈ fs, phv.Carries f
  | .resetState => t.grpHandles = ∅ ∧ t.defaultSet = false

/-- The invariant of a table with groups. -/
def Sound (fs : List KeyField) (t : MatchTableIndirectWS K S) : Prop :=
  t.toMatchTableIndirect.Sound fs t.grpHandles t.groups

/-- **Step lemma**, of the operations on groups but the lookup. -/
theorem Sound.of_groupEffect [Inhabited K] (h : t.Sound fs) {op : IndirectWSOp} {r : TableResult}
    (hsafe : t.KeepsLive fs op) (heffect : GroupEffect t t' op r)
    (hlookup : ∀ phv ingressLength ingressTsMs hash, op ≠ .lookup phv ingressLength ingressTsMs hash) :
    t'.Sound fs := by
  cases heffect with
  | mbr heffect ht' =>
    subst ht'
    exact MatchTableIndirect.Sound.of_memberEffect h hsafe heffect
  | refused _ ht' =>
    subst ht'
    exact h
  | groupCreated hgrp hput hindex hrc ht' =>
    subst ht'
    exact MatchTableIndirect.Sound.groupCreated h hgrp hput hindex hrc
  | groupDeleted hmem hcount hmbrs hrc ht' =>
    subst ht'
    exact MatchTableIndirect.Sound.groupDeleted h hmem hcount (fun hdefault => hsafe hdefault hcount) hmbrs hrc
  | mbrPut hmbr hgrp hmbrs hnew hindex hrc ht' =>
    subst ht'
    exact MatchTableIndirect.Sound.mbrPut h hmbr hgrp hmbrs hnew hindex hrc hsafe
  | mbrTaken hmbr hgrp hmbrs hold hindex hrc ht' =>
    subst ht'
    exact MatchTableIndirect.Sound.mbrTaken h hgrp hmbrs hold hindex hrc hsafe
  | entryAdded hmem hmbrs hne hindex hrc hadd ht' =>
    subst ht'
    refine MatchTableIndirect.Sound.entryAdded (x := .grp _) h ⟨hmem, ?_⟩ hindex hsafe hrc hadd
    rw [hmbrs, ne_eq, Option.some.injEq]
    exact hne.ne_empty
  | entryModified hvalue hdec hmem hmbrs hne hindex hinc hmodify ht' =>
    subst ht'
    obtain ⟨-, hmembers, hroom⟩ := hsafe _ hvalue
    exact MatchTableIndirect.Sound.entryModified (x := .grp _) h hvalue hdec ⟨hmem, hmembers⟩ hindex hinc
      hroom hmodify
  | entryLost hvalue hdec hbad ht' =>
    obtain ⟨hmem, hne, -⟩ := hsafe _ hvalue
    exact absurd hbad (by simp [hmem, hne])
  | defaultSet hmem hindex ht' =>
    subst ht'
    exact MatchTableIndirect.Sound.defaultSet (x := .grp _) h ⟨hmem, hsafe hmem⟩ hindex
  | lookup hsame ht' => exact absurd rfl (hlookup _ _ _ _)
  | reset hreset ht' =>
    subst ht'
    obtain ⟨hgroups, hdefault⟩ := hsafe
    show MatchTableIndirect.Sound fs _ t.grpHandles []
    rw [hgroups]
    exact MatchTableIndirect.Sound.resetState h hdefault hreset

namespace Sound

/-! ### Lookups -/

/-- An index that leads to a member is followed to one. -/
theorem exists_followIndex (h : t.Sound fs) {x : Target} {index : IndirectIndex} (hindex : x.index = some index)
    (hx : x.Resolves t.mbrHandles t.grpHandles t.groups) (hash : ℕ) :
    ∃ mbr, t.followIndex index hash = some mbr ∧ x.LeadsTo t.mbrHandles t.grpHandles t.groups mbr := by
  obtain ⟨-, hismbr, -⟩ := Target.index_spec hindex
  rw [followIndex, hismbr]
  cases x with
  | mbr i =>
    rw [if_pos rfl]
    exact ⟨i, Target.getMbr_of_index hindex, rfl, hx⟩
  | grp g =>
    obtain ⟨hg, hne⟩ := hx
    have hvalid : t.isValidGrp g = true := decide_eq_true hg
    obtain ⟨mbrs, hmbrs, hsub⟩ := MatchTableIndirect.Sound.exists_group h hg
    have hcard : mbrs.card ≠ 0 := by
      rw [ne_eq, Finset.card_eq_zero]
      exact fun hempty => hne (hempty ▸ hmbrs)
    have hlt : hash % mbrs.card < (mbrs.sort (· ≤ ·)).length := by
      rw [Finset.length_sort]
      exact Nat.mod_lt _ (Nat.pos_of_ne_zero hcard)
    have hmem : (mbrs.sort (· ≤ ·))[hash % mbrs.card] ∈ mbrs :=
      (Finset.mem_sort _).mp (List.getElem_mem hlt)
    refine ⟨_, ?_, hg, hsub hmem, mbrs, hmbrs, hmem⟩
    rw [if_neg (by simp), Target.getGrp_of_index hindex]
    simp only [Option.bind_eq_bind, Option.bind_some]
    rw [if_pos hvalid, getFromHash, hmbrs]
    simp only [Option.bind_eq_bind, Option.bind_some]
    rw [if_neg hcard, List.getElem?_eq_getElem hlt]

theorem exists_lookup (h : t.Sound fs) {phv : PHV} (hcarries : ∀ f ∈ fs, phv.Carries f)
    (ingressLength ingressTsMs hash : ℕ) :
    ∃ res mu actionEntry, t.matchUnit.lookup phv ingressLength ingressTsMs = some (res, mu) ∧
      t.lookup phv ingressLength ingressTsMs hash =
        some ((actionEntry, res.map MatchUnitLookup.handle), t.withUnit mu) ∧
      t.Answers t.grpHandles t.groups res actionEntry := by
  obtain ⟨res, mu, hmu, hres⟩ := h.unit.exists_lookup h.anchored hcarries ingressLength ingressTsMs
  by_cases hempty : res.isNone ∧ !t.defaultSet
  · refine ⟨res, mu, t.emptyAction, hmu, ?_, MatchTableIndirect.answers_empty hempty⟩
    rw [lookup, hmu, Option.isNone_iff_eq_none.mp hempty.1]
    simp only [Option.bind_eq_bind, Option.bind_some]
    rw [if_pos ⟨rfl, hempty.2⟩]
    rfl
  · obtain ⟨x, hindex, hx⟩ := MatchTableIndirect.Sound.exists_followed h hres hempty
    obtain ⟨mbr, hfollow, hleads⟩ := h.exists_followIndex hindex hx hash
    have hmem : mbr ∈ t.mbrHandles := by
      cases x with
      | mbr i => exact hleads.2
      | grp g => exact hleads.2.1
    have hvalid : (t.withUnit mu).isValidMbr mbr = true := decide_eq_true hmem
    obtain ⟨actionEntry, hentry⟩ := MatchTableIndirect.Sound.exists_actionEntry h hmem
    refine ⟨res, mu, actionEntry, hmu, ?_, MatchTableIndirect.answers_followed hempty hindex hleads hentry⟩
    rw [lookup, hmu]
    simp only [Option.bind_eq_bind, Option.bind_some]
    rw [if_neg (show ¬ (res.isNone = true ∧ (!(t.withUnit mu).defaultSet) = true) from hempty)]
    show (t.followIndex ((res.map MatchUnitLookup.value).getD t.defaultIndex) hash).bind _ = _
    rw [hfollow, Option.bind_some, if_pos hvalid]
    show (t.actionEntries[mbr]?).bind _ = _
    rw [hentry]
    rfl

theorem reliable (h : t.Sound fs) (hadmits : LawfulLookup.Admits K fs) : t.Reliable fs := by
  refine ⟨fun phv ingressLength ingressTsMs hash hcarries =>
    h.exists_lookup hcarries ingressLength ingressTsMs hash, fun handle now => ?_, fun mbr => ?_, fun grp => ?_, ?_⟩
  · rw [getEntry]
    rcases h.unit.exists_getEntry hadmits handle with ⟨code, hget⟩ | ⟨hvalid, params, index, priority, hget, i, hvalue⟩
    · rw [hget]
      rfl
    · obtain ⟨x, hindex, -⟩ := MatchTableIndirect.Sound.exists_target h hvalue
      obtain ⟨mbrAndGrp, hmbrAndGrp⟩ := Target.exists_mbrAndGrp hindex
      obtain ⟨common, hcommon⟩ := MatchTableIndirect.Sound.exists_entryCommonInfo h hvalid now
      rw [hget]
      simp only [Option.bind_eq_bind, Option.bind_some, hmbrAndGrp, hcommon]
      rfl
  · exact MatchTableIndirect.Sound.isSome_getMember h mbr
  · rw [getGroup]
    by_cases hmem : grp ∈ t.grpHandles
    · obtain ⟨mbrs, hmbrs, -⟩ := MatchTableIndirect.Sound.exists_group h hmem
      rw [if_neg (by rwa [isValidGrp_eq, not_not]), hmbrs]
      rfl
    · rw [if_pos (by rwa [isValidGrp_eq])]
      rfl
  · rw [getDefaultEntry]
    split
    · rfl
    next hset =>
      obtain ⟨x, hindex⟩ := h.default (by simpa using hset)
      obtain ⟨mbrAndGrp, hmbrAndGrp⟩ := Target.exists_mbrAndGrp hindex
      rw [hmbrAndGrp]
      rfl

/-! ### Operations return -/

theorem exists_createGroup (h : t.Sound fs) (hsafe : t.KeepsLive fs .createGroup) :
    ∃ r t', t.createGroup = some (r, t') := by
  have hfree : lowestFree t.grpHandles ≤ IndirectIndex.indexMask := hsafe
  rw [createGroup, HandleMgr.getHandle]
  split
  next => exact ⟨_, _, rfl⟩
  next grp grpHandles hget =>
    split at hget
    next =>
      cases hget
      have hmod : lowestFree t.grpHandles % 2 ^ 32 = lowestFree t.grpHandles := by
        rw [IndirectIndex.indexMask] at hfree
        exact Nat.mod_eq_of_lt (by omega)
      obtain ⟨index, hindex⟩ := Option.isSome_iff_exists.mp
        (Target.isSome_index (x := .grp (lowestFree t.grpHandles)) |>.mpr hfree)
      have hlow : ∀ j < lowestFree t.grpHandles, (t.indexRefCount.count (.grp j)).isSome := by
        intro j hj
        obtain ⟨-, c, hc⟩ := MatchTableIndirect.Sound.exists_count (x := .grp j) h (mem_of_lt_lowestFree hj)
        exact Option.isSome_iff_exists.mpr ⟨c, hc⟩
      obtain ⟨rc, hrc⟩ := IndirectIndexRefCount.exists_set hindex hlow 0
      have hle : lowestFree t.grpHandles ≤ t.groups.length := MatchTableIndirect.le_of_lowestFree fun g hg => by
        obtain ⟨mbrs, hmbrs, -⟩ := MatchTableIndirect.Sound.exists_group h hg
        exact (List.getElem?_eq_some_iff.mp hmbrs).1
      have hput : ∃ groups, putAt t.groups (lowestFree t.grpHandles) ∅ = some groups := by
        rw [putAt, if_pos hle]
        exact ⟨_, rfl⟩
      obtain ⟨groups, hput⟩ := hput
      simp only [hmod, hput, show IndirectIndex.makeGrpIndex _ = some index from hindex,
        Option.bind_eq_bind, Option.bind_some, hrc]
      exact ⟨_, _, rfl⟩
    next => cases hget

theorem exists_deleteGroup (h : t.Sound fs) (grp : ℕ) : ∃ r t', t.deleteGroup grp = some (r, t') := by
  rw [deleteGroup]
  by_cases hmem : grp ∈ t.grpHandles
  · obtain ⟨⟨index, hindex⟩, c, hc⟩ := MatchTableIndirect.Sound.exists_count (x := .grp grp) h hmem
    obtain ⟨mbrs, hmbrs, hsub⟩ := MatchTableIndirect.Sound.exists_group h hmem
    obtain ⟨rc, hrc⟩ := exists_decreaseMembers t.indexRefCount (mbrs.sort (· ≤ ·)) fun i hi => by
      obtain ⟨hindex, c, hc⟩ := MatchTableIndirect.Sound.exists_count (x := .mbr i) h
        (hsub ((Finset.mem_sort _).mp hi))
      exact ⟨by rw [hc]; rfl, Target.isSome_index.mp (Option.isSome_iff_exists.mpr hindex)⟩
    rw [if_neg (by rwa [isValidGrp_eq, not_not]), show IndirectIndex.makeGrpIndex grp = some index from hindex]
    simp only [Option.bind_eq_bind, Option.bind_some, (IndirectIndexRefCount.get_eq hindex).trans hc, hmbrs,
      hrc, HandleMgr.releaseHandle, if_pos hmem]
    split <;> exact ⟨_, _, rfl⟩
  · rw [if_pos (by rwa [isValidGrp_eq])]
    exact ⟨_, _, rfl⟩

theorem exists_addMemberToGroup (h : t.Sound fs) (mbr grp : ℕ) :
    ∃ r t', t.addMemberToGroup mbr grp = some (r, t') := by
  rw [addMemberToGroup]
  split
  · exact ⟨_, _, rfl⟩
  next hmbr =>
    rw [MatchTableIndirect.isValidMbr_eq, not_not] at hmbr
    split
    · exact ⟨_, _, rfl⟩
    next hgrp =>
      rw [isValidGrp_eq, not_not] at hgrp
      obtain ⟨mbrs, hmbrs, -⟩ := MatchTableIndirect.Sound.exists_group h hgrp
      obtain ⟨⟨index, hindex⟩, c, hc⟩ := MatchTableIndirect.Sound.exists_count (x := .mbr mbr) h hmbr
      obtain ⟨rc, hrc, -⟩ := IndirectIndexRefCount.exists_increase hindex hc
      simp only [Option.bind_eq_bind, Option.bind_some, hmbrs,
        show IndirectIndex.makeMbrIndex mbr = some index from hindex, hrc]
      split <;> exact ⟨_, _, rfl⟩

theorem exists_removeMemberFromGroup (h : t.Sound fs) (mbr grp : ℕ) :
    ∃ r t', t.removeMemberFromGroup mbr grp = some (r, t') := by
  rw [removeMemberFromGroup]
  split
  · exact ⟨_, _, rfl⟩
  next hmbr =>
    rw [MatchTableIndirect.isValidMbr_eq, not_not] at hmbr
    split
    · exact ⟨_, _, rfl⟩
    next hgrp =>
      rw [isValidGrp_eq, not_not] at hgrp
      obtain ⟨mbrs, hmbrs, -⟩ := MatchTableIndirect.Sound.exists_group h hgrp
      obtain ⟨⟨index, hindex⟩, c, hc⟩ := MatchTableIndirect.Sound.exists_count (x := .mbr mbr) h hmbr
      obtain ⟨rc, hrc, -⟩ := IndirectIndexRefCount.exists_decrease hindex hc
      simp only [Option.bind_eq_bind, Option.bind_some, hmbrs,
        show IndirectIndex.makeMbrIndex mbr = some index from hindex, hrc]
      split <;> exact ⟨_, _, rfl⟩

theorem exists_addEntryWS (h : t.Sound fs) (hbuild : KeysBuild K fs) (matchKey : List MatchKeyParam)
    (grp : ℕ) (priority : Int32) (now : ℕ) : ∃ r t', t.addEntryWS matchKey grp priority now = some (r, t') := by
  rw [addEntryWS]
  split
  · exact ⟨_, _, rfl⟩
  next hgrp =>
    rw [isValidGrp_eq, not_not] at hgrp
    obtain ⟨mbrs, hmbrs, -⟩ := MatchTableIndirect.Sound.exists_group h hgrp
    obtain ⟨⟨index, hindex⟩, c, hc⟩ := MatchTableIndirect.Sound.exists_count (x := .grp grp) h hgrp
    obtain ⟨rc, hrc, -⟩ := IndirectIndexRefCount.exists_increase hindex hc
    have hkey : ∃ res, t.matchUnit.buildEntryFromMatchKey matchKey priority = some res :=
      exists_build h.unit.built (hbuild _ h.unit.built matchKey)
    obtain ⟨res, mu, hadd⟩ := h.unit.exists_addEntry hkey index now
    simp only [Option.bind_eq_bind, Option.bind_some, groupSize, hmbrs, Option.map_some,
      show IndirectIndex.makeGrpIndex grp = some index from hindex, hrc, hadd]
    split <;> exact ⟨_, _, rfl⟩

theorem exists_modifyEntryWS (h : t.Sound fs) (handle grp : ℕ) :
    ∃ r t', t.modifyEntryWS handle grp = some (r, t') := by
  obtain ⟨res, hvalue⟩ := MatchTableIndirect.Sound.exists_getValue h handle
  rw [modifyEntryWS, hvalue]
  cases res with
  | error code => exact ⟨_, _, rfl⟩
  | ok old =>
    obtain ⟨rc, hrc, hsome⟩ := MatchTableIndirect.Sound.exists_decrease h hvalue
    simp only [Option.bind_eq_bind, Option.bind_some, hrc]
    split
    · exact ⟨_, _, rfl⟩
    next hgrp =>
      rw [isValidGrp_eq, not_not] at hgrp
      obtain ⟨mbrs, hmbrs, -⟩ := MatchTableIndirect.Sound.exists_group h hgrp
      obtain ⟨⟨index, hindex⟩, c, hc⟩ := MatchTableIndirect.Sound.exists_count (x := .grp grp) h hgrp
      obtain ⟨c', hc'⟩ := Option.isSome_iff_exists.mp (hsome (.grp grp) (by rw [hc]; rfl))
      obtain ⟨rc', hrc', -⟩ := IndirectIndexRefCount.exists_increase hindex hc'
      obtain ⟨r, mu, hmodify⟩ := MatchTableIndirect.Sound.exists_modifyUnit h hvalue index
      simp only [groupSize, hmbrs, Option.map_some, Option.bind_some,
        show IndirectIndex.makeGrpIndex grp = some index from hindex, hrc', hmodify]
      split <;> exact ⟨_, _, rfl⟩

theorem exists_setDefaultGroup (h : t.Sound fs) (grp : ℕ) :
    ∃ r t', t.setDefaultGroup grp = some (r, t') := by
  rw [setDefaultGroup]
  by_cases hmem : grp ∈ t.grpHandles
  · obtain ⟨⟨index, hindex⟩, -⟩ := MatchTableIndirect.Sound.exists_count (x := .grp grp) h hmem
    rw [if_neg (by rwa [isValidGrp_eq, not_not]), show IndirectIndex.makeGrpIndex grp = some index from hindex]
    exact ⟨_, _, rfl⟩
  · rw [if_pos (by rwa [isValidGrp_eq])]
    exact ⟨_, _, rfl⟩

/-- **Step lemma**, of all operations on a table with groups. -/
theorem exists_step [Inhabited K] (h : t.Sound fs) (hbuild : KeysBuild K fs) {op : IndirectWSOp}
    (hsafe : t.KeepsLive fs op) : ∃ t', t.step op = some t' ∧ t'.Sound fs := by
  by_cases hlookup : ∃ phv ingressLength ingressTsMs hash, op = .lookup phv ingressLength ingressTsMs hash
  · obtain ⟨phv, ingressLength, ingressTsMs, hash, rfl⟩ := hlookup
    obtain ⟨res, mu, actionEntry, hmu, hlookup, -⟩ := h.exists_lookup hsafe ingressLength ingressTsMs hash
    refine ⟨t.withUnit mu, ?_, MatchTableIndirect.Sound.of_lookup h hmu⟩
    rw [step, exec, hlookup]
    rfl
  · push Not at hlookup
    have hexec : ∃ r t', t.exec op = some (r, t') := by
      have hmap {R : Type} {x : Option (R × MatchTableIndirectWS K S)} (f : R → TableResult)
          (hx : ∃ r t', x = some (r, t')) : ∃ r t', x.map (fun rt => (f rt.1, rt.2)) = some (r, t') := by
        obtain ⟨r, t', rfl⟩ := hx
        exact ⟨_, _, rfl⟩
      cases op with
      | mbr op =>
        obtain ⟨r, base, hexec⟩ := MatchTableIndirect.Sound.exists_execMember h hbuild hsafe
        rw [exec, hexec]
        exact ⟨_, _, rfl⟩
      | createGroup => exact hmap _ (h.exists_createGroup hsafe)
      | deleteGroup grp => exact hmap _ (h.exists_deleteGroup grp)
      | addMemberToGroup mbr grp => exact hmap _ (h.exists_addMemberToGroup mbr grp)
      | removeMemberFromGroup mbr grp => exact hmap _ (h.exists_removeMemberFromGroup mbr grp)
      | addEntryWS matchKey grp priority now => exact hmap _ (h.exists_addEntryWS hbuild matchKey grp priority now)
      | modifyEntryWS handle grp => exact hmap _ (h.exists_modifyEntryWS handle grp)
      | setDefaultGroup grp => exact hmap _ (h.exists_setDefaultGroup grp)
      | lookup phv ingressLength ingressTsMs hash => exact absurd rfl (hlookup _ _ _ _)
      | resetState =>
        obtain ⟨base, hbase⟩ := MatchTableIndirect.Sound.exists_resetState h
        rw [exec, MatchTableIndirectWS.resetState, hbase]
        exact ⟨_, _, rfl⟩
    obtain ⟨r, t', hexec⟩ := hexec
    refine ⟨t', ?_, h.of_groupEffect hsafe (exec_effect hexec) hlookup⟩
    rw [step, hexec]
    rfl

end Sound

end MatchTableIndirectWS

/-! ## Runs -/

/-- The runs of safe operations on a new table, without and with groups: they go through, and in the state
they reach every packet gets an action entry and everything can be read. -/
structure LookupsResolve (K S : Type) [Inhabited K] [MatchKey K] [LookupStructure K S] [LawfulLookup K S]
    [LiveLookup K S] (fs : List KeyField) (kb : MatchKeyBuilder) (size : ℕ) : Prop where
  members : ∀ (t₀ : MatchTableIndirect K S) (ops : List IndirectOp), t₀.IsNew size kb →
    RunMeets MatchTableIndirect.step (MatchTableIndirect.KeepsLiveIn fs) t₀ ops →
    ∃ t, runFrom MatchTableIndirect.step t₀ ops = some t ∧ t.Reliable fs
  groups : ∀ (t₀ : MatchTableIndirectWS K S) (ops : List IndirectWSOp), t₀.IsNew size kb →
    RunMeets MatchTableIndirectWS.step (MatchTableIndirectWS.KeepsLive fs) t₀ ops →
    ∃ t, runFrom MatchTableIndirectWS.step t₀ ops = some t ∧ t.Reliable fs

theorem lookupsResolve_of_keysBuild {K S : Type} [Inhabited K] [MatchKey K] [LookupStructure K S]
    [LawfulLookup K S] [LiveLookup K S] {fs : List KeyField} {kb : MatchKeyBuilder}
    (hfs : MatchKeyBuilder.ofFields fs = some kb) (hbuild : KeysBuild K fs)
    (hadmits : LawfulLookup.Admits K fs) (size : ℕ) : LookupsResolve K S fs kb size := by
  constructor
  · intro t₀ ops hnew hops
    obtain ⟨t, hrun, hsound⟩ := runFrom_of_meets (I := fun t : MatchTableIndirect K S => t.Sound fs ∅ [])
      (fun t op h hsafe => h.exists_exec hbuild hadmits hsafe)
      (MatchTableIndirect.sound_of_isNew hfs hnew) hops
    exact ⟨t, hrun, hsound.reliable hadmits⟩
  · intro t₀ ops hnew hops
    have hstart : t₀.Sound fs := by
      rw [MatchTableIndirectWS.Sound, hnew.grpHandles, hnew.groups]
      exact MatchTableIndirect.sound_of_isNew hfs hnew.toIsNew
    obtain ⟨t, hrun, hsound⟩ := runFrom_of_meets (I := fun t : MatchTableIndirectWS K S => t.Sound fs)
      (fun t op h hsafe => h.exists_step hbuild hsafe) hstart hops
    exact ⟨t, hrun, hsound.reliable hadmits⟩

end Bm
