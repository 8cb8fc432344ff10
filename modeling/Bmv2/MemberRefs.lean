/-
# Reference counts of members and groups

The count of a member should be the number of live entries that carry its index, plus the
number of live groups it is in; the count of a group, the number of live entries that carry
its index.  Every operation keeps that, unless it fails after it has counted: an entry that
the match unit refuses, a change to a member or group that is not there.
-/
import Bmv2.Lib.RefCounts
import Bmv2.StaleHandles

namespace Bm

open MatchUnit

/-! ## Entries that a match unit takes -/

namespace MatchUnit

variable {K V S : Type} [Inhabited K] [Inhabited V] [MatchKey K] [LookupStructure K S]
  {mu mu' : MatchUnit K V S}

/-- The unit takes the entry: its key is well formed and new, and there is a free slot. -/
def Accepts (mu : MatchUnit K V S) (matchKey : List MatchKeyParam) (priority : Int32) : Prop :=
  ∃ k, mu.buildEntryFromMatchKey matchKey priority = some (.ok k) ∧
    LookupStructure.entryExists mu.lookupStructure k = some false ∧
    mu.numEntries < mu.size ∧ lowestFree mu.handles < 2 ^ 64

omit [Inhabited K] [Inhabited V] in
theorem Accepts.addEntry_ok {matchKey : List MatchKeyParam} {priority : Int32}
    (h : mu.Accepts matchKey priority) {value : V} {now : ℕ} {r : Except MatchErrorCode ℕ}
    (hadd : mu.addEntry matchKey value priority now = some (r, mu')) : ∃ handle, r = .ok handle := by
  obtain ⟨k, hbuild, hnew, hroom, hfree⟩ := h
  obtain ⟨⟨r₀, mu₀⟩, hadd', hadd⟩ := Option.bind_eq_some_iff.mp hadd
  rw [addEntry_, hbuild] at hadd'
  simp only [Option.bind_eq_bind, Option.bind_some, hnew, Bool.false_eq_true, if_false,
    getAndSetHandle, if_neg (Nat.not_le.mpr hroom), HandleMgr.getHandle, if_pos hfree] at hadd'
  obtain ⟨old, -, hadd'⟩ := Option.bind_eq_some_iff.mp hadd'
  obtain ⟨s, -, hadd'⟩ := Option.bind_eq_some_iff.mp hadd'
  cases hadd'
  obtain ⟨m, -, hadd⟩ := Option.bind_eq_some_iff.mp hadd
  cases hadd
  exact ⟨_, rfl⟩

omit [Inhabited K] [Inhabited V] [MatchKey K] [LookupStructure K S] in
/-- A value read through a handle is that of the live entry in its slot. -/
theorem Slots.getValue_ok (h : mu.Slots) {handle : ℕ} {v : V}
    (hvalue : mu.getValue handle = some (.ok v)) :
    ∃ e, mu.checkHandle handle = some (.ok e) ∧ mu.live (handleInternal handle) = some e ∧ e.value = v := by
  obtain ⟨res, hcheck, hvalue⟩ := Option.bind_eq_some_iff.mp hvalue
  cases res with
  | error code => cases hvalue
  | ok e =>
    cases hvalue
    exact ⟨e, hcheck, (h.checkHandle_eq_ok.mp hcheck).1, rfl⟩

/-- The values of the live entries. -/
def values (mu : MatchUnit K V S) (i : ℕ) : Option V := (mu.live i).map Entry.value

omit [Inhabited K] [Inhabited V] [MatchKey K] [LookupStructure K S] in
theorem values_update {i : ℕ} {x : Option (Entry K V)} (h : mu'.live = Function.update mu.live i x) :
    mu'.values = Function.update mu.values i (x.map Entry.value) := by
  funext j
  rw [values, h]
  by_cases hji : j = i
  · rw [hji, Function.update_self, Function.update_self]
  · rw [Function.update_of_ne hji, Function.update_of_ne hji, values]

omit [Inhabited K] [Inhabited V] [MatchKey K] [LookupStructure K S] in
theorem SameEntries.values_eq (h : SameEntries mu mu') : mu'.values = mu.values :=
  funext fun i => by rw [values, values, live_congr h.handles h.entries]

end MatchUnit

/-! ## References -/

variable {K S : Type}

/-- The number of live entries that carry the index of a member or group. -/
def entryRefs (mu : MatchUnit K IndirectIndex S) (x : Target) : ℕ :=
  (mu.handles.filter fun i => mu.values i = x.index).card

/-- The number of live groups that a member is in. -/
def groupRefs (grpHandles : HandleMgr) (groups : List (Finset ℕ)) : Target → ℕ
  | .mbr i => (grpHandles.filter fun g => i ∈ (groups[g]?).getD ∅).card
  | .grp _ => 0

section Units

variable [Inhabited K] [MatchKey K] [LookupStructure K S] {mu mu' : MatchUnit K IndirectIndex S}

/-- A new entry is one reference more to what it refers to. -/
theorem entryRefs_addEntry (h : mu.Slots) {matchKey : List MatchKeyParam} {index : IndirectIndex}
    {priority : Int32} {now handle : ℕ}
    (hadd : mu.addEntry matchKey index priority now = some (.ok handle, mu')) :
    mu'.Slots ∧ (∀ y : Target, entryRefs mu' y =
        entryRefs mu y + if some index = y.index then 1 else 0) ∧
      ∀ i v, mu'.values i = some v → mu.values i = some v ∨ v = index := by
  obtain ⟨-, hslots, heffect⟩ := h.addEntry_effect hadd
  cases heffect with
  | quiet hquiet => exact hquiet.elim
  | added k old _ _ hlt _ _ hhandles hentries _ =>
    have hvalues := values_update (live_added h hlt hhandles hentries)
    rw [Option.map_some] at hvalues
    refine ⟨hslots, fun y => ?_, fun i v hv => ?_⟩
    · rw [entryRefs, entryRefs, hhandles,
        card_filter_insert (fun i => mu.values i = y.index) _ (lowestFree_notMem mu.handles) fun j hj => ?_]
      · rw [hvalues, Function.update_self]
      · rw [hvalues, Function.update_of_ne hj]
    · rw [hvalues, Function.update_apply] at hv
      split at hv
      · exact .inr (Option.some.inj hv).symm
      · exact .inl hv

/-- A deleted entry is one reference less. -/
theorem entryRefs_deleteEntry (h : mu.Slots) {handle : ℕ} {e : Entry K IndirectIndex}
    (hcheck : mu.checkHandle handle = some (.ok e)) {r : Except MatchErrorCode Unit}
    (hdelete : mu.deleteEntry handle = some (r, mu')) :
    mu'.Slots ∧ (∀ y : Target, entryRefs mu' y + (if some e.value = y.index then 1 else 0) =
        entryRefs mu y) ∧ ∀ i v, mu'.values i = some v → mu.values i = some v := by
  obtain rfl := h.deleteEntry_ok hcheck hdelete
  obtain ⟨hlive, -⟩ := h.checkHandle_eq_ok.mp hcheck
  obtain ⟨-, hslots, heffect⟩ := h.deleteEntry_effect hdelete
  cases heffect with
  | quiet hquiet => exact hquiet.elim
  | deleted e' _ hhandles hentries _ =>
    have hvalues := values_update (live_deleted hhandles hentries)
    rw [Option.map_none] at hvalues
    refine ⟨hslots, fun y => ?_, fun i v hv => ?_⟩
    · have hmem := (live_eq_some.mp hlive).1
      rw [entryRefs, entryRefs, hhandles,
        ← card_filter_erase (fun i => mu.values i = y.index)
          (fun i => mu'.values i = y.index) hmem fun j hj => ?_]
      · congr 1
        rw [values, hlive, Option.map_some]
      · rw [hvalues, Function.update_of_ne hj]
    · rw [hvalues, Function.update_apply] at hv
      split at hv
      · cases hv
      · exact hv

/-- A modified entry refers to something else. -/
theorem entryRefs_modifyEntry (h : mu.Slots) {handle : ℕ} {index : IndirectIndex}
    {e : Entry K IndirectIndex} (hcheck : mu.checkHandle handle = some (.ok e))
    {r : Except MatchErrorCode Unit} (hmodify : mu.modifyEntry handle index = some (r, mu')) :
    mu'.Slots ∧ (∀ y : Target, entryRefs mu' y + (if some e.value = y.index then 1 else 0) =
        entryRefs mu y + if some index = y.index then 1 else 0) ∧
      ∀ i v, mu'.values i = some v → mu.values i = some v ∨ v = index := by
  obtain rfl := modifyEntry_ok hcheck hmodify
  obtain ⟨hlive, -⟩ := h.checkHandle_eq_ok.mp hcheck
  have hmem := (live_eq_some.mp hlive).1
  obtain ⟨-, hslots, heffect⟩ := h.modifyEntry_effect hmodify
  cases heffect with
  | quiet hquiet => exact hquiet.elim
  | modified e' _ hhandles hentries _ =>
    have hvalues := values_update (live_modified h hmem hhandles hentries)
    rw [Option.map_some] at hvalues
    refine ⟨hslots, fun y => ?_, fun i v hv => ?_⟩
    · have hcard := card_filter_modify (fun i => mu.values i = y.index)
        (fun i => mu'.values i = y.index) hmem fun j hj => by
          rw [hvalues, Function.update_of_ne hj]
      simp only [hvalues, Function.update_self] at hcard
      rw [entryRefs, entryRefs, hhandles, hvalues, ← hcard]
      congr 1
      rw [values, hlive, Option.map_some]
    · rw [hvalues, Function.update_apply] at hv
      split at hv
      · exact .inr (Option.some.inj hv).symm
      · exact .inl hv

end Units

/-- The invariant of the reference counts of a table with the groups given. -/
structure RefInv (t : MatchTableIndirect K S) (grpHandles : HandleMgr) (groups : List (Finset ℕ)) :
    Prop where
  slots : t.matchUnit.Slots
  count : ∀ x c, t.indexRefCount.count x = some c →
    c = entryRefs t.matchUnit x + groupRefs grpHandles groups x ∧ c < 2 ^ 32
  live : ∀ x : Target, x.Live t.mbrHandles grpHandles →
    (t.indexRefCount.count x).isSome ∧ x.num ≤ IndirectIndex.indexMask
  entry : ∀ i v, t.matchUnit.values i = some v → ∃ x : Target, x.Live t.mbrHandles grpHandles ∧ x.index = some v
  group : ∀ g ∈ grpHandles, ∃ mbrs, groups[g]? = some mbrs ∧ mbrs ⊆ t.mbrHandles

theorem Target.some_eq_index_iff {x y : Target} {index : IndirectIndex} (hx : x.index = some index) :
    some index = y.index ↔ y = x := by
  constructor
  · intro h
    exact Target.index_inj h.symm hx
  · rintro rfl
    exact hx.symm

namespace RefInv

variable {t : MatchTableIndirect K S} {grpHandles : HandleMgr} {groups : List (Finset ℕ)}
  {x : Target} {index : IndirectIndex}

theorem exists_index (h : RefInv t grpHandles groups) (hx : x.Live t.mbrHandles grpHandles) :
    ∃ index, x.index = some index :=
  Option.isSome_iff_exists.mp (Target.isSome_index.mpr (h.live x hx).2)

theorem exists_count (h : RefInv t grpHandles groups) (hx : x.Live t.mbrHandles grpHandles) :
    t.indexRefCount.count x = some (entryRefs t.matchUnit x + groupRefs grpHandles groups x) := by
  obtain ⟨c, hc⟩ := Option.isSome_iff_exists.mp (h.live x hx).1
  rw [hc, (h.count x c hc).1]

/-- Nothing refers to a member or group that is not in use. -/
theorem entryRefs_eq_zero (h : RefInv t grpHandles groups) (hx : ¬ x.Live t.mbrHandles grpHandles) :
    entryRefs t.matchUnit x = 0 := by
  rw [entryRefs, Finset.card_eq_zero, Finset.filter_eq_empty_iff]
  intro i hi heq
  obtain ⟨e, he⟩ := h.slots.exists_live hi
  have hvalue : t.matchUnit.values i = some e.value := by rw [values, he]; rfl
  obtain ⟨y, hy, hindex⟩ := h.entry i e.value hvalue
  exact hx (Target.index_inj hindex (heq.symm.trans hvalue) ▸ hy)

theorem groupRefs_eq_zero (h : RefInv t grpHandles groups) (hx : ¬ x.Live t.mbrHandles grpHandles) :
    groupRefs grpHandles groups x = 0 := by
  cases x with
  | grp g => rfl
  | mbr i =>
    rw [groupRefs, Finset.card_eq_zero, Finset.filter_eq_empty_iff]
    intro g hg hi
    obtain ⟨mbrs, hmbrs, hsub⟩ := h.group g hg
    rw [hmbrs] at hi
    exact hx (hsub hi)

/-! ## Entries -/

section Entries

variable [Inhabited K] [MatchKey K] [LookupStructure K S] {rc : IndirectIndexRefCount}
  {mu : MatchUnit K IndirectIndex S}

omit [Inhabited K] [MatchKey K] [LookupStructure K S] in
/-- The entries and the counts of a table are replaced. -/
theorem of_unit (h : RefInv t grpHandles groups) (hslots : mu.Slots)
    (hcount : ∀ x c, rc.count x = some c →
      c = entryRefs mu x + groupRefs grpHandles groups x ∧ c < 2 ^ 32)
    (hsome : ∀ x, (t.indexRefCount.count x).isSome → (rc.count x).isSome)
    (hentry : ∀ i v, mu.values i = some v →
      ∃ x : Target, x.Live t.mbrHandles grpHandles ∧ x.index = some v) :
    RefInv { t with indexRefCount := rc, matchUnit := mu } grpHandles groups :=
  ⟨hslots, hcount, fun x hx => ⟨hsome x (h.live x hx).1, (h.live x hx).2⟩, hentry, h.group⟩

theorem entryAdded (h : RefInv t grpHandles groups) (hx : x.Live t.mbrHandles grpHandles)
    (hindex : x.index = some index) (hrc : t.indexRefCount.increase index = some rc)
    (hroom : t.indexRefCount.count x ≠ some (2 ^ 32 - 1)) {matchKey : List MatchKeyParam}
    {priority : Int32} {now handle : ℕ}
    (hadd : t.matchUnit.addEntry matchKey index priority now = some (.ok handle, mu)) :
    RefInv { t with indexRefCount := rc, matchUnit := mu } grpHandles groups := by
  obtain ⟨hslots, hrefs, hvalues⟩ := entryRefs_addEntry h.slots hadd
  obtain ⟨c₀, hc₀, hcount⟩ := IndirectIndexRefCount.count_increase hindex hrc
  obtain ⟨heq, hlt⟩ := h.count x c₀ hc₀
  refine h.of_unit hslots (fun y c hc => ?_) (fun y hy => ?_) fun i v hv => ?_
  · simp only [hrefs y, Target.some_eq_index_iff hindex]
    rw [hcount, Function.update_apply] at hc
    split at hc
    · rename_i hyx
      subst hyx
      rw [if_pos rfl]
      have hne : c₀ ≠ 2 ^ 32 - 1 := fun h => hroom (h ▸ hc₀)
      rw [Nat.mod_eq_of_lt (by omega)] at hc
      have := Option.some.inj hc
      omega
    · rename_i hyx
      rw [if_neg hyx]
      exact h.count y c hc
  · rw [hcount, Function.update_apply]
    split
    · rfl
    · exact hy
  · rcases hvalues i v hv with hv | rfl
    · exact h.entry i v hv
    · exact ⟨x, hx, hindex⟩

theorem entryDeleted (h : RefInv t grpHandles groups) {handle : ℕ}
    (hvalue : t.matchUnit.getValue handle = some (.ok index))
    (hrc : t.indexRefCount.decrease index = some rc) {r : Except MatchErrorCode Unit}
    (hdelete : t.matchUnit.deleteEntry handle = some (r, mu)) :
    RefInv { t with indexRefCount := rc, matchUnit := mu } grpHandles groups := by
  obtain ⟨e, hcheck, hlive, rfl⟩ := h.slots.getValue_ok hvalue
  obtain ⟨x, hx, hindex⟩ := h.entry (handleInternal handle) e.value (by rw [values, hlive]; rfl)
  obtain ⟨hslots, hrefs, hvalues⟩ := entryRefs_deleteEntry h.slots hcheck hdelete
  obtain ⟨c₀, hc₀, hcount⟩ := IndirectIndexRefCount.count_decrease hindex hrc
  obtain ⟨heq, hlt⟩ := h.count x c₀ hc₀
  simp only [Target.some_eq_index_iff hindex] at hrefs
  refine h.of_unit hslots (fun y c hc => ?_) (fun y hy => ?_) fun i v hv => h.entry i v (hvalues i v hv)
  · have hy := hrefs y
    rw [hcount, Function.update_apply] at hc
    split at hc
    · rename_i hyx
      subst hyx
      rw [if_pos rfl] at hy
      have := Option.some.inj hc
      omega
    · rename_i hyx
      rw [if_neg hyx, Nat.add_zero] at hy
      rw [hy]
      exact h.count y c hc
  · rw [hcount, Function.update_apply]
    split
    · rfl
    · exact hy

theorem entryModified (h : RefInv t grpHandles groups) {handle : ℕ} {old : IndirectIndex}
    (hvalue : t.matchUnit.getValue handle = some (.ok old)) {rc₀ : IndirectIndexRefCount}
    (hdec : t.indexRefCount.decrease old = some rc₀) (hx : x.Live t.mbrHandles grpHandles)
    (hindex : x.index = some index) (hinc : rc₀.increase index = some rc)
    (hroom : x.index = some old ∨ t.indexRefCount.count x ≠ some (2 ^ 32 - 1))
    {r : Except MatchErrorCode Unit} (hmodify : t.matchUnit.modifyEntry handle index = some (r, mu)) :
    RefInv { t with indexRefCount := rc, matchUnit := mu } grpHandles groups := by
  obtain ⟨e, hcheck, hlive, rfl⟩ := h.slots.getValue_ok hvalue
  obtain ⟨z, hz, hold⟩ := h.entry (handleInternal handle) e.value (by rw [values, hlive]; rfl)
  obtain ⟨hslots, hrefs, hvalues⟩ := entryRefs_modifyEntry h.slots hcheck hmodify
  obtain ⟨c₀, hc₀, hcount₀⟩ := IndirectIndexRefCount.count_decrease hold hdec
  obtain ⟨c₁, hc₁, hcount⟩ := IndirectIndexRefCount.count_increase hindex hinc
  have hz₀ := h.count z c₀ hc₀
  have hpos : 0 < entryRefs t.matchUnit z := by
    refine Finset.card_pos.mpr ⟨handleInternal handle, ?_⟩
    rw [Finset.mem_filter, hold, values, hlive]
    exact ⟨(live_eq_some.mp hlive).1, rfl⟩
  simp only [Target.some_eq_index_iff hindex, Target.some_eq_index_iff hold] at hrefs
  refine h.of_unit hslots (fun y c hc => ?_) (fun y hy => ?_) fun i v hv => ?_
  · have hy := hrefs y
    rw [hcount₀, Function.update_apply] at hc₁
    rw [hcount, hcount₀, Function.update_apply] at hc
    by_cases hyx : y = x
    · subst hyx
      rw [if_pos rfl] at hy hc
      have hc := Option.some.inj hc
      by_cases hyz : y = z
      · -- the entry goes on referring to the same thing
        rw [if_pos hyz] at hy hc₁
        have hc₁ := Option.some.inj hc₁
        subst hyz
        omega
      · rw [if_neg hyz] at hy hc₁
        have hne : c₁ ≠ 2 ^ 32 - 1 := by
          rintro rfl
          rcases hroom with hroom | hroom
          · exact hyz (Target.index_inj hroom hold)
          · exact hroom hc₁
        have hy₁ := h.count y c₁ hc₁
        omega
    · rw [if_neg hyx] at hy hc
      rw [Function.update_apply] at hc
      split at hc
      · rename_i hyz
        subst hyz
        rw [if_pos rfl] at hy
        have := Option.some.inj hc
        omega
      · rename_i hyz
        rw [if_neg hyz] at hy
        have hyc := h.count y c hc
        omega
  · rw [hcount, hcount₀, Function.update_apply, Function.update_apply]
    split
    · rfl
    · split
      · rfl
      · exact hy
  · rcases hvalues i v hv with hv | rfl
    · exact h.entry i v hv
    · exact ⟨x, hx, hindex⟩

end Entries

/-! ## Members -/

theorem of_same (h : RefInv t grpHandles groups) {mu : MatchUnit K IndirectIndex S}
    (hsame : SameEntries t.matchUnit mu) : RefInv { t with matchUnit := mu } grpHandles groups := by
  have hrefs : ∀ y, entryRefs mu y = entryRefs t.matchUnit y := by
    intro y
    rw [entryRefs, entryRefs, hsame.handles, hsame.values_eq]
  refine h.of_unit (h.slots.of_sameEntries hsame) (fun y c hc => ?_) (fun y hy => hy) fun i v hv => ?_
  · rw [hrefs]
    exact h.count y c hc
  · exact h.entry i v (hsame.values_eq ▸ hv)

/-- A referenced index is counted. -/
theorem entryRefs_pos {mu : MatchUnit K IndirectIndex S} {i : ℕ} {v : IndirectIndex}
    (hv : mu.values i = some v) (hindex : x.index = some v) : 0 < entryRefs mu x := by
  obtain ⟨e, he, rfl⟩ := Option.map_eq_some_iff.mp hv
  refine Finset.card_pos.mpr ⟨i, Finset.mem_filter.mpr ⟨(live_eq_some.mp he).1, ?_⟩⟩
  rw [hv, hindex]

theorem groupRefs_pos {g i : ℕ} {mbrs : Finset ℕ} (hg : g ∈ grpHandles) (hmbrs : groups[g]? = some mbrs)
    (hi : i ∈ mbrs) : 0 < groupRefs grpHandles groups (.mbr i) := by
  refine Finset.card_pos.mpr ⟨g, Finset.mem_filter.mpr ⟨hg, ?_⟩⟩
  rw [hmbrs]
  exact hi

/-- Handles of 24 bits leave a lowest free one that a 32-bit number holds. -/
theorem lowestFree_mod {s : Finset ℕ} (h : ∀ i ∈ s, i ≤ IndirectIndex.indexMask) :
    lowestFree s % 2 ^ 32 = lowestFree s := by
  refine Nat.mod_eq_of_lt ?_
  by_contra hge
  have hmem : IndirectIndex.indexMask + 1 ∈ s :=
    mem_of_lt_lowestFree (by rw [IndirectIndex.indexMask]; omega)
  have := h _ hmem
  omega

theorem memberAdded (h : RefInv t grpHandles groups) {mbr : ℕ} {actionEntries : List ActionEntry}
    {rc : IndirectIndexRefCount} (hmbr : mbr = lowestFree t.mbrHandles % 2 ^ 32)
    (hindex : (Target.mbr mbr).index = some index) (hrc : t.indexRefCount.set index 0 = some rc)
    (n : ℕ) :
    RefInv { t with
      mbrHandles := insert (lowestFree t.mbrHandles) t.mbrHandles
      actionEntries, indexRefCount := rc, numMembers := n } grpHandles groups := by
  rw [lowestFree_mod fun i hi => (h.live (.mbr i) hi).2] at hmbr
  subst hmbr
  have hnot : ¬ (Target.mbr (lowestFree t.mbrHandles)).Live t.mbrHandles grpHandles :=
    lowestFree_notMem t.mbrHandles
  have hmono : ∀ y : Target, y.Live t.mbrHandles grpHandles →
      y.Live (insert (lowestFree t.mbrHandles) t.mbrHandles) grpHandles := by
    intro y hy
    cases y with
    | mbr i => exact Finset.mem_insert_of_mem hy
    | grp g => exact hy
  have hcount := IndirectIndexRefCount.count_set hindex hrc
  refine ⟨h.slots, fun y c hc => ?_, fun y hy => ?_, fun i v hv => ?_, fun g hg => ?_⟩
  · rw [hcount, Function.update_apply] at hc
    split at hc
    · rename_i hy
      subst hy
      have hc := Option.some.inj hc
      rw [h.groupRefs_eq_zero hnot, show entryRefs t.matchUnit _ = 0 from h.entryRefs_eq_zero hnot]
      omega
    · exact h.count y c hc
  · show (rc.count y).isSome ∧ _
    rw [hcount, Function.update_apply]
    split
    · rename_i hyx
      subst hyx
      exact ⟨rfl, Target.isSome_index.mp (by rw [hindex]; rfl)⟩
    · rename_i hyx
      refine h.live y ?_
      cases y with
      | mbr i => exact (Finset.mem_insert.mp hy).resolve_left fun heq => hyx (congrArg _ heq)
      | grp g => exact hy
  · obtain ⟨y, hy, hyindex⟩ := h.entry i v hv
    exact ⟨y, hmono y hy, hyindex⟩
  · obtain ⟨mbrs, hmbrs, hsub⟩ := h.group g hg
    exact ⟨mbrs, hmbrs, hsub.trans (Finset.subset_insert _ _)⟩

theorem memberDeleted (h : RefInv t grpHandles groups) {mbr : ℕ}
    (hcount : t.indexRefCount.count (.mbr mbr) = some 0) (n : ℕ) :
    RefInv { t with mbrHandles := t.mbrHandles.erase mbr, numMembers := n } grpHandles groups := by
  have hzero := (h.count _ _ hcount).1
  refine ⟨h.slots, h.count, fun y hy => ?_, fun i v hv => ?_, fun g hg => ?_⟩
  · refine h.live y ?_
    cases y with
    | mbr i => exact Finset.mem_of_mem_erase hy
    | grp g => exact hy
  · obtain ⟨y, hy, hyindex⟩ := h.entry i v hv
    refine ⟨y, ?_, hyindex⟩
    have hpos : 0 < entryRefs t.matchUnit y := entryRefs_pos hv hyindex
    cases y with
    | mbr j =>
      refine Finset.mem_erase.mpr ⟨?_, hy⟩
      rintro rfl
      omega
    | grp g => exact hy
  · obtain ⟨mbrs, hmbrs, hsub⟩ := h.group g hg
    refine ⟨mbrs, hmbrs, fun i hi => Finset.mem_erase.mpr ⟨?_, hsub hi⟩⟩
    rintro rfl
    have hpos := groupRefs_pos hg hmbrs hi
    omega

/-! ## Groups -/

variable {g : ℕ}

theorem groupRefs_insert (hg : g ∉ grpHandles) {groups' : List (Finset ℕ)}
    (hgroups : ∀ j, groups'[j]? = if j = g then some ∅ else groups[j]?) :
    groupRefs (insert g grpHandles) groups' = groupRefs grpHandles groups := by
  funext y
  cases y with
  | grp _ => rfl
  | mbr i =>
    rw [groupRefs, groupRefs, card_filter_insert (fun g => i ∈ (groups[g]?).getD ∅) _ hg fun j hj => ?_]
    · rw [hgroups, if_pos rfl, Option.getD_some, if_neg (Finset.notMem_empty i), Nat.add_zero]
    · rw [hgroups, if_neg hj]

theorem groupRefs_erase (hg : g ∈ grpHandles) {mbrs : Finset ℕ} (hmbrs : groups[g]? = some mbrs) (i : ℕ) :
    groupRefs (grpHandles.erase g) groups (.mbr i) + (if i ∈ mbrs then 1 else 0) =
      groupRefs grpHandles groups (.mbr i) := by
  have herase := card_filter_erase (fun g => i ∈ (groups[g]?).getD ∅) (fun g => i ∈ (groups[g]?).getD ∅)
    hg fun j _ => Iff.rfl
  simp only [hmbrs, Option.getD_some] at herase
  exact herase

theorem groupRefs_set (hg : g ∈ grpHandles) {mbrs : Finset ℕ} (hmbrs : groups[g]? = some mbrs)
    (mbrs' : Finset ℕ) (i : ℕ) : groupRefs grpHandles (groups.set g mbrs') (.mbr i) + (if i ∈ mbrs then 1 else 0) =
      groupRefs grpHandles groups (.mbr i) + if i ∈ mbrs' then 1 else 0 := by
  obtain ⟨hlt, -⟩ := List.getElem?_eq_some_iff.mp hmbrs
  have hmodify := card_filter_modify (fun g => i ∈ (groups[g]?).getD ∅)
    (fun j => i ∈ ((groups.set g mbrs')[j]?).getD ∅) hg fun j hj => by
      rw [List.getElem?_set_ne (Ne.symm hj)]
  simp only [hmbrs, Option.getD_some, List.getElem?_set_self hlt] at hmodify
  exact hmodify

/-- The counts of the members of a group that goes are lowered by one. -/
theorem count_decreaseMembers {rc rc' : IndirectIndexRefCount} {mbrs : List ℕ} (hnodup : mbrs.Nodup)
    (h : MatchTableIndirectWS.decreaseMembers rc mbrs = some rc') :
    (∀ i ∈ mbrs, ∃ c, rc.count (.mbr i) = some c ∧
      rc'.count (.mbr i) = some ((c + (2 ^ 32 - 1)) % 2 ^ 32)) ∧
    ∀ y, (∀ i ∈ mbrs, y ≠ .mbr i) → rc'.count y = rc.count y := by
  induction mbrs generalizing rc with
  | nil =>
    cases h
    exact ⟨by simp, fun _ _ => rfl⟩
  | cons i mbrs ih =>
    obtain ⟨hi, hnodup⟩ := List.nodup_cons.mp hnodup
    obtain ⟨rc₁, hrc₁, h⟩ := Option.bind_eq_some_iff.mp h
    obtain ⟨index, hindex, hrc₁⟩ := Option.bind_eq_some_iff.mp hrc₁
    obtain ⟨c, hc, hcount⟩ := IndirectIndexRefCount.count_decrease (x := .mbr i) hindex hrc₁
    obtain ⟨hin, hout⟩ := ih hnodup h
    refine ⟨fun j hj => ?_, fun y hy => ?_⟩
    · rcases List.mem_cons.mp hj with rfl | hj
      · refine ⟨c, hc, ?_⟩
        rw [hout (.mbr j) fun k hk heq => hi (Target.mbr.inj heq ▸ hk), hcount, Function.update_self]
      · obtain ⟨c', hc', hdec⟩ := hin j hj
        have hne : Target.mbr j ≠ .mbr i := fun heq => hi (Target.mbr.inj heq ▸ hj)
        rw [hcount, Function.update_of_ne hne] at hc'
        exact ⟨c', hc', hdec⟩
    · rw [hout y fun k hk => hy k (List.mem_cons_of_mem _ hk), hcount,
        Function.update_of_ne (hy i List.mem_cons_self)]

theorem groupCreated (h : RefInv t grpHandles groups) (hgrp : g = lowestFree grpHandles % 2 ^ 32)
    {groups' : List (Finset ℕ)} (hput : putAt groups g ∅ = some groups')
    (hindex : (Target.grp g).index = some index) {rc : IndirectIndexRefCount}
    (hrc : t.indexRefCount.set index 0 = some rc) :
    RefInv { t with indexRefCount := rc } (insert (lowestFree grpHandles) grpHandles) groups' := by
  rw [lowestFree_mod fun i hi => (h.live (.grp i) hi).2] at hgrp
  subst hgrp
  have hnot : ¬ (Target.grp (lowestFree grpHandles)).Live t.mbrHandles grpHandles :=
    lowestFree_notMem grpHandles
  have hgroups : ∀ j, groups'[j]? = if j = lowestFree grpHandles then some ∅ else groups[j]? := by
    intro j
    have hj := congrFun (getElem?_putAt hput) j
    rwa [Function.update_apply] at hj
  have hcount := IndirectIndexRefCount.count_set hindex hrc
  have hgroupRefs := groupRefs_insert (lowestFree_notMem grpHandles) hgroups
  refine ⟨h.slots, fun y c hc => ?_, fun y hy => ?_, fun i v hv => ?_, fun j hj => ?_⟩
  · rw [hgroupRefs]
    rw [hcount, Function.update_apply] at hc
    split at hc
    · rename_i hy
      subst hy
      have hc := Option.some.inj hc
      rw [h.groupRefs_eq_zero hnot, show entryRefs t.matchUnit _ = 0 from h.entryRefs_eq_zero hnot]
      omega
    · exact h.count y c hc
  · show (rc.count y).isSome ∧ _
    rw [hcount, Function.update_apply]
    split
    · rename_i hyx
      subst hyx
      exact ⟨rfl, Target.isSome_index.mp (by rw [hindex]; rfl)⟩
    · rename_i hyx
      refine h.live y ?_
      cases y with
      | mbr i => exact hy
      | grp i => exact (Finset.mem_insert.mp hy).resolve_left fun heq => hyx (congrArg _ heq)
  · obtain ⟨y, hy, hyindex⟩ := h.entry i v hv
    refine ⟨y, ?_, hyindex⟩
    cases y with
    | mbr i => exact hy
    | grp i => exact Finset.mem_insert_of_mem hy
  · rw [hgroups]
    split
    · exact ⟨∅, rfl, Finset.empty_subset _⟩
    · rename_i hne
      exact h.group j ((Finset.mem_insert.mp hj).resolve_left hne)

theorem groupDeleted (h : RefInv t grpHandles groups) (hg : g ∈ grpHandles)
    (hcount : t.indexRefCount.count (.grp g) = some 0) {mbrs : Finset ℕ} (hmbrs : groups[g]? = some mbrs)
    {rc : IndirectIndexRefCount}
    (hrc : MatchTableIndirectWS.decreaseMembers t.indexRefCount (mbrs.sort (· ≤ ·)) = some rc) :
    RefInv { t with indexRefCount := rc } (grpHandles.erase g) groups := by
  have hzero := (h.count _ _ hcount).1
  obtain ⟨hin, hout⟩ := count_decreaseMembers (Finset.sort_nodup _ _) hrc
  simp only [Finset.mem_sort] at hin hout
  refine ⟨h.slots, fun y c hc => ?_, fun y hy => ?_, fun i v hv => ?_, fun j hj => ?_⟩
  · cases y with
    | grp j =>
      rw [hout (.grp j) fun i _ heq => by cases heq] at hc
      exact h.count _ c hc
    | mbr i =>
      have hrefs := groupRefs_erase hg hmbrs i
      by_cases hi : i ∈ mbrs
      · obtain ⟨c₀, hc₀, hdec⟩ := hin i hi
        have h₀ := h.count _ c₀ hc₀
        have hc := Option.some.inj (hdec.symm.trans hc)
        rw [if_pos hi] at hrefs
        show c = entryRefs t.matchUnit _ + _ ∧ _
        omega
      · rw [hout (.mbr i) fun k hk heq => hi (Target.mbr.inj heq ▸ hk)] at hc
        rw [if_neg hi, Nat.add_zero] at hrefs
        rw [hrefs]
        exact h.count _ c hc
  · have hy₀ : y.Live t.mbrHandles grpHandles := by
      cases y with
      | mbr i => exact hy
      | grp i => exact Finset.mem_of_mem_erase hy
    refine ⟨?_, (h.live y hy₀).2⟩
    by_cases hyin : ∃ i ∈ mbrs, y = .mbr i
    · obtain ⟨i, hi, rfl⟩ := hyin
      obtain ⟨c, -, hdec⟩ := hin i hi
      exact Option.isSome_iff_exists.mpr ⟨_, hdec⟩
    · push Not at hyin
      show (rc.count y).isSome
      rw [hout y hyin]
      exact (h.live y hy₀).1
  · obtain ⟨y, hy, hyindex⟩ := h.entry i v hv
    refine ⟨y, ?_, hyindex⟩
    have hpos : 0 < entryRefs t.matchUnit y := entryRefs_pos hv hyindex
    cases y with
    | mbr j => exact hy
    | grp j =>
      refine Finset.mem_erase.mpr ⟨?_, hy⟩
      rintro rfl
      omega
  · exact h.group j (Finset.mem_of_mem_erase hj)

/-- The members of a group are replaced, and one member of them counted anew. -/
theorem of_groups_set (h : RefInv t grpHandles groups) (hg : g ∈ grpHandles) {mbrs mbrs' : Finset ℕ}
    (hmbrs : groups[g]? = some mbrs) (hsub : mbrs' ⊆ t.mbrHandles) {mbr : ℕ}
    (hsame : ∀ i ≠ mbr, i ∈ mbrs' ↔ i ∈ mbrs) {rc : IndirectIndexRefCount} {c c' : ℕ}
    (hc : t.indexRefCount.count (.mbr mbr) = some c)
    (hcount : rc.count = Function.update t.indexRefCount.count (.mbr mbr) (some c')) (hlt : c' < 2 ^ 32)
    (hcc : c' + (if mbr ∈ mbrs then 1 else 0) = c + if mbr ∈ mbrs' then 1 else 0) :
    RefInv { t with indexRefCount := rc } grpHandles (groups.set g mbrs') := by
  obtain ⟨hlen, -⟩ := List.getElem?_eq_some_iff.mp hmbrs
  refine ⟨h.slots, fun y c₁ hc₁ => ?_, fun y hy => ?_, h.entry, fun j hj => ?_⟩
  · rw [hcount, Function.update_apply] at hc₁
    split at hc₁
    · rename_i hy
      subst hy
      have hc₁ := Option.some.inj hc₁
      have h₀ := h.count _ c hc
      have hrefs := groupRefs_set hg hmbrs mbrs' mbr
      show c₁ = entryRefs t.matchUnit _ + _ ∧ _
      omega
    · rename_i hy
      have h₀ := h.count y c₁ hc₁
      cases y with
      | grp j => exact h₀
      | mbr i =>
        have hrefs := groupRefs_set hg hmbrs mbrs' i
        have hi : i ≠ mbr := fun heq => hy (congrArg _ heq)
        simp only [hsame i hi, Nat.add_right_cancel_iff] at hrefs
        rw [hrefs]
        exact h₀
  · refine ⟨?_, (h.live y hy).2⟩
    show (rc.count y).isSome
    rw [hcount, Function.update_apply]
    split
    · rfl
    · exact (h.live y hy).1
  · by_cases hjg : j = g
    · subst hjg
      exact ⟨mbrs', List.getElem?_set_self hlen, hsub⟩
    · rw [List.getElem?_set_ne (Ne.symm hjg)]
      exact h.group j hj

theorem mbrPut (h : RefInv t grpHandles groups) {mbr : ℕ} (hmbr : mbr ∈ t.mbrHandles) (hg : g ∈ grpHandles)
    {mbrs : Finset ℕ} (hmbrs : groups[g]? = some mbrs) (hnew : mbr ∉ mbrs)
    (hindex : (Target.mbr mbr).index = some index) {rc : IndirectIndexRefCount}
    (hrc : t.indexRefCount.increase index = some rc)
    (hroom : t.indexRefCount.count (.mbr mbr) ≠ some (2 ^ 32 - 1)) :
    RefInv { t with indexRefCount := rc } grpHandles (groups.set g (insert mbr mbrs)) := by
  obtain ⟨c, hc, hcount⟩ := IndirectIndexRefCount.count_increase hindex hrc
  have hlt := (h.count _ c hc).2
  have hne : c ≠ 2 ^ 32 - 1 := fun heq => hroom (heq ▸ hc)
  obtain ⟨mbrs₀, hmbrs₀, hsub⟩ := h.group g hg
  obtain rfl := Option.some.inj (hmbrs₀.symm.trans hmbrs)
  refine h.of_groups_set hg hmbrs (Finset.insert_subset hmbr hsub) (fun i hi => ?_) hc hcount
    (Nat.mod_lt _ (by norm_num)) ?_
  · rw [Finset.mem_insert, or_iff_right hi]
  · rw [if_neg hnew, if_pos (Finset.mem_insert_self _ _)]
    omega

theorem mbrTaken (h : RefInv t grpHandles groups) {mbr : ℕ} (hg : g ∈ grpHandles) {mbrs : Finset ℕ}
    (hmbrs : groups[g]? = some mbrs) (hold : mbr ∈ mbrs) (hindex : (Target.mbr mbr).index = some index)
    {rc : IndirectIndexRefCount} (hrc : t.indexRefCount.decrease index = some rc) :
    RefInv { t with indexRefCount := rc } grpHandles (groups.set g (mbrs.erase mbr)) := by
  obtain ⟨c, hc, hcount⟩ := IndirectIndexRefCount.count_decrease hindex hrc
  have hc₀ := h.count _ c hc
  have hpos := groupRefs_pos hg hmbrs hold
  obtain ⟨mbrs₀, hmbrs₀, hsub⟩ := h.group g hg
  obtain rfl := Option.some.inj (hmbrs₀.symm.trans hmbrs)
  refine h.of_groups_set hg hmbrs ((Finset.erase_subset _ _).trans hsub) (fun i hi => ?_) hc hcount
    (Nat.mod_lt _ (by norm_num)) ?_
  · rw [Finset.mem_erase, and_iff_right hi]
  · rw [if_pos hold, if_neg (Finset.notMem_erase _ _)]
    omega

end RefInv

/-! ## Runs -/

variable [Inhabited K] [MatchKey K] [LookupStructure K S]

/-- One more reference can be counted. -/
def IndirectIndexRefCount.HasRoom (rc : IndirectIndexRefCount) (x : Target) : Prop :=
  rc.count x ≠ some (2 ^ 32 - 1)

instance (rc : IndirectIndexRefCount) (x : Target) : Decidable (rc.HasRoom x) :=
  inferInstanceAs (Decidable (rc.count x ≠ some (2 ^ 32 - 1)))

/-- The operation does not fail after it has counted, and counts below `2 ^ 32`. -/
def MatchTableIndirect.CountsSafely (t : MatchTableIndirect K S) : MemberOp → Prop
  | .addEntry matchKey mbr priority _ => mbr ∈ t.mbrHandles →
      t.matchUnit.Accepts matchKey priority ∧ t.indexRefCount.HasRoom (.mbr mbr)
  | .modifyEntry handle mbr => ∀ old, t.matchUnit.getValue handle = some (.ok old) →
      mbr ∈ t.mbrHandles ∧ ((Target.mbr mbr).index = some old ∨ t.indexRefCount.HasRoom (.mbr mbr))
  | _ => True

/-- The same for all operations on a table of members. -/
def MatchTableIndirect.CountsSafelyIn (t : MatchTableIndirect K S) : IndirectOp → Prop
  | .mbr op => t.CountsSafely op
  | _ => True

/-- The same for a table with groups; besides, it is reset only when it has no groups. -/
def MatchTableIndirectWS.CountsSafely (t : MatchTableIndirectWS K S) : IndirectWSOp → Prop
  | .mbr op => t.toMatchTableIndirect.CountsSafely op
  | .addMemberToGroup mbr _ => t.indexRefCount.HasRoom (.mbr mbr)
  | .addEntryWS matchKey grp priority _ => grp ∈ t.grpHandles → t.groups[grp]? ≠ some ∅ →
      t.matchUnit.Accepts matchKey priority ∧ t.indexRefCount.HasRoom (.grp grp)
  | .modifyEntryWS handle grp => ∀ old, t.matchUnit.getValue handle = some (.ok old) →
      grp ∈ t.grpHandles ∧ t.groups[grp]? ≠ some ∅ ∧
        ((Target.grp grp).index = some old ∨ t.indexRefCount.HasRoom (.grp grp))
  | .resetState => t.grpHandles = ∅
  | _ => True

/-- A table that has been created and configured, but holds nothing yet. -/
structure MatchTableIndirect.IsNew (size : ℕ) (kb : MatchKeyBuilder) (t : MatchTableIndirect K S) :
    Prop where
  matchUnit : MatchUnit.create size kb = some t.matchUnit
  withMeters : t.withMeters = false
  indexRefCount : t.indexRefCount = {}
  mbrHandles : t.mbrHandles = ∅
  actionEntries : t.actionEntries = []
  defaultSet : t.defaultSet = false

/-- The same for a table with groups. -/
structure MatchTableIndirectWS.IsNew (size : ℕ) (kb : MatchKeyBuilder) (t : MatchTableIndirectWS K S) :
    Prop extends t.toMatchTableIndirect.IsNew size kb where
  grpHandles : t.grpHandles = ∅
  groups : t.groups = []

omit [Inhabited K] [MatchKey K] [LookupStructure K S] in
theorem refInv_empty {t : MatchTableIndirect K S} {groups : List (Finset ℕ)} (hslots : t.matchUnit.Slots)
    (hhandles : t.matchUnit.handles = ∅) (hrc : t.indexRefCount = {}) (hmbrs : t.mbrHandles = ∅) :
    RefInv t ∅ groups := by
  have hcount : ∀ y, t.indexRefCount.count y = none := by
    intro y
    rw [hrc]
    cases y <;> rfl
  refine ⟨hslots, fun y c hc => ?_, fun y hy => ?_, fun i v hv => ?_, fun g hg => ?_⟩
  · rw [hcount] at hc
    cases hc
  · cases y with
    | mbr i => exact absurd (hmbrs ▸ hy : i ∈ (∅ : Finset ℕ)) (Finset.notMem_empty i)
    | grp g => exact absurd hy (Finset.notMem_empty g)
  · rw [values, live_of_handles hhandles] at hv
    cases hv
  · exact absurd hg (Finset.notMem_empty g)

omit [MatchKey K] in
theorem refInv_of_isNew {size : ℕ} {kb : MatchKeyBuilder} {t : MatchTableIndirect K S}
    (h : t.IsNew size kb) : RefInv t ∅ [] := by
  obtain ⟨s, -, hmu⟩ := Option.bind_eq_some_iff.mp h.matchUnit
  have heq := Option.some.inj hmu
  refine refInv_empty ?_ (by rw [← heq]) h.indexRefCount h.mbrHandles
  rw [← heq]
  exact ⟨rfl, by simp, List.length_replicate, List.length_replicate⟩

omit [MatchKey K] in
theorem RefInv.resetState {t t' : MatchTableIndirect K S} {groups : List (Finset ℕ)}
    (hreset : t.resetState = some t') : RefInv t' ∅ groups := by
  obtain ⟨mu, hmu, hreset⟩ := Option.bind_eq_some_iff.mp hreset
  obtain ⟨s, hs, hmu⟩ := Option.bind_eq_some_iff.mp hmu
  cases hmu
  cases hreset
  exact refInv_empty ⟨rfl, by simp, List.length_replicate, List.length_replicate⟩ rfl rfl rfl

/-- **Every operation on members and entries that counts safely keeps the counts right.** -/
theorem RefInv.of_memberEffect {t t' : MatchTableIndirect K S} {grpHandles : HandleMgr}
    {groups : List (Finset ℕ)} (h : RefInv t grpHandles groups) {op : MemberOp} {r : TableResult}
    (hsafe : t.CountsSafely op) (heffect : MemberEffect t t' op r) : RefInv t' grpHandles groups := by
  cases heffect with
  | abstract hexec ht' =>
    subst ht'
    have hsame := h.of_same (MatchTableAbstract.exec_same hexec)
    exact ⟨hsame.slots, hsame.count, hsame.live, hsame.entry, hsame.group⟩
  | refused _ ht' =>
    subst ht'
    exact h
  | memberAdded hmbr hindex hput hrc ht' =>
    subst ht'
    exact h.memberAdded hmbr hindex hrc _
  | memberDeleted hmem hcount ht' =>
    subst ht'
    exact h.memberDeleted hcount _
  | memberModified hmem ht' =>
    subst ht'
    exact ⟨h.slots, h.count, h.live, h.entry, h.group⟩
  | entryAdded hmem hindex hrc hadd ht' =>
    subst ht'
    obtain ⟨haccepts, hroom⟩ := hsafe hmem
    obtain ⟨handle, rfl⟩ := haccepts.addEntry_ok hadd
    exact h.entryAdded (x := .mbr _) hmem hindex hrc hroom hadd
  | entryDeleted hvalue hrc hdelete ht' =>
    subst ht'
    exact h.entryDeleted hvalue hrc hdelete
  | entryModified hvalue hdec hmem hindex hinc hmodify ht' =>
    subst ht'
    exact h.entryModified (x := .mbr _) hvalue hdec hmem hindex hinc (hsafe _ hvalue).2 hmodify
  | entryLost hvalue hdec hnot ht' => exact absurd (hsafe _ hvalue).1 hnot
  | defaultSet hmem hindex ht' =>
    subst ht'
    exact ⟨h.slots, h.count, h.live, h.entry, h.group⟩

/-- The same for all operations on a table of members. -/
theorem RefInv.of_exec {t t' : MatchTableIndirect K S} (h : RefInv t ∅ []) {op : IndirectOp}
    {r : TableResult} (hsafe : t.CountsSafelyIn op) (hexec : t.exec op = some (r, t')) :
    RefInv t' ∅ [] := by
  cases op with
  | mbr op => exact h.of_memberEffect hsafe (t.execMember_effect hexec)
  | lookup phv ingressLength ingressTsMs =>
    obtain ⟨⟨⟨actionEntry, handle⟩, t₀⟩, hlookup, heq⟩ := Option.map_eq_some_iff.mp hexec
    cases heq
    obtain ⟨mu, hsame, rfl⟩ := t.lookup_effect hlookup
    exact h.of_same hsame
  | resetState =>
    obtain ⟨t₀, hreset, heq⟩ := Option.map_eq_some_iff.mp hexec
    cases heq
    exact RefInv.resetState hreset

/-- **Every operation on a table with groups that counts safely keeps the counts right.** -/
theorem RefInv.of_groupEffect {t t' : MatchTableIndirectWS K S}
    (h : RefInv t.toMatchTableIndirect t.grpHandles t.groups) {op : IndirectWSOp} {r : TableResult}
    (hsafe : t.CountsSafely op) (heffect : GroupEffect t t' op r) :
    RefInv t'.toMatchTableIndirect t'.grpHandles t'.groups := by
  cases heffect with
  | mbr heffect ht' =>
    subst ht'
    exact h.of_memberEffect hsafe heffect
  | refused _ ht' =>
    subst ht'
    exact h
  | groupCreated hgrp hput hindex hrc ht' =>
    subst ht'
    exact h.groupCreated hgrp hput hindex hrc
  | groupDeleted hmem hcount hmbrs hrc ht' =>
    subst ht'
    exact h.groupDeleted hmem hcount hmbrs hrc
  | mbrPut hmbr hgrp hmbrs hnew hindex hrc ht' =>
    subst ht'
    exact h.mbrPut hmbr hgrp hmbrs hnew hindex hrc hsafe
  | mbrTaken hmbr hgrp hmbrs hold hindex hrc ht' =>
    subst ht'
    exact h.mbrTaken hgrp hmbrs hold hindex hrc
  | entryAdded hmem hmbrs hne hindex hrc hadd ht' =>
    subst ht'
    have hgroup : t.groups[_]? ≠ some ∅ := fun heq =>
      hne.ne_empty (Option.some.inj (hmbrs.symm.trans heq))
    obtain ⟨haccepts, hroom⟩ := hsafe hmem hgroup
    obtain ⟨handle, rfl⟩ := haccepts.addEntry_ok hadd
    exact h.entryAdded (x := .grp _) hmem hindex hrc hroom hadd
  | entryModified hvalue hdec hmem hmbrs hne hindex hinc hmodify ht' =>
    subst ht'
    exact h.entryModified (x := .grp _) hvalue hdec hmem hindex hinc (hsafe _ hvalue).2.2 hmodify
  | entryLost hvalue hdec hbad ht' =>
    obtain ⟨hmem, hne, -⟩ := hsafe _ hvalue
    exact absurd hbad (by simp [hmem, hne])
  | defaultSet hmem hindex ht' =>
    subst ht'
    exact ⟨h.slots, h.count, h.live, h.entry, h.group⟩
  | lookup hsame ht' =>
    subst ht'
    exact h.of_same hsame
  | reset hreset ht' =>
    subst ht'
    have hempty : t.grpHandles = ∅ := hsafe
    show RefInv _ t.grpHandles []
    rw [hempty]
    exact RefInv.resetState hreset

/-! ## What the counts are for -/

/-- The counts of a table are right, and a member or group can be deleted exactly when nothing
refers to it. -/
structure MatchTableIndirect.RefCountsRight (t : MatchTableIndirect K S) (grpHandles : HandleMgr)
    (groups : List (Finset ℕ)) : Prop where
  count : ∀ x : Target, x.Live t.mbrHandles grpHandles → t.indexRefCount.count x =
    some (entryRefs t.matchUnit x + groupRefs grpHandles groups x)
  deleteMember : ∀ mbr ∈ t.mbrHandles,
    if 0 < entryRefs t.matchUnit (.mbr mbr) + groupRefs grpHandles groups (.mbr mbr) then
      t.deleteMember mbr = some (.error .mbrStillUsed, t)
    else ∃ t', t.deleteMember mbr = some (.ok (), t')

/-- The same for a table with groups. -/
structure MatchTableIndirectWS.RefCountsRight (t : MatchTableIndirectWS K S) : Prop
    extends t.toMatchTableIndirect.RefCountsRight t.grpHandles t.groups where
  deleteGroup : ∀ grp ∈ t.grpHandles,
    if 0 < entryRefs t.matchUnit (.grp grp) then t.deleteGroup grp = some (.error .grpStillUsed, t)
    else ∃ t', t.deleteGroup grp = some (.ok (), t')

omit [Inhabited K] [MatchKey K] [LookupStructure K S] in
theorem RefInv.refCountsRight {t : MatchTableIndirect K S} {grpHandles : HandleMgr}
    {groups : List (Finset ℕ)} (h : RefInv t grpHandles groups) :
    t.RefCountsRight grpHandles groups := by
  refine ⟨fun x hx => h.exists_count hx, fun mbr hmbr => ?_⟩
  have hlive : (Target.mbr mbr).Live t.mbrHandles grpHandles := hmbr
  have hcount := h.exists_count hlive
  obtain ⟨index, hindex⟩ := h.exists_index hlive
  have hget := (IndirectIndexRefCount.get_eq hindex).trans hcount
  have hdelete : t.deleteMember mbr =
      (if 0 < entryRefs t.matchUnit (.mbr mbr) + groupRefs grpHandles groups (.mbr mbr) then
        some (.error .mbrStillUsed, t)
      else some (.ok (), { t with
        mbrHandles := t.mbrHandles.erase mbr, numMembers := t.numMembers - 1 })) := by
    rw [MatchTableIndirect.deleteMember,
      if_neg (by rw [MatchTableIndirect.isValidMbr_eq]; exact not_not.mpr hmbr),
      show IndirectIndex.makeMbrIndex mbr = some index from hindex]
    simp only [Option.bind_eq_bind, Option.bind_some, hget, HandleMgr.releaseHandle, if_pos hmbr]
    rfl
  rw [hdelete]
  split
  · rfl
  · exact ⟨_, rfl⟩

/-- The members of a group in use can all be counted down. -/
theorem exists_decreaseMembers (rc : IndirectIndexRefCount) (mbrs : List ℕ)
    (h : ∀ i ∈ mbrs, (rc.count (.mbr i)).isSome ∧ i ≤ IndirectIndex.indexMask) :
    ∃ rc', MatchTableIndirectWS.decreaseMembers rc mbrs = some rc' := by
  induction mbrs generalizing rc with
  | nil => exact ⟨rc, rfl⟩
  | cons i mbrs ih =>
    obtain ⟨hsome, hle⟩ := h i List.mem_cons_self
    obtain ⟨index, hindex⟩ := Option.isSome_iff_exists.mp (Target.isSome_index (x := .mbr i) |>.mpr hle)
    obtain ⟨c, hc⟩ := Option.isSome_iff_exists.mp hsome
    have hdec : ∃ rc', rc.decrease index = some rc' := by
      rw [IndirectIndexRefCount.decrease, IndirectIndexRefCount.get_eq hindex, hc]
      exact ⟨_, rfl⟩
    obtain ⟨rc₁, hrc₁⟩ := hdec
    obtain ⟨c', -, hcount⟩ := IndirectIndexRefCount.count_decrease hindex hrc₁
    obtain ⟨rc', hrc'⟩ := ih rc₁ fun j hj => by
      refine ⟨?_, (h j (List.mem_cons_of_mem _ hj)).2⟩
      rw [hcount, Function.update_apply]
      split
      · rfl
      · exact (h j (List.mem_cons_of_mem _ hj)).1
    refine ⟨rc', ?_⟩
    rw [MatchTableIndirectWS.decreaseMembers, List.foldlM_cons,
      show IndirectIndex.makeMbrIndex i = some index from hindex]
    simp only [Option.bind_eq_bind, Option.bind_some, hrc₁]
    exact hrc'

omit [Inhabited K] [MatchKey K] [LookupStructure K S] in
theorem RefInv.exists_deleteGroup {t : MatchTableIndirectWS K S}
    (h : RefInv t.toMatchTableIndirect t.grpHandles t.groups) {grp : ℕ} (hgrp : grp ∈ t.grpHandles) :
    if 0 < entryRefs t.matchUnit (.grp grp) then t.deleteGroup grp = some (.error .grpStillUsed, t)
    else ∃ t', t.deleteGroup grp = some (.ok (), t') := by
  have hlive : (Target.grp grp).Live t.mbrHandles t.grpHandles := hgrp
  have hcount := h.exists_count hlive
  obtain ⟨index, hindex⟩ := h.exists_index hlive
  have hget := (IndirectIndexRefCount.get_eq hindex).trans hcount
  obtain ⟨mbrs, hmbrs, hsub⟩ := h.group grp hgrp
  obtain ⟨rc, hrc⟩ := exists_decreaseMembers t.indexRefCount (mbrs.sort (· ≤ ·))
    fun i hi => h.live (.mbr i) (hsub ((Finset.mem_sort _).mp hi))
  have hdelete : t.deleteGroup grp =
      (if 0 < entryRefs t.matchUnit (.grp grp) then some (.error .grpStillUsed, t)
      else some (.ok (), { t with
        indexRefCount := rc, grpHandles := t.grpHandles.erase grp, numGroups := t.numGroups - 1 })) := by
    rw [MatchTableIndirectWS.deleteGroup,
      if_neg (by rw [MatchTableIndirectWS.isValidGrp_eq]; exact not_not.mpr hgrp),
      show IndirectIndex.makeGrpIndex grp = some index from hindex]
    simp only [Option.bind_eq_bind, Option.bind_some, hget, hmbrs, hrc, HandleMgr.releaseHandle,
      if_pos hgrp]
    rfl
  rw [hdelete]
  split
  · rfl
  · exact ⟨_, rfl⟩

/-- **The counts are right in every state reached**, for tables of members and for tables
with groups. -/
theorem refCounts_right (size : ℕ) (kb : MatchKeyBuilder) :
    (∀ (t₀ t : MatchTableIndirect K S) ops, t₀.IsNew size kb →
      RunMeets MatchTableIndirect.step MatchTableIndirect.CountsSafelyIn t₀ ops →
      runFrom MatchTableIndirect.step t₀ ops = some t → t.RefCountsRight ∅ []) ∧
    (∀ (t₀ t : MatchTableIndirectWS K S) ops, t₀.IsNew size kb →
      RunMeets MatchTableIndirectWS.step MatchTableIndirectWS.CountsSafely t₀ ops →
      runFrom MatchTableIndirectWS.step t₀ ops = some t → t.RefCountsRight) := by
  constructor
  · intro t₀ t ops hnew hops hrun
    refine RefInv.refCountsRight (runFrom_invariant_of_meets (I := fun t => RefInv t ∅ [])
      (fun t op t' h hsafe ht' => ?_) (refInv_of_isNew hnew) hops hrun)
    obtain ⟨⟨r, t₁⟩, hexec, rfl⟩ := Option.map_eq_some_iff.mp ht'
    exact h.of_exec hsafe hexec
  · intro t₀ t ops hnew hops hrun
    have hstart : RefInv t₀.toMatchTableIndirect t₀.grpHandles t₀.groups := by
      rw [hnew.grpHandles, hnew.groups]
      exact refInv_of_isNew hnew.toIsNew
    have hend := runFrom_invariant_of_meets
      (I := fun t : MatchTableIndirectWS K S => RefInv t.toMatchTableIndirect t.grpHandles t.groups)
      (fun t op t' h hsafe ht' => by
        obtain ⟨⟨r, t₁⟩, hexec, rfl⟩ := Option.map_eq_some_iff.mp ht'
        exact h.of_groupEffect hsafe (t.exec_effect hexec)) hstart hops hrun
    exact ⟨hend.refCountsRight, fun grp hgrp => hend.exists_deleteGroup hgrp⟩

theorem refCounts_right_one_group :
    ∃ kb, ∃ t₀ t : MatchTableIndirectWS ExactMatchKey ExactMap,
      MatchKeyBuilder.ofFields [⟨0, 0, .exact, 8, none⟩] = some kb ∧ t₀.IsNew 2 kb ∧
      runFrom MatchTableIndirectWS.step t₀ [.mbr (.addMember 7 []), .createGroup, .addMemberToGroup 0 0,
        .addEntryWS [⟨.exact, [1], [], 0⟩] 0 0 0] = some t ∧ t.grpHandles = {0} ∧ t.RefCountsRight := by
  have hnew : (⟨⟨⟨_, true, false, true, fun _ => some none, none, none, false, false⟩, {}, {}, ∅, [], false, {}, 0⟩,
      ∅, 0, []⟩ : MatchTableIndirectWS ExactMatchKey ExactMap).IsNew 2
      (MatchKeyBuilder.pushBackField {} 0 0 8 .exact) := ⟨⟨rfl, rfl, rfl, rfl, rfl, rfl⟩, rfl, rfl⟩
  refine ⟨_, _, _, rfl, hnew, rfl, rfl, ?_⟩
  refine (refCounts_right 2 _).2 _ _ [.mbr (.addMember 7 []), .createGroup, .addMemberToGroup 0 0,
    .addEntryWS [⟨.exact, [1], [], 0⟩] 0 0 0] hnew ?_ rfl
  refine ⟨trivial, fun t₁ h₁ => ?_⟩
  cases h₁
  refine ⟨trivial, fun t₂ h₂ => ?_⟩
  cases h₂
  refine ⟨(by decide : IndirectIndexRefCount.HasRoom _ _), fun t₃ h₃ => ?_⟩
  cases h₃
  exact ⟨fun _ _ => ⟨⟨_, rfl, rfl, by decide, by decide⟩, (by decide : IndirectIndexRefCount.HasRoom _ _)⟩,
    fun _ _ => trivial⟩

/-- A refused duplicate leaves a count behind: the member can no longer be deleted. -/
theorem deleteMember_after_duplicate :
    ∃ kb, ∃ t₀ t : MatchTableIndirect ExactMatchKey ExactMap,
      MatchKeyBuilder.ofFields [⟨0, 0, .exact, 8, none⟩] = some kb ∧ t₀.IsNew 2 kb ∧
      runFrom MatchTableIndirect.step t₀ [.mbr (.addMember 7 []),
        .mbr (.addEntry [⟨.exact, [1], [], 0⟩] 0 0 0), .mbr (.addEntry [⟨.exact, [1], [], 0⟩] 0 0 0),
        .mbr (.deleteEntry 0)] = some t ∧
      entryRefs t.matchUnit (.mbr 0) = 0 ∧ t.indexRefCount.count (.mbr 0) = some 1 ∧
      t.deleteMember 0 = some (.error .mbrStillUsed, t) := by
  have hnew : (⟨⟨_, true, false, true, fun _ => some none, none, none, false, false⟩, {}, {}, ∅, [], false, {}, 0⟩ :
      MatchTableIndirect ExactMatchKey ExactMap).IsNew 2
      (MatchKeyBuilder.pushBackField {} 0 0 8 .exact) := ⟨rfl, rfl, rfl, rfl, rfl, rfl⟩
  exact ⟨_, _, _, rfl, hnew, rfl, by decide, by decide, rfl⟩

end Bm
