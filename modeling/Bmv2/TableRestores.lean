/-
# Tables after a dump

A table is dumped and the dump is read by a new table of the same configuration, as a switch does that starts
from a state file.  What the tables find for a packet is compared.

* The default entry is read into the one that the new table has: when both have action data, the new data
  come behind the old ones (`MatchTable.DefaultKept` says when it makes no difference).
* A group can only be put in behind the groups read before it, so a dump with a gap in the handles fails.
-/
import Bmv2.TableRuns

namespace Bm

open TextStream MatchUnit

/-! ## What packets get -/

/-- `ActionFnEntry::operator()`: nothing is executed when there is no action. -/
def ActionFnEntry.executes (entry : ActionFnEntry) : Option (ℕ × List ℕ) :=
  entry.actionFn.map fun actionFn => (actionFn, entry.actionData)

/-- What a packet gets from a table without direct meters: the action that is executed, with its data, the
handle of the entry that was hit, and the next node. -/
def MatchTableAbstract.outcome {K V S : Type} (t : MatchTableAbstract K V S) (found : ActionEntry × Option ℕ) :
    Option (ℕ × List ℕ) × Option ℕ × Option ℕ :=
  (found.1.actionFn.executes, found.2, if found.2.isSome then found.1.nextNode else t.nextNodeMiss)

section Outcomes

variable {K S : Type} [MatchKey K] [LookupStructure K S] [LawfulLookup K S] [DumpKey K] [DumpedLookup K S]
  {fs : List KeyField}

namespace MatchTable

/-- A dump gives the miss back: the default action of the new table has no data of its own, and the new table
has no next node for a miss when there is none. -/
def DefaultKept (t new : MatchTable K S) : Prop :=
  (t.defaultEntry.actionFn.actionFn.isSome → new.defaultEntry.actionFn.actionData = []) ∧
    (t.nextNodeMiss = none → new.nextNodeMiss = none)

variable {t t' new : MatchTable K S}

omit [MatchKey K] [LookupStructure K S] [LawfulLookup K S] [DumpKey K] [DumpedLookup K S] in
/-- The miss of a table into which a dump was read. -/
theorem outcome_miss_iff (hmiss : t'.nextNodeMiss = t.nextNodeMiss.or new.nextNodeMiss)
    (hdefault : t'.defaultEntry = t.defaultEntry.readInto new.defaultEntry) :
    t'.outcome (t'.defaultEntry, none) = t.outcome (t.defaultEntry, none) ↔ t.DefaultKept new := by
  have hexecutes : t'.defaultEntry.actionFn.executes = t.defaultEntry.actionFn.executes ↔
      (t.defaultEntry.actionFn.actionFn.isSome → new.defaultEntry.actionFn.actionData = []) := by
    rw [hdefault, ActionEntry.readInto, ActionFnEntry.readInto, ActionFnEntry.executes, ActionFnEntry.executes]
    cases t.defaultEntry.actionFn.actionFn with
    | none => simp
    | some a => simp
  have hnode : t'.nextNodeMiss = t.nextNodeMiss ↔ (t.nextNodeMiss = none → new.nextNodeMiss = none) := by
    rw [hmiss]
    cases t.nextNodeMiss <;> simp
  rw [DefaultKept, ← hexecutes, ← hnode]
  simp [MatchTableAbstract.outcome]

/-- **Packets after a dump**: a hit is the same, and a miss exactly when the default was kept. -/
theorem lookup_restored (hinv : t.matchUnit.Inv fs) (hunit : t.matchUnit.Restored fs t'.matchUnit)
    (hmiss : t'.nextNodeMiss = t.nextNodeMiss.or new.nextNodeMiss)
    (hdefault : t'.defaultEntry = t.defaultEntry.readInto new.defaultEntry) {phv : PHV}
    (hcarries : ∀ f ∈ fs, phv.Carries f) {ingressLength ingressTsMs : ℕ} {found : ActionEntry × Option ℕ}
    {t₁ : MatchTable K S} (hlookup : t.lookup phv ingressLength ingressTsMs = some (found, t₁)) :
    ∃ found' t₁', t'.lookup phv ingressLength ingressTsMs = some (found', t₁') ∧
      (t'.outcome found' = t.outcome found ↔ found.2.isSome ∨ t.DefaultKept new) := by
  obtain ⟨res, mu, hmu, -, rfl⟩ := exists_unitLookup hlookup
  obtain ⟨mu', hmu'⟩ := (hunit.alike hinv).exists_lookup hcarries hmu
  rw [lookup, hmu']
  cases res with
  | some res => exact ⟨_, _, rfl, iff_of_true rfl (.inl rfl)⟩
  | none =>
    refine ⟨_, _, rfl, (outcome_miss_iff hmiss hdefault).trans ?_⟩
    simp

end MatchTable

namespace MatchTableIndirect

variable {t t' new : MatchTableIndirect K S}

omit [MatchKey K] [LookupStructure K S] [LawfulLookup K S] [DumpKey K] [DumpedLookup K S] in
variable (t t') in
/-- The miss without a default. -/
theorem outcome_empty (hmiss : t'.nextNodeMiss = t.nextNodeMiss) (hempty : t.emptyAction.actionFn.actionFn = none)
    (hempty' : t'.emptyAction.actionFn.actionFn = none) :
    t'.outcome (t'.emptyAction, none) = t.outcome (t.emptyAction, none) := by
  simp [MatchTableAbstract.outcome, ActionFnEntry.executes, hmiss, hempty, hempty']

omit [MatchKey K] [LookupStructure K S] [LawfulLookup K S] [DumpKey K] [DumpedLookup K S] in
variable (t t') in
theorem outcome_followed (hmiss : t'.nextNodeMiss = t.nextNodeMiss) (found : ActionEntry × Option ℕ) :
    t'.outcome found = t.outcome found := by
  rw [MatchTableAbstract.outcome, MatchTableAbstract.outcome, hmiss]

omit [LawfulLookup K S] [DumpKey K] [DumpedLookup K S] [MatchKey K] in
theorem lookup_of_empty {phv : PHV} {ingressLength ingressTsMs : ℕ} {res : Option (MatchUnitLookup IndirectIndex)}
    {mu : MatchUnit K IndirectIndex S} (hmu : t.matchUnit.lookup phv ingressLength ingressTsMs = some (res, mu))
    (hempty : res.isNone ∧ !t.defaultSet) :
    t.lookup phv ingressLength ingressTsMs = some ((t.emptyAction, none), t.withUnit mu) := by
  rw [lookup, hmu]
  exact if_pos hempty

omit [LawfulLookup K S] [DumpKey K] [DumpedLookup K S] [MatchKey K] in
theorem lookup_of_followed {phv : PHV} {ingressLength ingressTsMs : ℕ} {res : Option (MatchUnitLookup IndirectIndex)}
    {mu : MatchUnit K IndirectIndex S} (hmu : t.matchUnit.lookup phv ingressLength ingressTsMs = some (res, mu))
    (hne : ¬ (res.isNone ∧ !t.defaultSet)) {mbr : ℕ}
    (hmbr : ((res.map MatchUnitLookup.value).getD t.defaultIndex).getMbr = some mbr) (hmem : mbr ∈ t.mbrHandles)
    {entry : ActionEntry} (hentry : t.actionEntries[mbr]? = some entry) :
    t.lookup phv ingressLength ingressTsMs = some ((entry, res.map MatchUnitLookup.handle), t.withUnit mu) := by
  rw [lookup, hmu]
  refine (if_neg hne).trans ?_
  rw [show (t.withUnit mu).defaultIndex = t.defaultIndex from rfl, hmbr]
  refine (if_pos (decide_eq_true hmem)).trans ?_
  rw [show (t.withUnit mu).actionEntries = t.actionEntries from rfl, hentry]
  rfl

omit [MatchKey K] [LookupStructure K S] [LawfulLookup K S] [DumpKey K] [DumpedLookup K S] in
variable (t t') in
/-- The index that a packet follows. -/
theorem index_restored (hindex : t.defaultSet = true → t'.defaultIndex = t.defaultIndex) {res :
    Option (MatchUnitLookup IndirectIndex)} (hne : ¬ (res.isNone ∧ !t.defaultSet)) :
    (res.map MatchUnitLookup.value).getD t'.defaultIndex = (res.map MatchUnitLookup.value).getD t.defaultIndex := by
  cases res with
  | some res => rfl
  | none => exact hindex (by simpa using hne)

/-- **Packets after a dump** of a table of members. -/
theorem lookup_restored (hinv : t.matchUnit.Inv fs) (h : t.Restored fs new t')
    (hmiss : t'.nextNodeMiss = t.nextNodeMiss) (hempty : t.emptyAction.actionFn.actionFn = none)
    (hempty' : new.emptyAction.actionFn.actionFn = none) {phv : PHV} (hcarries : ∀ f ∈ fs, phv.Carries f)
    {ingressLength ingressTsMs : ℕ} {found : ActionEntry × Option ℕ} {t₁ : MatchTableIndirect K S}
    (hlookup : t.lookup phv ingressLength ingressTsMs = some (found, t₁)) :
    ∃ found' t₁', t'.lookup phv ingressLength ingressTsMs = some (found', t₁') ∧
      t'.outcome found' = t.outcome found := by
  obtain ⟨⟨res, mu⟩, hmu, hlookup⟩ := Option.bind_eq_some_iff.mp hlookup
  obtain ⟨mu', hmu'⟩ := (h.unit.alike hinv).exists_lookup hcarries hmu
  dsimp only at hlookup
  split at hlookup
  next hnone =>
    cases hlookup
    refine ⟨_, _, lookup_of_empty hmu' (by rw [h.defaultSet]; exact hnone), ?_⟩
    exact outcome_empty t t' hmiss hempty (h.emptyAction ▸ hempty')
  next hne =>
    obtain ⟨mbr, hmbr, hlookup⟩ := Option.bind_eq_some_iff.mp hlookup
    split at hlookup
    next hvalid =>
      obtain ⟨entry, hentry, hlookup⟩ := Option.bind_eq_some_iff.mp hlookup
      cases hlookup
      have hmem : mbr ∈ t.mbrHandles := of_decide_eq_true hvalid
      refine ⟨_, t'.withUnit mu', ?_, outcome_followed t t' hmiss (entry, res.map MatchUnitLookup.handle)⟩
      exact lookup_of_followed hmu' (by rw [h.defaultSet]; exact hne)
        (by rw [index_restored t t' h.defaultIndex hne]; exact hmbr) (h.mbrHandles ▸ hmem)
        ((h.actionEntries mbr hmem).trans hentry)
    next => cases hlookup

end MatchTableIndirect

namespace MatchTableIndirectWS

variable {t t' new : MatchTableIndirectWS K S}

omit [MatchKey K] [LookupStructure K S] [LawfulLookup K S] [DumpKey K] [DumpedLookup K S] in
/-- An index leads to the same member. -/
theorem followIndex_restored (hgrpHandles : t'.grpHandles = t.grpHandles)
    (hgroups : ∀ grp ∈ t.grpHandles, t'.groups[grp]? = t.groups[grp]?) (index : IndirectIndex) (hash : ℕ) :
    t'.followIndex index hash = t.followIndex index hash := by
  rw [followIndex, followIndex]
  split
  · rfl
  · refine congrArg (index.getGrp).bind (funext fun grp => ?_)
    rw [isValidGrp, isValidGrp, hgrpHandles]
    by_cases hmem : grp ∈ t.grpHandles
    · rw [if_pos (decide_eq_true hmem), if_pos (decide_eq_true hmem), getFromHash, getFromHash, hgroups grp hmem]
    · rw [if_neg (by simpa using hmem), if_neg (by simpa using hmem)]

/-- **Packets after a dump** of a table of groups. -/
theorem lookup_restored (hinv : t.matchUnit.Inv fs) (h : t.Restored fs new t')
    (hmiss : t'.nextNodeMiss = t.nextNodeMiss) (hempty : t.emptyAction.actionFn.actionFn = none)
    (hempty' : new.emptyAction.actionFn.actionFn = none) {phv : PHV} (hcarries : ∀ f ∈ fs, phv.Carries f)
    {ingressLength ingressTsMs hash : ℕ} {found : ActionEntry × Option ℕ} {t₁ : MatchTableIndirectWS K S}
    (hlookup : t.lookup phv ingressLength ingressTsMs hash = some (found, t₁)) :
    ∃ found' t₁', t'.lookup phv ingressLength ingressTsMs hash = some (found', t₁') ∧
      t'.outcome found' = t.outcome found := by
  obtain ⟨⟨res, mu⟩, hmu, hlookup⟩ := Option.bind_eq_some_iff.mp hlookup
  obtain ⟨mu', hmu'⟩ := (h.unit.alike hinv).exists_lookup hcarries hmu
  rw [lookup, hmu']
  dsimp only at hlookup
  split at hlookup
  next hnone =>
    cases hlookup
    refine ⟨_, t'.withUnit mu', if_pos ?_, MatchTableIndirect.outcome_empty t.toMatchTableIndirect
      t'.toMatchTableIndirect hmiss hempty (h.emptyAction ▸ hempty')⟩
    rw [show (t'.withUnit mu').defaultSet = t.defaultSet from h.defaultSet]
    exact hnone
  next hne =>
    obtain ⟨mbr, hmbr, hlookup⟩ := Option.bind_eq_some_iff.mp hlookup
    split at hlookup
    next hvalid =>
      obtain ⟨entry, hentry, hlookup⟩ := Option.bind_eq_some_iff.mp hlookup
      cases hlookup
      have hmem : mbr ∈ t.mbrHandles := of_decide_eq_true hvalid
      refine ⟨_, t'.withUnit mu', ?_, MatchTableIndirect.outcome_followed t.toMatchTableIndirect
        t'.toMatchTableIndirect hmiss (entry, res.map MatchUnitLookup.handle)⟩
      refine (if_neg (by rw [show (t'.withUnit mu').defaultSet = t.defaultSet from h.defaultSet]; exact hne)).trans ?_
      have hfollow : (t'.withUnit mu').followIndex
          ((res.map MatchUnitLookup.value).getD (t'.withUnit mu').defaultIndex) hash = some mbr := by
        rw [← hmbr, show (t'.withUnit mu').defaultIndex = t'.defaultIndex from rfl,
          MatchTableIndirect.index_restored t.toMatchTableIndirect t'.toMatchTableIndirect
            h.defaultIndex hne]
        exact followIndex_restored h.grpHandles h.groups _ hash
      rw [hfollow]
      refine (if_pos (decide_eq_true (h.mbrHandles ▸ hmem))).trans ?_
      rw [show (t'.withUnit mu').actionEntries = t'.actionEntries from rfl, (h.actionEntries mbr hmem).trans hentry]
      rfl
    next => cases hlookup

end MatchTableIndirectWS

end Outcomes

/-! ## Dumps after runs -/

namespace MatchTable

/-- The names and numbers in a dump of the table are known. -/
structure NamesKnown {K S : Type} (names : P4ObjectNames) (t : MatchTable K S) : Prop where
  entries : ∀ i e, t.matchUnit.live i = some e → e.value.Known names
  defaultEntry : t.defaultEntry.Known names
  nextNodeMiss : ∀ n ∈ t.nextNodeMiss, names.KnowsNode n

end MatchTable

/-- The names and numbers in a dump of the table are known. -/
structure MatchTableIndirect.NamesKnown {K S : Type} (names : P4ObjectNames) (t : MatchTableIndirect K S) : Prop where
  members : ∀ mbr ∈ t.mbrHandles, ∀ e, t.actionEntries[mbr]? = some e → e.Known names
  nextNodeMiss : ∀ n ∈ t.nextNodeMiss, names.KnowsNode n

/-- No version of a slot in use has outgrown the 8 bits of a handle. -/
def MatchUnit.ShortVersions {K V S : Type} (mu : MatchUnit K V S) : Prop :=
  ∀ i e, mu.live i = some e → e.version < 256

/-- What dumps of the three kinds of tables do, after every run on a table of the configuration.

* A dump can be made as long as the versions of the slots in use fit a handle and no handles of groups are
  left over from a reset.
* A new table of the configuration reads it back, if the handles of the groups have no gaps; otherwise it fails.
* Then every packet gets the same as from the table that was dumped, except that the default entry of the new
  table shows through in a miss. -/
structure TableDumpRestores (K S : Type) [Inhabited K] [MatchKey K] [LookupStructure K S] [LawfulLookup K S]
    [DumpKey K] (cfg : NextTables) (fs : List KeyField) (kb : MatchKeyBuilder) (size : ℕ)
    (withCounters withAgeing : Bool) (names : P4ObjectNames) (name : List Char) : Prop where
  actions : ∀ (t₀ new t : MatchTable K S) defaultEntry ops,
    MatchTable.create size kb withCounters withAgeing = some t₀ → t₀.configure cfg defaultEntry = some new →
    RunMeets MatchTable.call MatchTable.DeletesSafely new ops → runFrom MatchTable.call new ops = some t →
    t.matchUnit.directMeters = none → t.NamesKnown names →
    ((t.serialize names name).isSome ↔ t.matchUnit.ShortVersions) ∧
    ∀ text, t.serialize names name = some text → ∀ now, ∃ t', Reads (new.deserialize names name now) text t' ∧
      t.matchUnit.Restored fs t'.matchUnit ∧
      ∀ phv ingressLength ingressTsMs found t₁, (∀ f ∈ fs, phv.Carries f) →
        t.lookup phv ingressLength ingressTsMs = some (found, t₁) →
        ∃ found' t₁', t'.lookup phv ingressLength ingressTsMs = some (found', t₁') ∧
          (t'.outcome found' = t.outcome found ↔ found.2.isSome ∨ t.DefaultKept new)
  members : ∀ (t₀ t : MatchTableIndirect K S) ops,
    MatchTableIndirect.create size kb withCounters withAgeing = some t₀ →
    RunMeets MatchTableIndirect.call MatchTableIndirect.CallSafe (t₀.configure cfg) ops →
    runFrom MatchTableIndirect.call (t₀.configure cfg) ops = some t →
    t.matchUnit.directMeters = none → t.NamesKnown names →
    ((t.serialize names name).isSome ↔ t.matchUnit.ShortVersions) ∧
    ∀ text, t.serialize names name = some text → ∀ now,
      ∃ t', Reads ((t₀.configure cfg).deserialize names name now) text t' ∧ t.Restored fs (t₀.configure cfg) t' ∧
      ∀ phv ingressLength ingressTsMs found t₁, (∀ f ∈ fs, phv.Carries f) →
        t.lookup phv ingressLength ingressTsMs = some (found, t₁) →
        ∃ found' t₁', t'.lookup phv ingressLength ingressTsMs = some (found', t₁') ∧
          t'.outcome found' = t.outcome found
  groups : ∀ (t₀ t : MatchTableIndirectWS K S) ops,
    MatchTableIndirectWS.create size kb withCounters withAgeing = some t₀ →
    RunMeets MatchTableIndirectWS.call MatchTableIndirectWS.CallSafe (t₀.configure cfg) ops →
    runFrom MatchTableIndirectWS.call (t₀.configure cfg) ops = some t →
    t.matchUnit.directMeters = none → t.toMatchTableIndirect.NamesKnown names →
    ((t.serialize names name).isSome ↔ t.matchUnit.ShortVersions ∧ ∀ grp ∈ t.grpHandles, grp < t.groups.length) ∧
    ∀ text, t.serialize names name = some text → ∀ now,
      (t.grpHandles ≠ Finset.range t.numGroups → Fails ((t₀.configure cfg).deserialize names name now) text) ∧
      (t.grpHandles = Finset.range t.numGroups →
        ∃ t', Reads ((t₀.configure cfg).deserialize names name now) text t' ∧ t.Restored fs (t₀.configure cfg) t' ∧
        ∀ phv ingressLength ingressTsMs hash found t₁, (∀ f ∈ fs, phv.Carries f) →
          t.lookup phv ingressLength ingressTsMs hash = some (found, t₁) →
          ∃ found' t₁', t'.lookup phv ingressLength ingressTsMs hash = some (found', t₁') ∧
            t'.outcome found' = t.outcome found)

section Helpers

variable {K S : Type} [MatchKey K] [LookupStructure K S] [LawfulLookup K S] {fs : List KeyField} {cfg : NextTables}
  {names : P4ObjectNames}

/-- What a dump of a table of members needs, after a run. -/
theorem MatchTableIndirect.DumpInv.stored {t new : MatchTableIndirect K S} (h : t.DumpInv cfg fs new)
    (hnames : t.NamesKnown names) : t.Stored names := by
  refine ⟨h.members.inRange, h.members.numMembers, fun mbr hmbr e he => ⟨hnames.members mbr hmbr e he, ?_⟩⟩
  obtain ⟨actionId, haction, -⟩ := h.next.entries e (List.mem_of_getElem? he)
  rw [haction]
  rfl

theorem MatchTableIndirect.isSome_serialize_iff [DumpKey K] (names : P4ObjectNames) {t new : MatchTableIndirect K S}
    (h : t.DumpInv cfg fs new) :
    (t.serialize_ names).isSome ↔ t.matchUnit.ShortVersions := by
  obtain ⟨members, hmembers⟩ : ∃ members, (t.mbrHandles.sort (· ≤ ·)).mapM (t.serializeMember names) =
    some members := by
    rw [← Option.isSome_iff_exists, isSome_mapM_iff]
    intro mbr hmbr
    have hlt := h.members.inRange mbr ((sort_handles t.mbrHandles).2 mbr |>.mp hmbr)
    rw [serializeMember, List.getElem?_eq_getElem hlt]
    rfl
  rw [ShortVersions, ← MatchUnit.isSome_serialize_iff IndirectIndex.format h.unit.inv.toSlots h.unit.versions,
    serialize_, hmembers]
  cases t.matchUnit.serialize IndirectIndex.format <;> rfl

omit [MatchKey K] [LookupStructure K S] [LawfulLookup K S] in
/-- The next node of a miss is the one of the configuration. -/
theorem MatchTableIndirect.NextInv.nextNodeMiss_eq {t new : MatchTableIndirect K S} (h : t.NextInv cfg)
    (hnew : new.NextInv cfg) : t.nextNodeMiss = new.nextNodeMiss :=
  Option.some.inj (h.miss.symm.trans hnew.miss)

end Helpers

section Final

variable {K S : Type} [Inhabited K] [MatchKey K] [LookupStructure K S] [LawfulLookup K S] {fs : List KeyField}
  {kb : MatchKeyBuilder} {size : ℕ} {withCounters withAgeing : Bool} {cfg : NextTables} {names : P4ObjectNames}

/-- The unit of a table that has just been made. -/
theorem MatchUnit.isFresh_new {V : Type} [Inhabited V] {mu : MatchUnit K V S}
    (hfs : MatchKeyBuilder.ofFields fs = some kb) (hpos : 0 < kb.nbytesKey) (hsize : size ≤ 2 ^ 24)
    (h : create size kb = some mu) :
    mu.IsFresh fs ∧ mu.Dumpable fs mu ∧ mu.size ≤ 2 ^ 24 ∧ 0 < mu.nbytesKey := by
  have hfresh := isFresh_create hfs h
  refine ⟨hfresh, ⟨hfresh.inv, .rfl', fun i e he => ?_⟩, ?_⟩
  · rw [live_of_handles hfresh.handles] at he
    cases he
  · obtain ⟨s, -, h⟩ := Option.bind_eq_some_iff.mp h
    cases h
    exact ⟨hsize, hpos⟩

omit [Inhabited K] [MatchKey K] [LookupStructure K S] [LawfulLookup K S] in
/-- The configuration of a table leaves its unit alone. -/
theorem MatchTableAbstract.setNextTables_unit {V : Type} (t : MatchTableAbstract K V S) (cfg : NextTables) :
    (t.setNextTables cfg).matchUnit = t.matchUnit := by
  have hactions : ∀ (actions : List (ℕ × Option ℕ)) (t : MatchTableAbstract K V S),
      (actions.foldl (fun t action => t.setNextNode action.1 action.2) t).matchUnit = t.matchUnit := by
    intro actions
    induction actions with
    | nil => exact fun _ => rfl
    | cons action actions ih => exact fun t => ih _
  obtain ⟨actions, hit, miss, baseDefault⟩ := cfg
  rw [setNextTables]
  cases hit <;> cases miss <;> cases baseDefault <;> dsimp only [Option.elim, setNextNodeHit, setNextNodeMiss] <;>
    first
    | exact hactions _ _
    | (rw [setNextNodeMissDefault]
       split <;> exact hactions _ _)

omit [Inhabited K] [MatchKey K] [LookupStructure K S] [LawfulLookup K S] in
theorem MatchTable.configure_unit {t t' : MatchTable K S} {defaultEntry : Option DefaultEntryConfig}
    (h : t.configure cfg defaultEntry = some t') : t'.matchUnit = t.matchUnit := by
  have hnext := t.toMatchTableAbstract.setNextTables_unit cfg
  cases defaultEntry with
  | none =>
    cases h
    exact hnext
  | some d =>
    obtain ⟨t₁, hconst, h⟩ := Option.bind_eq_some_iff.mp h
    have hunit : t₁.matchUnit = t.matchUnit := by
      split at hconst
      · rw [setConstDefaultActionFn] at hconst
        split at hconst
        · cases hconst
        · cases hconst
          exact hnext
      · cases hconst
        exact hnext
    split at h
    · cases h
      exact hunit
    · rw [setDefaultEntry] at h
      split at h
      · cases h
      · split at h
        next t₂ hset =>
          cases h
          exact (MatchTable.setDefaultAction_unit hset).trans hunit
        next => cases h

variable [DumpKey K] [DumpedLookup K S] [LookupBound K S] {name : List Char}

theorem MatchTable.dump_restores (hfs : MatchKeyBuilder.ofFields fs = some kb) (hpos : 0 < kb.nbytesKey)
    (hsize : size ≤ 2 ^ 24) (hname : IsWord name) {t₀ new t : MatchTable K S}
    {defaultEntry : Option DefaultEntryConfig} {ops : List (MatchTableOp ⊕ PacketIn)}
    (hcreate : create size kb withCounters withAgeing = some t₀) (hconfigure : t₀.configure cfg defaultEntry = some new)
    (hops : RunMeets call DeletesSafely new ops) (hrun : runFrom call new ops = some t) (hnames : t.NamesKnown names) :
    ((t.serialize names name).isSome ↔ t.matchUnit.ShortVersions) ∧
    ∀ text, t.serialize names name = some text → ∀ now, ∃ t', Reads (new.deserialize names name now) text t' ∧
      t.matchUnit.Restored fs t'.matchUnit ∧
      ∀ phv ingressLength ingressTsMs found t₁, (∀ f ∈ fs, phv.Carries f) →
        t.lookup phv ingressLength ingressTsMs = some (found, t₁) →
        ∃ found' t₁', t'.lookup phv ingressLength ingressTsMs = some (found', t₁') ∧
          (t'.outcome found' = t.outcome found ↔ found.2.isSome ∨ t.DefaultKept new) := by
  have hnext : t.NextInv cfg fs := runFrom_invariant (fun _ _ _ h hcall => h.call hcall)
    (nextInv_configure hfs hcreate hconfigure) hrun
  obtain ⟨mu, hmu, hcreate⟩ := Option.bind_eq_some_iff.mp hcreate
  cases hcreate
  have hunit : new.matchUnit = mu := configure_unit hconfigure
  obtain ⟨hfresh, hstart, hsmall, hbytes⟩ := isFresh_new hfs hpos hsize hmu
  rw [← hunit] at hfresh hstart hsmall hbytes
  have hdump : t.matchUnit.Dumpable fs new.matchUnit :=
    runFrom_invariant_of_meets (I := fun t : MatchTable K S => t.matchUnit.Dumpable fs new.matchUnit)
      (fun _ _ _ h hsafe hcall => dumpable_call h hsmall hsafe hcall) hstart hops hrun
  obtain ⟨b, hfilled⟩ := hnext.filled
  have hknown : t.Known names := by
    refine ⟨fun i e he => ⟨hnames.entries i e he, ?_⟩, hnames.defaultEntry, hnames.nextNodeMiss⟩
    obtain ⟨hmem, hentry⟩ := live_eq_some.mp he
    obtain ⟨e', he', actionId, haction, -⟩ := hfilled.values i (hfilled.lt_bound i hmem)
    obtain rfl := Option.some.inj (hentry.symm.trans he')
    rw [haction]
    rfl
  constructor
  · rw [ShortVersions, ← isSome_serialize_iff (ActionEntry.format names) hdump.inv.toSlots hdump.versions,
      serialize]
    cases t.matchUnit.serialize (ActionEntry.format names) <;> rfl
  · intro text htext now
    obtain ⟨t', hreads, hrestored, hmiss, hdefault⟩ := deserialize_restores hdump.inv hdump.versions hfresh hdump.shape
      (hdump.shape.nbytesKey ▸ hbytes) hknown hname htext now
    exact ⟨t', hreads, hrestored, fun phv ingressLength ingressTsMs found t₁ hcarries hlookup =>
      lookup_restored hdump.inv hrestored hmiss hdefault hcarries hlookup⟩

omit [LookupBound K S] in
theorem MatchTableIndirect.dump_restores (hfs : MatchKeyBuilder.ofFields fs = some kb) (hpos : 0 < kb.nbytesKey)
    (hsize : size ≤ 2 ^ 24) (hname : IsWord name) {t₀ t : MatchTableIndirect K S} {ops : List (IndirectOp ⊕ PacketIn)}
    (hcreate : create size kb withCounters withAgeing = some t₀) (hops : RunMeets call CallSafe (t₀.configure cfg) ops)
    (hrun : runFrom call (t₀.configure cfg) ops = some t) (hnames : t.NamesKnown names) :
    ((t.serialize names name).isSome ↔ t.matchUnit.ShortVersions) ∧
    ∀ text, t.serialize names name = some text → ∀ now,
      ∃ t', Reads ((t₀.configure cfg).deserialize names name now) text t' ∧ t.Restored fs (t₀.configure cfg) t' ∧
      ∀ phv ingressLength ingressTsMs found t₁, (∀ f ∈ fs, phv.Carries f) →
        t.lookup phv ingressLength ingressTsMs = some (found, t₁) →
        ∃ found' t₁', t'.lookup phv ingressLength ingressTsMs = some (found', t₁') ∧
          t'.outcome found' = t.outcome found := by
  have hnew : (t₀.configure cfg).NextInv cfg := nextInv_configure hcreate
  obtain ⟨mu, hmu, heq⟩ := Option.bind_eq_some_iff.mp hcreate
  cases heq
  obtain ⟨hfresh, hstart, hsmall, hbytes⟩ := isFresh_new hfs hpos hsize hmu
  have hunit : (configure { matchUnit := mu, withCounters, withAgeing } cfg).matchUnit = mu :=
    MatchTableAbstract.setNextTables_unit _ cfg
  rw [← hunit] at hfresh hstart hsmall hbytes
  have hmembers : MembersStored (configure { matchUnit := mu, withCounters, withAgeing } cfg) :=
    ⟨fun mbr hmbr => absurd hmbr (Finset.notMem_empty mbr), rfl, Nat.zero_le _⟩
  obtain ⟨hhandles, hentries⟩ : (configure { matchUnit := mu, withCounters, withAgeing } cfg).mbrHandles = ∅ ∧
    (configure { matchUnit := mu, withCounters, withAgeing } cfg).actionEntries = [] := ⟨rfl, rfl⟩
  generalize configure { matchUnit := mu, withCounters, withAgeing } cfg = new at *
  have hinv : t.DumpInv cfg fs new :=
    runFrom_invariant_of_meets (I := fun t : MatchTableIndirect K S => t.DumpInv cfg fs new)
      (fun _ _ _ h hsafe hcall => h.call hsmall hsafe hcall) ⟨hstart, hnew, hmembers⟩ hops hrun
  have hmiss := hinv.next.nextNodeMiss_eq hnew
  constructor
  · rw [← isSome_serialize_iff names hinv, serialize]
    cases t.serialize_ names <;> rfl
  · intro text htext now
    obtain ⟨body, hbody, htext⟩ := Option.bind_eq_some_iff.mp htext
    cases htext
    have hor : t.nextNodeMiss.or new.nextNodeMiss = new.nextNodeMiss := by
      rw [← hmiss]
      cases t.nextNodeMiss <;> rfl
    obtain ⟨t', hreads, hrestored⟩ := deserialize_restores hinv.unit.inv hinv.unit.versions (hinv.stored hnames) hfresh
      hinv.unit.shape (hinv.unit.shape.nbytesKey ▸ hbytes) hhandles hentries hbody now
    refine ⟨t', reads_head hname hnames.nextNodeMiss _ ?_, hrestored, fun phv ingressLength ingressTsMs found t₁
      hcarries hlookup => ?_⟩
    · rw [hor]
      exact hreads
    · exact lookup_restored hinv.unit.inv hrestored (hrestored.nextNodeMiss.trans hmiss.symm) hinv.next.emptyAction
        hnew.emptyAction hcarries hlookup

omit [LookupBound K S] in
theorem MatchTableIndirectWS.dump_restores (hfs : MatchKeyBuilder.ofFields fs = some kb) (hpos : 0 < kb.nbytesKey)
    (hsize : size ≤ 2 ^ 24) (hname : IsWord name) {t₀ t : MatchTableIndirectWS K S}
    {ops : List (IndirectWSOp ⊕ PacketIn)} (hcreate : create size kb withCounters withAgeing = some t₀)
    (hops : RunMeets call CallSafe (t₀.configure cfg) ops) (hrun : runFrom call (t₀.configure cfg) ops = some t)
    (hnames : t.toMatchTableIndirect.NamesKnown names) :
    ((t.serialize names name).isSome ↔ t.matchUnit.ShortVersions ∧ ∀ grp ∈ t.grpHandles, grp < t.groups.length) ∧
    ∀ text, t.serialize names name = some text → ∀ now,
      (t.grpHandles ≠ Finset.range t.numGroups → Fails ((t₀.configure cfg).deserialize names name now) text) ∧
      (t.grpHandles = Finset.range t.numGroups →
        ∃ t', Reads ((t₀.configure cfg).deserialize names name now) text t' ∧ t.Restored fs (t₀.configure cfg) t' ∧
        ∀ phv ingressLength ingressTsMs hash found t₁, (∀ f ∈ fs, phv.Carries f) →
          t.lookup phv ingressLength ingressTsMs hash = some (found, t₁) →
          ∃ found' t₁', t'.lookup phv ingressLength ingressTsMs hash = some (found', t₁') ∧
            t'.outcome found' = t.outcome found) := by
  have hnew : (t₀.configure cfg).toMatchTableIndirect.NextInv cfg := nextInv_configure hcreate
  obtain ⟨mu, hmu, heq⟩ := Option.bind_eq_some_iff.mp hcreate
  cases heq
  obtain ⟨hfresh, hstart, hsmall, hbytes⟩ := isFresh_new hfs hpos hsize hmu
  have hunit : (configure { matchUnit := mu, withCounters, withAgeing } cfg).matchUnit = mu :=
    MatchTableAbstract.setNextTables_unit _ cfg
  rw [← hunit] at hfresh hstart hsmall hbytes
  have hmembers : MatchTableIndirect.MembersStored
      (configure { matchUnit := mu, withCounters, withAgeing } cfg).toMatchTableIndirect :=
    ⟨fun mbr hmbr => absurd hmbr (Finset.notMem_empty mbr), rfl, Nat.zero_le _⟩
  have hgroups : GroupsStored (configure { matchUnit := mu, withCounters, withAgeing } cfg) :=
    ⟨fun grp hgrp => absurd hgrp (Finset.notMem_empty grp), Nat.zero_le _, rfl, rfl⟩
  obtain ⟨hhandles, hentries, hgrpHandles, hnone⟩ :
      (configure { matchUnit := mu, withCounters, withAgeing } cfg).mbrHandles = ∅ ∧
      (configure { matchUnit := mu, withCounters, withAgeing } cfg).actionEntries = [] ∧
      (configure { matchUnit := mu, withCounters, withAgeing } cfg).grpHandles = ∅ ∧
      (configure { matchUnit := mu, withCounters, withAgeing } cfg).groups = [] := ⟨rfl, rfl, rfl, rfl⟩
  generalize configure { matchUnit := mu, withCounters, withAgeing } cfg = new at *
  have hinv : t.DumpInv cfg fs new :=
    runFrom_invariant_of_meets (I := fun t : MatchTableIndirectWS K S => t.DumpInv cfg fs new)
      (fun _ _ _ h hsafe hcall => h.call hsmall hsafe hcall) ⟨⟨hstart, hnew, hmembers⟩, hgroups⟩ hops hrun
  have hmiss := hinv.next.nextNodeMiss_eq hnew
  have hwrites : ((t.grpHandles.sort (· ≤ ·)).mapM t.serializeGroup).isSome ↔
      ∀ grp ∈ t.grpHandles, grp < t.groups.length := by
    rw [isSome_mapM_iff]
    refine ⟨fun h grp hgrp => ?_, fun h grp hgrp => ?_⟩
    · obtain ⟨text, htext⟩ := Option.isSome_iff_exists.mp (h grp ((sort_handles t.grpHandles).2 grp |>.mpr hgrp))
      obtain ⟨mbrs, hmbrs, -⟩ := Option.bind_eq_some_iff.mp htext
      exact (List.getElem?_eq_some_iff.mp hmbrs).1
    · rw [serializeGroup, List.getElem?_eq_getElem (h grp ((sort_handles t.grpHandles).2 grp |>.mp hgrp))]
      rfl
  constructor
  · rw [← MatchTableIndirect.isSome_serialize_iff names hinv.toDumpInv, ← hwrites, serialize, serialize_]
    cases t.toMatchTableIndirect.serialize_ names <;> cases (t.grpHandles.sort (· ≤ ·)).mapM t.serializeGroup <;> simp
  · intro text htext now
    obtain ⟨body, hbody, htext⟩ := Option.bind_eq_some_iff.mp htext
    cases htext
    have hnum : t.numGroups = t.grpHandles.card := by
      obtain ⟨base, -, hgroups⟩ := Option.bind_eq_some_iff.mp hbody
      obtain ⟨groups, hgroups, -⟩ := Option.bind_eq_some_iff.mp hgroups
      rw [hinv.groups.numGroups, Finset.filter_true_of_mem (hwrites.mp (by rw [hgroups]; rfl))]
    have hor : t.nextNodeMiss.or new.nextNodeMiss = new.nextNodeMiss := by
      rw [← hmiss]
      cases t.nextNodeMiss <;> rfl
    obtain ⟨hread, hfail⟩ := deserialize_restores hinv.unit.inv hinv.unit.versions (hinv.toDumpInv.stored hnames) hnum
      hfresh hinv.unit.shape (hinv.unit.shape.nbytesKey ▸ hbytes) hhandles hentries hgrpHandles hnone hbody now
    refine ⟨fun hne => fails_head hname hnames.nextNodeMiss _ ?_, fun hrange => ?_⟩
    · rw [hor]
      exact hfail hne
    · obtain ⟨t', hreads, hrestored⟩ := hread hrange
      refine ⟨t', reads_head hname hnames.nextNodeMiss _ ?_, hrestored, fun phv ingressLength ingressTsMs hash found t₁
        hcarries hlookup => ?_⟩
      · rw [hor]
        exact hreads
      · exact lookup_restored hinv.unit.inv hrestored (hrestored.nextNodeMiss.trans hmiss.symm) hinv.next.emptyAction
          hnew.emptyAction hcarries hlookup

theorem tableDumpRestores (hfs : MatchKeyBuilder.ofFields fs = some kb) (hpos : 0 < kb.nbytesKey)
    (hsize : size ≤ 2 ^ 24) (hname : IsWord name) :
    TableDumpRestores K S cfg fs kb size withCounters withAgeing names name where
  actions _ _ _ _ _ hcreate hconfigure hops hrun _ hnames :=
    MatchTable.dump_restores hfs hpos hsize hname hcreate hconfigure hops hrun hnames
  members _ _ _ hcreate hops hrun _ hnames :=
    MatchTableIndirect.dump_restores hfs hpos hsize hname hcreate hops hrun hnames
  groups _ _ _ hcreate hops hrun _ hnames :=
    MatchTableIndirectWS.dump_restores hfs hpos hsize hname hcreate hops hrun hnames

end Final

end Bm
