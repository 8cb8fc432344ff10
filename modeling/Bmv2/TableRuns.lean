/-
# What a dump needs, along every run

The invariants by which tables can be dumped, kept by every operation and every packet:

* the match unit is in order, and the versions of handles are those of the entries (`MatchUnit.Dumpable`);
* every member is in its place of `action_entries`, which an index can name (`MembersStored`);
* every group is in its place, or its handle is left over from a reset (`GroupsStored`).
-/
import Bmv2.LiveMembers
import Bmv2.TableDump

namespace Bm

open TextStream MatchUnit

/-! ## Runs of the match unit -/

section Unit

variable {K V S : Type} [MatchKey K] [LookupStructure K S] [LawfulLookup K S] {fs : List KeyField}
  {new mu mu' : MatchUnit K V S}

/-- A unit of the shape of `new` that can be dumped, as long as its versions are short. -/
structure MatchUnit.Dumpable (fs : List KeyField) (mu new : MatchUnit K V S) : Prop where
  inv : mu.Inv fs
  shape : SameShape mu new
  versions : mu.VersionsMatch

namespace MatchUnit.Dumpable

theorem of_same (h : Dumpable fs mu new) (hsame : SameEntries mu mu')
    (hmeta : mu'.entryMeta.map EntryMeta.version = mu.entryMeta.map EntryMeta.version) : Dumpable fs mu' new := by
  have hlive := live_congr hsame.handles hsame.entries
  have hkeys : mu'.keys = mu.keys := funext fun i => by rw [keys, keys, hlive]
  refine ⟨h.inv.of_holds hsame.toSameShape (h.inv.toSlots.of_sameEntries hsame) ?_, ?_, ?_⟩
  · rw [hkeys, hsame.lookupStructure]
    exact h.inv.holds
  · exact ⟨h.shape.size.trans hsame.size.symm, h.shape.nbytesKey.trans hsame.nbytesKey.symm,
      h.shape.matchKeyBuilder.trans hsame.matchKeyBuilder.symm⟩
  · exact h.versions.of_live (fun i e he => ⟨e, by rwa [hlive] at he, rfl⟩) hmeta

variable [Inhabited K] [Inhabited V]

theorem exec (h : Dumpable fs mu new) (hsize : new.size ≤ 2 ^ 24) (op : UnitOp V) {r : UnitResult V}
    (hsafe : mu.DeletesSafely op) (hexec : mu.exec op = some (r, mu')) : Dumpable fs mu' new := by
  obtain ⟨hsame, -, -⟩ := h.inv.exec_effect hexec
  refine ⟨h.inv.exec hsafe hexec, ?_, h.versions.exec h.inv.toSlots (h.shape.size ▸ hsize) hexec⟩
  exact ⟨h.shape.size.trans hsame.size.symm, h.shape.nbytesKey.trans hsame.nbytesKey.symm,
    h.shape.matchKeyBuilder.trans hsame.matchKeyBuilder.symm⟩

theorem addEntry (h : Dumpable fs mu new) (hsize : new.size ≤ 2 ^ 24) {matchKey : List MatchKeyParam} {value : V}
    {priority : Int32} {now : ℕ} {res : Except MatchErrorCode ℕ}
    (hadd : mu.addEntry matchKey value priority now = some (res, mu')) : Dumpable fs mu' new :=
  h.exec hsize (.addEntry matchKey value priority now) (r := .handle res) trivial
    (by rw [MatchUnit.exec, hadd, Option.map_some])

theorem deleteEntry (h : Dumpable fs mu new) (hsize : new.size ≤ 2 ^ 24) {handle : ℕ} {res : Except MatchErrorCode Unit}
    (hsafe : mu.DeletesSafely (.deleteEntry handle)) (hdelete : mu.deleteEntry handle = some (res, mu')) :
    Dumpable fs mu' new :=
  h.exec hsize (.deleteEntry handle) (r := .done res) hsafe (by rw [MatchUnit.exec, hdelete, Option.map_some])

theorem modifyEntry (h : Dumpable fs mu new) (hsize : new.size ≤ 2 ^ 24) {handle : ℕ} {value : V}
    {res : Except MatchErrorCode Unit} (hmodify : mu.modifyEntry handle value = some (res, mu')) :
    Dumpable fs mu' new :=
  h.exec hsize (.modifyEntry handle value) (r := .done res) trivial
    (by rw [MatchUnit.exec, hmodify, Option.map_some])

theorem lookup (h : Dumpable fs mu new) (hsize : new.size ≤ 2 ^ 24) {phv : PHV} {ingressLength ingressTsMs : ℕ}
    {res : Option (MatchUnitLookup V)} (hlookup : mu.lookup phv ingressLength ingressTsMs = some (res, mu')) :
    Dumpable fs mu' new :=
  h.exec hsize (.lookup phv ingressLength ingressTsMs) (r := .found res) trivial
    (by rw [MatchUnit.exec, hlookup, Option.map_some])

theorem resetState (h : Dumpable fs mu new) (hsize : new.size ≤ 2 ^ 24) (hreset : mu.resetState = some mu') :
    Dumpable fs mu' new :=
  h.exec hsize (.resetState) (r := .done (.ok ())) trivial (by rw [MatchUnit.exec, hreset, Option.map_some])

end MatchUnit.Dumpable

end Unit

section Abstract

variable {K V S : Type} {t t' : MatchTableAbstract K V S}

/-- What all tables share leaves the versions alone. -/
theorem MatchTableAbstract.exec_versions {op : AbstractOp} {r : TableResult} (hexec : t.exec op = some (r, t')) :
    t'.matchUnit.entryMeta.map EntryMeta.version = t.matchUnit.entryMeta.map EntryMeta.version := by
  cases op with
  | setDirectMeters meterArray =>
    obtain ⟨t₀, hset, heq⟩ := Option.map_eq_some_iff.mp hexec
    cases heq
    obtain ⟨mu, hmu, hset⟩ := Option.bind_eq_some_iff.mp hset
    cases hset
    rw [MatchUnit.setDirectMeters] at hmu
    split at hmu
    · cases hmu
      rfl
    · cases hmu
  | resetCounters =>
    cases hexec
    show t.resetCounters.2.matchUnit.entryMeta.map _ = _
    rw [resetCounters]
    split
    · rfl
    · rw [show MatchUnit.entryMeta _ = t.matchUnit.entryMeta.map (fun m => { m with counter := {} }) from rfl,
        List.map_map]
      rfl
  | writeCounters handle bytes packets =>
    obtain ⟨⟨r₀, t₀⟩, hwrite, heq⟩ := Option.map_eq_some_iff.mp hexec
    cases heq
    rw [writeCounters] at hwrite
    split at hwrite
    · cases hwrite
      rfl
    · split at hwrite
      · cases hwrite
        rfl
      · obtain ⟨m, hm, hwrite⟩ := Option.bind_eq_some_iff.mp hwrite
        cases hwrite
        exact map_version_set hm rfl
  | setMeterRates handle configs =>
    obtain ⟨⟨r₀, t₀⟩, hset, heq⟩ := Option.map_eq_some_iff.mp hexec
    cases heq
    rw [setMeterRates] at hset
    split at hset
    · cases hset
      rfl
    · split at hset
      · cases hset
        rfl
      · obtain ⟨m, -, hset⟩ := Option.bind_eq_some_iff.mp hset
        cases hset
        rfl
  | setEntryTtl handle ttlMs now =>
    obtain ⟨⟨r₀, t₀⟩, hset, heq⟩ := Option.map_eq_some_iff.mp hexec
    cases heq
    rw [setEntryTtl] at hset
    split at hset
    · cases hset
      rfl
    · obtain ⟨⟨r, mu⟩, hmu, hset⟩ := Option.bind_eq_some_iff.mp hset
      cases hset
      rw [MatchUnit.setEntryTtl] at hmu
      split at hmu
      · obtain ⟨m, hm, hmu⟩ := Option.bind_eq_some_iff.mp hmu
        cases hmu
        exact map_version_set hm rfl
      · cases hmu
        rfl

/-- The end of `apply_action` leaves the meta data alone. -/
theorem MatchTableAbstract.finishApply_meta {pkt : PacketIn} {actionEntry : ActionEntry} {handle : Option ℕ}
    {r : Applied} (h : t.finishApply pkt actionEntry handle = some (r, t')) :
    t'.matchUnit.entryMeta = t.matchUnit.entryMeta := by
  cases handle with
  | none =>
    cases h
    rfl
  | some handle =>
    rw [finishApply] at h
    split at h
    · obtain ⟨⟨color, t₁⟩, hmeter, h⟩ := Option.bind_eq_some_iff.mp h
      cases h
      obtain ⟨meter, -, hmeter⟩ := Option.bind_eq_some_iff.mp hmeter
      obtain ⟨⟨color, meter⟩, -, hmeter⟩ := Option.bind_eq_some_iff.mp hmeter
      cases hmeter
      rfl
    · cases h
      rfl

end Abstract

/-! ## Runs of tables of actions -/

section Calls

variable {K S : Type} [Inhabited K] [MatchKey K] [LookupStructure K S] [LawfulLookup K S] {fs : List KeyField}

namespace MatchTable

/-- A deletion takes the key out of the lookup structure. -/
def DeletesSafely (t : MatchTable K S) : MatchTableOp ⊕ PacketIn → Prop
  | .inl (.deleteEntry handle) => t.matchUnit.DeletesSafely (.deleteEntry handle)
  | _ => True

variable {new t t' : MatchTable K S}

omit [Inhabited K] [MatchKey K] [LookupStructure K S] [LawfulLookup K S] in
theorem setDefaultAction_unit {actionFn : ℕ} {actionData : List ℕ} {res : Except MatchErrorCode Unit}
    (hset : t.setDefaultAction actionFn actionData = some (res, t')) : t'.matchUnit = t.matchUnit := by
  rw [setDefaultAction] at hset
  split at hset
  · cases hset
    rfl
  split at hset
  · cases hset
    rfl
  obtain ⟨nextNode, -, hset⟩ := Option.bind_eq_some_iff.mp hset
  cases hset
  rfl

omit [Inhabited K] [MatchKey K] [LawfulLookup K S] in
/-- The lookup of a table is the one of its unit. -/
theorem exists_unitLookup {phv : PHV} {ingressLength ingressTsMs : ℕ} {found : ActionEntry × Option ℕ}
    (h : t.lookup phv ingressLength ingressTsMs = some (found, t')) :
    ∃ res mu, t.matchUnit.lookup phv ingressLength ingressTsMs = some (res, mu) ∧ t' = t.withUnit mu ∧
      found = res.elim (t.defaultEntry, none) fun res => (res.value, some res.handle) := by
  obtain ⟨⟨res, mu⟩, hmu, h⟩ := Option.bind_eq_some_iff.mp h
  cases res <;> cases h <;> exact ⟨_, mu, hmu, rfl, rfl⟩

theorem dumpable_lookup (h : t.matchUnit.Dumpable fs new.matchUnit) (hsize : new.matchUnit.size ≤ 2 ^ 24) {phv : PHV}
    {ingressLength ingressTsMs : ℕ} {found : ActionEntry × Option ℕ}
    (hlookup : t.lookup phv ingressLength ingressTsMs = some (found, t')) :
    t'.matchUnit.Dumpable fs new.matchUnit := by
  obtain ⟨res, mu, hmu, rfl, -⟩ := exists_unitLookup hlookup
  exact h.lookup hsize hmu

/-- **Step lemma** of a table of actions. -/
theorem dumpable_call (h : t.matchUnit.Dumpable fs new.matchUnit) (hsize : new.matchUnit.size ≤ 2 ^ 24)
    {op : MatchTableOp ⊕ PacketIn} (hsafe : t.DeletesSafely op) (hcall : t.call op = some t') :
    t'.matchUnit.Dumpable fs new.matchUnit := by
  cases op with
  | inr pkt =>
    obtain ⟨⟨r, t₁⟩, happly, rfl⟩ := Option.map_eq_some_iff.mp hcall
    obtain ⟨⟨⟨actionEntry, handle⟩, t₂⟩, hlookup, happly⟩ := Option.bind_eq_some_iff.mp happly
    obtain ⟨⟨r, base⟩, hfinish, happly⟩ := Option.bind_eq_some_iff.mp happly
    cases happly
    exact (dumpable_lookup h hsize hlookup).of_same (finishApply_same hfinish).2
      (by rw [show _ = _ from MatchTableAbstract.finishApply_meta hfinish])
  | inl op =>
    obtain ⟨⟨r, t₁⟩, hexec, rfl⟩ := Option.map_eq_some_iff.mp hcall
    cases op with
    | abstract op =>
      obtain ⟨⟨r₀, base⟩, hbase, heq⟩ := Option.map_eq_some_iff.mp hexec
      cases heq
      exact h.of_same (MatchTableAbstract.exec_same hbase) (MatchTableAbstract.exec_versions hbase)
    | lookup phv ingressLength ingressTsMs =>
      obtain ⟨⟨found, t₁⟩, hlookup, heq⟩ := Option.map_eq_some_iff.mp hexec
      cases heq
      exact dumpable_lookup h hsize hlookup
    | addEntry matchKey actionFn actionData priority now =>
      obtain ⟨⟨res, t₁⟩, hadd, heq⟩ := Option.map_eq_some_iff.mp hexec
      cases heq
      obtain ⟨nextNode, -, hadd⟩ := Option.bind_eq_some_iff.mp hadd
      obtain ⟨⟨res, mu⟩, hmu, hadd⟩ := Option.bind_eq_some_iff.mp hadd
      cases hadd
      exact h.addEntry hsize hmu
    | deleteEntry handle =>
      obtain ⟨⟨res, t₁⟩, hdelete, heq⟩ := Option.map_eq_some_iff.mp hexec
      cases heq
      obtain ⟨⟨res, mu⟩, hmu, hdelete⟩ := Option.bind_eq_some_iff.mp hdelete
      cases hdelete
      exact h.deleteEntry hsize hsafe hmu
    | modifyEntry handle actionFn actionData =>
      obtain ⟨⟨res, t₁⟩, hmodify, heq⟩ := Option.map_eq_some_iff.mp hexec
      cases heq
      obtain ⟨nextNode, -, hmodify⟩ := Option.bind_eq_some_iff.mp hmodify
      obtain ⟨⟨res, mu⟩, hmu, hmodify⟩ := Option.bind_eq_some_iff.mp hmodify
      cases hmodify
      exact h.modifyEntry hsize hmu
    | setDefaultAction actionFn actionData =>
      obtain ⟨⟨res, t₁⟩, hset, heq⟩ := Option.map_eq_some_iff.mp hexec
      cases heq
      rwa [setDefaultAction_unit hset]
    | resetState =>
      obtain ⟨t₁, hreset, heq⟩ := Option.map_eq_some_iff.mp hexec
      cases heq
      obtain ⟨mu, hmu, hreset⟩ := Option.bind_eq_some_iff.mp hreset
      cases hreset
      exact h.resetState hsize hmu

end MatchTable

/-! ## Runs of tables of members -/

namespace MatchTableIndirect

/-- A deletion takes the key out of the lookup structure. -/
def DeletesSafely (t : MatchTableIndirect K S) : MemberOp → Prop
  | .deleteEntry handle => t.matchUnit.DeletesSafely (.deleteEntry handle)
  | _ => True

/-- Where the members are: each in its place of `action_entries`, which an index can name. -/
structure MembersStored (t : MatchTableIndirect K S) : Prop where
  inRange : ∀ mbr ∈ t.mbrHandles, mbr < t.actionEntries.length
  numMembers : t.numMembers = t.mbrHandles.card
  bound : t.actionEntries.length ≤ 2 ^ 24

/-- What a dump of the table needs. -/
structure DumpInv (cfg : NextTables) (fs : List KeyField) (t new : MatchTableIndirect K S) : Prop where
  unit : t.matchUnit.Dumpable fs new.matchUnit
  next : t.NextInv cfg
  members : t.MembersStored

variable {cfg : NextTables} {new t t' : MatchTableIndirect K S}

omit [Inhabited K] [MatchKey K] [LookupStructure K S] [LawfulLookup K S] in
theorem MembersStored.of_same (h : t.MembersStored) (hhandles : t'.mbrHandles = t.mbrHandles)
    (hlength : t'.actionEntries.length = t.actionEntries.length) (hnum : t'.numMembers = t.numMembers) :
    t'.MembersStored :=
  ⟨fun mbr hmbr => hlength ▸ h.inRange mbr (hhandles ▸ hmbr), by rw [hnum, h.numMembers, hhandles], hlength ▸ h.bound⟩

omit [Inhabited K] [LawfulLookup K S] in
/-- **Step lemma**, of the members. -/
theorem MembersStored.of_effect (h : t.MembersStored) {op : MemberOp} {r : TableResult}
    (heffect : MemberEffect t t' op r) : t'.MembersStored := by
  cases heffect with
  | memberAdded hmbr hindex hput hrc ht' =>
    subst ht'
    have hle := Target.isSome_index.mp (by rw [hindex]; rfl)
    have hlow := le_of_lowestFree h.inRange
    have hbound := h.bound
    rw [Nat.mod_eq_of_lt (by omega)] at hmbr
    subst hmbr
    have hlength := length_putAt hput
    have hmask : IndirectIndex.indexMask = 2 ^ 24 - 1 := rfl
    have hnum : (Target.mbr (lowestFree t.mbrHandles)).num = lowestFree t.mbrHandles := rfl
    refine ⟨fun mbr hmem => ?_, ?_, ?_⟩
    · rw [hlength]
      rcases Finset.mem_insert.mp hmem with rfl | hmem
      · omega
      · have := h.inRange mbr hmem
        omega
    · dsimp only
      rw [Finset.card_insert_of_notMem (lowestFree_notMem _), h.numMembers]
    · rw [hlength]
      omega
  | memberDeleted hmem hcount ht' =>
    subst ht'
    refine ⟨fun mbr hmbr => h.inRange mbr (Finset.mem_of_mem_erase hmbr), ?_, h.bound⟩
    dsimp only
    rw [Finset.card_erase_of_mem hmem, h.numMembers]
  | memberModified hmem ht' =>
    subst ht'
    exact h.of_same rfl List.length_set rfl
  | abstract hexec ht' => exact ht' ▸ h.of_same rfl rfl rfl
  | refused hevent ht' => exact ht' ▸ h
  | entryAdded hmem hindex hrc hadd ht' => exact ht' ▸ h.of_same rfl rfl rfl
  | entryDeleted hvalue hrc hdelete ht' => exact ht' ▸ h.of_same rfl rfl rfl
  | entryModified hvalue hdec hmem hindex hinc hmodify ht' => exact ht' ▸ h.of_same rfl rfl rfl
  | entryLost hvalue hdec hmem ht' => exact ht' ▸ h.of_same rfl rfl rfl
  | defaultSet hmem hindex ht' => exact ht' ▸ h.of_same rfl rfl rfl

/-- **Step lemma**, of the unit. -/
theorem dumpable_of_effect (h : t.matchUnit.Dumpable fs new.matchUnit) (hsize : new.matchUnit.size ≤ 2 ^ 24)
    {op : MemberOp} {r : TableResult} (hsafe : t.DeletesSafely op) (heffect : MemberEffect t t' op r) :
    t'.matchUnit.Dumpable fs new.matchUnit := by
  cases heffect with
  | abstract hexec ht' =>
    subst ht'
    exact h.of_same (MatchTableAbstract.exec_same hexec) (MatchTableAbstract.exec_versions hexec)
  | entryAdded hmem hindex hrc hadd ht' => exact ht' ▸ h.addEntry hsize hadd
  | entryDeleted hvalue hrc hdelete ht' => exact ht' ▸ h.deleteEntry hsize hsafe hdelete
  | entryModified hvalue hdec hmem hindex hinc hmodify ht' => exact ht' ▸ h.modifyEntry hsize hmodify
  | refused hevent ht' => exact ht' ▸ h
  | memberAdded hmbr hindex hput hrc ht' => exact ht' ▸ h
  | memberDeleted hmem hcount ht' => exact ht' ▸ h
  | memberModified hmem ht' => exact ht' ▸ h
  | entryLost hvalue hdec hmem ht' => exact ht' ▸ h
  | defaultSet hmem hindex ht' => exact ht' ▸ h

/-- **Step lemma** of the operations on members and entries. -/
theorem DumpInv.execMember (h : t.DumpInv cfg fs new) (hsize : new.matchUnit.size ≤ 2 ^ 24) {op : MemberOp}
    {r : TableResult} (hsafe : t.DeletesSafely op) (hexec : t.execMember op = some (r, t')) :
    t'.DumpInv cfg fs new :=
  ⟨dumpable_of_effect h.unit hsize hsafe (execMember_effect hexec), h.next.execMember hexec,
    h.members.of_effect (execMember_effect hexec)⟩

omit [Inhabited K] in
/-- A packet, with another unit and the same members. -/
theorem DumpInv.withUnit (h : t.DumpInv cfg fs new) {mu : MatchUnit K IndirectIndex S}
    (hmu : mu.Dumpable fs new.matchUnit) : (t.withUnit mu).DumpInv cfg fs new :=
  ⟨hmu, h.next.of_same ⟨⟨rfl, rfl, rfl, rfl, rfl⟩, rfl, rfl⟩, h.members.of_same rfl rfl rfl⟩

theorem DumpInv.resetState (h : t.DumpInv cfg fs new) (hsize : new.matchUnit.size ≤ 2 ^ 24)
    (hreset : t.resetState = some t') : t'.DumpInv cfg fs new := by
  obtain ⟨mu, hmu, heq⟩ := Option.bind_eq_some_iff.mp hreset
  have hnext := h.next.resetState hreset
  cases heq
  exact ⟨h.unit.resetState hsize hmu, hnext, fun mbr hmbr => absurd hmbr (Finset.notMem_empty mbr), rfl, Nat.zero_le _⟩

/-- The same for a call. -/
def CallSafe (t : MatchTableIndirect K S) : IndirectOp ⊕ PacketIn → Prop
  | .inl (.mbr op) => t.DeletesSafely op
  | _ => True

/-- **Step lemma** of a table of members. -/
theorem DumpInv.call (h : t.DumpInv cfg fs new) (hsize : new.matchUnit.size ≤ 2 ^ 24) {op : IndirectOp ⊕ PacketIn}
    (hsafe : t.CallSafe op) (hcall : t.call op = some t') : t'.DumpInv cfg fs new := by
  cases op with
  | inr pkt =>
    have hnext := h.next.call hcall
    obtain ⟨⟨r, t₁⟩, happly, rfl⟩ := Option.map_eq_some_iff.mp hcall
    obtain ⟨⟨⟨actionEntry, handle⟩, t₂⟩, hlookup, happly⟩ := Option.bind_eq_some_iff.mp happly
    obtain ⟨⟨r, base⟩, hfinish, happly⟩ := Option.bind_eq_some_iff.mp happly
    cases happly
    obtain ⟨res, mu, hmu, rfl, -, -⟩ := lookup_executes hlookup
    refine ⟨(h.unit.lookup hsize hmu).of_same (finishApply_same hfinish).2 ?_, hnext, h.members.of_same rfl rfl rfl⟩
    exact congrArg _ (MatchTableAbstract.finishApply_meta hfinish)
  | inl op =>
    obtain ⟨⟨r, t₁⟩, hexec, rfl⟩ := Option.map_eq_some_iff.mp hcall
    cases op with
    | mbr op => exact h.execMember hsize hsafe hexec
    | lookup phv ingressLength ingressTsMs =>
      obtain ⟨⟨⟨actionEntry, handle⟩, t₁⟩, hlookup, heq⟩ := Option.map_eq_some_iff.mp hexec
      cases heq
      obtain ⟨res, mu, hmu, rfl, -, -⟩ := lookup_executes hlookup
      exact h.withUnit (h.unit.lookup hsize hmu)
    | resetState =>
      obtain ⟨t₁, hreset, heq⟩ := Option.map_eq_some_iff.mp hexec
      cases heq
      exact h.resetState hsize hreset

end MatchTableIndirect

/-! ## Runs of tables of groups -/

namespace IndirectIndexRefCount

variable {rc rc' : IndirectIndexRefCount} {index : IndirectIndex}

/-- Neither array gets longer or shorter. -/
def SameLength (rc rc' : IndirectIndexRefCount) : Prop := rc'.grpCount.length = rc.grpCount.length

theorem sameLength_withCounts {v : List ℕ} (hv : v.length = (rc.counts index).length) :
    rc.SameLength (rc.withCounts index v) := by
  rw [SameLength, withCounts]
  rw [counts] at hv
  split
  · rfl
  next hmbr => rwa [if_neg hmbr] at hv

theorem sameLength_increase (h : rc.increase index = some rc') : rc.SameLength rc' := by
  obtain ⟨c, -, heq⟩ := Option.bind_eq_some_iff.mp h
  cases heq
  exact sameLength_withCounts List.length_set

theorem sameLength_decrease (h : rc.decrease index = some rc') : rc.SameLength rc' := by
  obtain ⟨c, -, heq⟩ := Option.bind_eq_some_iff.mp h
  cases heq
  exact sameLength_withCounts List.length_set

theorem sameLength_decreaseMembers {mbrs : List ℕ} (h : MatchTableIndirectWS.decreaseMembers rc mbrs = some rc') :
    rc.SameLength rc' := by
  induction mbrs generalizing rc with
  | nil =>
    cases h
    rfl
  | cons mbr mbrs ih =>
    obtain ⟨rc₁, hrc₁, h⟩ := Option.bind_eq_some_iff.mp h
    obtain ⟨index, -, hrc₁⟩ := Option.bind_eq_some_iff.mp hrc₁
    exact (ih h).trans (sameLength_decrease hrc₁)

/-- A count is set: that of a member leaves the other array alone. -/
theorem length_set {x : Target} (hx : x.index = some index) {value : ℕ} (h : rc.set index value = some rc') :
    rc'.grpCount.length = match x with
      | .mbr _ => rc.grpCount.length
      | .grp g => max rc.grpCount.length (g + 1) := by
  obtain ⟨v, hv, rfl⟩ := Option.map_eq_some_iff.mp h
  obtain ⟨hid, hmbr, -⟩ := Target.index_spec hx
  have hlength := length_putAt hv
  cases x <;> simp_all [withCounts, counts, Target.num]

end IndirectIndexRefCount

namespace MatchTableIndirectWS

/-- Where the groups are.  A reset forgets the groups and not their handles, so handles may be left over, which
no operation gets rid of. -/
structure GroupsStored (t : MatchTableIndirectWS K S) : Prop where
  handles : ∀ grp ∈ t.grpHandles, grp < 2 ^ 24
  bound : t.groups.length ≤ 2 ^ 24
  counts : t.indexRefCount.grpCount.length = t.groups.length
  numGroups : t.numGroups = (t.grpHandles.filter (· < t.groups.length)).card

/-- What a dump of the table needs. -/
structure DumpInv (cfg : NextTables) (fs : List KeyField) (t new : MatchTableIndirectWS K S) : Prop
    extends t.toMatchTableIndirect.DumpInv cfg fs new.toMatchTableIndirect where
  groups : t.GroupsStored

variable {cfg : NextTables} {new t t' : MatchTableIndirectWS K S}

omit [Inhabited K] [MatchKey K] [LookupStructure K S] [LawfulLookup K S] in
theorem GroupsStored.of_same (h : t.GroupsStored) (hhandles : t'.grpHandles = t.grpHandles)
    (hlength : t'.groups.length = t.groups.length) (hnum : t'.numGroups = t.numGroups)
    (hcounts : t.indexRefCount.SameLength t'.indexRefCount) : t'.GroupsStored :=
  ⟨fun grp hgrp => h.handles grp (hhandles ▸ hgrp), hlength ▸ h.bound, (hcounts.trans h.counts).trans hlength.symm, by
    rw [hnum, h.numGroups, hhandles, hlength]⟩

omit [Inhabited K] [LawfulLookup K S] in
/-- An operation on members and entries. -/
theorem GroupsStored.of_memberEffect (h : t.GroupsStored) {base : MatchTableIndirect K S} {op : MemberOp}
    {r : TableResult} (heffect : MemberEffect t.toMatchTableIndirect base op r) :
    ({ t with toMatchTableIndirect := base } : MatchTableIndirectWS K S).GroupsStored := by
  cases heffect with
  | memberAdded hmbr hindex hput hrc ht' =>
    exact ht' ▸ h.of_same rfl rfl rfl (IndirectIndexRefCount.length_set hindex hrc)
  | entryAdded hmem hindex hrc hadd ht' =>
    exact ht' ▸ h.of_same rfl rfl rfl (IndirectIndexRefCount.sameLength_increase hrc)
  | entryDeleted hvalue hrc hdelete ht' =>
    exact ht' ▸ h.of_same rfl rfl rfl (IndirectIndexRefCount.sameLength_decrease hrc)
  | entryModified hvalue hdec hmem hindex hinc hmodify ht' =>
    exact ht' ▸ h.of_same rfl rfl rfl ((IndirectIndexRefCount.sameLength_increase hinc).trans
      (IndirectIndexRefCount.sameLength_decrease hdec))
  | entryLost hvalue hdec hmem ht' =>
    exact ht' ▸ h.of_same rfl rfl rfl (IndirectIndexRefCount.sameLength_decrease hdec)
  | abstract hexec ht' => exact ht' ▸ h.of_same rfl rfl rfl rfl
  | refused hevent ht' => exact ht' ▸ h
  | memberDeleted hmem hcount ht' => exact ht' ▸ h.of_same rfl rfl rfl rfl
  | memberModified hmem ht' => exact ht' ▸ h.of_same rfl rfl rfl rfl
  | defaultSet hmem hindex ht' => exact ht' ▸ h.of_same rfl rfl rfl rfl

omit [LawfulLookup K S] in
/-- **Step lemma**, of the groups. -/
theorem GroupsStored.of_effect (h : t.GroupsStored) {op : IndirectWSOp} {r : TableResult}
    (heffect : GroupEffect t t' op r) : t'.GroupsStored := by
  cases heffect with
  | mbr heffect ht' => exact ht' ▸ h.of_memberEffect heffect
  | @groupCreated grp index groups rc hgrp hput hindex hrc ht' =>
    subst ht'
    have hmask : IndirectIndex.indexMask = 2 ^ 24 - 1 := rfl
    have hlow : lowestFree t.grpHandles ≤ 2 ^ 24 := MatchTableIndirect.le_of_lowestFree h.handles
    have hbound := h.bound
    rw [Nat.mod_eq_of_lt (by omega)] at hgrp
    subst hgrp
    have hle : lowestFree t.grpHandles ≤ IndirectIndex.indexMask :=
      (Target.isSome_index (x := .grp (lowestFree t.grpHandles))).mp (by rw [hindex]; rfl)
    have hlength := length_putAt hput
    obtain ⟨hput', -⟩ := putAt_eq_some.mp hput
    refine ⟨fun grp hmem => ?_, by rw [hlength]; omega, ?_, ?_⟩
    · rcases Finset.mem_insert.mp hmem with rfl | hmem
      · omega
      · exact h.handles grp hmem
    · dsimp only
      rw [IndirectIndexRefCount.length_set hindex hrc, hlength, h.counts]
    · -- no handle left over is the one that is given out
      have hfilter : (insert (lowestFree t.grpHandles) t.grpHandles).filter (· < groups.length) =
          insert (lowestFree t.grpHandles) (t.grpHandles.filter (· < t.groups.length)) := by
        rw [hlength]
        ext g
        have hnot := lowestFree_notMem t.grpHandles
        simp only [Finset.mem_filter, Finset.mem_insert]
        constructor
        · rintro ⟨rfl | hg, hlt⟩
          · exact .inl rfl
          · have hne : g ≠ lowestFree t.grpHandles := fun heq => hnot (heq ▸ hg)
            exact .inr ⟨hg, by omega⟩
        · rintro (rfl | ⟨hg, hlt⟩)
          · exact ⟨.inl rfl, by omega⟩
          · exact ⟨.inr hg, by omega⟩
      dsimp only
      rw [hfilter, Finset.card_insert_of_notMem (fun hmem => lowestFree_notMem _ (Finset.mem_of_mem_filter _ hmem)),
        h.numGroups]
  | @groupDeleted grp mbrs rc hmem hcount hmbrs hrc ht' =>
    subst ht'
    have hlt : grp < t.groups.length := (List.getElem?_eq_some_iff.mp hmbrs).1
    refine ⟨fun g hg => h.handles g (Finset.mem_of_mem_erase hg), h.bound,
      (IndirectIndexRefCount.sameLength_decreaseMembers hrc).trans h.counts, ?_⟩
    dsimp only
    rw [Finset.filter_erase, Finset.card_erase_of_mem (Finset.mem_filter.mpr ⟨hmem, hlt⟩), h.numGroups]
  | mbrPut hmbr hgrp hmbrs hnew hindex hrc ht' =>
    exact ht' ▸ h.of_same rfl List.length_set rfl (IndirectIndexRefCount.sameLength_increase hrc)
  | mbrTaken hmbr hgrp hmbrs hold hindex hrc ht' =>
    exact ht' ▸ h.of_same rfl List.length_set rfl (IndirectIndexRefCount.sameLength_decrease hrc)
  | entryAdded hmem hmbrs hne hindex hrc hadd ht' =>
    exact ht' ▸ h.of_same rfl rfl rfl (IndirectIndexRefCount.sameLength_increase hrc)
  | entryModified hvalue hdec hmem hmbrs hne hindex hinc hmodify ht' =>
    exact ht' ▸ h.of_same rfl rfl rfl ((IndirectIndexRefCount.sameLength_increase hinc).trans
      (IndirectIndexRefCount.sameLength_decrease hdec))
  | entryLost hvalue hdec hbad ht' =>
    exact ht' ▸ h.of_same rfl rfl rfl (IndirectIndexRefCount.sameLength_decrease hdec)
  | refused hevent ht' => exact ht' ▸ h
  | defaultSet hmem hindex ht' => exact ht' ▸ h.of_same rfl rfl rfl rfl
  | lookup hsame ht' => exact ht' ▸ h.of_same rfl rfl rfl rfl
  | reset hreset ht' =>
    obtain ⟨mu, -, hreset⟩ := Option.bind_eq_some_iff.mp hreset
    cases hreset
    subst ht'
    exact ⟨h.handles, Nat.zero_le _, rfl, by simp⟩

/-- The same for a call. -/
def CallSafe (t : MatchTableIndirectWS K S) : IndirectWSOp ⊕ PacketIn → Prop
  | .inl (.mbr op) => t.toMatchTableIndirect.DeletesSafely op
  | _ => True

/-- **Step lemma** of a table of groups. -/
theorem DumpInv.call (h : t.DumpInv cfg fs new) (hsize : new.matchUnit.size ≤ 2 ^ 24) {op : IndirectWSOp ⊕ PacketIn}
    (hsafe : t.CallSafe op) (hcall : t.call op = some t') : t'.DumpInv cfg fs new := by
  have hnext := nextInv_call h.next hcall
  cases op with
  | inr pkt =>
    obtain ⟨⟨r, t₁⟩, happly, rfl⟩ := Option.map_eq_some_iff.mp hcall
    obtain ⟨⟨⟨actionEntry, handle⟩, t₂⟩, hlookup, happly⟩ := Option.bind_eq_some_iff.mp happly
    obtain ⟨⟨r, base⟩, hfinish, happly⟩ := Option.bind_eq_some_iff.mp happly
    cases happly
    obtain ⟨res, mu, hmu, rfl, -, -⟩ := lookup_executes hlookup
    refine ⟨⟨(h.unit.lookup hsize hmu).of_same (finishApply_same hfinish).2 ?_, hnext, h.members.of_same rfl rfl rfl⟩,
      h.groups.of_same rfl rfl rfl rfl⟩
    exact congrArg _ (MatchTableAbstract.finishApply_meta hfinish)
  | inl op =>
    obtain ⟨⟨r, t₁⟩, hexec, rfl⟩ := Option.map_eq_some_iff.mp hcall
    have heffect := exec_effect hexec
    have hgroups := h.groups.of_effect heffect
    cases op with
    | mbr op =>
      obtain ⟨⟨r₀, base⟩, hbase, heq⟩ := Option.map_eq_some_iff.mp hexec
      cases heq
      exact ⟨h.toDumpInv.execMember hsize hsafe hbase, hgroups⟩
    | lookup phv ingressLength ingressTsMs hash =>
      obtain ⟨⟨⟨actionEntry, handle⟩, t₁⟩, hlookup, heq⟩ := Option.map_eq_some_iff.mp hexec
      cases heq
      obtain ⟨res, mu, hmu, rfl, -, -⟩ := lookup_executes hlookup
      exact ⟨h.toDumpInv.withUnit (h.unit.lookup hsize hmu), hgroups⟩
    | resetState =>
      obtain ⟨t₁, hreset, heq⟩ := Option.map_eq_some_iff.mp hexec
      cases heq
      obtain ⟨base, hbase, hreset⟩ := Option.bind_eq_some_iff.mp hreset
      cases hreset
      exact ⟨h.toDumpInv.resetState hsize hbase, hgroups⟩
    | _ =>
      -- the operations on groups leave the members alone
      refine ⟨⟨?_, hnext, ?_⟩, hgroups⟩
      · rcases heffect with _ | _ | _ | _ | _ | _ | _ | _ | _ | _ | _ | _ <;> subst_vars <;>
          first | exact h.unit | exact h.unit.addEntry hsize ‹_› | exact h.unit.modifyEntry hsize ‹_›
      · rcases heffect with _ | _ | _ | _ | _ | _ | _ | _ | _ | _ | _ | _ <;> subst_vars <;>
          exact h.members.of_same rfl rfl rfl

end MatchTableIndirectWS

end Calls

end Bm
