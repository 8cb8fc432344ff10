/-
# Indirect match tables

`MatchTableIndirect` and `MatchTableIndirectWS` (`match_tables.h`, `match_tables.cpp`).
The entries of an indirect table carry an index: of a member, which is an action entry,
or, in a table with selection, of a group of members.  Members and groups have handles,
and a reference count that deletion looks at.

A group is a finite set of members (`ras.h`); the members of a group are numbered in
increasing order.  The group selector is the one that the table comes with.
-/
import Bmv2.MatchTables

namespace Bm

/-- Writing to an array at an index that is in range or just behind the end; a failed
assertion otherwise. -/
def putAt {α : Type} (v : List α) (i : ℕ) (x : α) : Option (List α) :=
  if i ≤ v.length then some (if i = v.length then v ++ [x] else v.set i x) else none

/-! ## Indices -/

/-- `IndirectIndex`: the high 8 bits tell members from groups. -/
structure IndirectIndex where
  index : ℕ := 0
  deriving DecidableEq

instance : Inhabited IndirectIndex := ⟨{}⟩

namespace IndirectIndex

/-- `_index_mask`. -/
def indexMask : ℕ := 0x00ffffff

/-- `is_mbr`. -/
def isMbr (i : IndirectIndex) : Bool := i.index >>> 24 = 0x00

/-- `is_grp`. -/
def isGrp (i : IndirectIndex) : Bool := i.index >>> 24 = 0x01

/-- `get`. -/
def get (i : IndirectIndex) : ℕ := i.index &&& indexMask

/-- `get_mbr`. -/
def getMbr (i : IndirectIndex) : Option ℕ := if i.isMbr then some i.get else none

/-- `get_grp`. -/
def getGrp (i : IndirectIndex) : Option ℕ := if i.isGrp then some i.get else none

/-- `make_mbr_index`. -/
def makeMbrIndex (index : ℕ) : Option IndirectIndex :=
  if index ≤ indexMask then some ⟨(0x00 <<< 24) ||| index⟩ else none

/-- `make_grp_index`. -/
def makeGrpIndex (index : ℕ) : Option IndirectIndex :=
  if index ≤ indexMask then some ⟨(0x01 <<< 24) ||| index⟩ else none

/-- The member and the group that an entry of a table with groups reports. -/
def mbrAndGrp (i : IndirectIndex) : Option (ℕ × ℕ) :=
  if i.isMbr then i.getMbr.map fun mbr => (mbr, 2 ^ 32 - 1)
  else i.getGrp.map fun grp => (2 ^ 32 - 1, grp)

end IndirectIndex

/-- `IndirectIndexRefCount`, two arrays of 32-bit counts. -/
structure IndirectIndexRefCount where
  mbrCount : List ℕ := []
  grpCount : List ℕ := []
  deriving DecidableEq

namespace IndirectIndexRefCount

variable (rc : IndirectIndexRefCount)

/-- The array that counts an index. -/
def counts (index : IndirectIndex) : List ℕ := if index.isMbr then rc.mbrCount else rc.grpCount

/-- The counts with another array for an index. -/
def withCounts (index : IndirectIndex) (v : List ℕ) : IndirectIndexRefCount :=
  if index.isMbr then { rc with mbrCount := v } else { rc with grpCount := v }

/-- `set`. -/
def set (index : IndirectIndex) (value : ℕ) : Option IndirectIndexRefCount :=
  (putAt (rc.counts index) index.get value).map (rc.withCounts index)

/-- `get`. -/
def get (index : IndirectIndex) : Option ℕ := (rc.counts index)[index.get]?

/-- `increase`. -/
def increase (index : IndirectIndex) : Option IndirectIndexRefCount := do
  let count ← rc.get index
  pure (rc.withCounts index ((rc.counts index).set index.get ((count + 1) % 2 ^ 32)))

/-- `decrease`. -/
def decrease (index : IndirectIndex) : Option IndirectIndexRefCount := do
  let count ← rc.get index
  pure (rc.withCounts index ((rc.counts index).set index.get ((count + (2 ^ 32 - 1)) % 2 ^ 32)))

end IndirectIndexRefCount

/-! ## Tables of members -/

/-- `MatchTableIndirect`. -/
structure MatchTableIndirect (K S : Type) extends MatchTableAbstract K IndirectIndex S where
  defaultIndex : IndirectIndex := {}
  indexRefCount : IndirectIndexRefCount := {}
  mbrHandles : HandleMgr := ∅
  actionEntries : List ActionEntry := []
  defaultSet : Bool := false
  emptyAction : ActionEntry := {}
  numMembers : ℕ := 0

/-- `MatchTableIndirect::Entry`. -/
structure IndirectEntry extends EntryCommon where
  matchKey : List MatchKeyParam
  mbr : ℕ
  priority : Int32
  deriving DecidableEq

namespace MatchTableIndirect

variable {K S : Type} [MatchKey K] [LookupStructure K S] (t : MatchTableIndirect K S)

/-- The table with another match unit. -/
def withUnit (matchUnit : MatchUnit K IndirectIndex S) : MatchTableIndirect K S := { t with matchUnit }

/-- `MatchTableIndirect::create`. -/
def create [Inhabited K] (size : ℕ) (keyBuilder : MatchKeyBuilder) (withCounters withAgeing : Bool) :
    Option (MatchTableIndirect K S) := do
  let matchUnit ← MatchUnit.create size keyBuilder
  pure { matchUnit, withCounters, withAgeing }

/-- `is_valid_mbr`. -/
def isValidMbr (mbr : ℕ) : Bool := decide (mbr ∈ t.mbrHandles)

/-- `lookup`: the action entry, and the handle of the entry that was hit. -/
def lookup (phv : PHV) (ingressLength ingressTsMs : ℕ) :
    Option ((ActionEntry × Option ℕ) × MatchTableIndirect K S) := do
  let (res, matchUnit) ← t.matchUnit.lookup phv ingressLength ingressTsMs
  let t := t.withUnit matchUnit
  if res.isNone ∧ !t.defaultSet then pure ((t.emptyAction, none), t)
  else
    let mbr ← ((res.map MatchUnitLookup.value).getD t.defaultIndex).getMbr
    if t.isValidMbr mbr then do
      let actionEntry ← t.actionEntries[mbr]?
      pure ((actionEntry, res.map MatchUnitLookup.handle), t)
    else none

/-- `entries_insert`. -/
def entriesInsert (mbr : ℕ) (entry : ActionEntry) : Option (MatchTableIndirect K S) := do
  let actionEntries ← putAt t.actionEntries mbr entry
  let index ← IndirectIndex.makeMbrIndex mbr
  let indexRefCount ← t.indexRefCount.set index 0
  pure { t with actionEntries, indexRefCount }

/-- `add_member`: the result is the handle of the member. -/
def addMember (actionFn : ℕ) (actionData : List ℕ) :
    Option (Except MatchErrorCode ℕ × MatchTableIndirect K S) := do
  let nextNode ← t.getNextNode actionFn
  match t.mbrHandles.getHandle with
  | none => pure (.error .error, t)
  | some (mbr, mbrHandles) =>
    let mbr := mbr % 2 ^ 32
    let t ← entriesInsert { t with mbrHandles } mbr ⟨⟨some actionFn, actionData⟩, nextNode⟩
    pure (.ok mbr, { t with numMembers := t.numMembers + 1 })

/-- `delete_member`. -/
def deleteMember (mbr : ℕ) : Option (Except MatchErrorCode Unit × MatchTableIndirect K S) :=
  if !t.isValidMbr mbr then some (.error .invalidMbrHandle, t)
  else do
    let index ← IndirectIndex.makeMbrIndex mbr
    let count ← t.indexRefCount.get index
    if 0 < count then pure (.error .mbrStillUsed, t)
    else
      let mbrHandles ← t.mbrHandles.releaseHandle mbr
      pure (.ok (), { t with mbrHandles, numMembers := t.numMembers - 1 })

/-- `modify_member`. -/
def modifyMember (mbr actionFn : ℕ) (actionData : List ℕ) :
    Option (Except MatchErrorCode Unit × MatchTableIndirect K S) := do
  let nextNode ← t.getNextNode actionFn
  if !t.isValidMbr mbr then pure (.error .invalidMbrHandle, t)
  else if mbr < t.actionEntries.length then
    pure (.ok (), { t with
      actionEntries := t.actionEntries.set mbr ⟨⟨some actionFn, actionData⟩, nextNode⟩ })
  else none

/-- `add_entry`: the member is counted before the entry is added. -/
def addEntry (matchKey : List MatchKeyParam) (mbr : ℕ) (priority : Int32) (now : ℕ) :
    Option (Except MatchErrorCode ℕ × MatchTableIndirect K S) :=
  if !t.isValidMbr mbr then some (.error .invalidMbrHandle, t)
  else do
    let index ← IndirectIndex.makeMbrIndex mbr
    let indexRefCount ← t.indexRefCount.increase index
    let (res, matchUnit) ← t.matchUnit.addEntry matchKey index priority now
    pure (res, { t with indexRefCount, matchUnit })

/-- `delete_entry`. -/
def deleteEntry (handle : ℕ) : Option (Except MatchErrorCode Unit × MatchTableIndirect K S) := do
  match ← t.matchUnit.getValue handle with
  | .error code => pure (.error code, t)
  | .ok index =>
    let indexRefCount ← t.indexRefCount.decrease index
    let (res, matchUnit) ← t.matchUnit.deleteEntry handle
    pure (res, { t with indexRefCount, matchUnit })

/-- `modify_entry`: the old member is no longer counted when the new one turns out to be
invalid. -/
def modifyEntry (handle mbr : ℕ) :
    Option (Except MatchErrorCode Unit × MatchTableIndirect K S) := do
  match ← t.matchUnit.getValue handle with
  | .error code => pure (.error code, t)
  | .ok index =>
    let indexRefCount ← t.indexRefCount.decrease index
    if !t.isValidMbr mbr then pure (.error .invalidMbrHandle, { t with indexRefCount })
    else do
      let newIndex ← IndirectIndex.makeMbrIndex mbr
      let indexRefCount ← indexRefCount.increase newIndex
      let (res, matchUnit) ← t.matchUnit.modifyEntry handle newIndex
      pure (res, { t with indexRefCount, matchUnit })

/-- `set_default_member`. -/
def setDefaultMember (mbr : ℕ) : Option (Except MatchErrorCode Unit × MatchTableIndirect K S) :=
  if !t.isValidMbr mbr then some (.error .invalidMbrHandle, t)
  else do
    let defaultIndex ← IndirectIndex.makeMbrIndex mbr
    pure (.ok (), { t with defaultIndex, defaultSet := true })

/-- `get_entry`. -/
def getEntry (handle now : ℕ) : Option (Except MatchErrorCode IndirectEntry) := do
  match ← t.matchUnit.getEntry handle with
  | .error code => pure (.error code)
  | .ok (matchKey, index, priority) =>
    let mbr ← index.getMbr
    let common ← t.entryCommonInfo handle now
    pure (.ok { common with matchKey, mbr, priority })

/-- `reset_state_`: the default member stays. -/
def resetState [Inhabited K] : Option (MatchTableIndirect K S) := do
  let matchUnit ← t.matchUnit.resetState
  pure { t with
    indexRefCount := {}, mbrHandles := ∅, actionEntries := [], numMembers := 0, matchUnit }

end MatchTableIndirect

/-- The operations that change a `MatchTableIndirect`, also as part of a table with groups. -/
inductive MemberOp where
  | abstract (op : AbstractOp)
  | addMember (actionFn : ℕ) (actionData : List ℕ)
  | deleteMember (mbr : ℕ)
  | modifyMember (mbr actionFn : ℕ) (actionData : List ℕ)
  | addEntry (matchKey : List MatchKeyParam) (mbr : ℕ) (priority : Int32) (now : ℕ)
  | deleteEntry (handle : ℕ)
  | modifyEntry (handle mbr : ℕ)
  | setDefaultMember (mbr : ℕ)

/-- The operations that change a `MatchTableIndirect`. -/
inductive IndirectOp where
  | mbr (op : MemberOp)
  | lookup (phv : PHV) (ingressLength ingressTsMs : ℕ)
  | resetState

namespace MatchTableIndirect

variable {K S : Type} [MatchKey K] [LookupStructure K S] (t : MatchTableIndirect K S)

/-- One operation on members and entries. -/
def execMember : MemberOp → Option (TableResult × MatchTableIndirect K S)
  | .abstract op =>
      (t.toMatchTableAbstract.exec op).map fun (res, base) =>
        (res, { t with toMatchTableAbstract := base })
  | .addMember actionFn actionData =>
      (t.addMember actionFn actionData).map fun (res, t) => (.handle res, t)
  | .deleteMember mbr => (t.deleteMember mbr).map fun (res, t) => (.done res, t)
  | .modifyMember mbr actionFn actionData =>
      (t.modifyMember mbr actionFn actionData).map fun (res, t) => (.done res, t)
  | .addEntry matchKey mbr priority now =>
      (t.addEntry matchKey mbr priority now).map fun (res, t) => (.handle res, t)
  | .deleteEntry handle => (t.deleteEntry handle).map fun (res, t) => (.done res, t)
  | .modifyEntry handle mbr => (t.modifyEntry handle mbr).map fun (res, t) => (.done res, t)
  | .setDefaultMember mbr => (t.setDefaultMember mbr).map fun (res, t) => (.done res, t)

/-- One operation on the table. -/
def exec [Inhabited K] : IndirectOp → Option (TableResult × MatchTableIndirect K S)
  | .mbr op => t.execMember op
  | .lookup phv ingressLength ingressTsMs =>
      (t.lookup phv ingressLength ingressTsMs).map fun ((actionEntry, handle), t) =>
        (.found actionEntry handle, t)
  | .resetState => t.resetState.map fun t => (.done (.ok ()), t)

/-- The table that an operation leaves. -/
def step [Inhabited K] (t : MatchTableIndirect K S) (op : IndirectOp) :
    Option (MatchTableIndirect K S) :=
  (t.exec op).map Prod.snd

end MatchTableIndirect

/-! ## Tables of members and groups -/

/-- `MatchTableIndirectWS`. -/
structure MatchTableIndirectWS (K S : Type) extends MatchTableIndirect K S where
  grpHandles : HandleMgr := ∅
  numGroups : ℕ := 0
  groups : List (Finset ℕ) := []

/-- `MatchTableIndirectWS::Entry`; the index that is not used is the largest number. -/
structure IndirectWSEntry extends EntryCommon where
  matchKey : List MatchKeyParam
  mbr : ℕ
  grp : ℕ
  priority : Int32
  deriving DecidableEq

namespace MatchTableIndirectWS

variable {K S : Type} [MatchKey K] [LookupStructure K S] (t : MatchTableIndirectWS K S)

/-- The table with another match unit. -/
def withUnit (matchUnit : MatchUnit K IndirectIndex S) : MatchTableIndirectWS K S := { t with matchUnit }

/-- `MatchTableIndirectWS::create`. -/
def create [Inhabited K] (size : ℕ) (keyBuilder : MatchKeyBuilder) (withCounters withAgeing : Bool) :
    Option (MatchTableIndirectWS K S) := do
  let matchUnit ← MatchUnit.create size keyBuilder
  pure { matchUnit, withCounters, withAgeing }

/-- `is_valid_grp`. -/
def isValidGrp (grp : ℕ) : Bool := decide (grp ∈ t.grpHandles)

/-- `GroupMgr::group_size`. -/
def groupSize (grp : ℕ) : Option ℕ := (t.groups[grp]?).map Finset.card

/-- `GroupMgr::get_from_hash`. -/
def getFromHash (grp h : ℕ) : Option ℕ := do
  let mbrs ← t.groups[grp]?
  if mbrs.card = 0 then none else (mbrs.sort (· ≤ ·))[h % mbrs.card]?

/-- The part of `lookup` that follows an index to a member. -/
def followIndex (index : IndirectIndex) (h : ℕ) : Option ℕ :=
  if index.isMbr then index.getMbr
  else do
    let grp ← index.getGrp
    if t.isValidGrp grp then t.getFromHash grp h else none

/-- `lookup`; `h` is the hash of the packet, which is 0 for a table without a hash
calculation. -/
def lookup (phv : PHV) (ingressLength ingressTsMs h : ℕ) :
    Option ((ActionEntry × Option ℕ) × MatchTableIndirectWS K S) := do
  let (res, matchUnit) ← t.matchUnit.lookup phv ingressLength ingressTsMs
  let t := t.withUnit matchUnit
  if res.isNone ∧ !t.defaultSet then pure ((t.emptyAction, none), t)
  else
    let mbr ← t.followIndex ((res.map MatchUnitLookup.value).getD t.defaultIndex) h
    if t.isValidMbr mbr then do
      let actionEntry ← t.actionEntries[mbr]?
      pure ((actionEntry, res.map MatchUnitLookup.handle), t)
    else none

/-- `create_group`: the result is the handle of the group. -/
def createGroup : Option (Except MatchErrorCode ℕ × MatchTableIndirectWS K S) :=
  match t.grpHandles.getHandle with
  | none => some (.error .error, t)
  | some (grp, grpHandles) => do
    let grp := grp % 2 ^ 32
    let groups ← putAt t.groups grp ∅
    let index ← IndirectIndex.makeGrpIndex grp
    let indexRefCount ← t.indexRefCount.set index 0
    pure (.ok grp, { t with grpHandles, groups, indexRefCount, numGroups := t.numGroups + 1 })

/-- The loop of `delete_group` over the members. -/
def decreaseMembers (rc : IndirectIndexRefCount) (mbrs : List ℕ) : Option IndirectIndexRefCount :=
  mbrs.foldlM (fun rc mbr => do
    let index ← IndirectIndex.makeMbrIndex mbr
    rc.decrease index) rc

/-- `delete_group`. -/
def deleteGroup (grp : ℕ) : Option (Except MatchErrorCode Unit × MatchTableIndirectWS K S) :=
  if !t.isValidGrp grp then some (.error .invalidGrpHandle, t)
  else do
    let index ← IndirectIndex.makeGrpIndex grp
    let count ← t.indexRefCount.get index
    if 0 < count then pure (.error .grpStillUsed, t)
    else
      let mbrs ← t.groups[grp]?
      let indexRefCount ← decreaseMembers t.indexRefCount (mbrs.sort (· ≤ ·))
      let grpHandles ← t.grpHandles.releaseHandle grp
      pure (.ok (), { t with indexRefCount, grpHandles, numGroups := t.numGroups - 1 })

/-- `add_member_to_group`. -/
def addMemberToGroup (mbr grp : ℕ) :
    Option (Except MatchErrorCode Unit × MatchTableIndirectWS K S) :=
  if !t.isValidMbr mbr then some (.error .invalidMbrHandle, t)
  else if !t.isValidGrp grp then some (.error .invalidGrpHandle, t)
  else do
    let mbrs ← t.groups[grp]?
    if mbr ∈ mbrs then pure (.error .mbrAlreadyInGrp, t)
    else
      let index ← IndirectIndex.makeMbrIndex mbr
      let indexRefCount ← t.indexRefCount.increase index
      pure (.ok (), { t with groups := t.groups.set grp (insert mbr mbrs), indexRefCount })

/-- `remove_member_from_group`. -/
def removeMemberFromGroup (mbr grp : ℕ) :
    Option (Except MatchErrorCode Unit × MatchTableIndirectWS K S) :=
  if !t.isValidMbr mbr then some (.error .invalidMbrHandle, t)
  else if !t.isValidGrp grp then some (.error .invalidGrpHandle, t)
  else do
    let mbrs ← t.groups[grp]?
    if mbr ∈ mbrs then
      let index ← IndirectIndex.makeMbrIndex mbr
      let indexRefCount ← t.indexRefCount.decrease index
      pure (.ok (), { t with groups := t.groups.set grp (mbrs.erase mbr), indexRefCount })
    else pure (.error .mbrNotInGrp, t)

/-- `add_entry_ws`. -/
def addEntryWS (matchKey : List MatchKeyParam) (grp : ℕ) (priority : Int32) (now : ℕ) :
    Option (Except MatchErrorCode ℕ × MatchTableIndirectWS K S) :=
  if !t.isValidGrp grp then some (.error .invalidGrpHandle, t)
  else do
    if (← t.groupSize grp) = 0 then pure (.error .emptyGrp, t)
    else
      let index ← IndirectIndex.makeGrpIndex grp
      let indexRefCount ← t.indexRefCount.increase index
      let (res, matchUnit) ← t.matchUnit.addEntry matchKey index priority now
      pure (res, { t with indexRefCount, matchUnit })

/-- `modify_entry_ws`. -/
def modifyEntryWS (handle grp : ℕ) :
    Option (Except MatchErrorCode Unit × MatchTableIndirectWS K S) := do
  match ← t.matchUnit.getValue handle with
  | .error code => pure (.error code, t)
  | .ok index =>
    let indexRefCount ← t.indexRefCount.decrease index
    if !t.isValidGrp grp then pure (.error .invalidGrpHandle, { t with indexRefCount })
    else if (← t.groupSize grp) = 0 then pure (.error .emptyGrp, { t with indexRefCount })
    else
      let newIndex ← IndirectIndex.makeGrpIndex grp
      let indexRefCount ← indexRefCount.increase newIndex
      let (res, matchUnit) ← t.matchUnit.modifyEntry handle newIndex
      pure (res, { t with indexRefCount, matchUnit })

/-- `set_default_group`: an empty group will do. -/
def setDefaultGroup (grp : ℕ) : Option (Except MatchErrorCode Unit × MatchTableIndirectWS K S) :=
  if !t.isValidGrp grp then some (.error .invalidGrpHandle, t)
  else do
    let defaultIndex ← IndirectIndex.makeGrpIndex grp
    pure (.ok (), { t with defaultIndex, defaultSet := true })

/-- `get_entry`. -/
def getEntry (handle now : ℕ) : Option (Except MatchErrorCode IndirectWSEntry) := do
  match ← t.matchUnit.getEntry handle with
  | .error code => pure (.error code)
  | .ok (matchKey, index, priority) =>
    let (mbr, grp) ← index.mbrAndGrp
    let common ← t.entryCommonInfo handle now
    pure (.ok { common with matchKey, mbr, grp, priority })

/-- `reset_state_`: the handles of the groups stay in use. -/
def resetState [Inhabited K] : Option (MatchTableIndirectWS K S) := do
  let toMatchTableIndirect ← t.toMatchTableIndirect.resetState
  pure { t with toMatchTableIndirect, numGroups := 0, groups := [] }

end MatchTableIndirectWS

/-- The operations that change a `MatchTableIndirectWS`. -/
inductive IndirectWSOp where
  | mbr (op : MemberOp)
  | createGroup
  | deleteGroup (grp : ℕ)
  | addMemberToGroup (mbr grp : ℕ)
  | removeMemberFromGroup (mbr grp : ℕ)
  | addEntryWS (matchKey : List MatchKeyParam) (grp : ℕ) (priority : Int32) (now : ℕ)
  | modifyEntryWS (handle grp : ℕ)
  | setDefaultGroup (grp : ℕ)
  | lookup (phv : PHV) (ingressLength ingressTsMs h : ℕ)
  | resetState

/-- One operation on the table. -/
def MatchTableIndirectWS.exec {K S : Type} [Inhabited K] [MatchKey K] [LookupStructure K S]
    (t : MatchTableIndirectWS K S) : IndirectWSOp → Option (TableResult × MatchTableIndirectWS K S)
  | .mbr op =>
      (t.toMatchTableIndirect.execMember op).map fun (res, base) =>
        (res, { t with toMatchTableIndirect := base })
  | .createGroup => t.createGroup.map fun (res, t) => (.handle res, t)
  | .deleteGroup grp => (t.deleteGroup grp).map fun (res, t) => (.done res, t)
  | .addMemberToGroup mbr grp => (t.addMemberToGroup mbr grp).map fun (res, t) => (.done res, t)
  | .removeMemberFromGroup mbr grp =>
      (t.removeMemberFromGroup mbr grp).map fun (res, t) => (.done res, t)
  | .addEntryWS matchKey grp priority now =>
      (t.addEntryWS matchKey grp priority now).map fun (res, t) => (.handle res, t)
  | .modifyEntryWS handle grp => (t.modifyEntryWS handle grp).map fun (res, t) => (.done res, t)
  | .setDefaultGroup grp => (t.setDefaultGroup grp).map fun (res, t) => (.done res, t)
  | .lookup phv ingressLength ingressTsMs h =>
      (t.lookup phv ingressLength ingressTsMs h).map fun ((actionEntry, handle), t) =>
        (.found actionEntry handle, t)
  | .resetState => t.resetState.map fun t => (.done (.ok ()), t)

/-- The table that an operation leaves. -/
def MatchTableIndirectWS.step {K S : Type} [Inhabited K] [MatchKey K] [LookupStructure K S]
    (t : MatchTableIndirectWS K S) (op : IndirectWSOp) : Option (MatchTableIndirectWS K S) :=
  (t.exec op).map Prod.snd

end Bm
