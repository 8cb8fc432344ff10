/-
# Match tables

`MatchTableAbstract` and `MatchTable` (`match_tables.h`, `match_tables.cpp`): a match unit
with direct counters, meters and ageing, each of which can be off, and the action entries
that the entries of the unit carry.

An action and a control-flow node are numbers here.  As in a match unit, an operation
returns its result and the table it leaves, and `none` when the C++ code would abort.
-/
import Bmv2.MatchUnits

namespace Bm

/-- `ActionFnEntry`: an action with its data; there may be no action. -/
structure ActionFnEntry where
  actionFn : Option ℕ := none
  actionData : List ℕ := []
  deriving DecidableEq

/-- `MatchTableAbstract::ActionEntry`. -/
structure ActionEntry where
  actionFn : ActionFnEntry := {}
  nextNode : Option ℕ := none
  deriving DecidableEq

instance : Inhabited ActionEntry := ⟨{}⟩

/-- `MatchTableAbstract`. -/
structure MatchTableAbstract (K V S : Type) where
  matchUnit : MatchUnit K V S
  withCounters : Bool
  withMeters : Bool := false
  withAgeing : Bool
  nextNodes : ℕ → Option (Option ℕ) := fun _ => none
  nextNodeHit : Option ℕ := none
  nextNodeMiss : Option ℕ := none
  hasNextNodeHit : Bool := false
  hasNextNodeMiss : Bool := false

/-- `EntryCommon`, the part that ageing adds. -/
structure EntryCommon where
  handle : ℕ
  timeoutMs : ℕ := 0
  timeSinceHitMs : ℤ := 0
  deriving DecidableEq

namespace MatchTableAbstract

variable {K V S : Type} (t : MatchTableAbstract K V S)

/-- `get_next_node`: the map must know the action. -/
def getNextNode (actionId : ℕ) : Option (Option ℕ) :=
  if t.hasNextNodeHit then some t.nextNodeHit else t.nextNodes actionId

/-- `get_next_node_default`. -/
def getNextNodeDefault (actionId : ℕ) : Option (Option ℕ) :=
  if t.hasNextNodeMiss then some t.nextNodeMiss else t.nextNodes actionId

/-- `is_valid_handle`. -/
def isValidHandle (handle : ℕ) : Bool := t.matchUnit.validHandle handle

/-- `set_direct_meters`. -/
def setDirectMeters (meterArray : List Meter) : Option (MatchTableAbstract K V S) := do
  let matchUnit ← t.matchUnit.setDirectMeters meterArray
  pure { t with matchUnit, withMeters := true }

/-- `query_counters`: the bytes and the packets. -/
def queryCounters (handle : ℕ) : Option (Except MatchErrorCode (ℕ × ℕ)) :=
  if !t.withCounters then some (.error .countersDisabled)
  else if !t.isValidHandle handle then some (.error .invalidHandle)
  else do
    let entryMeta ← t.matchUnit.getEntryMeta handle
    pure (.ok (entryMeta.counter.bytes, entryMeta.counter.packets))

/-- `reset_counters`. -/
def resetCounters : Except MatchErrorCode Unit × MatchTableAbstract K V S :=
  if !t.withCounters then (.error .countersDisabled, t)
  else (.ok (), { t with matchUnit := t.matchUnit.resetCounters })

/-- `write_counters`. -/
def writeCounters (handle bytes packets : ℕ) :
    Option (Except MatchErrorCode Unit × MatchTableAbstract K V S) :=
  if !t.withCounters then some (.error .countersDisabled, t)
  else if !t.isValidHandle handle then some (.error .invalidHandle, t)
  else do
    let entryMeta ← t.matchUnit.getEntryMeta handle
    let entryMeta := { entryMeta with counter := ⟨bytes, packets⟩ }
    pure (.ok (), { t with matchUnit := { t.matchUnit with
      entryMeta := t.matchUnit.entryMeta.set (handleInternal handle) entryMeta } })

/-- `set_meter_rates`: whatever `set_rates` has done to the meter stays done. -/
def setMeterRates (handle : ℕ) (configs : List RateConfig) :
    Option (Except MatchErrorCode Unit × MatchTableAbstract K V S) :=
  if !t.withMeters then some (.error .metersDisabled, t)
  else if !t.isValidHandle handle then some (.error .invalidHandle, t)
  else do
    let meter ← t.matchUnit.getMeter handle
    let (code, meter) := meter.setRates configs
    let directMeters := t.matchUnit.directMeters.map (·.set (handleInternal handle) meter)
    pure (if code = .success then .ok () else .error .error,
      { t with matchUnit := { t.matchUnit with directMeters } })

/-- `get_meter_rates`. -/
def getMeterRates (handle : ℕ) : Option (Except MatchErrorCode (List RateConfig)) :=
  if !t.withMeters then some (.error .metersDisabled)
  else if !t.isValidHandle handle then some (.error .invalidHandle)
  else do
    let meter ← t.matchUnit.getMeter handle
    pure (.ok meter.getRates)

/-- `set_entry_ttl`. -/
def setEntryTtl (handle ttlMs now : ℕ) :
    Option (Except MatchErrorCode Unit × MatchTableAbstract K V S) :=
  if !t.withAgeing then some (.error .ageingDisabled, t)
  else do
    let (res, matchUnit) ← t.matchUnit.setEntryTtl handle ttlMs now
    pure (res, { t with matchUnit })

/-- `set_entry_common_info`. -/
def entryCommonInfo (handle now : ℕ) : Option EntryCommon :=
  if !t.withAgeing then some { handle }
  else do
    let entryMeta ← t.matchUnit.getEntryMeta handle
    pure { handle, timeoutMs := entryMeta.timeoutMs, timeSinceHitMs := now - entryMeta.ts }

end MatchTableAbstract

/-! ## Operations that all tables share -/

/-- The operations of `MatchTableAbstract` that change a table. -/
inductive AbstractOp where
  | setDirectMeters (meterArray : List Meter)
  | resetCounters
  | writeCounters (handle bytes packets : ℕ)
  | setMeterRates (handle : ℕ) (configs : List RateConfig)
  | setEntryTtl (handle ttlMs now : ℕ)

/-- What an operation on a table returns: the handle of a new entry, member or group, nothing
besides the code, or the action entry that a packet gets and the handle of the entry it hit. -/
inductive TableResult where
  | handle (res : Except MatchErrorCode ℕ)
  | done (res : Except MatchErrorCode Unit)
  | found (actionEntry : ActionEntry) (handle : Option ℕ)

/-- One operation on what all tables share. -/
def MatchTableAbstract.exec {K V S : Type} (t : MatchTableAbstract K V S) :
    AbstractOp → Option (TableResult × MatchTableAbstract K V S)
  | .setDirectMeters meterArray => (t.setDirectMeters meterArray).map fun t => (.done (.ok ()), t)
  | .resetCounters => some (t.resetCounters.map .done id)
  | .writeCounters handle bytes packets =>
      (t.writeCounters handle bytes packets).map fun (res, t) => (.done res, t)
  | .setMeterRates handle configs =>
      (t.setMeterRates handle configs).map fun (res, t) => (.done res, t)
  | .setEntryTtl handle ttlMs now =>
      (t.setEntryTtl handle ttlMs now).map fun (res, t) => (.done res, t)

/-! ## Tables of actions -/

/-- `MatchTable`. -/
structure MatchTable (K S : Type) extends MatchTableAbstract K ActionEntry S where
  defaultEntry : ActionEntry := {}
  constDefaultAction : Option ℕ := none
  constDefaultEntry : Bool := false

/-- `MatchTable::Entry`. -/
structure MatchTableEntry extends EntryCommon where
  matchKey : List MatchKeyParam
  actionFn : Option ℕ
  actionData : List ℕ
  priority : Int32
  deriving DecidableEq

namespace MatchTable

variable {K S : Type} [MatchKey K] [LookupStructure K S] (t : MatchTable K S)

/-- The table with another match unit. -/
def withUnit (matchUnit : MatchUnit K ActionEntry S) : MatchTable K S := { t with matchUnit }

/-- `MatchTable::create`. -/
def create [Inhabited K] (size : ℕ) (keyBuilder : MatchKeyBuilder) (withCounters withAgeing : Bool) :
    Option (MatchTable K S) := do
  let matchUnit ← MatchUnit.create size keyBuilder
  pure { matchUnit, withCounters, withAgeing }

/-- `lookup`: the entry found, or the default entry with no handle. -/
def lookup (phv : PHV) (ingressLength ingressTsMs : ℕ) :
    Option ((ActionEntry × Option ℕ) × MatchTable K S) := do
  let (res, matchUnit) ← t.matchUnit.lookup phv ingressLength ingressTsMs
  match res with
  | some res => pure ((res.value, some res.handle), t.withUnit matchUnit)
  | none => pure ((t.defaultEntry, none), t.withUnit matchUnit)

/-- `add_entry`. -/
def addEntry (matchKey : List MatchKeyParam) (actionFn : ℕ) (actionData : List ℕ) (priority : Int32)
    (now : ℕ) : Option (Except MatchErrorCode ℕ × MatchTable K S) := do
  let nextNode ← t.getNextNode actionFn
  let (res, matchUnit) ←
    t.matchUnit.addEntry matchKey ⟨⟨some actionFn, actionData⟩, nextNode⟩ priority now
  pure (res, t.withUnit matchUnit)

/-- `delete_entry`. -/
def deleteEntry (handle : ℕ) : Option (Except MatchErrorCode Unit × MatchTable K S) := do
  let (res, matchUnit) ← t.matchUnit.deleteEntry handle
  pure (res, t.withUnit matchUnit)

/-- `modify_entry`. -/
def modifyEntry (handle actionFn : ℕ) (actionData : List ℕ) :
    Option (Except MatchErrorCode Unit × MatchTable K S) := do
  let nextNode ← t.getNextNode actionFn
  let (res, matchUnit) ← t.matchUnit.modifyEntry handle ⟨⟨some actionFn, actionData⟩, nextNode⟩
  pure (res, t.withUnit matchUnit)

/-- `set_default_action`. -/
def setDefaultAction (actionFn : ℕ) (actionData : List ℕ) :
    Option (Except MatchErrorCode Unit × MatchTable K S) :=
  if t.constDefaultEntry then some (.error .defaultEntryIsConst, t)
  else if t.constDefaultAction.isSome ∧ t.constDefaultAction ≠ some actionFn then
    some (.error .defaultActionIsConst, t)
  else do
    let nextNode ← t.getNextNodeDefault actionFn
    pure (.ok (), { t with
      nextNodeMiss := nextNode
      defaultEntry := ⟨⟨some actionFn, actionData⟩, nextNode⟩ })

/-- `get_entry`. -/
def getEntry (handle now : ℕ) : Option (Except MatchErrorCode MatchTableEntry) := do
  match ← t.matchUnit.getEntry handle with
  | .error code => pure (.error code)
  | .ok (matchKey, actionEntry, priority) =>
    let common ← t.entryCommonInfo handle now
    pure (.ok { common with
      matchKey, priority
      actionFn := actionEntry.actionFn.actionFn, actionData := actionEntry.actionFn.actionData })

/-- `reset_state`: the default entry stays. -/
def resetState [Inhabited K] : Option (MatchTable K S) := do
  let matchUnit ← t.matchUnit.resetState
  pure (t.withUnit matchUnit)

end MatchTable

/-- The operations that change a `MatchTable`. -/
inductive MatchTableOp where
  | abstract (op : AbstractOp)
  | lookup (phv : PHV) (ingressLength ingressTsMs : ℕ)
  | addEntry (matchKey : List MatchKeyParam) (actionFn : ℕ) (actionData : List ℕ)
      (priority : Int32) (now : ℕ)
  | deleteEntry (handle : ℕ)
  | modifyEntry (handle actionFn : ℕ) (actionData : List ℕ)
  | setDefaultAction (actionFn : ℕ) (actionData : List ℕ)
  | resetState

/-- One operation on the table. -/
def MatchTable.exec {K S : Type} [Inhabited K] [MatchKey K] [LookupStructure K S]
    (t : MatchTable K S) : MatchTableOp → Option (TableResult × MatchTable K S)
  | .abstract op =>
      (t.toMatchTableAbstract.exec op).map fun (res, base) =>
        (res, { t with toMatchTableAbstract := base })
  | .lookup phv ingressLength ingressTsMs =>
      (t.lookup phv ingressLength ingressTsMs).map fun ((actionEntry, handle), t) =>
        (.found actionEntry handle, t)
  | .addEntry matchKey actionFn actionData priority now =>
      (t.addEntry matchKey actionFn actionData priority now).map fun (res, t) => (.handle res, t)
  | .deleteEntry handle => (t.deleteEntry handle).map fun (res, t) => (.done res, t)
  | .modifyEntry handle actionFn actionData =>
      (t.modifyEntry handle actionFn actionData).map fun (res, t) => (.done res, t)
  | .setDefaultAction actionFn actionData =>
      (t.setDefaultAction actionFn actionData).map fun (res, t) => (.done res, t)
  | .resetState => t.resetState.map fun t => (.done (.ok ()), t)

end Bm
