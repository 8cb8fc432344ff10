/-
# Match units

`MatchUnitAbstract_`, `MatchUnitAbstract` and `MatchUnitGeneric` (`match_units.h`,
`match_units.cpp`).  A unit keeps, for every slot, the entry and its meta data, the
set of slots in use, and the lookup structure of its kind of key.

An operation returns the unit it leaves together with its result or error code, and
`none` when the C++ code would abort.  Entries keep the version of their slot next to
their key.  The clock is an argument of the operations that read it.
-/
import Bmv2.LookupStructures
import Bmv2.Meters

namespace Bm

/-- `MatchUnit::EntryMeta`; the time stamp counts milliseconds. -/
structure EntryMeta where
  ts : ℕ := 0
  timeoutMs : ℕ := 0
  counter : Counter := {}
  version : ℕ := 0
  deriving DecidableEq

/-- `EntryMeta::reset`. -/
def EntryMeta.reset (m : EntryMeta) (now : ℕ) : EntryMeta := { m with counter := {}, ts := now }

/-- `MatchUnitGeneric<K, V>::Entry`. -/
structure Entry (K V : Type) where
  key : K
  version : ℕ := 0
  value : V
  deriving DecidableEq

/-- `MatchUnitGeneric<K, V>`, with lookup structure `S`. -/
structure MatchUnit (K V S : Type) where
  size : ℕ
  numEntries : ℕ := 0
  nbytesKey : ℕ
  handles : HandleMgr := ∅
  matchKeyBuilder : MatchKeyBuilder
  entryMeta : List EntryMeta
  directMeters : Option (List Meter) := none
  entries : List (Entry K V)
  lookupStructure : S

/-- `MatchUnitLookup`: the pointer to the value is the slot it points into, along with
the value read through it. -/
structure MatchUnitLookup (V : Type) where
  handle : ℕ
  slot : ℕ
  value : V
  deriving DecidableEq

variable {K V S : Type} [Inhabited K] [Inhabited V] [MatchKey K] [LookupStructure K S]

namespace MatchUnit

/-- The constructor.  (It reports a size above `MAX_TABLE_SIZE`, but lowers only its own
parameter.) -/
def create (size : ℕ) (keyBuilder : MatchKeyBuilder) : Option (MatchUnit K V S) := do
  let lookupStructure ← LookupStructure.create K size keyBuilder.nbytesKey
  pure {
    size, nbytesKey := keyBuilder.nbytesKey, matchKeyBuilder := keyBuilder.build,
    entryMeta := List.replicate size {},
    entries := List.replicate size { key := default, value := default },
    lookupStructure }

variable (mu : MatchUnit K V S)

/-! ## Slots -/

/-- `get_and_set_handle`. -/
def getAndSetHandle : Except MatchErrorCode (ℕ × MatchUnit K V S) :=
  if mu.size ≤ mu.numEntries then .error .tableFull
  else
    match mu.handles.getHandle with
    | none => .error .error
    | some (handle, handles) =>
        .ok (handle, { mu with handles, numEntries := mu.numEntries + 1 })

/-- `unset_handle`. -/
def unsetHandle (handle : ℕ) : Except MatchErrorCode (MatchUnit K V S) :=
  match mu.handles.releaseHandle handle with
  | none => .error .invalidHandle
  | some handles => .ok { mu with handles, numEntries := mu.numEntries - 1 }

/-- `valid_handle`: only the slot of the handle is looked at. -/
def validHandle (handle : ℕ) : Bool := decide (handleInternal handle ∈ mu.handles)

/-! ## Entries -/

/-- `build_entry_from_match_key`. -/
def buildEntryFromMatchKey (matchKey : List MatchKeyParam) (priority : Int32) :
    Option (Except MatchErrorCode K) :=
  if mu.matchKeyBuilder.matchParamsSanityCheck matchKey then do
    let key : K ← MatchKey.matchParamsToEntry mu.matchKeyBuilder matchKey
    let data ← mu.matchKeyBuilder.applyBigMask (MatchKey.data key)
    pure (.ok (MatchKey.setPriority (MatchKey.withData key data) priority))
  else some (.error .badMatchKey)

/-- `add_entry_`: the result is the handle. -/
def addEntry_ (matchKey : List MatchKeyParam) (value : V) (priority : Int32) :
    Option (Except MatchErrorCode ℕ × MatchUnit K V S) := do
  match ← mu.buildEntryFromMatchKey matchKey priority with
  | .error code => pure (.error code, mu)
  | .ok key =>
    if ← LookupStructure.entryExists mu.lookupStructure key then
      pure (.error .duplicateEntry, mu)
    else
      match mu.getAndSetHandle with
      | .error code => pure (.error code, mu)
      | .ok (slot, mu) =>
        let old ← mu.entries[slot]?
        let entries := mu.entries.set slot { key, version := old.version, value }
        let lookupStructure ← LookupStructure.addEntry mu.lookupStructure key slot
        pure (.ok (handleSet old.version slot), { mu with entries, lookupStructure })

/-- `add_entry`: the meta data of the slot is reset. -/
def addEntry (matchKey : List MatchKeyParam) (value : V) (priority : Int32) (now : ℕ) :
    Option (Except MatchErrorCode ℕ × MatchUnit K V S) := do
  match ← mu.addEntry_ matchKey value priority with
  | (.error code, mu) => pure (.error code, mu)
  | (.ok handle, mu) =>
    let entryMeta ← mu.entryMeta[handleInternal handle]?
    let entryMeta := { entryMeta.reset now with version := handleVersion handle }
    pure (.ok handle,
      { mu with entryMeta := mu.entryMeta.set (handleInternal handle) entryMeta })

/-- The check that most operations on a handle start with: its slot is in use, and its
version is that of the slot. -/
def checkHandle (handle : ℕ) : Option (Except MatchErrorCode (Entry K V)) :=
  if mu.validHandle handle then do
    let entry ← mu.entries[handleInternal handle]?
    if handleVersion handle ≠ entry.version then pure (.error .expiredHandle)
    else pure (.ok entry)
  else some (.error .invalidHandle)

/-- `delete_entry`. -/
def deleteEntry (handle : ℕ) : Option (Except MatchErrorCode Unit × MatchUnit K V S) := do
  match ← mu.checkHandle handle with
  | .error code => pure (.error code, mu)
  | .ok entry =>
    let slot := handleInternal handle
    let entries := mu.entries.set slot { entry with version := (entry.version + 1) % 2 ^ 32 }
    let lookupStructure ← LookupStructure.deleteEntry mu.lookupStructure entry.key
    let mu := { mu with entries, lookupStructure }
    match mu.unsetHandle slot with
    | .error code => pure (.error code, mu)
    | .ok mu => pure (.ok (), mu)

/-- `modify_entry`. -/
def modifyEntry (handle : ℕ) (value : V) :
    Option (Except MatchErrorCode Unit × MatchUnit K V S) := do
  match ← mu.checkHandle handle with
  | .error code => pure (.error code, mu)
  | .ok entry =>
    pure (.ok (), { mu with entries := mu.entries.set (handleInternal handle) { entry with value } })

/-- `get_value`. -/
def getValue (handle : ℕ) : Option (Except MatchErrorCode V) := do
  match ← mu.checkHandle handle with
  | .error code => pure (.error code)
  | .ok entry => pure (.ok entry.value)

/-- `get_entry`. -/
def getEntry (handle : ℕ) : Option (Except MatchErrorCode (List MatchKeyParam × V × Int32)) := do
  match ← mu.checkHandle handle with
  | .error code => pure (.error code)
  | .ok entry =>
    let matchKey ← MatchKey.entryToMatchParams mu.matchKeyBuilder entry.key
    pure (.ok (matchKey, entry.value, MatchKey.getPriority entry.key))

/-- `retrieve_handle`. -/
def retrieveHandle (matchKey : List MatchKeyParam) (priority : Int32) :
    Option (Except MatchErrorCode ℕ) := do
  match ← mu.buildEntryFromMatchKey matchKey priority with
  | .error code => pure (.error code)
  | .ok key =>
    match ← LookupStructure.retrieveHandle mu.lookupStructure key with
    | none => pure (.error .badMatchKey)
    | some slot =>
      let entry ← mu.entries[slot]?
      pure (.ok (handleSet entry.version slot))

/-! ## Lookup -/

/-- `lookup_key`. -/
def lookupKey (key : ByteContainer) : Option (Option (MatchUnitLookup V)) := do
  match ← LookupStructure.lookup K mu.lookupStructure key with
  | none => pure none
  | some slot =>
    let entry ← mu.entries[slot]?
    pure (some { handle := handleSet entry.version slot, slot, value := entry.value })

/-- `lookup`: on a hit the counters and the time stamp of the entry are updated. -/
def lookup (phv : PHV) (ingressLength ingressTsMs : ℕ) :
    Option (Option (MatchUnitLookup V) × MatchUnit K V S) := do
  let key ← mu.matchKeyBuilder.buildKey phv
  match ← mu.lookupKey key with
  | none => pure (none, mu)
  | some res =>
    let slot := handleInternal res.handle
    let entryMeta ← mu.entryMeta[slot]?
    let entryMeta :=
      { entryMeta with counter := entryMeta.counter.increment ingressLength, ts := ingressTsMs }
    pure (some res, { mu with entryMeta := mu.entryMeta.set slot entryMeta })

/-! ## Meta data -/

/-- `get_entry_meta`. -/
def getEntryMeta (handle : ℕ) : Option EntryMeta := mu.entryMeta[handleInternal handle]?

/-- `reset_counters`. -/
def resetCounters : MatchUnit K V S :=
  { mu with entryMeta := mu.entryMeta.map fun m => { m with counter := {} } }

/-- `set_direct_meters`. -/
def setDirectMeters (meterArray : List Meter) : Option (MatchUnit K V S) :=
  if mu.size = meterArray.length then some { mu with directMeters := some meterArray } else none

/-- `get_meter`. -/
def getMeter (handle : ℕ) : Option Meter := do
  let meters ← mu.directMeters
  meters[handleInternal handle]?

/-- `set_entry_ttl`. -/
def setEntryTtl (handle ttlMs now : ℕ) : Option (Except MatchErrorCode Unit × MatchUnit K V S) :=
  if mu.validHandle handle then do
    let entryMeta ← mu.getEntryMeta handle
    let entryMeta := { entryMeta with timeoutMs := ttlMs, ts := now }
    pure (.ok (),
      { mu with entryMeta := mu.entryMeta.set (handleInternal handle) entryMeta })
  else some (.error .invalidHandle, mu)

/-- `reset_state`. -/
def resetState : Option (MatchUnit K V S) := do
  let lookupStructure ← LookupStructure.clear K mu.lookupStructure
  pure { mu with
    numEntries := 0
    handles := ∅
    entryMeta := List.replicate mu.size {}
    entries := List.replicate mu.size { key := default, value := default }
    lookupStructure }

end MatchUnit

end Bm
