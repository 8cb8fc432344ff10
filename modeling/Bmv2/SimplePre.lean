/-
# Replication engines

`McSimplePre` (`simple_pre.h`, `simple_pre.cpp`) keeps the multicast trees: a group has
a list of L1 nodes, an L1 node has a replication id and one L2 node, and an L2 node has
a port map.  `McSimplePreLAG` (`simple_pre_lag.h`, `simple_pre_lag.cpp`) adds a LAG map
to the L2 nodes and a table of LAGs.

A handle is any number, and `operator[]` of an `unordered_map` inserts a default entry
at a key that is missing.  The logger is left out.
-/
import Bmv2.Handles

namespace Bm

/-- `std::unordered_map` from handles. -/
abbrev UnorderedMap (V : Type) := Finmap fun _ : ℕ => V

namespace UnorderedMap

variable {V : Type}

/-- `m.size()`. -/
def size (m : UnorderedMap V) : ℕ := m.keys.card

/-- The entry that `m[k]` refers to. -/
def getOrDefault [Inhabited V] (m : UnorderedMap V) (k : ℕ) : V := (m.lookup k).getD default

/-- `m.insert(make_pair(k, v))`, which keeps an entry that is there. -/
def insertNew (m : UnorderedMap V) (k : ℕ) (v : V) : UnorderedMap V :=
  if k ∈ m then m else m.insert k v

end UnorderedMap

/-! ## The tables of `McSimplePre` -/

/-- `PORT_MAP_SIZE`. -/
def portMapSize : ℕ := 256

/-- `LAG_MAP_SIZE`. -/
def lagMapSize : ℕ := 256

/-- `PortMap`, a `McPre::Set<PORT_MAP_SIZE>`. -/
abbrev PortMap := Fin portMapSize → Bool

/-- `LagMap`, a `McPre::Set<LAG_MAP_SIZE>`. -/
abbrev LagMap := Fin lagMapSize → Bool

/-- The numbers that a set holds, as a loop over the set meets them. -/
def setBits {n : ℕ} (map : Fin n → Bool) : List (Fin n) := (List.finRange n).filter map

/-- `McSimplePre::McReturnCode`. -/
inductive McReturnCode where
  | success
  | tableFull
  | invalidMgid
  | invalidL1Handle
  | invalidL2Handle
  | error
  deriving DecidableEq, Repr

/-- `McSimplePre::McOut`. -/
structure McOut where
  rid : ℕ
  egressPort : ℕ
  deriving DecidableEq, Repr

/-- `McSimplePre::MgidEntry`. -/
structure MgidEntry where
  mgid : ℕ := 0
  l1List : List ℕ := []
  deriving Inhabited

/-- `McSimplePre::L1Entry`. -/
structure L1Entry where
  mgrpHdl : ℕ := 0
  rid : ℕ := 0
  l2Hdl : ℕ := 0
  deriving Inhabited

/-- `McSimplePre::L2Entry`. -/
structure L2Entry where
  l1Hdl : ℕ := 0
  portMap : PortMap := fun _ => false
  lagMap : LagMap := fun _ => false
  deriving Inhabited

/-- `McSimplePre`. -/
structure McSimplePre where
  mgidEntries : UnorderedMap MgidEntry := ∅
  l1Entries : UnorderedMap L1Entry := ∅
  l2Entries : UnorderedMap L2Entry := ∅
  l1Handles : HandleMgr := ∅
  l2Handles : HandleMgr := ∅

namespace McSimplePre

/-- `MGID_TABLE_SIZE`. -/
def mgidTableSize : ℕ := 4096

/-- `L1_MAX_ENTRIES`. -/
def l1MaxEntries : ℕ := 4096

/-- `L2_MAX_ENTRIES`. -/
def l2MaxEntries : ℕ := 8192

/-! ## Control operations -/

/-- `mc_mgrp_create`. -/
def mcMgrpCreate (pre : McSimplePre) (mgid : ℕ) : McReturnCode × McSimplePre :=
  if pre.mgidEntries.size ≥ mgidTableSize then (.tableFull, pre)
  else (.success, { pre with mgidEntries := pre.mgidEntries.insertNew mgid { mgid := mgid } })

/-- `mc_mgrp_destroy`. -/
def mcMgrpDestroy (pre : McSimplePre) (mgrpHdl : ℕ) : McReturnCode × McSimplePre :=
  (.success, { pre with mgidEntries := pre.mgidEntries.erase mgrpHdl })

/-- The body of `mc_node_create` of both engines, which differ in the LAG map of the L2
node.  The handle of the new node comes with the code `SUCCESS`. -/
def createNode (pre : McSimplePre) (rid : ℕ) (portMap : PortMap) (lagMap : LagMap) :
    Except McReturnCode ℕ × McSimplePre :=
  if pre.l1Entries.size ≥ l1MaxEntries then (.error .tableFull, pre)
  else if pre.l2Entries.size ≥ l2MaxEntries then (.error .tableFull, pre)
  else match pre.l1Handles.getHandle with
    | none => (.error .error, pre)
    | some (l1Hdl, l1Handles) =>
      match pre.l2Handles.getHandle with
      | none => (.error .error, { pre with l1Handles := l1Handles })
      | some (l2Hdl, l2Handles) =>
        let l1Entries := pre.l1Entries.insertNew l1Hdl { rid := rid }
        let l1Entry := l1Entries.getOrDefault l1Hdl
        (.ok l1Hdl, { pre with
          l1Entries := l1Entries.insert l1Hdl { l1Entry with l2Hdl := l2Hdl }
          l2Entries := pre.l2Entries.insertNew l2Hdl ⟨l1Hdl, portMap, lagMap⟩
          l1Handles := l1Handles
          l2Handles := l2Handles })

/-- `mc_node_create`. -/
def mcNodeCreate (pre : McSimplePre) (rid : ℕ) (portMap : PortMap) :
    Except McReturnCode ℕ × McSimplePre :=
  pre.createNode rid portMap fun _ => false

/-- `mc_node_associate`. -/
def mcNodeAssociate (pre : McSimplePre) (mgrpHdl l1Hdl : ℕ) : McReturnCode × McSimplePre :=
  if l1Hdl ∉ pre.l1Handles then (.invalidL1Handle, pre)
  else
    let mgidEntry := pre.mgidEntries.getOrDefault mgrpHdl
    let l1Entry := pre.l1Entries.getOrDefault l1Hdl
    (.success, { pre with
      mgidEntries := pre.mgidEntries.insert mgrpHdl
        { mgidEntry with l1List := mgidEntry.l1List ++ [l1Hdl] }
      l1Entries := pre.l1Entries.insert l1Hdl { l1Entry with mgrpHdl := mgrpHdl } })

/-- `mc_node_dissociate`. -/
def mcNodeDissociate (pre : McSimplePre) (mgrpHdl l1Hdl : ℕ) : McReturnCode × McSimplePre :=
  if l1Hdl ∉ pre.l1Handles then (.invalidL1Handle, pre)
  else
    let mgidEntry := pre.mgidEntries.getOrDefault mgrpHdl
    let l1Entry := pre.l1Entries.getOrDefault l1Hdl
    (.success, { pre with
      mgidEntries := pre.mgidEntries.insert mgrpHdl
        { mgidEntry with l1List := mgidEntry.l1List.filter (· ≠ l1Hdl) }
      l1Entries := pre.l1Entries.insert l1Hdl { l1Entry with mgrpHdl := 0 } })

/-- `mc_node_destroy`; `none` when the assertion on the L1 handle fails. -/
def mcNodeDestroy (pre : McSimplePre) (l1Hdl : ℕ) : Option (McReturnCode × McSimplePre) :=
  if l1Hdl ∉ pre.l1Handles then some (.invalidL1Handle, pre)
  else
    let l1Entry := pre.l1Entries.getOrDefault l1Hdl
    let pre := { pre with
      l1Entries := pre.l1Entries.insert l1Hdl l1Entry
      l2Entries := pre.l2Entries.erase l1Entry.l2Hdl }
    match pre.l2Handles.releaseHandle l1Entry.l2Hdl with
    | none => some (.invalidL2Handle, pre)
    | some l2Handles => do
      let l1Handles ← pre.l1Handles.releaseHandle l1Hdl
      return (.success, { pre with
        l1Entries := pre.l1Entries.erase l1Hdl
        l1Handles := l1Handles
        l2Handles := l2Handles })

/-- The body of `mc_node_update` of both engines, which differ in what they set in the
L2 node. -/
def updateNode (pre : McSimplePre) (l1Hdl : ℕ) (set : L2Entry → L2Entry) :
    McReturnCode × McSimplePre :=
  if l1Hdl ∉ pre.l1Handles then (.invalidL1Handle, pre)
  else
    let l1Entry := pre.l1Entries.getOrDefault l1Hdl
    let l2Entry := pre.l2Entries.getOrDefault l1Entry.l2Hdl
    (.success, { pre with
      l1Entries := pre.l1Entries.insert l1Hdl l1Entry
      l2Entries := pre.l2Entries.insert l1Entry.l2Hdl (set l2Entry) })

/-- `mc_node_update`. -/
def mcNodeUpdate (pre : McSimplePre) (l1Hdl : ℕ) (portMap : PortMap) :
    McReturnCode × McSimplePre :=
  pre.updateNode l1Hdl fun l2Entry => { l2Entry with portMap := portMap }

/-! ## Replication -/

/-- The copies for the ports of an L2 node. -/
def portCopies (rid : ℕ) (portMap : PortMap) : List McOut :=
  (setBits portMap).map fun portId => ⟨rid, portId⟩

/-- What both engines do with one node of the list: `none` when `at` throws. -/
def l2EntryOf (pre : McSimplePre) (l1Hdl : ℕ) : Option (L1Entry × L2Entry) := do
  let l1Entry ← pre.l1Entries.lookup l1Hdl
  let l2Entry ← pre.l2Entries.lookup l1Entry.l2Hdl
  return (l1Entry, l2Entry)

/-- `replicate`; `none` when `at` throws. -/
def replicate (pre : McSimplePre) (mgid : ℕ) : Option (List McOut) :=
  match pre.mgidEntries.lookup mgid with
  | none => some []
  | some mgidEntry => do
    let copies ← mgidEntry.l1List.mapM fun l1Hdl => do
      let (l1Entry, l2Entry) ← pre.l2EntryOf l1Hdl
      return portCopies l1Entry.rid l2Entry.portMap
    return copies.flatten

end McSimplePre

/-! ## LAGs -/

/-- `McSimplePreLAG::LagEntry`. -/
structure LagEntry where
  memberCount : ℕ
  portMap : PortMap

/-- `McSimplePreLAG`. -/
structure McSimplePreLAG extends McSimplePre where
  lagEntries : UnorderedMap LagEntry := ∅

namespace McSimplePreLAG

/-- `LAG_MAX_ENTRIES`. -/
def lagMaxEntries : ℕ := 256

/-- `mc_node_create`. -/
def mcNodeCreate (pre : McSimplePreLAG) (rid : ℕ) (portMap : PortMap) (lagMap : LagMap) :
    Except McReturnCode ℕ × McSimplePreLAG :=
  let (rc, toPre) := pre.createNode rid portMap lagMap
  (rc, { pre with toMcSimplePre := toPre })

/-- `mc_node_update`. -/
def mcNodeUpdate (pre : McSimplePreLAG) (l1Hdl : ℕ) (portMap : PortMap) (lagMap : LagMap) :
    McReturnCode × McSimplePreLAG :=
  let (rc, toPre) := pre.updateNode l1Hdl fun l2Entry =>
    { l2Entry with portMap := portMap, lagMap := lagMap }
  (rc, { pre with toMcSimplePre := toPre })

/-- `mc_set_lag_membership`; the member count is a `uint16_t`. -/
def mcSetLagMembership (pre : McSimplePreLAG) (lagIndex : ℕ) (portMap : PortMap) :
    McReturnCode × McSimplePreLAG :=
  if lagIndex > lagMaxEntries then (.error, pre)
  else
    let memberCount := (setBits portMap).length % 2 ^ 16
    (.success, { pre with lagEntries := pre.lagEntries.insert lagIndex ⟨memberCount, portMap⟩ })

/-- `lag_hash`. -/
def lagHash : ℕ := 0xFF

/-- The loop that looks for the port at which `port_count2` reaches `port_count1`. -/
def findMember (portCount1 : ℕ) (portMap : PortMap) : ℕ → List (Fin portMapSize) →
    Option (Fin portMapSize)
  | _, [] => none
  | portCount2, portId :: portIds =>
    let portCount2 := if portMap portId then portCount2 + 1 else portCount2
    if portCount1 = portCount2 then some portId
    else findMember portCount1 portMap portCount2 portIds

/-- The copy for one LAG of a LAG map, if there is one; `none` when `at` throws, or when
the remainder is by zero. -/
def lagCopy (pre : McSimplePreLAG) (rid : ℕ) (lagIndex : Fin lagMapSize) :
    Option (List McOut) := do
  let lagEntry ← pre.lagEntries.lookup lagIndex.val
  if lagEntry.memberCount = 0 then none
  let portCount1 := lagHash % lagEntry.memberCount + 1
  return match findMember portCount1 lagEntry.portMap 0 (List.finRange portMapSize) with
    | none => []
    | some portId => [⟨rid, portId⟩]

/-- `replicate`; `none` when `at` throws or a remainder is by zero. -/
def replicate (pre : McSimplePreLAG) (mgid : ℕ) : Option (List McOut) :=
  match pre.mgidEntries.lookup mgid with
  | none => some []
  | some mgidEntry => do
    let copies ← mgidEntry.l1List.mapM fun l1Hdl => do
      let (l1Entry, l2Entry) ← pre.l2EntryOf l1Hdl
      let lagCopies ← (setBits l2Entry.lagMap).mapM (pre.lagCopy l1Entry.rid)
      return McSimplePre.portCopies l1Entry.rid l2Entry.portMap ++ lagCopies.flatten
    return copies.flatten

end McSimplePreLAG

end Bm
