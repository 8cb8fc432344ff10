/-
# The SAI server

`SaiHandler` (`switch_sai_server.py`): the objects that the server keeps in dictionaries, and the
entries that it writes into the tables of the switch through the command line client.  A call returns a
value, or raises and leaves what it has written so far.

The client is taken as its callers take it: adding an entry fails without effect when the key
exists, and removing one does nothing when it does not (or when there is no such table).
-/
import Mathlib.Data.Finmap
import Bmv2.Lib.FreeSlots

namespace Bm.Sai

/-! ## Objects -/

/-- A dictionary of objects by their id. -/
abbrev Dict (α : Type) := Finmap fun _ : ℕ => α

/-- An assignment to attributes of an object. -/
def Dict.modify {α : Type} (d : Dict α) (id : ℕ) (f : α → α) : Dict α :=
  match d.lookup id with
  | none => d
  | some obj => d.insert id (f obj)

/-- `GetNewIndex`, of the keys of a dictionary and the ids that are forbidden. -/
def getNewIndex (keys forbidden : Finset ℕ) : ℕ :=
  ((List.range (keys.card + forbidden.card + 1)).find? fun i => i ∉ keys ∧ i ∉ forbidden).getD 0

section Dict

variable {α : Type} {d : Dict α}

theorem Dict.lookup_insert (id id' : ℕ) (obj : α) :
    Finmap.lookup id' (d.insert id obj) = if id' = id then some obj else d.lookup id' := by
  split
  next h => rw [h, Finmap.lookup_insert]
  next h => rw [Finmap.lookup_insert_of_ne _ h]

theorem Dict.lookup_erase (id id' : ℕ) :
    Finmap.lookup id' (d.erase id) = if id' = id then none else d.lookup id' := by
  split
  next h => rw [h, Finmap.lookup_erase]
  next h => rw [Finmap.lookup_erase_ne h]

theorem Dict.lookup_modify (id id' : ℕ) (f : α → α) :
    Finmap.lookup id' (Dict.modify d id f) =
      if id' = id then (d.lookup id).map f else d.lookup id' := by
  rw [Dict.modify]
  cases hobj : d.lookup id with
  | none =>
    dsimp only
    split
    next h => rw [h, hobj, Option.map_none]
    next => rfl
  | some obj =>
    dsimp only
    rw [Dict.lookup_insert, Option.map_some]

theorem Dict.modify_modify (id : ℕ) (f g : α → α) :
    Dict.modify (Dict.modify d id f) id g = Dict.modify d id fun obj => g (f obj) := by
  apply Finmap.ext_lookup
  intro id'
  simp only [lookup_modify, if_true]
  split
  · rw [Option.map_map]
    rfl
  · rfl

theorem Dict.modify_id (id : ℕ) : Dict.modify d id (fun obj => obj) = d := by
  apply Finmap.ext_lookup
  intro id'
  rw [lookup_modify]
  split
  next h => rw [h, Option.map_id']
  next => rfl

theorem Dict.keys_modify (id : ℕ) (f : α → α) : Finmap.keys (Dict.modify d id f) = d.keys := by
  ext id'
  rw [Finmap.mem_keys, Finmap.mem_keys, ← Finmap.lookup_isSome, ← Finmap.lookup_isSome, lookup_modify]
  split
  next h => rw [h, Option.isSome_map]
  next => rfl

end Dict

theorem getNewIndex_spec (keys forbidden : Finset ℕ) : getNewIndex keys forbidden ∉ keys ∧
    getNewIndex keys forbidden ∉ forbidden ∧
    ∀ i < getNewIndex keys forbidden, i ∈ keys ∨ i ∈ forbidden := by
  -- one of the numbers up to the length of the list is free
  obtain ⟨i, hi, hfree⟩ := exists_le_card_notMem (keys ∪ forbidden)
  have hcard := Finset.card_union_le keys forbidden
  rw [Finset.mem_union, not_or] at hfree
  cases hfind : (List.range (keys.card + forbidden.card + 1)).find?
      fun i => i ∉ keys ∧ i ∉ forbidden with
  | none =>
    rw [List.find?_eq_none] at hfind
    exact absurd hfree (by simpa using hfind i (List.mem_range.mpr (by omega)))
  | some j =>
    rw [show getNewIndex keys forbidden = j by rw [getNewIndex, hfind, Option.getD_some]]
    obtain ⟨hnot, -, hbelow⟩ := List.find?_range_eq_some.mp hfind
    rw [decide_eq_true_eq] at hnot
    refine ⟨hnot.1, hnot.2, fun k hk => ?_⟩
    have htaken := hbelow k hk
    simp only [Bool.not_eq_true', decide_eq_false_iff_not, not_and_or, not_not] at htaken
    exact htaken

/-- With the ids up to a number in use, the number is next. -/
theorem getNewIndex_range (n : ℕ) : getNewIndex (Finset.range n) ∅ = n := by
  obtain ⟨hfree, -, hbelow⟩ := getNewIndex_spec (Finset.range n) ∅
  rw [Finset.mem_range, not_lt] at hfree
  apply hfree.antisymm'
  by_contra hlt
  rcases hbelow n (not_le.mp hlt) with h | h
  · exact absurd (Finset.mem_range.mp h) (lt_irrefl n)
  · exact absurd h (Finset.notMem_empty n)

/-- `sai_port_bind_mode`. -/
inductive BindMode where
  | port
  | subPort
  deriving DecidableEq

/-- `str(bind_mode)`. -/
def BindMode.value : BindMode → ℕ
  | .port => 0
  | .subPort => 1

/-- `sai_vlan_tagging_mode`. -/
inductive TaggingMode where
  | untagged
  | tagged
  | priorityTagged
  deriving DecidableEq

/-- `sai_bridge_port_type`, of which the server knows two. -/
inductive BridgePortType where
  | port
  | subPort
  | other
  deriving DecidableEq

/-- `Port_obj`. -/
structure Port where
  hwPort : ℕ := 0
  pvid : ℕ := 1
  bindMode : BindMode := .port
  deriving DecidableEq

/-- `LagMember_obj`. -/
structure LagMember where
  portId : ℕ := 0
  lagId : ℕ := 0
  deriving DecidableEq

/-- `VlanMember_obj`. -/
structure VlanMember where
  vlanOid : ℕ := 0
  vid : ℕ := 1
  bridgePortId : ℕ := 0
  taggingMode : TaggingMode := .untagged
  deriving DecidableEq

/-- `Vlan_obj`. -/
structure Vlan where
  vid : ℕ := 1
  vlanMembers : List ℕ := []
  deriving DecidableEq

/-- `BridgePort_obj`; `type` is missing until it is assigned. -/
structure BridgePort where
  portId : ℕ := 0
  vlanId : ℕ := 1
  type : Option BridgePortType := none
  deriving DecidableEq

/-! ## Tables -/

/-- The tables that the server writes. -/
inductive Table where
  | ingressLag
  | portPvid
  | portMode
  | portIngressInterfaceType
  | subportIngressInterfaceType
  | ingressL2InterfaceType
  | bridgeId1d
  | bridgeId1q
  | ingressVlanFiltering
  | egressVlanFiltering
  | egressVlanTag
  | egressBrPortToIf
  | egressSetVlan
  | lagHash
  | egressLag
  deriving DecidableEq

/-- The actions that the server uses. -/
inductive Action where
  | setLagL2if
  | setPvid
  | setPortMode
  | setL2IfType
  | setBridgeId
  | nop
  | forwardVlanTag
  | forwardVlanUntag
  | forwardSetOutIfType
  | setVlan
  | setLagHashSize
  | setOutPort
  deriving DecidableEq

/-- The entries of the tables, by their key. -/
abbrev Tables := Table → List ℕ → Option (Action × List ℕ)

namespace Tables

/-- One entry is written. -/
def set (tables : Tables) (table : Table) (key : List ℕ) (entry : Option (Action × List ℕ)) : Tables :=
  fun t k => if t = table ∧ k = key then entry else tables t k

/-- `AddTable`. -/
def addTable (tables : Tables) (table : Table) (action : Action) (key args : List ℕ) : Tables :=
  match tables table key with
  | some _ => tables
  | none => tables.set table key (some (action, args))

/-- `RemoveTableEntry`. -/
def removeTableEntry (tables : Tables) (table : Table) (key : List ℕ) : Tables :=
  tables.set table key none

variable {tables : Tables} {table : Table} {key : List ℕ}

@[simp] theorem set_self (entry : Option (Action × List ℕ)) : tables.set table key entry table key = entry :=
  if_pos ⟨rfl, rfl⟩

theorem set_of_table_ne {table' : Table} (h : table' ≠ table) (entry : Option (Action × List ℕ))
    (key' : List ℕ) : tables.set table key entry table' key' = tables table' key' :=
  if_neg fun heq => h heq.1

theorem set_of_key_ne {key' : List ℕ} (h : key' ≠ key) (entry : Option (Action × List ℕ))
    (table' : Table) : tables.set table key entry table' key' = tables table' key' :=
  if_neg fun heq => h heq.2

theorem set_set (entry entry' : Option (Action × List ℕ)) :
    (tables.set table key entry).set table key entry' = tables.set table key entry' := by
  funext t k
  simp only [set]
  split <;> rfl

/-- Writing what is there. -/
theorem set_eq_self {entry : Option (Action × List ℕ)} (h : tables table key = entry) :
    tables.set table key entry = tables := by
  funext t k
  rw [set]
  split
  next heq => rw [heq.1, heq.2, h]
  next => rfl

theorem addTable_of_none (h : tables table key = none) (action : Action) (args : List ℕ) :
    tables.addTable table action key args = tables.set table key (some (action, args)) := by
  rw [addTable, h]

theorem addTable_of_table_ne {table' : Table} (h : table' ≠ table) (action : Action)
    (args key' : List ℕ) : tables.addTable table action key args table' key' = tables table' key' := by
  rw [addTable]
  cases tables table key with
  | none => exact set_of_table_ne h _ _
  | some entry => rfl

/-- An entry that is removed and added. -/
theorem addTable_removeTableEntry (action : Action) (args : List ℕ) :
    (tables.removeTableEntry table key).addTable table action key args =
      tables.set table key (some (action, args)) := by
  rw [removeTableEntry, addTable_of_none (set_self none), set_set]

end Tables

/-! ## The handler -/

/-- `SaiHandler`.  `Lag_obj` has one attribute of its own, the list of its members, which is the default
argument of the constructor: one list, that all its objects share. -/
structure Handler where
  ports : Dict Port := ∅
  vlans : Dict Vlan := ∅
  vlanMembers : Dict VlanMember := ∅
  bridgePorts : Dict BridgePort := ∅
  lagMembers : Dict LagMember := ∅
  lags : Finset ℕ := ∅
  defaultLagMembers : List ℕ := []
  tables : Tables := fun _ _ => none

namespace Handler

/-- `lags[lag_id].lag_members`. -/
def lagMembersOf (s : Handler) (_lagId : ℕ) : List ℕ := s.defaultLagMembers

/-- `AddTable`. -/
def addTable (s : Handler) (table : Table) (action : Action) (key args : List ℕ) : Handler :=
  { s with tables := s.tables.addTable table action key args }

/-- `RemoveTableEntry`. -/
def removeTableEntry (s : Handler) (table : Table) (key : List ℕ) : Handler :=
  { s with tables := s.tables.removeTableEntry table key }

/-! ### Ports -/

/-- `sai_port_attr`. -/
inductive PortAttr where
  | portVlanId (vlanId : ℕ)
  | bindMode (bindMode : BindMode)
  | hwLaneList (hwPortList : List ℕ)
  | other

/-- One turn of the loop of `create_port`, with `hw_port_list`. -/
def createPortAttr (port : ℕ) (s : Handler × Option (List ℕ)) : PortAttr → Handler × Option (List ℕ)
  | .portVlanId vlanId =>
      ({ s.1 with ports := s.1.ports.modify port fun obj => { obj with pvid := vlanId } }.addTable
        .portPvid .setPvid [port] [vlanId], s.2)
  | .bindMode bindMode =>
      ({ s.1 with ports := s.1.ports.modify port fun obj => { obj with bindMode } }.addTable
        .portMode .setPortMode [port] [bindMode.value], s.2)
  | .hwLaneList hwPortList => (s.1, some hwPortList)
  | .other => s

/-- `sai_thrift_create_port`. -/
def createPort (s : Handler) (attrs : List PortAttr) : Option ℕ × Handler :=
  let port := getNewIndex s.ports.keys s.lags
  let (s, hwPortList) := attrs.foldl (createPortAttr port) ({ s with ports := s.ports.insert port {} }, none)
  match hwPortList with
  | some (hwPort :: _) =>
      (some port, { s with ports := s.ports.modify port fun obj => { obj with hwPort } }.addTable
        .ingressLag .setLagL2if [hwPort] [0, port])
  | _ => (none, s)

/-- `sai_thrift_remove_port`. -/
def removePort (s : Handler) (portId : ℕ) : Option Unit × Handler :=
  match s.ports.lookup portId with
  | none => (none, s)
  | some port =>
      let s := s.removeTableEntry .ingressLag [port.hwPort]
      let s := s.removeTableEntry .portPvid [portId]
      (some (), { s with ports := s.ports.erase portId })

/-! ### LAGs -/

/-- `sai_thrift_create_lag`. -/
def createLag (s : Handler) : Option ℕ × Handler :=
  let lagId := getNewIndex s.lags s.ports.keys
  (some lagId, { s with lags := insert lagId s.lags })

/-- `sai_thrift_remove_lag`. -/
def removeLag (s : Handler) (lagId : ℕ) : Option Unit × Handler :=
  (some (), { s with lags := s.lags.erase lagId })

/-- `sai_lag_member_attr`. -/
inductive LagMemberAttr where
  | portId (portId : ℕ)
  | lagId (lagId : ℕ)
  | other

/-- The loop of `create_lag_member`, with `port_id` and `lag_id`. -/
def createLagMemberAttrs (lagMemberId : ℕ) : List LagMemberAttr → Option ℕ × Option ℕ → Handler →
    Option (Option ℕ × Option ℕ) × Handler
  | [], locals, s => (some locals, s)
  | .portId portId :: attrs, locals, s =>
      createLagMemberAttrs lagMemberId attrs (some portId, locals.2)
        { s with lagMembers := s.lagMembers.modify lagMemberId fun obj => { obj with portId } }
  | .lagId lagId :: attrs, locals, s =>
      let s := { s with lagMembers := s.lagMembers.modify lagMemberId fun obj => { obj with lagId } }
      if lagId ∈ s.lags then
        createLagMemberAttrs lagMemberId attrs (locals.1, some lagId)
          { s with defaultLagMembers := s.defaultLagMembers ++ [lagMemberId] }
      else (none, s)
  | .other :: attrs, locals, s => createLagMemberAttrs lagMemberId attrs locals s

/-- What `create_lag_member` does after its loop. -/
def programLagMember (s : Handler) (lagMemberId : ℕ) (portId lagId : Option ℕ) : Option ℕ × Handler :=
  match portId.bind s.ports.lookup with
  | none => (none, s)
  | some port =>
      let s := s.removeTableEntry .ingressLag [port.hwPort]
      match lagId with
      | none => (none, s)
      | some lagId =>
          let s := s.addTable .ingressLag .setLagL2if [port.hwPort] [1, lagId]
          let s := s.removeTableEntry .lagHash [lagId]
          let s := s.addTable .lagHash .setLagHashSize [lagId] [(s.lagMembersOf lagId).length]
          let s := s.addTable .egressLag .setOutPort [lagId, lagMemberId] [port.hwPort]
          let s := s.removeTableEntry .portPvid [lagId]
          let s := s.removeTableEntry .portMode [lagId]
          let s := s.addTable .portPvid .setPvid [lagId] [port.pvid]
          let s := s.addTable .portMode .setPortMode [lagId] [port.bindMode.value]
          (some lagMemberId, s)

/-- `sai_thrift_create_lag_member`. -/
def createLagMember (s : Handler) (attrs : List LagMemberAttr) : Option ℕ × Handler :=
  let lagMemberId := getNewIndex s.lagMembers.keys ∅
  match createLagMemberAttrs lagMemberId attrs (none, none)
    { s with lagMembers := s.lagMembers.insert lagMemberId {} } with
  | (none, s) => (none, s)
  | (some (portId, lagId), s) => programLagMember s lagMemberId portId lagId

/-- `sai_thrift_remove_lag_member`. -/
def removeLagMember (s : Handler) (lagMemberId : ℕ) : Option Unit × Handler :=
  match s.lagMembers.lookup lagMemberId with
  | none => (some (), s)
  | some lagMember =>
      let s := { s with lagMembers := s.lagMembers.erase lagMemberId }
      if lagMember.lagId ∈ s.lags ∧ lagMemberId ∈ s.lagMembersOf lagMember.lagId then
        (some (), { s with defaultLagMembers := s.defaultLagMembers.erase lagMemberId })
      else (none, s)

/-! ### VLANs -/

/-- `sai_vlan_attr`. -/
inductive VlanAttr where
  | vlanId (vid : ℕ)
  | other

/-- One turn of the loop of `create_vlan`, with `vid`. -/
def createVlanAttr (vid : Option ℕ) : VlanAttr → Option ℕ
  | .vlanId vid => some vid
  | .other => vid

/-- `sai_thrift_create_vlan`; `-1` is no id.  The `vid`s are read off the keys of `vlans`, which are
numbers and have no such attribute. -/
def createVlan (s : Handler) (attrs : List VlanAttr) : Option (Option ℕ) × Handler :=
  match attrs.foldl createVlanAttr none with
  | none => (none, s)
  | some vid =>
      let vids : Option (List ℕ) := if s.vlans.keys = ∅ then some [] else none
      match vids with
      | none => (none, s)
      | some vids =>
          if vid ∈ vids then (some none, s)
          else
            let vlanOid := getNewIndex s.vlans.keys ∅
            (some (some vlanOid), { s with vlans := s.vlans.insert vlanOid { vid, vlanMembers := [] } })

/-- `sai_thrift_delete_vlan`. -/
def deleteVlan (s : Handler) (vlanOid : ℕ) : Option Unit × Handler :=
  (some (), { s with vlans := s.vlans.erase vlanOid })

/-- `sai_vlan_member_attr`. -/
inductive VlanMemberAttr where
  | vlanId (vlanOid : ℕ)
  | bridgePortId (bridgePortId : ℕ)
  | vlanTaggingMode (taggingMode : TaggingMode)
  | other

/-- The variables that the loop of `create_vlan_member` assigns. -/
structure VlanMemberLocals where
  vlanOid : Option ℕ := none
  bridgePortId : Option ℕ := none
  taggingMode : Option TaggingMode := none

/-- One turn of the loop of `create_vlan_member`. -/
def createVlanMemberAttr (locals : VlanMemberLocals) : VlanMemberAttr → VlanMemberLocals
  | .vlanId vlanOid => { locals with vlanOid := some vlanOid }
  | .bridgePortId bridgePortId => { locals with bridgePortId := some bridgePortId }
  | .vlanTaggingMode taggingMode => { locals with taggingMode := some taggingMode }
  | .other => locals

/-- The interface of a bridge port on the egress side: the LAG, or the port of the switch. -/
def outIf (s : Handler) (bridgePortId : ℕ) : Option ℕ :=
  (s.bridgePorts.lookup bridgePortId).bind fun bridgePort =>
    if bridgePort.portId ∈ s.lags then some bridgePort.portId
    else (s.ports.lookup bridgePort.portId).map Port.hwPort

/-- The entry of `table_egress_vlan_tag` for a tagging mode. -/
def addEgressVlanTag (s : Handler) (outIf vlanId : ℕ) : TaggingMode → Handler
  | .untagged => s.addTable .egressVlanTag .forwardVlanUntag [outIf, vlanId, 1] []
  | .tagged | .priorityTagged =>
      s.addTable .egressVlanTag .forwardVlanTag [outIf, vlanId, 0] [0, 0, vlanId]

/-- What `create_vlan_member` does after its loop. -/
def programVlanMember (s : Handler) (locals : VlanMemberLocals) : Option ℕ × Handler :=
  match locals.vlanOid with
  | none => (none, s)
  | some vlanOid =>
    match s.vlans.lookup vlanOid with
    | none => (none, s)
    | some vlanObj =>
      let vid := vlanObj.vid
      let vlanMemberId := getNewIndex s.vlanMembers.keys ∅
      match locals.bridgePortId with
      | none => (none, { s with vlanMembers := s.vlanMembers.insert vlanMemberId {} })
      | some bridgePortId =>
        match locals.taggingMode with
        | none =>
          let obj : VlanMember := { vlanOid, vid, bridgePortId }
          (none, { s with vlanMembers := s.vlanMembers.insert vlanMemberId obj })
        | some taggingMode =>
          let obj : VlanMember := { vlanOid, vid, bridgePortId, taggingMode }
          let s := { s with vlanMembers := s.vlanMembers.insert vlanMemberId obj }
          let s := { s with vlans := s.vlans.modify vlanOid fun vlanObj =>
            { vlanObj with vlanMembers := vlanObj.vlanMembers ++ [vlanMemberId] } }
          match s.outIf bridgePortId with
          | none => (none, s)
          | some outIf =>
            let s := s.addEgressVlanTag outIf vid taggingMode
            let s := s.addTable .egressVlanFiltering .nop [bridgePortId, vid] []
            let s := s.addTable .ingressVlanFiltering .nop [bridgePortId, vid] []
            (some vlanMemberId, s)

/-- `sai_thrift_create_vlan_member`. -/
def createVlanMember (s : Handler) (attrs : List VlanMemberAttr) : Option ℕ × Handler :=
  s.programVlanMember (attrs.foldl createVlanMemberAttr {})

/-- The entry of `table_egress_vlan_tag` that `remove_vlan_member` removes. -/
def removeEgressVlanTag (s : Handler) (outIf vid : ℕ) : TaggingMode → Handler
  | .untagged => s.removeTableEntry .egressVlanTag [outIf, vid, 1]
  | .tagged | .priorityTagged => s.removeTableEntry .egressVlanTag [outIf, vid, 0]

/-- `sai_thrift_remove_vlan_member`. -/
def removeVlanMember (s : Handler) (vlanMemberId : ℕ) : Option Unit × Handler :=
  match s.vlanMembers.lookup vlanMemberId with
  | none => (none, s)
  | some vlanMember =>
    let bridgePortId := vlanMember.bridgePortId
    let vid := vlanMember.vid
    let s := s.removeTableEntry .egressVlanFiltering [bridgePortId, vid]
    let s := s.removeTableEntry .ingressVlanFiltering [bridgePortId, vid]
    match (s.bridgePorts.lookup bridgePortId).bind fun bridgePort => s.ports.lookup bridgePort.portId with
    | none => (none, s)
    | some port =>
      let s := s.removeEgressVlanTag port.hwPort vid vlanMember.taggingMode
      match s.vlans.lookup vlanMember.vlanOid with
      | none => (none, s)
      | some vlan =>
        if vlanMemberId ∈ vlan.vlanMembers then
          let s := { s with vlans := s.vlans.modify vlanMember.vlanOid fun vlan =>
            { vlan with vlanMembers := vlan.vlanMembers.erase vlanMemberId } }
          (some (), { s with vlanMembers := s.vlanMembers.erase vlanMemberId })
        else (none, s)

/-! ### Bridge ports -/

/-- `sai_bridge_port_attr`. -/
inductive BridgePortAttr where
  | vlanId (vlanId : ℕ)
  | bridgeId (bridgeId : ℕ)
  | type (type : BridgePortType)
  | portId (portId : ℕ)
  | other

/-- The variables that the loop of `create_bridge_port` assigns. -/
structure BridgePortLocals where
  vlanId : Option ℕ := none
  bridgeId : Option ℕ := none
  bridgePortType : Option BridgePortType := none
  portId : Option ℕ := none

/-- One turn of the loop of `create_bridge_port`. -/
def createBridgePortAttr (locals : BridgePortLocals) : BridgePortAttr → BridgePortLocals
  | .vlanId vlanId => { locals with vlanId := some vlanId }
  | .bridgeId bridgeId => { locals with bridgeId := some bridgeId }
  | .type type => { locals with bridgePortType := some type }
  | .portId portId => { locals with portId := some portId }
  | .other => locals

/-- The entries of `create_bridge_port` that depend on the type, and `l2_if_type`. -/
def addBridgeId (s : Handler) (brPort vlanId : ℕ) (bridgeId : Option ℕ) :
    BridgePortType → Option (Option ℕ) × Handler
  | .subPort =>
      let s := s.removeTableEntry .bridgeId1d [brPort]
      let s := s.removeTableEntry .egressSetVlan [brPort]
      match bridgeId with
      | none => (none, s)
      | some bridgeId =>
        let s := s.addTable .bridgeId1d .setBridgeId [brPort] [bridgeId]
        let s := s.addTable .egressSetVlan .setVlan [brPort] [vlanId]
        (some (some 2), s)
  | .port =>
      let s := s.removeTableEntry .bridgeId1q [brPort]
      match bridgeId with
      | none => (none, s)
      | some bridgeId => (some (some 3), s.addTable .bridgeId1q .setBridgeId [vlanId] [bridgeId])
  | .other => (some none, s)

/-- The bind mode that counts for a LAG, the one of the port of its first member. -/
def lagBindMode (s : Handler) (lagId : ℕ) : Option BindMode :=
  (s.lagMembersOf lagId).head?.bind fun lagMemberId =>
    (s.lagMembers.lookup lagMemberId).bind fun lagMember =>
      (s.ports.lookup lagMember.portId).map Port.bindMode

/-- The entry of `create_bridge_port` on the egress side, and `bind_mode`. -/
def addEgressIf (s : Handler) (brPort portId : ℕ) : Option BindMode × Handler :=
  let s := s.removeTableEntry .egressBrPortToIf [brPort]
  if portId ∈ s.lags then
    (s.lagBindMode portId, s.addTable .egressBrPortToIf .forwardSetOutIfType [brPort] [portId, 1])
  else
    match s.ports.lookup portId with
    | none => (none, s)
    | some port =>
        (some port.bindMode, s.addTable .egressBrPortToIf .forwardSetOutIfType [brPort] [port.hwPort, 0])

/-- The entry of `create_bridge_port` on the ingress side. -/
def addIngressIf (s : Handler) (brPort portId vlanId : ℕ) (l2IfType : Option ℕ) :
    BindMode → Option Unit × Handler
  | .subPort =>
      match l2IfType with
      | none => (none, s)
      | some l2IfType => (some (), s.addTable .subportIngressInterfaceType .setL2IfType
          [portId, vlanId] [l2IfType, brPort])
  | .port => (some (), s.addTable .portIngressInterfaceType .setL2IfType [portId] [brPort])

/-- What `create_bridge_port` writes into the tables. -/
def addBridgePortEntries (s : Handler) (brPort portId vlanId : ℕ) (bridgeId : Option ℕ)
    (bridgePortType : BridgePortType) : Option Unit × Handler :=
  match s.addBridgeId brPort vlanId bridgeId bridgePortType with
  | (none, s) => (none, s)
  | (some l2IfType, s) =>
    match s.addEgressIf brPort portId with
    | (none, s) => (none, s)
    | (some bindMode, s) => s.addIngressIf brPort portId vlanId l2IfType bindMode

/-- What `create_bridge_port` does after its loop. -/
def programBridgePort (s : Handler) (locals : BridgePortLocals) : Option ℕ × Handler :=
  let brPort := getNewIndex s.bridgePorts.keys ∅
  match locals.portId with
  | none => (none, { s with bridgePorts := s.bridgePorts.insert brPort {} })
  | some portId =>
    match locals.vlanId with
    | none => (none, { s with bridgePorts := s.bridgePorts.insert brPort { portId } })
    | some vlanId =>
      match locals.bridgePortType with
      | none => (none, { s with bridgePorts := s.bridgePorts.insert brPort { portId, vlanId } })
      | some bridgePortType =>
        let obj : BridgePort := { portId, vlanId, type := some bridgePortType }
        let s := { s with bridgePorts := s.bridgePorts.insert brPort obj }
        match s.addBridgePortEntries brPort portId vlanId locals.bridgeId bridgePortType with
        | (none, s) => (none, s)
        | (some _, s) => (some brPort, s)

/-- `sai_thrift_create_bridge_port`. -/
def createBridgePort (s : Handler) (attrs : List BridgePortAttr) : Option ℕ × Handler :=
  s.programBridgePort (attrs.foldl createBridgePortAttr {})

/-- The entry of the bridge id that `remove_bridge_port` removes. -/
def removeBridgeId (s : Handler) (bridgePortId vlanId : ℕ) : BridgePortType → Handler
  | .subPort =>
      (s.removeTableEntry .bridgeId1d [bridgePortId]).removeTableEntry .egressSetVlan [bridgePortId]
  | .port | .other => s.removeTableEntry .bridgeId1d [vlanId]

/-- `sai_thrift_remove_bridge_port`. -/
def removeBridgePort (s : Handler) (bridgePortId : ℕ) : Option Unit × Handler :=
  match s.bridgePorts.lookup bridgePortId with
  | none => (none, s)
  | some brPort =>
    let s := { s with bridgePorts := s.bridgePorts.erase bridgePortId }
    match brPort.type with
    | none => (none, s)
    | some type =>
      let s := s.removeBridgeId bridgePortId brPort.vlanId type
      -- the switch has no table of this name
      let s := s.removeTableEntry .ingressL2InterfaceType [brPort.portId, brPort.vlanId]
      let s := s.removeTableEntry .egressBrPortToIf [bridgePortId]
      (some (), s)

end Handler

end Bm.Sai
