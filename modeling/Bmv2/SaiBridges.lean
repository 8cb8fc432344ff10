/-
# VLAN members and bridge ports of the SAI server

What is left of a VLAN member, or of a bridge port, that is created and removed at once.  The removal
recomputes the tables and the keys of the entries from the objects, and does not always come to the ones
that were written: a LAG is looked up among the ports, the bridge id of a VLAN is removed from the table
of the sub-ports, and the type of the ingress interface from a table that the switch does not have.

* `Handler.undo_laws`: for each pair of calls, the states in which it leaves nothing behind.
-/
import Bmv2.SaiLags

namespace Bm.Sai

/-- A call. -/
inductive Op where
  | lag (op : LagOp)
  | createVlan (attrs : List Handler.VlanAttr)
  | deleteVlan (vlanOid : ℕ)
  | createVlanMember (attrs : List Handler.VlanMemberAttr)
  | removeVlanMember (vlanMemberId : ℕ)
  | createBridgePort (attrs : List Handler.BridgePortAttr)
  | removeBridgePort (bridgePortId : ℕ)

namespace Tables

variable {tables : Tables}

theorem removeTableEntry_apply (table t : Table) (key k : List ℕ) :
    tables.removeTableEntry table key t k = if t = table ∧ k = key then none else tables t k := rfl

theorem addTable_apply (table t : Table) (action : Action) (key args k : List ℕ) :
    tables.addTable table action key args t k =
      if t = table ∧ k = key then some ((tables table key).getD (action, args)) else tables t k := by
  rw [addTable]
  cases h : tables table key with
  | none => rfl
  | some entry =>
    dsimp only
    split
    next heq => rw [heq.1, heq.2, h, Option.getD_some]
    next => rfl

end Tables

namespace Handler

/-- One call, whether it raises or not. -/
def step (s : Handler) : Op → Option Handler
  | .lag op => s.lagStep op
  | .createVlan attrs => some (s.createVlan attrs).2
  | .deleteVlan vlanOid => some (s.deleteVlan vlanOid).2
  | .createVlanMember attrs => some (s.createVlanMember attrs).2
  | .removeVlanMember vlanMemberId => some (s.removeVlanMember vlanMemberId).2
  | .createBridgePort attrs => some (s.createBridgePort attrs).2
  | .removeBridgePort bridgePortId => some (s.removeBridgePort bridgePortId).2

/-- An object that is created, and removed by the id that the call returned: neither call raises, and
the handler is as it was. -/
def Undone (s : Handler) (create : Handler → Option ℕ × Handler)
    (remove : Handler → ℕ → Option Unit × Handler) : Prop :=
  ∃ id s', create s = (some id, s') ∧ remove s' id = (some (), s)

/-- The last key of an entry of `table_egress_vlan_tag`. -/
def tagKey : TaggingMode → ℕ
  | .untagged => 1
  | .tagged | .priorityTagged => 0

/-- The entries of a new VLAN member are on a port, and there are none with their keys. -/
def FreshVlanMember (s : Handler) (vid bridgePortId portId : ℕ) (taggingMode : TaggingMode) : Prop :=
  ∃ port, s.ports.lookup portId = some port ∧
    s.tables .egressVlanTag [port.hwPort, vid, tagKey taggingMode] = none ∧
    s.tables .egressVlanFiltering [bridgePortId, vid] = none ∧
    s.tables .ingressVlanFiltering [bridgePortId, vid] = none

/-- The bind mode of a port, or of a LAG. -/
def bindModeOf (s : Handler) (portId : ℕ) : Option BindMode :=
  if portId ∈ s.lags then s.lagBindMode portId else (s.ports.lookup portId).map Port.bindMode

/-- The type of the ingress interface is there already. -/
def HasIngressIf (s : Handler) (portId vlanId : ℕ) : BindMode → Prop
  | .subPort => s.tables .subportIngressInterfaceType [portId, vlanId] ≠ none
  | .port => s.tables .portIngressInterfaceType [portId] ≠ none

/-- The bridge id of the VLAN is there already, none for the new bridge port, and no sub-port is
numbered as the VLAN. -/
def HasBridgeId (s : Handler) (brPort vlanId bridgeId : ℕ) : BridgePortType → Prop
  | .port => s.tables .bridgeId1d [vlanId] = none ∧
      if vlanId = brPort then s.tables .bridgeId1q [vlanId] = some (.setBridgeId, [bridgeId])
      else s.tables .bridgeId1q [vlanId] ≠ none ∧ s.tables .bridgeId1q [brPort] = none
  | .subPort | .other => True

/-! ## What the objects say of the tables -/

/-- The entries of the tables of the bridge ports are of bridge ports of their type. -/
def Allowed (s : Handler) (table : Table) (key : List ℕ) : Prop :=
  match table with
  | .bridgeId1d | .egressSetVlan => ∀ id, key = [id] →
      ∃ obj : BridgePort, s.bridgePorts.lookup id = some obj ∧ obj.type = some .subPort
  | .egressBrPortToIf => ∀ id, key = [id] →
      ∃ obj : BridgePort, s.bridgePorts.lookup id = some obj ∧ obj.type ≠ none
  | .ingressL2InterfaceType => False
  | _ => True

/-- The invariant of all runs. -/
structure BridgeInv (s : Handler) : Prop where
  disjoint : ∀ id, id ∈ s.ports → id ∉ s.lags
  nodup : ∀ v (vlan : Vlan), s.vlans.lookup v = some vlan → vlan.vlanMembers.Nodup
  members : ∀ v (vlan : Vlan), s.vlans.lookup v = some vlan → ∀ m ∈ vlan.vlanMembers,
    ∃ obj : VlanMember, s.vlanMembers.lookup m = some obj ∧ obj.vlanOid = v
  tables : ∀ t k, s.tables t k ≠ none → s.Allowed t k

/-- Only allowed entries are added, and the bridge ports are the same. -/
structure Writes (s s' : Handler) : Prop where
  bridgePorts : s'.bridgePorts = s.bridgePorts
  tables : ∀ t k, s'.tables t k ≠ none → s.tables t k ≠ none ∨ s.Allowed t k

/-- The objects are the same. -/
def OnlyTables (s s' : Handler) : Prop := ∃ tables, s' = { s with tables }

/-- The VLANs are the same. -/
structure SameVlans (s s' : Handler) : Prop where
  vlans : s'.vlans = s.vlans
  vlanMembers : s'.vlanMembers = s.vlanMembers

section Frames

variable {s s' s'' : Handler}

theorem allowed_congr (h : s'.bridgePorts = s.bridgePorts) (t : Table) (k : List ℕ) :
    s'.Allowed t k = s.Allowed t k := by
  simp only [Allowed, h]

@[simp] theorem tables_addTable (table : Table) (action : Action) (key args : List ℕ) :
    (s.addTable table action key args).tables = s.tables.addTable table action key args := rfl

@[simp] theorem tables_removeTableEntry (table : Table) (key : List ℕ) :
    (s.removeTableEntry table key).tables = s.tables.removeTableEntry table key := rfl

@[simp] theorem ports_addTable (table : Table) (action : Action) (key args : List ℕ) :
    (s.addTable table action key args).ports = s.ports := rfl

@[simp] theorem ports_removeTableEntry (table : Table) (key : List ℕ) :
    (s.removeTableEntry table key).ports = s.ports := rfl

@[simp] theorem lags_addTable (table : Table) (action : Action) (key args : List ℕ) :
    (s.addTable table action key args).lags = s.lags := rfl

@[simp] theorem lags_removeTableEntry (table : Table) (key : List ℕ) :
    (s.removeTableEntry table key).lags = s.lags := rfl

@[simp] theorem vlans_addTable (table : Table) (action : Action) (key args : List ℕ) :
    (s.addTable table action key args).vlans = s.vlans := rfl

@[simp] theorem vlans_removeTableEntry (table : Table) (key : List ℕ) :
    (s.removeTableEntry table key).vlans = s.vlans := rfl

@[simp] theorem vlanMembers_addTable (table : Table) (action : Action) (key args : List ℕ) :
    (s.addTable table action key args).vlanMembers = s.vlanMembers := rfl

@[simp] theorem vlanMembers_removeTableEntry (table : Table) (key : List ℕ) :
    (s.removeTableEntry table key).vlanMembers = s.vlanMembers := rfl

theorem OnlyTables.trans (h : OnlyTables s s') (h' : OnlyTables s' s'') : OnlyTables s s'' := by
  obtain ⟨tables, rfl⟩ := h
  obtain ⟨tables', rfl⟩ := h'
  exact ⟨tables', rfl⟩

theorem Writes.refl (s : Handler) : Writes s s := ⟨rfl, fun _ _ => Or.inl⟩

theorem Writes.trans (h : Writes s s') (h' : Writes s' s'') : Writes s s'' := by
  refine ⟨h'.bridgePorts.trans h.bridgePorts, fun t k hk => ?_⟩
  rcases h'.tables t k hk with hk | hk
  · exact h.tables t k hk
  · exact Or.inr (allowed_congr h.bridgePorts t k ▸ hk)

theorem Writes.addTable (h : Writes s s') (table : Table) (action : Action) (key args : List ℕ)
    (hallowed : s.Allowed table key) : Writes s (s'.addTable table action key args) := by
  refine ⟨h.bridgePorts, fun t k hk => ?_⟩
  rw [tables_addTable, Tables.addTable_apply] at hk
  split at hk
  next heq => exact Or.inr (heq.1 ▸ heq.2 ▸ hallowed)
  next => exact h.tables t k hk

theorem Writes.removeTableEntry (h : Writes s s') (table : Table) (key : List ℕ) :
    Writes s (s'.removeTableEntry table key) := by
  refine ⟨h.bridgePorts, fun t k hk => ?_⟩
  rw [tables_removeTableEntry, Tables.removeTableEntry_apply] at hk
  split at hk
  next => exact absurd rfl hk
  next => exact h.tables t k hk

theorem SameVlans.trans (h : SameVlans s s') (h' : SameVlans s' s'') : SameVlans s s'' :=
  ⟨h'.vlans.trans h.vlans, h'.vlanMembers.trans h.vlanMembers⟩

theorem createPortAttr_frame (port : ℕ) (r : Handler × Option (List ℕ)) (attr : PortAttr) :
    Writes r.1 (createPortAttr port r attr).1 ∧ SameVlans r.1 (createPortAttr port r attr).1 := by
  cases attr with
  | portVlanId vlanId =>
    refine ⟨Writes.addTable ?_ .portPvid _ _ _ trivial, rfl, rfl⟩
    exact ⟨rfl, fun _ _ => Or.inl⟩
  | bindMode bindMode =>
    refine ⟨Writes.addTable ?_ .portMode _ _ _ trivial, rfl, rfl⟩
    exact ⟨rfl, fun _ _ => Or.inl⟩
  | hwLaneList hwPortList => exact ⟨Writes.refl _, rfl, rfl⟩
  | other => exact ⟨Writes.refl _, rfl, rfl⟩

theorem createPort_frame (attrs : List PortAttr) :
    Writes s (s.createPort attrs).2 ∧ SameVlans s (s.createPort attrs).2 := by
  have hloop : ∀ r : Handler × Option (List ℕ), Writes s r.1 ∧ SameVlans s r.1 →
      Writes s (attrs.foldl (createPortAttr s.newPort) r).1 ∧
        SameVlans s (attrs.foldl (createPortAttr s.newPort) r).1 := by
    intro r hr
    induction attrs generalizing r with
    | nil => exact hr
    | cons attr attrs ih =>
      obtain ⟨hwrites, hvlans⟩ := createPortAttr_frame s.newPort r attr
      exact ih _ ⟨hr.1.trans hwrites, hr.2.trans hvlans⟩
  obtain ⟨hwrites, hvlans⟩ := hloop ({ s with ports := s.ports.insert s.newPort {} }, none)
    ⟨⟨rfl, fun _ _ => Or.inl⟩, rfl, rfl⟩
  rw [createPort]
  dsimp only [newPort] at hwrites hvlans ⊢
  split
  · refine ⟨Writes.addTable ?_ .ingressLag _ _ _ trivial, hvlans.vlans, hvlans.vlanMembers⟩
    exact ⟨hwrites.bridgePorts, hwrites.tables⟩
  · exact ⟨hwrites, hvlans⟩

theorem removePort_frame (portId : ℕ) :
    Writes s (s.removePort portId).2 ∧ SameVlans s (s.removePort portId).2 := by
  rw [removePort]
  split
  · exact ⟨Writes.refl s, rfl, rfl⟩
  next port hport =>
    have hwrites := ((Writes.refl s).removeTableEntry .ingressLag [port.hwPort]
      ).removeTableEntry .portPvid [portId]
    exact ⟨⟨hwrites.bridgePorts, hwrites.tables⟩, rfl, rfl⟩

theorem createLagMemberAttrs_frame (m : ℕ) (attrs : List LagMemberAttr) (locals : Option ℕ × Option ℕ)
    (s : Handler) : Writes s (createLagMemberAttrs m attrs locals s).2 ∧
      SameVlans s (createLagMemberAttrs m attrs locals s).2 := by
  induction attrs generalizing locals s with
  | nil => exact ⟨Writes.refl s, rfl, rfl⟩
  | cons attr attrs ih =>
    cases attr with
    | portId portId =>
      obtain ⟨hwrites, hvlans⟩ := ih (some portId, locals.2)
        { s with lagMembers := s.lagMembers.modify m fun obj => { obj with portId } }
      exact ⟨⟨hwrites.bridgePorts, hwrites.tables⟩, hvlans.vlans, hvlans.vlanMembers⟩
    | lagId lagId =>
      rw [createLagMemberAttrs]
      dsimp only
      split
      · obtain ⟨hwrites, hvlans⟩ := ih (locals.1, some lagId)
          { s with
            lagMembers := s.lagMembers.modify m fun obj => { obj with lagId }
            defaultLagMembers := s.defaultLagMembers ++ [m] }
        exact ⟨⟨hwrites.bridgePorts, hwrites.tables⟩, hvlans.vlans, hvlans.vlanMembers⟩
      · exact ⟨⟨rfl, fun _ _ => Or.inl⟩, rfl, rfl⟩
    | other => exact ih locals s

theorem programLagMember_frame (m : ℕ) (portId lagId : Option ℕ) :
    Writes s (s.programLagMember m portId lagId).2 ∧
      SameVlans s (s.programLagMember m portId lagId).2 := by
  rw [programLagMember]
  split
  · exact ⟨Writes.refl s, rfl, rfl⟩
  next port hport =>
    have hfirst : Writes s (s.removeTableEntry .ingressLag [port.hwPort]) :=
      (Writes.refl s).removeTableEntry .ingressLag _
    cases lagId with
    | none => exact ⟨hfirst, rfl, rfl⟩
    | some lagId =>
      refine ⟨?_, by simp only [vlans_addTable, vlans_removeTableEntry],
        by simp only [vlanMembers_addTable, vlanMembers_removeTableEntry]⟩
      apply Writes.addTable _ .portMode _ _ _ trivial
      apply Writes.addTable _ .portPvid _ _ _ trivial
      apply Writes.removeTableEntry _ .portMode
      apply Writes.removeTableEntry _ .portPvid
      apply Writes.addTable _ .egressLag _ _ _ trivial
      apply Writes.addTable _ .lagHash _ _ _ trivial
      apply Writes.removeTableEntry _ .lagHash
      exact hfirst.addTable .ingressLag _ _ _ trivial

theorem createLagMember_frame (attrs : List LagMemberAttr) :
    Writes s (s.createLagMember attrs).2 ∧ SameVlans s (s.createLagMember attrs).2 := by
  obtain ⟨hwrites, hvlans⟩ := createLagMemberAttrs_frame (getNewIndex s.lagMembers.keys ∅) attrs
    (none, none) { s with lagMembers := s.lagMembers.insert (getNewIndex s.lagMembers.keys ∅) {} }
  rw [createLagMember]
  split
  next s₁ heq =>
    rw [heq] at hwrites hvlans
    exact ⟨⟨hwrites.bridgePorts, hwrites.tables⟩, hvlans.vlans, hvlans.vlanMembers⟩
  next portId lagId s₁ heq =>
    rw [heq] at hwrites hvlans
    obtain ⟨hwrites', hvlans'⟩ := programLagMember_frame (s := s₁)
      (getNewIndex s.lagMembers.keys ∅) portId lagId
    exact ⟨Writes.trans ⟨hwrites.bridgePorts, hwrites.tables⟩ hwrites',
      SameVlans.trans ⟨hvlans.vlans, hvlans.vlanMembers⟩ hvlans'⟩

/-- **Frame lemma** of the calls for ports and LAGs. -/
theorem lagStep_frame {op : LagOp} (hstep : s.lagStep op = some s') : Writes s s' ∧ SameVlans s s' := by
  cases op <;> cases hstep
  case createPort attrs => exact createPort_frame attrs
  case removePort portId => exact removePort_frame portId
  case createLag => exact ⟨⟨rfl, fun _ _ => Or.inl⟩, rfl, rfl⟩
  case removeLag lagId => exact ⟨⟨rfl, fun _ _ => Or.inl⟩, rfl, rfl⟩
  case createLagMember attrs => exact createLagMember_frame attrs
  case removeLagMember m =>
    rw [removeLagMember]
    split
    · exact ⟨Writes.refl s, rfl, rfl⟩
    · dsimp only
      split <;> exact ⟨⟨rfl, fun _ _ => Or.inl⟩, rfl, rfl⟩

end Frames

/-! ## The invariant of a step -/

/-- The id of a new VLAN member. -/
def newVlanMember (s : Handler) : ℕ := getNewIndex s.vlanMembers.keys ∅

/-- The id of a new bridge port. -/
def newBridgePort (s : Handler) : ℕ := getNewIndex s.bridgePorts.keys ∅

section Steps

variable {s s' : Handler}

theorem newVlanMember_notMem (s : Handler) : s.newVlanMember ∉ s.vlanMembers := fun h =>
  (getNewIndex_spec s.vlanMembers.keys ∅).1 (Finmap.mem_keys.mpr h)

theorem newBridgePort_notMem (s : Handler) : s.newBridgePort ∉ s.bridgePorts := fun h =>
  (getNewIndex_spec s.bridgePorts.keys ∅).1 (Finmap.mem_keys.mpr h)

theorem BridgeInv.of_writes (h : s.BridgeInv) (hwrites : Writes s s') (hvlans : SameVlans s s')
    (hdisjoint : ∀ id, id ∈ s'.ports → id ∉ s'.lags) : s'.BridgeInv where
  disjoint := hdisjoint
  nodup v vlan hvlan := h.nodup v vlan (hvlans.vlans ▸ hvlan)
  members v vlan hvlan := by
    rw [hvlans.vlans] at hvlan
    rw [hvlans.vlanMembers]
    exact h.members v vlan hvlan
  tables t k hk := by
    rw [allowed_congr hwrites.bridgePorts]
    exact (hwrites.tables t k hk).elim (h.tables t k) id

theorem BridgeInv.newVlanMember_notMem (h : s.BridgeInv) {v : ℕ} {vlan : Vlan}
    (hvlan : s.vlans.lookup v = some vlan) : s.newVlanMember ∉ vlan.vlanMembers := by
  intro hm
  obtain ⟨obj, hobj, -⟩ := h.members v vlan hvlan _ hm
  exact s.newVlanMember_notMem (Finmap.mem_of_lookup_eq_some hobj)

theorem BridgeInv.insertVlanMember (h : s.BridgeInv) (obj : VlanMember) :
    BridgeInv { s with vlanMembers := s.vlanMembers.insert s.newVlanMember obj } where
  disjoint := h.disjoint
  nodup := h.nodup
  members v vlan hvlan m hm := by
    rw [Dict.lookup_insert, if_neg]
    · exact h.members v vlan hvlan m hm
    · rintro rfl
      exact h.newVlanMember_notMem hvlan hm
  tables := h.tables

theorem BridgeInv.appendVlanMember (h : s.BridgeInv) {v m : ℕ} {obj : VlanMember}
    (hobj : s.vlanMembers.lookup m = some obj) (hv : obj.vlanOid = v)
    (hfresh : ∀ vlan : Vlan, s.vlans.lookup v = some vlan → m ∉ vlan.vlanMembers) :
    BridgeInv { s with vlans := s.vlans.modify v fun vlan =>
      { vlan with vlanMembers := vlan.vlanMembers ++ [m] } } where
  disjoint := h.disjoint
  nodup v' vlan' hvlan' := by
    rw [Dict.lookup_modify] at hvlan'
    split at hvlan'
    next =>
      obtain ⟨vlan, hvlan, rfl⟩ := Option.map_eq_some_iff.mp hvlan'
      exact (h.nodup v vlan hvlan).append (List.nodup_singleton m)
        (List.disjoint_singleton.mpr (hfresh vlan hvlan))
    next => exact h.nodup v' vlan' hvlan'
  members v' vlan' hvlan' m' hm' := by
    rw [Dict.lookup_modify] at hvlan'
    split at hvlan'
    next heq =>
      obtain ⟨vlan, hvlan, rfl⟩ := Option.map_eq_some_iff.mp hvlan'
      rcases List.mem_append.mp hm' with hm' | hm'
      · exact heq ▸ h.members v vlan hvlan m' hm'
      · exact ⟨obj, List.mem_singleton.mp hm' ▸ hobj, hv.trans heq.symm⟩
    next => exact h.members v' vlan' hvlan' m' hm'
  tables := h.tables

theorem Writes.addEgressVlanTag (h : Writes s s') (outIf vid : ℕ) (taggingMode : TaggingMode) :
    Writes s (s'.addEgressVlanTag outIf vid taggingMode) := by
  cases taggingMode <;> exact h.addTable .egressVlanTag _ _ _ trivial

theorem Writes.removeEgressVlanTag (h : Writes s s') (outIf vid : ℕ) (taggingMode : TaggingMode) :
    Writes s (s'.removeEgressVlanTag outIf vid taggingMode) := by
  cases taggingMode <;> exact h.removeTableEntry .egressVlanTag _

theorem BridgeInv.programVlanMember (h : s.BridgeInv) (locals : VlanMemberLocals) :
    (s.programVlanMember locals).2.BridgeInv := by
  rw [Handler.programVlanMember]
  split
  · exact h
  next vlanOid _ =>
  split
  · exact h
  next vlanObj hvlan =>
  dsimp only
  split
  · exact h.insertVlanMember {}
  next bridgePortId _ =>
  split
  · exact h.insertVlanMember _
  next taggingMode _ =>
  -- the object is in the dictionary before it is in the list
  have hinv := (h.insertVlanMember { vlanOid, vid := vlanObj.vid, bridgePortId, taggingMode }
    ).appendVlanMember (v := vlanOid) (Finmap.lookup_insert _) rfl fun vlan => h.newVlanMember_notMem
  split
  · exact hinv
  next outIf _ =>
  apply hinv.of_writes
  · apply Writes.addTable _ .ingressVlanFiltering _ _ _ trivial
    apply Writes.addTable _ .egressVlanFiltering _ _ _ trivial
    exact Writes.addEgressVlanTag (Writes.refl _) _ _ _
  · cases taggingMode <;> exact ⟨rfl, rfl⟩
  · cases taggingMode <;> exact h.disjoint

theorem BridgeInv.removeVlanMember (h : s.BridgeInv) (m : ℕ) : (s.removeVlanMember m).2.BridgeInv := by
  rw [Handler.removeVlanMember]
  split
  · exact h
  next vlanMember hmember =>
  dsimp only
  have hwrites := ((Writes.refl s).removeTableEntry .egressVlanFiltering
    [vlanMember.bridgePortId, vlanMember.vid]).removeTableEntry .ingressVlanFiltering
      [vlanMember.bridgePortId, vlanMember.vid]
  split
  · exact h.of_writes hwrites ⟨rfl, rfl⟩ h.disjoint
  next port _ =>
  have hinv : BridgeInv (((s.removeTableEntry .egressVlanFiltering [vlanMember.bridgePortId,
      vlanMember.vid]).removeTableEntry .ingressVlanFiltering [vlanMember.bridgePortId,
        vlanMember.vid]).removeEgressVlanTag port.hwPort vlanMember.vid vlanMember.taggingMode) := by
    apply h.of_writes (hwrites.removeEgressVlanTag _ _ _)
    · cases vlanMember.taggingMode <;> exact ⟨rfl, rfl⟩
    · cases vlanMember.taggingMode <;> exact h.disjoint
  split
  · exact hinv
  split
  · refine ⟨hinv.disjoint, fun v' vlan' hvlan' => ?_, fun v' vlan' hvlan' m' hm' => ?_, hinv.tables⟩
    · rw [Dict.lookup_modify] at hvlan'
      split at hvlan'
      next =>
        obtain ⟨vlan, hvlan, rfl⟩ := Option.map_eq_some_iff.mp hvlan'
        exact (hinv.nodup _ vlan hvlan).erase m
      next => exact hinv.nodup v' vlan' hvlan'
    · rw [Dict.lookup_modify] at hvlan'
      rw [Dict.lookup_erase]
      split at hvlan'
      next heq =>
        obtain ⟨vlan, hvlan, rfl⟩ := Option.map_eq_some_iff.mp hvlan'
        obtain ⟨hne, hm'⟩ := (List.Nodup.mem_erase_iff (hinv.nodup _ vlan hvlan)).mp hm'
        rw [if_neg hne]
        exact heq ▸ hinv.members _ vlan hvlan m' hm'
      next hne =>
        -- the member is in no other list than the one of its VLAN
        obtain ⟨obj, hobj, hv⟩ := hinv.members v' vlan' hvlan' m' hm'
        rw [if_neg]
        · exact ⟨obj, hobj, hv⟩
        · rintro rfl
          have hsame : s.vlanMembers.lookup m' = some obj := by
            rw [← hobj]
            cases vlanMember.taggingMode <;> rfl
          rw [hmember] at hsame
          exact hne (hv.symm.trans (congrArg VlanMember.vlanOid (Option.some.inj hsame).symm))
  · exact hinv

theorem allowed_insertBridgePort (h : s.BridgeInv) (obj : BridgePort) (t : Table) (k : List ℕ)
    (hk : s.tables t k ≠ none) :
    Allowed { s with bridgePorts := s.bridgePorts.insert s.newBridgePort obj } t k := by
  have hold := h.tables t k hk
  -- the new id is not the one of an object that is there
  have hne {id : ℕ} {old : BridgePort} (hlookup : s.bridgePorts.lookup id = some old) :
      Finmap.lookup id (s.bridgePorts.insert s.newBridgePort obj) = some old := by
    rw [Dict.lookup_insert, if_neg, hlookup]
    rintro rfl
    exact s.newBridgePort_notMem (Finmap.mem_of_lookup_eq_some hlookup)
  cases t <;> simp only [Allowed] at hold ⊢
  case bridgeId1d | egressSetVlan | egressBrPortToIf =>
    intro id hid
    obtain ⟨old, hlookup, htype⟩ := hold id hid
    exact ⟨old, hne hlookup, htype⟩

theorem BridgeInv.insertBridgePort (h : s.BridgeInv) (obj : BridgePort) :
    BridgeInv { s with bridgePorts := s.bridgePorts.insert s.newBridgePort obj } :=
  ⟨h.disjoint, h.nodup, h.members, allowed_insertBridgePort h obj⟩

theorem addBridgeId_writes {brPort vlanId : ℕ} {bridgeId : Option ℕ} {obj : BridgePort}
    {type : BridgePortType} (hobj : s.bridgePorts.lookup brPort = some obj) (htype : obj.type = some type) :
    Writes s (s.addBridgeId brPort vlanId bridgeId type).2 := by
  cases type with
  | subPort =>
    have hallowed (id : ℕ) (hid : [brPort] = [id]) :
        ∃ obj : BridgePort, s.bridgePorts.lookup id = some obj ∧ obj.type = some .subPort := by
      obtain rfl := List.singleton_inj.mp hid
      exact ⟨obj, hobj, htype⟩
    have hremoved := ((Writes.refl s).removeTableEntry .bridgeId1d [brPort]).removeTableEntry
      .egressSetVlan [brPort]
    cases bridgeId with
    | none => exact hremoved
    | some bridgeId =>
      exact (hremoved.addTable .bridgeId1d _ _ _ hallowed).addTable .egressSetVlan _ _ _ hallowed
  | port =>
    have hremoved := (Writes.refl s).removeTableEntry .bridgeId1q [brPort]
    cases bridgeId with
    | none => exact hremoved
    | some bridgeId => exact hremoved.addTable .bridgeId1q _ _ _ trivial
  | other => exact Writes.refl s

theorem addEgressIf_writes {brPort : ℕ} {obj : BridgePort} (portId : ℕ)
    (hobj : s.bridgePorts.lookup brPort = some obj) (htype : obj.type ≠ none) :
    Writes s (s.addEgressIf brPort portId).2 := by
  have hallowed : s.Allowed .egressBrPortToIf [brPort] := by
    intro id hid
    obtain rfl := List.singleton_inj.mp hid
    exact ⟨obj, hobj, htype⟩
  have hremoved := (Writes.refl s).removeTableEntry .egressBrPortToIf [brPort]
  rw [addEgressIf]
  split
  · exact hremoved.addTable .egressBrPortToIf _ _ _ hallowed
  · split
    · exact hremoved
    · exact hremoved.addTable .egressBrPortToIf _ _ _ hallowed

theorem addIngressIf_writes (brPort portId vlanId : ℕ) (l2IfType : Option ℕ) (bindMode : BindMode) :
    Writes s (s.addIngressIf brPort portId vlanId l2IfType bindMode).2 := by
  cases bindMode with
  | subPort =>
    cases l2IfType with
    | none => exact Writes.refl s
    | some l2IfType => exact (Writes.refl s).addTable .subportIngressInterfaceType _ _ _ trivial
  | port => exact (Writes.refl s).addTable .portIngressInterfaceType _ _ _ trivial

theorem addBridgePortEntries_writes {brPort : ℕ} {obj : BridgePort} {type : BridgePortType}
    (portId vlanId : ℕ) (bridgeId : Option ℕ) (hobj : s.bridgePorts.lookup brPort = some obj)
    (htype : obj.type = some type) :
    Writes s (s.addBridgePortEntries brPort portId vlanId bridgeId type).2 := by
  have hid : Writes s (s.addBridgeId brPort vlanId bridgeId type).2 := addBridgeId_writes hobj htype
  rw [addBridgePortEntries]
  split
  next s₁ heq => exact (congrArg Prod.snd heq : _ = s₁) ▸ hid
  next l2IfType s₁ heq =>
  rw [heq] at hid
  have hobj₁ : s₁.bridgePorts.lookup brPort = some obj := hid.bridgePorts ▸ hobj
  have hegress := hid.trans (addEgressIf_writes portId hobj₁ (htype ▸ Option.some_ne_none type))
  split
  next s₂ heq₂ => exact (congrArg Prod.snd heq₂ : _ = s₂) ▸ hegress
  next bindMode s₂ heq₂ =>
  rw [heq₂] at hegress
  exact hegress.trans (addIngressIf_writes _ _ _ _ _)

/-- The entries of a bridge port are all that `create_bridge_port` writes besides the object. -/
theorem addBridgePortEntries_onlyTables (s : Handler) (brPort portId vlanId : ℕ) (bridgeId : Option ℕ)
    (type : BridgePortType) :
    OnlyTables s (s.addBridgePortEntries brPort portId vlanId bridgeId type).2 := by
  have hid : OnlyTables s (s.addBridgeId brPort vlanId bridgeId type).2 := by
    cases type <;> cases bridgeId <;> exact ⟨_, rfl⟩
  have hegress (s : Handler) : OnlyTables s (s.addEgressIf brPort portId).2 := by
    rw [addEgressIf]
    split
    · exact ⟨_, rfl⟩
    · split <;> exact ⟨_, rfl⟩
  have hingress (s : Handler) (l2IfType : Option ℕ) (bindMode : BindMode) :
      OnlyTables s (s.addIngressIf brPort portId vlanId l2IfType bindMode).2 := by
    cases bindMode <;> cases l2IfType <;> exact ⟨_, rfl⟩
  rw [addBridgePortEntries]
  split
  next s₁ heq => exact (congrArg Prod.snd heq : _ = s₁) ▸ hid
  next l2IfType s₁ heq =>
  rw [heq] at hid
  split
  next s₂ heq₂ => exact (congrArg Prod.snd heq₂ : _ = s₂) ▸ hid.trans (hegress s₁)
  next bindMode s₂ heq₂ =>
  have htrans := hid.trans (hegress s₁)
  rw [heq₂] at htrans
  exact htrans.trans (hingress s₂ l2IfType bindMode)

theorem BridgeInv.programBridgePort (h : s.BridgeInv) (locals : BridgePortLocals) :
    (s.programBridgePort locals).2.BridgeInv := by
  rw [Handler.programBridgePort]
  dsimp only
  split
  · exact h.insertBridgePort {}
  next portId _ =>
  split
  · exact h.insertBridgePort { portId }
  next vlanId _ =>
  split
  · exact h.insertBridgePort { portId, vlanId }
  next type _ =>
  have hinv := h.insertBridgePort { portId, vlanId, type := some type }
  have hwrites := addBridgePortEntries_writes (s := { s with
    bridgePorts := s.bridgePorts.insert s.newBridgePort { portId, vlanId, type := some type } })
      portId vlanId locals.bridgeId (Finmap.lookup_insert _) rfl
  obtain ⟨tables, htables⟩ := addBridgePortEntries_onlyTables { s with
    bridgePorts := s.bridgePorts.insert s.newBridgePort { portId, vlanId, type := some type } }
      s.newBridgePort portId vlanId locals.bridgeId type
  have hinv' := hinv.of_writes hwrites (htables ▸ ⟨rfl, rfl⟩) (htables ▸ h.disjoint)
  split
  next s₁ heq => exact (congrArg Prod.snd heq : _ = s₁) ▸ hinv'
  next s₁ heq => exact (congrArg Prod.snd heq : _ = s₁) ▸ hinv'

theorem BridgeInv.eraseBridgePort (h : s.BridgeInv) (b : ℕ) {tables : Tables}
    (hsub : ∀ t k, tables t k ≠ none → s.tables t k ≠ none)
    (hb : ∀ t, t = .bridgeId1d ∨ t = .egressSetVlan ∨ t = .egressBrPortToIf → tables t [b] = none) :
    BridgeInv { s with bridgePorts := s.bridgePorts.erase b, tables } := by
  refine ⟨h.disjoint, h.nodup, h.members, fun t k hk => ?_⟩
  have hold := h.tables t k (hsub t k hk)
  cases t <;> simp only [Allowed] at hold ⊢
  case bridgeId1d | egressSetVlan | egressBrPortToIf =>
    intro id hid
    rw [Dict.lookup_erase, if_neg]
    · exact hold id hid
    · rintro rfl
      exact hk (hid ▸ hb _ (by decide))

theorem BridgeInv.none_of_type (h : s.BridgeInv) {b : ℕ} {obj : BridgePort}
    (hobj : s.bridgePorts.lookup b = some obj) (htype : obj.type ≠ some .subPort) {t : Table}
    (ht : t = .bridgeId1d ∨ t = .egressSetVlan) : s.tables t [b] = none := by
  by_contra hk
  have hallowed := h.tables t [b] hk
  rcases ht with rfl | rfl
  · obtain ⟨obj', hobj', htype'⟩ := hallowed b rfl
    exact htype (Option.some.inj (hobj.symm.trans hobj') ▸ htype')
  · obtain ⟨obj', hobj', htype'⟩ := hallowed b rfl
    exact htype (Option.some.inj (hobj.symm.trans hobj') ▸ htype')

/-- The entries that the removal of a bridge port removes. -/
def Removed (b : ℕ) (obj : BridgePort) (table : Table) (key : List ℕ) : Prop :=
  match table with
  | .bridgeId1d => key = [if obj.type = some .subPort then b else obj.vlanId]
  | .egressSetVlan => obj.type = some .subPort ∧ key = [b]
  | .ingressL2InterfaceType => key = [obj.portId, obj.vlanId]
  | .egressBrPortToIf => key = [b]
  | _ => False

theorem removeBridgePort_eq {b : ℕ} {obj : BridgePort} (hobj : s.bridgePorts.lookup b = some obj)
    (htype : obj.type ≠ none) : ∃ tables : Tables,
      s.removeBridgePort b = (some (), { s with bridgePorts := s.bridgePorts.erase b, tables }) ∧
      ∀ t k, (Removed b obj t k → tables t k = none) ∧
        (¬ Removed b obj t k → tables t k = s.tables t k) := by
  obtain ⟨type, htype⟩ := Option.ne_none_iff_exists'.mp htype
  rw [removeBridgePort, hobj]
  dsimp only
  rw [htype]
  cases type <;> refine ⟨_, rfl, fun t k => ?_⟩ <;> cases t <;>
    simp +contextual [Removed, htype, removeBridgeId, Tables.removeTableEntry_apply]

theorem BridgeInv.removeBridgePort (h : s.BridgeInv) (b : ℕ) : (s.removeBridgePort b).2.BridgeInv := by
  cases hobj : s.bridgePorts.lookup b with
  | none =>
    rw [Handler.removeBridgePort, hobj]
    exact h
  | some obj =>
    by_cases htype : obj.type = none
    · rw [Handler.removeBridgePort, hobj]
      dsimp only
      rw [htype]
      apply h.eraseBridgePort b fun t k hk => hk
      rintro t (rfl | rfl | rfl)
      · exact h.none_of_type hobj (by rw [htype]; decide) (by decide)
      · exact h.none_of_type hobj (by rw [htype]; decide) (by decide)
      · by_contra hk
        obtain ⟨obj', hobj', htype'⟩ := h.tables .egressBrPortToIf [b] hk b rfl
        exact htype' (Option.some.inj (hobj.symm.trans hobj') ▸ htype)
    · obtain ⟨tables, heq, htables⟩ := removeBridgePort_eq hobj htype
      rw [heq]
      apply h.eraseBridgePort b
      · intro t k hk
        by_cases hremoved : Removed b obj t k
        · exact absurd ((htables t k).1 hremoved) hk
        · exact (htables t k).2 hremoved ▸ hk
      · intro t ht
        by_cases hremoved : Removed b obj t [b]
        · exact (htables t [b]).1 hremoved
        rw [(htables t [b]).2 hremoved]
        -- what is not removed was not there, for a port of another type
        by_cases hsub : obj.type = some .subPort
        · rcases ht with rfl | rfl | rfl <;> simp [Removed, hsub] at hremoved
        · rcases ht with rfl | rfl | rfl
          · exact h.none_of_type hobj hsub (Or.inl rfl)
          · exact h.none_of_type hobj hsub (Or.inr rfl)
          · exact absurd rfl hremoved

/-- **Step lemma**: a call, whether it raises or not, keeps the invariant. -/
theorem BridgeInv.step (h : s.BridgeInv) {op : Op} (hstep : s.step op = some s') : s'.BridgeInv := by
  cases op with
  | lag op =>
    obtain ⟨hwrites, hvlans⟩ := lagStep_frame hstep
    exact h.of_writes hwrites hvlans (disjoint_step h.disjoint hstep)
  | createVlan attrs =>
    cases hstep
    rw [createVlan]
    split
    · exact h
    dsimp only
    split
    · exact h
    split
    · exact h
    · refine ⟨h.disjoint, fun v vlan hvlan => ?_, fun v vlan hvlan => ?_, h.tables⟩
      · rw [Dict.lookup_insert] at hvlan
        split at hvlan
        · cases hvlan
          exact List.nodup_nil
        · exact h.nodup v vlan hvlan
      · rw [Dict.lookup_insert] at hvlan
        split at hvlan
        · cases hvlan
          exact fun m hm => absurd hm List.not_mem_nil
        · exact h.members v vlan hvlan
  | deleteVlan vlanOid =>
    cases hstep
    refine ⟨h.disjoint, fun v vlan hvlan => ?_, fun v vlan hvlan => ?_, h.tables⟩
    · rw [deleteVlan, Dict.lookup_erase] at hvlan
      split at hvlan
      · cases hvlan
      · exact h.nodup v vlan hvlan
    · rw [deleteVlan, Dict.lookup_erase] at hvlan
      split at hvlan
      · cases hvlan
      · exact h.members v vlan hvlan
  | createVlanMember attrs =>
    cases hstep
    exact h.programVlanMember _
  | removeVlanMember m =>
    cases hstep
    exact h.removeVlanMember m
  | createBridgePort attrs =>
    cases hstep
    exact h.programBridgePort _
  | removeBridgePort b =>
    cases hstep
    exact h.removeBridgePort b

/-- **Run lemma.** -/
theorem bridgeInv_of_run {ops : List Op} (hrun : runFrom Handler.step {} ops = some s) : s.BridgeInv := by
  apply runFrom_invariant (I := BridgeInv) (fun s op s' h hstep => h.step hstep) _ hrun
  refine ⟨fun _ h => absurd h Finmap.notMem_empty, fun v vlan h => ?_, fun v vlan h => ?_, fun t k h => ?_⟩
  · cases h
  · cases h
  · exact absurd rfl h

end Steps

/-! ## VLAN members -/

section VlanMembers

variable {s s' : Handler}

theorem undone_iff {create : Handler → Option ℕ × Handler}
    {remove : Handler → ℕ → Option Unit × Handler} {id : ℕ} (h : create s = (some id, s')) :
    s.Undone create remove ↔ remove s' id = (some (), s) := by
  constructor
  · rintro ⟨id', s'', hcreate, hremove⟩
    obtain ⟨hid, rfl⟩ := Prod.mk.inj (h.symm.trans hcreate)
    obtain rfl := Option.some.inj hid
    exact hremove
  · intro hremove
    exact ⟨id, s', h, hremove⟩

theorem addEgressVlanTag_eq (outIf vid : ℕ) (taggingMode : TaggingMode) : ∃ action args,
    ∀ s : Handler, s.addEgressVlanTag outIf vid taggingMode =
      s.addTable .egressVlanTag action [outIf, vid, tagKey taggingMode] args := by
  cases taggingMode <;> exact ⟨_, _, fun _ => rfl⟩

theorem removeEgressVlanTag_eq (s : Handler) (outIf vid : ℕ) (taggingMode : TaggingMode) :
    s.removeEgressVlanTag outIf vid taggingMode =
      s.removeTableEntry .egressVlanTag [outIf, vid, tagKey taggingMode] := by
  cases taggingMode <;> rfl

/-- The entries of a VLAN member that are added and removed. -/
theorem vlanEntries_eq_iff (tables : Tables) (action : Action) (tag filter args : List ℕ) :
    (((((tables.addTable .egressVlanTag action tag args).addTable .egressVlanFiltering .nop filter []
      ).addTable .ingressVlanFiltering .nop filter []).removeTableEntry .egressVlanFiltering filter
      ).removeTableEntry .ingressVlanFiltering filter).removeTableEntry .egressVlanTag tag = tables ↔
    tables .egressVlanTag tag = none ∧ tables .egressVlanFiltering filter = none ∧
      tables .ingressVlanFiltering filter = none := by
  constructor
  · intro h
    have happly (t : Table) (k : List ℕ) := congrFun (congrFun h t) k
    simp only [Tables.addTable_apply, Tables.removeTableEntry_apply] at happly
    refine ⟨?_, ?_, ?_⟩
    · simpa using (happly .egressVlanTag tag).symm
    · simpa using (happly .egressVlanFiltering filter).symm
    · simpa using (happly .ingressVlanFiltering filter).symm
  · rintro ⟨htag, hegress, hingress⟩
    funext t k
    simp only [Tables.addTable_apply, Tables.removeTableEntry_apply]
    cases t <;> simp +contextual [htag, hegress, hingress]

/-- The object of a new VLAN member, in the dictionary and in the list of its VLAN. -/
def withVlanMember (s : Handler) (v : ℕ) (obj : VlanMember) : Handler :=
  { s with
    vlanMembers := s.vlanMembers.insert s.newVlanMember obj
    vlans := s.vlans.modify v fun vlan => { vlan with vlanMembers := vlan.vlanMembers ++ [s.newVlanMember] } }

theorem BridgeInv.erase_withVlanMember (h : s.BridgeInv) (v : ℕ) (obj : VlanMember) :
    (s.withVlanMember v obj).vlanMembers.erase s.newVlanMember = s.vlanMembers ∧
      ((s.withVlanMember v obj).vlans.modify v fun vlan =>
        { vlan with vlanMembers := vlan.vlanMembers.erase s.newVlanMember }) = s.vlans := by
  constructor
  · apply Finmap.ext_lookup
    intro m
    rw [Dict.lookup_erase]
    split
    next hm => rw [hm, Finmap.lookup_eq_none.mpr s.newVlanMember_notMem]
    next hm => rw [withVlanMember, Dict.lookup_insert, if_neg hm]
  · rw [withVlanMember, Dict.modify_modify]
    apply Finmap.ext_lookup
    intro v'
    rw [Dict.lookup_modify]
    split
    next heq =>
      cases hvlan : s.vlans.lookup v with
      | none => rw [heq, hvlan, Option.map_none]
      | some vlan =>
        rw [heq, hvlan, Option.map_some]
        simp only [List.erase_append_right _ (h.newVlanMember_notMem hvlan), List.erase_cons_head,
          List.append_nil]
    next => rfl

/-- What `create_vlan_member` writes. -/
theorem createVlanMember_eq {attrs : List VlanMemberAttr} {v b outIf : ℕ} {taggingMode : TaggingMode}
    {vlan : Vlan} (hattrs : attrs.foldl createVlanMemberAttr {} = ⟨some v, some b, some taggingMode⟩)
    (hvlan : s.vlans.lookup v = some vlan) (houtIf : s.outIf b = some outIf) : ∃ action args,
    s.createVlanMember attrs = (some s.newVlanMember,
      { s.withVlanMember v ⟨v, vlan.vid, b, taggingMode⟩ with
        tables := ((s.tables.addTable .egressVlanTag action [outIf, vlan.vid, tagKey taggingMode] args
          ).addTable .egressVlanFiltering .nop [b, vlan.vid] []
          ).addTable .ingressVlanFiltering .nop [b, vlan.vid] [] }) := by
  obtain ⟨action, args, htag⟩ := addEgressVlanTag_eq outIf vlan.vid taggingMode
  refine ⟨action, args, ?_⟩
  have houtIf' (vlans : Dict Vlan) (vlanMembers : Dict VlanMember) :
      ({ s with vlans, vlanMembers } : Handler).outIf b = some outIf := houtIf
  rw [createVlanMember, hattrs, programVlanMember]
  dsimp only
  rw [hvlan]
  dsimp only
  rw [houtIf']
  dsimp only
  rw [htag]
  rfl

/-- What `remove_vlan_member` does for the new member of a VLAN. -/
theorem removeVlanMember_eq (h : s.BridgeInv) {v b : ℕ} {taggingMode : TaggingMode} {vlan : Vlan}
    {bridgePort : BridgePort} (hvlan : s.vlans.lookup v = some vlan)
    (hbridge : s.bridgePorts.lookup b = some bridgePort) (tables : Tables) :
    Handler.removeVlanMember { s.withVlanMember v ⟨v, vlan.vid, b, taggingMode⟩ with tables }
        s.newVlanMember =
      match s.ports.lookup bridgePort.portId with
      | none => (none, { s.withVlanMember v ⟨v, vlan.vid, b, taggingMode⟩ with
          tables := (tables.removeTableEntry .egressVlanFiltering [b, vlan.vid]).removeTableEntry
            .ingressVlanFiltering [b, vlan.vid] })
      | some port => (some (), { s with
          tables := ((tables.removeTableEntry .egressVlanFiltering [b, vlan.vid]).removeTableEntry
            .ingressVlanFiltering [b, vlan.vid]).removeTableEntry .egressVlanTag
              [port.hwPort, vlan.vid, tagKey taggingMode] }) := by
  obtain ⟨hmembers, hvlans⟩ := h.erase_withVlanMember v ⟨v, vlan.vid, b, taggingMode⟩
  have hlist : Finmap.lookup v (s.withVlanMember v ⟨v, vlan.vid, b, taggingMode⟩).vlans =
      some { vlan with vlanMembers := vlan.vlanMembers ++ [s.newVlanMember] } := by
    rw [withVlanMember, Dict.lookup_modify, if_pos rfl, hvlan, Option.map_some]
  have hmember : Finmap.lookup s.newVlanMember
      (s.withVlanMember v ⟨v, vlan.vid, b, taggingMode⟩).vlanMembers =
        some ⟨v, vlan.vid, b, taggingMode⟩ := Finmap.lookup_insert _
  rw [Handler.removeVlanMember]
  dsimp only
  rw [hmember]
  dsimp only
  simp only [removeTableEntry, withVlanMember, hbridge, Option.bind_some]
  cases s.ports.lookup bridgePort.portId with
  | none => rfl
  | some port =>
    dsimp only [withVlanMember] at hlist ⊢
    rw [removeEgressVlanTag_eq]
    dsimp only [removeTableEntry]
    rw [hlist]
    dsimp only
    rw [if_pos (List.mem_append_right _ (List.mem_singleton_self _))]
    change (some (), { s with
      vlanMembers := (s.withVlanMember v ⟨v, vlan.vid, b, taggingMode⟩).vlanMembers.erase s.newVlanMember
      vlans := (s.withVlanMember v ⟨v, vlan.vid, b, taggingMode⟩).vlans.modify v fun vlan =>
        { vlan with vlanMembers := vlan.vlanMembers.erase s.newVlanMember }
      tables := _ }) = _
    rw [hmembers, hvlans]

/-- A new VLAN member is removed without a trace, or not. -/
theorem BridgeInv.undone_vlanMember (h : s.BridgeInv) {attrs : List VlanMemberAttr} {v b : ℕ}
    {taggingMode : TaggingMode} {vlan : Vlan} {bridgePort : BridgePort}
    (hattrs : attrs.foldl createVlanMemberAttr {} = ⟨some v, some b, some taggingMode⟩)
    (hvlan : s.vlans.lookup v = some vlan) (hbridge : s.bridgePorts.lookup b = some bridgePort)
    (hport : bridgePort.portId ∈ s.ports ∨ bridgePort.portId ∈ s.lags) :
    s.Undone (fun s => s.createVlanMember attrs) Handler.removeVlanMember ↔
      s.FreshVlanMember vlan.vid b bridgePort.portId taggingMode := by
  cases hlookup : s.ports.lookup bridgePort.portId with
  | none =>
    -- a LAG, which the removal does not find
    have hlag := hport.resolve_left (Finmap.lookup_eq_none.mp hlookup)
    have houtIf : s.outIf b = some bridgePort.portId := by
      rw [Handler.outIf, hbridge, Option.bind_some, if_pos hlag]
    obtain ⟨action, args, hcreate⟩ := createVlanMember_eq hattrs hvlan houtIf
    rw [undone_iff hcreate, removeVlanMember_eq h hvlan hbridge, hlookup]
    constructor
    · intro hremove
      cases congrArg Prod.fst hremove
    · rintro ⟨port, hport', -⟩
      cases hlookup.symm.trans hport'
  | some port =>
    have hlag : bridgePort.portId ∉ s.lags :=
      h.disjoint _ (Finmap.mem_of_lookup_eq_some hlookup)
    have houtIf : s.outIf b = some port.hwPort := by
      rw [Handler.outIf, hbridge, Option.bind_some, if_neg hlag, hlookup, Option.map_some]
    obtain ⟨action, args, hcreate⟩ := createVlanMember_eq hattrs hvlan houtIf
    have hentries := vlanEntries_eq_iff s.tables action [port.hwPort, vlan.vid, tagKey taggingMode]
      [b, vlan.vid] args
    rw [undone_iff hcreate, removeVlanMember_eq h hvlan hbridge, hlookup]
    constructor
    · intro hremove
      have htables := congrArg (fun r => r.2.tables) hremove
      exact ⟨port, hlookup, hentries.mp htables⟩
    · rintro ⟨port', hport', hfresh⟩
      obtain rfl := Option.some.inj (hlookup.symm.trans hport')
      dsimp only
      rw [hentries.mpr hfresh]

end VlanMembers

/-! ## Bridge ports -/

section BridgePorts

/-- The entries of the bridge id that a bridge port writes. -/
def bridgeIdEntries (tables : Tables) (b vlanId bridgeId : ℕ) : BridgePortType → Tables
  | .subPort => (((tables.removeTableEntry .bridgeId1d [b]).removeTableEntry .egressSetVlan [b]).addTable
      .bridgeId1d .setBridgeId [b] [bridgeId]).addTable .egressSetVlan .setVlan [b] [vlanId]
  | .port => (tables.removeTableEntry .bridgeId1q [b]).addTable .bridgeId1q .setBridgeId [vlanId] [bridgeId]
  | .other => tables

/-- The entry of the egress interface that a bridge port writes. -/
def egressIfEntry (tables : Tables) (b : ℕ) (args : List ℕ) : Tables :=
  (tables.removeTableEntry .egressBrPortToIf [b]).addTable .egressBrPortToIf .forwardSetOutIfType [b] args

/-- The entry of the ingress interface that a bridge port writes. -/
def ingressIfEntry (tables : Tables) (portId vlanId : ℕ) (args : List ℕ) : BindMode → Tables
  | .subPort => tables.addTable .subportIngressInterfaceType .setL2IfType [portId, vlanId] args
  | .port => tables.addTable .portIngressInterfaceType .setL2IfType [portId] args

variable {s s' : Handler} {b p v bridge : ℕ} {type : BridgePortType} {bindMode : BindMode}

theorem addBridgeId_eq (s : Handler) (b v bridge : ℕ) (htype : type ≠ .other) : ∃ l2IfType,
    s.addBridgeId b v (some bridge) type =
      (some (some l2IfType), { s with tables := bridgeIdEntries s.tables b v bridge type }) := by
  cases type with
  | subPort => exact ⟨2, rfl⟩
  | port => exact ⟨3, rfl⟩
  | other => exact absurd rfl htype

theorem addEgressIf_eq (b : ℕ) (hbind : s.bindModeOf p = some bindMode) : ∃ args,
    s.addEgressIf b p = (some bindMode, { s with tables := egressIfEntry s.tables b args }) := by
  rw [bindModeOf] at hbind
  rw [addEgressIf]
  split at hbind
  next hlag =>
    refine ⟨[p, 1], ?_⟩
    rw [if_pos (by exact hlag)]
    exact congrArg₂ Prod.mk hbind rfl
  next hlag =>
    rw [if_neg (by exact hlag)]
    cases hport : s.ports.lookup p with
    | none =>
      rw [hport] at hbind
      cases hbind
    | some port =>
      rw [hport] at hbind
      refine ⟨[port.hwPort, 0], ?_⟩
      dsimp only [ports_removeTableEntry]
      rw [hport]
      exact congrArg₂ Prod.mk hbind rfl

theorem addEgressIf_none (b : ℕ) (hbind : s.bindModeOf p = none) :
    ∃ s', s.addEgressIf b p = (none, s') := by
  rw [bindModeOf] at hbind
  rw [addEgressIf]
  split at hbind
  next hlag =>
    rw [if_pos (by exact hlag)]
    exact ⟨_, congrArg₂ Prod.mk hbind rfl⟩
  next hlag =>
    rw [if_neg (by exact hlag), ports_removeTableEntry]
    rw [Option.map_eq_none_iff] at hbind
    rw [hbind]
    exact ⟨_, rfl⟩

theorem addIngressIf_eq (s : Handler) (b p v l2IfType : ℕ) (bindMode : BindMode) : ∃ args,
    s.addIngressIf b p v (some l2IfType) bindMode =
      (some (), { s with tables := ingressIfEntry s.tables p v args bindMode }) := by
  cases bindMode <;> exact ⟨_, rfl⟩

/-- `create_bridge_port` after its entries. -/
theorem createBridgePort_of_entries {attrs : List BridgePortAttr} {r : Option Unit × Handler}
    (hattrs : attrs.foldl createBridgePortAttr {} = ⟨some v, some bridge, some type, some p⟩)
    (hentries : addBridgePortEntries
      { s with bridgePorts := s.bridgePorts.insert s.newBridgePort ⟨p, v, some type⟩ }
      s.newBridgePort p v (some bridge) type = r) :
    s.createBridgePort attrs = (r.1.map fun _ => s.newBridgePort, r.2) := by
  unfold newBridgePort at hentries
  rw [createBridgePort, hattrs, programBridgePort]
  dsimp only
  rw [hentries]
  rcases r with ⟨_ | _, s'⟩ <;> rfl

theorem createBridgePort_eq {attrs : List BridgePortAttr}
    (hattrs : attrs.foldl createBridgePortAttr {} = ⟨some v, some bridge, some type, some p⟩)
    (htype : type ≠ .other) (hbind : s.bindModeOf p = some bindMode) : ∃ args args',
    s.createBridgePort attrs = (some s.newBridgePort, { s with
      bridgePorts := s.bridgePorts.insert s.newBridgePort ⟨p, v, some type⟩
      tables := ingressIfEntry (egressIfEntry (bridgeIdEntries s.tables s.newBridgePort v bridge type)
        s.newBridgePort args) p v args' bindMode }) := by
  let s₁ := { s with bridgePorts := s.bridgePorts.insert s.newBridgePort ⟨p, v, some type⟩ }
  obtain ⟨l2IfType, hid⟩ := addBridgeId_eq s₁ s.newBridgePort v bridge htype
  obtain ⟨args, hegress⟩ := addEgressIf_eq (s := { s₁ with
    tables := bridgeIdEntries s₁.tables s.newBridgePort v bridge type }) s.newBridgePort hbind
  obtain ⟨args', hingress⟩ := addIngressIf_eq { s₁ with
    tables := egressIfEntry (bridgeIdEntries s₁.tables s.newBridgePort v bridge type) s.newBridgePort args }
    s.newBridgePort p v l2IfType bindMode
  refine ⟨args, args', createBridgePort_of_entries hattrs (r := (some (), _)) ?_⟩
  rw [addBridgePortEntries, hid]
  dsimp only at hegress hingress ⊢
  rw [hegress]
  exact hingress

theorem createBridgePort_none {attrs : List BridgePortAttr}
    (hattrs : attrs.foldl createBridgePortAttr {} = ⟨some v, some bridge, some type, some p⟩)
    (htype : type ≠ .other) (hbind : s.bindModeOf p = none) : (s.createBridgePort attrs).1 = none := by
  let s₁ := { s with bridgePorts := s.bridgePorts.insert s.newBridgePort ⟨p, v, some type⟩ }
  obtain ⟨l2IfType, hid⟩ := addBridgeId_eq s₁ s.newBridgePort v bridge htype
  obtain ⟨s₂, hegress⟩ := addEgressIf_none (s := { s₁ with
    tables := bridgeIdEntries s₁.tables s.newBridgePort v bridge type }) s.newBridgePort hbind
  have hentries : s₁.addBridgePortEntries s.newBridgePort p v (some bridge) type = (none, s₂) := by
    rw [addBridgePortEntries, hid]
    dsimp only
    rw [hegress]
  rw [createBridgePort_of_entries hattrs hentries]
  rfl

theorem BridgeInv.none_of_notMem (h : s.BridgeInv) (hb : b ∉ s.bridgePorts) {t : Table}
    (ht : t = .bridgeId1d ∨ t = .egressSetVlan ∨ t = .egressBrPortToIf) : s.tables t [b] = none := by
  by_contra hk
  have hallowed := h.tables t [b] hk
  rcases ht with rfl | rfl | rfl <;> simp only [Allowed] at hallowed <;>
  · obtain ⟨obj, hobj, -⟩ := hallowed b rfl
    exact hb (Finmap.mem_of_lookup_eq_some hobj)

theorem ingressIfEntry_of_some {tables : Tables} {args : List ℕ} (hif : s.HasIngressIf p v bindMode)
    (hsame : ∀ t k, t = .subportIngressInterfaceType ∨ t = .portIngressInterfaceType →
      tables t k = s.tables t k) : ingressIfEntry tables p v args bindMode = tables := by
  cases bindMode with
  | subPort =>
    obtain ⟨entry, hentry⟩ := Option.ne_none_iff_exists'.mp hif
    rw [ingressIfEntry, Tables.addTable, hsame _ _ (Or.inl rfl), hentry]
  | port =>
    obtain ⟨entry, hentry⟩ := Option.ne_none_iff_exists'.mp hif
    rw [ingressIfEntry, Tables.addTable, hsame _ _ (Or.inr rfl), hentry]

/-- The bridge id of a VLAN that has it already. -/
theorem bridgeId1q_eq (hid : s.HasBridgeId b v bridge .port) (k : List ℕ) :
    bridgeIdEntries s.tables b v bridge .port .bridgeId1q k = s.tables .bridgeId1q k := by
  obtain ⟨-, hid⟩ := hid
  simp only [bridgeIdEntries, Tables.addTable_apply, Tables.removeTableEntry_apply, true_and]
  split at hid
  next hv =>
    split
    next hk => rw [hk, hid, if_pos (by rw [hv]), Option.getD_none]
    next hk => rw [if_neg (hv ▸ hk)]
  next hv =>
    obtain ⟨entry, hentry⟩ := Option.ne_none_iff_exists'.mp hid.1
    split
    next hk => rw [hk, hentry, if_neg fun h => hv (List.singleton_inj.mp h), Option.getD_some]
    next hk =>
      split
      next hk => rw [hk, hid.2]
      next => rfl

/-- The entries of a new bridge port that are added, and what the removal leaves of them. -/
theorem BridgeInv.bridgeEntries_eq_iff (h : s.BridgeInv) (hb : b ∉ s.bridgePorts)
    (htype : type ≠ .other) {args args' : List ℕ} {tables : Tables}
    (htables : ∀ t k, (Removed b ⟨p, v, some type⟩ t k → tables t k = none) ∧
      (¬ Removed b ⟨p, v, some type⟩ t k → tables t k =
        ingressIfEntry (egressIfEntry (bridgeIdEntries s.tables b v bridge type) b args) p v args'
          bindMode t k)) :
    tables = s.tables ↔ s.HasIngressIf p v bindMode ∧ s.HasBridgeId b v bridge type := by
  have hkept {t : Table} (ht : t ≠ .subportIngressInterfaceType ∧ t ≠ .portIngressInterfaceType ∧
      t ≠ .egressBrPortToIf) (k : List ℕ) :
      ingressIfEntry (egressIfEntry (bridgeIdEntries s.tables b v bridge type) b args) p v args'
        bindMode t k = bridgeIdEntries s.tables b v bridge type t k := by
    cases bindMode <;>
      simp [ingressIfEntry, egressIfEntry, Tables.addTable_apply, Tables.removeTableEntry_apply, ht]
  constructor
  · rintro rfl
    constructor
    · cases bindMode with
      | subPort =>
        have hentry := (htables .subportIngressInterfaceType [p, v]).2 id
        intro hnone
        rw [hnone] at hentry
        simp [ingressIfEntry, Tables.addTable_apply] at hentry
      | port =>
        have hentry := (htables .portIngressInterfaceType [p]).2 id
        intro hnone
        rw [hnone] at hentry
        simp [ingressIfEntry, Tables.addTable_apply] at hentry
    · cases type with
      | subPort => trivial
      | other => trivial
      | port =>
        have hentry (k : List ℕ) := ((htables .bridgeId1q k).2 id).trans (hkept (by decide) k)
        simp only [bridgeIdEntries, Tables.addTable_apply, Tables.removeTableEntry_apply] at hentry
        refine ⟨(htables .bridgeId1d [v]).1 (by simp [Removed]), ?_⟩
        split
        next hv => simpa [hv] using hentry [v]
        next hv =>
          constructor
          · rw [hentry [v]]
            simp
          · simpa [Ne.symm hv] using hentry [b]
  · rintro ⟨hif, hid⟩
    funext t k
    by_cases hremoved : Removed b ⟨p, v, some type⟩ t k
    · -- what is removed was not there
      rw [(htables t k).1 hremoved, eq_comm]
      cases t <;> simp only [Removed] at hremoved
      case bridgeId1d =>
        cases type with
        | subPort => exact hremoved ▸ h.none_of_notMem hb (Or.inl rfl)
        | port => exact hremoved ▸ hid.1
        | other => exact absurd rfl htype
      case egressSetVlan => exact hremoved.2 ▸ h.none_of_notMem hb (Or.inr (Or.inl rfl))
      case egressBrPortToIf => exact hremoved ▸ h.none_of_notMem hb (Or.inr (Or.inr rfl))
      case ingressL2InterfaceType =>
        by_contra hk
        exact h.tables _ _ hk
    · rw [(htables t k).2 hremoved, ingressIfEntry_of_some hif]
      · have hegress : egressIfEntry (bridgeIdEntries s.tables b v bridge type) b args t k =
            bridgeIdEntries s.tables b v bridge type t k := by
          simp only [egressIfEntry, Tables.addTable_apply, Tables.removeTableEntry_apply]
          split
          next heq =>
            obtain ⟨rfl, rfl⟩ := heq
            exact absurd rfl hremoved
          next => rfl
        rw [hegress]
        cases type with
        | subPort =>
          simp only [bridgeIdEntries, Tables.addTable_apply, Tables.removeTableEntry_apply]
          cases t <;> simp_all [Removed]
        | port =>
          by_cases ht : t = .bridgeId1q
          · rw [ht, bridgeId1q_eq hid]
          · simp [bridgeIdEntries, Tables.addTable_apply, Tables.removeTableEntry_apply, ht]
        | other => rfl
      · rintro t k (rfl | rfl) <;> cases type <;>
          simp [egressIfEntry, bridgeIdEntries, Tables.addTable_apply, Tables.removeTableEntry_apply]

/-- A new bridge port is removed without a trace, or not. -/
theorem BridgeInv.undone_bridgePort (h : s.BridgeInv) {attrs : List BridgePortAttr}
    (hattrs : attrs.foldl createBridgePortAttr {} = ⟨some v, some bridge, some type, some p⟩)
    (htype : type ≠ .other) :
    s.Undone (fun s => s.createBridgePort attrs) Handler.removeBridgePort ↔
      ∃ bindMode, s.bindModeOf p = some bindMode ∧ s.HasIngressIf p v bindMode ∧
        s.HasBridgeId s.newBridgePort v bridge type := by
  cases hbind : s.bindModeOf p with
  | none =>
    constructor
    · rintro ⟨id, s', hcreate, -⟩
      have hnone := createBridgePort_none hattrs htype hbind
      cases hnone.symm.trans (congrArg Prod.fst hcreate)
    · rintro ⟨bindMode, hsome, -⟩
      cases hsome
  | some bindMode =>
    obtain ⟨args, args', hcreate⟩ := createBridgePort_eq hattrs htype hbind
    obtain ⟨tables, hremove, htables⟩ := removeBridgePort_eq (s := { s with
      bridgePorts := s.bridgePorts.insert s.newBridgePort ⟨p, v, some type⟩
      tables := ingressIfEntry (egressIfEntry (bridgeIdEntries s.tables s.newBridgePort v bridge type)
        s.newBridgePort args) p v args' bindMode }) (Finmap.lookup_insert _) (Option.some_ne_none type)
    have hentries := h.bridgeEntries_eq_iff s.newBridgePort_notMem htype htables
    have herase : (s.bridgePorts.insert s.newBridgePort ⟨p, v, some type⟩).erase s.newBridgePort =
        s.bridgePorts := by
      apply Finmap.ext_lookup
      intro id
      rw [Dict.lookup_erase]
      split
      next hid => rw [hid, Finmap.lookup_eq_none.mpr s.newBridgePort_notMem]
      next hid => rw [Dict.lookup_insert, if_neg hid]
    rw [undone_iff hcreate, hremove]
    constructor
    · intro heq
      have hsame : tables = s.tables := congrArg (fun r => r.2.tables) heq
      exact ⟨bindMode, rfl, hentries.mp hsame⟩
    · rintro ⟨bindMode', hmode, hcond⟩
      obtain rfl := Option.some.inj hmode
      rw [hentries.mpr hcond]
      dsimp only
      rw [herase]

end BridgePorts

/-! ## All pairs -/

section UndoLaws

variable {s : Handler}

/-- A new VLAN is refused if there is none. -/
theorem createVlan_answer {attrs : List VlanAttr} {vid : ℕ}
    (hattrs : attrs.foldl createVlanAttr none = some vid) :
    (∃ answer, (s.createVlan attrs).1 = some answer ∧
      (answer = none ↔ ∃ (v : ℕ) (vlan : Vlan), s.vlans.lookup v = some vlan ∧ vlan.vid = vid)) ↔
    s.vlans = ∅ := by
  have hkeys : s.vlans.keys = ∅ ↔ s.vlans = ∅ := by
    constructor
    · intro h
      apply Finmap.ext_lookup
      intro v
      rw [Finmap.lookup_empty, Finmap.lookup_eq_none, ← Finmap.mem_keys, h]
      exact Finset.notMem_empty v
    · intro h
      rw [h, Finmap.keys_empty]
  rw [createVlan, hattrs]
  by_cases hempty : s.vlans = ∅
  · simp [hempty]
  · simp [hkeys, hempty]

/-- **Create and remove.**  In every run, an object that is created and removed at once leaves no trace,
and neither call raises, exactly when: the entries of a VLAN member are on a port, not on a LAG, and new;
the entry of the ingress interface of a bridge port is there already, and for a bridge port of a VLAN the
one of its bridge id.  A VLAN is refused as it should be exactly when there is none. -/
theorem undo_laws (ops : List Op) (hrun : runFrom Handler.step {} ops = some s) :
    (∀ attrs v b taggingMode vlan bridgePort,
      attrs.foldl createVlanMemberAttr {} = ⟨some v, some b, some taggingMode⟩ →
      s.vlans.lookup v = some vlan → s.bridgePorts.lookup b = some bridgePort →
      (bridgePort.portId ∈ s.ports ∨ bridgePort.portId ∈ s.lags) →
      (s.Undone (fun s => s.createVlanMember attrs) removeVlanMember ↔
        s.FreshVlanMember vlan.vid b bridgePort.portId taggingMode)) ∧
    (∀ attrs v bridge type p,
      attrs.foldl createBridgePortAttr {} = ⟨some v, some bridge, some type, some p⟩ → type ≠ .other →
      (s.Undone (fun s => s.createBridgePort attrs) removeBridgePort ↔
        ∃ bindMode, s.bindModeOf p = some bindMode ∧ s.HasIngressIf p v bindMode ∧
          s.HasBridgeId s.newBridgePort v bridge type)) ∧
    ∀ attrs vid, attrs.foldl createVlanAttr none = some vid →
      ((∃ answer, (s.createVlan attrs).1 = some answer ∧
        (answer = none ↔ ∃ (v : ℕ) (vlan : Vlan), s.vlans.lookup v = some vlan ∧ vlan.vid = vid)) ↔
      s.vlans = ∅) := by
  have hinv := bridgeInv_of_run hrun
  refine ⟨?_, ?_, ?_⟩
  · intro attrs v b taggingMode vlan bridgePort hattrs hvlan hbridge hport
    exact hinv.undone_vlanMember hattrs hvlan hbridge hport
  · intro attrs v bridge type p hattrs htype
    exact hinv.undone_bridgePort hattrs htype
  · intro attrs vid hattrs
    exact createVlan_answer hattrs

/-- A VLAN member on a bridge port, and a second bridge port on the same port. -/
theorem undo_laws_port : ∃ s : Handler,
    runFrom Handler.step {} [.lag (.createPort [.hwLaneList [3]]), .createVlan [.vlanId 5],
      .createBridgePort [.vlanId 5, .bridgeId 1, .type .port, .portId 0]] = some s ∧
    s.Undone (fun s => s.createVlanMember [.vlanId 0, .bridgePortId 0, .vlanTaggingMode .tagged])
      removeVlanMember ∧
    s.Undone (fun s => s.createBridgePort [.vlanId 7, .bridgeId 1, .type .subPort, .portId 0])
      removeBridgePort := by
  have h := undo_laws [.lag (.createPort [.hwLaneList [3]]), .createVlan [.vlanId 5],
    .createBridgePort [.vlanId 5, .bridgeId 1, .type .port, .portId 0]] rfl
  refine ⟨_, rfl, ?_, ?_⟩
  · apply (h.1 [.vlanId 0, .bridgePortId 0, .vlanTaggingMode .tagged] 0 0 .tagged ⟨5, []⟩
      ⟨0, 5, some .port⟩ rfl rfl rfl (Or.inl (by decide))).mpr
    exact ⟨⟨3, 1, .port⟩, by decide, by decide, by decide, by decide⟩
  · apply (h.2.1 [.vlanId 7, .bridgeId 1, .type .subPort, .portId 0] 7 1 .subPort 0 rfl (by decide)).mpr
    refine ⟨.port, by decide, ?_, trivial⟩
    rw [HasIngressIf]
    decide

/-- A VLAN member on a LAG is not removed, a bridge port of a VLAN leaves its bridge id, and no second
VLAN is created. -/
theorem bridge_id_stays : ∃ s : Handler,
    runFrom Handler.step {} [.lag (.createPort [.hwLaneList [3]]), .lag .createLag,
      .lag (.createLagMember [.portId 0, .lagId 1]), .createVlan [.vlanId 5],
      .createBridgePort [.vlanId 5, .bridgeId 1, .type .subPort, .portId 1]] = some s ∧
    ¬ s.Undone (fun s => s.createVlanMember [.vlanId 0, .bridgePortId 0, .vlanTaggingMode .tagged])
      removeVlanMember ∧
    ¬ s.Undone (fun s => s.createBridgePort [.vlanId 6, .bridgeId 2, .type .port, .portId 0])
      removeBridgePort ∧
    (s.createVlan [.vlanId 6]).1 = none := by
  refine ⟨_, rfl, ?_, ?_, by decide⟩
  · rintro ⟨id, s', hcreate, hremove⟩
    cases hcreate
    exact absurd (congrArg Prod.fst hremove) (by decide)
  · rintro ⟨id, s', hcreate, hremove⟩
    cases hcreate
    exact absurd (congrArg (fun r => r.2.tables .bridgeId1q [6]) hremove) (by decide)

end UndoLaws

end Handler

end Bm.Sai
