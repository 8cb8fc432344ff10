/-
# LAGs of the SAI server

What the server keeps of its LAGs in Python objects and in the tables `table_ingress_lag`,
`table_lag_hash` and `table_egress_lag` of the switch.  All the LAGs share one list of members, the
entries of `table_egress_lag` are numbered by the ids of the members, and no table is written when a
member is removed.

* `Handler.lags_consistent`: the objects and the tables agree in every run in which there is one LAG
  from its first member on, and no member is removed.
-/
import Bmv2.Lib.Runs
import Bmv2.SaiServer

namespace Bm.Sai

/-- A call. -/
inductive LagOp where
  | createPort (attrs : List Handler.PortAttr)
  | removePort (portId : ℕ)
  | createLag
  | removeLag (lagId : ℕ)
  | createLagMember (attrs : List Handler.LagMemberAttr)
  | removeLagMember (lagMemberId : ℕ)

namespace Handler

/-- One call, whether it raises or not. -/
def lagStep (s : Handler) : LagOp → Option Handler
  | .createPort attrs => some (s.createPort attrs).2
  | .removePort portId => some (s.removePort portId).2
  | .createLag => some s.createLag.2
  | .removeLag lagId => some (s.removeLag lagId).2
  | .createLagMember attrs => some (s.createLagMember attrs).2
  | .removeLagMember lagMemberId => some (s.removeLagMember lagMemberId).2

/-! ## What the tables should say -/

/-- The port of the switch that a port stands for. -/
def hwPort (s : Handler) (portId : ℕ) : Option ℕ := (s.ports.lookup portId).map Port.hwPort

/-- The members of a LAG. -/
def membersOf (s : Handler) (lagId : ℕ) : Finset ℕ :=
  s.lagMembers.keys.filter fun m => (s.lagMembers.lookup m).map LagMember.lagId = some lagId

/-- Whether a port is a member of a LAG. -/
def InLag (s : Handler) (portId lagId : ℕ) : Prop :=
  ∃ m lm, s.lagMembers.lookup m = some lm ∧ lm.portId = portId ∧ lm.lagId = lagId

/-- The size that is programmed for a LAG, zero when there is none. -/
def hashSize (s : Handler) (lagId : ℕ) : ℕ :=
  match s.tables .lagHash [lagId] with
  | some (.setLagHashSize, [size]) => size
  | _ => 0

/-- The objects and the tables agree. -/
structure LagsConsistent (s : Handler) : Prop where
  disjoint : ∀ id, id ∈ s.ports → id ∉ s.lags
  members : ∀ l ∈ s.lags, (s.lagMembersOf l).Nodup ∧ ∀ m, m ∈ s.lagMembersOf l ↔ m ∈ s.membersOf l
  hashSize : ∀ l ∈ s.lags, s.hashSize l = (s.membersOf l).card
  egress : ∀ l ∈ s.lags, ∀ h < s.hashSize l, ∃ m ∈ s.membersOf l, ∃ lm hw,
    s.lagMembers.lookup m = some lm ∧ s.hwPort lm.portId = some hw ∧
      s.tables .egressLag [l, h] = some (.setOutPort, [hw])
  ingressLag : ∀ p hw l, s.hwPort p = some hw → l ∈ s.lags →
    (s.tables .ingressLag [hw] = some (.setLagL2if, [1, l]) ↔ s.InLag p l)
  ingressPort : ∀ p hw, s.hwPort p = some hw → (∀ l ∈ s.lags, ¬ s.InLag p l) →
    s.tables .ingressLag [hw] = some (.setLagL2if, [0, p])

/-- The `HW_LANE_LIST` that counts, the last one. -/
def laneList (attrs : List PortAttr) : Option (List ℕ) :=
  (attrs.filterMap fun
    | .hwLaneList hwPortList => some hwPortList
    | _ => none).getLast?

/-- The values of `PORT_ID`. -/
def portIds (attrs : List LagMemberAttr) : List ℕ :=
  attrs.filterMap fun
    | .portId portId => some portId
    | _ => none

/-- The values of `LAG_ID`. -/
def lagIds (attrs : List LagMemberAttr) : List ℕ :=
  attrs.filterMap fun
    | .lagId lagId => some lagId
    | _ => none

/-- What keeps the objects and the tables in step: a port of the switch of its own for every port, one LAG
from its first member on, and no removal of a member; and no removal of a port or a LAG that
has members. -/
def KeepsLags (s : Handler) : LagOp → Prop
  | .createPort attrs => ∃ hw rest, laneList attrs = some (hw :: rest) ∧ ∀ p, s.hwPort p ≠ some hw
  | .removePort portId => ∀ l, ¬ s.InLag portId l
  | .createLag => s.lagMembers = ∅
  | .removeLag lagId => s.membersOf lagId = ∅
  | .createLagMember attrs => ∃ p l, (portIds attrs).getLast? = some p ∧ lagIds attrs = [l] ∧
      p ∈ s.ports ∧ s.lags = {l}
  | .removeLagMember lagMemberId => lagMemberId ∉ s.lagMembers

/-! ## What the calls do -/

section Calls

variable {s : Handler}

theorem hwPort_eq_none {p : ℕ} : s.hwPort p = none ↔ p ∉ s.ports := by
  rw [hwPort, Option.map_eq_none_iff, Finmap.lookup_eq_none]

/-- The parts that the attributes of a port do not touch. -/
structure SameLags (s s' : Handler) : Prop where
  lags : s'.lags = s.lags
  lagMembers : s'.lagMembers = s.lagMembers
  defaultLagMembers : s'.defaultLagMembers = s.defaultLagMembers
  hwPort : s'.hwPort = s.hwPort
  tables : ∀ t k, t ≠ .portPvid → t ≠ .portMode → s'.tables t k = s.tables t k

theorem SameLags.refl (s : Handler) : SameLags s s := ⟨rfl, rfl, rfl, rfl, fun _ _ _ _ => rfl⟩

theorem SameLags.trans {s s' s'' : Handler} (h : SameLags s s') (h' : SameLags s' s'') :
    SameLags s s'' :=
  ⟨h'.lags.trans h.lags, h'.lagMembers.trans h.lagMembers,
    h'.defaultLagMembers.trans h.defaultLagMembers, h'.hwPort.trans h.hwPort,
    fun t k ht ht' => (h'.tables t k ht ht').trans (h.tables t k ht ht')⟩

theorem hwPort_modify {ports : Dict Port} {port : ℕ} {f : Port → Port}
    (hf : ∀ obj, (f obj).hwPort = obj.hwPort) (p : ℕ) :
    (Finmap.lookup p (ports.modify port f)).map Port.hwPort = (ports.lookup p).map Port.hwPort := by
  rw [Dict.lookup_modify]
  split
  next h =>
    rw [h, Option.map_map]
    exact congrArg (fun g => Option.map g (ports.lookup port)) (funext hf)
  next => rfl

theorem sameLags_createPortAttr (port : ℕ) (r : Handler × Option (List ℕ)) (attr : PortAttr) :
    SameLags r.1 (createPortAttr port r attr).1 := by
  cases attr with
  | portVlanId vlanId =>
    refine ⟨rfl, rfl, rfl, funext fun p => ?_, fun t k ht _ => Tables.addTable_of_table_ne ht _ _ _⟩
    exact hwPort_modify (f := fun obj => { obj with pvid := vlanId }) (fun _ => rfl) p
  | bindMode bindMode =>
    refine ⟨rfl, rfl, rfl, funext fun p => ?_, fun t k _ ht => Tables.addTable_of_table_ne ht _ _ _⟩
    exact hwPort_modify (f := fun obj => { obj with bindMode }) (fun _ => rfl) p
  | hwLaneList hwPortList => exact SameLags.refl _
  | other => exact SameLags.refl _

theorem getLast?_cons_or {α : Type} (a : α) (l : List α) (x : Option α) :
    (a :: l).getLast?.or x = l.getLast?.or (some a) := by
  rw [List.getLast?_cons]
  cases l.getLast? <;> rfl

theorem createPortAttrs (port : ℕ) (attrs : List PortAttr) (r : Handler × Option (List ℕ)) :
    SameLags r.1 (attrs.foldl (createPortAttr port) r).1 ∧
      (attrs.foldl (createPortAttr port) r).2 = (laneList attrs).or r.2 := by
  induction attrs generalizing r with
  | nil => exact ⟨SameLags.refl _, rfl⟩
  | cons attr attrs ih =>
    obtain ⟨hsame, hlanes⟩ := ih (createPortAttr port r attr)
    rw [List.foldl_cons]
    refine ⟨(sameLags_createPortAttr port r attr).trans hsame, hlanes.trans ?_⟩
    cases attr with
    | hwLaneList hwPortList => exact (getLast?_cons_or hwPortList _ _).symm
    | portVlanId vlanId => rfl
    | bindMode bindMode => rfl
    | other => rfl

/-- The id of a new port. -/
def newPort (s : Handler) : ℕ := getNewIndex s.ports.keys s.lags

theorem newPort_spec (s : Handler) : s.newPort ∉ s.ports ∧ s.newPort ∉ s.lags := by
  obtain ⟨hports, hlags, -⟩ := getNewIndex_spec s.ports.keys s.lags
  exact ⟨fun h => hports (Finmap.mem_keys.mpr h), hlags⟩

/-- What `create_port` has done after its loop. -/
theorem createPort_loop (s : Handler) (attrs : List PortAttr) :
    ∃ s₁, SameLags { s with ports := s.ports.insert s.newPort {} } s₁ ∧
      s.createPort attrs = match laneList attrs with
        | some (hwPort :: _) =>
            (some s.newPort, { s₁ with
              ports := s₁.ports.modify s.newPort fun obj => { obj with hwPort } }.addTable
                .ingressLag .setLagL2if [hwPort] [0, s.newPort])
        | _ => (none, s₁) := by
  obtain ⟨hsame, hlanes⟩ := createPortAttrs s.newPort attrs
    ({ s with ports := s.ports.insert s.newPort {} }, none)
  rw [Option.or_none] at hlanes
  refine ⟨_, hsame, ?_⟩
  rw [← hlanes]
  rfl

theorem hwPort_insert (s : Handler) (p : ℕ) : ({ s with ports := s.ports.insert s.newPort {} } :
    Handler).hwPort p = if p = s.newPort then some 0 else s.hwPort p := by
  rw [hwPort, Dict.lookup_insert]
  split <;> rfl

/-- Whatever its attributes, a new port takes a new id. -/
theorem mem_ports_createPort {attrs : List PortAttr} {p : ℕ} (h : p ∈ (s.createPort attrs).2.ports) :
    p = s.newPort ∨ p ∈ s.ports := by
  obtain ⟨s₁, hsame, heq⟩ := createPort_loop s attrs
  have hkeys : p ∈ s₁.ports := by
    rw [heq] at h
    split at h
    · rw [← Finmap.mem_keys] at h ⊢
      exact (Dict.keys_modify _ _) ▸ h
    · exact h
  by_contra hnot
  push Not at hnot
  have hnone := congrFun hsame.hwPort p
  rw [hwPort_insert, if_neg hnot.1, hwPort_eq_none.mpr hnot.2] at hnone
  exact absurd hkeys (hwPort_eq_none.mp hnone)

theorem lags_createPort (attrs : List PortAttr) : (s.createPort attrs).2.lags = s.lags := by
  obtain ⟨s₁, hsame, heq⟩ := createPort_loop s attrs
  rw [heq]
  split <;> exact hsame.lags

/-- `create_port` with a port of the switch that has no entry. -/
theorem createPort_effect {attrs : List PortAttr} {hw : ℕ} {rest : List ℕ}
    (hlanes : laneList attrs = some (hw :: rest)) (hfree : s.tables .ingressLag [hw] = none) :
    let s' := (s.createPort attrs).2
    s'.lags = s.lags ∧ s'.lagMembers = s.lagMembers ∧ s'.defaultLagMembers = s.defaultLagMembers ∧
      (∀ p, s'.hwPort p = if p = s.newPort then some hw else s.hwPort p) ∧
      ∀ t k, t ≠ .portPvid → t ≠ .portMode → s'.tables t k =
        s.tables.set .ingressLag [hw] (some (.setLagL2if, [0, s.newPort])) t k := by
  obtain ⟨s₁, hsame, heq⟩ := createPort_loop s attrs
  rw [heq, hlanes]
  refine ⟨hsame.lags, hsame.lagMembers, hsame.defaultLagMembers, fun p => ?_, fun t k ht ht' => ?_⟩
  · have hold := congrFun hsame.hwPort p
    rw [hwPort_insert] at hold
    show (Finmap.lookup p (s₁.ports.modify s.newPort _)).map Port.hwPort = _
    rw [Dict.lookup_modify]
    split
    next hp =>
      rw [hwPort, if_pos hp, hp] at hold
      obtain ⟨obj, hobj, -⟩ := Option.map_eq_some_iff.mp hold
      rw [hobj]
      rfl
    next hp =>
      rw [if_neg hp] at hold
      exact hold
  · have hnone : s₁.tables .ingressLag [hw] = none :=
      (hsame.tables _ _ (by decide) (by decide)).trans hfree
    show s₁.tables.addTable .ingressLag .setLagL2if [hw] [0, s.newPort] t k = _
    rw [Tables.addTable_of_none hnone, Tables.set, Tables.set, hsame.tables t k ht ht']

theorem removePort_effect {portId hw : ℕ} (hport : s.hwPort portId = some hw) :
    let s' := (s.removePort portId).2
    s'.lags = s.lags ∧ s'.lagMembers = s.lagMembers ∧ s'.defaultLagMembers = s.defaultLagMembers ∧
      (∀ p, s'.hwPort p = if p = portId then none else s.hwPort p) ∧
      ∀ t k, t ≠ .portPvid → s'.tables t k = s.tables.set .ingressLag [hw] none t k := by
  obtain ⟨port, hlookup, rfl⟩ := Option.map_eq_some_iff.mp hport
  rw [removePort, hlookup]
  refine ⟨rfl, rfl, rfl, fun p => ?_, fun t k ht => Tables.set_of_table_ne ht _ _⟩
  show (Finmap.lookup p (s.ports.erase portId)).map Port.hwPort = _
  rw [Dict.lookup_erase]
  split <;> rfl

/-- The loop of `create_lag_member`, when the LAGs exist. -/
theorem createLagMemberAttrs_eq {m : ℕ} {attrs : List LagMemberAttr} (locals : Option ℕ × Option ℕ)
    (s : Handler) (hlags : ∀ l ∈ lagIds attrs, l ∈ s.lags) :
    createLagMemberAttrs m attrs locals s =
      (some ((portIds attrs).getLast?.or locals.1, (lagIds attrs).getLast?.or locals.2),
        { s with
          lagMembers := s.lagMembers.modify m fun obj =>
            { portId := ((portIds attrs).getLast?).getD obj.portId
              lagId := ((lagIds attrs).getLast?).getD obj.lagId }
          defaultLagMembers := s.defaultLagMembers ++ List.replicate (lagIds attrs).length m }) := by
  induction attrs generalizing locals s with
  | nil =>
    rw [createLagMemberAttrs]
    simp only [portIds, lagIds, List.filterMap_nil, List.getLast?_nil, Option.none_or,
      Option.getD_none, List.length_nil, List.replicate_zero, List.append_nil]
    rw [show (fun obj : LagMember => ({ portId := obj.portId, lagId := obj.lagId } : LagMember)) =
      fun obj => obj from rfl, Dict.modify_id]
  | cons attr attrs ih =>
    cases attr with
    | portId portId =>
      have hports : portIds (.portId portId :: attrs) = portId :: portIds attrs := rfl
      have hsame : lagIds (.portId portId :: attrs) = lagIds attrs := rfl
      rw [hsame] at hlags ⊢
      rw [createLagMemberAttrs, ih, hports, getLast?_cons_or]
      · simp only [Dict.modify_modify, List.getLast?_cons, Option.getD_some]
      · exact hlags
    | lagId lagId =>
      have hids : lagIds (.lagId lagId :: attrs) = lagId :: lagIds attrs := rfl
      have hsame : portIds (.lagId lagId :: attrs) = portIds attrs := rfl
      rw [hids] at hlags ⊢
      obtain ⟨hlag, hlags⟩ := List.forall_mem_cons.mp hlags
      rw [createLagMemberAttrs]
      dsimp only
      rw [if_pos hlag, ih, hsame, getLast?_cons_or]
      · simp only [Dict.modify_modify, List.getLast?_cons, Option.getD_some, List.length_cons,
          List.replicate_succ, List.append_assoc, List.singleton_append]
      · exact hlags
    | other =>
      rw [createLagMemberAttrs, ih _ _ hlags]
      rfl

/-- The tables after `create_lag_member`. -/
theorem programLagMember_effect {m p l : ℕ} {port : Port} (hport : s.ports.lookup p = some port)
    (hfree : s.tables .egressLag [l, m] = none) :
    ∃ tables : Tables, (s.programLagMember m (some p) (some l)).2 = { s with tables } ∧
      ∀ t k, t ≠ .portPvid → t ≠ .portMode → tables t k =
        ((s.tables.set .ingressLag [port.hwPort] (some (.setLagL2if, [1, l]))).set .lagHash [l]
          (some (.setLagHashSize, [s.defaultLagMembers.length]))).set .egressLag [l, m]
            (some (.setOutPort, [port.hwPort])) t k := by
  rw [programLagMember, Option.bind_some, hport]
  simp only [addTable, removeTableEntry, lagMembersOf]
  refine ⟨_, rfl, fun t k ht ht' => ?_⟩
  rw [Tables.addTable_of_table_ne ht', Tables.addTable_of_table_ne ht, Tables.removeTableEntry,
    Tables.set_of_table_ne ht', Tables.removeTableEntry, Tables.set_of_table_ne ht,
    Tables.addTable_removeTableEntry, Tables.addTable_removeTableEntry, Tables.addTable_of_none]
  rw [Tables.set_of_table_ne (by decide), Tables.set_of_table_ne (by decide)]
  exact hfree

/-- `create_lag_member` of an existing port and an existing LAG. -/
theorem createLagMember_effect {attrs : List LagMemberAttr} {m p l hw : ℕ}
    (hm : getNewIndex s.lagMembers.keys ∅ = m) (hp : (portIds attrs).getLast? = some p)
    (hl : lagIds attrs = [l]) (hlag : l ∈ s.lags) (hport : s.hwPort p = some hw)
    (hfree : s.tables .egressLag [l, m] = none) :
    ∃ s', (s.createLagMember attrs).2 = s' ∧ s'.ports = s.ports ∧ s'.lags = s.lags ∧
      s'.defaultLagMembers = s.defaultLagMembers ++ [m] ∧
      (∀ m', s'.lagMembers.lookup m' = if m' = m then some ⟨p, l⟩ else s.lagMembers.lookup m') ∧
      ∀ t k, t ≠ .portPvid → t ≠ .portMode → s'.tables t k =
        ((s.tables.set .ingressLag [hw] (some (.setLagL2if, [1, l]))).set .lagHash [l]
          (some (.setLagHashSize, [(s.defaultLagMembers ++ [m]).length]))).set .egressLag [l, m]
            (some (.setOutPort, [hw])) t k := by
  obtain ⟨port, hlookup, rfl⟩ := Option.map_eq_some_iff.mp hport
  have heq : s.createLagMember attrs = programLagMember { s with
      lagMembers := Dict.modify (s.lagMembers.insert m {}) m fun _ => ⟨p, l⟩
      defaultLagMembers := s.defaultLagMembers ++ [m] } m (some p) (some l) := by
    rw [createLagMember, hm, createLagMemberAttrs_eq]
    · rw [hp, hl]
      rfl
    · rw [hl]
      exact List.forall_mem_singleton.mpr hlag
  obtain ⟨tables, hresult, htables⟩ := programLagMember_effect (s := { s with
      lagMembers := Dict.modify (s.lagMembers.insert m {}) m fun _ => ⟨p, l⟩
      defaultLagMembers := s.defaultLagMembers ++ [m] }) (l := l) hlookup hfree
  refine ⟨_, (congrArg Prod.snd heq).trans hresult, rfl, rfl, rfl, fun m' => ?_, htables⟩
  show Finmap.lookup m' (Dict.modify (s.lagMembers.insert m {}) m fun _ => ⟨p, l⟩) = _
  rw [Dict.lookup_modify, Dict.lookup_insert, if_pos rfl, Dict.lookup_insert]
  split <;> rfl

end Calls

/-! ## The invariant -/

/-- The invariant with `n` members: these are the ids below `n`, in one LAG when there are any, and the
tables have the entries for them and no others. -/
structure LagInv (s : Handler) (n : ℕ) : Prop where
  disjoint : ∀ id, id ∈ s.ports → id ∉ s.lags
  keys : s.lagMembers.keys = Finset.range n
  list : s.defaultLagMembers = List.range n
  member : ∀ m lm, s.lagMembers.lookup m = some lm → s.lags = {lm.lagId} ∧
    ∃ hw, s.hwPort lm.portId = some hw ∧ s.tables .egressLag [lm.lagId, m] = some (.setOutPort, [hw]) ∧
      s.tables .ingressLag [hw] = some (.setLagL2if, [1, lm.lagId])
  hash : ∀ l, s.tables .lagHash [l] =
    if 0 < n ∧ l ∈ s.lags then some (.setLagHashSize, [n]) else none
  egress : ∀ l h, n ≤ h → s.tables .egressLag [l, h] = none
  hwPort : ∀ p p' hw, s.hwPort p = some hw → s.hwPort p' = some hw → p = p'
  port : ∀ p hw, s.hwPort p = some hw → (∀ l, ¬ s.InLag p l) →
    s.tables .ingressLag [hw] = some (.setLagL2if, [0, p])
  free : ∀ hw, (∀ p, s.hwPort p ≠ some hw) → s.tables .ingressLag [hw] = none

section Invariant

variable {s s' : Handler} {n : ℕ}

theorem mem_membersOf {l m : ℕ} :
    m ∈ s.membersOf l ↔ ∃ lm, s.lagMembers.lookup m = some lm ∧ lm.lagId = l := by
  rw [membersOf, Finset.mem_filter, Finmap.mem_keys, Finmap.mem_iff]
  constructor
  · rintro ⟨-, hm⟩
    exact Option.map_eq_some_iff.mp hm
  · rintro ⟨lm, hm, rfl⟩
    exact ⟨⟨lm, hm⟩, by rw [hm, Option.map_some]⟩

theorem LagInv.lookup_of_lt (h : s.LagInv n) {m : ℕ} (hm : m < n) :
    ∃ lm, s.lagMembers.lookup m = some lm := by
  have hmem : m ∈ s.lagMembers := by
    rw [← Finmap.mem_keys, h.keys]
    exact Finset.mem_range.mpr hm
  exact Finmap.mem_iff.mp hmem

theorem LagInv.lt_of_lookup (h : s.LagInv n) {m : ℕ} {lm : LagMember}
    (hm : s.lagMembers.lookup m = some lm) : m < n := by
  rw [← Finset.mem_range, ← h.keys, Finmap.mem_keys]
  exact Finmap.mem_of_lookup_eq_some hm

/-- All the members are members of a LAG that exists. -/
theorem LagInv.membersOf_eq (h : s.LagInv n) {l : ℕ} (hl : l ∈ s.lags) :
    s.membersOf l = Finset.range n := by
  ext m
  rw [mem_membersOf, Finset.mem_range]
  constructor
  · rintro ⟨lm, hm, -⟩
    exact h.lt_of_lookup hm
  · intro hm
    obtain ⟨lm, hlm⟩ := h.lookup_of_lt hm
    rw [(h.member m lm hlm).1, Finset.mem_singleton] at hl
    exact ⟨lm, hlm, hl.symm⟩

theorem LagInv.hashSize_eq (h : s.LagInv n) {l : ℕ} (hl : l ∈ s.lags) : s.hashSize l = n := by
  rw [Handler.hashSize, h.hash]
  by_cases hn : 0 < n
  · rw [if_pos ⟨hn, hl⟩]
  · rw [if_neg fun hboth => hn hboth.1]
    dsimp only
    omega

theorem LagInv.consistent (h : s.LagInv n) : s.LagsConsistent where
  disjoint := h.disjoint
  members l hl := by
    rw [lagMembersOf, h.list]
    refine ⟨List.nodup_range, fun m => ?_⟩
    rw [h.membersOf_eq hl, List.mem_range, Finset.mem_range]
  hashSize l hl := by rw [h.hashSize_eq hl, h.membersOf_eq hl, Finset.card_range]
  egress l hl i hi := by
    rw [h.hashSize_eq hl] at hi
    obtain ⟨lm, hlm⟩ := h.lookup_of_lt hi
    obtain ⟨hlags, hw, hport, hegress, -⟩ := h.member i lm hlm
    rw [hlags, Finset.mem_singleton] at hl
    subst hl
    exact ⟨i, mem_membersOf.mpr ⟨lm, hlm, rfl⟩, lm, hw, hlm, hport, hegress⟩
  ingressLag p hw l hp hl := by
    constructor
    · intro hentry
      by_contra hnot
      have hnone : ∀ l', ¬ s.InLag p l' := by
        rintro l' ⟨m, lm, hm, hpm, hlm⟩
        -- there is no other LAG
        have hlags := (h.member m lm hm).1
        rw [hlags, Finset.mem_singleton] at hl
        exact hnot ⟨m, lm, hm, hpm, hl.symm⟩
      rw [h.port p hw hp hnone] at hentry
      cases hentry
    · rintro ⟨m, lm, hm, rfl, rfl⟩
      obtain ⟨-, hw', hport, -, hingress⟩ := h.member m lm hm
      rw [hp, Option.some.injEq] at hport
      rw [hport]
      exact hingress
  ingressPort p hw hp hnone := by
    apply h.port p hw hp
    rintro l ⟨m, lm, hm, hpm, hlm⟩
    apply hnone lm.lagId _ ⟨m, lm, hm, hpm, rfl⟩
    rw [(h.member m lm hm).1]
    exact Finset.mem_singleton_self _

/-- The members of a port are those of its LAG. -/
theorem inLag_congr (h : s'.lagMembers = s.lagMembers) (p l : ℕ) : s'.InLag p l ↔ s.InLag p l := by
  rw [InLag, InLag, h]

theorem LagInv.createPort (h : s.LagInv n) {attrs : List PortAttr} {hw : ℕ} {rest : List ℕ}
    (hlanes : laneList attrs = some (hw :: rest)) (hnew : ∀ p, s.hwPort p ≠ some hw) :
    (s.createPort attrs).2.LagInv n := by
  obtain ⟨hlags, hmembers, hlist, hports, htables⟩ := createPort_effect hlanes (h.free hw hnew)
  obtain ⟨hfree, hfreeLag⟩ := s.newPort_spec
  have hnone : s.hwPort s.newPort = none := hwPort_eq_none.mpr hfree
  -- nothing that has an entry is the new port
  have hother : ∀ hw', hw' ≠ hw → (s.createPort attrs).2.tables .ingressLag [hw'] =
      s.tables .ingressLag [hw'] := by
    intro hw' hne
    rw [htables _ _ (by decide) (by decide), Tables.set_of_key_ne (by simpa using hne)]
  have hrest : ∀ t k, t ≠ .portPvid → t ≠ .portMode → t ≠ .ingressLag →
      (s.createPort attrs).2.tables t k = s.tables t k := by
    intro t k ht ht' ht''
    rw [htables t k ht ht', Tables.set_of_table_ne ht'']
  constructor
  · intro id hid
    rw [hlags]
    rcases mem_ports_createPort hid with rfl | hid
    · exact hfreeLag
    · exact h.disjoint id hid
  · rw [hmembers]
    exact h.keys
  · rw [hlist]
    exact h.list
  · intro m lm hm
    rw [hmembers] at hm
    obtain ⟨hl, hw', hport, hegress, hingress⟩ := h.member m lm hm
    refine ⟨hlags.trans hl, hw', ?_, ?_, ?_⟩
    · rw [hports, if_neg, hport]
      rintro hp
      rw [hp, hnone] at hport
      cases hport
    · rw [hrest _ _ (by decide) (by decide) (by decide)]
      exact hegress
    · rw [hother hw' fun heq => hnew lm.portId (heq ▸ hport)]
      exact hingress
  · intro l
    rw [hrest _ _ (by decide) (by decide) (by decide), hlags]
    exact h.hash l
  · intro l i hi
    rw [hrest _ _ (by decide) (by decide) (by decide)]
    exact h.egress l i hi
  · intro p p' hw' hp hp'
    rw [hports] at hp hp'
    split at hp <;> split at hp'
    next hpn hpn' => exact hpn.trans hpn'.symm
    next =>
      cases hp
      exact absurd hp' (hnew p')
    next =>
      cases hp'
      exact absurd hp (hnew p)
    next => exact h.hwPort p p' hw' hp hp'
  · intro p hw' hp hnot
    rw [hports] at hp
    split at hp
    next hpn =>
      cases hp
      rw [htables _ _ (by decide) (by decide), Tables.set_self, hpn]
    next =>
      rw [hother hw' fun heq => hnew p (heq ▸ hp)]
      exact h.port p hw' hp fun l => (inLag_congr hmembers p l).not.mp (hnot l)
  · intro hw' hfree'
    have hne : hw' ≠ hw := by
      rintro rfl
      exact hfree' s.newPort (by rw [hports, if_pos rfl])
    rw [hother hw' hne]
    apply h.free
    intro p hp
    apply hfree' p
    rw [hports, if_neg, hp]
    rintro rfl
    rw [hnone] at hp
    cases hp

theorem LagInv.removePort (h : s.LagInv n) {portId : ℕ} (hnot : ∀ l, ¬ s.InLag portId l) :
    (s.removePort portId).2.LagInv n := by
  cases hport : s.hwPort portId with
  | none =>
    have hlookup : s.ports.lookup portId = none := Option.map_eq_none_iff.mp hport
    rw [Handler.removePort, hlookup]
    exact h
  | some hw =>
    obtain ⟨hlags, hmembers, hlist, hports, htables⟩ := removePort_effect hport
    have hold : ∀ p hw', (s.removePort portId).2.hwPort p = some hw' →
        p ≠ portId ∧ s.hwPort p = some hw' := by
      intro p hw' hp
      rw [hports] at hp
      split at hp
      next => cases hp
      next hne => exact ⟨hne, hp⟩
    have hrest : ∀ t k, t ≠ .portPvid → t ≠ .ingressLag →
        (s.removePort portId).2.tables t k = s.tables t k := by
      intro t k ht ht'
      rw [htables t k ht, Tables.set_of_table_ne ht']
    -- the entries of the other ports stay
    have hother : ∀ p hw', p ≠ portId → s.hwPort p = some hw' →
        (s.removePort portId).2.tables .ingressLag [hw'] = s.tables .ingressLag [hw'] := by
      intro p hw' hne hp
      rw [htables _ _ (by decide), Tables.set_of_key_ne]
      intro heq
      obtain rfl : hw' = hw := by simpa using heq
      exact hne (h.hwPort p portId hw' hp hport)
    constructor
    · intro id hid
      rw [hlags]
      apply h.disjoint
      by_contra hnone
      have hnone' := hports id
      rw [hwPort_eq_none.mpr hnone, ite_self] at hnone'
      exact absurd hid (hwPort_eq_none.mp hnone')
    · rw [hmembers]
      exact h.keys
    · rw [hlist]
      exact h.list
    · intro m lm hm
      rw [hmembers] at hm
      obtain ⟨hl, hw', hp, hegress, hingress⟩ := h.member m lm hm
      have hne : lm.portId ≠ portId := fun heq => hnot lm.lagId ⟨m, lm, hm, heq, rfl⟩
      refine ⟨hlags.trans hl, hw', by rw [hports, if_neg hne, hp], ?_, ?_⟩
      · rw [hrest _ _ (by decide) (by decide)]
        exact hegress
      · rw [hother _ _ hne hp]
        exact hingress
    · intro l
      rw [hrest _ _ (by decide) (by decide), hlags]
      exact h.hash l
    · intro l i hi
      rw [hrest _ _ (by decide) (by decide)]
      exact h.egress l i hi
    · intro p p' hw' hp hp'
      exact h.hwPort p p' hw' (hold p hw' hp).2 (hold p' hw' hp').2
    · intro p hw' hp hnot'
      obtain ⟨hne, hp⟩ := hold p hw' hp
      rw [hother p hw' hne hp]
      exact h.port p hw' hp fun l => (inLag_congr hmembers p l).not.mp (hnot' l)
    · intro hw' hfree
      rw [htables _ _ (by decide)]
      by_cases heq : hw' = hw
      · rw [heq, Tables.set_self]
      · rw [Tables.set_of_key_ne (by simpa using heq)]
        apply h.free
        intro p hp
        apply hfree p
        rw [hports, if_neg, hp]
        rintro rfl
        rw [hport, Option.some.injEq] at hp
        exact heq hp.symm

theorem LagInv.createLag (h : s.LagInv n) (hempty : s.lagMembers = ∅) : s.createLag.2.LagInv n := by
  obtain ⟨hfree, hfreePort, -⟩ := getNewIndex_spec s.lags s.ports.keys
  have hn : n = 0 := by
    have hkeys := h.keys
    rw [hempty, Finmap.keys_empty] at hkeys
    exact Finset.range_eq_empty_iff.mp hkeys.symm
  subst hn
  refine ⟨fun id hid => ?_, h.keys, h.list, fun m lm hm => ?_, fun l => ?_, h.egress, h.hwPort, h.port,
    h.free⟩
  · show id ∉ insert _ s.lags
    rw [Finset.mem_insert, not_or]
    refine ⟨?_, h.disjoint id hid⟩
    rintro rfl
    exact hfreePort (Finmap.mem_keys.mpr hid)
  · exact absurd (h.lt_of_lookup hm) (Nat.not_lt_zero m)
  · have hhash := h.hash l
    rw [if_neg fun hboth => absurd hboth.1 (lt_irrefl 0)] at hhash ⊢
    exact hhash

theorem LagInv.removeLag (h : s.LagInv n) {lagId : ℕ} (hempty : s.membersOf lagId = ∅) :
    (s.removeLag lagId).2.LagInv n := by
  -- a LAG with members is another one
  have hlags : ∀ l, 0 < n → (l ∈ s.lags.erase lagId ↔ l ∈ s.lags) := by
    intro l hn
    obtain ⟨lm, hlm⟩ := h.lookup_of_lt hn
    rw [Finset.mem_erase, and_iff_right_of_imp]
    rintro hl rfl
    rw [h.membersOf_eq hl, Finset.range_eq_empty_iff] at hempty
    omega
  refine ⟨fun id hid hl => ?_, h.keys, h.list, fun m lm hm => ⟨?_, (h.member m lm hm).2⟩, fun l => ?_,
    h.egress, h.hwPort, h.port, h.free⟩
  · exact h.disjoint id hid (Finset.mem_of_mem_erase hl)
  · rw [← (h.member m lm hm).1]
    exact Finset.ext fun l => hlags l ((Nat.zero_le m).trans_lt (h.lt_of_lookup hm))
  · show s.tables .lagHash [l] = if 0 < n ∧ l ∈ s.lags.erase lagId then _ else _
    rw [h.hash l]
    by_cases hn : 0 < n
    · simp only [hn, true_and, hlags l hn]
    · rw [if_neg fun hboth => hn hboth.1, if_neg fun hboth => hn hboth.1]

theorem LagInv.createLagMember (h : s.LagInv n) {attrs : List LagMemberAttr} {p l : ℕ}
    (hp : (portIds attrs).getLast? = some p) (hl : lagIds attrs = [l]) (hport : p ∈ s.ports)
    (hlags : s.lags = {l}) : (s.createLagMember attrs).2.LagInv (n + 1) := by
  have hm : getNewIndex s.lagMembers.keys ∅ = n := by
    rw [h.keys]
    exact getNewIndex_range n
  obtain ⟨hw, hhw⟩ : ∃ hw, s.hwPort p = some hw := by
    obtain ⟨port, hlookup⟩ := Finmap.mem_iff.mp hport
    exact ⟨port.hwPort, Option.map_eq_some_iff.mpr ⟨port, hlookup, rfl⟩⟩
  have hlag : l ∈ s.lags := hlags ▸ Finset.mem_singleton_self l
  obtain ⟨s', heq, hports, hlags', hlist, hmembers, htables⟩ :=
    createLagMember_effect hm hp hl hlag hhw (h.egress l n le_rfl)
  rw [heq]
  have hhwPort : s'.hwPort = s.hwPort := funext fun p => by rw [Handler.hwPort, hports, Handler.hwPort]
  have hingress : ∀ hw', s'.tables .ingressLag [hw'] =
      if hw' = hw then some (.setLagL2if, [1, l]) else s.tables .ingressLag [hw'] := by
    intro hw'
    rw [htables _ _ (by decide) (by decide), Tables.set_of_table_ne (by decide),
      Tables.set_of_table_ne (by decide)]
    split
    next h => rw [h, Tables.set_self]
    next h => rw [Tables.set_of_key_ne (by simpa using h)]
  have hegress : ∀ l' i, s'.tables .egressLag [l', i] =
      if l' = l ∧ i = n then some (.setOutPort, [hw]) else s.tables .egressLag [l', i] := by
    intro l' i
    rw [htables _ _ (by decide) (by decide)]
    split
    next h => rw [h.1, h.2, Tables.set_self]
    next h =>
      rw [Tables.set_of_key_ne (by simpa using h), Tables.set_of_table_ne (by decide),
        Tables.set_of_table_ne (by decide)]
  have hlookup : ∀ m lm, s'.lagMembers.lookup m = some lm →
      (m = n ∧ lm = ⟨p, l⟩) ∨ (m ≠ n ∧ s.lagMembers.lookup m = some lm) := by
    intro m lm hlm
    rw [hmembers] at hlm
    split at hlm
    next hmn =>
      cases hlm
      exact .inl ⟨hmn, rfl⟩
    next hmn => exact .inr ⟨hmn, hlm⟩
  constructor
  · rw [hlags', hports]
    exact h.disjoint
  · ext m
    rw [Finmap.mem_keys, ← Finmap.lookup_isSome, hmembers, Finset.mem_range]
    split
    next hmn => exact iff_of_true rfl (by omega)
    next hmn =>
      rw [Finmap.lookup_isSome, ← Finmap.mem_keys, h.keys, Finset.mem_range]
      omega
  · rw [hlist, h.list, List.range_succ]
  · intro m lm hlm
    rw [hlags', hhwPort]
    rcases hlookup m lm hlm with ⟨rfl, rfl⟩ | ⟨hne, hlm⟩
    · refine ⟨hlags, hw, hhw, ?_, ?_⟩
      · rw [hegress, if_pos ⟨rfl, rfl⟩]
      · rw [hingress, if_pos rfl]
    · obtain ⟨hl', hw', hport', hegress', hingress'⟩ := h.member m lm hlm
      refine ⟨hl', hw', hport', ?_, ?_⟩
      · rw [hegress, if_neg fun hboth => hne hboth.2]
        exact hegress'
      · -- the same port, or another one
        have hsame : lm.lagId = l := by
          rw [hlags] at hl'
          exact (Finset.singleton_injective hl').symm
        rw [hingress, hingress', hsame, ite_self]
  · intro l'
    rw [htables _ _ (by decide) (by decide), Tables.set_of_table_ne (by decide), hlags']
    by_cases hl' : l' = l
    · rw [hl', Tables.set_self, if_pos ⟨Nat.succ_pos n, hlag⟩, h.list, List.length_append,
        List.length_range, List.length_singleton]
    · have hnot : l' ∉ s.lags := by rwa [hlags, Finset.mem_singleton]
      rw [Tables.set_of_key_ne (by simpa using hl'), Tables.set_of_table_ne (by decide), h.hash,
        if_neg fun hboth => hnot hboth.2, if_neg fun hboth => hnot hboth.2]
  · intro l' i hi
    rw [hegress, if_neg fun hboth => by omega]
    exact h.egress l' i (by omega)
  · rw [hhwPort]
    exact h.hwPort
  · intro q hw' hq hnot
    rw [hhwPort] at hq
    rw [hingress, if_neg]
    · apply h.port q hw' hq
      rintro l' ⟨m, lm, hlm, hqm, hlm'⟩
      apply hnot l' ⟨m, lm, ?_, hqm, hlm'⟩
      rw [hmembers, if_neg (h.lt_of_lookup hlm).ne]
      exact hlm
    · rintro rfl
      -- the port of the new member has one
      apply hnot l ⟨n, ⟨p, l⟩, by rw [hmembers, if_pos rfl], h.hwPort p q hw' hhw hq, rfl⟩
  · intro hw' hfree
    rw [hhwPort] at hfree
    rw [hingress, if_neg]
    · exact h.free hw' hfree
    · rintro rfl
      exact hfree p hhw

/-- **Step lemma.** -/
theorem LagInv.step (h : s.LagInv n) {op : LagOp} (hkeeps : s.KeepsLags op)
    (hstep : s.lagStep op = some s') : ∃ n', s'.LagInv n' := by
  cases op <;> cases hstep
  case createPort attrs =>
    obtain ⟨hw, rest, hlanes, hnew⟩ := hkeeps
    exact ⟨n, h.createPort hlanes hnew⟩
  case removePort portId => exact ⟨n, h.removePort hkeeps⟩
  case createLag => exact ⟨n, h.createLag hkeeps⟩
  case removeLag lagId => exact ⟨n, h.removeLag hkeeps⟩
  case createLagMember attrs =>
    obtain ⟨p, l, hp, hl, hport, hlags⟩ := hkeeps
    exact ⟨n + 1, h.createLagMember hp hl hport hlags⟩
  case removeLagMember m =>
    have hlookup : s.lagMembers.lookup m = none := Finmap.lookup_eq_none.mpr hkeeps
    rw [Handler.removeLagMember, hlookup]
    exact ⟨n, h⟩

end Invariant

/-! ## Runs -/

section Runs

variable {s s' : Handler}

theorem createLagMemberAttrs_ids (m : ℕ) (attrs : List LagMemberAttr) (locals : Option ℕ × Option ℕ)
    (s : Handler) : (createLagMemberAttrs m attrs locals s).2.ports = s.ports ∧
      (createLagMemberAttrs m attrs locals s).2.lags = s.lags := by
  induction attrs generalizing locals s with
  | nil => exact ⟨rfl, rfl⟩
  | cons attr attrs ih =>
    cases attr with
    | portId portId =>
      rw [createLagMemberAttrs]
      exact ih _ _
    | lagId lagId =>
      rw [createLagMemberAttrs]
      dsimp only
      split
      · exact ih _ _
      · exact ⟨rfl, rfl⟩
    | other => exact ih _ _

theorem programLagMember_ids (s : Handler) (m : ℕ) (portId lagId : Option ℕ) :
    (s.programLagMember m portId lagId).2.ports = s.ports ∧
      (s.programLagMember m portId lagId).2.lags = s.lags := by
  rw [programLagMember]
  simp only [addTable, removeTableEntry]
  split
  · exact ⟨rfl, rfl⟩
  · split <;> exact ⟨rfl, rfl⟩

theorem createLagMember_ids (attrs : List LagMemberAttr) :
    (s.createLagMember attrs).2.ports = s.ports ∧ (s.createLagMember attrs).2.lags = s.lags := by
  have hloop := createLagMemberAttrs_ids (getNewIndex s.lagMembers.keys ∅) attrs (none, none)
    { s with lagMembers := s.lagMembers.insert (getNewIndex s.lagMembers.keys ∅) {} }
  rw [createLagMember]
  split
  next heq =>
    rw [heq] at hloop
    exact hloop
  next portId lagId s₁ heq =>
    rw [heq] at hloop
    obtain ⟨hports, hlags⟩ := s₁.programLagMember_ids _ portId lagId
    exact ⟨hports.trans hloop.1, hlags.trans hloop.2⟩

theorem removeLagMember_ids (m : ℕ) :
    (s.removeLagMember m).2.ports = s.ports ∧ (s.removeLagMember m).2.lags = s.lags := by
  rw [removeLagMember]
  split
  · exact ⟨rfl, rfl⟩
  · dsimp only
    split <;> exact ⟨rfl, rfl⟩

/-- **Step lemma** for the ids, of any call. -/
theorem disjoint_step (h : ∀ id, id ∈ s.ports → id ∉ s.lags) {op : LagOp}
    (hstep : s.lagStep op = some s') : ∀ id, id ∈ s'.ports → id ∉ s'.lags := by
  intro id hid
  cases op <;> cases hstep
  case createPort attrs =>
    rw [lags_createPort]
    rcases mem_ports_createPort hid with rfl | hid
    · exact s.newPort_spec.2
    · exact h id hid
  case removePort portId =>
    rw [removePort] at hid ⊢
    split at hid
    next hnone => exact h id hid
    next port hport => exact h id (Finmap.mem_erase.mp hid).2
  case createLag =>
    obtain ⟨-, hports, -⟩ := getNewIndex_spec s.lags s.ports.keys
    show id ∉ insert _ s.lags
    rw [Finset.mem_insert, not_or]
    refine ⟨?_, h id hid⟩
    rintro rfl
    exact hports (Finmap.mem_keys.mpr hid)
  case removeLag lagId => exact fun hl => h id hid (Finset.mem_of_mem_erase hl)
  case createLagMember attrs =>
    rw [(createLagMember_ids attrs).1] at hid
    rw [(createLagMember_ids attrs).2]
    exact h id hid
  case removeLagMember m =>
    rw [(removeLagMember_ids m).1] at hid
    rw [(removeLagMember_ids m).2]
    exact h id hid

theorem lagInv_empty : ({} : Handler).LagInv 0 where
  disjoint _ h := absurd h Finmap.notMem_empty
  keys := rfl
  list := rfl
  member _ _ h := by cases h
  hash _ := by simp
  egress _ _ _ := rfl
  hwPort _ _ _ h := by cases h
  port _ _ h := by cases h
  free _ _ := rfl

/-- **LAGs.**  In every run the ids of ports and LAGs are disjoint; the objects and the tables agree when there
is one LAG from its first member on, no member is removed and no two ports stand for the same port of
the switch. -/
theorem lags_consistent (ops : List LagOp) (hrun : runFrom lagStep {} ops = some s) :
    (∀ id, id ∈ s.ports → id ∉ s.lags) ∧ (RunMeets lagStep KeepsLags {} ops → s.LagsConsistent) := by
  constructor
  · exact runFrom_invariant (I := fun s : Handler => ∀ id, id ∈ s.ports → id ∉ s.lags)
      (fun s op s' h hstep => disjoint_step h hstep) (fun _ h => absurd h Finmap.notMem_empty) hrun
  · intro hkeeps
    obtain ⟨n, hinv⟩ := runFrom_invariant_of_meets (I := fun s : Handler => ∃ n, s.LagInv n)
      (fun s op s' h hop hstep => h.elim fun n hn => hn.step hop hstep) ⟨0, lagInv_empty⟩ hkeeps hrun
    exact hinv.consistent

/-- Two ports and a LAG of both of them. -/
theorem lags_consistent_two : ∃ s : Handler,
    runFrom lagStep {} [.createPort [.hwLaneList [4]], .createPort [.hwLaneList [7]], .createLag,
      .createLagMember [.portId 1, .lagId 2], .createLagMember [.portId 0, .lagId 2]] = some s ∧
    s.hashSize 2 = 2 ∧ s.tables .egressLag [2, 0] = some (.setOutPort, [7]) ∧ s.LagsConsistent := by
  refine ⟨_, rfl, by decide, by decide, ?_⟩
  have h := lags_consistent [.createPort [.hwLaneList [4]], .createPort [.hwLaneList [7]], .createLag,
    .createLagMember [.portId 1, .lagId 2], .createLagMember [.portId 0, .lagId 2]] rfl
  apply h.2
  refine ⟨⟨4, [], rfl, fun p hp => by cases hp⟩, fun s₁ hs₁ => ?_⟩
  cases hs₁
  refine ⟨⟨7, [], rfl, fun p hp => ?_⟩, fun s₂ hs₂ => ?_⟩
  · have hlanes : laneList [.hwLaneList [4]] = some [4] := rfl
    obtain ⟨-, -, -, hports, -⟩ := createPort_effect (s := {}) hlanes rfl
    rw [hports] at hp
    split at hp <;> cases hp
  cases hs₂
  refine ⟨rfl, fun s₃ hs₃ => ?_⟩
  cases hs₃
  refine ⟨⟨1, 2, rfl, rfl, by decide, by decide⟩, fun s₄ hs₄ => ?_⟩
  cases hs₄
  exact ⟨⟨0, 2, rfl, rfl, by decide, by decide⟩, fun _ _ => trivial⟩

/-- Two LAGs with a member each: each has both members in its list, and the second no entry for the
first of its two hash values. -/
theorem lags_share_members : ∃ s : Handler,
    runFrom lagStep {} [.createPort [.hwLaneList [0]], .createPort [.hwLaneList [1]], .createLag,
      .createLag, .createLagMember [.portId 0, .lagId 2], .createLagMember [.portId 1, .lagId 3]] =
        some s ∧
    s.lagMembersOf 3 = [0, 1] ∧ s.membersOf 3 = {1} ∧ s.hashSize 3 = 2 ∧
    s.tables .egressLag [3, 0] = none ∧ ¬ s.LagsConsistent := by
  refine ⟨_, rfl, by decide, by decide, by decide, by decide, fun h => ?_⟩
  exact absurd ((h.members 3 (by decide)).2 0) (by decide)

end Runs

end Handler

end Bm.Sai
