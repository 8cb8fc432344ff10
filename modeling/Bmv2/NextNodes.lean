/-
# Next nodes

`MatchTableAbstract::apply_action` (`match_tables.cpp`): the node that follows a table.  The next node of an
action is kept in every action entry, and the next node of a miss in the table; both are set when an entry,
a member or the default is written.

* `next_node_selected`: in a table of actions the next node is the one of the action that is executed, in
  every run; in the other tables it is on every hit, and on a miss unless there is a default member whose
  action has another next node than the base default.
-/
import Bmv2.IndirectSpec
import Bmv2.SlotBounds
import Bmv2.TableSpec

namespace Bm

/-! ## Configuration -/

/-- The next nodes of a table in the configuration (`next_tables` and `base_default_next`). -/
structure NextTables where
  actions : List (ℕ × Option ℕ)
  hit : Option (Option ℕ) := none
  miss : Option (Option ℕ) := none
  baseDefault : Option (Option ℕ) := none

/-- `default_entry` in the configuration. -/
structure DefaultEntryConfig where
  actionId : ℕ
  actionConst : Bool := false
  actionData : Option (List ℕ) := none
  actionEntryConst : Bool := false

namespace MatchTableAbstract

variable {K V S : Type} (t : MatchTableAbstract K V S)

/-- `set_next_node`. -/
def setNextNode (actionId : ℕ) (nextNode : Option ℕ) : MatchTableAbstract K V S :=
  { t with nextNodes := Function.update t.nextNodes actionId (some nextNode) }

/-- `set_next_node_hit`. -/
def setNextNodeHit (nextNode : Option ℕ) : MatchTableAbstract K V S :=
  { t with hasNextNodeHit := true, nextNodeHit := nextNode }

/-- `set_next_node_miss`. -/
def setNextNodeMiss (nextNode : Option ℕ) : MatchTableAbstract K V S :=
  { t with hasNextNodeMiss := true, nextNodeMiss := nextNode }

/-- `set_next_node_miss_default`. -/
def setNextNodeMissDefault (nextNode : Option ℕ) : MatchTableAbstract K V S :=
  if t.hasNextNodeMiss then t else { t with nextNodeMiss := nextNode }

/-- The resolution of the next nodes of a table in `init_objects`. -/
def setNextTables (cfg : NextTables) : MatchTableAbstract K V S :=
  let t := cfg.actions.foldl (fun t action => t.setNextNode action.1 action.2) t
  let t := cfg.hit.elim t t.setNextNodeHit
  let t := cfg.miss.elim t t.setNextNodeMiss
  cfg.baseDefault.elim t t.setNextNodeMissDefault

end MatchTableAbstract

namespace MatchTable

variable {K S : Type} (t : MatchTable K S)

/-- `set_const_default_action_fn`. -/
def setConstDefaultActionFn (actionFn : ℕ) : Option (MatchTable K S) :=
  if t.constDefaultAction.isSome then none else some { t with constDefaultAction := some actionFn }

/-- `set_default_entry`. -/
def setDefaultEntry (actionFn : ℕ) (actionData : List ℕ) (isConst : Bool) : Option (MatchTable K S) :=
  if t.constDefaultEntry then none
  else
    match t.setDefaultAction actionFn actionData with
    | some (.ok (), t) => some { t with constDefaultEntry := isConst }
    | _ => none

/-- The configuration of a table of actions in `init_objects`. -/
def configure (cfg : NextTables) (defaultEntry : Option DefaultEntryConfig) : Option (MatchTable K S) :=
  let t := { t with toMatchTableAbstract := t.toMatchTableAbstract.setNextTables cfg }
  match defaultEntry with
  | none => some t
  | some d =>
    (if d.actionConst then t.setConstDefaultActionFn d.actionId else some t).bind fun t =>
      match d.actionData with
      | none => some t
      | some actionData => t.setDefaultEntry d.actionId actionData d.actionEntryConst

end MatchTable

/-- The configuration of a table of members in `init_objects`. -/
def MatchTableIndirect.configure {K S : Type} (t : MatchTableIndirect K S) (cfg : NextTables) : MatchTableIndirect K S :=
  { t with toMatchTableAbstract := t.toMatchTableAbstract.setNextTables cfg }

/-- The configuration of a table of groups in `init_objects`. -/
def MatchTableIndirectWS.configure {K S : Type} (t : MatchTableIndirectWS K S) (cfg : NextTables) : MatchTableIndirectWS K S :=
  { t with toMatchTableAbstract := t.toMatchTableAbstract.setNextTables cfg }

/-! ## Packets -/

/-- What a table reads of a packet, and the clock. -/
structure PacketIn where
  phv : PHV
  ingressLength : ℕ
  ingressTsMs : ℕ
  microsSinceInit : ℕ
  hash : ℕ := 0

/-- What `apply_action` does with a packet: the action, the index of the entry that was hit and the colour
that its meter gave, and the next node. -/
structure Applied where
  actionFn : ActionFnEntry
  entryIndex : Option ℕ
  color : Option ℕ
  nextNode : Option ℕ
  deriving DecidableEq

namespace MatchTableAbstract

variable {K V S : Type} (t : MatchTableAbstract K V S)

/-- The direct meter of an entry is executed. -/
def executeMeter (handle : ℕ) (pkt : PacketIn) : Option (ℕ × MatchTableAbstract K V S) := do
  let meter ← t.matchUnit.getMeter handle
  let (color, meter) ← meter.execute pkt.microsSinceInit pkt.ingressLength
  let directMeters := t.matchUnit.directMeters.map (·.set (handleInternal handle) meter)
  pure (color, { t with matchUnit := { t.matchUnit with directMeters } })

/-- `apply_action`, from the result of the lookup on. -/
def finishApply (pkt : PacketIn) (actionEntry : ActionEntry) :
    Option ℕ → Option (Applied × MatchTableAbstract K V S)
  | none => some (⟨actionEntry.actionFn, none, none, t.nextNodeMiss⟩, t)
  | some handle =>
    if t.withMeters then do
      let (color, t) ← t.executeMeter handle pkt
      pure (⟨actionEntry.actionFn, some (handle &&& 0x00ffffff), some color, actionEntry.nextNode⟩, t)
    else some (⟨actionEntry.actionFn, some (handle &&& 0x00ffffff), none, actionEntry.nextNode⟩, t)

end MatchTableAbstract

section Apply

variable {K S : Type} [MatchKey K] [LookupStructure K S]

/-- `apply_action` of a `MatchTable`. -/
def MatchTable.applyAction (t : MatchTable K S) (pkt : PacketIn) : Option (Applied × MatchTable K S) := do
  let ((actionEntry, handle), t) ← t.lookup pkt.phv pkt.ingressLength pkt.ingressTsMs
  let (applied, base) ← t.toMatchTableAbstract.finishApply pkt actionEntry handle
  pure (applied, { t with toMatchTableAbstract := base })

/-- `apply_action` of a `MatchTableIndirect`. -/
def MatchTableIndirect.applyAction (t : MatchTableIndirect K S) (pkt : PacketIn) :
    Option (Applied × MatchTableIndirect K S) := do
  let ((actionEntry, handle), t) ← t.lookup pkt.phv pkt.ingressLength pkt.ingressTsMs
  let (applied, base) ← t.toMatchTableAbstract.finishApply pkt actionEntry handle
  pure (applied, { t with toMatchTableAbstract := base })

/-- `apply_action` of a `MatchTableIndirectWS`. -/
def MatchTableIndirectWS.applyAction (t : MatchTableIndirectWS K S) (pkt : PacketIn) :
    Option (Applied × MatchTableIndirectWS K S) := do
  let ((actionEntry, handle), t) ← t.lookup pkt.phv pkt.ingressLength pkt.ingressTsMs pkt.hash
  let (applied, base) ← t.toMatchTableAbstract.finishApply pkt actionEntry handle
  pure (applied, { t with toMatchTableAbstract := base })

variable [Inhabited K]

/-- A control operation or a packet. -/
def MatchTable.call (t : MatchTable K S) : MatchTableOp ⊕ PacketIn → Option (MatchTable K S)
  | .inl op => (t.exec op).map Prod.snd
  | .inr pkt => (t.applyAction pkt).map Prod.snd

/-- A control operation or a packet. -/
def MatchTableIndirect.call (t : MatchTableIndirect K S) :
    IndirectOp ⊕ PacketIn → Option (MatchTableIndirect K S)
  | .inl op => t.step op
  | .inr pkt => (t.applyAction pkt).map Prod.snd

/-- A control operation or a packet. -/
def MatchTableIndirectWS.call (t : MatchTableIndirectWS K S) :
    IndirectWSOp ⊕ PacketIn → Option (MatchTableIndirectWS K S)
  | .inl op => t.step op
  | .inr pkt => (t.applyAction pkt).map Prod.snd

end Apply

/-! ## The node that should follow -/

namespace NextTables

variable (cfg : NextTables)

/-- The node of an action: `next_tables` has one for every action of the table. -/
def ofAction (actionId : ℕ) : Option (Option ℕ) :=
  ((cfg.actions.filter fun action => action.1 = actionId).getLast?).map Prod.snd

/-- The base default, the null pointer when there is none. -/
def base : Option ℕ := cfg.baseDefault.join

/-- After a hit: the hit node if there is one, and otherwise the node of the action. -/
def hitNode (actionId : ℕ) : Option (Option ℕ) :=
  match cfg.hit with
  | some node => some node
  | none => cfg.ofAction actionId

/-- After a miss: the miss node if there is one, otherwise the node of the action, or the base default when
there is no action. -/
def missNode (actionId : Option ℕ) : Option (Option ℕ) :=
  match cfg.miss, actionId with
  | some node, _ => some node
  | none, some actionId => cfg.ofAction actionId
  | none, none => some cfg.base

variable {cfg} in
theorem missNode_of_some {node : Option ℕ} (h : cfg.miss = some node) (actionId : Option ℕ) :
    cfg.missNode actionId = some node := by
  simp only [missNode, h]

variable {cfg} in
theorem missNode_of_none (h : cfg.miss = none) (actionId : Option ℕ) :
    cfg.missNode actionId = actionId.elim (some cfg.base) cfg.ofAction := by
  cases actionId <;> simp only [missNode, h, Option.elim]

/-- The next node is the right one. -/
def Selects (applied : Applied) : Prop :=
  match applied.entryIndex with
  | some _ => ∃ actionId, applied.actionFn.actionFn = some actionId ∧
      cfg.hitNode actionId = some applied.nextNode
  | none => cfg.missNode applied.actionFn.actionFn = some applied.nextNode

/-- An action entry has an action, and the next node for a hit. -/
def EntryOk (actionEntry : ActionEntry) : Prop :=
  ∃ actionId, actionEntry.actionFn.actionFn = some actionId ∧
    cfg.hitNode actionId = some actionEntry.nextNode

/-- The table has the next nodes of the configuration. -/
structure Holds {K V S : Type} (t : MatchTableAbstract K V S) : Prop where
  nextNodes : t.nextNodes = cfg.ofAction
  hasNextNodeHit : t.hasNextNodeHit = cfg.hit.isSome
  nextNodeHit : t.nextNodeHit = cfg.hit.join
  hasNextNodeMiss : t.hasNextNodeMiss = cfg.miss.isSome

end NextTables

/-- The next nodes are the same. -/
structure SameNodes {K V S : Type} (t t' : MatchTableAbstract K V S) : Prop where
  nextNodes : t'.nextNodes = t.nextNodes
  hasNextNodeHit : t'.hasNextNodeHit = t.hasNextNodeHit
  nextNodeHit : t'.nextNodeHit = t.nextNodeHit
  hasNextNodeMiss : t'.hasNextNodeMiss = t.hasNextNodeMiss
  nextNodeMiss : t'.nextNodeMiss = t.nextNodeMiss

section Nodes

variable {K V S : Type} {cfg : NextTables} {t t' : MatchTableAbstract K V S}

theorem SameNodes.of_unit (t : MatchTableAbstract K V S) (matchUnit : MatchUnit K V S) :
    SameNodes t { t with matchUnit } := ⟨rfl, rfl, rfl, rfl, rfl⟩

theorem NextTables.Holds.of_same (h : cfg.Holds t) (hsame : SameNodes t t') : cfg.Holds t' :=
  ⟨hsame.nextNodes.trans h.nextNodes, hsame.hasNextNodeHit.trans h.hasNextNodeHit,
    hsame.nextNodeHit.trans h.nextNodeHit, hsame.hasNextNodeMiss.trans h.hasNextNodeMiss⟩

theorem NextTables.Holds.getNextNode_eq (h : cfg.Holds t) (actionId : ℕ) :
    t.getNextNode actionId = cfg.hitNode actionId := by
  rw [MatchTableAbstract.getNextNode, h.hasNextNodeHit, h.nextNodeHit, h.nextNodes, hitNode]
  cases cfg.hit <;> rfl

theorem foldl_setNextNode (actions : List (ℕ × Option ℕ)) (t : MatchTableAbstract K V S) :
    actions.foldl (fun t action => t.setNextNode action.1 action.2) t =
      { t with nextNodes := fun a =>
        (((actions.filter fun action => action.1 = a).getLast?).map Prod.snd).or (t.nextNodes a) } := by
  induction actions generalizing t with
  | nil => rfl
  | cons action actions ih =>
    rw [List.foldl_cons, ih]
    congr 1
    funext a
    rw [MatchTableAbstract.setNextNode, List.filter_cons]
    dsimp only
    by_cases ha : action.1 = a
    · rw [if_pos (by simpa using ha), ← ha, Function.update_self, List.getLast?_cons, Option.map_some]
      cases (actions.filter fun action' => action'.1 = action.1).getLast? <;> rfl
    · rw [if_neg (by simpa using ha), Function.update_of_ne (Ne.symm ha)]

/-- A new table has the next nodes of its configuration. -/
theorem holds_setNextTables (cfg : NextTables) (matchUnit : MatchUnit K V S)
    (withCounters withAgeing : Bool) :
    let t := MatchTableAbstract.setNextTables { matchUnit, withCounters, withAgeing } cfg
    cfg.Holds t ∧ cfg.missNode none = some t.nextNodeMiss ∧ t.matchUnit = matchUnit := by
  have hactions : ({ matchUnit, withCounters, withAgeing, nextNodes := cfg.ofAction } :
      MatchTableAbstract K V S) = cfg.actions.foldl (fun t action => t.setNextNode action.1 action.2)
        { matchUnit, withCounters, withAgeing } := by
    rw [foldl_setNextNode]
    congr 1
    funext a
    rw [Option.or_none]
    rfl
  dsimp only [MatchTableAbstract.setNextTables]
  rw [← hactions]
  obtain ⟨actions, hit, miss, baseDefault⟩ := cfg
  cases hit <;> cases miss <;> cases baseDefault <;> exact ⟨⟨rfl, rfl, rfl, rfl⟩, rfl, rfl⟩

/-- What all tables share leaves the next nodes alone. -/
theorem MatchTableAbstract.exec_nodes {op : AbstractOp} {r : TableResult}
    (hexec : t.exec op = some (r, t')) : SameNodes t t' := by
  cases op with
  | setDirectMeters meterArray =>
    obtain ⟨t₀, hset, heq⟩ := Option.map_eq_some_iff.mp hexec
    cases heq
    obtain ⟨mu, -, hset⟩ := Option.bind_eq_some_iff.mp hset
    cases hset
    exact ⟨rfl, rfl, rfl, rfl, rfl⟩
  | resetCounters =>
    cases hexec
    show SameNodes t t.resetCounters.2
    rw [resetCounters]
    split <;> exact ⟨rfl, rfl, rfl, rfl, rfl⟩
  | writeCounters handle bytes packets =>
    obtain ⟨⟨r₀, t₀⟩, hwrite, heq⟩ := Option.map_eq_some_iff.mp hexec
    cases heq
    rw [writeCounters] at hwrite
    split at hwrite
    · cases hwrite
      exact ⟨rfl, rfl, rfl, rfl, rfl⟩
    · split at hwrite
      · cases hwrite
        exact ⟨rfl, rfl, rfl, rfl, rfl⟩
      · obtain ⟨m, -, hwrite⟩ := Option.bind_eq_some_iff.mp hwrite
        cases hwrite
        exact ⟨rfl, rfl, rfl, rfl, rfl⟩
  | setMeterRates handle configs =>
    obtain ⟨⟨r₀, t₀⟩, hset, heq⟩ := Option.map_eq_some_iff.mp hexec
    cases heq
    rw [setMeterRates] at hset
    split at hset
    · cases hset
      exact ⟨rfl, rfl, rfl, rfl, rfl⟩
    · split at hset
      · cases hset
        exact ⟨rfl, rfl, rfl, rfl, rfl⟩
      · obtain ⟨m, -, hset⟩ := Option.bind_eq_some_iff.mp hset
        cases hset
        exact ⟨rfl, rfl, rfl, rfl, rfl⟩
  | setEntryTtl handle ttlMs now =>
    obtain ⟨⟨r₀, t₀⟩, hset, heq⟩ := Option.map_eq_some_iff.mp hexec
    cases heq
    rw [setEntryTtl] at hset
    split at hset
    · cases hset
      exact ⟨rfl, rfl, rfl, rfl, rfl⟩
    · obtain ⟨⟨r, mu⟩, -, hset⟩ := Option.bind_eq_some_iff.mp hset
      cases hset
      exact ⟨rfl, rfl, rfl, rfl, rfl⟩

theorem finishApply_same {pkt : PacketIn} {actionEntry : ActionEntry} {handle : Option ℕ} {r : Applied}
    (h : t.finishApply pkt actionEntry handle = some (r, t')) :
    SameNodes t t' ∧ MatchUnit.SameEntries t.matchUnit t'.matchUnit := by
  cases handle with
  | none =>
    cases h
    exact ⟨⟨rfl, rfl, rfl, rfl, rfl⟩, .rfl'⟩
  | some handle =>
    rw [MatchTableAbstract.finishApply] at h
    split at h
    · obtain ⟨⟨color, t₁⟩, hmeter, h⟩ := Option.bind_eq_some_iff.mp h
      cases h
      obtain ⟨meter, -, hmeter⟩ := Option.bind_eq_some_iff.mp hmeter
      obtain ⟨⟨color, meter⟩, -, hmeter⟩ := Option.bind_eq_some_iff.mp hmeter
      cases hmeter
      exact ⟨⟨rfl, rfl, rfl, rfl, rfl⟩, .of_meta rfl _⟩
    · cases h
      exact ⟨⟨rfl, rfl, rfl, rfl, rfl⟩, .rfl'⟩

/-- After a hit the next node is the one of the action entry. -/
theorem selects_of_hit {pkt : PacketIn} {actionEntry : ActionEntry} {handle : ℕ} {r : Applied}
    (hok : cfg.EntryOk actionEntry) (h : t.finishApply pkt actionEntry (some handle) = some (r, t')) :
    cfg.Selects r := by
  rw [MatchTableAbstract.finishApply] at h
  split at h
  · obtain ⟨⟨color, t₁⟩, -, h⟩ := Option.bind_eq_some_iff.mp h
    cases h
    exact hok
  · cases h
    exact hok

/-- After a miss it is the one of the table. -/
theorem selects_iff_of_miss {pkt : PacketIn} {actionEntry : ActionEntry} {r : Applied}
    (h : t.finishApply pkt actionEntry none = some (r, t')) :
    cfg.Selects r ↔ cfg.missNode actionEntry.actionFn.actionFn = some t.nextNodeMiss := by
  cases h
  exact Iff.rfl

end Nodes

/-! ## Tables of actions -/

section Actions

variable {K S : Type} [MatchKey K] [LookupStructure K S] [LawfulLookup K S]
  [LookupBound K S] {cfg : NextTables} {fs : List KeyField} {t t' : MatchTable K S}

/-- The invariant of a table of actions. -/
structure MatchTable.NextInv (cfg : NextTables) (fs : List KeyField) (t : MatchTable K S) : Prop where
  nodes : cfg.Holds t.toMatchTableAbstract
  filled : ∃ b, t.matchUnit.Filled cfg.EntryOk fs b
  miss : cfg.missNode t.defaultEntry.actionFn.actionFn = some t.nextNodeMiss

theorem MatchTable.NextInv.of_unit (h : t.NextInv cfg fs) {matchUnit : MatchUnit K ActionEntry S}
    (hfilled : ∃ b, matchUnit.Filled cfg.EntryOk fs b) : (t.withUnit matchUnit).NextInv cfg fs :=
  ⟨h.nodes.of_same (.of_unit _ _), hfilled, h.miss⟩

theorem MatchTable.NextInv.entryOk (h : t.NextInv cfg fs) {actionFn : ℕ} {actionData : List ℕ}
    {nextNode : Option ℕ} (hnode : t.getNextNode actionFn = some nextNode) :
    cfg.EntryOk ⟨⟨some actionFn, actionData⟩, nextNode⟩ :=
  ⟨actionFn, rfl, (h.nodes.getNextNode_eq actionFn).symm.trans hnode⟩

omit [MatchKey K] [LookupStructure K S] [LawfulLookup K S] [LookupBound K S] in
/-- `set_default_action` refreshes the next node of a miss. -/
theorem missNode_setDefaultAction {actionFn : ℕ} {actionData : List ℕ}
    {res : Except MatchErrorCode Unit} (hnodes : cfg.Holds t.toMatchTableAbstract)
    (hmiss : cfg.missNode t.defaultEntry.actionFn.actionFn = some t.nextNodeMiss)
    (hset : t.setDefaultAction actionFn actionData = some (res, t')) :
    cfg.Holds t'.toMatchTableAbstract ∧ t'.matchUnit = t.matchUnit ∧
      cfg.missNode t'.defaultEntry.actionFn.actionFn = some t'.nextNodeMiss := by
  rw [MatchTable.setDefaultAction] at hset
  split at hset
  · cases hset
    exact ⟨hnodes, rfl, hmiss⟩
  split at hset
  · cases hset
    exact ⟨hnodes, rfl, hmiss⟩
  obtain ⟨nextNode, hnode, hset⟩ := Option.bind_eq_some_iff.mp hset
  cases hset
  refine ⟨⟨hnodes.nextNodes, hnodes.hasNextNodeHit, hnodes.nextNodeHit, hnodes.hasNextNodeMiss⟩, rfl, ?_⟩
  rw [MatchTableAbstract.getNextNodeDefault, hnodes.hasNextNodeMiss] at hnode
  cases hcfg : cfg.miss with
  | none =>
    rw [hcfg, Option.isSome_none, if_neg Bool.false_ne_true] at hnode
    exact (NextTables.missNode_of_none hcfg _).trans
      ((congrFun hnodes.nextNodes actionFn).symm.trans hnode)
  | some node =>
    rw [hcfg, Option.isSome_some, if_pos rfl] at hnode
    rw [NextTables.missNode_of_some hcfg] at hmiss
    exact (NextTables.missNode_of_some hcfg _).trans (hmiss.trans hnode)

variable [Inhabited K]

/-- **Step lemma** of a table of actions. -/
theorem MatchTable.NextInv.exec (h : t.NextInv cfg fs) {op : MatchTableOp} {r : TableResult}
    (hexec : t.exec op = some (r, t')) : t'.NextInv cfg fs := by
  obtain ⟨b, hfilled⟩ := h.filled
  -- an operation on the match unit that writes a value that is right, or none
  have hunit (op : UnitOp ActionEntry) {r : UnitResult ActionEntry} {mu : MatchUnit K ActionEntry S}
      (hmu : t.matchUnit.exec op = some (r, mu)) (hwrites : op.Writes cfg.EntryOk) :
      (t.withUnit mu).NextInv cfg fs := h.of_unit (hfilled.exec hmu hwrites)
  cases op with
  | abstract op =>
    obtain ⟨⟨r₀, base⟩, hbase, heq⟩ := Option.map_eq_some_iff.mp hexec
    cases heq
    have hnodes := MatchTableAbstract.exec_nodes hbase
    have hquiet : (UnitOp.resetCounters (V := ActionEntry)).Quiet (.done (.ok ())) := trivial
    obtain ⟨hshape, hslots, heffect⟩ :=
      (MatchTableAbstract.exec_same hbase).effect hfilled.toSlots hquiet
    refine ⟨h.nodes.of_same hnodes, hfilled.of_effect hshape hslots heffect trivial, ?_⟩
    exact h.miss.trans (congrArg some hnodes.nextNodeMiss.symm)
  | lookup phv ingressLength ingressTsMs =>
    obtain ⟨⟨⟨actionEntry, handle⟩, t₀⟩, hlookup, heq⟩ := Option.map_eq_some_iff.mp hexec
    cases heq
    obtain ⟨⟨res, mu⟩, hmu, hlookup⟩ := Option.bind_eq_some_iff.mp hlookup
    have hfound : t.matchUnit.exec (.lookup phv ingressLength ingressTsMs) = some (.found res, mu) := by
      rw [MatchUnit.exec, hmu, Option.map_some]
    cases res <;> cases hlookup <;> exact hunit _ hfound trivial
  | addEntry matchKey actionFn actionData priority now =>
    obtain ⟨⟨res, t₀⟩, hadd, heq⟩ := Option.map_eq_some_iff.mp hexec
    cases heq
    obtain ⟨nextNode, hnode, hadd⟩ := Option.bind_eq_some_iff.mp hadd
    obtain ⟨⟨res, mu⟩, hmu, hadd⟩ := Option.bind_eq_some_iff.mp hadd
    cases hadd
    exact hunit (.addEntry matchKey _ priority now) (r := .handle res)
      (by rw [MatchUnit.exec, hmu, Option.map_some]) (h.entryOk hnode)
  | deleteEntry handle =>
    obtain ⟨⟨res, t₀⟩, hdelete, heq⟩ := Option.map_eq_some_iff.mp hexec
    cases heq
    obtain ⟨⟨res, mu⟩, hmu, hdelete⟩ := Option.bind_eq_some_iff.mp hdelete
    cases hdelete
    exact hunit (.deleteEntry handle) (r := .done res)
      (by rw [MatchUnit.exec, hmu, Option.map_some]) trivial
  | modifyEntry handle actionFn actionData =>
    obtain ⟨⟨res, t₀⟩, hmodify, heq⟩ := Option.map_eq_some_iff.mp hexec
    cases heq
    obtain ⟨nextNode, hnode, hmodify⟩ := Option.bind_eq_some_iff.mp hmodify
    obtain ⟨⟨res, mu⟩, hmu, hmodify⟩ := Option.bind_eq_some_iff.mp hmodify
    cases hmodify
    exact hunit (.modifyEntry handle _) (r := .done res)
      (by rw [MatchUnit.exec, hmu, Option.map_some]) (h.entryOk hnode)
  | setDefaultAction actionFn actionData =>
    obtain ⟨⟨res, t₀⟩, hset, heq⟩ := Option.map_eq_some_iff.mp hexec
    cases heq
    obtain ⟨hnodes, hunit', hmiss⟩ := missNode_setDefaultAction h.nodes h.miss hset
    exact ⟨hnodes, hunit'.symm ▸ h.filled, hmiss⟩
  | resetState =>
    obtain ⟨t₀, hreset, heq⟩ := Option.map_eq_some_iff.mp hexec
    cases heq
    obtain ⟨mu, hmu, hreset⟩ := Option.bind_eq_some_iff.mp hreset
    cases hreset
    exact hunit .resetState (r := .done (.ok ()))
      (by rw [MatchUnit.exec, hmu, Option.map_some]) trivial

/-- What a packet leaves has the invariant, and the next node is the right one. -/
theorem MatchTable.NextInv.applyAction (h : t.NextInv cfg fs) {pkt : PacketIn} {r : Applied}
    (happly : t.applyAction pkt = some (r, t')) : t'.NextInv cfg fs ∧ cfg.Selects r := by
  obtain ⟨⟨⟨actionEntry, handle⟩, t₁⟩, hlookup, happly⟩ := Option.bind_eq_some_iff.mp happly
  obtain ⟨⟨r, base⟩, hfinish, happly⟩ := Option.bind_eq_some_iff.mp happly
  cases happly
  have hexec : t.exec (.lookup pkt.phv pkt.ingressLength pkt.ingressTsMs) =
      some (.found actionEntry handle, t₁) := by
    rw [MatchTable.exec, hlookup, Option.map_some]
  have hinv : t₁.NextInv cfg fs := h.exec hexec
  constructor
  · obtain ⟨hnodes, hentries⟩ := finishApply_same hfinish
    obtain ⟨b, hfilled⟩ := hinv.filled
    have hquiet : (UnitOp.resetCounters (V := ActionEntry)).Quiet (.done (.ok ())) := trivial
    obtain ⟨hshape, hslots, heffect⟩ := hentries.effect hfilled.toSlots hquiet
    refine ⟨hinv.nodes.of_same hnodes, hfilled.of_effect hshape hslots heffect trivial, ?_⟩
    exact hinv.miss.trans (congrArg some hnodes.nextNodeMiss.symm)
  · obtain ⟨⟨res, mu⟩, hmu, hlookup⟩ := Option.bind_eq_some_iff.mp hlookup
    obtain ⟨b, hfilled⟩ := h.filled
    cases res with
    | none =>
      cases hlookup
      exact (selects_iff_of_miss hfinish).mpr h.miss
    | some res =>
      cases hlookup
      exact selects_of_hit (hfilled.lookup hmu) hfinish

theorem MatchTable.NextInv.call (h : t.NextInv cfg fs) {op : MatchTableOp ⊕ PacketIn}
    (hcall : t.call op = some t') : t'.NextInv cfg fs := by
  cases op with
  | inl op =>
    obtain ⟨⟨r, t₁⟩, hexec, rfl⟩ := Option.map_eq_some_iff.mp hcall
    exact h.exec hexec
  | inr pkt =>
    obtain ⟨⟨r, t₁⟩, happly, rfl⟩ := Option.map_eq_some_iff.mp hcall
    exact (h.applyAction happly).1

/-- A new table, with the next nodes and the default entry of its configuration. -/
theorem MatchTable.nextInv_configure {size : ℕ} {kb : MatchKeyBuilder} {withCounters withAgeing : Bool}
    {defaultEntry : Option DefaultEntryConfig} (hfs : MatchKeyBuilder.ofFields fs = some kb)
    (hcreate : MatchTable.create size kb withCounters withAgeing = some t)
    (hconfigure : t.configure cfg defaultEntry = some t') : t'.NextInv cfg fs := by
  obtain ⟨mu, hmu, hcreate⟩ := Option.bind_eq_some_iff.mp hcreate
  cases hcreate
  obtain ⟨hnodes, hmiss, hunit⟩ := holds_setNextTables cfg mu withCounters withAgeing
  have hfilled : mu.Filled cfg.EntryOk fs 0 := MatchUnit.filled_create hfs hmu
  cases defaultEntry with
  | none =>
    cases hconfigure
    exact ⟨hnodes, ⟨0, hunit.symm ▸ hfilled⟩, hmiss⟩
  | some d =>
    obtain ⟨t₁, hconst, hconfigure⟩ := Option.bind_eq_some_iff.mp hconfigure
    -- whether the action is constant does not matter
    have hnew : cfg.Holds t₁.toMatchTableAbstract ∧ t₁.matchUnit = mu ∧
        cfg.missNode t₁.defaultEntry.actionFn.actionFn = some t₁.nextNodeMiss := by
      split at hconst
      · rw [setConstDefaultActionFn] at hconst
        split at hconst
        · cases hconst
        · cases hconst
          exact ⟨hnodes, hunit, hmiss⟩
      · cases hconst
        exact ⟨hnodes, hunit, hmiss⟩
    obtain ⟨hnodes, hunit, hmiss⟩ := hnew
    split at hconfigure
    · cases hconfigure
      exact ⟨hnodes, ⟨0, hunit.symm ▸ hfilled⟩, hmiss⟩
    · rw [setDefaultEntry] at hconfigure
      split at hconfigure
      · cases hconfigure
      · split at hconfigure
        next t₂ hset =>
          cases hconfigure
          obtain ⟨hnodes, hunit', hmiss⟩ := missNode_setDefaultAction hnodes hmiss hset
          exact ⟨⟨hnodes.nextNodes, hnodes.hasNextNodeHit, hnodes.nextNodeHit, hnodes.hasNextNodeMiss⟩,
            ⟨0, (hunit'.trans hunit).symm ▸ hfilled⟩, hmiss⟩
        next => cases hconfigure

end Actions

/-! ## Tables of members -/

section Members

variable {K S : Type} [MatchKey K] [LookupStructure K S] {cfg : NextTables}

/-- The invariant of a table of members: the node of a miss is the one for when there is no action. -/
structure MatchTableIndirect.NextInv (cfg : NextTables) (t : MatchTableIndirect K S) : Prop where
  nodes : cfg.Holds t.toMatchTableAbstract
  entries : ∀ e ∈ t.actionEntries, cfg.EntryOk e
  miss : cfg.missNode none = some t.nextNodeMiss
  emptyAction : t.emptyAction.actionFn.actionFn = none

namespace MatchTableIndirect

variable {t t' : MatchTableIndirect K S}

omit [MatchKey K] [LookupStructure K S] in
theorem NextInv.entryOk (h : t.NextInv cfg) {actionFn : ℕ} {actionData : List ℕ} {nextNode : Option ℕ}
    (hnode : t.getNextNode actionFn = some nextNode) :
    cfg.EntryOk ⟨⟨some actionFn, actionData⟩, nextNode⟩ :=
  ⟨actionFn, rfl, (h.nodes.getNextNode_eq actionFn).symm.trans hnode⟩

omit [MatchKey K] [LookupStructure K S] in
theorem NextInv.addMember (h : t.NextInv cfg) {actionFn : ℕ} {actionData : List ℕ}
    {res : Except MatchErrorCode ℕ} (hadd : t.addMember actionFn actionData = some (res, t')) :
    t'.NextInv cfg := by
  obtain ⟨nextNode, hnode, hadd⟩ := Option.bind_eq_some_iff.mp hadd
  split at hadd
  · cases hadd
    exact h
  · obtain ⟨t₁, hinsert, hadd⟩ := Option.bind_eq_some_iff.mp hadd
    obtain ⟨actionEntries, hput, hinsert⟩ := Option.bind_eq_some_iff.mp hinsert
    obtain ⟨index, -, hinsert⟩ := Option.bind_eq_some_iff.mp hinsert
    obtain ⟨rc, -, hinsert⟩ := Option.bind_eq_some_iff.mp hinsert
    cases hinsert
    cases hadd
    refine ⟨⟨h.nodes.nextNodes, h.nodes.hasNextNodeHit, h.nodes.nextNodeHit, h.nodes.hasNextNodeMiss⟩,
      fun e he => ?_, h.miss, h.emptyAction⟩
    obtain ⟨-, hput⟩ := putAt_eq_some.mp hput
    replace he : e ∈ actionEntries := he
    rw [hput] at he
    split at he
    · rw [List.mem_append, List.mem_singleton] at he
      rcases he with he | rfl
      · exact h.entries e he
      · exact h.entryOk hnode
    · rcases List.mem_or_eq_of_mem_set he with he | rfl
      · exact h.entries e he
      · exact h.entryOk hnode

omit [MatchKey K] [LookupStructure K S] in
theorem NextInv.modifyMember (h : t.NextInv cfg) {mbr actionFn : ℕ} {actionData : List ℕ}
    {res : Except MatchErrorCode Unit} (hmodify : t.modifyMember mbr actionFn actionData = some (res, t')) :
    t'.NextInv cfg := by
  obtain ⟨nextNode, hnode, hmodify⟩ := Option.bind_eq_some_iff.mp hmodify
  split at hmodify
  · cases hmodify
    exact h
  split at hmodify
  · cases hmodify
    refine ⟨⟨h.nodes.nextNodes, h.nodes.hasNextNodeHit, h.nodes.nextNodeHit, h.nodes.hasNextNodeMiss⟩,
      fun e he => ?_, h.miss, h.emptyAction⟩
    rcases List.mem_or_eq_of_mem_set he with he | rfl
    · exact h.entries e he
    · exact h.entryOk hnode
  · cases hmodify

/-- The action entries and the next nodes of two tables are the same. -/
structure SameActions (t t' : MatchTableIndirect K S) : Prop
    extends SameNodes t.toMatchTableAbstract t'.toMatchTableAbstract where
  actionEntries : t'.actionEntries = t.actionEntries
  emptyAction : t'.emptyAction = t.emptyAction

omit [MatchKey K] [LookupStructure K S] in
theorem NextInv.of_same (h : t.NextInv cfg) (hsame : SameActions t t') : t'.NextInv cfg :=
  ⟨h.nodes.of_same hsame.toSameNodes, hsame.actionEntries.symm ▸ h.entries,
    h.miss.trans (congrArg some hsame.nextNodeMiss.symm), hsame.emptyAction.symm ▸ h.emptyAction⟩

/-- **Step lemma** of the operations on members and entries. -/
theorem NextInv.execMember (h : t.NextInv cfg) {op : MemberOp} {r : TableResult}
    (hexec : t.execMember op = some (r, t')) : t'.NextInv cfg := by
  cases op with
  | addMember actionFn actionData =>
    obtain ⟨⟨res, t₁⟩, hadd, heq⟩ := Option.map_eq_some_iff.mp hexec
    cases heq
    exact h.addMember hadd
  | modifyMember mbr actionFn actionData =>
    obtain ⟨⟨res, t₁⟩, hmodify, heq⟩ := Option.map_eq_some_iff.mp hexec
    cases heq
    exact h.modifyMember hmodify
  | abstract op =>
    obtain ⟨⟨r₀, base⟩, hbase, heq⟩ := Option.map_eq_some_iff.mp hexec
    cases heq
    exact h.of_same ⟨MatchTableAbstract.exec_nodes hbase, rfl, rfl⟩
  | _ =>
    -- the other operations write no action entry
    rcases execMember_effect hexec with _ | _ | _ | _ | _ | _ | _ | _ | _ | _ <;> subst_vars <;>
      exact h.of_same ⟨⟨rfl, rfl, rfl, rfl, rfl⟩, rfl, rfl⟩

omit [MatchKey K] in
theorem NextInv.resetState [Inhabited K] (h : t.NextInv cfg) (hreset : t.resetState = some t') :
    t'.NextInv cfg := by
  obtain ⟨mu, -, hreset⟩ := Option.bind_eq_some_iff.mp hreset
  cases hreset
  exact ⟨h.nodes.of_same ⟨rfl, rfl, rfl, rfl, rfl⟩, fun e he => absurd he List.not_mem_nil, h.miss,
    h.emptyAction⟩

/-! ### Packets -/

/-- The action entry that is executed after a lookup in the match unit: the one of a member, that of the
entry or the default member, or the empty one. -/
def Executes (t : MatchTableIndirect K S) (mbrOf : IndirectIndex → Option ℕ)
    (res : Option (MatchUnitLookup IndirectIndex)) (actionEntry : ActionEntry) : Prop :=
  match res with
  | some res => ∃ mbr, mbrOf res.value = some mbr ∧ t.actionEntries[mbr]? = some actionEntry
  | none =>
    if t.defaultSet then ∃ mbr, mbrOf t.defaultIndex = some mbr ∧ t.actionEntries[mbr]? = some actionEntry
    else actionEntry = t.emptyAction

omit [MatchKey K] [LookupStructure K S] in
theorem executes_emptyAction {mbrOf : IndirectIndex → Option ℕ}
    {res : Option (MatchUnitLookup IndirectIndex)} (hempty : res.isNone ∧ !t.defaultSet) :
    t.Executes mbrOf res t.emptyAction := by
  obtain ⟨hnone, hdefault⟩ := hempty
  obtain rfl := Option.isNone_iff_eq_none.mp hnone
  rw [Executes, if_neg (by simpa using hdefault)]

omit [MatchKey K] [LookupStructure K S] in
theorem executes_of_mbr {mbrOf : IndirectIndex → Option ℕ} {res : Option (MatchUnitLookup IndirectIndex)}
    {mbr : ℕ} {actionEntry : ActionEntry} (hne : ¬ (res.isNone ∧ !t.defaultSet))
    (hmbr : mbrOf ((res.map MatchUnitLookup.value).getD t.defaultIndex) = some mbr)
    (hentry : t.actionEntries[mbr]? = some actionEntry) : t.Executes mbrOf res actionEntry := by
  cases res with
  | some res => exact ⟨mbr, hmbr, hentry⟩
  | none =>
    rw [Executes, if_pos (by simpa using hne)]
    exact ⟨mbr, hmbr, hentry⟩

/-- A packet that misses goes to the right node: the table has a miss node or no default member, or the
base default is the next node of the action of the member `mbr`. -/
def MissOk (cfg : NextTables) (t : MatchTableIndirect K S) (mbr : Option ℕ) : Prop :=
  cfg.miss.isSome ∨ t.defaultSet = false ∨ ∃ actionEntry actionId,
    mbr.bind (t.actionEntries[·]?) = some actionEntry ∧ actionEntry.actionFn.actionFn = some actionId ∧
      cfg.ofAction actionId = some cfg.base

omit [MatchKey K] [LookupStructure K S] in
theorem NextInv.selects_iff (h : t.NextInv cfg) {mbrOf : IndirectIndex → Option ℕ}
    {res : Option (MatchUnitLookup IndirectIndex)} {actionEntry : ActionEntry} {pkt : PacketIn} {r : Applied}
    {base base' : MatchTableAbstract K IndirectIndex S} (hexecutes : t.Executes mbrOf res actionEntry)
    (hmiss : base.nextNodeMiss = t.nextNodeMiss)
    (hfinish : base.finishApply pkt actionEntry (res.map MatchUnitLookup.handle) = some (r, base')) :
    cfg.Selects r ↔ res.isSome ∨ t.MissOk cfg (mbrOf t.defaultIndex) := by
  cases res with
  | some res =>
    obtain ⟨mbr, -, hentry⟩ := hexecutes
    have hok := h.entries _ (List.mem_of_getElem? hentry)
    exact iff_of_true (selects_of_hit hok hfinish) (.inl rfl)
  | none =>
    rw [selects_iff_of_miss hfinish, hmiss, ← h.miss]
    simp only [Option.isSome_none, Bool.false_eq_true, false_or]
    rw [MissOk]
    cases hcfg : cfg.miss with
    | some node =>
      rw [NextTables.missNode_of_some hcfg, NextTables.missNode_of_some hcfg]
      exact iff_of_true rfl (.inl rfl)
    | none =>
      rw [NextTables.missNode_of_none hcfg, NextTables.missNode_of_none hcfg]
      cases hdefault : t.defaultSet with
      | false =>
        rw [Executes, hdefault, if_neg Bool.false_ne_true] at hexecutes
        rw [hexecutes, h.emptyAction]
        exact iff_of_true rfl (.inr (.inl rfl))
      | true =>
        rw [Executes, hdefault, if_pos rfl] at hexecutes
        obtain ⟨mbr, hmbr, hentry⟩ := hexecutes
        obtain ⟨actionId, haction, -⟩ := h.entries _ (List.mem_of_getElem? hentry)
        rw [haction, hmbr, Option.bind_some]
        constructor
        · intro hnode
          exact .inr (.inr ⟨actionEntry, actionId, hentry, haction, hnode⟩)
        · rintro (hnone | hfalse | ⟨actionEntry', actionId', hentry', haction', hnode⟩)
          · cases hnone
          · cases hfalse
          · obtain rfl : actionEntry = actionEntry' := Option.some.inj (hentry.symm.trans hentry')
            obtain rfl : actionId = actionId' := Option.some.inj (haction.symm.trans haction')
            exact hnode

omit [MatchKey K] in
theorem lookup_executes {phv : PHV} {ingressLength ingressTsMs : ℕ} {actionEntry : ActionEntry}
    {handle : Option ℕ} (h : t.lookup phv ingressLength ingressTsMs = some ((actionEntry, handle), t')) :
    ∃ res mu, t.matchUnit.lookup phv ingressLength ingressTsMs = some (res, mu) ∧ t' = t.withUnit mu ∧
      handle = res.map MatchUnitLookup.handle ∧ t.Executes IndirectIndex.getMbr res actionEntry := by
  obtain ⟨⟨res, mu⟩, hmu, h⟩ := Option.bind_eq_some_iff.mp h
  dsimp only at h
  split at h
  next hempty =>
    cases h
    exact ⟨res, mu, hmu, rfl, by rw [Option.isNone_iff_eq_none.mp hempty.1]; rfl,
      (executes_emptyAction hempty :)⟩
  next hne =>
    obtain ⟨mbr, hmbr, h⟩ := Option.bind_eq_some_iff.mp h
    split at h
    · obtain ⟨entry, hentry, h⟩ := Option.bind_eq_some_iff.mp h
      cases h
      exact ⟨res, mu, hmu, rfl, rfl, executes_of_mbr hne hmbr hentry⟩
    · cases h

/-- The packet hits an entry. -/
def Hits (t : MatchTableIndirect K S) (pkt : PacketIn) : Prop :=
  ∃ res mu, t.matchUnit.lookup pkt.phv pkt.ingressLength pkt.ingressTsMs = some (some res, mu)

omit [MatchKey K] in
theorem hits_iff {pkt : PacketIn} {res : Option (MatchUnitLookup IndirectIndex)}
    {mu : MatchUnit K IndirectIndex S}
    (h : t.matchUnit.lookup pkt.phv pkt.ingressLength pkt.ingressTsMs = some (res, mu)) :
    t.Hits pkt ↔ res.isSome := by
  rw [Hits, h]
  cases res <;> simp

omit [MatchKey K] in
/-- What a packet leaves has the invariant, and the exact condition for the right node. -/
theorem NextInv.applyAction (h : t.NextInv cfg) {pkt : PacketIn} {r : Applied}
    (happly : t.applyAction pkt = some (r, t')) :
    t'.NextInv cfg ∧ (cfg.Selects r ↔ t.Hits pkt ∨ t.MissOk cfg t.defaultIndex.getMbr) := by
  obtain ⟨⟨⟨actionEntry, handle⟩, t₁⟩, hlookup, happly⟩ := Option.bind_eq_some_iff.mp happly
  obtain ⟨⟨r, base⟩, hfinish, happly⟩ := Option.bind_eq_some_iff.mp happly
  cases happly
  obtain ⟨res, mu, hmu, rfl, rfl, hexecutes⟩ := lookup_executes hlookup
  have hnodes := (finishApply_same hfinish).1
  have hmiss : (t.withUnit mu).nextNodeMiss = t.nextNodeMiss := rfl
  refine ⟨h.of_same ⟨⟨hnodes.nextNodes, hnodes.hasNextNodeHit, hnodes.nextNodeHit, hnodes.hasNextNodeMiss,
    hnodes.nextNodeMiss⟩, rfl, rfl⟩, ?_⟩
  rw [h.selects_iff hexecutes hmiss hfinish, hits_iff hmu]

theorem NextInv.call [Inhabited K] (h : t.NextInv cfg) {op : IndirectOp ⊕ PacketIn}
    (hcall : t.call op = some t') : t'.NextInv cfg := by
  cases op with
  | inr pkt =>
    obtain ⟨⟨r, t₁⟩, happly, rfl⟩ := Option.map_eq_some_iff.mp hcall
    exact (h.applyAction happly).1
  | inl op =>
    obtain ⟨⟨r, t₁⟩, hexec, rfl⟩ := Option.map_eq_some_iff.mp hcall
    cases op with
    | mbr op => exact h.execMember hexec
    | lookup phv ingressLength ingressTsMs =>
      obtain ⟨⟨res, t₁⟩, hlookup, heq⟩ := Option.map_eq_some_iff.mp hexec
      cases heq
      obtain ⟨mu, -, rfl⟩ := lookup_effect hlookup
      exact h.of_same ⟨⟨rfl, rfl, rfl, rfl, rfl⟩, rfl, rfl⟩
    | resetState =>
      obtain ⟨t₁, hreset, heq⟩ := Option.map_eq_some_iff.mp hexec
      cases heq
      exact h.resetState hreset

omit [MatchKey K] in
theorem nextInv_configure [Inhabited K] {size : ℕ} {kb : MatchKeyBuilder} {withCounters withAgeing : Bool}
    (hcreate : MatchTableIndirect.create size kb withCounters withAgeing = some t) :
    (t.configure cfg).NextInv cfg := by
  obtain ⟨mu, hmu, hcreate⟩ := Option.bind_eq_some_iff.mp hcreate
  cases hcreate
  obtain ⟨hnodes, hmiss, -⟩ := holds_setNextTables cfg mu withCounters withAgeing
  exact ⟨hnodes, fun e he => absurd he (List.not_mem_nil), hmiss, rfl⟩

end MatchTableIndirect

end Members

/-! ## Tables of groups -/

namespace MatchTableIndirectWS

variable {K S : Type} [MatchKey K] [LookupStructure K S] {cfg : NextTables}
  {t t' : MatchTableIndirectWS K S}

omit [MatchKey K] in
theorem lookup_executes {phv : PHV} {ingressLength ingressTsMs hash : ℕ} {actionEntry : ActionEntry}
    {handle : Option ℕ}
    (h : t.lookup phv ingressLength ingressTsMs hash = some ((actionEntry, handle), t')) :
    ∃ res mu, t.matchUnit.lookup phv ingressLength ingressTsMs = some (res, mu) ∧ t' = t.withUnit mu ∧
      handle = res.map MatchUnitLookup.handle ∧
      t.toMatchTableIndirect.Executes (t.followIndex · hash) res actionEntry := by
  obtain ⟨⟨res, mu⟩, hmu, h⟩ := Option.bind_eq_some_iff.mp h
  dsimp only at h
  split at h
  next hempty =>
    cases h
    exact ⟨res, mu, hmu, rfl, by rw [Option.isNone_iff_eq_none.mp hempty.1]; rfl,
      (MatchTableIndirect.executes_emptyAction (t := t.toMatchTableIndirect) hempty :)⟩
  next hne =>
    obtain ⟨mbr, hmbr, h⟩ := Option.bind_eq_some_iff.mp h
    split at h
    · obtain ⟨entry, hentry, h⟩ := Option.bind_eq_some_iff.mp h
      cases h
      exact ⟨res, mu, hmu, rfl, rfl, MatchTableIndirect.executes_of_mbr hne hmbr hentry⟩
    · cases h

omit [MatchKey K] in
/-- The same for a table of groups, where the default group and the hash choose the member. -/
theorem applyAction_spec (h : t.toMatchTableIndirect.NextInv cfg) {pkt : PacketIn} {r : Applied}
    (happly : t.applyAction pkt = some (r, t')) :
    t'.toMatchTableIndirect.NextInv cfg ∧ (cfg.Selects r ↔ t.Hits pkt ∨
      t.MissOk cfg (t.followIndex t.defaultIndex pkt.hash)) := by
  obtain ⟨⟨⟨actionEntry, handle⟩, t₁⟩, hlookup, happly⟩ := Option.bind_eq_some_iff.mp happly
  obtain ⟨⟨r, base⟩, hfinish, happly⟩ := Option.bind_eq_some_iff.mp happly
  cases happly
  obtain ⟨res, mu, hmu, rfl, rfl, hexecutes⟩ := lookup_executes hlookup
  have hnodes := (finishApply_same hfinish).1
  have hmiss : (t.withUnit mu).nextNodeMiss = t.nextNodeMiss := rfl
  refine ⟨h.of_same ⟨⟨hnodes.nextNodes, hnodes.hasNextNodeHit, hnodes.nextNodeHit, hnodes.hasNextNodeMiss,
    hnodes.nextNodeMiss⟩, rfl, rfl⟩, ?_⟩
  rw [h.selects_iff hexecutes hmiss hfinish, MatchTableIndirect.hits_iff hmu]

theorem nextInv_call [Inhabited K] (h : t.toMatchTableIndirect.NextInv cfg) {op : IndirectWSOp ⊕ PacketIn}
    (hcall : t.call op = some t') : t'.toMatchTableIndirect.NextInv cfg := by
  cases op with
  | inr pkt =>
    obtain ⟨⟨r, t₁⟩, happly, rfl⟩ := Option.map_eq_some_iff.mp hcall
    exact (applyAction_spec h happly).1
  | inl op =>
    obtain ⟨⟨r, t₁⟩, hexec, rfl⟩ := Option.map_eq_some_iff.mp hcall
    cases op with
    | mbr op =>
      obtain ⟨⟨r₀, base⟩, hbase, heq⟩ := Option.map_eq_some_iff.mp hexec
      cases heq
      exact h.execMember hbase
    | resetState =>
      obtain ⟨t₁, hreset, heq⟩ := Option.map_eq_some_iff.mp hexec
      cases heq
      obtain ⟨base, hbase, hreset⟩ := Option.bind_eq_some_iff.mp hreset
      cases hreset
      exact h.resetState hbase
    | _ =>
      -- no operation on groups writes an action entry
      rcases exec_effect hexec with _ | _ | _ | _ | _ | _ | _ | _ | _ | _ | _ | _ <;> subst_vars <;>
        exact h.of_same ⟨⟨rfl, rfl, rfl, rfl, rfl⟩, rfl, rfl⟩

omit [MatchKey K] in
theorem nextInv_configure [Inhabited K] {size : ℕ} {kb : MatchKeyBuilder} {withCounters withAgeing : Bool}
    (hcreate : MatchTableIndirectWS.create size kb withCounters withAgeing = some t) :
    (t.configure cfg).toMatchTableIndirect.NextInv cfg := by
  obtain ⟨mu, hmu, hcreate⟩ := Option.bind_eq_some_iff.mp hcreate
  cases hcreate
  obtain ⟨hnodes, hmiss, -⟩ := holds_setNextTables cfg mu withCounters withAgeing
  exact ⟨hnodes, fun e he => absurd he (List.not_mem_nil), hmiss, rfl⟩

end MatchTableIndirectWS

/-! ## The next node, exactly -/

section Selected

variable {K S : Type} [Inhabited K] [MatchKey K] [LookupStructure K S] [LawfulLookup K S] [LookupBound K S]

/-- **The next node of every packet after every run**: the right one in a table of actions, and in the other
tables exactly when the packet hits, or its miss goes to the right node. -/
theorem next_node_selected (cfg : NextTables) {fs : List KeyField} {kb : MatchKeyBuilder}
    (hfs : MatchKeyBuilder.ofFields fs = some kb) (size : ℕ) (withCounters withAgeing : Bool)
    (pkt : PacketIn) (r : Applied) :
    (∀ (t₀ t₁ t t' : MatchTable K S) defaultEntry ops,
      MatchTable.create size kb withCounters withAgeing = some t₀ →
      t₀.configure cfg defaultEntry = some t₁ → runFrom MatchTable.call t₁ ops = some t →
      t.applyAction pkt = some (r, t') → cfg.Selects r) ∧
    (∀ (t₀ t t' : MatchTableIndirect K S) ops,
      MatchTableIndirect.create size kb withCounters withAgeing = some t₀ →
      runFrom MatchTableIndirect.call (t₀.configure cfg) ops = some t →
      t.applyAction pkt = some (r, t') →
      (cfg.Selects r ↔ t.Hits pkt ∨ t.MissOk cfg t.defaultIndex.getMbr)) ∧
    (∀ (t₀ t t' : MatchTableIndirectWS K S) ops,
      MatchTableIndirectWS.create size kb withCounters withAgeing = some t₀ →
      runFrom MatchTableIndirectWS.call (t₀.configure cfg) ops = some t →
      t.applyAction pkt = some (r, t') →
      (cfg.Selects r ↔ t.Hits pkt ∨ t.MissOk cfg (t.followIndex t.defaultIndex pkt.hash))) := by
  refine ⟨?_, ?_, ?_⟩
  · intro t₀ t₁ t t' defaultEntry ops hcreate hconfigure hrun happly
    have hstart : t₁.NextInv cfg fs := MatchTable.nextInv_configure hfs hcreate hconfigure
    have hend : t.NextInv cfg fs := runFrom_invariant (fun _ _ _ h hcall => h.call hcall) hstart hrun
    exact (hend.applyAction happly).2
  · intro t₀ t t' ops hcreate hrun happly
    have hstart : (t₀.configure cfg).NextInv cfg := MatchTableIndirect.nextInv_configure hcreate
    have hend : t.NextInv cfg := runFrom_invariant (fun _ _ _ h hcall => h.call hcall) hstart hrun
    exact (hend.applyAction happly).2
  · intro t₀ t t' ops hcreate hrun happly
    have hstart : (t₀.configure cfg).toMatchTableIndirect.NextInv cfg :=
      MatchTableIndirectWS.nextInv_configure hcreate
    have hend : t.toMatchTableIndirect.NextInv cfg :=
      runFrom_invariant (I := fun t : MatchTableIndirectWS K S => t.toMatchTableIndirect.NextInv cfg)
        (fun _ _ _ h hcall => MatchTableIndirectWS.nextInv_call h hcall) hstart hrun
    exact (MatchTableIndirectWS.applyAction_spec hend happly).2

end Selected

/-- Two actions with a node each, and a base default. -/
def twoNodes : NextTables where
  actions := [(1, some 7), (2, some 8)]
  baseDefault := some (some 9)

/-- A packet without headers, for a table without key fields. -/
def noHeaders : PacketIn where
  phv := ⟨[]⟩
  ingressLength := 64
  ingressTsMs := 0
  microsSinceInit := 0

theorem next_node_selected_member : ∃ (t₀ t t' : MatchTableIndirect ExactMatchKey ExactMap) (r : Applied),
    MatchTableIndirect.create 2 {} false false = some t₀ ∧
      runFrom MatchTableIndirect.call (t₀.configure twoNodes) [.inl (.mbr (.addMember 1 [])),
        .inl (.mbr (.addEntry [] 0 0 0))] = some t ∧
      t.applyAction noHeaders = some (r, t') ∧ r.nextNode = some 7 ∧
      (twoNodes.Selects r ↔ t.Hits noHeaders ∨ t.MissOk twoNodes t.defaultIndex.getMbr) := by
  have hfs : MatchKeyBuilder.ofFields [] = some {} := rfl
  refine ⟨_, _, _, _, rfl, rfl, rfl, rfl, ?_⟩
  exact (next_node_selected twoNodes hfs 2 false false noHeaders _).2.1 _ _ _
    [.inl (.mbr (.addMember 1 [])), .inl (.mbr (.addEntry [] 0 0 0))] rfl rfl rfl

/-- A packet that misses executes the action of the default member, and goes to the base default. -/
theorem default_member_node_missed :
    ∃ (t₀ t t' : MatchTableIndirect ExactMatchKey ExactMap) (r : Applied),
      MatchTableIndirect.create 2 {} false false = some t₀ ∧
      runFrom MatchTableIndirect.call (t₀.configure twoNodes) [.inl (.mbr (.addMember 1 [])),
        .inl (.mbr (.setDefaultMember 0))] = some t ∧
      t.applyAction noHeaders = some (r, t') ∧ r.actionFn.actionFn = some 1 ∧ r.nextNode = some 9 ∧
      ¬ twoNodes.Selects r := by
  refine ⟨_, _, _, ⟨⟨some 1, []⟩, none, none, some 9⟩, rfl, rfl, rfl, rfl, rfl, ?_⟩
  intro h
  replace h : twoNodes.missNode (some 1) = some (some 9) := h
  exact absurd h (by decide)

end Bm
