/-
# Replication to LAGs

`McSimplePreLAG::replicate` looks a LAG up and divides by its member count without a
check.  It is right as long as a LAG that an associated node names has a member at every
moment.  `mc_set_lag_membership` also accepts the index 256, which no LAG map can name.
-/
import Bmv2.NodeReplication

namespace Bm

open McSimplePre (TreeOp)

namespace Trees

variable {t : Trees} {lag lag' : ℕ} {ports : PortMap}

theorem lagPorts_setLag_self : (t.setLag lag ports).lagPorts lag = ports :=
  Function.update_self _ _ _

theorem lagPorts_setLag_of_ne (h : lag' ≠ lag) :
    (t.setLag lag ports).lagPorts lag' = t.lagPorts lag' := Function.update_of_ne h _ _

theorem lagReady_setLag_self : (t.setLag lag ports).LagReady lag ↔ ∃ port, ports port = true := by
  rw [LagReady, lagPorts_setLag_self]

theorem lagReady_setLag_of_ne (h : lag' ≠ lag) :
    (t.setLag lag ports).LagReady lag' ↔ t.LagReady lag' := by
  rw [LagReady, LagReady, lagPorts_setLag_of_ne h]

end Trees

namespace McSimplePreLAG

variable {pre pre' : McSimplePreLAG} {t : Trees}

/-! ## The member of a LAG -/

theorem findMember_eq_some {map : PortMap} {c : ℕ} {ports : List (Fin portMapSize)} :
    ∀ {k : ℕ}, k < c → c ≤ k + (ports.filter map).length →
      ∃ port, findMember c map k ports = some port ∧ map port = true := by
  induction ports with
  | nil =>
    intro k hk hc
    simp only [List.filter_nil, List.length_nil] at hc
    omega
  | cons port ports ih =>
    intro k hk hc
    rw [findMember]
    by_cases hport : map port = true
    · rw [List.filter_cons_of_pos hport, List.length_cons] at hc
      simp only [hport, if_true]
      split
      · exact ⟨port, rfl, hport⟩
      · exact ih (by omega) (by omega)
    · rw [List.filter_cons_of_neg hport] at hc
      simp only [hport, Bool.false_eq_true, if_false]
      rw [if_neg (by omega)]
      exact ih hk hc

theorem length_setBits_le {n : ℕ} (map : Fin n → Bool) : (setBits map).length ≤ n := by
  calc (setBits map).length ≤ (List.finRange n).length := List.length_filter_le _ _
    _ = n := List.length_finRange

theorem setBits_ne_nil {n : ℕ} {map : Fin n → Bool} : setBits map ≠ [] ↔ ∃ i, map i = true := by
  rw [setBits, ne_eq, List.filter_eq_nil_iff]
  simp

theorem mem_setBits {n : ℕ} {map : Fin n → Bool} {i : Fin n} : i ∈ setBits map ↔ map i = true := by
  simp [setBits]

/-- The member count of a port map fits in 16 bits. -/
theorem memberCount_eq (ports : PortMap) :
    (setBits ports).length % 2 ^ 16 = (setBits ports).length :=
  Nat.mod_eq_of_lt (lt_of_le_of_lt (length_setBits_le ports) (by decide))

/-- The loop finds a member of every LAG that has one. -/
theorem exists_member {ports : PortMap} (h : ∃ port, ports port = true) :
    ∃ port, findMember (lagHash % ((setBits ports).length % 2 ^ 16) + 1) ports 0
      (List.finRange portMapSize) = some port ∧ ports port = true := by
  have hpos : 0 < (setBits ports).length :=
    List.length_pos_iff.mpr (setBits_ne_nil.mpr h)
  have hlt := Nat.mod_lt lagHash hpos
  rw [memberCount_eq]
  exact findMember_eq_some (Nat.succ_pos _) (by rw [Nat.zero_add]; exact hlt)

/-! ## What the engine holds -/

/-- The trees of the engine, and its LAGs: one that has not been set has no member. -/
structure Holds (pre : McSimplePreLAG) (t : Trees) : Prop where
  trees : pre.toMcSimplePre.Holds t
  unset : ∀ lag, pre.lagEntries.lookup lag = none → ¬ t.LagReady lag
  set : ∀ lag e, pre.lagEntries.lookup lag = some e →
    e.portMap = t.lagPorts lag ∧ e.memberCount = (setBits e.portMap).length % 2 ^ 16

/-- Every LAG that an associated node names has a member. -/
def LagsReady (t : Trees) : Prop :=
  ∀ g, ∀ n ∈ t.assoc g, ∀ node, t.nodes n = some node → ∀ lag, node.lags lag = true →
    t.LagReady lag.val

/-- The member port that the loop of `replicate` takes. -/
def pick (t : Trees) (lag : ℕ) : Fin portMapSize :=
  (findMember (lagHash % ((setBits (t.lagPorts lag)).length % 2 ^ 16) + 1) (t.lagPorts lag) 0
    (List.finRange portMapSize)).getD ⟨0, by decide⟩

theorem pick_mem {lag : ℕ} (h : t.LagReady lag) : t.lagPorts lag (pick t lag) = true := by
  obtain ⟨port, heq, hport⟩ := exists_member h
  rwa [pick, heq, Option.getD_some]

/-- A LAG that has a member gets one copy. -/
theorem Holds.lagCopy (h : pre.Holds t) (rid : ℕ) {lag : Fin lagMapSize}
    (hready : t.LagReady lag.val) : pre.lagCopy rid lag = some [⟨rid, pick t lag.val⟩] := by
  rw [McSimplePreLAG.lagCopy]
  cases hlag : pre.lagEntries.lookup lag.val with
  | none => exact absurd hready (h.unset _ hlag)
  | some e =>
    obtain ⟨hports, hcount⟩ := h.set _ e hlag
    obtain ⟨port, heq, -⟩ := exists_member hready
    have hne : (setBits (t.lagPorts lag.val)).length % 2 ^ 16 ≠ 0 := by
      rw [memberCount_eq]
      exact mt List.length_eq_zero_iff.mp (setBits_ne_nil.mpr hready)
    rw [pick, heq]
    rw [hports] at hcount
    simp only [Option.bind_eq_bind, Option.bind_some, hcount, hports, if_neg hne, heq]
    rfl

/-- The copies of a node that is associated with a group. -/
def copies (t : Trees) (pick : ℕ → Fin portMapSize) (n : ℕ) : List McOut :=
  t.portCopies n ++ t.lagCopies pick n

/-- The copies of an associated node whose LAGs have members. -/
theorem Holds.copiesOf (h : pre.Holds t) (hready : LagsReady t) {mgid n : ℕ}
    (hn : n ∈ t.assoc mgid) :
    (do let (l1Entry, l2Entry) ← pre.l2EntryOf n
        let lagCopies ← (setBits l2Entry.lagMap).mapM (pre.lagCopy l1Entry.rid)
        return McSimplePre.portCopies l1Entry.rid l2Entry.portMap ++ lagCopies.flatten) =
      some (copies t (pick t) n) := by
  obtain ⟨e, e', hentries, hnode⟩ := h.trees.l2EntryOf hn
  have hlags : ∀ lag ∈ setBits e'.lagMap, t.LagReady lag.val := fun lag hlag =>
    hready mgid n hn _ hnode lag (mem_setBits.mp hlag)
  have hcopies := mapM_eq_some_map (g := pre.lagCopy e.rid) fun lag hlag =>
    h.lagCopy e.rid (hlags lag hlag)
  rw [hentries]
  simp only [Option.bind_eq_bind, Option.bind_some, hcopies, copies, Trees.portCopies,
    Trees.lagCopies, hnode, Option.elim_some]
  rw [List.filter_eq_self.mpr (by simpa using hlags)]
  simp only [McSimplePre.portCopies, ← List.flatMap_def, Option.pure_def, Option.some.injEq,
    List.append_cancel_left_eq]
  exact List.map_eq_flatMap.symm

/-- **Replication of a group** yields the copies of its nodes, as long as their LAGs have
members. -/
theorem Holds.replicate (h : pre.Holds t) (hready : LagsReady t) (mgid : ℕ) :
    ∃ outs, pre.replicate mgid = some outs ∧
      (outs : Multiset McOut) = ∑ n ∈ t.assoc mgid, (copies t (pick t) n : Multiset McOut) := by
  rw [McSimplePreLAG.replicate]
  have hlist : pre.l1List mgid = (pre.mgidEntries.getOrDefault mgid).l1List := rfl
  cases hg : pre.mgidEntries.lookup mgid with
  | none =>
    refine ⟨[], rfl, ?_⟩
    rw [h.trees.assoc, hlist, UnorderedMap.getOrDefault, hg]
    rfl
  | some mgidEntry =>
    rw [UnorderedMap.getOrDefault_eq hg] at hlist
    have hcopies := fun n hn =>
      h.copiesOf hready (h.trees.mem_l1List.mp (hlist ▸ hn : n ∈ pre.l1List mgid))
    refine ⟨(mgidEntry.l1List.map (copies t (pick t))).flatten, ?_, ?_⟩
    · simp only [mapM_eq_some_map hcopies]
      rfl
    · rw [h.trees.assoc, ← flatten_copies (h.trees.nodup mgid), hlist]

/-! ## Runs -/

/-- The control operations of `McSimplePreLAG`. -/
inductive Op where
  | tree (op : TreeOp)
  | nodeCreate (rid : ℕ) (portMap : PortMap) (lagMap : LagMap)
  | nodeUpdate (l1Hdl : ℕ) (portMap : PortMap) (lagMap : LagMap)
  | setLagMembership (lagIndex : ℕ) (portMap : PortMap)

/-- Run a control operation: its return code, the handle of the node if one is created, and
the state after it; `none` when it aborts. -/
def exec (pre : McSimplePreLAG) : Op → Option (McReturnCode × Option ℕ × McSimplePreLAG)
  | .tree op => do
    let (rc, toPre) ← pre.execTree op
    return (rc, none, { pre with toMcSimplePre := toPre })
  | .nodeCreate rid portMap lagMap => match pre.mcNodeCreate rid portMap lagMap with
    | (.ok l1Hdl, pre') => some (.success, some l1Hdl, pre')
    | (.error rc, pre') => some (rc, none, pre')
  | .nodeUpdate l1Hdl portMap lagMap =>
    let (rc, pre') := pre.mcNodeUpdate l1Hdl portMap lagMap
    some (rc, none, pre')
  | .setLagMembership lagIndex portMap =>
    let (rc, pre') := pre.mcSetLagMembership lagIndex portMap
    some (rc, none, pre')

/-- What an operation means, given the handle of the node it creates.  A LAG that no LAG map
can name is not set. -/
def follow (t : Trees) : Op → Option ℕ → Trees
  | .tree op, _ => t.follow op
  | .nodeCreate rid portMap lagMap, some n => t.create n ⟨rid, portMap, lagMap⟩
  | .nodeCreate _ _ _, none => t
  | .nodeUpdate n portMap lagMap, _ =>
    t.update n fun node => { node with ports := portMap, lags := lagMap }
  | .setLagMembership lagIndex portMap, _ =>
    if lagIndex < lagMapSize then t.setLag lagIndex portMap else t

/-- One operation on an engine, and on the trees that it stands for. -/
def step (s : McSimplePreLAG × Trees) (op : Op) : Option (McSimplePreLAG × Trees) :=
  (s.1.exec op).map fun (_, l1Hdl, pre') => (pre', follow s.2 op l1Hdl)

/-- A node is associated once with a group, and only when its LAGs have members; it is
destroyed when no group has it any more.  The LAGs that an associated node names keep a
member, and the index 256 is not used. -/
def KeepsLags (s : McSimplePreLAG × Trees) : Op → Prop
  | .tree (.nodeAssociate g n) => ∀ node, s.2.nodes n = some node →
      n ∉ s.2.assoc g ∧ ∀ lag, node.lags lag = true → s.2.LagReady lag.val
  | .tree (.nodeDestroy n) => ∀ g, n ∉ s.2.assoc g
  | .nodeUpdate n _ lagMap => (∃ g, n ∈ s.2.assoc g) →
      ∀ lag, lagMap lag = true → s.2.LagReady lag.val
  | .setLagMembership lagIndex portMap => lagIndex ≠ lagMapSize ∧
      ((∀ port, portMap port = false) → ∀ g, ∀ n ∈ s.2.assoc g, ∀ node, s.2.nodes n = some node →
        ∀ lag, node.lags lag = true → lag.val ≠ lagIndex)
  | _ => True

/-- The operation goes through, and after it every group is replicated to the nodes associated
with it, one copy for each port and one for each LAG with a member, at a member port; a LAG index
is accepted exactly when a LAG map can name it. -/
def Serves (s : McSimplePreLAG × Trees) (op : Op) : Prop :=
  ∃ rc n pre', s.1.exec op = some (rc, n, pre') ∧
    (∃ pick, (∀ lag, (follow s.2 op n).LagReady lag →
        (follow s.2 op n).lagPorts lag (pick lag) = true) ∧
      ∀ mgid, ∃ outs, pre'.replicate mgid = some outs ∧ (outs : Multiset McOut) =
        ∑ m ∈ (follow s.2 op n).assoc mgid, (copies (follow s.2 op n) pick m : Multiset McOut)) ∧
    ∀ lagIndex portMap, op = .setLagMembership lagIndex portMap →
      (rc = .success ↔ lagIndex < lagMapSize)

/-- The invariant of the runs that keep members in the LAGs. -/
structure Kept (s : McSimplePreLAG × Trees) : Prop extends s.1.Holds s.2 where
  ready : LagsReady s.2

theorem kept_empty : Kept ({}, {}) where
  trees := McSimplePre.holds_empty
  unset _ _ h := by
    obtain ⟨port, hport⟩ := h
    exact Bool.false_ne_true hport
  set _ _ h := nomatch h
  ready _ _ hn := absurd hn (Finset.notMem_empty _)

theorem KeepsLags.allowed {op : TreeOp} (hop : KeepsLags (pre, t) (.tree op)) : t.Allowed op := by
  cases op with
  | nodeAssociate g n =>
    intro hlive
    obtain ⟨node, hnode⟩ := Option.isSome_iff_exists.mp hlive
    exact (hop node hnode).1
  | nodeDestroy n => exact hop
  | _ => trivial

/-- The LAGs stay as they are when a shared operation or an operation on a node runs. -/
theorem Holds.setTrees (h : pre.Holds t) {toPre : McSimplePre} {t' : Trees}
    (htrees : toPre.Holds t') (hlags : t'.lagPorts = t.lagPorts) :
    { pre with toMcSimplePre := toPre }.Holds t' where
  trees := htrees
  unset lag hlag := by
    rw [Trees.LagReady, hlags]
    exact h.unset lag hlag
  set lag e he := by
    rw [hlags]
    exact h.set lag e he

theorem lagPorts_follow (t : Trees) (op : TreeOp) : (t.follow op).lagPorts = t.lagPorts := by
  cases op with
  | nodeAssociate g n =>
    rw [Trees.follow, Trees.associate]
    split <;> rfl
  | _ => rfl

/-- Fewer associations, of nodes with the same LAGs, ask for fewer members. -/
theorem LagsReady.mono {t' : Trees} (h : LagsReady t) (hlags : t'.lagPorts = t.lagPorts)
    (hassoc : ∀ g, ∀ n ∈ t'.assoc g, n ∈ t.assoc g ∧ t'.nodes n = t.nodes n) : LagsReady t' := by
  intro g n hn node hnode lag hlag
  obtain ⟨hmem, heq⟩ := hassoc g n hn
  rw [Trees.LagReady, hlags]
  exact h g n hmem node (heq ▸ hnode) lag hlag

/-- The LAGs of associated nodes have members after a shared operation. -/
theorem Kept.lagsReady_follow (h : Kept (pre, t)) {op : TreeOp}
    (hop : KeepsLags (pre, t) (.tree op)) : LagsReady (t.follow op) := by
  have hready : LagsReady t := h.ready
  cases op with
  | mgrpCreate mgid => exact hready
  | mgrpDestroy g =>
    refine hready.mono rfl fun g' n hn => ⟨?_, rfl⟩
    simp only [Trees.follow, Trees.destroyGroup, Function.update_apply] at hn
    split at hn
    · exact absurd hn (Finset.notMem_empty _)
    · exact hn
  | nodeAssociate g n =>
    rw [Trees.follow, Trees.associate]
    split
    · intro g' n' hn' node hnode lag hlag
      simp only [Function.update_apply] at hn'
      split at hn'
      · rcases Finset.mem_insert.mp hn' with rfl | hmem
        · exact (hop node hnode).2 lag hlag
        · exact hready g n' hmem node hnode lag hlag
      · exact hready g' n' hn' node hnode lag hlag
    · exact hready
  | nodeDissociate g n =>
    refine hready.mono rfl fun g' n' hn' => ⟨?_, rfl⟩
    simp only [Trees.follow, Trees.dissociate, Function.update_apply] at hn'
    split at hn'
    · rename_i hg
      exact hg ▸ Finset.mem_of_mem_erase hn'
    · exact hn'
  | nodeDestroy n =>
    refine hready.mono rfl fun g' n' hn' => ⟨Finset.mem_of_mem_erase hn', ?_⟩
    exact Function.update_of_ne (Finset.ne_of_mem_erase hn') _ _

/-- An operation after which the invariant holds serves the groups. -/
theorem serves_of_kept {s : McSimplePreLAG × Trees} {op : Op} (rc : McReturnCode) (n : Option ℕ)
    (pre' : McSimplePreLAG) (hexec : s.1.exec op = some (rc, n, pre')) (h : Kept (pre', follow s.2 op n))
    (hrc : ∀ lagIndex portMap, op = .setLagMembership lagIndex portMap →
      (rc = .success ↔ lagIndex < lagMapSize)) :
    Serves s op ∧ ∀ s', step s op = some s' → Kept s' := by
  refine ⟨⟨rc, n, pre', hexec, ⟨pick (follow s.2 op n), fun _ => pick_mem, ?_⟩, hrc⟩, ?_⟩
  · exact fun mgid => h.toHolds.replicate h.ready mgid
  · intro s' hs'
    rw [step, hexec] at hs'
    exact Option.some.inj hs' ▸ h

/-- A LAG is given its ports. -/
theorem Holds.setLag (h : pre.Holds t) (lag : ℕ) (ports : PortMap) :
    let lagEntry : LagEntry := ⟨(setBits ports).length % 2 ^ 16, ports⟩
    { pre with lagEntries := pre.lagEntries.insert lag lagEntry }.Holds (t.setLag lag ports) where
  trees := ⟨h.trees.tables, h.trees.nodes, h.trees.nodup, h.trees.assoc, h.trees.live⟩
  unset lag' hlag' := by
    rw [UnorderedMap.lookup_insert_eq] at hlag'
    split at hlag'
    · cases hlag'
    · rename_i hne
      rw [Trees.lagReady_setLag_of_ne hne]
      exact h.unset lag' hlag'
  set lag' e he := by
    rw [UnorderedMap.lookup_insert_eq] at he
    split at he
    · rename_i heq
      obtain rfl := Option.some.inj he
      exact ⟨by rw [heq, Trees.lagPorts_setLag_self], rfl⟩
    · rename_i hne
      rw [Trees.lagPorts_setLag_of_ne hne]
      exact h.set lag' e he

/-- A LAG that is left without a member is one that no associated node names. -/
theorem LagsReady.setLag (h : LagsReady t) {lag : ℕ} {ports : PortMap}
    (hempty : (∀ port, ports port = false) → ∀ g, ∀ n ∈ t.assoc g, ∀ node,
      t.nodes n = some node → ∀ l, node.lags l = true → l.val ≠ lag) :
    LagsReady (t.setLag lag ports) := by
  intro g n hn node hnode l hl
  by_cases heq : l.val = lag
  · rw [heq, Trees.lagReady_setLag_self]
    by_contra hnone
    refine hempty (fun port => ?_) g n hn node hnode l hl heq
    exact Bool.eq_false_iff.mpr fun hport => hnone ⟨port, hport⟩
  · rw [Trees.lagReady_setLag_of_ne heq]
    exact h g n hn node hnode l hl

/-- Only the index 256 is accepted without need. -/
theorem mcSetLagMembership_accepts {lagIndex : ℕ} {portMap : PortMap} (h : lagIndex ≠ lagMapSize) :
    (pre.mcSetLagMembership lagIndex portMap).1 = .success ↔ lagIndex < lagMapSize := by
  rw [mcSetLagMembership]
  unfold lagMapSize at h ⊢
  split <;> rename_i hgt <;> unfold lagMaxEntries at hgt
  · exact iff_of_false (fun hrc => nomatch hrc) (by omega)
  · exact iff_of_true rfl (by omega)

/-- **Step lemma.**  An operation that keeps members in the LAGs serves the groups. -/
theorem Kept.serves {s : McSimplePreLAG × Trees} (h : Kept s) {op : Op} (hop : KeepsLags s op) :
    Serves s op ∧ ∀ s', step s op = some s' → Kept s' := by
  obtain ⟨pre, t⟩ := s
  cases op with
  | tree op =>
    obtain ⟨rc, toPre, heq, -, heffect⟩ := h.trees.tables.execTree op
    refine serves_of_kept rc none { pre with toMcSimplePre := toPre } ?_
      ⟨?_, h.lagsReady_follow hop⟩ nofun
    · rw [exec, heq]
      rfl
    · exact h.toHolds.setTrees (h.trees.execTree hop.allowed heffect) (lagPorts_follow t op)
  | nodeCreate rid portMap lagMap =>
    rcases h.trees.createNode rid portMap lagMap with
      ⟨code, -, heq⟩ | ⟨n, toPre, heq, hn, -, -, htrees⟩
    · refine serves_of_kept code none pre ?_ h nofun
      rw [exec, mcNodeCreate, heq]
    · refine serves_of_kept .success (some n) { pre with toMcSimplePre := toPre } ?_
        ⟨h.toHolds.setTrees htrees rfl, ?_⟩ nofun
      · rw [exec, mcNodeCreate, heq]
      · refine LagsReady.mono h.ready rfl fun g n' hn' => ⟨hn', Function.update_of_ne ?_ _ _⟩
        rintro rfl
        exact hn (h.trees.isSome_nodes.mp (h.trees.live g n' hn'))
  | nodeUpdate n portMap lagMap =>
    obtain ⟨htrees, -⟩ := h.trees.updateNode n
      (fun e => { e with portMap := portMap, lagMap := lagMap })
      (fun node => { node with ports := portMap, lags := lagMap }) (fun _ => rfl) fun _ _ => rfl
    refine serves_of_kept _ _ _ rfl ⟨h.toHolds.setTrees htrees rfl, ?_⟩ nofun
    intro g n' hn' node hnode lag hlag
    simp only [follow, Trees.update, Function.update_apply] at hnode
    split at hnode
    · rename_i heq
      obtain ⟨node₀, -, rfl⟩ := Option.map_eq_some_iff.mp hnode
      exact hop ⟨g, heq ▸ hn'⟩ lag hlag
    · exact h.ready g n' hn' node hnode lag hlag
  | setLagMembership lagIndex portMap =>
    obtain ⟨hindex, hempty⟩ := hop
    have hrc : ∀ i map, Op.setLagMembership lagIndex portMap = .setLagMembership i map →
        ((pre.mcSetLagMembership lagIndex portMap).1 = .success ↔ i < lagMapSize) := by
      rintro i map heq
      cases heq
      exact mcSetLagMembership_accepts hindex
    refine serves_of_kept _ _ _ rfl ?_ hrc
    show Kept ((pre.mcSetLagMembership lagIndex portMap).2,
      if lagIndex < lagMapSize then t.setLag lagIndex portMap else t)
    by_cases hlt : lagIndex < lagMapSize
    · have hnot : ¬ lagIndex > lagMaxEntries := by
        unfold lagMapSize at hlt
        unfold lagMaxEntries
        omega
      rw [if_pos hlt, mcSetLagMembership, if_neg hnot]
      exact ⟨h.toHolds.setLag lagIndex portMap, LagsReady.setLag h.ready hempty⟩
    · have hgt : lagIndex > lagMaxEntries := by
        unfold lagMapSize at hlt hindex
        unfold lagMaxEntries
        omega
      rw [if_neg hlt, mcSetLagMembership, if_pos hgt]
      exact h

/-- **Runs that keep members in the LAGs replicate to the nodes and to the LAGs.** -/
theorem serves_of_keepsLags {ops : List Op} (h : RunMeets step KeepsLags ({}, {}) ops) :
    RunMeets step Serves ({}, {}) ops :=
  RunMeets.of_invariant (fun _ _ hs hop => hs.serves hop) kept_empty h

/-- A LAG with one port, and a node with that LAG in its map. -/
def oneLag : List Op :=
  [.setLagMembership 2 fun port => port.val = 10, .tree (.mgrpCreate 0x400),
    .nodeCreate 0x200 McSimplePre.twoPorts (fun lag => lag.val = 2),
    .tree (.nodeAssociate 0x400 0)]

theorem oneLag_keepsLags : RunMeets step KeepsLags ({}, {}) oneLag := by
  refine ⟨⟨by decide, fun _ _ _ hn => absurd hn (Finset.notMem_empty _)⟩, fun s₁ hs₁ =>
    ⟨trivial, fun s₂ hs₂ => ⟨trivial, fun s₃ hs₃ => ⟨fun node hnode => ?_, fun _ _ => trivial⟩⟩⟩⟩
  obtain rfl := Option.some.inj hs₁
  obtain rfl := Option.some.inj hs₂
  obtain rfl := Option.some.inj hs₃
  obtain rfl := Option.some.inj hnode
  refine ⟨Finset.notMem_empty _, fun lag hlag => ⟨⟨10, by decide⟩, ?_⟩⟩
  rw [of_decide_eq_true hlag]
  rfl

theorem serves_of_keepsLags_oneLag : RunMeets step KeepsLags ({}, {}) oneLag ∧
    RunMeets step Serves ({}, {}) oneLag :=
  ⟨oneLag_keepsLags, serves_of_keepsLags oneLag_keepsLags⟩

/-- **A node may name a LAG that has not been set**, and then replication throws; a LAG may
be left without a member, and then it divides by zero.  The LAG index 256 is accepted. -/
theorem replicate_unready :
    (runFrom step ({}, {}) (oneLag.drop 1)).map (fun s => s.1.replicate 0x400) = some none ∧
    (runFrom step ({}, {}) (oneLag ++ [.setLagMembership 2 fun _ => false])).map
      (fun s => s.1.replicate 0x400) = some none ∧
    (({} : McSimplePreLAG).mcSetLagMembership 256 fun _ => false).1 = .success :=
  ⟨rfl, rfl, rfl⟩

end McSimplePreLAG

end Bm
