/-
# Replication to nodes

Every group of `McSimplePre` is replicated to the nodes associated with it, as long as a
node is on one list at most and the node and the group outlive the association: the
engine neither looks for the node on the lists when it is destroyed, nor resets the nodes
of a group that is.
-/
import Bmv2.Lib.Blocks
import Bmv2.MulticastTrees

namespace Bm

/-! ## Copies of a list of nodes -/

/-- The copies of a list without repetition are those of its nodes. -/
theorem flatten_copies {nodes : List ℕ} (h : nodes.Nodup) (copies : ℕ → List McOut) :
    (((nodes.map copies).flatten : List McOut) : Multiset McOut) =
      ∑ n ∈ nodes.toFinset, (copies n : Multiset McOut) := by
  rw [List.sum_toFinset _ h, ← Multiset.coe_join, Multiset.join, Multiset.sum_coe, List.map_map]
  rfl

namespace McSimplePre

variable {pre pre' : McSimplePre} {t : Trees}

/-- What replication finds at a live node. -/
theorem Holds.l2EntryOf (h : pre.Holds t) {g n : ℕ} (hn : n ∈ t.assoc g) :
    ∃ e e', pre.l2EntryOf n = some (e, e') ∧ t.nodes n = some ⟨e.rid, e'.portMap, e'.lagMap⟩ := by
  obtain ⟨v, hv⟩ := Option.isSome_iff_exists.mp (h.live g n hn)
  obtain ⟨e, e', he, he', rfl⟩ := node_eq_some.mp (h.nodes ▸ hv)
  refine ⟨e, e', ?_, hv⟩
  rw [McSimplePre.l2EntryOf, he]
  simp only [Option.bind_eq_bind, Option.bind_some, he']
  rfl

/-- The copies of a live node. -/
theorem Holds.copiesOf (h : pre.Holds t) {g n : ℕ} (hn : n ∈ t.assoc g) :
    (do let (l1Entry, l2Entry) ← pre.l2EntryOf n
        return McSimplePre.portCopies l1Entry.rid l2Entry.portMap) = some (t.portCopies n) := by
  obtain ⟨e, e', hentries, hnode⟩ := h.l2EntryOf hn
  rw [hentries, Trees.portCopies, hnode]
  rfl

/-- **Replication of a group** yields the copies of its nodes. -/
theorem Holds.replicate (h : pre.Holds t) (mgid : ℕ) :
    ∃ outs, pre.replicate mgid = some outs ∧
      (outs : Multiset McOut) = ∑ n ∈ t.assoc mgid, (t.portCopies n : Multiset McOut) := by
  rw [McSimplePre.replicate]
  have hlist : pre.l1List mgid = (pre.mgidEntries.getOrDefault mgid).l1List := rfl
  cases hg : pre.mgidEntries.lookup mgid with
  | none =>
    refine ⟨[], rfl, ?_⟩
    rw [h.assoc, hlist, UnorderedMap.getOrDefault, hg]
    rfl
  | some mgidEntry =>
    rw [UnorderedMap.getOrDefault_eq hg] at hlist
    have hcopies := fun n hn => h.copiesOf (h.mem_l1List.mp (hlist ▸ hn : n ∈ pre.l1List mgid))
    refine ⟨(mgidEntry.l1List.map t.portCopies).flatten, ?_, ?_⟩
    · simp only [mapM_eq_some_map hcopies]
      rfl
    · rw [h.assoc, ← flatten_copies (h.nodup mgid), hlist]

/-! ## Runs -/

/-- The control operations of `McSimplePre`. -/
inductive Op where
  | tree (op : TreeOp)
  | nodeCreate (rid : ℕ) (portMap : PortMap)
  | nodeUpdate (l1Hdl : ℕ) (portMap : PortMap)

/-- Run a control operation: its return code, the handle of the node if one is created, and
the state after it; `none` when it aborts. -/
def exec (pre : McSimplePre) : Op → Option (McReturnCode × Option ℕ × McSimplePre)
  | .tree op => do
    let (rc, pre') ← pre.execTree op
    return (rc, none, pre')
  | .nodeCreate rid portMap => match pre.mcNodeCreate rid portMap with
    | (.ok l1Hdl, pre') => some (.success, some l1Hdl, pre')
    | (.error rc, pre') => some (rc, none, pre')
  | .nodeUpdate l1Hdl portMap =>
    let (rc, pre') := pre.mcNodeUpdate l1Hdl portMap
    some (rc, none, pre')

/-- What an operation means, given the handle of the node it creates. -/
def follow (t : Trees) : Op → Option ℕ → Trees
  | .tree op, _ => t.follow op
  | .nodeCreate rid portMap, some n => t.create n ⟨rid, portMap, fun _ => false⟩
  | .nodeCreate _ _, none => t
  | .nodeUpdate n portMap, _ => t.update n fun node => { node with ports := portMap }

/-- One operation on an engine, and on the trees that it stands for. -/
def step (s : McSimplePre × Trees) (op : Op) : Option (McSimplePre × Trees) :=
  (s.1.exec op).map fun (_, l1Hdl, pre') => (pre', follow s.2 op l1Hdl)

/-- A node is associated with one group at a time, and dissociated from that group; a node
and a group that are destroyed are not associated with one another any more. -/
def Orderly (s : McSimplePre × Trees) : Op → Prop
  | .tree (.mgrpDestroy g) => s.2.assoc g = ∅
  | .tree (.nodeAssociate _ n) => (s.2.nodes n).isSome → ∀ g, n ∉ s.2.assoc g
  | .tree (.nodeDissociate g n) => (∃ g', n ∈ s.2.assoc g') → n ∈ s.2.assoc g
  | .tree (.nodeDestroy n) => ∀ g, n ∉ s.2.assoc g
  | _ => True

/-- The tables refer to one another: the nodes on the lists are live, and a node is on the
list of the group that it records, where 0 also stands for no group, and on no other. -/
structure Consistent (pre : McSimplePre) : Prop extends pre.Tables where
  listed_live : ∀ g, ∀ n ∈ pre.l1List g, n ∈ pre.l1Handles
  listed_once : ∀ g, (pre.l1List g).Nodup
  listed_recorded : ∀ g, ∀ n ∈ pre.l1List g, pre.mgrp n = some g
  recorded_listed : ∀ g n, pre.mgrp n = some g → g ≠ 0 → n ∈ pre.l1List g

/-- The nodes of a group record it, and no other node records it unless it is 0. -/
structure Recorded (mgrp : ℕ → Option ℕ) (assoc : ℕ → Finset ℕ) : Prop where
  recorded : ∀ g, ∀ n ∈ assoc g, mgrp n = some g
  listed : ∀ g n, mgrp n = some g → g ≠ 0 → n ∈ assoc g

namespace Recorded

variable {mgrp : ℕ → Option ℕ} {assoc : ℕ → Finset ℕ}

/-- A node of no group is associated with one. -/
theorem associate (h : Recorded mgrp assoc) {n : ℕ} (hn : ∀ g, n ∉ assoc g) (g : ℕ) :
    Recorded (Function.update mgrp n (some g)) (Function.update assoc g (insert n (assoc g))) where
  recorded g' n' hn' := by
    by_cases hnn : n' = n
    · rw [hnn, Function.update_self, Option.some.injEq]
      by_contra hgg
      rw [Function.update_of_ne (Ne.symm hgg), hnn] at hn'
      exact hn g' hn'
    · rw [Function.update_of_ne hnn]
      refine h.recorded g' n' ?_
      rw [Function.update_apply] at hn'
      split at hn'
      · rename_i hgg
        exact hgg ▸ Finset.mem_of_mem_insert_of_ne hn' hnn
      · exact hn'
  listed g' n' hn' hg' := by
    by_cases hnn : n' = n
    · rw [hnn, Function.update_self, Option.some.injEq] at hn'
      rw [hnn, ← hn', Function.update_self]
      exact Finset.mem_insert_self n _
    · rw [Function.update_of_ne hnn] at hn'
      rw [Function.update_apply]
      split
      · rename_i hgg
        exact Finset.mem_insert_of_mem (hgg ▸ h.listed g' n' hn' hg')
      · exact h.listed g' n' hn' hg'

/-- A node is dissociated from its group. -/
theorem dissociate (h : Recorded mgrp assoc) {g n : ℕ}
    (hn : (∃ g', n ∈ assoc g') → n ∈ assoc g) :
    Recorded (Function.update mgrp n (some 0)) (Function.update assoc g ((assoc g).erase n)) where
  recorded g' n' hn' := by
    -- the recorded group is the only one that the node is on
    have hne : n' ≠ n := by
      rintro rfl
      by_cases hgg : g' = g
      · rw [hgg, Function.update_self] at hn'
        exact Finset.notMem_erase n' _ hn'
      · rw [Function.update_of_ne hgg] at hn'
        have hg := h.recorded g n' (hn ⟨g', hn'⟩)
        rw [h.recorded g' n' hn', Option.some.injEq] at hg
        exact hgg hg
    rw [Function.update_of_ne hne]
    refine h.recorded g' n' ?_
    rw [Function.update_apply] at hn'
    split at hn'
    · rename_i hgg
      exact hgg ▸ Finset.mem_of_mem_erase hn'
    · exact hn'
  listed g' n' hn' hg' := by
    by_cases hnn : n' = n
    · rw [hnn, Function.update_self, Option.some.injEq] at hn'
      exact absurd hn'.symm hg'
    · rw [Function.update_of_ne hnn] at hn'
      rw [Function.update_apply]
      split
      · rename_i hgg
        exact Finset.mem_erase_of_ne_of_mem hnn (hgg ▸ h.listed g' n' hn' hg')
      · exact h.listed g' n' hn' hg'

/-- A node of no group is created or destroyed. -/
theorem update (h : Recorded mgrp assoc) {n : ℕ} (hn : ∀ g, n ∉ assoc g) {x : Option ℕ}
    (hx : ∀ g, x = some g → g = 0) : Recorded (Function.update mgrp n x) assoc where
  recorded g n' hn' := by
    have hne : n' ≠ n := fun heq => hn g (heq ▸ hn')
    rw [Function.update_of_ne hne]
    exact h.recorded g n' hn'
  listed g n' hn' hg := by
    rw [Function.update_apply] at hn'
    split at hn'
    · exact absurd (hx g hn') hg
    · exact h.listed g n' hn' hg

end Recorded

/-- The invariant of orderly runs. -/
structure Kept (s : McSimplePre × Trees) : Prop extends s.1.Holds s.2 where
  recorded : Recorded s.1.mgrp s.2.assoc

theorem kept_empty : Kept ({}, {}) where
  toHolds := holds_empty
  recorded := ⟨fun _ _ hn => absurd hn (Finset.notMem_empty _), fun _ _ h => nomatch h⟩

theorem Kept.consistent (h : Kept (pre, t)) : pre.Consistent where
  toTables := h.tables
  listed_live g n hn := h.isSome_nodes.mp (h.live g n (h.mem_l1List.mp hn))
  listed_once := h.nodup
  listed_recorded g n hn := h.recorded.recorded g n (h.mem_l1List.mp hn)
  recorded_listed g n hn hg := h.mem_l1List.mpr (h.recorded.listed g n hn hg)

/-- An orderly operation is one that the lists allow. -/
theorem Orderly.allowed {op : TreeOp} (hop : Orderly (pre, t) (.tree op)) : t.Allowed op := by
  cases op with
  | nodeAssociate g n => exact fun hlive => hop hlive g
  | nodeDestroy n => exact hop
  | _ => trivial

/-- The recorded groups after an orderly operation. -/
theorem Kept.execTree (h : Kept (pre, t)) {op : TreeOp} (hop : Orderly (pre, t) (.tree op))
    (heffect : op.Effect pre pre') : Kept (pre', t.follow op) := by
  have hholds : pre'.Holds (t.follow op) := h.toHolds.execTree hop.allowed heffect
  refine ⟨hholds, ?_⟩
  show Recorded pre'.mgrp (t.follow op).assoc
  have hrec : Recorded pre.mgrp t.assoc := h.recorded
  cases op with
  | mgrpCreate mgid => exact heffect.mgrp ▸ hrec
  | mgrpDestroy g =>
    have hassoc : (t.follow (.mgrpDestroy g)).assoc = t.assoc :=
      Function.update_eq_self_iff.mpr hop.symm
    rwa [heffect.mgrp, hassoc]
  | nodeAssociate g n =>
    rcases heffect with ⟨hn, rfl⟩ | ⟨hn, hshows⟩
    · rwa [Trees.follow, Trees.associate, if_neg (by rwa [h.toHolds.isSome_nodes])]
    · have hlive := h.toHolds.isSome_nodes.mpr hn
      rw [hshows.mgrp, Trees.follow, Trees.associate, if_pos hlive]
      exact hrec.associate (hop hlive) g
  | nodeDissociate g n =>
    rcases heffect with ⟨hn, rfl⟩ | ⟨hn, hshows⟩
    · have hnot : n ∉ t.assoc g := fun hmem => hn (h.toHolds.isSome_nodes.mp (h.live g n hmem))
      rwa [Trees.follow, Trees.dissociate, Finset.erase_eq_of_notMem hnot, Function.update_eq_self]
    · rw [hshows.mgrp]
      exact hrec.dissociate hop
  | nodeDestroy n =>
    have hassoc : (t.follow (.nodeDestroy n)).assoc = t.assoc :=
      funext fun g => Finset.erase_eq_of_notMem (hop g)
    rw [hassoc]
    rcases heffect with ⟨hn, rfl⟩ | ⟨hn, hshows⟩
    · exact hrec
    · rw [hshows.mgrp]
      exact hrec.update hop fun g hg => by cases hg

/-- **Step lemma.**  An orderly operation goes through and keeps the invariant. -/
theorem Kept.step {s : McSimplePre × Trees} (h : Kept s) {op : Op} (hop : Orderly s op) :
    ∃ s', step s op = some s' ∧ Kept s' := by
  obtain ⟨pre, t⟩ := s
  cases op with
  | tree op =>
    obtain ⟨rc, pre', heq, -, heffect⟩ := h.tables.execTree op
    refine ⟨(pre', t.follow op), ?_, h.execTree hop heffect⟩
    show ((pre.execTree op).bind fun _ => _).map _ = _
    rw [heq]
    rfl
  | nodeCreate rid portMap =>
    rcases h.toHolds.createNode rid portMap (fun _ => false) with
      ⟨code, -, heq⟩ | ⟨n, pre', heq, hn, hmgrp, hlist, hholds⟩
    · refine ⟨(pre, t), ?_, h⟩
      simp only [McSimplePre.step, exec, mcNodeCreate, heq]
      rfl
    · refine ⟨(pre', t.create n ⟨rid, portMap, fun _ => false⟩), ?_, hholds, ?_⟩
      · simp only [McSimplePre.step, exec, mcNodeCreate, heq]
        rfl
      · have hnot : ∀ g, n ∉ t.assoc g := fun g hmem =>
          hn (h.toHolds.isSome_nodes.mp (h.live g n hmem))
        have hrec := h.recorded.update hnot (x := some 0) fun g hg => (Option.some.inj hg).symm
        rwa [← hmgrp] at hrec
  | nodeUpdate n portMap =>
    obtain ⟨hholds, hmgrp, -, -⟩ := h.toHolds.updateNode n (fun e => { e with portMap := portMap })
      (fun node => { node with ports := portMap }) (fun _ => rfl) fun _ _ => rfl
    refine ⟨_, rfl, hholds, ?_⟩
    have hrec := h.recorded
    rwa [← hmgrp] at hrec

/-- An operation that returns an error changes nothing. -/
theorem Holds.error_unchanged (h : pre.Holds t) {op : Op} {rc : McReturnCode} {n : Option ℕ}
    (hexec : pre.exec op = some (rc, n, pre')) (hrc : rc ≠ .success) : pre' = pre := by
  cases op with
  | tree op =>
    obtain ⟨rc₁, pre₁, heq, herror, -⟩ := h.tables.execTree op
    simp only [exec, heq, Option.bind_eq_bind, Option.bind_some, Option.pure_def, Option.some.injEq,
      Prod.mk.injEq] at hexec
    obtain ⟨rfl, -, rfl⟩ := hexec
    exact herror hrc
  | nodeCreate rid portMap =>
    rcases h.createNode rid portMap (fun _ => false) with ⟨code, -, heq⟩ | ⟨n', pre₁, heq, -⟩
    · simp only [exec, mcNodeCreate, heq, Option.some.injEq, Prod.mk.injEq] at hexec
      exact hexec.2.2.symm
    · simp only [exec, mcNodeCreate, heq, Option.some.injEq, Prod.mk.injEq] at hexec
      exact absurd hexec.1.symm hrc
  | nodeUpdate n' portMap =>
    obtain ⟨-, -, -, herror⟩ := h.updateNode n' (fun e => { e with portMap := portMap })
      (fun node => { node with ports := portMap }) (fun _ => rfl) fun _ _ => rfl
    simp only [exec, mcNodeUpdate, Option.some.injEq, Prod.mk.injEq] at hexec
    obtain ⟨rfl, -, rfl⟩ := hexec
    exact herror hrc

/-- **Orderly runs replicate to the associated nodes.**  Every run whose operations are orderly
goes through; at its end the tables are consistent, every group is replicated to the nodes
associated with it, and an operation that returns an error changes nothing. -/
theorem replicate_of_orderly {ops : List Op} (h : RunMeets step Orderly ({}, {}) ops) :
    ∃ pre t, runFrom step ({}, {}) ops = some (pre, t) ∧ pre.Consistent ∧
      (∀ mgid, ∃ outs, pre.replicate mgid = some outs ∧
        (outs : Multiset McOut) = ∑ n ∈ t.assoc mgid, (t.portCopies n : Multiset McOut)) ∧
      ∀ op rc n pre', pre.exec op = some (rc, n, pre') → rc ≠ .success → pre' = pre := by
  obtain ⟨⟨pre, t⟩, hrun, hkept⟩ := runFrom_of_meets (I := Kept)
    (fun _ _ hs hop => hs.step hop) kept_empty h
  exact ⟨pre, t, hrun, hkept.consistent, hkept.toHolds.replicate, fun _ _ _ _ hexec hrc =>
    hkept.toHolds.error_unchanged hexec hrc⟩

/-- The ports 1 and 4. -/
def twoPorts : PortMap := fun port => port.val = 1 || port.val = 4

/-- A group, a node with two ports, and their association. -/
def oneNode : List Op :=
  [.tree (.mgrpCreate 0x400), .nodeCreate 0x200 twoPorts, .tree (.nodeAssociate 0x400 0)]

theorem oneNode_orderly : RunMeets step Orderly ({}, {}) oneNode := by
  refine ⟨trivial, fun s₁ hs₁ => ⟨trivial, fun s₂ hs₂ => ⟨fun _ g => ?_, fun _ _ => trivial⟩⟩⟩
  obtain rfl := Option.some.inj hs₁
  obtain rfl := Option.some.inj hs₂
  exact Finset.notMem_empty _

theorem replicate_of_orderly_oneNode : RunMeets step Orderly ({}, {}) oneNode ∧
    ∃ pre t, runFrom step ({}, {}) oneNode = some (pre, t) ∧ pre.Consistent ∧
      (∀ mgid, ∃ outs, pre.replicate mgid = some outs ∧
        (outs : Multiset McOut) = ∑ n ∈ t.assoc mgid, (t.portCopies n : Multiset McOut)) ∧
      ∀ op rc n pre', pre.exec op = some (rc, n, pre') → rc ≠ .success → pre' = pre :=
  ⟨oneNode_orderly, replicate_of_orderly oneNode_orderly⟩

/-- **A destroyed node stays on the list of its group**, and replication throws. -/
theorem replicate_destroyed : (runFrom step ({}, {}) (oneNode ++ [.tree (.nodeDestroy 0)])).map
    (fun s => s.1.replicate 0x400) = some none := by
  rfl

end McSimplePre

end Bm
