/-
# Multicast trees

What a replication engine is for: which nodes there are, which of them are associated
with a group, and which copies of a packet a group asks for.  The tables of the engines
refer to one another and to two handle allocators; every control operation keeps them
together and does to the nodes and to the lists of the groups what its name says.
-/
import Bmv2.Lib.Runs
import Bmv2.SimplePre

namespace Bm

namespace UnorderedMap

variable {V : Type} {m : UnorderedMap V} {k j : ℕ} {v : V}

theorem lookup_insert_eq : (m.insert k v).lookup j = if j = k then some v else m.lookup j := by
  split
  · rename_i h
    rw [h, Finmap.lookup_insert]
  · rename_i h
    exact Finmap.lookup_insert_of_ne m h

theorem lookup_erase_eq : (m.erase k).lookup j = if j = k then none else m.lookup j := by
  split
  · rename_i h
    rw [h, Finmap.lookup_erase]
  · rename_i h
    exact Finmap.lookup_erase_ne h

theorem insertNew_of_notMem (h : k ∉ m) : m.insertNew k v = m.insert k v := if_neg h

theorem lookup_insertNew_of_notMem (h : k ∉ m) :
    (m.insertNew k v).lookup j = if j = k then some v else m.lookup j := by
  rw [insertNew_of_notMem h, lookup_insert_eq]

theorem getOrDefault_eq [Inhabited V] (h : m.lookup k = some v) : m.getOrDefault k = v := by
  rw [getOrDefault, h, Option.getD_some]

/-- Writing back the entry that is there changes nothing. -/
theorem insert_eq_self (h : m.lookup k = some v) : m.insert k v = m := by
  refine Finmap.ext_lookup fun j => ?_
  rw [lookup_insert_eq]
  split
  · rename_i hjk
    rw [hjk, h]
  · rfl

end UnorderedMap

/-! ## The trees -/

/-- A node of a tree. -/
structure TreeNode where
  rid : ℕ
  ports : PortMap
  lags : LagMap

/-- The nodes there are, the nodes associated with each group, and the ports of each
LAG. -/
structure Trees where
  nodes : ℕ → Option TreeNode := fun _ => none
  assoc : ℕ → Finset ℕ := fun _ => ∅
  lagPorts : ℕ → PortMap := fun _ _ => false

namespace Trees

/-- The copies that a node asks for on its own ports. -/
def portCopies (t : Trees) (n : ℕ) : List McOut :=
  (t.nodes n).elim [] fun node => (setBits node.ports).map fun port => ⟨node.rid, port⟩

/-- A LAG has a member. -/
def LagReady (t : Trees) (lag : ℕ) : Prop := ∃ port, t.lagPorts lag port = true

instance (t : Trees) (lag : ℕ) : Decidable (t.LagReady lag) :=
  inferInstanceAs (Decidable (∃ port, t.lagPorts lag port = true))

/-- The copies that a node asks for on its LAGs, when `pick` chooses the member port:
one for every LAG that has a member. -/
def lagCopies (t : Trees) (pick : ℕ → Fin portMapSize) (n : ℕ) : List McOut :=
  (t.nodes n).elim [] fun node =>
    ((setBits node.lags).filter fun lag => t.LagReady lag.val).map
      fun lag => ⟨node.rid, pick lag.val⟩

/-! ### What the operations mean -/

/-- A node is created under a handle. -/
def create (t : Trees) (n : ℕ) (node : TreeNode) : Trees :=
  { t with nodes := Function.update t.nodes n (some node) }

/-- A group is destroyed. -/
def destroyGroup (t : Trees) (g : ℕ) : Trees :=
  { t with assoc := Function.update t.assoc g ∅ }

/-- A node that exists is associated with a group. -/
def associate (t : Trees) (g n : ℕ) : Trees :=
  if (t.nodes n).isSome then { t with assoc := Function.update t.assoc g (insert n (t.assoc g)) }
  else t

/-- A node is dissociated from a group. -/
def dissociate (t : Trees) (g n : ℕ) : Trees :=
  { t with assoc := Function.update t.assoc g ((t.assoc g).erase n) }

/-- A node is destroyed, and with it its associations. -/
def destroyNode (t : Trees) (n : ℕ) : Trees :=
  { t with nodes := Function.update t.nodes n none, assoc := fun g => (t.assoc g).erase n }

/-- A node that exists is given other maps. -/
def update (t : Trees) (n : ℕ) (set : TreeNode → TreeNode) : Trees :=
  { t with nodes := Function.update t.nodes n ((t.nodes n).map set) }

/-- A LAG is given its ports. -/
def setLag (t : Trees) (lag : ℕ) (ports : PortMap) : Trees :=
  { t with lagPorts := Function.update t.lagPorts lag ports }

end Trees

namespace McSimplePre

variable {pre pre' : McSimplePre}

/-! ## The tables and the handles -/

/-- The list of a group, empty for a group that does not exist. -/
def l1List (pre : McSimplePre) (g : ℕ) : List ℕ := (pre.mgidEntries.getOrDefault g).l1List

/-- The node at an L1 handle. -/
def node (pre : McSimplePre) (n : ℕ) : Option TreeNode :=
  (pre.l2EntryOf n).map fun (l1Entry, l2Entry) => ⟨l1Entry.rid, l2Entry.portMap, l2Entry.lagMap⟩

/-- The handles in use are those of the entries, and L1 and L2 entries refer to one
another. -/
structure Tables (pre : McSimplePre) : Prop where
  l1_keys : ∀ n, n ∈ pre.l1Handles ↔ ∃ e, pre.l1Entries.lookup n = some e
  l2_keys : ∀ h, h ∈ pre.l2Handles ↔ ∃ e, pre.l2Entries.lookup h = some e
  l1_l2 : ∀ n e, pre.l1Entries.lookup n = some e →
    ∃ e', pre.l2Entries.lookup e.l2Hdl = some e' ∧ e'.l1Hdl = n
  l2_l1 : ∀ h e', pre.l2Entries.lookup h = some e' →
    ∃ e, pre.l1Entries.lookup e'.l1Hdl = some e ∧ e.l2Hdl = h

theorem tables_empty : Tables {} := by
  constructor <;> simp

/-- A live node has its entries on both levels. -/
theorem Tables.exists_entries (h : pre.Tables) {n : ℕ} (hn : n ∈ pre.l1Handles) :
    ∃ e e', pre.l1Entries.lookup n = some e ∧ pre.l2Entries.lookup e.l2Hdl = some e' ∧
      e'.l1Hdl = n := by
  obtain ⟨e, he⟩ := (h.l1_keys n).mp hn
  obtain ⟨e', he', hhdl⟩ := h.l1_l2 n e he
  exact ⟨e, e', he, he', hhdl⟩

theorem node_eq_some {n : ℕ} {v : TreeNode} : pre.node n = some v ↔
    ∃ e e', pre.l1Entries.lookup n = some e ∧ pre.l2Entries.lookup e.l2Hdl = some e' ∧
      v = ⟨e.rid, e'.portMap, e'.lagMap⟩ := by
  simp only [node, l2EntryOf, Option.map_eq_some_iff, Option.bind_eq_bind,
    Option.bind_eq_some_iff, Option.pure_def, Option.some.injEq, Prod.exists]
  constructor
  · rintro ⟨e, e', ⟨e₁, he, e₂, he', heq⟩, rfl⟩
    cases heq
    exact ⟨e, e', he, he', rfl⟩
  · rintro ⟨e, e', he, he', rfl⟩
    exact ⟨e, e', ⟨e, he, e', he', rfl⟩, rfl⟩

theorem node_congr (h₁ : pre'.l1Entries = pre.l1Entries) (h₂ : pre'.l2Entries = pre.l2Entries) :
    pre'.node = pre.node := by
  funext n
  rw [node, node, l2EntryOf, l2EntryOf, h₁, h₂]

theorem Tables.isSome_node (h : pre.Tables) {n : ℕ} : (pre.node n).isSome ↔ n ∈ pre.l1Handles := by
  rw [Option.isSome_iff_exists, h.l1_keys]
  constructor
  · rintro ⟨v, hv⟩
    obtain ⟨e, -, he, -⟩ := node_eq_some.mp hv
    exact ⟨e, he⟩
  · rintro ⟨e, he⟩
    obtain ⟨e', he', -⟩ := h.l1_l2 n e he
    exact ⟨_, node_eq_some.mpr ⟨e, e', he, he', rfl⟩⟩

/-- The group that a live node records. -/
def mgrp (pre : McSimplePre) (n : ℕ) : Option ℕ := (pre.l1Entries.lookup n).map L1Entry.mgrpHdl

/-! ## What the operations do -/

/-- The tables of `pre` are sound, and show these nodes, lists and recorded groups. -/
structure Shows (pre : McSimplePre) (node : ℕ → Option TreeNode) (l1List : ℕ → List ℕ)
    (mgrp : ℕ → Option ℕ) : Prop where
  tables : pre.Tables
  node : pre.node = node
  l1List : pre.l1List = l1List
  mgrp : pre.mgrp = mgrp

theorem shows_self (h : pre.Tables) : pre.Shows pre.node pre.l1List pre.mgrp := ⟨h, rfl, rfl, rfl⟩

/-- An operation on the groups alone. -/
theorem Tables.shows_setGroups (h : pre.Tables) {m : UnorderedMap MgidEntry} :
    { pre with mgidEntries := m }.Shows pre.node
      (fun g => (m.getOrDefault g).l1List) pre.mgrp :=
  ⟨⟨h.l1_keys, h.l2_keys, h.l1_l2, h.l2_l1⟩, rfl, rfl, rfl⟩

/-- The list of a group after its entry has been written. -/
theorem l1List_insert (m : UnorderedMap MgidEntry) (g : ℕ) (entry : MgidEntry) :
    (fun g' => (UnorderedMap.getOrDefault (m.insert g entry) g').l1List) =
      Function.update (fun g' => (m.getOrDefault g').l1List) g entry.l1List := by
  funext g'
  rw [UnorderedMap.getOrDefault, UnorderedMap.lookup_insert_eq, Function.update_apply]
  split <;> rfl

/-- `mc_mgrp_create` shows nothing new. -/
theorem Tables.mcMgrpCreate (h : pre.Tables) (g : ℕ) :
    (pre.mcMgrpCreate g).2.Shows pre.node pre.l1List pre.mgrp := by
  unfold McSimplePre.mcMgrpCreate
  split
  · exact shows_self h
  · obtain ⟨htables, hnode, hlist, hmgrp⟩ := h.shows_setGroups
      (m := pre.mgidEntries.insertNew g { mgid := g })
    refine ⟨htables, hnode, hlist.trans ?_, hmgrp⟩
    rw [UnorderedMap.insertNew]
    split
    · rfl
    · rename_i hg
      rw [l1List_insert]
      refine Function.update_eq_self_iff.mpr ?_
      rw [UnorderedMap.getOrDefault, Finmap.lookup_eq_none.mpr hg]
      rfl

/-- `mc_mgrp_destroy` leaves no node on the list of the group. -/
theorem Tables.mcMgrpDestroy (h : pre.Tables) (g : ℕ) :
    (pre.mcMgrpDestroy g).2.Shows pre.node (Function.update pre.l1List g []) pre.mgrp := by
  obtain ⟨htables, hnode, hlist, hmgrp⟩ := h.shows_setGroups (m := pre.mgidEntries.erase g)
  refine ⟨htables, hnode, hlist.trans (funext fun g' => ?_), hmgrp⟩
  rw [UnorderedMap.getOrDefault, UnorderedMap.lookup_erase_eq, Function.update_apply]
  split <;> rfl

/-- A live node is given other groups: nothing but the recorded group changes. -/
theorem Tables.shows_setMgrp (h : pre.Tables) {n : ℕ} (hn : n ∈ pre.l1Handles) (g : ℕ)
    (m : UnorderedMap MgidEntry) :
    { pre with
      mgidEntries := m
      l1Entries := pre.l1Entries.insert n
        { pre.l1Entries.getOrDefault n with mgrpHdl := g } }.Shows
      pre.node (fun g' => (m.getOrDefault g').l1List)
      (Function.update pre.mgrp n (some g)) := by
  obtain ⟨e, e', he, he', hhdl⟩ := h.exists_entries hn
  rw [UnorderedMap.getOrDefault_eq he]
  refine ⟨⟨fun j => ?_, h.l2_keys, fun j ej hj => ?_, fun k ek hk => ?_⟩, ?_, rfl, ?_⟩
  · rw [UnorderedMap.lookup_insert_eq, h.l1_keys j]
    split
    · rename_i hj
      subst hj
      exact iff_of_true ⟨e, he⟩ ⟨_, rfl⟩
    · rfl
  · rw [UnorderedMap.lookup_insert_eq] at hj
    split at hj
    · rename_i hjn
      obtain rfl := Option.some.inj hj
      exact ⟨e', he', hjn ▸ hhdl⟩
    · exact h.l1_l2 j ej hj
  · obtain ⟨e₁, he₁, hl2⟩ := h.l2_l1 k ek hk
    rw [UnorderedMap.lookup_insert_eq]
    split
    · rename_i hkn
      rw [hkn, he] at he₁
      exact ⟨_, rfl, by rw [← hl2, ← Option.some.inj he₁]⟩
    · exact ⟨e₁, he₁, hl2⟩
  · funext j
    simp only [node, l2EntryOf, UnorderedMap.lookup_insert_eq]
    split
    · rename_i hj
      rw [hj, he]
      simp only [Option.bind_eq_bind, Option.bind_some, he']
      rfl
    · rfl
  · funext j
    simp only [mgrp, UnorderedMap.lookup_insert_eq, Function.update_apply]
    split <;> rfl

/-- `mc_node_associate` puts a live node at the end of the list. -/
theorem Tables.mcNodeAssociate (h : pre.Tables) (g : ℕ) {n : ℕ} (hn : n ∈ pre.l1Handles) :
    (pre.mcNodeAssociate g n).1 = .success ∧ (pre.mcNodeAssociate g n).2.Shows pre.node
      (Function.update pre.l1List g (pre.l1List g ++ [n])) (Function.update pre.mgrp n (some g)) := by
  rw [McSimplePre.mcNodeAssociate, if_neg (not_not_intro hn)]
  obtain ⟨htables, hnode, hlist, hmgrp⟩ := h.shows_setMgrp hn g
    (pre.mgidEntries.insert g { pre.mgidEntries.getOrDefault g with
      l1List := pre.l1List g ++ [n] })
  exact ⟨rfl, htables, hnode, hlist.trans (l1List_insert _ _ _), hmgrp⟩

/-- `mc_node_dissociate` takes a live node off the list. -/
theorem Tables.mcNodeDissociate (h : pre.Tables) (g : ℕ) {n : ℕ} (hn : n ∈ pre.l1Handles) :
    (pre.mcNodeDissociate g n).1 = .success ∧ (pre.mcNodeDissociate g n).2.Shows pre.node
      (Function.update pre.l1List g ((pre.l1List g).filter (· ≠ n)))
      (Function.update pre.mgrp n (some 0)) := by
  rw [McSimplePre.mcNodeDissociate, if_neg (not_not_intro hn)]
  obtain ⟨htables, hnode, hlist, hmgrp⟩ := h.shows_setMgrp hn 0
    (pre.mgidEntries.insert g { pre.mgidEntries.getOrDefault g with
      l1List := (pre.l1List g).filter (· ≠ n) })
  exact ⟨rfl, htables, hnode, hlist.trans (l1List_insert _ _ _), hmgrp⟩

/-- The tables after a node has been written at two free handles. -/
theorem Tables.shows_created (h : pre.Tables) (rid : ℕ) (portMap : PortMap) (lagMap : LagMap) :
    let n := lowestFree pre.l1Handles
    let k := lowestFree pre.l2Handles
    let l1Entries := pre.l1Entries.insertNew n { rid := rid }
    Shows { pre with
        l1Entries := l1Entries.insert n { l1Entries.getOrDefault n with l2Hdl := k }
        l2Entries := pre.l2Entries.insertNew k ⟨n, portMap, lagMap⟩
        l1Handles := insert n pre.l1Handles
        l2Handles := insert k pre.l2Handles }
      (Function.update pre.node n (some ⟨rid, portMap, lagMap⟩)) pre.l1List
      (Function.update pre.mgrp n (some 0)) := by
  intro n k l1Entries
  have hn : pre.l1Entries.lookup n = none := by
    by_contra hsome
    exact lowestFree_notMem _ ((h.l1_keys n).mpr (Option.ne_none_iff_exists'.mp hsome))
  have hk : pre.l2Entries.lookup k = none := by
    by_contra hsome
    exact lowestFree_notMem _ ((h.l2_keys k).mpr (Option.ne_none_iff_exists'.mp hsome))
  have hl1 : ∀ j, (l1Entries.insert n { l1Entries.getOrDefault n with l2Hdl := k }).lookup j =
      if j = n then some ⟨0, rid, k⟩ else pre.l1Entries.lookup j := by
    intro j
    have hdef : l1Entries.getOrDefault n = { rid := rid } := by
      refine UnorderedMap.getOrDefault_eq ?_
      rw [UnorderedMap.lookup_insertNew_of_notMem (Finmap.lookup_eq_none.mp hn), if_pos rfl]
    rw [UnorderedMap.lookup_insert_eq, hdef]
    split
    · rfl
    · rename_i hj
      rw [UnorderedMap.lookup_insertNew_of_notMem (Finmap.lookup_eq_none.mp hn), if_neg hj]
  have hl2 : ∀ j, (pre.l2Entries.insertNew k ⟨n, portMap, lagMap⟩).lookup j =
      if j = k then some ⟨n, portMap, lagMap⟩ else pre.l2Entries.lookup j := fun j =>
    UnorderedMap.lookup_insertNew_of_notMem (Finmap.lookup_eq_none.mp hk)
  -- an entry of another node refers to neither of the new handles
  have hne : ∀ j e, pre.l1Entries.lookup j = some e → e.l2Hdl ≠ k := by
    intro j e he hek
    obtain ⟨e', he', -⟩ := h.l1_l2 j e he
    rw [hek, hk] at he'
    cases he'
  refine ⟨⟨fun j => ?_, fun j => ?_, fun j e hj => ?_, fun j e' hj => ?_⟩, ?_, rfl, ?_⟩
  · rw [hl1, Finset.mem_insert, h.l1_keys]
    split <;> simp_all
  · rw [hl2, Finset.mem_insert, h.l2_keys]
    split <;> simp_all
  · rw [hl1] at hj
    split at hj
    · rename_i hjn
      obtain rfl := Option.some.inj hj
      exact ⟨_, by rw [hl2, if_pos rfl], hjn.symm⟩
    · obtain ⟨e', he', hhdl⟩ := h.l1_l2 j e hj
      exact ⟨e', by rw [hl2, if_neg (hne j e hj), he'], hhdl⟩
  · rw [hl2] at hj
    split at hj
    · rename_i hjk
      obtain rfl := Option.some.inj hj
      exact ⟨_, by rw [hl1, if_pos rfl], hjk.symm⟩
    · obtain ⟨e, he, hhdl⟩ := h.l2_l1 j e' hj
      refine ⟨e, ?_, hhdl⟩
      rw [hl1, if_neg, he]
      intro hjn
      rw [hjn, hn] at he
      cases he
  · funext j
    rw [Function.update_apply]
    simp only [node, l2EntryOf, hl1]
    split
    · simp [hl2]
    · cases he : pre.l1Entries.lookup j with
      | none => rfl
      | some e =>
        simp only [Option.bind_eq_bind, Option.bind_some]
        rw [hl2, if_neg (hne j e he)]
  · funext j
    simp only [mgrp, hl1, Function.update_apply]
    split <;> rfl

/-- Sound tables have free L2 handles as long as they are not full. -/
theorem Tables.getHandle_l2 (h : pre.Tables) (hsize : pre.l2Entries.size < l2MaxEntries) :
    pre.l2Handles.getHandle =
      some (lowestFree pre.l2Handles, insert (lowestFree pre.l2Handles) pre.l2Handles) := by
  have hkeys : pre.l2Handles = pre.l2Entries.keys := by
    ext i
    rw [h.l2_keys, Finmap.mem_keys, Finmap.mem_iff]
  have hcard : pre.l2Handles.card < l2MaxEntries := by rwa [hkeys]
  refine if_pos (lt_of_le_of_lt (lowestFree_le_card _) (hcard.trans ?_))
  decide

/-- `mc_node_create` fails and changes nothing, or creates a node under a handle that was
free. -/
theorem Tables.createNode (h : pre.Tables) (rid : ℕ) (portMap : PortMap) (lagMap : LagMap) :
    (∃ code, code ≠ .success ∧ pre.createNode rid portMap lagMap = (.error code, pre)) ∨
      ∃ n pre', pre.createNode rid portMap lagMap = (.ok n, pre') ∧ n ∉ pre.l1Handles ∧
        pre'.Shows (Function.update pre.node n (some ⟨rid, portMap, lagMap⟩)) pre.l1List
          (Function.update pre.mgrp n (some 0)) := by
  unfold McSimplePre.createNode
  split
  · exact .inl ⟨_, by decide, rfl⟩
  · split
    · exact .inl ⟨_, by decide, rfl⟩
    · rename_i hl2
      rw [h.getHandle_l2 (not_le.mp hl2)]
      cases hget : pre.l1Handles.getHandle with
      | none => exact .inl ⟨_, by decide, rfl⟩
      | some p =>
        obtain ⟨n, handles'⟩ := p
        obtain ⟨-, rfl, rfl⟩ := HandleMgr.getHandle_eq_some.mp hget
        exact .inr ⟨_, _, rfl, lowestFree_notMem _, h.shows_created _ _ _⟩

/-- `mc_node_destroy` removes a live node; no list changes. -/
theorem Tables.mcNodeDestroy (h : pre.Tables) {n : ℕ} (hn : n ∈ pre.l1Handles) :
    ∃ pre', pre.mcNodeDestroy n = some (.success, pre') ∧
      pre'.Shows (Function.update pre.node n none) pre.l1List (Function.update pre.mgrp n none) := by
  obtain ⟨e, e', he, he', hhdl⟩ := h.exists_entries hn
  rw [McSimplePre.mcNodeDestroy, if_neg (not_not_intro hn), UnorderedMap.getOrDefault_eq he]
  dsimp only
  rw [UnorderedMap.insert_eq_self he]
  have hk : e.l2Hdl ∈ pre.l2Handles := (h.l2_keys _).mpr ⟨e', he'⟩
  refine ⟨_, by simp only [HandleMgr.releaseHandle, if_pos hk, if_pos hn]; rfl, ?_⟩
  -- the L2 entry of another node is another one
  have hne : ∀ j ej, pre.l1Entries.lookup j = some ej → j ≠ n → ej.l2Hdl ≠ e.l2Hdl := by
    intro j ej hj hjn heq
    obtain ⟨e₁, he₁, hhdl₁⟩ := h.l1_l2 j ej hj
    rw [heq, he'] at he₁
    exact hjn (by rw [← hhdl₁, ← Option.some.inj he₁, hhdl])
  refine ⟨⟨fun j => ?_, fun j => ?_, fun j ej hj => ?_, fun k ek hk => ?_⟩, ?_, rfl, ?_⟩
  · rw [UnorderedMap.lookup_erase_eq, Finset.mem_erase, h.l1_keys]
    split <;> simp_all
  · rw [UnorderedMap.lookup_erase_eq, Finset.mem_erase, h.l2_keys]
    split <;> simp_all
  · rw [UnorderedMap.lookup_erase_eq] at hj
    split at hj
    · cases hj
    · rename_i hjn
      obtain ⟨e₁, he₁, hhdl₁⟩ := h.l1_l2 j ej hj
      exact ⟨e₁, by rw [UnorderedMap.lookup_erase_eq, if_neg (hne j ej hj hjn), he₁], hhdl₁⟩
  · rw [UnorderedMap.lookup_erase_eq] at hk
    split at hk
    · cases hk
    · rename_i hke
      obtain ⟨e₁, he₁, hhdl₁⟩ := h.l2_l1 k ek hk
      refine ⟨e₁, ?_, hhdl₁⟩
      rw [UnorderedMap.lookup_erase_eq, if_neg, he₁]
      intro hkn
      rw [hkn, he] at he₁
      exact hke (by rw [← hhdl₁, ← Option.some.inj he₁])
  · funext j
    rw [Function.update_apply]
    simp only [node, l2EntryOf, UnorderedMap.lookup_erase_eq]
    split
    · rfl
    · rename_i hjn
      cases hj : pre.l1Entries.lookup j with
      | none => rfl
      | some ej =>
        simp only [Option.bind_eq_bind, Option.bind_some]
        rw [if_neg (hne j ej hj hjn)]
  · funext j
    simp only [mgrp, UnorderedMap.lookup_erase_eq, Function.update_apply]
    split <;> rfl

/-- `mc_node_update` writes the L2 entry of a live node. -/
theorem Tables.updateNode (h : pre.Tables) {n : ℕ} (hn : n ∈ pre.l1Handles)
    (set : L2Entry → L2Entry) (setNode : TreeNode → TreeNode) (hhdl : ∀ e, (set e).l1Hdl = e.l1Hdl)
    (hset : ∀ rid e, (⟨rid, (set e).portMap, (set e).lagMap⟩ : TreeNode) =
      setNode ⟨rid, e.portMap, e.lagMap⟩) :
    (pre.updateNode n set).1 = .success ∧ (pre.updateNode n set).2.Shows
      (Function.update pre.node n ((pre.node n).map setNode)) pre.l1List pre.mgrp := by
  obtain ⟨e, e', he, he', hn'⟩ := h.exists_entries hn
  rw [McSimplePre.updateNode, if_neg (not_not_intro hn), UnorderedMap.getOrDefault_eq he]
  dsimp only
  rw [UnorderedMap.insert_eq_self he, UnorderedMap.getOrDefault_eq he']
  refine ⟨rfl, ⟨h.l1_keys, fun j => ?_, fun j ej hj => ?_, fun k ek hk => ?_⟩, ?_, rfl, rfl⟩
  · rw [UnorderedMap.lookup_insert_eq, h.l2_keys]
    split
    · rename_i hj
      subst hj
      exact iff_of_true ⟨e', he'⟩ ⟨_, rfl⟩
    · rfl
  · obtain ⟨e₁, he₁, hhdl₁⟩ := h.l1_l2 j ej hj
    rw [UnorderedMap.lookup_insert_eq]
    split
    · rename_i heq
      rw [heq, he'] at he₁
      exact ⟨_, rfl, by rw [hhdl, Option.some.inj he₁, hhdl₁]⟩
    · exact ⟨e₁, he₁, hhdl₁⟩
  · rw [UnorderedMap.lookup_insert_eq] at hk
    split at hk
    · rename_i heq
      obtain rfl := Option.some.inj hk
      obtain ⟨e₁, he₁, hhdl₁⟩ := h.l2_l1 _ e' he'
      exact ⟨e₁, by rw [hhdl, he₁], by rw [hhdl₁, heq]⟩
    · exact h.l2_l1 k ek hk
  · funext j
    rw [Function.update_apply]
    simp only [node, l2EntryOf, UnorderedMap.lookup_insert_eq]
    split
    · rename_i hj
      subst hj
      simp [he, he', hset]
    · rename_i hj
      cases hej : pre.l1Entries.lookup j with
      | none => rfl
      | some ej =>
        simp only [Option.bind_eq_bind, Option.bind_some]
        rw [if_neg]
        intro heq
        obtain ⟨e₁, he₁, hhdl₁⟩ := h.l1_l2 j ej hej
        rw [heq, he'] at he₁
        exact hj (by rw [← hhdl₁, ← Option.some.inj he₁, hn'])

/-! ## Following the trees -/

/-- The control operations that both engines share. -/
inductive TreeOp where
  | mgrpCreate (mgid : ℕ)
  | mgrpDestroy (mgrpHdl : ℕ)
  | nodeAssociate (mgrpHdl l1Hdl : ℕ)
  | nodeDissociate (mgrpHdl l1Hdl : ℕ)
  | nodeDestroy (l1Hdl : ℕ)

/-- Run a shared control operation; `none` when it aborts. -/
def execTree (pre : McSimplePre) : TreeOp → Option (McReturnCode × McSimplePre)
  | .mgrpCreate mgid => some (pre.mcMgrpCreate mgid)
  | .mgrpDestroy mgrpHdl => some (pre.mcMgrpDestroy mgrpHdl)
  | .nodeAssociate mgrpHdl l1Hdl => some (pre.mcNodeAssociate mgrpHdl l1Hdl)
  | .nodeDissociate mgrpHdl l1Hdl => some (pre.mcNodeDissociate mgrpHdl l1Hdl)
  | .nodeDestroy l1Hdl => pre.mcNodeDestroy l1Hdl

/-- What a shared operation does to the nodes, the lists and the recorded groups. -/
def TreeOp.Effect (pre pre' : McSimplePre) : TreeOp → Prop
  | .mgrpCreate _ => pre'.Shows pre.node pre.l1List pre.mgrp
  | .mgrpDestroy g => pre'.Shows pre.node (Function.update pre.l1List g []) pre.mgrp
  | .nodeAssociate g n => n ∉ pre.l1Handles ∧ pre' = pre ∨ n ∈ pre.l1Handles ∧
      pre'.Shows pre.node (Function.update pre.l1List g (pre.l1List g ++ [n]))
        (Function.update pre.mgrp n (some g))
  | .nodeDissociate g n => n ∉ pre.l1Handles ∧ pre' = pre ∨ n ∈ pre.l1Handles ∧
      pre'.Shows pre.node (Function.update pre.l1List g ((pre.l1List g).filter (· ≠ n)))
        (Function.update pre.mgrp n (some 0))
  | .nodeDestroy n => n ∉ pre.l1Handles ∧ pre' = pre ∨ n ∈ pre.l1Handles ∧
      pre'.Shows (Function.update pre.node n none) pre.l1List (Function.update pre.mgrp n none)

/-- A shared operation goes through, and changes nothing when it returns an error. -/
theorem Tables.execTree (h : pre.Tables) (op : TreeOp) :
    ∃ rc pre', pre.execTree op = some (rc, pre') ∧ (rc ≠ .success → pre' = pre) ∧
      op.Effect pre pre' := by
  cases op with
  | mgrpCreate mgid =>
    refine ⟨(pre.mcMgrpCreate mgid).1, (pre.mcMgrpCreate mgid).2, rfl, ?_, h.mcMgrpCreate mgid⟩
    rw [McSimplePre.mcMgrpCreate]
    split
    · exact fun _ => rfl
    · exact fun hrc => absurd rfl hrc
  | mgrpDestroy g => exact ⟨_, _, rfl, fun hrc => absurd rfl hrc, h.mcMgrpDestroy g⟩
  | nodeAssociate g n =>
    by_cases hn : n ∈ pre.l1Handles
    · obtain ⟨hrc, hshows⟩ := h.mcNodeAssociate g hn
      exact ⟨_, _, rfl, absurd hrc, .inr ⟨hn, hshows⟩⟩
    · have heq : pre.mcNodeAssociate g n = (.invalidL1Handle, pre) := if_pos hn
      exact ⟨_, _, congrArg some heq, fun _ => rfl, .inl ⟨hn, rfl⟩⟩
  | nodeDissociate g n =>
    by_cases hn : n ∈ pre.l1Handles
    · obtain ⟨hrc, hshows⟩ := h.mcNodeDissociate g hn
      exact ⟨_, _, rfl, absurd hrc, .inr ⟨hn, hshows⟩⟩
    · have heq : pre.mcNodeDissociate g n = (.invalidL1Handle, pre) := if_pos hn
      exact ⟨_, _, congrArg some heq, fun _ => rfl, .inl ⟨hn, rfl⟩⟩
  | nodeDestroy n =>
    by_cases hn : n ∈ pre.l1Handles
    · obtain ⟨pre', heq, hshows⟩ := h.mcNodeDestroy hn
      exact ⟨_, _, heq, fun hrc => absurd rfl hrc, .inr ⟨hn, hshows⟩⟩
    · have heq : pre.mcNodeDestroy n = some (.invalidL1Handle, pre) := if_pos hn
      exact ⟨_, _, heq, fun _ => rfl, .inl ⟨hn, rfl⟩⟩

end McSimplePre

open McSimplePre (TreeOp)

namespace Trees

/-- What a shared control operation means. -/
def follow (t : Trees) : TreeOp → Trees
  | .mgrpCreate _ => t
  | .mgrpDestroy g => t.destroyGroup g
  | .nodeAssociate g n => t.associate g n
  | .nodeDissociate g n => t.dissociate g n
  | .nodeDestroy n => t.destroyNode n

/-- No node is associated twice with a group, and no node is destroyed that is still
associated with one. -/
def Allowed (t : Trees) : TreeOp → Prop
  | .nodeAssociate g n => (t.nodes n).isSome → n ∉ t.assoc g
  | .nodeDestroy n => ∀ g, n ∉ t.assoc g
  | _ => True

end Trees

namespace McSimplePre

variable {pre pre' : McSimplePre} {t : Trees}

/-- The tables of an engine are sound and hold the trees: the list of a group names the
nodes associated with it, each once, and they are live. -/
structure Holds (pre : McSimplePre) (t : Trees) : Prop where
  tables : pre.Tables
  nodes : t.nodes = pre.node
  nodup : ∀ g, (pre.l1List g).Nodup
  assoc : ∀ g, t.assoc g = (pre.l1List g).toFinset
  live : ∀ g, ∀ n ∈ t.assoc g, (t.nodes n).isSome

theorem holds_empty : Holds {} {} where
  tables := tables_empty
  nodes := rfl
  nodup _ := List.nodup_nil
  assoc _ := rfl
  live _ _ hn := absurd hn (Finset.notMem_empty _)

theorem Holds.isSome_nodes (h : pre.Holds t) {n : ℕ} : (t.nodes n).isSome ↔ n ∈ pre.l1Handles := by
  rw [h.nodes, h.tables.isSome_node]

theorem Holds.mem_l1List (h : pre.Holds t) {g n : ℕ} : n ∈ pre.l1List g ↔ n ∈ t.assoc g := by
  rw [h.assoc, List.mem_toFinset]

/-- The list of one group is written. -/
theorem Holds.setList (h : pre.Holds t) {g : ℕ} {l : List ℕ} {mgrp : ℕ → Option ℕ}
    (hshows : pre'.Shows pre.node (Function.update pre.l1List g l) mgrp) (hnodup : l.Nodup)
    (hlive : ∀ n ∈ l, (t.nodes n).isSome) :
    pre'.Holds { t with assoc := Function.update t.assoc g l.toFinset } where
  tables := hshows.tables
  nodes := h.nodes.trans hshows.node.symm
  nodup g' := by
    rw [hshows.l1List, Function.update_apply]
    split
    · exact hnodup
    · exact h.nodup g'
  assoc g' := by
    simp only [hshows.l1List, Function.update_apply]
    split
    · rfl
    · exact h.assoc g'
  live g' n hn := by
    simp only [Function.update_apply] at hn
    split at hn
    · exact hlive n (List.mem_toFinset.mp hn)
    · exact h.live g' n hn

/-- A shared operation that is allowed does to the tables what it means for the trees. -/
theorem Holds.execTree (h : pre.Holds t) {op : TreeOp} (hop : t.Allowed op)
    (heffect : op.Effect pre pre') : pre'.Holds (t.follow op) := by
  cases op with
  | mgrpCreate mgid =>
    exact ⟨heffect.tables, h.nodes.trans heffect.node.symm, fun g => heffect.l1List ▸ h.nodup g,
      fun g => heffect.l1List ▸ h.assoc g, h.live⟩
  | mgrpDestroy g => exact h.setList heffect List.nodup_nil fun n hn => absurd hn List.not_mem_nil
  | nodeAssociate g n =>
    rcases heffect with ⟨hn, rfl⟩ | ⟨hn, hshows⟩
    · rwa [Trees.follow, Trees.associate, if_neg (by rwa [h.isSome_nodes])]
    · have hlive := h.isSome_nodes.mpr hn
      have hnot : n ∉ pre.l1List g := fun hmem => hop hlive (h.mem_l1List.mp hmem)
      rw [Trees.follow, Trees.associate, if_pos hlive, h.assoc,
        show insert n (pre.l1List g).toFinset = (pre.l1List g ++ [n]).toFinset by
          rw [List.toFinset_append]
          ext
          simp]
      refine h.setList hshows ((h.nodup g).append (List.nodup_singleton n) ?_) fun n' hn' => ?_
      · simpa using hnot
      · rcases List.mem_append.mp hn' with hn' | hn'
        · exact h.live g n' (h.mem_l1List.mp hn')
        · rwa [List.mem_singleton.mp hn']
  | nodeDissociate g n =>
    rw [Trees.follow, Trees.dissociate]
    rcases heffect with ⟨hn, rfl⟩ | ⟨hn, hshows⟩
    · have hnot : n ∉ t.assoc g := fun hmem => hn (h.isSome_nodes.mp (h.live g n hmem))
      rwa [Finset.erase_eq_of_notMem hnot, Function.update_eq_self]
    · rw [h.assoc, show (pre.l1List g).toFinset.erase n =
          ((pre.l1List g).filter (· ≠ n)).toFinset by
        ext
        simp [and_comm]]
      exact h.setList hshows ((h.nodup g).filter _) fun n' hn' =>
        h.live g n' (h.mem_l1List.mp (List.mem_of_mem_filter hn'))
  | nodeDestroy n =>
    have hassoc : (fun g => (t.assoc g).erase n) = t.assoc :=
      funext fun g => Finset.erase_eq_of_notMem (hop g)
    rw [Trees.follow, Trees.destroyNode, hassoc]
    rcases heffect with ⟨hn, rfl⟩ | ⟨hn, hshows⟩
    · have hnone : t.nodes n = none := by
        rwa [← Option.not_isSome_iff_eq_none, h.isSome_nodes]
      rwa [Function.update_eq_self_iff.mpr hnone.symm]
    · refine ⟨hshows.tables, ?_, fun g => hshows.l1List ▸ h.nodup g,
        fun g => hshows.l1List ▸ h.assoc g, fun g n' hn' => ?_⟩
      · rw [hshows.node, h.nodes]
      · have hne : n' ≠ n := fun heq => hop g (heq ▸ hn')
        show (Function.update t.nodes n none n').isSome
        rw [Function.update_of_ne hne]
        exact h.live g n' hn'

/-- A node is created. -/
theorem Holds.createNode (h : pre.Holds t) (rid : ℕ) (portMap : PortMap) (lagMap : LagMap) :
    (∃ code, code ≠ .success ∧ pre.createNode rid portMap lagMap = (.error code, pre)) ∨
      ∃ n pre', pre.createNode rid portMap lagMap = (.ok n, pre') ∧ n ∉ pre.l1Handles ∧
        pre'.mgrp = Function.update pre.mgrp n (some 0) ∧ pre'.l1List = pre.l1List ∧
        pre'.Holds (t.create n ⟨rid, portMap, lagMap⟩) := by
  rcases h.tables.createNode rid portMap lagMap with hfail | ⟨n, pre', heq, hn, hshows⟩
  · exact .inl hfail
  · refine .inr ⟨n, pre', heq, hn, hshows.mgrp, hshows.l1List, hshows.tables, ?_, ?_, ?_, ?_⟩
    · rw [Trees.create, hshows.node, h.nodes]
    · exact fun g => hshows.l1List ▸ h.nodup g
    · exact fun g => hshows.l1List ▸ h.assoc g
    · intro g n' hn'
      have hlive := h.live g n' hn'
      simp only [Trees.create, Function.update_apply]
      split
      · rfl
      · exact hlive

/-- A node is given other maps. -/
theorem Holds.updateNode (h : pre.Holds t) (n : ℕ) (set : L2Entry → L2Entry)
    (setNode : TreeNode → TreeNode) (hhdl : ∀ e, (set e).l1Hdl = e.l1Hdl)
    (hset : ∀ rid e, (⟨rid, (set e).portMap, (set e).lagMap⟩ : TreeNode) =
      setNode ⟨rid, e.portMap, e.lagMap⟩) :
    (pre.updateNode n set).2.Holds (t.update n setNode) ∧
      (pre.updateNode n set).2.mgrp = pre.mgrp ∧ (pre.updateNode n set).2.l1List = pre.l1List ∧
      ((pre.updateNode n set).1 ≠ .success → (pre.updateNode n set).2 = pre) := by
  by_cases hn : n ∈ pre.l1Handles
  · obtain ⟨hrc, hshows⟩ := h.tables.updateNode hn set setNode hhdl hset
    refine ⟨⟨hshows.tables, ?_, ?_, ?_, ?_⟩, hshows.mgrp, hshows.l1List, absurd hrc⟩
    · rw [Trees.update, hshows.node, h.nodes]
    · exact fun g => hshows.l1List ▸ h.nodup g
    · exact fun g => hshows.l1List ▸ h.assoc g
    · intro g n' hn'
      have hlive := h.live g n' hn'
      simp only [Trees.update, Function.update_apply]
      split
      · rename_i heq
        rw [Option.isSome_map, ← heq]
        exact hlive
      · exact hlive
  · have hnone : t.nodes n = none := by
      rw [← Option.not_isSome_iff_eq_none, h.isSome_nodes]
      exact hn
    rw [McSimplePre.updateNode, if_pos hn]
    refine ⟨?_, rfl, rfl, fun _ => rfl⟩
    rwa [Trees.update, hnone, Option.map_none, Function.update_eq_self_iff.mpr hnone.symm]

end McSimplePre

end Bm
