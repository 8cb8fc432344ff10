/-
# Group selectors

A table with groups tells its `GroupSelectionIface` (`match_tables.h`) which members
come to a group and which leave it, so that a selector can keep groups of its own.
Nothing is said when a group is deleted, with the members that it has: the handle of the
group is then given to a new group that the selector takes for the old one.
-/
import Bmv2.MemberRefs

namespace Bm

/-! ## Notifications -/

/-- The calls of `GroupSelectionIface` that change a selector. -/
inductive SelectorCall where
  | addMemberToGroup (grp mbr : ℕ)
  | removeMemberFromGroup (grp mbr : ℕ)
  | reset
  deriving DecidableEq

/-- The calls that an operation on a table makes, given its result: `add_member_to_group` and
`remove_member_from_group` call the selector when they succeed, and so does every
`reset_state_`. -/
def IndirectWSOp.selectorCalls : IndirectWSOp → TableResult → List SelectorCall
  | .addMemberToGroup m g, .done (.ok ()) => [.addMemberToGroup g m]
  | .removeMemberFromGroup m g, .done (.ok ()) => [.removeMemberFromGroup g m]
  | .resetState, _ => [.reset]
  | _, _ => []

/-- The groups that a selector keeps. -/
abbrev SelectorGroups := ℕ → Finset ℕ

/-- What a call means for the groups of a selector. -/
def SelectorGroups.receive (kept : SelectorGroups) : SelectorCall → SelectorGroups
  | .addMemberToGroup grp mbr => Function.update kept grp (insert mbr (kept grp))
  | .removeMemberFromGroup grp mbr => Function.update kept grp ((kept grp).erase mbr)
  | .reset => fun _ => ∅

namespace MatchTableIndirectWS

variable {K S : Type} {t t' : MatchTableIndirectWS K S} {kept : SelectorGroups}

/-- The members of a live group; a group that is not live has none. -/
def members (t : MatchTableIndirectWS K S) (grp : ℕ) : Finset ℕ :=
  if grp ∈ t.grpHandles then (t.groups[grp]?).getD ∅ else ∅

theorem members_of_mem {grp : ℕ} {mbrs : Finset ℕ} (hgrp : grp ∈ t.grpHandles)
    (hmbrs : t.groups[grp]? = some mbrs) : t.members grp = mbrs := by
  rw [members, if_pos hgrp, hmbrs, Option.getD_some]

/-- A group whose members are written is the only one that changes. -/
theorem members_setGroup (hhandles : t'.grpHandles = t.grpHandles) {grp : ℕ} {mbrs mbrs' : Finset ℕ}
    (hgrp : grp ∈ t.grpHandles) (hmbrs : t.groups[grp]? = some mbrs)
    (hgroups : t'.groups = t.groups.set grp mbrs') :
    t'.members = Function.update t.members grp mbrs' := by
  have hlt : grp < t.groups.length := (List.getElem?_eq_some_iff.mp hmbrs).1
  funext g
  rw [members, hhandles, hgroups]
  by_cases hg : g = grp
  · rw [hg, Function.update_self, if_pos hgrp, List.getElem?_set_self hlt, Option.getD_some]
  · rw [Function.update_of_ne hg, List.getElem?_set_ne (Ne.symm hg), members]

variable [Inhabited K] [MatchKey K] [LookupStructure K S]

/-- One operation on a table, and the calls that its selector gets. -/
def selectorStep (s : MatchTableIndirectWS K S × SelectorGroups) (op : IndirectWSOp) :
    Option (MatchTableIndirectWS K S × SelectorGroups) :=
  (s.1.exec op).map fun (r, t') => (t', (op.selectorCalls r).foldl SelectorGroups.receive s.2)

/-- A group that nothing refers to is deleted only when it has no members. -/
def DeletesEmptied (s : MatchTableIndirectWS K S × SelectorGroups) : IndirectWSOp → Prop
  | .deleteGroup grp => s.1.indexRefCount.count (.grp grp) = some 0 → s.1.members grp = ∅
  | _ => True

/-- The groups that the selector keeps are those of the table. -/
structure InStep (s : MatchTableIndirectWS K S × SelectorGroups) : Prop where
  le : ∀ grp ∈ s.1.grpHandles, grp ≤ IndirectIndex.indexMask
  kept : s.2 = s.1.members

/-! ## The steps -/

omit [MatchKey K] [LookupStructure K S] [Inhabited K] in
/-- `add_member_to_group` changes the group when it succeeds, and nothing otherwise. -/
theorem addMemberToGroup_cases {mbr grp : ℕ} {res : Except MatchErrorCode Unit}
    (h : t.addMemberToGroup mbr grp = some (res, t')) :
    (∃ code, res = .error code ∧ t' = t) ∨ ∃ mbrs, res = .ok () ∧ grp ∈ t.grpHandles ∧
      t.groups[grp]? = some mbrs ∧ t'.grpHandles = t.grpHandles ∧
      t'.groups = t.groups.set grp (insert mbr mbrs) := by
  rw [addMemberToGroup] at h
  split at h
  · cases h
    exact .inl ⟨_, rfl, rfl⟩
  · split at h
    · cases h
      exact .inl ⟨_, rfl, rfl⟩
    · rename_i hgrp
      rw [isValidGrp_eq, not_not] at hgrp
      obtain ⟨mbrs, hmbrs, h⟩ := Option.bind_eq_some_iff.mp h
      split at h
      · cases h
        exact .inl ⟨_, rfl, rfl⟩
      · obtain ⟨index, -, h⟩ := Option.bind_eq_some_iff.mp h
        obtain ⟨rc, -, h⟩ := Option.bind_eq_some_iff.mp h
        cases h
        exact .inr ⟨mbrs, rfl, hgrp, hmbrs, rfl, rfl⟩

omit [MatchKey K] [LookupStructure K S] [Inhabited K] in
/-- `remove_member_from_group` changes the group when it succeeds, and nothing otherwise. -/
theorem removeMemberFromGroup_cases {mbr grp : ℕ} {res : Except MatchErrorCode Unit}
    (h : t.removeMemberFromGroup mbr grp = some (res, t')) :
    (∃ code, res = .error code ∧ t' = t) ∨ ∃ mbrs, res = .ok () ∧ grp ∈ t.grpHandles ∧
      t.groups[grp]? = some mbrs ∧ t'.grpHandles = t.grpHandles ∧
      t'.groups = t.groups.set grp (mbrs.erase mbr) := by
  rw [removeMemberFromGroup] at h
  split at h
  · cases h
    exact .inl ⟨_, rfl, rfl⟩
  · split at h
    · cases h
      exact .inl ⟨_, rfl, rfl⟩
    · rename_i hgrp
      rw [isValidGrp_eq, not_not] at hgrp
      obtain ⟨mbrs, hmbrs, h⟩ := Option.bind_eq_some_iff.mp h
      split at h
      · obtain ⟨index, -, h⟩ := Option.bind_eq_some_iff.mp h
        obtain ⟨rc, -, h⟩ := Option.bind_eq_some_iff.mp h
        cases h
        exact .inr ⟨mbrs, rfl, hgrp, hmbrs, rfl, rfl⟩
      · cases h
        exact .inl ⟨_, rfl, rfl⟩

namespace InStep

omit [Inhabited K] [MatchKey K] [LookupStructure K S]

/-- An operation that leaves the groups and says nothing. -/
theorem unchanged (h : InStep (t, kept)) (hhandles : t'.grpHandles = t.grpHandles)
    (hgroups : t'.groups = t.groups) : InStep (t', kept) := by
  refine ⟨fun grp hgrp => h.le grp (hhandles ▸ hgrp), ?_⟩
  show kept = t'.members
  rw [show kept = t.members from h.kept]
  funext grp
  rw [members, members, hhandles, hgroups]

/-- A group gets other members, and the selector the same ones. -/
theorem setGroup (h : InStep (t, kept)) (hhandles : t'.grpHandles = t.grpHandles) {grp : ℕ}
    {mbrs : Finset ℕ} (hgrp : grp ∈ t.grpHandles) (hmbrs : t.groups[grp]? = some mbrs)
    (change : Finset ℕ → Finset ℕ) (hgroups : t'.groups = t.groups.set grp (change mbrs)) :
    InStep (t', Function.update kept grp (change (kept grp))) := by
  refine ⟨fun g hg => h.le g (hhandles ▸ hg), ?_⟩
  show Function.update kept grp (change (kept grp)) = t'.members
  rw [members_setGroup hhandles hgrp hmbrs hgroups, show kept = t.members from h.kept,
    members_of_mem hgrp hmbrs]

/-- A new group has no members, for the table and for the selector. -/
theorem created (h : InStep (t, kept)) {grp : ℕ} {groups : List (Finset ℕ)}
    (hgrp : grp = lowestFree t.grpHandles % 2 ^ 32) (hput : putAt t.groups grp ∅ = some groups)
    (hle : grp ≤ IndirectIndex.indexMask)
    (hhandles : t'.grpHandles = insert (lowestFree t.grpHandles) t.grpHandles)
    (hgroups : t'.groups = groups) : InStep (t', kept) := by
  rw [RefInv.lowestFree_mod h.le] at hgrp
  rw [← hgrp] at hhandles
  refine ⟨fun g hg => ?_, ?_⟩
  · rw [hhandles, Finset.mem_insert] at hg
    rcases hg with rfl | hg
    · exact hle
    · exact h.le g hg
  · show kept = t'.members
    rw [show kept = t.members from h.kept]
    have hget := getElem?_putAt hput
    funext g
    rw [members, members, hhandles, hgroups, show groups[g]? = _ from congrFun hget g]
    by_cases hg : g = grp
    · have hnot : grp ∉ t.grpHandles := hgrp ▸ lowestFree_notMem t.grpHandles
      rw [hg, Function.update_self, if_pos (Finset.mem_insert_self _ _), if_neg hnot,
        Option.getD_some]
    · simp only [Function.update_of_ne hg, Finset.mem_insert, hg, false_or]

/-- A group without members is deleted. -/
theorem deleted (h : InStep (t, kept)) {grp : ℕ} (hempty : t.members grp = ∅)
    (hhandles : t'.grpHandles = t.grpHandles.erase grp) (hgroups : t'.groups = t.groups) :
    InStep (t', kept) := by
  refine ⟨fun g hg => h.le g (Finset.mem_of_mem_erase (hhandles ▸ hg)), ?_⟩
  show kept = t'.members
  rw [show kept = t.members from h.kept]
  funext g
  by_cases hg : g = grp
  · rw [hg, hempty, members, hhandles, if_neg (Finset.notMem_erase grp _)]
  · rw [members, members, hhandles, hgroups]
    simp only [Finset.mem_erase, ne_eq, hg, not_false_eq_true, true_and]

end InStep

/-- **Step lemma.**  A step that deletes no group with members keeps the selector in step. -/
theorem InStep.step {s s' : MatchTableIndirectWS K S × SelectorGroups} (h : InStep s)
    {op : IndirectWSOp} (hop : DeletesEmptied s op) (hstep : selectorStep s op = some s') :
    InStep s' := by
  obtain ⟨t, kept⟩ := s
  obtain ⟨⟨r, t'⟩, hexec, rfl⟩ := Option.map_eq_some_iff.mp hstep
  cases op with
  | addMemberToGroup mbr grp =>
    obtain ⟨⟨res, t₁⟩, hadd, heq⟩ := Option.map_eq_some_iff.mp hexec
    cases heq
    rcases addMemberToGroup_cases hadd with
      ⟨code, rfl, rfl⟩ | ⟨mbrs, rfl, hgrp, hmbrs, hhandles, hgroups⟩
    · exact h
    · exact h.setGroup hhandles hgrp hmbrs (insert mbr) hgroups
  | removeMemberFromGroup mbr grp =>
    obtain ⟨⟨res, t₁⟩, hremove, heq⟩ := Option.map_eq_some_iff.mp hexec
    cases heq
    rcases removeMemberFromGroup_cases hremove with
      ⟨code, rfl, rfl⟩ | ⟨mbrs, rfl, hgrp, hmbrs, hhandles, hgroups⟩
    · exact h
    · exact h.setGroup hhandles hgrp hmbrs (fun mbrs => mbrs.erase mbr) hgroups
  | mbr op =>
    cases exec_effect hexec with
    | mbr _ ht' => exact h.unchanged (by rw [ht']) (by rw [ht'])
    | refused _ ht' => exact ht' ▸ h
  | createGroup =>
    cases exec_effect hexec with
    | refused _ ht' => exact ht' ▸ h
    | groupCreated hgrp hput hindex _ ht' =>
      have hle := Target.isSome_index (x := .grp _) |>.mp (Option.isSome_of_eq_some hindex)
      exact h.created hgrp hput hle (by rw [ht']) (by rw [ht'])
  | deleteGroup grp =>
    cases exec_effect hexec with
    | refused _ ht' => exact ht' ▸ h
    | groupDeleted _ hcount _ _ ht' => exact h.deleted (hop hcount) (by rw [ht']) (by rw [ht'])
  | addEntryWS matchKey grp priority now =>
    cases exec_effect hexec with
    | refused _ ht' => exact ht' ▸ h
    | entryAdded _ _ _ _ _ _ ht' => exact h.unchanged (by rw [ht']) (by rw [ht'])
  | modifyEntryWS handle grp =>
    cases exec_effect hexec with
    | refused _ ht' => exact ht' ▸ h
    | entryModified _ _ _ _ _ _ _ _ ht' => exact h.unchanged (by rw [ht']) (by rw [ht'])
    | entryLost _ _ _ ht' => exact h.unchanged (by rw [ht']) (by rw [ht'])
  | setDefaultGroup grp =>
    cases exec_effect hexec with
    | refused _ ht' => exact ht' ▸ h
    | defaultSet _ _ ht' => exact h.unchanged (by rw [ht']) (by rw [ht'])
  | lookup phv ingressLength ingressTsMs hash =>
    cases exec_effect hexec with
    | refused _ ht' => exact ht' ▸ h
    | lookup _ ht' => exact h.unchanged (by rw [ht']; rfl) (by rw [ht']; rfl)
  | resetState =>
    cases exec_effect hexec with
    | refused hevent ht' => cases hevent
    | reset _ ht' =>
      refine ⟨fun grp hgrp => h.le grp (by rw [ht'] at hgrp; exact hgrp), ?_⟩
      show (fun _ => ∅) = t'.members
      funext grp
      rw [members, ht']
      simp

/-- **The selector and the table have the same groups** in every state that is reached without
deleting a group that has members. -/
theorem selector_in_step (size : ℕ) (kb : MatchKeyBuilder) {t₀ t : MatchTableIndirectWS K S}
    {kept : SelectorGroups} (ops : List IndirectWSOp) (hnew : t₀.IsNew size kb)
    (hops : RunMeets selectorStep DeletesEmptied (t₀, fun _ => ∅) ops)
    (hrun : runFrom selectorStep (t₀, fun _ => ∅) ops = some (t, kept)) :
    ∀ grp, kept grp = if grp ∈ t.grpHandles then (t.groups[grp]?).getD ∅ else ∅ := by
  have hstart : InStep (t₀, fun _ => ∅) := by
    refine ⟨fun grp hgrp => ?_, ?_⟩
    · rw [show (t₀, _).1.grpHandles = ∅ from hnew.grpHandles] at hgrp
      exact absurd hgrp (Finset.notMem_empty grp)
    · funext grp
      show ∅ = t₀.members grp
      rw [members, hnew.grpHandles, if_neg (Finset.notMem_empty grp)]
  have hend : InStep (t, kept) := runFrom_invariant_of_meets (I := InStep)
    (fun _ _ _ h hop hstep => h.step hop hstep) hstart hops hrun
  exact fun grp => congrFun hend.kept grp

/-- A table before its first operation. -/
def emptyTable : MatchTableIndirectWS ExactMatchKey ExactMap where
  matchUnit := {
    size := 2, nbytesKey := 1
    matchKeyBuilder := (MatchKeyBuilder.pushBackField {} 0 0 8 .exact).build
    entryMeta := List.replicate 2 {}
    entries := List.replicate 2 { key := default, value := default }
    lookupStructure := {} }
  withCounters := true
  withAgeing := true
  nextNodes _ := some none

theorem isNew_emptyTable : emptyTable.IsNew 2 (MatchKeyBuilder.pushBackField {} 0 0 8 .exact) :=
  ⟨⟨rfl, rfl, rfl, rfl, rfl, rfl⟩, rfl, rfl⟩

theorem selector_in_step_one_member : ∃ t kept,
    runFrom selectorStep (emptyTable, fun _ => ∅) [.mbr (.addMember 7 []), .createGroup,
      .addMemberToGroup 0 0] = some (t, kept) ∧ t.groups[0]? = some {0} ∧
    ∀ grp, kept grp = if grp ∈ t.grpHandles then (t.groups[grp]?).getD ∅ else ∅ :=
  ⟨_, _, rfl, rfl, selector_in_step 2 _ [.mbr (.addMember 7 []), .createGroup,
    .addMemberToGroup 0 0] isNew_emptyTable
      ⟨trivial, fun _ _ => ⟨trivial, fun _ _ => ⟨trivial, fun _ _ => trivial⟩⟩⟩ rfl⟩

/-- **A group is deleted with its member**, and the selector takes the new group that gets its
handle for the old one. -/
theorem selector_keeps_deleted_member :
    (runFrom selectorStep (emptyTable, fun _ => ∅) [.mbr (.addMember 7 []), .createGroup,
      .addMemberToGroup 0 0, .deleteGroup 0, .createGroup]).map
      (fun (t, kept) => (t.grpHandles, t.groups[0]?, kept 0)) = some ({0}, some ∅, {0}) := by
  decide +kernel

end MatchTableIndirectWS

end Bm
