/-
# Indirect tables, operation by operation

What an index refers to, how the reference counts change, and what each operation on an
indirect table does: it fails and changes nothing, or it has one of the effects listed.
-/
import Bmv2.IndirectTables
import Bmv2.TableSpec

namespace Bm

/-! ## Arrays that grow -/

section PutAt

variable {α : Type} {v v' : List α} {i : ℕ} {x : α}

theorem putAt_eq_some : putAt v i x = some v' ↔
    i ≤ v.length ∧ v' = if i = v.length then v ++ [x] else v.set i x := by
  unfold putAt
  split <;> simp_all [eq_comm]

theorem getElem?_putAt (h : putAt v i x = some v') :
    (fun j => v'[j]?) = Function.update (fun j => v[j]?) i (some x) := by
  obtain ⟨hle, rfl⟩ := putAt_eq_some.mp h
  funext j
  rw [Function.update_apply]
  split
  · rename_i hi
    subst hi
    split
    · rename_i hj
      rw [hj, List.getElem?_concat_length]
    · rename_i hj
      rw [List.getElem?_append]
      split
      · rfl
      · rw [List.getElem?_eq_none (by simp; omega), List.getElem?_eq_none (by omega)]
  · rename_i hi
    split
    · rename_i hj
      rw [hj, List.getElem?_set_self (by omega)]
    · rename_i hj
      rw [List.getElem?_set_ne (Ne.symm hj)]

theorem length_putAt (h : putAt v i x = some v') : v'.length = max v.length (i + 1) := by
  obtain ⟨hle, rfl⟩ := putAt_eq_some.mp h
  split
  · rename_i hi
    simp [hi]
  · rw [List.length_set]
    omega

end PutAt

/-! ## What an index refers to -/

/-- A member or a group. -/
inductive Target where
  | mbr (mbr : ℕ)
  | grp (grp : ℕ)
  deriving DecidableEq

namespace Target

/-- The number of the member or group. -/
def num : Target → ℕ
  | mbr i => i
  | grp g => g

/-- The index of the member or group, when there is one. -/
def index : Target → Option IndirectIndex
  | mbr i => IndirectIndex.makeMbrIndex i
  | grp g => IndirectIndex.makeGrpIndex g

/-- The member or group is in use. -/
def Live (mbrHandles grpHandles : HandleMgr) : Target → Prop
  | mbr i => i ∈ mbrHandles
  | grp g => g ∈ grpHandles

theorem isSome_index {x : Target} : x.index.isSome ↔ x.num ≤ IndirectIndex.indexMask := by
  cases x with
  | mbr i =>
    show (IndirectIndex.makeMbrIndex i).isSome ↔ i ≤ _
    rw [IndirectIndex.makeMbrIndex]
    split <;> simp_all
  | grp g =>
    show (IndirectIndex.makeGrpIndex g).isSome ↔ g ≤ _
    rw [IndirectIndex.makeGrpIndex]
    split <;> simp_all

/-- An index tells what it refers to. -/
theorem index_spec {x : Target} {index : IndirectIndex} (h : x.index = some index) :
    index.get = x.num ∧ index.isMbr = (match x with | mbr _ => true | grp _ => false) ∧
      index.isGrp = (match x with | mbr _ => false | grp _ => true) := by
  have hget : ∀ n, n &&& IndirectIndex.indexMask = n % 2 ^ 24 := fun n =>
    Nat.and_two_pow_sub_one_eq_mod n 24
  cases x with
  | mbr i =>
    replace h : IndirectIndex.makeMbrIndex i = some index := h
    rw [IndirectIndex.makeMbrIndex] at h
    split at h
    · rename_i hle
      replace hle : i < 2 ^ 24 := by rw [IndirectIndex.indexMask] at hle; omega
      cases h
      simp only [IndirectIndex.get, IndirectIndex.isMbr, IndirectIndex.isGrp, hget, Nat.zero_shiftLeft,
        Nat.zero_or, Nat.shiftRight_eq_div_pow, Nat.div_eq_of_lt hle, Nat.mod_eq_of_lt hle]
      exact ⟨rfl, by decide, by decide⟩
    · cases h
  | grp g =>
    replace h : IndirectIndex.makeGrpIndex g = some index := h
    rw [IndirectIndex.makeGrpIndex] at h
    split at h
    · rename_i hle
      replace hle : g < 2 ^ 24 := by rw [IndirectIndex.indexMask] at hle; omega
      cases h
      have hor : (0x01 <<< 24) ||| g = 2 ^ 24 + g := (Nat.shiftLeft_add_eq_or_of_lt hle 1).symm
      have hdiv : (2 ^ 24 + g) / 2 ^ 24 = 1 := by omega
      have hmod : (2 ^ 24 + g) % 2 ^ 24 = g := by omega
      simp only [IndirectIndex.get, IndirectIndex.isMbr, IndirectIndex.isGrp, hget, hor,
        Nat.shiftRight_eq_div_pow, hdiv, hmod]
      exact ⟨rfl, by decide, by decide⟩
    · cases h

theorem index_inj {x y : Target} {index : IndirectIndex} (hx : x.index = some index)
    (hy : y.index = some index) : x = y := by
  obtain ⟨hid, hmbr, -⟩ := index_spec hx
  obtain ⟨hid', hmbr', -⟩ := index_spec hy
  rw [hid] at hid'
  rw [hmbr] at hmbr'
  cases x <;> cases y
  · exact congrArg mbr hid'
  · cases hmbr'
  · cases hmbr'
  · exact congrArg grp hid'

end Target

/-! ## Reference counts -/

namespace IndirectIndexRefCount

variable {rc rc' : IndirectIndexRefCount} {x : Target} {index : IndirectIndex}

/-- The count of a member or group. -/
def count (rc : IndirectIndexRefCount) : Target → Option ℕ
  | .mbr i => rc.mbrCount[i]?
  | .grp g => rc.grpCount[g]?

theorem get_eq (hx : x.index = some index) : rc.get index = rc.count x := by
  obtain ⟨hid, hmbr, -⟩ := Target.index_spec hx
  cases x <;> simp_all [get, counts, count, Target.num]

/-- Replacing the count of one member or group. -/
theorem count_withCounts (hx : x.index = some index) {v : List ℕ} {c : ℕ}
    (hv : (fun j => v[j]?) = Function.update (fun j => (rc.counts index)[j]?) x.num (some c)) :
    (rc.withCounts index v).count = Function.update rc.count x (some c) := by
  obtain ⟨hid, hmbr, -⟩ := Target.index_spec hx
  funext y
  cases x with
  | mbr i =>
    cases y with
    | mbr j =>
      have hj := congrFun hv j
      simp only [counts, hmbr, if_true] at hj
      simp only [withCounts, hmbr, if_true, count]
      rw [hj]
      simp [Function.update_apply, Target.num, count]
    | grp g => simp [withCounts, hmbr, count]
  | grp i =>
    cases y with
    | mbr j => simp [withCounts, hmbr, count]
    | grp j =>
      have hj := congrFun hv j
      simp only [counts, hmbr, Bool.false_eq_true, if_false] at hj
      simp only [withCounts, hmbr, Bool.false_eq_true, if_false, count]
      rw [hj]
      simp [Function.update_apply, Target.num, count]

theorem count_set (hx : x.index = some index) {value : ℕ} (h : rc.set index value = some rc') :
    rc'.count = Function.update rc.count x (some value) := by
  obtain ⟨v, hv, rfl⟩ := Option.map_eq_some_iff.mp h
  rw [(Target.index_spec hx).1] at hv
  exact count_withCounts hx (getElem?_putAt hv)

/-- Writing at an index in range. -/
theorem count_withCounts_set (hx : x.index = some index) {c₀ c : ℕ} (hc₀ : rc.get index = some c₀) :
    (rc.withCounts index ((rc.counts index).set index.get c)).count =
      Function.update rc.count x (some c) := by
  refine count_withCounts hx ?_
  obtain ⟨hlt, -⟩ := List.getElem?_eq_some_iff.mp hc₀
  funext j
  rw [(Target.index_spec hx).1] at hlt ⊢
  rw [Function.update_apply]
  split
  · rename_i hj
    rw [hj, List.getElem?_set_self hlt]
  · rename_i hj
    rw [List.getElem?_set_ne (Ne.symm hj)]

theorem count_increase (hx : x.index = some index) (h : rc.increase index = some rc') :
    ∃ c, rc.count x = some c ∧ rc'.count = Function.update rc.count x (some ((c + 1) % 2 ^ 32)) := by
  obtain ⟨c, hc, heq⟩ := Option.bind_eq_some_iff.mp h
  cases heq
  exact ⟨c, (get_eq hx).symm.trans hc, count_withCounts_set hx hc⟩

theorem count_decrease (hx : x.index = some index) (h : rc.decrease index = some rc') :
    ∃ c, rc.count x = some c ∧ rc'.count = Function.update rc.count x (some ((c + (2 ^ 32 - 1)) % 2 ^ 32)) := by
  obtain ⟨c, hc, heq⟩ := Option.bind_eq_some_iff.mp h
  cases heq
  exact ⟨c, (get_eq hx).symm.trans hc, count_withCounts_set hx hc⟩

end IndirectIndexRefCount

open MatchUnit

variable {K S : Type} [MatchKey K] [LookupStructure K S]

/-! ## Operations on members and entries -/

/-- What an operation on members and entries does. -/
inductive MemberEffect (t t' : MatchTableIndirect K S) : MemberOp → TableResult → Prop
  | abstract {op r base} (hexec : t.toMatchTableAbstract.exec op = some (r, base))
      (ht' : t' = { t with toMatchTableAbstract := base }) : MemberEffect t t' (.abstract op) r
  | refused {op r} (hevent : op.event r = .none) (ht' : t' = t) : MemberEffect t t' op r
  | memberAdded {actionFn actionData mbr actionEntry actionEntries index indexRefCount}
      (hmbr : mbr = lowestFree t.mbrHandles % 2 ^ 32) (hindex : (Target.mbr mbr).index = some index)
      (hput : putAt t.actionEntries mbr actionEntry = some actionEntries)
      (hrc : t.indexRefCount.set index 0 = some indexRefCount)
      (ht' : t' = { t with
        mbrHandles := insert (lowestFree t.mbrHandles) t.mbrHandles
        actionEntries, indexRefCount, numMembers := t.numMembers + 1 }) :
      MemberEffect t t' (.addMember actionFn actionData) (.handle (.ok mbr))
  | memberDeleted {mbr} (hmem : mbr ∈ t.mbrHandles)
      (hcount : t.indexRefCount.count (.mbr mbr) = some 0)
      (ht' : t' = { t with
        mbrHandles := t.mbrHandles.erase mbr, numMembers := t.numMembers - 1 }) :
      MemberEffect t t' (.deleteMember mbr) (.done (.ok ()))
  | memberModified {mbr actionFn actionData actionEntry} (hmem : mbr ∈ t.mbrHandles)
      (ht' : t' = { t with actionEntries := t.actionEntries.set mbr actionEntry }) :
      MemberEffect t t' (.modifyMember mbr actionFn actionData) (.done (.ok ()))
  | entryAdded {matchKey mbr priority now res index indexRefCount matchUnit}
      (hmem : mbr ∈ t.mbrHandles) (hindex : (Target.mbr mbr).index = some index)
      (hrc : t.indexRefCount.increase index = some indexRefCount)
      (hadd : t.matchUnit.addEntry matchKey index priority now = some (res, matchUnit))
      (ht' : t' = { t with indexRefCount, matchUnit }) :
      MemberEffect t t' (.addEntry matchKey mbr priority now) (.handle res)
  | entryDeleted {handle res index indexRefCount matchUnit}
      (hvalue : t.matchUnit.getValue handle = some (.ok index))
      (hrc : t.indexRefCount.decrease index = some indexRefCount)
      (hdelete : t.matchUnit.deleteEntry handle = some (res, matchUnit))
      (ht' : t' = { t with indexRefCount, matchUnit }) :
      MemberEffect t t' (.deleteEntry handle) (.done res)
  | entryModified {handle mbr res old rc index indexRefCount matchUnit}
      (hvalue : t.matchUnit.getValue handle = some (.ok old))
      (hdec : t.indexRefCount.decrease old = some rc) (hmem : mbr ∈ t.mbrHandles)
      (hindex : (Target.mbr mbr).index = some index) (hinc : rc.increase index = some indexRefCount)
      (hmodify : t.matchUnit.modifyEntry handle index = some (res, matchUnit))
      (ht' : t' = { t with indexRefCount, matchUnit }) :
      MemberEffect t t' (.modifyEntry handle mbr) (.done res)
  | entryLost {handle mbr code old indexRefCount}
      (hvalue : t.matchUnit.getValue handle = some (.ok old))
      (hdec : t.indexRefCount.decrease old = some indexRefCount) (hmem : mbr ∉ t.mbrHandles)
      (ht' : t' = { t with indexRefCount }) :
      MemberEffect t t' (.modifyEntry handle mbr) (.done (.error code))
  | defaultSet {mbr index} (hmem : mbr ∈ t.mbrHandles) (hindex : (Target.mbr mbr).index = some index)
      (ht' : t' = { t with defaultIndex := index, defaultSet := true }) :
      MemberEffect t t' (.setDefaultMember mbr) (.done (.ok ()))

namespace MatchTableIndirect

variable {t t' : MatchTableIndirect K S} {r : TableResult}

omit [MatchKey K] [LookupStructure K S] in
theorem isValidMbr_eq (t : MatchTableIndirect K S) (mbr : ℕ) :
    (!t.isValidMbr mbr) = true ↔ mbr ∉ t.mbrHandles := by simp [isValidMbr]

theorem addMember_effect {actionFn : ℕ} {actionData : List ℕ} {res : Except MatchErrorCode ℕ}
    (h : t.addMember actionFn actionData = some (res, t')) :
    MemberEffect t t' (.addMember actionFn actionData) (.handle res) := by
  obtain ⟨nextNode, -, h⟩ := Option.bind_eq_some_iff.mp h
  split at h
  · cases h
    exact .refused rfl rfl
  · rename_i mbr mbrHandles hget
    obtain ⟨-, rfl, rfl⟩ := HandleMgr.getHandle_eq_some.mp hget
    obtain ⟨t₁, hinsert, h⟩ := Option.bind_eq_some_iff.mp h
    obtain ⟨actionEntries, hput, hinsert⟩ := Option.bind_eq_some_iff.mp hinsert
    obtain ⟨index, hindex, hinsert⟩ := Option.bind_eq_some_iff.mp hinsert
    obtain ⟨rc, hrc, hinsert⟩ := Option.bind_eq_some_iff.mp hinsert
    cases hinsert
    cases h
    exact .memberAdded rfl hindex hput hrc rfl

theorem deleteMember_effect {mbr : ℕ} {res : Except MatchErrorCode Unit}
    (h : t.deleteMember mbr = some (res, t')) : MemberEffect t t' (.deleteMember mbr) (.done res) := by
  rw [deleteMember] at h
  by_cases hmem : mbr ∈ t.mbrHandles
  · rw [if_neg (by rwa [isValidMbr_eq, not_not])] at h
    obtain ⟨index, hindex, h⟩ := Option.bind_eq_some_iff.mp h
    obtain ⟨c, hc, h⟩ := Option.bind_eq_some_iff.mp h
    split at h
    · cases h
      exact .refused rfl rfl
    · rename_i hpos
      obtain rfl : c = 0 := by omega
      rw [HandleMgr.releaseHandle, if_pos hmem] at h
      cases h
      exact .memberDeleted hmem
        ((IndirectIndexRefCount.get_eq (x := .mbr mbr) hindex).symm.trans hc) rfl
  · rw [if_pos (by rwa [isValidMbr_eq])] at h
    cases h
    exact .refused rfl rfl

theorem modifyMember_effect {mbr actionFn : ℕ} {actionData : List ℕ} {res : Except MatchErrorCode Unit}
    (h : t.modifyMember mbr actionFn actionData = some (res, t')) :
    MemberEffect t t' (.modifyMember mbr actionFn actionData) (.done res) := by
  obtain ⟨nextNode, -, h⟩ := Option.bind_eq_some_iff.mp h
  split at h
  · cases h
    exact .refused rfl rfl
  · rename_i hmem
    rw [isValidMbr_eq, not_not] at hmem
    split at h
    · cases h
      exact .memberModified hmem rfl
    · cases h

theorem addEntry_effect {matchKey : List MatchKeyParam} {mbr : ℕ} {priority : Int32} {now : ℕ}
    {res : Except MatchErrorCode ℕ} (h : t.addEntry matchKey mbr priority now = some (res, t')) :
    MemberEffect t t' (.addEntry matchKey mbr priority now) (.handle res) := by
  rw [addEntry] at h
  split at h
  · cases h
    exact .refused rfl rfl
  · rename_i hmem
    rw [isValidMbr_eq, not_not] at hmem
    obtain ⟨index, hindex, h⟩ := Option.bind_eq_some_iff.mp h
    obtain ⟨rc, hrc, h⟩ := Option.bind_eq_some_iff.mp h
    obtain ⟨⟨res, mu⟩, hadd, h⟩ := Option.bind_eq_some_iff.mp h
    cases h
    exact .entryAdded hmem hindex hrc hadd rfl

theorem deleteEntry_effect {handle : ℕ} {res : Except MatchErrorCode Unit}
    (h : t.deleteEntry handle = some (res, t')) :
    MemberEffect t t' (.deleteEntry handle) (.done res) := by
  obtain ⟨value, hvalue, h⟩ := Option.bind_eq_some_iff.mp h
  cases value with
  | error code =>
    cases h
    exact .refused rfl rfl
  | ok index =>
    obtain ⟨rc, hrc, h⟩ := Option.bind_eq_some_iff.mp h
    obtain ⟨⟨res, mu⟩, hdelete, h⟩ := Option.bind_eq_some_iff.mp h
    cases h
    exact .entryDeleted hvalue hrc hdelete rfl

theorem modifyEntry_effect {handle mbr : ℕ} {res : Except MatchErrorCode Unit}
    (h : t.modifyEntry handle mbr = some (res, t')) :
    MemberEffect t t' (.modifyEntry handle mbr) (.done res) := by
  obtain ⟨value, hvalue, h⟩ := Option.bind_eq_some_iff.mp h
  cases value with
  | error code =>
    cases h
    exact .refused rfl rfl
  | ok old =>
    obtain ⟨rc, hdec, h⟩ := Option.bind_eq_some_iff.mp h
    split at h
    · rename_i hmem
      rw [isValidMbr_eq] at hmem
      cases h
      exact .entryLost hvalue hdec hmem rfl
    · rename_i hmem
      rw [isValidMbr_eq, not_not] at hmem
      obtain ⟨index, hindex, h⟩ := Option.bind_eq_some_iff.mp h
      obtain ⟨rc', hinc, h⟩ := Option.bind_eq_some_iff.mp h
      obtain ⟨⟨res, mu⟩, hmodify, h⟩ := Option.bind_eq_some_iff.mp h
      cases h
      exact .entryModified hvalue hdec hmem hindex hinc hmodify rfl

theorem setDefaultMember_effect {mbr : ℕ} {res : Except MatchErrorCode Unit}
    (h : t.setDefaultMember mbr = some (res, t')) :
    MemberEffect t t' (.setDefaultMember mbr) (.done res) := by
  rw [setDefaultMember] at h
  split at h
  · cases h
    exact .refused rfl rfl
  · rename_i hmem
    rw [isValidMbr_eq, not_not] at hmem
    obtain ⟨index, hindex, h⟩ := Option.bind_eq_some_iff.mp h
    cases h
    exact .defaultSet hmem hindex rfl

/-- **What one operation on members and entries does.** -/
theorem execMember_effect {op : MemberOp} (hexec : t.execMember op = some (r, t')) :
    MemberEffect t t' op r := by
  cases op with
  | abstract op =>
    obtain ⟨⟨r₀, base⟩, hbase, heq⟩ := Option.map_eq_some_iff.mp hexec
    cases heq
    exact .abstract hbase rfl
  | addMember actionFn actionData =>
    obtain ⟨⟨res, t₀⟩, h, heq⟩ := Option.map_eq_some_iff.mp hexec
    cases heq
    exact addMember_effect h
  | deleteMember mbr =>
    obtain ⟨⟨res, t₀⟩, h, heq⟩ := Option.map_eq_some_iff.mp hexec
    cases heq
    exact deleteMember_effect h
  | modifyMember mbr actionFn actionData =>
    obtain ⟨⟨res, t₀⟩, h, heq⟩ := Option.map_eq_some_iff.mp hexec
    cases heq
    exact modifyMember_effect h
  | addEntry matchKey mbr priority now =>
    obtain ⟨⟨res, t₀⟩, h, heq⟩ := Option.map_eq_some_iff.mp hexec
    cases heq
    exact addEntry_effect h
  | deleteEntry handle =>
    obtain ⟨⟨res, t₀⟩, h, heq⟩ := Option.map_eq_some_iff.mp hexec
    cases heq
    exact deleteEntry_effect h
  | modifyEntry handle mbr =>
    obtain ⟨⟨res, t₀⟩, h, heq⟩ := Option.map_eq_some_iff.mp hexec
    cases heq
    exact modifyEntry_effect h
  | setDefaultMember mbr =>
    obtain ⟨⟨res, t₀⟩, h, heq⟩ := Option.map_eq_some_iff.mp hexec
    cases heq
    exact setDefaultMember_effect h

omit [MatchKey K] in
/-- A lookup changes meta data only. -/
theorem lookup_effect {phv : PHV} {ingressLength ingressTsMs : ℕ} {res : ActionEntry × Option ℕ}
    (h : t.lookup phv ingressLength ingressTsMs = some (res, t')) :
    ∃ matchUnit, SameEntries t.matchUnit matchUnit ∧ t' = t.withUnit matchUnit := by
  obtain ⟨⟨res, mu⟩, hmu, h⟩ := Option.bind_eq_some_iff.mp h
  refine ⟨mu, lookup_same hmu, ?_⟩
  dsimp only at h
  split at h
  · cases h
    rfl
  · obtain ⟨mbr, -, h⟩ := Option.bind_eq_some_iff.mp h
    split at h
    · obtain ⟨actionEntry, -, h⟩ := Option.bind_eq_some_iff.mp h
      cases h
      rfl
    · cases h

end MatchTableIndirect

/-! ## Operations on groups -/

/-- What an operation on a table with groups does. -/
inductive GroupEffect [Inhabited K] (t t' : MatchTableIndirectWS K S) : IndirectWSOp → TableResult → Prop
  | mbr {op r base} (heffect : MemberEffect t.toMatchTableIndirect base op r)
      (ht' : t' = { t with toMatchTableIndirect := base }) : GroupEffect t t' (.mbr op) r
  | refused {op r} (hevent : op.event r = .none) (ht' : t' = t) : GroupEffect t t' op r
  | groupCreated {grp index groups indexRefCount} (hgrp : grp = lowestFree t.grpHandles % 2 ^ 32)
      (hput : putAt t.groups grp ∅ = some groups) (hindex : (Target.grp grp).index = some index)
      (hrc : t.indexRefCount.set index 0 = some indexRefCount)
      (ht' : t' = { t with
        grpHandles := insert (lowestFree t.grpHandles) t.grpHandles
        groups, indexRefCount, numGroups := t.numGroups + 1 }) :
      GroupEffect t t' .createGroup (.handle (.ok grp))
  | groupDeleted {grp mbrs indexRefCount} (hmem : grp ∈ t.grpHandles)
      (hcount : t.indexRefCount.count (.grp grp) = some 0) (hmbrs : t.groups[grp]? = some mbrs)
      (hrc : MatchTableIndirectWS.decreaseMembers t.indexRefCount (mbrs.sort (· ≤ ·)) =
        some indexRefCount)
      (ht' : t' = { t with
        indexRefCount, grpHandles := t.grpHandles.erase grp, numGroups := t.numGroups - 1 }) :
      GroupEffect t t' (.deleteGroup grp) (.done (.ok ()))
  | mbrPut {mbr grp mbrs index indexRefCount} (hmbr : mbr ∈ t.mbrHandles) (hgrp : grp ∈ t.grpHandles)
      (hmbrs : t.groups[grp]? = some mbrs) (hnew : mbr ∉ mbrs)
      (hindex : (Target.mbr mbr).index = some index)
      (hrc : t.indexRefCount.increase index = some indexRefCount)
      (ht' : t' = { t with groups := t.groups.set grp (insert mbr mbrs), indexRefCount }) :
      GroupEffect t t' (.addMemberToGroup mbr grp) (.done (.ok ()))
  | mbrTaken {mbr grp mbrs index indexRefCount} (hmbr : mbr ∈ t.mbrHandles) (hgrp : grp ∈ t.grpHandles)
      (hmbrs : t.groups[grp]? = some mbrs) (hold : mbr ∈ mbrs)
      (hindex : (Target.mbr mbr).index = some index)
      (hrc : t.indexRefCount.decrease index = some indexRefCount)
      (ht' : t' = { t with groups := t.groups.set grp (mbrs.erase mbr), indexRefCount }) :
      GroupEffect t t' (.removeMemberFromGroup mbr grp) (.done (.ok ()))
  | entryAdded {matchKey grp mbrs priority now res index indexRefCount matchUnit}
      (hmem : grp ∈ t.grpHandles) (hmbrs : t.groups[grp]? = some mbrs) (hne : mbrs.Nonempty)
      (hindex : (Target.grp grp).index = some index)
      (hrc : t.indexRefCount.increase index = some indexRefCount)
      (hadd : t.matchUnit.addEntry matchKey index priority now = some (res, matchUnit))
      (ht' : t' = { t with indexRefCount, matchUnit }) :
      GroupEffect t t' (.addEntryWS matchKey grp priority now) (.handle res)
  | entryModified {handle grp mbrs res old rc index indexRefCount matchUnit}
      (hvalue : t.matchUnit.getValue handle = some (.ok old))
      (hdec : t.indexRefCount.decrease old = some rc) (hmem : grp ∈ t.grpHandles)
      (hmbrs : t.groups[grp]? = some mbrs) (hne : mbrs.Nonempty)
      (hindex : (Target.grp grp).index = some index) (hinc : rc.increase index = some indexRefCount)
      (hmodify : t.matchUnit.modifyEntry handle index = some (res, matchUnit))
      (ht' : t' = { t with indexRefCount, matchUnit }) :
      GroupEffect t t' (.modifyEntryWS handle grp) (.done res)
  | entryLost {handle grp code old indexRefCount}
      (hvalue : t.matchUnit.getValue handle = some (.ok old))
      (hdec : t.indexRefCount.decrease old = some indexRefCount)
      (hbad : grp ∉ t.grpHandles ∨ t.groups[grp]? = some ∅) (ht' : t' = { t with indexRefCount }) :
      GroupEffect t t' (.modifyEntryWS handle grp) (.done (.error code))
  | defaultSet {grp index} (hmem : grp ∈ t.grpHandles) (hindex : (Target.grp grp).index = some index)
      (ht' : t' = { t with defaultIndex := index, defaultSet := true }) :
      GroupEffect t t' (.setDefaultGroup grp) (.done (.ok ()))
  | lookup {phv ingressLength ingressTsMs h r matchUnit} (hsame : SameEntries t.matchUnit matchUnit)
      (ht' : t' = t.withUnit matchUnit) :
      GroupEffect t t' (.lookup phv ingressLength ingressTsMs h) r
  | reset {r base} (hreset : t.toMatchTableIndirect.resetState = some base)
      (ht' : t' = { t with toMatchTableIndirect := base, numGroups := 0, groups := [] }) :
      GroupEffect t t' .resetState r

namespace MatchTableIndirectWS

variable [Inhabited K] {t t' : MatchTableIndirectWS K S} {r : TableResult}

omit [MatchKey K] [LookupStructure K S] [Inhabited K] in
theorem isValidGrp_eq (t : MatchTableIndirectWS K S) (grp : ℕ) :
    (!t.isValidGrp grp) = true ↔ grp ∉ t.grpHandles := by simp [isValidGrp]

omit [MatchKey K] [LookupStructure K S] [Inhabited K] in
theorem groupSize_eq {grp n : ℕ} (h : t.groupSize grp = some n) :
    ∃ mbrs, t.groups[grp]? = some mbrs ∧ mbrs.card = n := Option.map_eq_some_iff.mp h

theorem createGroup_effect {res : Except MatchErrorCode ℕ} (h : t.createGroup = some (res, t')) :
    GroupEffect t t' .createGroup (.handle res) := by
  rw [createGroup] at h
  split at h
  · cases h
    exact .refused rfl rfl
  · rename_i grp grpHandles hget
    obtain ⟨-, rfl, rfl⟩ := HandleMgr.getHandle_eq_some.mp hget
    obtain ⟨groups, hput, h⟩ := Option.bind_eq_some_iff.mp h
    obtain ⟨index, hindex, h⟩ := Option.bind_eq_some_iff.mp h
    obtain ⟨rc, hrc, h⟩ := Option.bind_eq_some_iff.mp h
    cases h
    exact .groupCreated rfl hput hindex hrc rfl

theorem deleteGroup_effect {grp : ℕ} {res : Except MatchErrorCode Unit}
    (h : t.deleteGroup grp = some (res, t')) : GroupEffect t t' (.deleteGroup grp) (.done res) := by
  rw [deleteGroup] at h
  split at h
  · cases h
    exact .refused rfl rfl
  · rename_i hmem
    rw [isValidGrp_eq, not_not] at hmem
    obtain ⟨index, hindex, h⟩ := Option.bind_eq_some_iff.mp h
    obtain ⟨c, hc, h⟩ := Option.bind_eq_some_iff.mp h
    split at h
    · cases h
      exact .refused rfl rfl
    · rename_i hpos
      obtain rfl : c = 0 := by omega
      obtain ⟨mbrs, hmbrs, h⟩ := Option.bind_eq_some_iff.mp h
      obtain ⟨rc, hrc, h⟩ := Option.bind_eq_some_iff.mp h
      rw [HandleMgr.releaseHandle, if_pos hmem] at h
      cases h
      exact .groupDeleted hmem
        ((IndirectIndexRefCount.get_eq (x := .grp grp) hindex).symm.trans hc) hmbrs hrc rfl

theorem addMemberToGroup_effect {mbr grp : ℕ} {res : Except MatchErrorCode Unit}
    (h : t.addMemberToGroup mbr grp = some (res, t')) :
    GroupEffect t t' (.addMemberToGroup mbr grp) (.done res) := by
  rw [addMemberToGroup] at h
  split at h
  · cases h
    exact .refused rfl rfl
  · rename_i hmbr
    rw [MatchTableIndirect.isValidMbr_eq, not_not] at hmbr
    split at h
    · cases h
      exact .refused rfl rfl
    · rename_i hgrp
      rw [isValidGrp_eq, not_not] at hgrp
      obtain ⟨mbrs, hmbrs, h⟩ := Option.bind_eq_some_iff.mp h
      split at h
      · cases h
        exact .refused rfl rfl
      · rename_i hnew
        obtain ⟨index, hindex, h⟩ := Option.bind_eq_some_iff.mp h
        obtain ⟨rc, hrc, h⟩ := Option.bind_eq_some_iff.mp h
        cases h
        exact .mbrPut hmbr hgrp hmbrs hnew hindex hrc rfl

theorem removeMemberFromGroup_effect {mbr grp : ℕ} {res : Except MatchErrorCode Unit}
    (h : t.removeMemberFromGroup mbr grp = some (res, t')) :
    GroupEffect t t' (.removeMemberFromGroup mbr grp) (.done res) := by
  rw [removeMemberFromGroup] at h
  split at h
  · cases h
    exact .refused rfl rfl
  · rename_i hmbr
    rw [MatchTableIndirect.isValidMbr_eq, not_not] at hmbr
    split at h
    · cases h
      exact .refused rfl rfl
    · rename_i hgrp
      rw [isValidGrp_eq, not_not] at hgrp
      obtain ⟨mbrs, hmbrs, h⟩ := Option.bind_eq_some_iff.mp h
      split at h
      · rename_i hold
        obtain ⟨index, hindex, h⟩ := Option.bind_eq_some_iff.mp h
        obtain ⟨rc, hrc, h⟩ := Option.bind_eq_some_iff.mp h
        cases h
        exact .mbrTaken hmbr hgrp hmbrs hold hindex hrc rfl
      · cases h
        exact .refused rfl rfl

theorem addEntryWS_effect {matchKey : List MatchKeyParam} {grp : ℕ} {priority : Int32} {now : ℕ}
    {res : Except MatchErrorCode ℕ} (h : t.addEntryWS matchKey grp priority now = some (res, t')) :
    GroupEffect t t' (.addEntryWS matchKey grp priority now) (.handle res) := by
  rw [addEntryWS] at h
  split at h
  · cases h
    exact .refused rfl rfl
  · rename_i hmem
    rw [isValidGrp_eq, not_not] at hmem
    obtain ⟨n, hn, h⟩ := Option.bind_eq_some_iff.mp h
    obtain ⟨mbrs, hmbrs, rfl⟩ := groupSize_eq hn
    split at h
    · cases h
      exact .refused rfl rfl
    · rename_i hne
      obtain ⟨index, hindex, h⟩ := Option.bind_eq_some_iff.mp h
      obtain ⟨rc, hrc, h⟩ := Option.bind_eq_some_iff.mp h
      obtain ⟨⟨res, mu⟩, hadd, h⟩ := Option.bind_eq_some_iff.mp h
      cases h
      exact .entryAdded hmem hmbrs (Finset.card_ne_zero.mp hne) hindex hrc hadd rfl

theorem modifyEntryWS_effect {handle grp : ℕ} {res : Except MatchErrorCode Unit}
    (h : t.modifyEntryWS handle grp = some (res, t')) :
    GroupEffect t t' (.modifyEntryWS handle grp) (.done res) := by
  obtain ⟨value, hvalue, h⟩ := Option.bind_eq_some_iff.mp h
  cases value with
  | error code =>
    cases h
    exact .refused rfl rfl
  | ok old =>
    obtain ⟨rc, hdec, h⟩ := Option.bind_eq_some_iff.mp h
    split at h
    · rename_i hmem
      rw [isValidGrp_eq] at hmem
      cases h
      exact .entryLost hvalue hdec (.inl hmem) rfl
    · rename_i hmem
      rw [isValidGrp_eq, not_not] at hmem
      obtain ⟨n, hn, h⟩ := Option.bind_eq_some_iff.mp h
      obtain ⟨mbrs, hmbrs, rfl⟩ := groupSize_eq hn
      split at h
      · rename_i hempty
        rw [Finset.card_eq_zero.mp hempty] at hmbrs
        cases h
        exact .entryLost hvalue hdec (.inr hmbrs) rfl
      · rename_i hne
        obtain ⟨index, hindex, h⟩ := Option.bind_eq_some_iff.mp h
        obtain ⟨rc', hinc, h⟩ := Option.bind_eq_some_iff.mp h
        obtain ⟨⟨res, mu⟩, hmodify, h⟩ := Option.bind_eq_some_iff.mp h
        cases h
        exact .entryModified hvalue hdec hmem hmbrs (Finset.card_ne_zero.mp hne) hindex hinc hmodify rfl

theorem setDefaultGroup_effect {grp : ℕ} {res : Except MatchErrorCode Unit}
    (h : t.setDefaultGroup grp = some (res, t')) :
    GroupEffect t t' (.setDefaultGroup grp) (.done res) := by
  rw [setDefaultGroup] at h
  split at h
  · cases h
    exact .refused rfl rfl
  · rename_i hmem
    rw [isValidGrp_eq, not_not] at hmem
    obtain ⟨index, hindex, h⟩ := Option.bind_eq_some_iff.mp h
    cases h
    exact .defaultSet hmem hindex rfl

theorem lookup_effect {phv : PHV} {ingressLength ingressTsMs hash : ℕ} {res : ActionEntry × Option ℕ}
    (h : t.lookup phv ingressLength ingressTsMs hash = some (res, t')) :
    GroupEffect t t' (.lookup phv ingressLength ingressTsMs hash) r := by
  obtain ⟨⟨res, mu⟩, hmu, h⟩ := Option.bind_eq_some_iff.mp h
  refine .lookup (lookup_same hmu) ?_
  dsimp only at h
  split at h
  · cases h
    rfl
  · obtain ⟨mbr, -, h⟩ := Option.bind_eq_some_iff.mp h
    split at h
    · obtain ⟨actionEntry, -, h⟩ := Option.bind_eq_some_iff.mp h
      cases h
      rfl
    · cases h

/-- **What one operation on a table with groups does.** -/
theorem exec_effect {op : IndirectWSOp} (hexec : t.exec op = some (r, t')) : GroupEffect t t' op r := by
  cases op with
  | mbr op =>
    obtain ⟨⟨r₀, base⟩, hbase, heq⟩ := Option.map_eq_some_iff.mp hexec
    cases heq
    exact .mbr (MatchTableIndirect.execMember_effect hbase) rfl
  | createGroup =>
    obtain ⟨⟨res, t₀⟩, h, heq⟩ := Option.map_eq_some_iff.mp hexec
    cases heq
    exact createGroup_effect h
  | deleteGroup grp =>
    obtain ⟨⟨res, t₀⟩, h, heq⟩ := Option.map_eq_some_iff.mp hexec
    cases heq
    exact deleteGroup_effect h
  | addMemberToGroup mbr grp =>
    obtain ⟨⟨res, t₀⟩, h, heq⟩ := Option.map_eq_some_iff.mp hexec
    cases heq
    exact addMemberToGroup_effect h
  | removeMemberFromGroup mbr grp =>
    obtain ⟨⟨res, t₀⟩, h, heq⟩ := Option.map_eq_some_iff.mp hexec
    cases heq
    exact removeMemberFromGroup_effect h
  | addEntryWS matchKey grp priority now =>
    obtain ⟨⟨res, t₀⟩, h, heq⟩ := Option.map_eq_some_iff.mp hexec
    cases heq
    exact addEntryWS_effect h
  | modifyEntryWS handle grp =>
    obtain ⟨⟨res, t₀⟩, h, heq⟩ := Option.map_eq_some_iff.mp hexec
    cases heq
    exact modifyEntryWS_effect h
  | setDefaultGroup grp =>
    obtain ⟨⟨res, t₀⟩, h, heq⟩ := Option.map_eq_some_iff.mp hexec
    cases heq
    exact setDefaultGroup_effect h
  | lookup phv ingressLength ingressTsMs hash =>
    obtain ⟨⟨⟨actionEntry, handle⟩, t₀⟩, h, heq⟩ := Option.map_eq_some_iff.mp hexec
    cases heq
    exact lookup_effect h
  | resetState =>
    obtain ⟨t₀, h, heq⟩ := Option.map_eq_some_iff.mp hexec
    cases heq
    obtain ⟨base, hbase, h⟩ := Option.bind_eq_some_iff.mp h
    cases h
    exact .reset hbase rfl

end MatchTableIndirectWS

end Bm
