/-
# Slots that a lookup can return

Slots are handed out lowest first, so the slots that have been in use since the unit was created or reset are
the ones below a bound.  Whatever is deleted, a lookup only returns slots below the bound; that a slot is
in use it does not say.

* `LookupBound`: the law of a lookup structure;
* `MatchUnit.Filled`: the invariant of a unit whose values all have a property.
-/
import Bmv2.MatchUnitInv

namespace Bm

/-- A lookup structure that returns only slots below a bound on the slots that were added. -/
class LookupBound (K : Type) (S : outParam Type) [MatchKey K] [LookupStructure K S]
    [LawfulLookup K S] where
  /-- The structure, for a table and for packet keys of the given sizes, has been given only slots below
  the bound; the keys are those of the slots in use. -/
  Below : ℕ → ℕ → S → (ℕ → Option K) → ℕ → Prop
  below_create : ∀ {size n : ℕ} {s : S}, LookupStructure.create K size n = some s →
    Below size n s (fun _ => none) 0
  below_clear : ∀ {size n b : ℕ} {s s' : S} {keys : ℕ → Option K}, Below size n s keys b →
    LookupStructure.clear K s = some s' → Below size n s' (fun _ => none) 0
  below_addEntry : ∀ {size n b : ℕ} {s s' : S} {keys : ℕ → Option K} {k : K} {i : ℕ},
    Below size n s keys b → LawfulLookup.KeyOk n k → LookupStructure.entryExists s k = some false →
    keys i = none → (∀ j < i, (keys j).isSome) → i < size → i < 2 ^ 64 →
    LookupStructure.addEntry s k i = some s' →
    Below size n s' (Function.update keys i (some k)) (max b (i + 1))
  below_deleteEntry : ∀ {size n b : ℕ} {s s' : S} {keys : ℕ → Option K} {k : K} {i : ℕ},
    Below size n s keys b → keys i = some k → LookupStructure.deleteEntry s k = some s' →
    Below size n s' (Function.update keys i none) b
  lt_of_lookup : ∀ {size n b : ℕ} {s : S} {keys : ℕ → Option K} {key : ByteContainer} {i : ℕ},
    Below size n s keys b → (∀ j, (keys j).isSome → j < b) →
    LookupStructure.lookup K s key = some (some i) → i < b

section Always

variable {K S : Type} [MatchKey K] [LookupStructure K S] [LawfulLookup K S]

/-- A structure from which any key can be deleted holds the keys of the slots in use. -/
@[reducible] def LookupBound.ofAlways (hsafe : ∀ (s : S) (k : K), LawfulLookup.DeletesSafely s k)
    (hlookup : ∀ {size n b : ℕ} {s : S} {keys : ℕ → Option K} {key : ByteContainer} {i : ℕ},
      LawfulLookup.Holds size n s keys → (∀ j, (keys j).isSome → j < b) →
      LookupStructure.lookup K s key = some (some i) → i < b) : LookupBound K S where
  Below size n s keys _ := LawfulLookup.Holds size n s keys
  below_create h := LawfulLookup.holds_create h
  below_clear h hclear := by
    obtain ⟨s', hs', hholds⟩ := LawfulLookup.holds_clear h
    exact Option.some.inj (hs'.symm.trans hclear) ▸ hholds
  below_addEntry h hok hnew hfree hlow hlt hlt64 hadd := by
    obtain ⟨b, hb, hiff⟩ := LawfulLookup.entryExists_iff h hok
    obtain rfl : b = false := Option.some.inj (hb.symm.trans hnew)
    obtain ⟨s', hs', hholds⟩ := LawfulLookup.holds_addEntry h hok
      (fun j k' hk' hsame => by simpa using hiff.mpr ⟨j, k', hk', hsame⟩) hfree hlow hlt hlt64
    exact Option.some.inj (hs'.symm.trans hadd) ▸ hholds
  below_deleteEntry h hk hdelete := by
    obtain ⟨s', hs', hholds⟩ := LawfulLookup.holds_deleteEntry h hk
    exact Option.some.inj (hs'.symm.trans hdelete) ▸ hholds (hsafe _ _)
  lt_of_lookup h hlt hres := hlookup h hlt hres

end Always

instance : LookupBound ExactMatchKey ExactMap :=
  LookupBound.ofAlways (fun _ _ => trivial) fun {_ _ _ _ _ key i} h hlt hres => by
    have hi := (h.iff key i).mp (Option.some.inj hres)
    exact hlt i (by rw [hi, Option.isSome_some])

/-! ## Entry lists -/

section Lists

open LinkedSlots

variable {K : Type} {l : EntryList K} {is : List ℕ}

/-- The handle that a lookup returns is the one of an entry of the list. -/
theorem EntryList.lookupFrom_mem {cmp : K → Option Bool} {before p last : Option ℕ}
    (hseg : Segment l.entries before p is last none) {fuel : ℕ} {minPriority : Int32}
    {best : Option ℕ} {h : ℕ} (hres : l.lookupFrom cmp fuel p minPriority best = some (some h)) :
    best = some h ∨ ∃ i ∈ is, l.handleFromEntry i = some h := by
  induction is generalizing before p fuel minPriority best with
  | nil =>
    obtain ⟨-, rfl⟩ := hseg
    cases fuel <;> exact Or.inl (Option.some.inj hres)
  | cons i is ih =>
    obtain ⟨rfl, node, hnode, -, hrest⟩ := hseg
    cases fuel with
    | zero => cases hres
    | succ fuel =>
      have hlater {minPriority : Int32}
          (hres : l.lookupFrom cmp fuel node.next minPriority best = some (some h)) :
          best = some h ∨ ∃ j ∈ i :: is, l.handleFromEntry j = some h := by
        rcases ih hrest hres with hbest | ⟨j, hj, hhandle⟩
        · exact Or.inl hbest
        · exact Or.inr ⟨j, List.mem_cons_of_mem i hj, hhandle⟩
      rw [EntryList.lookupFrom, hnode] at hres
      simp only [Option.bind_eq_bind, Option.bind_some] at hres
      split at hres
      · exact hlater hres
      · obtain ⟨key, -, hres⟩ := Option.bind_eq_some_iff.mp hres
        obtain ⟨found, -, hres⟩ := Option.bind_eq_some_iff.mp hres
        split at hres
        · obtain ⟨handle, hhandle, hres⟩ := Option.bind_eq_some_iff.mp hres
          rcases ih hrest hres with hbest | ⟨j, hj, hfound⟩
          · obtain rfl := Option.some.inj hbest
            exact Or.inr ⟨i, List.mem_cons_self, hhandle⟩
          · exact Or.inr ⟨j, List.mem_cons_of_mem i hj, hfound⟩
        · exact hlater hres

end Lists

instance (K : Type) [MatchKey K] [ListKey K] [ListKeySpec K] : LookupBound K (EntryMap K) :=
  LookupBound.ofAlways (fun _ _ => trivial) fun {_ _ _ s keys key i} h hlt hres => by
    obtain ⟨is, his⟩ := h.holds
    obtain ⟨last, hseg⟩ := his.segment
    rcases EntryList.lookupFrom_mem hseg hres with hbest | ⟨j, hj, hhandle⟩
    · cases hbest
    · -- the distance from the head is at most the slot
      obtain ⟨low, -, hle, heq⟩ := his.handleFromEntry hj
      have hj' := hlt j ((his.mem_iff j).mp hj)
      obtain rfl := Option.some.inj (heq.symm.trans hhandle)
      omega

/-! ## Tries -/

/-- The values of a trie are below a bound. -/
inductive TrieNode.Below (b : ℕ) : TrieNode → Prop
  | mk {branches : Byte → Option TrieNode} {prefixes : ℕ → Option ℕ} {branchNum prefNum : Byte}
      (hprefixes : ∀ key value, prefixes key = some value → value < b)
      (hbranches : ∀ byte child, branches byte = some child → Below b child) :
      Below b (.mk branches prefixes branchNum prefNum)

namespace TrieNode.Below

variable {b b' value : ℕ} {n : TrieNode}

theorem prefixes (h : n.Below b) {key value : ℕ} (hkey : n.prefixes key = some value) : value < b := by
  obtain ⟨hprefixes, -⟩ := h
  exact hprefixes key value hkey

theorem branches (h : n.Below b) {byte : Byte} {child : TrieNode} (hchild : n.branches byte = some child) :
    child.Below b := by
  obtain ⟨-, hbranches⟩ := h
  exact hbranches byte child hchild

theorem of_parts (hprefixes : ∀ key value, n.prefixes key = some value → value < b)
    (hbranches : ∀ byte child, n.branches byte = some child → child.Below b) : n.Below b := by
  cases n
  exact ⟨hprefixes, hbranches⟩

theorem empty (b : ℕ) : TrieNode.empty.Below b := by
  apply of_parts
  · intro key value h
    cases h
  · intro byte child h
    cases h

theorem mono (h : n.Below b) (hle : b ≤ b') : n.Below b' := by
  induction h with
  | mk hprefixes hbranches ih =>
    exact ⟨fun key value hkey => (hprefixes key value hkey).trans_le hle, ih⟩

theorem setBranch (h : n.Below b) {byte : Byte} {child : TrieNode} (hchild : child.Below b) :
    (n.setBranch byte child).Below b := by
  apply of_parts
  · intro key value hkey
    exact h.prefixes hkey
  · intro byte' child' hbranch
    rw [branches_setBranch] at hbranch
    split at hbranch
    · cases hbranch
      exact hchild
    · exact h.branches hbranch

theorem insert (h : n.Below b) (hvalue : value < b) (bytes : List Byte) (key : ℕ) :
    (n.insert value bytes key).Below b := by
  induction bytes generalizing n with
  | nil =>
    apply of_parts
    · intro key' value' hkey
      rw [TrieNode.insert, prefixes_insertPrefix] at hkey
      split at hkey
      · cases hkey
        exact hvalue
      · exact h.prefixes hkey
    · intro byte child hbranch
      exact h.branches hbranch
  | cons byte bytes ih =>
    rw [TrieNode.insert]
    split
    next child hchild => exact h.setBranch (ih (h.branches hchild))
    next =>
      apply of_parts
      · intro key' value' hkey
        exact h.prefixes hkey
      · intro byte' child' hbranch
        rw [branches_addBranch] at hbranch
        split at hbranch
        · cases hbranch
          exact ih (empty b)
        · exact h.branches hbranch

theorem delete (h : n.Below b) (bytes : List Byte) (key : ℕ) : (n.delete bytes key).1.Below b := by
  induction bytes generalizing n with
  | nil =>
    apply of_parts
    · intro key' value' hkey
      rw [TrieNode.delete, prefixes_deletePrefix] at hkey
      split at hkey
      · cases hkey
      · exact h.prefixes hkey
    · intro byte child hbranch
      exact h.branches hbranch
  | cons byte bytes ih =>
    rw [TrieNode.delete]
    split
    · exact h
    next child hchild =>
      have hdeleted := ih (h.branches hchild)
      dsimp only
      split
      · apply of_parts
        · intro key' value' hkey
          exact h.prefixes hkey
        · intro byte' child' hbranch
          rw [branches_deleteBranch] at hbranch
          split at hbranch
          · cases hbranch
          · exact h.branches hbranch
      · exact h.setBranch hdeleted

theorem longestInByte (h : n.Below b) {byte : Byte} {i : ℕ}
    (hfound : n.longestInByte byte i = some value) : value < b := by
  induction i with
  | zero => cases hfound
  | succ i ih =>
    rw [TrieNode.longestInByte, Option.or_eq_some_iff] at hfound
    rcases hfound with hfound | ⟨-, hfound⟩
    · exact h.prefixes hfound
    · exact ih hfound

theorem lookup (h : n.Below b) {key : List Byte} {found : Option ℕ}
    (hfound : ∀ value, found = some value → value < b)
    (hres : n.lookup key found = some value) : value < b := by
  induction key generalizing n found with
  | nil =>
    rw [TrieNode.lookup, Option.or_eq_some_iff] at hres
    rcases hres with hres | ⟨-, hres⟩
    · exact h.prefixes hres
    · exact hfound value hres
  | cons byte key ih =>
    have hlonger : ∀ value, (n.longestInByte byte 7).or ((n.prefixes 0).or found) = some value →
        value < b := by
      intro value hvalue
      rw [Option.or_eq_some_iff, Option.or_eq_some_iff] at hvalue
      rcases hvalue with hvalue | ⟨-, hvalue | ⟨-, hvalue⟩⟩
      · exact h.longestInByte hvalue
      · exact h.prefixes hvalue
      · exact hfound value hvalue
    rw [TrieNode.lookup] at hres
    split at hres
    next child hchild => exact ih (h.branches hchild) hlonger hres
    next => exact hlonger value hres

end TrieNode.Below

instance : LookupBound LPMMatchKey LPMTrieStructure where
  Below _ _ s _ b := s.trie.root.Below b
  below_create h := by
    obtain ⟨trie, htrie, rfl⟩ := Option.map_eq_some_iff.mp h
    rw [LpmTrie.create] at htrie
    split at htrie
    · cases htrie
      exact .empty 0
    · cases htrie
  below_clear h hclear := by
    obtain ⟨trie, htrie, rfl⟩ := Option.map_eq_some_iff.mp hclear
    rw [LpmTrie.create] at htrie
    split at htrie
    · cases htrie
      exact .empty 0
    · cases htrie
  below_addEntry h _ _ _ _ _ _ hadd := by
    obtain ⟨trie, htrie, rfl⟩ := Option.map_eq_some_iff.mp hadd
    obtain ⟨⟨bytes, key⟩, -, htrie⟩ := Option.bind_eq_some_iff.mp htrie
    cases htrie
    exact (h.mono (le_max_left _ _)).insert (by omega) bytes key
  below_deleteEntry h _ hdelete := by
    obtain ⟨⟨found, trie⟩, htrie, rfl⟩ := Option.map_eq_some_iff.mp hdelete
    obtain ⟨⟨bytes, key⟩, hsplit, -⟩ := Option.bind_eq_some_iff.mp htrie
    rw [LpmTrie.delete_of_split hsplit, Option.some.injEq] at htrie
    split at htrie
    · cases htrie
      exact h
    · split at htrie
      · cases htrie
        exact h.delete bytes key
      · cases htrie
        exact h
  lt_of_lookup h _ hres := by
    change LpmTrie.lookup _ _ = _ at hres
    rw [LpmTrie.lookup] at hres
    split at hres
    · exact h.lookup (fun _ hnone => by cases hnone) (Option.some.inj hres)
    · cases hres

/-! ## Units whose values all have a property -/

/-- The value that an operation writes has the property. -/
def UnitOp.Writes {V : Type} (P : V → Prop) : UnitOp V → Prop
  | .addEntry _ value _ _ | .modifyEntry _ value => P value
  | _ => True

namespace MatchUnit

variable {K V S : Type} [Inhabited K] [Inhabited V] [MatchKey K] [LookupStructure K S]
  [LawfulLookup K S] [LookupBound K S] {P : V → Prop} {fs : List KeyField} {mu mu' : MatchUnit K V S}
  {b : ℕ}

/-- Every slot below the bound has a value with the property. -/
structure Filled [LookupBound K S] (P : V → Prop) (fs : List KeyField) (b : ℕ) (mu : MatchUnit K V S) :
    Prop extends mu.Slots where
  built : mu.matchKeyBuilder.Built fs
  nbytesKey : mu.nbytesKey = mu.matchKeyBuilder.nbytesKey
  below : LookupBound.Below mu.size mu.nbytesKey mu.lookupStructure mu.keys b
  lt_bound : ∀ i ∈ mu.handles, i < b
  values : ∀ i < b, ∃ e, mu.entries[i]? = some e ∧ P e.value

theorem filled_create {size : ℕ} {kb : MatchKeyBuilder} (hfs : MatchKeyBuilder.ofFields fs = some kb)
    (h : create size kb = some mu) : mu.Filled P fs 0 := by
  obtain ⟨hinv, hlive⟩ := inv_create hfs h
  have hkeys : mu.keys = fun _ => none := funext fun i => by rw [keys, hlive, Option.map_none]
  obtain ⟨s, hs, hmu⟩ := Option.bind_eq_some_iff.mp h
  have hn : kb.nbytesKey = mu.nbytesKey := by
    cases hmu
    rfl
  have hbelow := LookupBound.below_create hs
  refine ⟨hinv.toSlots, hinv.built, hinv.nbytesKey, ?_, ?_, fun i hi => absurd hi i.not_lt_zero⟩
  · rw [hkeys]
    cases hmu
    exact hbelow
  · cases hmu
    exact fun i hi => absurd hi (Finset.notMem_empty i)

omit [Inhabited K] [Inhabited V] [MatchKey K] in
theorem values_set {l : List (Entry K V)} (e : Entry K V) (h : ∀ i < b, ∃ e, l[i]? = some e ∧ P e.value)
    (he : P e.value) (j : ℕ) : ∀ i < b, ∃ e', (l.set j e)[i]? = some e' ∧ P e'.value := by
  intro i hi
  obtain ⟨old, hold, hP⟩ := h i hi
  rw [List.getElem?_set]
  split
  next heq =>
    have hlt := (List.getElem?_eq_some_iff.mp hold).1
    exact ⟨e, by rw [if_pos (heq ▸ hlt)], he⟩
  next => exact ⟨old, hold, hP⟩

omit [Inhabited K] [Inhabited V] in
theorem Filled.value (h : mu.Filled P fs b) {handle : ℕ} {e : Entry K V}
    (hcheck : mu.checkHandle handle = some (.ok e)) : P e.value := by
  obtain ⟨hmem, hentry⟩ := live_eq_some.mp (h.checkHandle_eq_ok.mp hcheck).1
  obtain ⟨e', he', hP⟩ := h.values _ (h.lt_bound _ hmem)
  exact Option.some.inj (he'.symm.trans hentry) ▸ hP

theorem Filled.of_effect (h : mu.Filled P fs b) {op : UnitOp V} {r : UnitResult V}
    (hshape : SameShape mu mu') (hslots : mu'.Slots) (heffect : Effect mu mu' op r)
    (hwrites : op.Writes P) : ∃ b', mu'.Filled P fs b' := by
  have hbuilt : mu'.matchKeyBuilder.Built fs := hshape.matchKeyBuilder ▸ h.built
  have hnbytes : mu'.nbytesKey = mu'.matchKeyBuilder.nbytesKey := by
    rw [hshape.nbytesKey, hshape.matchKeyBuilder, h.nbytesKey]
  cases heffect with
  | quiet hquiet hhandles hentries hlookup =>
    have hkeys : mu'.keys = mu.keys := funext fun i => by rw [keys, keys, live_congr hhandles hentries]
    refine ⟨b, hslots, hbuilt, hnbytes, ?_, hhandles ▸ h.lt_bound, hentries ▸ h.values⟩
    rw [hshape.size, hshape.nbytesKey, hlookup, hkeys]
    exact h.below
  | added k old hbuild hnew hlt hlt64 hold hhandles hentries hlookup =>
    -- the slot is a new one, or one that was in use before
    have hle : lowestFree mu.handles ≤ b := by
      by_contra hlt
      exact lt_irrefl b (h.lt_bound b (mem_of_lt_lowestFree (not_le.mp hlt)))
    have hfree : mu.keys (lowestFree mu.handles) = none :=
      Option.not_isSome_iff_eq_none.mp (mt h.isSome_keys.mp (lowestFree_notMem mu.handles))
    have hbelow := LookupBound.below_addEntry h.below (keyOk_of_built h.built h.nbytesKey hbuild) hnew
      hfree (fun j hj => h.isSome_keys.mpr (mem_of_lt_lowestFree hj)) hlt hlt64 hlookup
    refine ⟨max b (lowestFree mu.handles + 1), hslots, hbuilt, hnbytes, ?_, fun i hi => ?_,
      fun i hi => ?_⟩
    · rw [hshape.size, hshape.nbytesKey, keys_update (live_added h.toSlots hlt hhandles hentries)]
      exact hbelow
    · rw [hhandles, Finset.mem_insert] at hi
      rcases hi with rfl | hi
      · omega
      · exact (h.lt_bound i hi).trans_le (le_max_left _ _)
    · rw [hentries]
      by_cases hnewest : i = lowestFree mu.handles
      · rw [hnewest, List.getElem?_set_self (h.length_entries ▸ hlt)]
        exact ⟨_, rfl, hwrites⟩
      · rw [List.getElem?_set_ne (Ne.symm hnewest)]
        exact h.values i (by omega)
  | deleted e hcheck hhandles hentries hlookup =>
    have hlive := (h.checkHandle_eq_ok.mp hcheck).1
    have hbelow := LookupBound.below_deleteEntry h.below (keys_eq_some.mpr ⟨e, hlive, rfl⟩) hlookup
    refine ⟨b, hslots, hbuilt, hnbytes, ?_, fun i hi => ?_, ?_⟩
    · rw [hshape.size, hshape.nbytesKey, keys_update (live_deleted hhandles hentries)]
      exact hbelow
    · rw [hhandles] at hi
      exact h.lt_bound i (Finset.mem_of_mem_erase hi)
    · rw [hentries]
      have hvalue : P e.value := h.value hcheck
      exact values_set { e with version := (e.version + 1) % 2 ^ 32 } h.values hvalue _
  | modified e hcheck hhandles hentries hlookup =>
    have hlive := (h.checkHandle_eq_ok.mp hcheck).1
    have hkeys : mu'.keys = mu.keys := by
      have hkey : mu.keys (handleInternal _) = some e.key := keys_eq_some.mpr ⟨e, hlive, rfl⟩
      rw [keys_update (live_modified h.toSlots (live_eq_some.mp hlive).1 hhandles hentries),
        Option.map_some, ← hkey, Function.update_eq_self]
    refine ⟨b, hslots, hbuilt, hnbytes, ?_, hhandles ▸ h.lt_bound, ?_⟩
    · rw [hshape.size, hshape.nbytesKey, hlookup, hkeys]
      exact h.below
    · rw [hentries]
      exact values_set { e with value := _ } h.values hwrites _
  | reset hhandles hentries hlookup =>
    have hkeys : mu'.keys = fun _ => none := funext fun i => by rw [keys, live_of_handles hhandles]; rfl
    refine ⟨0, hslots, hbuilt, hnbytes, ?_, fun i hi => ?_, fun i hi => absurd hi i.not_lt_zero⟩
    · rw [hshape.size, hshape.nbytesKey, hkeys]
      exact LookupBound.below_clear h.below hlookup
    · rw [hhandles] at hi
      exact absurd hi (Finset.notMem_empty i)

/-- **Step lemma**, of any operation. -/
theorem Filled.exec (h : mu.Filled P fs b) {op : UnitOp V} {r : UnitResult V}
    (hexec : mu.exec op = some (r, mu')) (hwrites : op.Writes P) : ∃ b', mu'.Filled P fs b' := by
  obtain ⟨hshape, hslots, heffect⟩ := h.toSlots.exec_effect hexec
  exact h.of_effect hshape hslots heffect hwrites

omit [Inhabited K] [Inhabited V] in
/-- What a lookup finds has the property. -/
theorem Filled.lookup (h : mu.Filled P fs b) {phv : PHV} {ingressLength ingressTsMs : ℕ}
    {res : MatchUnitLookup V} (hlookup : mu.lookup phv ingressLength ingressTsMs = some (some res, mu')) :
    P res.value := by
  obtain ⟨key, -, hlookup⟩ := Option.bind_eq_some_iff.mp hlookup
  obtain ⟨found, hfound, hlookup⟩ := Option.bind_eq_some_iff.mp hlookup
  obtain ⟨slot, hslot, hfound⟩ := Option.bind_eq_some_iff.mp hfound
  cases slot with
  | none =>
    cases hfound
    cases hlookup
  | some slot =>
    obtain ⟨entry, hentry, hfound⟩ := Option.bind_eq_some_iff.mp hfound
    cases hfound
    obtain ⟨entryMeta, -, hlookup⟩ := Option.bind_eq_some_iff.mp hlookup
    cases hlookup
    have hlt := LookupBound.lt_of_lookup h.below
      (fun j hj => h.lt_bound j (h.isSome_keys.mp hj)) hslot
    obtain ⟨e, he, hP⟩ := h.values slot hlt
    exact Option.some.inj (he.symm.trans hentry) ▸ hP

end MatchUnit

end Bm
