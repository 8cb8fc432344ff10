/-
# Lookup structures

The lookup structure of a match unit finds the slot of the entry that a packet key
matches (`lookup_structures.h`, `lookup_structures.cpp`): a hash map for exact tables,
the trie for LPM tables, and an entry list with a comparison function for ternary and
range tables.
-/
import Bmv2.EntryList
import Bmv2.LpmTrie
import Bmv2.MatchKey

namespace Bm

/-- `LookupStructure<K>`, with the structure that the default factory creates for keys
of type `K`. -/
class LookupStructure (K : Type) (S : outParam Type) where
  create (size nbytesKey : ℕ) : Option S
  lookup : S → ByteContainer → Option (Option ℕ)
  entryExists : S → K → Option Bool
  retrieveHandle : S → K → Option (Option ℕ)
  addEntry : S → K → ℕ → Option S
  deleteEntry : S → K → Option S
  clear : S → Option S

/-! ## Exact and LPM tables -/

/-- `ExactMap`: the hash map is a finite map from the key bytes. -/
structure ExactMap where
  entriesMap : ByteContainer → Option ℕ := fun _ => none

instance : LookupStructure ExactMatchKey ExactMap where
  create _ _ := some {}
  lookup s key := some (s.entriesMap key)
  entryExists s key := some (s.entriesMap key.data).isSome
  retrieveHandle s key := some (s.entriesMap key.data)
  addEntry s key handle := some { entriesMap := Function.update s.entriesMap key.data (some handle) }
  deleteEntry s key := some { entriesMap := Function.update s.entriesMap key.data none }
  clear _ := some {}

/-- `LPMTrieStructure` over `LPMTrie`, which always has `release_memory` on.  No
negative prefix length comes from a checked match key. -/
structure LPMTrieStructure where
  trie : LpmTrie

instance : LookupStructure LPMMatchKey LPMTrieStructure where
  create _ nbytesKey := (LpmTrie.create nbytesKey true).map LPMTrieStructure.mk
  lookup s key := s.trie.lookup key
  entryExists s key := s.trie.hasPrefix key.data key.prefixLength.toNat
  retrieveHandle s key := s.trie.retrieveValue key.data key.prefixLength.toNat
  addEntry s key handle :=
    (s.trie.insert key.data key.prefixLength.toNat handle).map LPMTrieStructure.mk
  deleteEntry s key :=
    (s.trie.delete key.data key.prefixLength.toNat).map fun (_, trie) => ⟨trie⟩
  clear s := (LpmTrie.create s.trie.keyWidthBytes true).map LPMTrieStructure.mk

/-! ## Comparison functions -/

/-- Compares the key with the data of an entry under its mask, at the given byte
positions. -/
def maskedBytesEq (keyData data mask : ByteContainer) : List ℕ → Option Bool
  | [] => some true
  | byteIndex :: rest => do
      let d ← data[byteIndex]?
      let k ← keyData[byteIndex]?
      let m ← mask[byteIndex]?
      if d ≠ k &&& m then some false else maskedBytesEq keyData data mask rest

/-- `memcmp(&as[offset], &bs[offset], n)`: both elements must exist. -/
def memcmpAt (as bs : ByteContainer) (offset n : ℕ) : Option Ordering :=
  if offset < as.length ∧ offset < bs.length then memcmp (as.drop offset) (bs.drop offset) n
  else none

/-- The loop of the comparison of `RangeMap`, from `offset` on. -/
def rangeCmpFrom (nbytesKey : ℕ) (keyData : ByteContainer) (k : RangeMatchKey) :
    List ℕ → ℕ → Option Bool
  | [], offset =>
      maskedBytesEq keyData k.data k.mask (List.range' offset (nbytesKey - offset))
  | w :: ws, offset => do
      let start ← memcmpAt keyData k.data offset w
      if start = .lt then some false
      else
        let stop ← memcmpAt keyData k.mask offset w
        if stop = .gt then some false else rangeCmpFrom nbytesKey keyData k ws (offset + w)

/-- `cmp` in `TernaryMap::lookup`. -/
def TernaryMatchKey.cmp (nbytesKey : ℕ) (keyData : ByteContainer) (k : TernaryMatchKey) :
    Option Bool :=
  maskedBytesEq keyData k.data k.mask (List.range nbytesKey)

/-- `cmp` in `RangeMap::lookup`. -/
def RangeMatchKey.cmp (nbytesKey : ℕ) (keyData : ByteContainer) (k : RangeMatchKey) :
    Option Bool :=
  rangeCmpFrom nbytesKey keyData k k.rangeWidths 0

/-! ## Ternary and range tables -/

instance : PriorityKey TernaryMatchKey where
  priority k := k.priority
  same k k' := k.data == k'.data && k.mask == k'.mask
  eq_iff k k' := by
    cases k
    cases k'
    simp only [TernaryMatchKey.mk.injEq, Bool.and_eq_true, beq_iff_eq]
    tauto

instance : PriorityKey RangeMatchKey where
  priority k := k.priority
  same k k' := k.data == k'.data && k.mask == k'.mask && k.rangeWidths == k'.rangeWidths
  eq_iff k k' := by
    obtain ⟨⟨_, _, _⟩, _⟩ := k
    obtain ⟨⟨_, _, _⟩, _⟩ := k'
    simp only [RangeMatchKey.mk.injEq, TernaryMatchKey.mk.injEq, Bool.and_eq_true, beq_iff_eq]
    tauto

/-- The keys that a list is searched for, with the comparison function of their map. -/
class ListKey (K : Type) extends PriorityKey K where
  cmp : ℕ → ByteContainer → K → Option Bool

instance : ListKey TernaryMatchKey where
  cmp := TernaryMatchKey.cmp

instance : ListKey RangeMatchKey where
  cmp := RangeMatchKey.cmp

/-- `TernaryMap` and `RangeMap`, which differ in the comparison function only. -/
structure EntryMap (K : Type) where
  entryList : EntryList K
  nbytesKey : ℕ

/-- `TernaryMap`. -/
abbrev TernaryMap := EntryMap TernaryMatchKey

/-- `RangeMap`. -/
abbrev RangeMap := EntryMap RangeMatchKey

instance (K : Type) [ListKey K] : LookupStructure K (EntryMap K) where
  create size nbytesKey := some ⟨EntryList.create size, nbytesKey⟩
  lookup s key := s.entryList.lookup (ListKey.cmp s.nbytesKey key)
  entryExists s key := s.entryList.exists' key
  retrieveHandle s key := s.entryList.retrieveHandle key
  addEntry s key handle := (s.entryList.add key handle).map fun l => { s with entryList := l }
  deleteEntry s key := (s.entryList.deleteEntry key).map fun l => { s with entryList := l }
  clear s := some { s with entryList := s.entryList.clear }

end Bm
