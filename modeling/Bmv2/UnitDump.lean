/-
# Dumps of match units

`MatchUnitGeneric<K, V>::serialize_` and `deserialize_` (`match_units.cpp`), for exact and LPM keys.  A dump
lists the entries in the order of their slots, each with its slot and its version; reading it puts every entry
back into its slot, whatever slots are free between them.  Direct meters, which write and read what follows,
are those of `MeterDump`.

A list of entries keeps pointers to the keys, and `deserialize_` passes it keys that it does not keep, so the
dumps of ternary and range tables are left out.

* `ofHexString_toHex`: bytes in hexadecimal;
* `isSome_serialize_iff`: when a dump can be made;
* `deserialize_restores`: what is read back.
-/
import Bmv2.Lib.TextStreams
import Bmv2.LiveLookups

namespace Bm

open TextStream

/-! ## Bytes in hexadecimal -/

/-- `ByteContainer::to_hex`. -/
def toHex (data : ByteContainer) : List Char :=
  data.flatMap fun b => [Nat.digitChar (b.toNat / 16), Nat.digitChar (b.toNat % 16)]

/-- `char2digit`. -/
def char2digit (c : Char) : Option ℕ :=
  if '0' ≤ c ∧ c ≤ '9' then some (c.toNat - '0'.toNat)
  else if 'A' ≤ c ∧ c ≤ 'F' then some (c.toNat - 'A'.toNat + 10)
  else if 'a' ≤ c ∧ c ≤ 'f' then some (c.toNat - 'a'.toNat + 10)
  else none

/-- The loop of `ByteContainer(const std::string &)`. -/
def hexPairs : List Char → Option ByteContainer
  | c :: c' :: rest => do
      let high ← char2digit c
      let low ← char2digit c'
      let bytes ← hexPairs rest
      pure (BitVec.ofNat 8 (16 * high + low) :: bytes)
  | _ => some []

/-- `ByteContainer(const std::string &)`: a string of odd length starts with a byte of one digit. -/
def ofHexString (hexstring : List Char) : Option ByteContainer :=
  if hexstring.head? = some '-' then none
  else
    let digits := if hexstring.take 2 = ['0', 'x'] then hexstring.drop 2 else hexstring
    match digits with
    | [] => none
    | c :: rest =>
        if digits.length % 2 = 0 then hexPairs digits
        else do
          let digit ← char2digit c
          let bytes ← hexPairs rest
          pure (BitVec.ofNat 8 digit :: bytes)

theorem char2digit_digitChar {n : ℕ} (hn : n < 16) : char2digit (Nat.digitChar n) = some n := by
  interval_cases n <;> decide

theorem digitChar_spec {n : ℕ} (hn : n < 16) :
    space (Nat.digitChar n) = false ∧ Nat.digitChar n ≠ '-' ∧ Nat.digitChar n ≠ 'x' := by
  interval_cases n <;> decide

theorem toHex_cons (b : Byte) (data : ByteContainer) :
    toHex (b :: data) = Nat.digitChar (b.toNat / 16) :: Nat.digitChar (b.toNat % 16) :: toHex data := rfl

theorem length_toHex (data : ByteContainer) : (toHex data).length = 2 * data.length := by
  induction data with
  | nil => rfl
  | cons b data ih =>
    rw [toHex_cons, List.length_cons, List.length_cons, ih, List.length_cons]
    omega

theorem toHex_ne_nil {data : ByteContainer} (hne : data ≠ []) : toHex data ≠ [] := by
  obtain ⟨b, data, rfl⟩ := List.exists_cons_of_ne_nil hne
  exact List.cons_ne_nil _ _

theorem not_space_toHex (data : ByteContainer) : ∀ c ∈ toHex data, space c = false := by
  intro c hc
  obtain ⟨b, -, hc⟩ := List.mem_flatMap.mp hc
  have hlt : b.toNat < 256 := b.isLt
  rcases List.mem_pair.mp hc with rfl | rfl
  · exact (digitChar_spec (by omega)).1
  · exact (digitChar_spec (by omega)).1

theorem hexPairs_toHex (data : ByteContainer) : hexPairs (toHex data) = some data := by
  induction data with
  | nil => rfl
  | cons b data ih =>
    have hlt : b.toNat < 256 := b.isLt
    rw [toHex_cons, hexPairs, char2digit_digitChar (by omega), char2digit_digitChar (by omega), ih]
    simp only [Option.bind_eq_bind, Option.bind_some, Option.pure_def, Option.some.injEq, List.cons.injEq, and_true]
    rw [Nat.div_add_mod, BitVec.ofNat_toNat, BitVec.setWidth_eq]

/-- **Bytes in hexadecimal** come back. -/
theorem ofHexString_toHex {data : ByteContainer} (hne : data ≠ []) : ofHexString (toHex data) = some data := by
  have hpairs := hexPairs_toHex data
  have hlength := length_toHex data
  obtain ⟨b, rest, rfl⟩ := List.exists_cons_of_ne_nil hne
  have hlt : b.toNat < 256 := b.isLt
  have hhigh := (digitChar_spec (show b.toNat / 16 < 16 by omega)).2.1
  have hlow := (digitChar_spec (show b.toNat % 16 < 16 by omega)).2.2
  rw [toHex_cons] at hpairs hlength ⊢
  rw [ofHexString, if_neg (by rw [List.head?_cons, Option.some.injEq]; exact hhigh)]
  dsimp only
  rw [if_neg (by simp [hlow])]
  dsimp only
  rw [if_pos (by rw [hlength]; omega)]
  exact hpairs

/-! ## Keys and values -/

/-- What a dump holds of a key besides its data: `serialize_key` and `deserialize_key`. -/
class DumpKey (K : Type) where
  serializeKey : K → List Char
  deserializeKey : ByteContainer → Reader K

instance : DumpKey ExactMatchKey where
  serializeKey _ := []
  deserializeKey data := pure { data }

instance : DumpKey LPMMatchKey where
  serializeKey key := line (intDigits key.prefixLength)
  deserializeKey data := do
    let prefixLength ← int
    pure { data, prefixLength }

/-- How the values of a unit are written and read. -/
structure ValueFormat (V : Type) where
  serialize : V → List Char
  deserialize : Reader V

/-- The format brings the value back. -/
def ValueFormat.Restores {V : Type} (format : ValueFormat V) (value : V) : Prop :=
  Reads format.deserialize (format.serialize value) value

/-- The values of indirect tables: `IndirectIndex::serialize` and `deserialize`. -/
def IndirectIndex.format : ValueFormat IndirectIndex where
  serialize index := line (Nat.toDigits 10 index.index)
  deserialize := do
    let index ← nat
    pure ⟨index⟩

theorem IndirectIndex.restores (index : IndirectIndex) : IndirectIndex.format.Restores index :=
  (reads_nat index.index).bind_pure rfl

/-! ## Units -/

namespace MatchUnit

variable {K V S : Type} [MatchKey K] [DumpKey K]

/-- One entry of `serialize_`; its version must be the one in the meta data. -/
def serializeEntry (format : ValueFormat V) (mu : MatchUnit K V S) (slot : ℕ) : Option (List Char) := do
  let entry ← mu.entries[slot]?
  let entryMeta ← mu.entryMeta[slot]?
  if entryMeta.version = entry.version then
    pure (line (Nat.toDigits 10 slot) ++ (line (Nat.toDigits 10 entry.version) ++
      (line (toHex (MatchKey.data entry.key)) ++ (DumpKey.serializeKey entry.key ++
        (format.serialize entry.value ++ line (Nat.toDigits 10 entryMeta.timeoutMs))))))
  else none

/-- `serialize_`. -/
def serialize (format : ValueFormat V) (mu : MatchUnit K V S) : Option (List Char) := do
  let entries ← (mu.handles.sort (· ≤ ·)).mapM (mu.serializeEntry format)
  pure (line (Nat.toDigits 10 mu.numEntries) ++ entries.flatten)

/-- One round of the loop of `deserialize_`.  `now` is the clock, by slots. -/
def deserializeEntry [LookupStructure K S] (format : ValueFormat V) (now : ℕ → ℕ) (mu : MatchUnit K V S) :
    Reader (MatchUnit K V S) := do
  let handle ← nat
  if handle ∈ mu.handles then failure
  else
    let version ← nat
    let keyHex ← word
    let data ← liftM (ofHexString keyHex)
    let key ← DumpKey.deserializeKey data
    let value ← format.deserialize
    let lookupStructure ← liftM (LookupStructure.addEntry mu.lookupStructure key handle)
    let entryMeta ← liftM (mu.entryMeta[handle]?)
    let timeoutMs ← nat
    pure { mu with
      handles := insert handle mu.handles
      entries := mu.entries.set handle ⟨key, version, value⟩
      lookupStructure
      entryMeta := mu.entryMeta.set handle { entryMeta.reset (now handle) with version, timeoutMs } }

/-- `deserialize_`. -/
def deserialize [LookupStructure K S] (format : ValueFormat V) (now : ℕ → ℕ) (mu : MatchUnit K V S) :
    Reader (MatchUnit K V S) := do
  let numEntries ← nat
  loop (deserializeEntry format now) numEntries { mu with numEntries }

end MatchUnit

/-! ## What a dump restores -/

/-- A lookup structure that takes its keys in any order and always answers exactly, with the format of its
keys. -/
class DumpedLookup (K : Type) (S : outParam Type) [MatchKey K] [LookupStructure K S] [LawfulLookup K S]
    [DumpKey K] where
  exact : ∀ keys : ℕ → Option K, LawfulLookup.Exact keys
  reads_key : ∀ k : K, Reads (DumpKey.deserializeKey (MatchKey.data k)) (DumpKey.serializeKey k) k
  length_data : ∀ {n : ℕ} {k : K}, LawfulLookup.KeyOk n k → (MatchKey.data k).length = n
  keyOk_of_holds : ∀ {size n : ℕ} {s : S} {keys : ℕ → Option K} {k : K} {i : ℕ},
    LawfulLookup.Holds size n s keys → keys i = some k → LawfulLookup.KeyOk n k
  eq_of_same : ∀ {size n : ℕ} {s : S} {keys : ℕ → Option K} {k k' : K} {i j : ℕ},
    LawfulLookup.Holds size n s keys → keys i = some k → keys j = some k' → LawfulLookup.Same k k' → i = j
  holds_insert : ∀ {size n : ℕ} {s : S} {keys : ℕ → Option K} {k : K} {i : ℕ}, LawfulLookup.Holds size n s keys →
    LawfulLookup.KeyOk n k → (∀ j k', keys j = some k' → ¬ LawfulLookup.Same k' k) → keys i = none →
    ∃ s', LookupStructure.addEntry s k i = some s' ∧
      LawfulLookup.Holds size n s' (Function.update keys i (some k))

instance : DumpedLookup ExactMatchKey ExactMap where
  exact _ := trivial
  reads_key k := reads_pure k
  length_data h := h
  keyOk_of_holds h hk := h.keyOk _ _ hk
  eq_of_same {_ _ s keys k k' i j} h hi hj hsame := by
    obtain rfl : k = k' := hsame
    have hsome := (h.iff k.data i).mpr hi
    rw [(h.iff k.data j).mpr hj] at hsome
    exact (Option.some.inj hsome).symm
  holds_insert {_ _ s keys k i} h hlen hnew hfree := by
    refine ⟨_, rfl, h.update hlen ?_ hfree⟩
    cases hmap : s.entriesMap k.data with
    | none => rfl
    | some j => exact absurd rfl (hnew j k ((h.iff _ _).mp hmap))

instance : DumpedLookup LPMMatchKey LPMTrieStructure where
  exact _ := trivial
  reads_key k := (reads_int k.prefixLength).bind_pure rfl
  length_data h := h.length_data
  keyOk_of_holds h hk := h.keyOk _ _ hk
  eq_of_same {_ _ s keys k k' i j} h hi hj hsame := by
    obtain ⟨m, -, hm⟩ := h.represents
    have hsome := LPMTrieStructure.Holds.map_bits hm hi
    rw [show k.bits = k'.bits from hsame, LPMTrieStructure.Holds.map_bits hm hj] at hsome
    exact (Option.some.inj hsome).symm
  holds_insert h hok hnew hfree := h.insert hok hnew hfree

namespace MatchUnit

variable {K V S : Type} [MatchKey K] [LookupStructure K S] [LawfulLookup K S] [DumpKey K]
  {fs : List KeyField} {format : ValueFormat V} {mu mu' : MatchUnit K V S}

/-- The slots in use have the versions of their meta data. -/
def VersionsMatch (mu : MatchUnit K V S) : Prop :=
  ∀ i e, mu.live i = some e → ∃ m, mu.entryMeta[i]? = some m ∧ m.version = e.version % 256

/-- The text of one entry. -/
def entryText (format : ValueFormat V) (mu : MatchUnit K V S) (slot : ℕ) : List Char :=
  (mu.serializeEntry format slot).getD []

omit [LookupStructure K S] [LawfulLookup K S] in
/-- An entry can be written as long as its version fits the handle. -/
theorem serializeEntry_isSome_iff (hversions : mu.VersionsMatch) {i : ℕ} {e : Entry K V}
    (hlive : mu.live i = some e) : (mu.serializeEntry format i).isSome ↔ e.version < 256 := by
  obtain ⟨m, hm, hversion⟩ := hversions i e hlive
  rw [serializeEntry, (live_eq_some.mp hlive).2, hm]
  simp only [Option.bind_eq_bind, Option.bind_some]
  split
  next heq => exact iff_of_true rfl (by omega)
  next hne => exact iff_of_false (by simp) (by omega)

omit [LookupStructure K S] [LawfulLookup K S] in
/-- The text of an entry with a short version. -/
theorem entryText_eq {i : ℕ} {e : Entry K V} {m : EntryMeta} (hentry : mu.entries[i]? = some e)
    (hm : mu.entryMeta[i]? = some m) (hversion : m.version = e.version) :
    mu.entryText format i = line (Nat.toDigits 10 i) ++ (line (Nat.toDigits 10 e.version) ++
      (line (toHex (MatchKey.data e.key)) ++ (DumpKey.serializeKey e.key ++
        (format.serialize e.value ++ line (Nat.toDigits 10 m.timeoutMs))))) := by
  rw [entryText, serializeEntry, hentry, hm]
  simp only [Option.bind_eq_bind, Option.bind_some, if_pos hversion]
  rfl

omit [LookupStructure K S] [LawfulLookup K S] in
theorem sort_handles (s : HandleMgr) : (s.sort (· ≤ ·)).Nodup ∧ ∀ i, i ∈ s.sort (· ≤ ·) ↔ i ∈ s :=
  ⟨Finset.sort_nodup s (· ≤ ·), fun _ => Finset.mem_sort (· ≤ ·)⟩

omit [LookupStructure K S] [LawfulLookup K S] in
/-- **When a dump can be made**: no version of a slot in use has outgrown the 8 bits of a handle. -/
theorem isSome_serialize_iff (format : ValueFormat V) (hslots : mu.Slots) (hversions : mu.VersionsMatch) :
    (mu.serialize format).isSome ↔ ∀ i e, mu.live i = some e → e.version < 256 := by
  obtain ⟨-, hmem⟩ := sort_handles mu.handles
  have hiff : (mu.serialize format).isSome ↔ ∀ i ∈ mu.handles.sort (· ≤ ·), (mu.serializeEntry format i).isSome := by
    rw [← isSome_mapM_iff, serialize]
    cases (mu.handles.sort (· ≤ ·)).mapM (mu.serializeEntry format) <;> rfl
  rw [hiff]
  constructor
  · intro hsome i e hlive
    exact (serializeEntry_isSome_iff hversions hlive).mp (hsome i ((hmem i).mpr (live_eq_some.mp hlive).1))
  · intro hlt i hi
    obtain ⟨e, hlive⟩ := hslots.exists_live ((hmem i).mp hi)
    exact (serializeEntry_isSome_iff hversions hlive).mpr (hlt i e hlive)

omit [LookupStructure K S] [LawfulLookup K S] in
/-- A dump is the number of entries, and the entries in the order of their slots. -/
theorem serialize_eq {text : List Char} (h : mu.serialize format = some text) :
    text = line (Nat.toDigits 10 mu.numEntries) ++ (mu.handles.sort (· ≤ ·)).flatMap (mu.entryText format) := by
  obtain ⟨entries, hentries, htext⟩ := Option.bind_eq_some_iff.mp h
  have hall := isSome_mapM_iff.mp (by rw [hentries]; rfl)
  have hmap : (mu.handles.sort (· ≤ ·)).mapM (mu.serializeEntry format) =
      some ((mu.handles.sort (· ≤ ·)).map (mu.entryText format)) := by
    refine mapM_eq_some_map fun i hi => ?_
    obtain ⟨t, ht⟩ := Option.isSome_iff_exists.mp (hall i hi)
    rw [entryText, ht]
    rfl
  rw [hmap] at hentries
  cases hentries
  cases htext
  rfl

/-- What has been read when the slots `done` have been: the entries, versions and time-outs there are those of
the unit `mu` that was written, and all other slots are new. -/
structure ReadBack (mu : MatchUnit K V S) (now : ℕ → ℕ) (done : List ℕ) (s : MatchUnit K V S) : Prop where
  shape : SameShape mu s
  numEntries : s.numEntries = mu.numEntries
  handles : s.handles = done.toFinset
  length_entries : s.entries.length = mu.size
  length_entryMeta : s.entryMeta.length = mu.size
  entries : ∀ i ∈ done, s.entries[i]? = mu.entries[i]?
  entryMeta : ∀ i ∈ done, ∀ m, mu.entryMeta[i]? = some m →
    s.entryMeta[i]? = some { ts := now i, timeoutMs := m.timeoutMs, counter := {}, version := m.version }
  free : ∀ i ∉ done, ∀ e, s.entries[i]? = some e → e.version = 0
  holds : LawfulLookup.Holds mu.size mu.nbytesKey s.lookupStructure fun i => if i ∈ done then mu.keys i else none

variable [DumpedLookup K S]

/-- **Step lemma**: one entry is read back. -/
theorem ReadBack.step (hmu : mu.Inv fs) (hpos : 0 < mu.nbytesKey) {now : ℕ → ℕ} {done : List ℕ}
    {s : MatchUnit K V S} (h : ReadBack mu now done s) {i : ℕ} (hi : i ∉ done) {e : Entry K V}
    (hlive : mu.live i = some e) {m : EntryMeta} (hm : mu.entryMeta[i]? = some m) (hversion : m.version = e.version)
    (hvalue : format.Restores e.value) :
    ∃ s', Reads (deserializeEntry format now s) (mu.entryText format i) s' ∧ ReadBack mu now (done ++ [i]) s' := by
  obtain ⟨hmem, hentry⟩ := live_eq_some.mp hlive
  have hkey : mu.keys i = some e.key := keys_eq_some.mpr ⟨e, hlive, rfl⟩
  have hok : LawfulLookup.KeyOk mu.nbytesKey e.key := DumpedLookup.keyOk_of_holds hmu.holds hkey
  have hdata : MatchKey.data e.key ≠ [] := by
    rw [← List.length_pos_iff, DumpedLookup.length_data hok]
    exact hpos
  have hlt : i < mu.size := (hmu.lt i hmem).1
  obtain ⟨t, hadd, hholds⟩ := DumpedLookup.holds_insert (i := i) h.holds hok
    (fun j k' hk' hsame => by
      split at hk'
      next hj =>
        obtain rfl := DumpedLookup.eq_of_same hmu.holds hk' hkey hsame
        exact hi hj
      next => cases hk')
    (if_neg hi)
  obtain ⟨m', hm'⟩ : ∃ m', s.entryMeta[i]? = some m' :=
    ⟨_, List.getElem?_eq_getElem (h.length_entryMeta.symm ▸ hlt)⟩
  refine ⟨{ s with
      handles := insert i s.handles
      entries := s.entries.set i ⟨e.key, e.version, e.value⟩
      lookupStructure := t
      entryMeta := s.entryMeta.set i { m'.reset (now i) with version := e.version, timeoutMs := m.timeoutMs } },
    ?_, ?_⟩
  · rw [entryText_eq hentry hm hversion]
    refine (reads_nat i).bind ?_
    rw [if_neg (by rw [h.handles, List.mem_toFinset]; exact hi)]
    refine (reads_nat e.version).bind ((reads_word (not_space_toHex _) (toHex_ne_nil hdata)).bind ?_)
    refine Reads.of_lift (ofHexString_toHex hdata) ((DumpedLookup.reads_key e.key).bind (hvalue.bind ?_))
    exact Reads.of_lift hadd (Reads.of_lift hm' ((reads_nat m.timeoutMs).bind_pure rfl))
  · have hdone : ∀ j, j ∈ done ++ [i] ↔ j ∈ done ∨ j = i := fun j => by
      rw [List.mem_append, List.mem_singleton]
    refine ⟨⟨h.shape.size, h.shape.nbytesKey, h.shape.matchKeyBuilder⟩, h.numEntries, ?_, ?_, ?_, fun j hj =>
      ?_, fun j hj n hn => ?_, fun j hj x hx => ?_, ?_⟩
    · rw [List.toFinset_append, h.handles, Finset.insert_eq, Finset.union_comm]
      rfl
    · exact List.length_set.trans h.length_entries
    · exact List.length_set.trans h.length_entryMeta
    · by_cases hji : j = i
      · subst hji
        rw [hentry]
        exact List.getElem?_set_self (h.length_entries.symm ▸ hlt)
      · rw [← h.entries j (((hdone j).mp hj).resolve_right hji)]
        exact List.getElem?_set_ne (Ne.symm hji)
    · by_cases hji : j = i
      · subst hji
        obtain rfl := Option.some.inj (hm.symm.trans hn)
        rw [hversion]
        exact List.getElem?_set_self (h.length_entryMeta.symm ▸ hlt)
      · rw [← h.entryMeta j (((hdone j).mp hj).resolve_right hji) n hn]
        exact List.getElem?_set_ne (Ne.symm hji)
    · rw [hdone, not_or] at hj
      refine h.free j hj.1 x ?_
      rw [← hx]
      exact (List.getElem?_set_ne (Ne.symm hj.2)).symm
    · convert hholds using 1
      funext j
      by_cases hji : j = i
      · rw [hji, Function.update_self, if_pos ((hdone i).mpr (.inr rfl)), hkey]
      · rw [Function.update_of_ne hji]
        exact if_congr ((hdone j).trans (or_iff_left hji)) rfl rfl

/-- What a dump of the unit `mu` makes of a new unit: the same entries under the same handles, with the same
time-outs. -/
structure Restored (fs : List KeyField) (mu mu' : MatchUnit K V S) : Prop where
  inv : mu'.Inv fs
  shape : SameShape mu mu'
  numEntries : mu'.numEntries = mu.numEntries
  handles : mu'.handles = mu.handles
  live : mu'.live = mu.live
  timeout : ∀ i ∈ mu.handles,
    (mu'.entryMeta[i]?).map EntryMeta.timeoutMs = (mu.entryMeta[i]?).map EntryMeta.timeoutMs
  versions : mu'.VersionsMatch
  free : ∀ i ∉ mu.handles, ∀ e, mu'.entries[i]? = some e → e.version = 0

/-- A unit that has just been made. -/
structure IsFresh (fs : List KeyField) (mu : MatchUnit K V S) : Prop where
  inv : mu.Inv fs
  handles : mu.handles = ∅
  versions : ∀ e ∈ mu.entries, e.version = 0

omit [DumpKey K] [DumpedLookup K S] in
theorem isFresh_create [Inhabited K] [Inhabited V] {size : ℕ} {kb : MatchKeyBuilder}
    (hfs : MatchKeyBuilder.ofFields fs = some kb) (h : create size kb = some mu) : mu.IsFresh fs := by
  refine ⟨(inv_create hfs h).1, ?_, ?_⟩
  · obtain ⟨s, -, h⟩ := Option.bind_eq_some_iff.mp h
    cases h
    rfl
  · obtain ⟨s, -, h⟩ := Option.bind_eq_some_iff.mp h
    cases h
    intro e he
    rw [List.eq_of_mem_replicate he]

omit [DumpKey K] [DumpedLookup K S] in
theorem readBack_start {new : MatchUnit K V S} (hnew : new.IsFresh fs) (hshape : SameShape mu new) (now : ℕ → ℕ) :
    ReadBack mu now [] { new with numEntries := mu.numEntries } where
  shape := ⟨hshape.size, hshape.nbytesKey, hshape.matchKeyBuilder⟩
  numEntries := rfl
  handles := hnew.handles
  length_entries := hnew.inv.length_entries.trans hshape.size
  length_entryMeta := hnew.inv.length_entryMeta.trans hshape.size
  entries := by simp
  entryMeta := by simp
  free _ _ e he := hnew.versions e (List.mem_of_getElem? he)
  holds := by
    have hholds := hnew.inv.holds
    have hkeys : new.keys = fun _ => none := funext fun i => by rw [keys, live_of_handles hnew.handles]; rfl
    rw [hkeys, hshape.size, hshape.nbytesKey] at hholds
    simpa using hholds

/-- **A dump is read back** by a new unit of the same configuration, if the keys are not empty. -/
theorem deserialize_restores (hmu : mu.Inv fs) (hversions : mu.VersionsMatch) {new : MatchUnit K V S}
    (hnew : new.IsFresh fs) (hshape : SameShape mu new) (hpos : 0 < mu.nbytesKey) (now : ℕ → ℕ)
    (hvalue : ∀ i e, mu.live i = some e → format.Restores e.value) {text : List Char}
    (htext : mu.serialize format = some text) :
    ∃ mu', Reads (new.deserialize format now) text mu' ∧ Restored fs mu mu' := by
  obtain ⟨hnodup, hmem⟩ := sort_handles mu.handles
  have hshort := (isSome_serialize_iff format hmu.toSlots hversions).mp (by rw [htext]; rfl)
  have hloop := Reads.loop (deserializeEntry format now) (mu.entryText format)
    (I := ReadBack mu now) (mu.handles.sort (· ≤ ·))
    (fun done i todo s heq hs => by
      have hi : i ∈ mu.handles := (hmem i).mp (by rw [heq]; simp)
      have hnew : i ∉ done := fun hdone => by
        rw [heq, List.nodup_append] at hnodup
        exact hnodup.2.2 i hdone i List.mem_cons_self rfl
      obtain ⟨e, hlive⟩ := hmu.toSlots.exists_live hi
      obtain ⟨m, hm, hversion⟩ := hversions i e hlive
      have hlt := hshort i e hlive
      exact hs.step hmu hpos hnew hlive hm (by omega) (hvalue i e hlive))
    (readBack_start hnew hshape now)
  obtain ⟨mu', hreads, hback⟩ := hloop
  rw [Finset.length_sort, hmu.card] at hreads
  refine ⟨mu', ?_, ?_⟩
  · rw [serialize_eq htext, deserialize]
    exact (reads_nat mu.numEntries).bind hreads
  · have hhandles : mu'.handles = mu.handles := by
      rw [hback.handles]
      ext i
      rw [List.mem_toFinset, hmem]
    have hlive : mu'.live = mu.live := by
      funext i
      rw [live, live, hhandles]
      split
      next hi => exact hback.entries i ((hmem i).mpr hi)
      next => rfl
    have hsame : (fun i => if i ∈ mu.handles.sort (· ≤ ·) then mu.keys i else none) = mu'.keys := by
      funext i
      rw [keys, keys, hlive, live]
      by_cases hi : i ∈ mu.handles
      · rw [if_pos ((hmem i).mpr hi), if_pos hi]
      · rw [if_neg (mt (hmem i).mp hi), if_neg hi]
        rfl
    have hslots : mu'.Slots := by
      refine ⟨?_, ?_, hback.length_entries.trans hback.shape.size.symm,
        hback.length_entryMeta.trans hback.shape.size.symm⟩
      · rw [hhandles, hback.numEntries, hmu.card]
      · rw [hhandles, hback.shape.size]
        exact hmu.lt
    have hmeta : ∀ i ∈ mu.handles, ∀ m, mu.entryMeta[i]? = some m → mu'.entryMeta[i]? =
        some { ts := now i, timeoutMs := m.timeoutMs, counter := {}, version := m.version } :=
      fun i hi => hback.entryMeta i ((hmem i).mpr hi)
    refine ⟨hmu.of_holds hback.shape hslots (hsame ▸ hback.holds), hback.shape, hback.numEntries, hhandles, hlive,
      fun i hi => ?_, fun i e he => ?_, fun i hi => hback.free i (mt (hmem i).mp hi)⟩
    · obtain ⟨e, he⟩ := hmu.toSlots.exists_live hi
      obtain ⟨m, hm, -⟩ := hversions i e he
      rw [hmeta i hi m hm, hm]
      rfl
    · rw [hlive] at he
      obtain ⟨m, hm, hversion⟩ := hversions i e he
      exact ⟨_, hmeta i (live_eq_some.mp he).1 m hm, hversion⟩

end MatchUnit
end Bm
