/-
# The trie as a map from bit strings

A trie represents a map from bit strings to values.  Insertion always updates that
map.  Deletion does so as long as the 8-bit counters of the nodes it gives back do
not mislead it (`TrieNode.DeleteSafe`), which they can once 256 branches hang on one
node, or once a stored value of 0 has been written over.
-/
import Bmv2.LpmTrie

namespace Bm

namespace TrieNode

/-! ## Keys of partial bytes -/

/-- A key holds the number of its bits in its high byte. -/
theorem prefixKey_div (b : Byte) (r : ℕ) : prefixKey r b / 256 = r := by
  rw [prefixKey]
  split
  · omega
  · have hlt : b.toNat >>> (8 - r) < 256 := by
      rw [Nat.shiftRight_eq_div_pow]
      exact (Nat.div_le_self _ _).trans_lt b.isLt
    rw [Nat.shiftLeft_eq, Nat.add_mul_div_right _ _ (by norm_num), Nat.div_eq_of_lt hlt, Nat.zero_add]

/-- A key determines the bits it packs. -/
theorem prefixKey_inj {b c : Byte} {r s : ℕ} (hr : r < 8) (hs : s < 8) :
    prefixKey r b = prefixKey s c ↔ (byteBits b).take r = (byteBits c).take s := by
  constructor
  · intro h
    obtain rfl : r = s := by rw [← prefixKey_div b r, h, prefixKey_div c s]
    rw [take_byteBits_eq_iff hr.le]
    by_cases hzero : r = 0
    · rw [hzero, Nat.shiftRight_eq_div_pow, Nat.shiftRight_eq_div_pow,
        Nat.div_eq_of_lt b.isLt, Nat.div_eq_of_lt c.isLt]
    · rw [prefixKey, prefixKey, if_neg hzero, if_neg hzero] at h
      omega
  · intro h
    have hlen := congrArg List.length h
    simp only [List.length_take, length_byteBits] at hlen
    obtain rfl : r = s := by omega
    rw [prefixKey, prefixKey, (take_byteBits_eq_iff hr.le).mp h]

/-- The keys that prefixes are stored under. -/
def IsKey (key : ℕ) : Prop := ∃ byte r, r < 8 ∧ key = prefixKey r byte

/-! ## Reading after an update -/

@[simp] theorem get_nil (n : TrieNode) (key : ℕ) : n.get [] key = n.prefixes key := by
  rw [get]

theorem get_cons (n : TrieNode) (byte : Byte) (bytes : List Byte) (key : ℕ) :
    n.get (byte :: bytes) key = (n.branches byte).bind fun child => child.get bytes key := by
  rw [get]
  cases n.branches byte <;> rfl

@[simp] theorem get_empty (bytes : List Byte) (key : ℕ) : empty.get bytes key = none := by
  cases bytes with
  | nil => rfl
  | cons byte bytes => rw [get_cons]; rfl

theorem get_insert (value : ℕ) (n : TrieNode) (bytes bytes' : List Byte) (key key' : ℕ) :
    (n.insert value bytes key).get bytes' key' =
      if bytes' = bytes ∧ key' = key then some value else n.get bytes' key' := by
  induction bytes generalizing n bytes' with
  | nil =>
    rw [insert]
    cases bytes' with
    | nil => simp
    | cons byte' bytes' => simp [get_cons]
  | cons byte bytes ih =>
    cases bytes' with
    | nil => rw [insert]; split <;> simp
    | cons byte' bytes' =>
      by_cases hbyte : byte' = byte
      · subst hbyte
        rw [insert, get_cons n]
        cases hchild : n.branches byte' with
        | some child => simp [get_cons, ih]
        | none => simp [get_cons, ih]
      · rw [insert]
        split <;> simp [get_cons, hbyte]

/-! ## Deletion -/

/-- The counters of this node and of the nodes below it on the way to the deleted
prefix say that the deletion leaves nothing here. -/
def CountsLast : TrieNode → List Byte → ℕ → Prop
  | n, [], _ => n.prefNum = 1 ∧ n.branchNum = 0
  | n, byte :: bytes, key => n.prefNum = 0 ∧ n.branchNum = 1 ∧
      ∃ child, n.branches byte = some child ∧ child.CountsLast bytes key

/-- Nothing but the one prefix is stored at this node and below. -/
def StoresOnly (n : TrieNode) (bytes : List Byte) (key : ℕ) : Prop :=
  ∀ bytes' key', IsKey key' → n.get bytes' key' ≠ none → bytes' = bytes ∧ key' = key

/-- On the way to the deleted prefix, every node below the root that its counters give
back stores nothing else. -/
def DeleteSafe : TrieNode → List Byte → ℕ → Prop
  | _, [], _ => True
  | n, byte :: bytes, key => ∀ child, n.branches byte = some child →
      (child.CountsLast bytes key → child.StoresOnly bytes key) ∧ child.DeleteSafe bytes key

/-- The loop that gives nodes back stands at a node with zero counters exactly when
the counters said so before. -/
theorem delete_countersZero_iff {n : TrieNode} {bytes : List Byte} {key : ℕ}
    (hstored : n.get bytes key ≠ none) :
    ((n.delete bytes key).2 && (n.delete bytes key).1.countersZero) = true ↔
      n.CountsLast bytes key := by
  induction bytes generalizing n with
  | nil =>
    simp only [delete, CountsLast, countersZero, deletePrefix, prefNum, branchNum, Bool.true_and,
      Bool.and_eq_true, beq_iff_eq]
    rw [BitVec.sub_eq_iff_eq_add]
    rfl
  | cons byte bytes ih =>
    rw [get_cons] at hstored
    cases hchild : n.branches byte with
    | none => rw [hchild] at hstored; exact absurd rfl hstored
    | some child =>
      rw [hchild] at hstored
      have ih' := ih (n := child) hstored
      rw [delete, hchild]
      simp only [CountsLast, hchild, Option.some.injEq, exists_eq_left']
      split
      · rename_i hzero
        simp only [Bool.true_and, countersZero, deleteBranch, prefNum, branchNum,
          Bool.and_eq_true, beq_iff_eq]
        rw [BitVec.sub_eq_iff_eq_add]
        exact ⟨fun h => ⟨h.1, h.2, ih'.mp hzero⟩, fun h => ⟨h.1, h.2.1⟩⟩
      · rename_i hzero
        simp only [Bool.false_and, Bool.false_eq_true, false_iff]
        exact fun h => hzero (ih'.mpr h.2.2)

theorem get_delete {n : TrieNode} {bytes : List Byte} {key : ℕ}
    (hstored : n.get bytes key ≠ none) (hsafe : n.DeleteSafe bytes key)
    (bytes' : List Byte) {key' : ℕ} (hkey' : IsKey key') :
    (n.delete bytes key).1.get bytes' key' =
      if bytes' = bytes ∧ key' = key then none else n.get bytes' key' := by
  induction bytes generalizing n bytes' with
  | nil =>
    cases bytes' with
    | nil => simp [delete]
    | cons byte' bytes' => simp [delete, get_cons]
  | cons byte bytes ih =>
    rw [get_cons] at hstored
    cases hchild : n.branches byte with
    | none => rw [hchild] at hstored; exact absurd rfl hstored
    | some child =>
      rw [hchild] at hstored
      obtain ⟨hlast, hsafe'⟩ := hsafe child hchild
      have ih' := ih (n := child) hstored hsafe'
      rw [delete, hchild]
      simp only
      split
      · rename_i hzero
        -- the child is given back: it stored the deleted prefix only
        have honly := hlast ((delete_countersZero_iff hstored).mp hzero)
        cases bytes' with
        | nil => simp
        | cons byte' bytes' =>
          by_cases hbyte : byte' = byte
          · subst hbyte
            simp only [get_cons, branches_deleteBranch, if_true, hchild, Option.bind_none,
              Option.bind_some, List.cons.injEq, true_and]
            split
            · rfl
            · rename_i hne
              by_contra hget
              exact hne (honly bytes' key' hkey' (Ne.symm hget))
          · simp [get_cons, hbyte]
      · cases bytes' with
        | nil => simp
        | cons byte' bytes' =>
          by_cases hbyte : byte' = byte
          · subst hbyte
            simp [get_cons, ih', hchild]
          · simp [get_cons, hbyte]

/-- A deletion that is not safe loses another stored prefix. -/
theorem exists_lost_of_not_deleteSafe {n : TrieNode} {bytes : List Byte} {key : ℕ}
    (hstored : n.get bytes key ≠ none) (hlose : ¬ n.DeleteSafe bytes key) :
    ∃ bytes' key', IsKey key' ∧ ¬ (bytes' = bytes ∧ key' = key) ∧ n.get bytes' key' ≠ none ∧
      (n.delete bytes key).1.get bytes' key' = none := by
  induction bytes generalizing n with
  | nil => exact absurd trivial hlose
  | cons byte bytes ih =>
    rw [get_cons] at hstored
    cases hchild : n.branches byte with
    | none => rw [hchild] at hstored; exact absurd rfl hstored
    | some child =>
      rw [hchild] at hstored
      -- a prefix of the child that is lost there is lost here
      have hlift : ∀ bytes' key', IsKey key' → ¬ (bytes' = bytes ∧ key' = key) →
          child.get bytes' key' ≠ none →
          (child.CountsLast bytes key ∨ (child.delete bytes key).1.get bytes' key' = none) →
          ∃ bytes' key', IsKey key' ∧ ¬ (bytes' = byte :: bytes ∧ key' = key) ∧
            n.get bytes' key' ≠ none ∧ (n.delete (byte :: bytes) key).1.get bytes' key' = none := by
        intro bytes' key' hkey' hne hget hlost
        refine ⟨byte :: bytes', key', hkey', by simpa using hne, by simpa [get_cons, hchild] using hget, ?_⟩
        rw [delete, hchild]
        simp only
        split
        · simp [get_cons]
        · rename_i hzero
          rcases hlost with hlast | hlost
          · exact absurd ((delete_countersZero_iff hstored).mpr hlast) hzero
          · simpa [get_cons] using hlost
      simp only [DeleteSafe, hchild, Option.some.injEq, forall_eq', not_and_or, Classical.not_imp]
        at hlose
      rcases hlose with ⟨hlast, honly⟩ | hlose
      · simp only [StoresOnly, not_forall] at honly
        obtain ⟨bytes', key', hkey', hget, hne⟩ := honly
        exact hlift bytes' key' hkey' hne hget (Or.inl hlast)
      · obtain ⟨bytes', key', hkey', hne, hget, hlost⟩ := ih (n := child) hstored hlose
        exact hlift bytes' key' hkey' hne hget (Or.inr hlost)

/-! ## The map a node represents -/

/-- The prefixes stored at a node and below are those of the map `m`. -/
def Represents (n : TrieNode) (m : List Bool → Option ℕ) : Prop :=
  ∀ bytes byte r, r < 8 → n.get bytes (prefixKey r byte) = m (bitsOf bytes ++ (byteBits byte).take r)

theorem represents_empty : empty.Represents fun _ => none := fun _ _ _ _ => get_empty _ _

/-- Two prefixes have the same bits when they are stored at the same place. -/
theorem bits_eq_iff {bytes bytes' : List Byte} {byte byte' : Byte} {r r' : ℕ} (hr : r < 8)
    (hr' : r' < 8) :
    bitsOf bytes' ++ (byteBits byte').take r' = bitsOf bytes ++ (byteBits byte).take r ↔
      bytes' = bytes ∧ prefixKey r' byte' = prefixKey r byte := by
  rw [bitsOf_append_inj (by simp; omega) (by simp; omega), prefixKey_inj hr' hr]

theorem represents_insert {n : TrieNode} {m : List Bool → Option ℕ} (h : n.Represents m)
    (bytes : List Byte) (byte : Byte) {r : ℕ} (hr : r < 8) (value : ℕ) :
    (n.insert value bytes (prefixKey r byte)).Represents
      (Function.update m (bitsOf bytes ++ (byteBits byte).take r) (some value)) := by
  intro bytes' byte' r' hr'
  simp only [get_insert, Function.update_apply, bits_eq_iff hr hr', h bytes' byte' r' hr']

/-- A deletion removes the prefix from the map, and nothing else, exactly when it is
safe. -/
theorem represents_delete_iff {n : TrieNode} {m : List Bool → Option ℕ} (h : n.Represents m)
    {bytes : List Byte} {byte : Byte} {r : ℕ} (hr : r < 8)
    (hstored : n.get bytes (prefixKey r byte) ≠ none) :
    (n.delete bytes (prefixKey r byte)).1.Represents
        (Function.update m (bitsOf bytes ++ (byteBits byte).take r) none) ↔
      n.DeleteSafe bytes (prefixKey r byte) := by
  constructor
  · intro hrep
    by_contra hlose
    obtain ⟨bytes', _, ⟨byte', r', hr', rfl⟩, hne, hget, hlost⟩ :=
      exists_lost_of_not_deleteSafe hstored hlose
    rw [hrep bytes' byte' r' hr', Function.update_apply, if_neg, ← h bytes' byte' r' hr'] at hlost
    · exact hget hlost
    · rwa [bits_eq_iff hr hr']
  · intro hsafe bytes' byte' r' hr'
    simp only [get_delete hstored hsafe bytes' ⟨byte', r', hr', rfl⟩, Function.update_apply,
      bits_eq_iff hr hr', h bytes' byte' r' hr']

/-! ## Lookup -/

theorem longestInByte_or {n : TrieNode} {m : List Bool → Option ℕ} (h : n.Represents m)
    (byte : Byte) {i : ℕ} (hi : i < 8) :
    (n.longestInByte byte i).or (n.prefixes 0) = longestBelow m (byteBits byte) (i + 1) := by
  have hkey : ∀ k < 8, n.prefixes (prefixKey k byte) = m ((byteBits byte).take k) := fun k hk => by
    simpa using h [] byte k hk
  induction i with
  | zero =>
    have hzero := hkey 0 (by omega)
    rw [prefixKey, if_pos rfl] at hzero
    rw [longestInByte, Option.none_or, longestBelow, longestBelow, Option.or_none, hzero]
  | succ i ih =>
    rw [longestInByte, longestBelow, Option.or_assoc, ih (by omega), hkey _ hi]

/-- The subtree behind a byte represents the map behind the bits of that byte. -/
theorem Represents.branch {n child : TrieNode} {m : List Bool → Option ℕ} (h : n.Represents m)
    {byte : Byte} (hchild : n.branches byte = some child) :
    child.Represents fun p => m (byteBits byte ++ p) := by
  intro bytes byte' r hr
  have hget := h (byte :: bytes) byte' r hr
  rw [get_cons, hchild, bitsOf_cons, List.append_assoc] at hget
  exact hget

/-- Without a branch the map holds nothing behind the bits of the byte. -/
theorem Represents.no_branch {n : TrieNode} {m : List Bool → Option ℕ} (h : n.Represents m)
    {byte : Byte} (hchild : n.branches byte = none) :
    empty.Represents fun p => m (byteBits byte ++ p) := by
  intro bytes byte' r hr
  have hget := h (byte :: bytes) byte' r hr
  rw [get_cons, hchild, bitsOf_cons, List.append_assoc] at hget
  rw [get_empty]
  exact hget

theorem lookup_empty (key : List Byte) (found : Option ℕ) : empty.lookup key found = found := by
  cases key <;> rfl

theorem lookup_eq {n : TrieNode} {m : List Bool → Option ℕ} (h : n.Represents m)
    (key : List Byte) (found : Option ℕ) :
    n.lookup key found = (longestMatch m (bitsOf key)).or found := by
  induction key generalizing n m found with
  | nil =>
    have hzero := h [] 0 0 (by omega)
    rw [prefixKey, if_pos rfl] at hzero
    rw [lookup, ← get_nil, hzero]
    simp [longestMatch, longestBelow]
  | cons byte key ih =>
    have hlocal := longestInByte_or h byte (show 7 < 8 by omega)
    rw [bitsOf_cons, longestMatch_append, length_byteBits, ← hlocal, Option.or_assoc,
      Option.or_assoc, lookup]
    cases hchild : n.branches byte with
    | some child => exact ih (h.branch hchild) _
    | none =>
      have hrest := ih (h.no_branch hchild) none
      rw [lookup_empty, Option.or_none] at hrest
      rw [← hrest, Option.none_or]

end TrieNode

/-! ## Tries -/

/-- The head of a prefix splits into whole bytes and the bits of one more byte. -/
theorem splitPrefix_eq {pre : List Byte} {prefixLength : ℕ} (h : prefixLength ≤ 8 * pre.length) :
    ∃ bytes byte r, r < 8 ∧ splitPrefix pre prefixLength = some (bytes, TrieNode.prefixKey r byte) ∧
      (bitsOf pre).take prefixLength = bitsOf bytes ++ (byteBits byte).take r := by
  induction pre generalizing prefixLength with
  | nil =>
    obtain rfl : prefixLength = 0 := by simpa using h
    exact ⟨[], 0, 0, by omega, rfl, rfl⟩
  | cons byte pre ih =>
    rw [List.length_cons] at h
    by_cases hlong : 8 ≤ prefixLength
    · have hshort : prefixLength - 8 ≤ 8 * pre.length := by omega
      obtain ⟨bytes, byte', r, hr, hsplit, hbits⟩ := ih hshort
      refine ⟨byte :: bytes, byte', r, hr, by rw [splitPrefix, if_pos hlong, hsplit]; rfl, ?_⟩
      rw [bitsOf_cons, bitsOf_cons, List.append_assoc, ← hbits, List.take_append, length_byteBits,
        List.take_of_length_le (by rw [length_byteBits]; exact hlong)]
    · refine ⟨[], byte, prefixLength, by omega, by rw [splitPrefix, if_neg hlong], ?_⟩
      rw [bitsOf_cons, List.take_append_of_le_length (by rw [length_byteBits]; omega)]
      rfl

namespace LpmTrie

/-- What the trie answers for the map `m`: lookups find the value of the longest
prefix of the key, the other reads answer for one prefix, and a deletion reports
whether the prefix was stored. -/
structure Answers (t : LpmTrie) (m : List Bool → Option ℕ) : Prop where
  lookup : ∀ key, key.length = t.keyWidthBytes →
    ∃ found, t.lookup key = some found ∧ LongestMatch m (bitsOf key) found
  retrieveValue : ∀ pre prefixLength, prefixLength ≤ 8 * pre.length →
    t.retrieveValue pre prefixLength = some (m ((bitsOf pre).take prefixLength))
  hasPrefix : ∀ pre prefixLength, prefixLength ≤ 8 * pre.length →
    t.hasPrefix pre prefixLength = some (m ((bitsOf pre).take prefixLength)).isSome
  delete : ∀ pre prefixLength, prefixLength ≤ 8 * pre.length →
    (t.delete pre prefixLength).map Prod.fst = some (m ((bitsOf pre).take prefixLength)).isSome

/-- A trie whose nodes represent a map answers for it. -/
theorem answers_of_represents {t : LpmTrie} {m : List Bool → Option ℕ}
    (h : t.root.Represents m) : t.Answers m := by
  have hget : ∀ pre prefixLength, prefixLength ≤ 8 * pre.length → ∃ bytes key,
      splitPrefix pre prefixLength = some (bytes, key) ∧
        t.root.get bytes key = m ((bitsOf pre).take prefixLength) := by
    intro pre prefixLength hlen
    obtain ⟨bytes, byte, r, hr, hsplit, hbits⟩ := splitPrefix_eq hlen
    exact ⟨bytes, _, hsplit, by rw [h bytes byte r hr, hbits]⟩
  constructor
  · intro key hlen
    refine ⟨longestMatch m (bitsOf key), ?_, longestMatch_spec m _⟩
    rw [LpmTrie.lookup, if_pos hlen.ge, ← hlen, List.take_length, TrieNode.lookup_eq h, Option.or_none]
  · intro pre prefixLength hlen
    obtain ⟨bytes, key, hsplit, hm⟩ := hget pre prefixLength hlen
    simp [LpmTrie.retrieveValue, hsplit, hm]
  · intro pre prefixLength hlen
    obtain ⟨bytes, key, hsplit, hm⟩ := hget pre prefixLength hlen
    simp [LpmTrie.hasPrefix, LpmTrie.retrieveValue, hsplit, hm]
  · intro pre prefixLength hlen
    obtain ⟨bytes, key, hsplit, hm⟩ := hget pre prefixLength hlen
    rw [← hm, delete_of_split hsplit]
    cases t.root.get bytes key with
    | none => rfl
    | some value => cases t.releaseMemory <;> rfl

end LpmTrie

/-! ## Runs -/

/-- The two operations that change a trie. -/
inductive LpmOp where
  | insert (pre : List Byte) (prefixLength value : ℕ)
  | delete (pre : List Byte) (prefixLength : ℕ)

/-- The prefix has as many bits as the operation reads. -/
def LpmOp.WellFormed : LpmOp → Prop
  | .insert pre prefixLength _ => prefixLength ≤ 8 * pre.length
  | .delete pre prefixLength => prefixLength ≤ 8 * pre.length

/-- What the operation does to the map. -/
def LpmOp.apply (m : List Bool → Option ℕ) : LpmOp → List Bool → Option ℕ
  | .insert pre prefixLength value => Function.update m ((bitsOf pre).take prefixLength) (some value)
  | .delete pre prefixLength => Function.update m ((bitsOf pre).take prefixLength) none

/-- One operation on the trie. -/
def LpmTrie.step (t : LpmTrie) : LpmOp → Option LpmTrie
  | .insert pre prefixLength value => t.insert pre prefixLength value
  | .delete pre prefixLength => (t.delete pre prefixLength).map Prod.snd

/-- No operation changes the two parameters of the trie. -/
theorem LpmTrie.step_const {t t' : LpmTrie} {op : LpmOp} (h : t.step op = some t') :
    t'.releaseMemory = t.releaseMemory ∧ t'.keyWidthBytes = t.keyWidthBytes := by
  cases op with
  | insert pre prefixLength value =>
    obtain ⟨_, -, hpair⟩ := Option.bind_eq_some_iff.mp h
    cases hpair
    exact ⟨rfl, rfl⟩
  | delete pre prefixLength =>
    obtain ⟨_, hdelete, rfl⟩ := Option.map_eq_some_iff.mp h
    obtain ⟨⟨bytes, key⟩, hsplit, -⟩ := Option.bind_eq_some_iff.mp hdelete
    rw [delete_of_split hsplit, Option.some.injEq] at hdelete
    subst hdelete
    split_ifs <;> exact ⟨rfl, rfl⟩

/-- A stored prefix is deleted only with `release_memory` on, and only when no node that
the counters give back stores another prefix. -/
def LpmTrie.DeletesSafely (t : LpmTrie) : LpmOp → Prop
  | .insert .. => True
  | .delete pre prefixLength => ∀ bytes key, splitPrefix pre prefixLength = some (bytes, key) →
      t.root.get bytes key ≠ none → t.releaseMemory = true ∧ t.root.DeleteSafe bytes key

/-- One operation keeps the trie in step with the map exactly when it deletes safely. -/
theorem LpmTrie.step_represents {t : LpmTrie} {m : List Bool → Option ℕ}
    (h : t.root.Represents m) (op : LpmOp) (hwf : op.WellFormed) :
    ∃ t', t.step op = some t' ∧ (t'.root.Represents (op.apply m) ↔ t.DeletesSafely op) := by
  cases op with
  | insert pre prefixLength value =>
    obtain ⟨bytes, byte, r, hr, hsplit, hbits⟩ := splitPrefix_eq hwf
    refine ⟨_, by rw [step, LpmTrie.insert, hsplit]; rfl, iff_of_true ?_ trivial⟩
    rw [LpmOp.apply, hbits]
    exact TrieNode.represents_insert h bytes byte hr value
  | delete pre prefixLength =>
    obtain ⟨bytes, byte, r, hr, hsplit, hbits⟩ := splitPrefix_eq hwf
    simp only [step, delete_of_split hsplit, Option.map_some, DeletesSafely, hsplit,
      Option.some.injEq, Prod.mk.injEq, and_imp, exists_eq_left', LpmOp.apply, hbits]
    have hm := h bytes byte r hr
    cases hget : t.root.get bytes (TrieNode.prefixKey r byte) with
    | none =>
      refine iff_of_true ?_ fun bytes' key' hb hk hne => ?_
      · rw [hget] at hm
        rwa [Option.isNone_none, if_pos rfl, hm, Function.update_eq_self]
      · subst hb hk
        exact absurd hget hne
    | some value =>
      have hstored : t.root.get bytes (TrieNode.prefixKey r byte) ≠ none := by rw [hget]; simp
      have hcond : (∀ bytes' key', bytes = bytes' → TrieNode.prefixKey r byte = key' →
          t.root.get bytes' key' ≠ none → t.releaseMemory = true ∧ t.root.DeleteSafe bytes' key') ↔
          t.releaseMemory = true ∧ t.root.DeleteSafe bytes (TrieNode.prefixKey r byte) :=
        ⟨fun hall => hall _ _ rfl rfl hstored, fun hboth _ _ hb hk _ => by subst hb hk; exact hboth⟩
      rw [hcond]
      cases hrel : t.releaseMemory with
      | true => simpa using TrieNode.represents_delete_iff h hr hstored
      | false =>
        refine iff_of_false (fun hrep => ?_) (by simp)
        have hgone := hrep bytes byte r hr
        rw [Function.update_self] at hgone
        simp [hget] at hgone

end Bm
