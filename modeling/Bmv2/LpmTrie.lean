/-
# The longest-prefix-match trie

`bf_lpm_trie.c`: a trie over the bytes of a prefix.  A node keeps the branches to
its children, by byte, and the prefixes that end inside it, under a key that packs
the last zero to seven bits.  Two 8-bit counters of branches and prefixes decide
when a node is given back.

The Judy arrays are finite maps.  A node owns its children here, so the parent and
child-id fields of the C nodes, which only lead back to the branch a node hangs
on, do not appear; `delete` follows the way back up by its recursion instead.
-/
import Bmv2.Lib.Bytes
import Bmv2.Lib.PrefixMap
import Bmv2.Lib.Runs

namespace Bm

/-! ## Nodes -/

/-- `node_s`. -/
inductive TrieNode where
  | mk (branches : Byte → Option TrieNode) (prefixes : ℕ → Option ℕ) (branchNum prefNum : Byte)

namespace TrieNode

/-- `PJLarray_branches`. -/
def branches : TrieNode → Byte → Option TrieNode
  | mk branches _ _ _ => branches

/-- `PJLarray_prefixes`. -/
def prefixes : TrieNode → ℕ → Option ℕ
  | mk _ prefixes _ _ => prefixes

/-- `branch_num`. -/
def branchNum : TrieNode → Byte
  | mk _ _ branchNum _ => branchNum

/-- `pref_num`. -/
def prefNum : TrieNode → Byte
  | mk _ _ _ prefNum => prefNum

/-- `allocate_node`: all zero. -/
def empty : TrieNode := mk (fun _ => none) (fun _ => none) 0 0

/-- `get_prefix_key`. -/
def prefixKey (prefixLength : ℕ) (byte : Byte) : ℕ :=
  if prefixLength = 0 then 0 else (byte.toNat >>> (8 - prefixLength)) + prefixLength <<< 8

/-- `insert_prefix`, with the update of `pref_num` at its one caller: a stored value of
0 counts as absent. -/
def insertPrefix (n : TrieNode) (key value : ℕ) : TrieNode :=
  mk n.branches (Function.update n.prefixes key (some value)) n.branchNum
    (match n.prefixes key with
      | some (_ + 1) => n.prefNum
      | _ => n.prefNum + 1)

/-- `delete_prefix`, with the update of `pref_num` at its one caller. -/
def deletePrefix (n : TrieNode) (key : ℕ) : TrieNode :=
  mk n.branches (Function.update n.prefixes key none) n.branchNum (n.prefNum - 1)

/-- Write a branch (`set_next_node`, or a change below an existing child). -/
def setBranch (n : TrieNode) (byte : Byte) (child : TrieNode) : TrieNode :=
  mk (Function.update n.branches byte (some child)) n.prefixes n.branchNum n.prefNum

/-- A new child: `set_next_node` and `branch_num++`. -/
def addBranch (n : TrieNode) (byte : Byte) (child : TrieNode) : TrieNode :=
  mk (Function.update n.branches byte (some child)) n.prefixes (n.branchNum + 1) n.prefNum

/-- `delete_branch`, `free` and `branch_num--`. -/
def deleteBranch (n : TrieNode) (byte : Byte) : TrieNode :=
  mk (Function.update n.branches byte none) n.prefixes (n.branchNum - 1) n.prefNum

section Accessors

variable (n child : TrieNode) (byte byte' : Byte) (key key' value : ℕ)

@[simp] theorem branches_insertPrefix : (n.insertPrefix key value).branches = n.branches := rfl

@[simp] theorem branches_deletePrefix : (n.deletePrefix key).branches = n.branches := rfl

@[simp] theorem prefixes_setBranch : (n.setBranch byte child).prefixes = n.prefixes := rfl

@[simp] theorem prefixes_addBranch : (n.addBranch byte child).prefixes = n.prefixes := rfl

@[simp] theorem prefixes_deleteBranch : (n.deleteBranch byte).prefixes = n.prefixes := rfl

@[simp] theorem prefixes_insertPrefix :
    (n.insertPrefix key value).prefixes key' = if key' = key then some value else n.prefixes key' :=
  Function.update_apply ..

@[simp] theorem prefixes_deletePrefix :
    (n.deletePrefix key).prefixes key' = if key' = key then none else n.prefixes key' :=
  Function.update_apply ..

@[simp] theorem branches_setBranch :
    (n.setBranch byte child).branches byte' = if byte' = byte then some child else n.branches byte' :=
  Function.update_apply ..

@[simp] theorem branches_addBranch :
    (n.addBranch byte child).branches byte' = if byte' = byte then some child else n.branches byte' :=
  Function.update_apply ..

@[simp] theorem branches_deleteBranch :
    (n.deleteBranch byte).branches byte' = if byte' = byte then none else n.branches byte' :=
  Function.update_apply ..

end Accessors

/-- The descent of `bf_lpm_trie_insert` along whole bytes, then `insert_prefix`. -/
def insert (value : ℕ) : TrieNode → List Byte → ℕ → TrieNode
  | n, [], key => n.insertPrefix key value
  | n, byte :: bytes, key =>
      match n.branches byte with
      | some child => n.setBranch byte (child.insert value bytes key)
      | none => n.addBranch byte (empty.insert value bytes key)

/-- The descent of `bf_lpm_trie_retrieve_value`, then `get_prefix_ptr`. -/
def get : TrieNode → List Byte → ℕ → Option ℕ
  | n, [], key => n.prefixes key
  | n, byte :: bytes, key =>
      match n.branches byte with
      | some child => child.get bytes key
      | none => none

/-- The test of the loop that gives nodes back. -/
def countersZero (n : TrieNode) : Bool := n.prefNum == 0 && n.branchNum == 0

/-- The removing part of `bf_lpm_trie_delete` for a prefix that is stored.  The
second component says that the loop that gives nodes back stands at this node. -/
def delete : TrieNode → List Byte → ℕ → TrieNode × Bool
  | n, [], key => (n.deletePrefix key, true)
  | n, byte :: bytes, key =>
      match n.branches byte with
      | none => (n, false)
      | some child =>
          let (child, here) := child.delete bytes key
          if here && child.countersZero then (n.deleteBranch byte, true)
          else (n.setBranch byte child, false)

/-- The loop of `bf_lpm_trie_lookup` over the prefixes of one to seven bits, longest
first. -/
def longestInByte (n : TrieNode) (byte : Byte) : ℕ → Option ℕ
  | 0 => none
  | i + 1 => (n.prefixes (prefixKey (i + 1) byte)).or (n.longestInByte byte i)

/-- The outer loop of `bf_lpm_trie_lookup`; `found` is the value found so far. -/
def lookup : TrieNode → List Byte → Option ℕ → Option ℕ
  | n, [], found => (n.prefixes 0).or found
  | n, byte :: key, found =>
      let found := (n.longestInByte byte 7).or ((n.prefixes 0).or found)
      match n.branches byte with
      | some child => child.lookup key found
      | none => found

end TrieNode

/-! ## The trie -/

/-- `bf_lpm_trie_s`. -/
structure LpmTrie where
  root : TrieNode
  keyWidthBytes : ℕ
  releaseMemory : Bool

/-- The loop at the head of every operation reads whole bytes off the prefix, then
the key of its last bits. -/
def splitPrefix : List Byte → ℕ → Option (List Byte × ℕ)
  | [], prefixLength => if prefixLength = 0 then some ([], 0) else none
  | byte :: pre, prefixLength =>
      if 8 ≤ prefixLength then
        (splitPrefix pre (prefixLength - 8)).map fun (bytes, key) => (byte :: bytes, key)
      else some ([], TrieNode.prefixKey prefixLength byte)

namespace LpmTrie

/-- `bf_lpm_trie_create`. -/
def create (keyWidthBytes : ℕ) (autoShrink : Bool) : Option LpmTrie :=
  if keyWidthBytes ≤ 64 then some ⟨TrieNode.empty, keyWidthBytes, autoShrink⟩ else none

/-- `bf_lpm_trie_insert`. -/
def insert (t : LpmTrie) (pre : List Byte) (prefixLength value : ℕ) : Option LpmTrie := do
  let (bytes, key) ← splitPrefix pre prefixLength
  pure { t with root := t.root.insert value bytes key }

/-- `bf_lpm_trie_retrieve_value`. -/
def retrieveValue (t : LpmTrie) (pre : List Byte) (prefixLength : ℕ) : Option (Option ℕ) := do
  let (bytes, key) ← splitPrefix pre prefixLength
  pure (t.root.get bytes key)

/-- `bf_lpm_trie_has_prefix`. -/
def hasPrefix (t : LpmTrie) (pre : List Byte) (prefixLength : ℕ) : Option Bool :=
  (t.retrieveValue pre prefixLength).map Option.isSome

/-- `bf_lpm_trie_lookup`. -/
def lookup (t : LpmTrie) (key : List Byte) : Option (Option ℕ) :=
  if t.keyWidthBytes ≤ key.length then some (t.root.lookup (key.take t.keyWidthBytes) none)
  else none

/-- `bf_lpm_trie_delete`: without `release_memory` nothing is removed. -/
def delete (t : LpmTrie) (pre : List Byte) (prefixLength : ℕ) : Option (Bool × LpmTrie) := do
  let (bytes, key) ← splitPrefix pre prefixLength
  if (t.root.get bytes key).isNone then pure (false, t)
  else if t.releaseMemory then pure (true, { t with root := (t.root.delete bytes key).1 })
  else pure (true, t)

theorem delete_of_split {t : LpmTrie} {pre : List Byte} {prefixLength : ℕ} {bytes : List Byte}
    {key : ℕ} (hsplit : splitPrefix pre prefixLength = some (bytes, key)) :
    t.delete pre prefixLength = some (
      if (t.root.get bytes key).isNone then (false, t)
      else if t.releaseMemory then (true, { t with root := (t.root.delete bytes key).1 })
      else (true, t)) := by
  rw [delete, hsplit]
  simp only [Option.bind_eq_bind, Option.bind_some]
  split_ifs <;> rfl

end LpmTrie

end Bm
