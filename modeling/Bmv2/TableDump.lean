/-
# Dumps of tables

`serialize` and `deserialize` of the tables (`match_tables.cpp`) and of action entries (`actions.cpp`), for
exact and LPM tables without direct meters.  Actions are written as their ids, nodes as their names, and a
sentinel stands for no node.  The group selector is the one that the table comes with.

* `ActionEntry.reads`: an entry is read *into* the one that is there, whose data and node may stay;
* `deserialize_restores`: what a dump makes of a new table, of each of the three kinds; that of a table of
  groups can be read exactly when the handles of the groups have no gaps.
-/
import Bmv2.Expressions
import Bmv2.NextNodes
import Bmv2.UnitTwins

namespace Bm

open TextStream

/-! ## Numbers in hexadecimal -/

namespace Data

/-- The digits, with their numbers. -/
abbrev Digits (cs : List Char) (ds : List ℕ) : Prop := List.Forall₂ (fun c d => char2digit c = some d) cs ds

/-- The number that digits denote, after the digits of `acc`. -/
def hexValue (acc : ℕ) (ds : List ℕ) : ℕ := ds.foldl (fun acc d => 16 * acc + d) acc

theorem hexValue_cons (acc d : ℕ) (ds : List ℕ) : hexValue acc (d :: ds) = hexValue (16 * acc + d) ds := rfl

theorem hexValue_append (acc : ℕ) (ds es : List ℕ) : hexValue acc (ds ++ es) = hexValue (hexValue acc ds) es :=
  List.foldl_append

theorem hexValue_eq (acc : ℕ) (ds : List ℕ) : hexValue acc ds = 16 ^ ds.length * acc + hexValue 0 ds := by
  induction ds generalizing acc with
  | nil => simp [hexValue]
  | cons d ds ih =>
    rw [hexValue_cons, hexValue_cons, ih, ih (16 * 0 + d), List.length_cons, pow_succ]
    ring

theorem char2digit_digitChar {n : ℕ} (hn : n < 16) : char2digit (Nat.digitChar n) = some n := by
  interval_cases n <;> decide

theorem char2digit_lt {c : Char} {d : ℕ} (h : char2digit c = some d) : d < 16 := by
  have hle : ∀ {a b : Char}, a ≤ b → a.toNat ≤ b.toNat := fun h => h
  rw [char2digit] at h
  split at h
  next hc =>
    obtain rfl := Option.some.inj h
    have h₀ := hle hc.1
    have h₁ := hle hc.2
    have : '9'.toNat = '0'.toNat + 9 := rfl
    omega
  next =>
    split at h
    next hc =>
      obtain rfl := Option.some.inj h
      have h₁ := hle hc.2
      have : 'F'.toNat = 'A'.toNat + 5 := rfl
      omega
    next =>
      split at h
      next hc =>
        obtain rfl := Option.some.inj h
        have h₁ := hle hc.2
        have : 'f'.toNat = 'a'.toNat + 5 := rfl
        omega
      next => cases h

/-- The digits of a number. -/
theorem digits_toDigits (n : ℕ) : ∃ ds, Digits (Nat.toDigits 16 n) ds ∧ hexValue 0 ds = n := by
  induction n using Nat.strong_induction_on with
  | _ n ih =>
    by_cases hlt : n < 16
    · rw [Nat.toDigits_of_lt_base hlt]
      exact ⟨[n], .cons (char2digit_digitChar hlt) .nil, by simp [hexValue]⟩
    · obtain ⟨ds, hds, hvalue⟩ := ih (n / 16) (by omega)
      rw [Nat.toDigits_of_base_le (by decide) (by omega)]
      refine ⟨ds ++ [n % 16], ?_, ?_⟩
      · exact List.rel_append hds (.cons (char2digit_digitChar (Nat.mod_lt n (by decide))) .nil)
      · rw [hexValue_append, hvalue, hexValue_cons, hexValue, List.foldl_nil]
        omega

theorem pow_digits {m n : ℕ} (h : 2 * m = n) : 16 ^ n = 2 ^ (8 * m) := by
  rw [← h, show (16 : ℕ) = 2 ^ 4 from rfl, ← pow_mul]
  congr 1
  omega

/-- Pairs of digits are bytes. -/
theorem hexBytes_spec (cs : List Char) {ds : List ℕ} (hds : Digits cs ds) (heven : cs.length % 2 = 0) :
    ∃ bytes, hexBytes cs = some bytes ∧ 2 * bytes.length = cs.length ∧ beNat bytes = hexValue 0 ds := by
  induction cs using hexBytes.induct generalizing ds with
  | case1 c d cs ih =>
    cases hds with
    | @cons _ hi _ ds' hhi hds =>
      cases hds with
      | @cons _ lo _ rest hlo hrest =>
        rw [List.length_cons, List.length_cons] at heven
        obtain ⟨bytes, hbytes, hlength, hvalue⟩ := ih hrest (by omega)
        have hhi16 := char2digit_lt hhi
        have hlo16 := char2digit_lt hlo
        refine ⟨BitVec.ofNat 8 (hi * 16 + lo) :: bytes, ?_, ?_, ?_⟩
        · rw [hexBytes, hhi, hlo, hbytes]
          rfl
        · rw [List.length_cons, List.length_cons, List.length_cons]
          omega
        · have hpow := pow_digits (hlength.trans hrest.length_eq)
          rw [beNat_cons, hvalue, hexValue_cons, hexValue_cons, hexValue_eq (16 * (16 * 0 + hi) + lo), hpow,
            BitVec.toNat_ofNat, Nat.mod_eq_of_lt (by omega)]
          ring
  | case2 cs hcs =>
    match cs, hcs with
    | [], _ =>
      cases hds
      exact ⟨[], rfl, rfl, rfl⟩
    | [c], _ => simp at heven
    | c :: d :: cs, hcs => exact absurd rfl (hcs c d cs)

theorem Digits.isSome {cs : List Char} {ds : List ℕ} (h : Digits cs ds) : ∀ c ∈ cs, char2digit c ≠ none := by
  induction h with
  | nil => simp
  | cons hc _ ih =>
    rw [List.forall_mem_cons, hc]
    exact ⟨Option.some_ne_none _, ih⟩

/-- **A number in hexadecimal** comes back. -/
theorem ofHexstring_toDigits (n : ℕ) : ofHexstring (String.ofList (Nat.toDigits 16 n)) = some (n : ℤ) := by
  obtain ⟨ds, hds, hvalue⟩ := digits_toDigits n
  have hne := Nat.toDigits_ne_nil (n := n) (b := 16)
  generalize Nat.toDigits 16 n = cs at hds hne
  have hsign : cs.head? ≠ some '-' := fun h => hds.isSome '-' (List.mem_of_mem_head? h) (by decide)
  have hprefix : cs.take 2 ≠ ['0', 'x'] := fun h =>
    hds.isSome 'x' (List.mem_of_mem_take (i := 2) (by rw [h]; simp)) (by decide)
  rw [ofHexstring, String.toList_ofList]
  simp only [hsign, hprefix, if_false]
  cases hds with
  | nil => exact absurd rfl hne
  | @cons c d cs ds hc hds =>
    simp only [List.length_cons]
    split
    next heven =>
      obtain ⟨bytes, hbytes, -, hbytesValue⟩ := hexBytes_spec (c :: cs) (.cons hc hds) heven
      rw [hbytes, ← hvalue, ← hbytesValue]
      rfl
    next hodd =>
      obtain ⟨bytes, hbytes, hlength, hbytesValue⟩ := hexBytes_spec cs hds (by omega)
      have hd := char2digit_lt hc
      have hpow := pow_digits (hlength.trans hds.length_eq)
      rw [hc, hbytes]
      change some (beNat (BitVec.ofNat 8 d :: bytes) : ℤ) = some (n : ℤ)
      rw [beNat_cons, hbytesValue, ← hvalue, hexValue_cons, hexValue_eq (16 * 0 + d), hpow, BitVec.toNat_ofNat,
        Nat.mod_eq_of_lt (by omega), Nat.mul_zero, Nat.zero_add]

end Data

/-! ## Action entries -/

/-- The numbers and names by which a dump refers to actions and control-flow nodes, and how `P4Objects` finds
what they stand for. -/
structure P4ObjectNames where
  actionId : ℕ → ℤ
  nodeName : ℕ → List Char
  getActionById : ℤ → Option ℕ
  getControlNode : List Char → Option ℕ

/-- What is written where there is no node. -/
def nullName : List Char := ['_', '_', 'N', 'U', 'L', 'L', '_', '_']

namespace P4ObjectNames

variable (names : P4ObjectNames)

/-- The name of a next node, or of none. -/
def writeNode (nextNode : Option ℕ) : List Char := line (nextNode.elim nullName names.nodeName)

/-- A next node is read; the pointer stays as it is when there is none. -/
def readNode (nextNode : Option ℕ) : Reader (Option ℕ) := do
  let nextNodeName ← word
  if nextNodeName = nullName then pure nextNode
  else
    let node ← liftM (names.getControlNode nextNodeName)
    pure (some node)

/-- The action is found by its id, which is not the one of no action. -/
def KnowsAction (actionFn : ℕ) : Prop :=
  names.actionId actionFn ≠ -1 ∧ names.getActionById (names.actionId actionFn) = some actionFn

/-- The node is found by its name, which is a word and not the one of no node. -/
def KnowsNode (node : ℕ) : Prop :=
  names.nodeName node ≠ [] ∧ (∀ c ∈ names.nodeName node, space c = false) ∧ names.nodeName node ≠ nullName ∧
    names.getControlNode (names.nodeName node) = some node

end P4ObjectNames

namespace ActionFnEntry

variable (names : P4ObjectNames)

/-- `ActionFnEntry::serialize`. -/
def serialize (entry : ActionFnEntry) : List Char :=
  match entry.actionFn with
  | none => line (intDigits (-1))
  | some actionFn => line (intDigits (names.actionId actionFn)) ++
      (line (Nat.toDigits 10 entry.actionData.length) ++ entry.actionData.flatMap fun d => line (Nat.toDigits 16 d))

/-- One round of the loop of `ActionFnEntry::deserialize`. -/
def readData (entry : ActionFnEntry) : Reader ActionFnEntry := do
  let dataHex ← word
  let data ← liftM (Data.ofHexstring (String.ofList dataHex))
  pure { entry with actionData := entry.actionData ++ [data.toNat] }

/-- `ActionFnEntry::deserialize`: the data are put behind those that the entry has. -/
def deserialize (entry : ActionFnEntry) : Reader ActionFnEntry := do
  let id ← int
  if id = -1 then pure { entry with actionFn := none }
  else
    let actionFn ← liftM (names.getActionById id)
    let s ← nat
    loop readData s { entry with actionFn := some actionFn }

/-- What the entry `old` becomes when the entry is read into it. -/
def readInto (entry old : ActionFnEntry) : ActionFnEntry :=
  match entry.actionFn with
  | none => { old with actionFn := none }
  | some actionFn => ⟨some actionFn, old.actionData ++ entry.actionData⟩

end ActionFnEntry

namespace ActionEntry

variable (names : P4ObjectNames)

/-- `ActionEntry::serialize`. -/
def serialize (entry : ActionEntry) : List Char :=
  entry.actionFn.serialize names ++ names.writeNode entry.nextNode

/-- `ActionEntry::deserialize`. -/
def deserialize (entry : ActionEntry) : Reader ActionEntry := do
  let actionFn ← entry.actionFn.deserialize names
  let nextNode ← names.readNode entry.nextNode
  pure ⟨actionFn, nextNode⟩

/-- What the entry `old` becomes when the entry is read into it. -/
def readInto (entry old : ActionEntry) : ActionEntry :=
  ⟨entry.actionFn.readInto old.actionFn, entry.nextNode.or old.nextNode⟩

/-- Action and next node are known. -/
def Known (entry : ActionEntry) : Prop :=
  (∀ a ∈ entry.actionFn.actionFn, names.KnowsAction a) ∧ ∀ n ∈ entry.nextNode, names.KnowsNode n

/-- The values of a table of actions; an entry is read into a new one. -/
def format : ValueFormat ActionEntry where
  serialize := serialize names
  deserialize := deserialize names {}

end ActionEntry

section ReadEntries

variable {names : P4ObjectNames}

theorem P4ObjectNames.reads_node {nextNode : Option ℕ} (hknown : ∀ n ∈ nextNode, names.KnowsNode n)
    (old : Option ℕ) : Reads (names.readNode old) (names.writeNode nextNode) (nextNode.or old) := by
  cases nextNode with
  | none =>
    have hspace : ∀ c ∈ nullName, space c = false := by simp [nullName, space]
    exact (reads_word hspace (List.cons_ne_nil _ _)).bind_pure (if_pos rfl)
  | some n =>
    obtain ⟨hne, hspace, hnull, hget⟩ := hknown n rfl
    refine (reads_word hspace hne).bind_pure ?_
    rw [if_neg hnull, hget]
    rfl

theorem not_space_toDigits (n : ℕ) : ∀ c ∈ Nat.toDigits 16 n, space c = false := by
  obtain ⟨ds, hds, -⟩ := Data.digits_toDigits n
  intro c hc
  by_contra hspace
  refine hds.isSome c hc ?_
  rw [Bool.not_eq_false, space, Bool.or_eq_true, decide_eq_true_eq, Bool.and_eq_true, decide_eq_true_eq,
    decide_eq_true_eq] at hspace
  have hle {a b : Char} (h : a ≤ b) : a.toNat ≤ b.toNat := h
  have hlow : ∀ a : Char, 48 ≤ a.toNat → ¬ a ≤ c := by
    intro a ha hac
    have := hle hac
    rcases hspace with rfl | hspace
    · have : ' '.toNat = 32 := rfl
      omega
    · omega
  rw [Data.char2digit, if_neg fun h => hlow _ (by decide) h.1, if_neg fun h => hlow _ (by decide) h.1,
    if_neg fun h => hlow _ (by decide) h.1]

theorem ActionFnEntry.reads (entry : ActionFnEntry) (hknown : ∀ a ∈ entry.actionFn, names.KnowsAction a)
    (old : ActionFnEntry) : Reads (old.deserialize names) (entry.serialize names) (entry.readInto old) := by
  obtain ⟨actionFn, actionData⟩ := entry
  cases actionFn with
  | none => exact (reads_int (-1)).bind_pure (if_pos rfl)
  | some a =>
    obtain ⟨hid, hget⟩ := hknown a rfl
    refine (reads_int (names.actionId a)).bind ?_
    rw [if_neg hid]
    refine Reads.of_lift hget ((reads_nat actionData.length).bind ?_)
    -- after each round the data read so far are behind those of the old entry
    obtain ⟨entry, hreads, hentry⟩ := Reads.loop readData (fun d => line (Nat.toDigits 16 d))
      (I := fun done entry => entry = ⟨some a, old.actionData ++ done⟩) actionData
      (fun done d todo entry _ hentry => by
        refine ⟨⟨some a, old.actionData ++ (done ++ [d])⟩, ?_, rfl⟩
        refine (reads_word (not_space_toDigits d) Nat.toDigits_ne_nil).bind_pure ?_
        rw [Data.ofHexstring_toDigits, hentry, ← List.append_assoc]
        rfl)
      (s := ⟨some a, old.actionData⟩) (by rw [List.append_nil])
    rwa [hentry] at hreads

theorem ActionEntry.reads {entry : ActionEntry} (hknown : entry.Known names) (old : ActionEntry) :
    Reads (old.deserialize names) (entry.serialize names) (entry.readInto old) :=
  (entry.actionFn.reads hknown.1 old.actionFn).bind
    ((P4ObjectNames.reads_node hknown.2 old.nextNode).bind_pure rfl)

/-- An entry with an action is read back. -/
theorem ActionEntry.restores {entry : ActionEntry} (hknown : entry.Known names)
    (haction : entry.actionFn.actionFn.isSome) : (ActionEntry.format names).Restores entry := by
  have hreads := ActionEntry.reads hknown {}
  obtain ⟨⟨actionFn, actionData⟩, nextNode⟩ := entry
  obtain ⟨a, rfl⟩ := Option.isSome_iff_exists.mp haction
  rw [readInto, ActionFnEntry.readInto, Option.or_none] at hreads
  exact hreads

end ReadEntries

/-! ## Tables of actions -/

section Tables

variable {K S : Type} [MatchKey K] [LookupStructure K S] [DumpKey K]

namespace MatchTable

/-- `MatchTableAbstract::serialize` with `MatchTable::serialize_`. -/
def serialize (names : P4ObjectNames) (name : List Char) (t : MatchTable K S) : Option (List Char) := do
  let unit ← t.matchUnit.serialize (ActionEntry.format names)
  pure (line name ++ (names.writeNode t.nextNodeMiss ++ (unit ++ t.defaultEntry.serialize names)))

/-- `MatchTableAbstract::deserialize` with `MatchTable::deserialize_`. -/
def deserialize (names : P4ObjectNames) (name : List Char) (now : ℕ → ℕ) (t : MatchTable K S) :
    Reader (MatchTable K S) := do
  let nameSentinel ← word
  if nameSentinel ≠ name then failure
  else
    let nextNodeMiss ← names.readNode t.nextNodeMiss
    let matchUnit ← t.matchUnit.deserialize (ActionEntry.format names) now
    let defaultEntry ← t.defaultEntry.deserialize names
    pure { t with nextNodeMiss, matchUnit, defaultEntry }

end MatchTable

/-! ## Tables of members -/

namespace IndirectIndexRefCount

/-- One of the two arrays. -/
def writeCounts (counts : List ℕ) : List Char :=
  line (Nat.toDigits 10 counts.length) ++ counts.flatMap fun c => line (Nat.toDigits 10 c)

/-- One of the two arrays is read. -/
def readCounts : Reader (List ℕ) := do
  let s ← nat
  loop (fun counts => do
    let c ← nat
    pure (counts ++ [c])) s []

/-- `IndirectIndexRefCount::serialize`. -/
def serialize (rc : IndirectIndexRefCount) : List Char := writeCounts rc.mbrCount ++ writeCounts rc.grpCount

/-- `IndirectIndexRefCount::deserialize`. -/
def deserialize : Reader IndirectIndexRefCount := do
  let mbrCount ← readCounts
  let grpCount ← readCounts
  pure { mbrCount, grpCount }

end IndirectIndexRefCount

/-- A flag, as a number. -/
def writeFlag (b : Bool) : List Char := line (Nat.toDigits 10 b.toNat)

/-- A flag is read; no other number is one. -/
def readFlag : Reader Bool := do
  let n ← nat
  if n = 0 then pure false else if n = 1 then pure true else failure

namespace MatchTableIndirect

/-- A member in `serialize_`. -/
def serializeMember (names : P4ObjectNames) (t : MatchTableIndirect K S) (mbr : ℕ) : Option (List Char) := do
  let actionEntry ← t.actionEntries[mbr]?
  pure (line (Nat.toDigits 10 mbr) ++ actionEntry.serialize names)

/-- `MatchTableIndirect::serialize_`. -/
def serialize_ (names : P4ObjectNames) (t : MatchTableIndirect K S) : Option (List Char) := do
  let unit ← t.matchUnit.serialize IndirectIndex.format
  let members ← (t.mbrHandles.sort (· ≤ ·)).mapM (t.serializeMember names)
  pure (unit ++ (writeFlag t.defaultSet ++ ((if t.defaultSet then IndirectIndex.format.serialize t.defaultIndex else
    []) ++
    (line (Nat.toDigits 10 t.actionEntries.length) ++ (line (Nat.toDigits 10 t.numMembers) ++
      (members.flatten ++ t.indexRefCount.serialize))))))

/-- One round of the loop of `deserialize_`. -/
def deserializeMember (names : P4ObjectNames) (t : MatchTableIndirect K S) : Reader (MatchTableIndirect K S) := do
  let mbr ← nat
  if mbr ∈ t.mbrHandles then failure
  else
    let actionEntry ← liftM t.actionEntries[mbr]?
    let actionEntry ← actionEntry.deserialize names
    pure { t with mbrHandles := insert mbr t.mbrHandles, actionEntries := t.actionEntries.set mbr actionEntry }

/-- The default index, which is written only when it is set. -/
def readDefaultIndex (defaultSet : Bool) (defaultIndex : IndirectIndex) : Reader IndirectIndex :=
  if defaultSet then IndirectIndex.format.deserialize else pure defaultIndex

/-- `MatchTableIndirect::deserialize_`; `action_entries` is made larger or smaller. -/
def deserialize_ (names : P4ObjectNames) (now : ℕ → ℕ) (t : MatchTableIndirect K S) :
    Reader (MatchTableIndirect K S) := do
  let matchUnit ← t.matchUnit.deserialize IndirectIndex.format now
  let defaultSet ← readFlag
  let defaultIndex ← readDefaultIndex defaultSet t.defaultIndex
  let actionEntriesSize ← nat
  let actionEntries := t.actionEntries.take actionEntriesSize ++
    List.replicate (actionEntriesSize - t.actionEntries.length) ({} : ActionEntry)
  let numMembers ← nat
  let t ← loop (deserializeMember names) numMembers
    { t with matchUnit, defaultSet, defaultIndex, actionEntries, numMembers }
  let indexRefCount ← IndirectIndexRefCount.deserialize
  pure { t with indexRefCount }

/-- `MatchTableAbstract::serialize` for a table of members. -/
def serialize (names : P4ObjectNames) (name : List Char) (t : MatchTableIndirect K S) : Option (List Char) := do
  let body ← t.serialize_ names
  pure (line name ++ (names.writeNode t.nextNodeMiss ++ body))

/-- `MatchTableAbstract::deserialize` for a table of members. -/
def deserialize (names : P4ObjectNames) (name : List Char) (now : ℕ → ℕ) (t : MatchTableIndirect K S) :
    Reader (MatchTableIndirect K S) := do
  let nameSentinel ← word
  if nameSentinel ≠ name then failure
  else
    let nextNodeMiss ← names.readNode t.nextNodeMiss
    deserialize_ names now { t with nextNodeMiss }

end MatchTableIndirect

/-! ## Tables of groups -/

namespace MatchTableIndirectWS

/-- `GroupInfo::serialize`. -/
def writeGroup (mbrs : Finset ℕ) : List Char :=
  line (Nat.toDigits 10 mbrs.card) ++ (mbrs.sort (· ≤ ·)).flatMap fun mbr => line (Nat.toDigits 10 mbr)

/-- `GroupInfo::deserialize`: a member that is in the group already is not added again. -/
def readGroup (mbrs : Finset ℕ) : Reader (Finset ℕ) := do
  let s ← nat
  loop (fun mbrs => do
    let mbr ← nat
    pure (insert mbr mbrs)) s mbrs

/-- A group in `serialize_`. -/
def serializeGroup (t : MatchTableIndirectWS K S) (grp : ℕ) : Option (List Char) := do
  let mbrs ← t.groups[grp]?
  pure (line (Nat.toDigits 10 grp) ++ writeGroup mbrs)

/-- `MatchTableIndirectWS::serialize_`. -/
def serialize_ (names : P4ObjectNames) (t : MatchTableIndirectWS K S) : Option (List Char) := do
  let base ← t.toMatchTableIndirect.serialize_ names
  let groups ← (t.grpHandles.sort (· ≤ ·)).mapM t.serializeGroup
  pure (base ++ (line (Nat.toDigits 10 t.numGroups) ++ groups.flatten))

/-- One round of the loop of `deserialize_`; `insert_group` puts a group at most behind the last one. -/
def deserializeGroup (t : MatchTableIndirectWS K S) : Reader (MatchTableIndirectWS K S) := do
  let grp ← nat
  if grp ∈ t.grpHandles then failure
  else
    let groups ← liftM (putAt t.groups grp ∅)
    let mbrs ← liftM groups[grp]?
    let mbrs ← readGroup mbrs
    pure { t with grpHandles := insert grp t.grpHandles, groups := groups.set grp mbrs }

/-- `MatchTableIndirectWS::deserialize_`. -/
def deserialize_ (names : P4ObjectNames) (now : ℕ → ℕ) (t : MatchTableIndirectWS K S) :
    Reader (MatchTableIndirectWS K S) := do
  let base ← t.toMatchTableIndirect.deserialize_ names now
  let numGroups ← nat
  loop deserializeGroup numGroups { t with toMatchTableIndirect := base, numGroups }

/-- `MatchTableAbstract::serialize` for a table of groups. -/
def serialize (names : P4ObjectNames) (name : List Char) (t : MatchTableIndirectWS K S) : Option (List Char) := do
  let body ← t.serialize_ names
  pure (line name ++ (names.writeNode t.nextNodeMiss ++ body))

/-- `MatchTableAbstract::deserialize` for a table of groups. -/
def deserialize (names : P4ObjectNames) (name : List Char) (now : ℕ → ℕ) (t : MatchTableIndirectWS K S) :
    Reader (MatchTableIndirectWS K S) := do
  let nameSentinel ← word
  if nameSentinel ≠ name then failure
  else
    let nextNodeMiss ← names.readNode t.nextNodeMiss
    deserialize_ names now { t with nextNodeMiss }

end MatchTableIndirectWS

end Tables

/-! ## What a dump brings back -/

/-- The name of a table is a word. -/
def IsWord (name : List Char) : Prop := name ≠ [] ∧ ∀ c ∈ name, space c = false

section Restores

variable {K S : Type} [MatchKey K] [LookupStructure K S] [LawfulLookup K S] [DumpKey K] [DumpedLookup K S]
  {fs : List KeyField} {names : P4ObjectNames} {name : List Char}

/-- The head of a dump: the name of the table and the next node of a miss. -/
theorem reads_head {X : Type} (hname : IsWord name) {nextNode : Option ℕ}
    (hknown : ∀ n ∈ nextNode, names.KnowsNode n) (old : Option ℕ) {k : Option ℕ → Reader X} {text : List Char} {x : X}
    (hk : Reads (k (nextNode.or old)) text x) :
    Reads (do
      let nameSentinel ← word
      if nameSentinel ≠ name then failure
      else
        let node ← names.readNode old
        k node) (line name ++ (names.writeNode nextNode ++ text)) x := by
  refine (reads_word hname.2 hname.1).bind ?_
  rw [if_neg (not_not.mpr rfl)]
  exact (P4ObjectNames.reads_node hknown old).bind hk

/-- The body of a dump fails. -/
theorem fails_head {X : Type} (hname : IsWord name) {nextNode : Option ℕ}
    (hknown : ∀ n ∈ nextNode, names.KnowsNode n) (old : Option ℕ) {k : Option ℕ → Reader X} {text : List Char}
    (hk : Fails (k (nextNode.or old)) text) :
    Fails (do
      let nameSentinel ← word
      if nameSentinel ≠ name then failure
      else
        let node ← names.readNode old
        k node) (line name ++ (names.writeNode nextNode ++ text)) := by
  refine (reads_word hname.2 hname.1).bind_fails ?_
  rw [if_neg (not_not.mpr rfl)]
  exact (P4ObjectNames.reads_node hknown old).bind_fails hk

/-- Texts that are all there, one after the other. -/
theorem flatten_of_mapM {X : Type} {write : X → Option (List Char)} {xs : List X} {texts : List (List Char)}
    (h : xs.mapM write = some texts) : texts.flatten = xs.flatMap fun x => (write x).getD [] := by
  have hall := isSome_mapM_iff.mp (by rw [h]; rfl)
  have hmap := mapM_eq_some_map (g := write) (h := fun x => (write x).getD []) (l := xs) fun x hx => by
    obtain ⟨text, htext⟩ := Option.isSome_iff_exists.mp (hall x hx)
    rw [htext]
    rfl
  rw [hmap] at h
  cases h
  rfl

namespace MatchTable

/-- The names and numbers in a dump of the table are known, and its entries have actions. -/
structure Known (names : P4ObjectNames) (t : MatchTable K S) : Prop where
  entries : ∀ i e, t.matchUnit.live i = some e → e.value.Known names ∧ e.value.actionFn.actionFn.isSome
  defaultEntry : t.defaultEntry.Known names
  nextNodeMiss : ∀ n ∈ t.nextNodeMiss, names.KnowsNode n

/-- **A dump of a table of actions** is read back: the entries are restored, but the miss is read into the one
of the new table. -/
theorem deserialize_restores {t new : MatchTable K S} (hinv : t.matchUnit.Inv fs)
    (hversions : t.matchUnit.VersionsMatch) (hnew : new.matchUnit.IsFresh fs)
    (hshape : MatchUnit.SameShape t.matchUnit new.matchUnit) (hpos : 0 < t.matchUnit.nbytesKey) (hknown : t.Known names)
    (hname : IsWord name) {text : List Char} (htext : t.serialize names name = some text) (now : ℕ → ℕ) :
    ∃ t', Reads (new.deserialize names name now) text t' ∧ t.matchUnit.Restored fs t'.matchUnit ∧
      t'.nextNodeMiss = t.nextNodeMiss.or new.nextNodeMiss ∧
      t'.defaultEntry = t.defaultEntry.readInto new.defaultEntry := by
  obtain ⟨unit, hunit, htext⟩ := Option.bind_eq_some_iff.mp htext
  cases htext
  obtain ⟨mu, hreads, hrestored⟩ := MatchUnit.deserialize_restores hinv hversions hnew hshape hpos now
    (fun i e he => ActionEntry.restores (hknown.entries i e he).1 (hknown.entries i e he).2) hunit
  refine ⟨_, reads_head hname hknown.nextNodeMiss new.nextNodeMiss
    (hreads.bind ((ActionEntry.reads hknown.defaultEntry new.defaultEntry).bind_pure rfl)), hrestored, rfl, rfl⟩

end MatchTable

namespace IndirectIndexRefCount

theorem reads_counts (cs : List ℕ) : Reads readCounts (writeCounts cs) cs := by
  obtain ⟨s, hreads, hs⟩ := Reads.loop (fun counts => do
      let c ← nat
      pure (counts ++ [c])) (fun c => line (Nat.toDigits 10 c)) (I := fun done s => s = done) (s := []) cs
    (fun done c todo s _ hs => ⟨done ++ [c], (reads_nat c).bind_pure (by rw [hs]), rfl⟩) rfl
  rw [hs] at hreads
  exact (reads_nat cs.length).bind hreads

theorem reads (rc : IndirectIndexRefCount) : Reads deserialize rc.serialize rc :=
  (reads_counts rc.mbrCount).bind ((reads_counts rc.grpCount).bind_pure rfl)

end IndirectIndexRefCount

theorem reads_flag (b : Bool) : Reads readFlag (writeFlag b) b := by
  refine (reads_nat b.toNat).bind_pure ?_
  cases b <;> rfl

namespace MatchTableIndirect

/-- The members of the table, as they are stored. -/
structure Stored (names : P4ObjectNames) (t : MatchTableIndirect K S) : Prop where
  inRange : ∀ mbr ∈ t.mbrHandles, mbr < t.actionEntries.length
  numMembers : t.numMembers = t.mbrHandles.card
  known : ∀ mbr ∈ t.mbrHandles, ∀ e, t.actionEntries[mbr]? = some e → e.Known names ∧ e.actionFn.actionFn.isSome

/-- What a dump makes of a new table, from which the next node of a miss comes. -/
structure Restored (fs : List KeyField) (t new t' : MatchTableIndirect K S) : Prop where
  unit : t.matchUnit.Restored fs t'.matchUnit
  nextNodeMiss : t'.nextNodeMiss = new.nextNodeMiss
  emptyAction : t'.emptyAction = new.emptyAction
  defaultSet : t'.defaultSet = t.defaultSet
  defaultIndex : t.defaultSet = true → t'.defaultIndex = t.defaultIndex
  mbrHandles : t'.mbrHandles = t.mbrHandles
  numMembers : t'.numMembers = t.numMembers
  actionEntries : ∀ mbr ∈ t.mbrHandles, t'.actionEntries[mbr]? = t.actionEntries[mbr]?
  length_actionEntries : t'.actionEntries.length = t.actionEntries.length
  indexRefCount : t'.indexRefCount = t.indexRefCount

/-- What has been read of the members when those of `done` have been. -/
structure MembersRead (t base : MatchTableIndirect K S) (done : List ℕ) (s : MatchTableIndirect K S) : Prop where
  base : s = { base with mbrHandles := s.mbrHandles, actionEntries := s.actionEntries }
  mbrHandles : s.mbrHandles = done.toFinset
  length : s.actionEntries.length = t.actionEntries.length
  old : ∀ mbr ∈ done, s.actionEntries[mbr]? = t.actionEntries[mbr]?
  new : ∀ mbr ∉ done, mbr < t.actionEntries.length → s.actionEntries[mbr]? = some {}

omit [LookupStructure K S] [LawfulLookup K S] [DumpedLookup K S] [MatchKey K] [DumpKey K] in
/-- **Step lemma**: one member is read. -/
theorem MembersRead.step {t base : MatchTableIndirect K S} (ht : t.Stored names) {done : List ℕ}
    {s : MatchTableIndirect K S} (h : MembersRead t base done s) {mbr : ℕ} (hmbr : mbr ∈ t.mbrHandles)
    (hnew : mbr ∉ done) : ∃ s', Reads (deserializeMember names s) ((t.serializeMember names mbr).getD []) s' ∧
      MembersRead t base (done ++ [mbr]) s' := by
  have hlt := ht.inRange mbr hmbr
  obtain ⟨e, he⟩ : ∃ e, t.actionEntries[mbr]? = some e := ⟨_, List.getElem?_eq_getElem hlt⟩
  obtain ⟨hknown, haction⟩ := ht.known mbr hmbr e he
  have hvalue : Reads (ActionEntry.deserialize names {}) (e.serialize names) e := ActionEntry.restores hknown haction
  refine ⟨{ s with mbrHandles := insert mbr s.mbrHandles, actionEntries := s.actionEntries.set mbr e }, ?_, ?_⟩
  · rw [serializeMember, he]
    refine (reads_nat mbr).bind ?_
    rw [if_neg (by rw [h.mbrHandles, List.mem_toFinset]; exact hnew)]
    exact Reads.of_lift (h.new mbr hnew hlt) (hvalue.bind_pure rfl)
  · have hdone : ∀ i, i ∈ done ++ [mbr] ↔ i ∈ done ∨ i = mbr := fun i => by
      rw [List.mem_append, List.mem_singleton]
    refine ⟨?_, ?_, List.length_set.trans h.length, fun i hi => ?_, fun i hi hlt' => ?_⟩
    · rw [h.base]
    · rw [List.toFinset_append, h.mbrHandles, Finset.insert_eq, Finset.union_comm]
      rfl
    · by_cases hne : i = mbr
      · subst hne
        rw [he]
        exact List.getElem?_set_self (h.length.symm ▸ hlt)
      · rw [← h.old i (((hdone i).mp hi).resolve_right hne)]
        exact List.getElem?_set_ne (Ne.symm hne)
    · rw [hdone, not_or] at hi
      rw [← h.new i hi.1 hlt']
      exact List.getElem?_set_ne (Ne.symm hi.2)

/-- **A dump of a table of members** is read back by a new table. -/
theorem deserialize_restores {t new : MatchTableIndirect K S} (hinv : t.matchUnit.Inv fs)
    (hversions : t.matchUnit.VersionsMatch) (ht : t.Stored names) (hnew : new.matchUnit.IsFresh fs)
    (hshape : MatchUnit.SameShape t.matchUnit new.matchUnit) (hpos : 0 < t.matchUnit.nbytesKey)
    (hhandles : new.mbrHandles = ∅) (hentries : new.actionEntries = []) {text : List Char}
    (htext : t.serialize_ names = some text) (now : ℕ → ℕ) :
    ∃ t', Reads (new.deserialize_ names now) text t' ∧ t.Restored fs new t' := by
  obtain ⟨unit, hunit, htext⟩ := Option.bind_eq_some_iff.mp htext
  obtain ⟨members, hmembers, htext⟩ := Option.bind_eq_some_iff.mp htext
  cases htext
  obtain ⟨hnodup, hmem⟩ := MatchUnit.sort_handles t.mbrHandles
  obtain ⟨mu, hreads, hrestored⟩ := MatchUnit.deserialize_restores hinv hversions hnew hshape hpos now
    (fun i e _ => IndirectIndex.restores e.value) hunit
  obtain ⟨defaultIndex, hdefault, hindex⟩ : ∃ defaultIndex, Reads
      (readDefaultIndex t.defaultSet new.defaultIndex)
      (if t.defaultSet then IndirectIndex.format.serialize t.defaultIndex else []) defaultIndex ∧
      (t.defaultSet = true → defaultIndex = t.defaultIndex) := by
    cases t.defaultSet with
    | false => exact ⟨_, reads_pure _, fun h => by cases h⟩
    | true => exact ⟨_, IndirectIndex.restores t.defaultIndex, fun _ => rfl⟩
  let base : MatchTableIndirect K S := { new with
    matchUnit := mu, defaultSet := t.defaultSet, defaultIndex
    actionEntries := List.replicate t.actionEntries.length {}, numMembers := t.numMembers }
  obtain ⟨s, hloop, hs⟩ := Reads.loop (deserializeMember names)
    (fun mbr => (t.serializeMember names mbr).getD []) (I := MembersRead t base) (s := base)
    (t.mbrHandles.sort (· ≤ ·))
    (fun done mbr todo s heq hs => by
      refine hs.step ht ((hmem mbr).mp (by rw [heq]; simp)) fun hdone => ?_
      rw [heq, List.nodup_append] at hnodup
      exact hnodup.2.2 mbr hdone mbr List.mem_cons_self rfl)
    ⟨rfl, hhandles, List.length_replicate, by simp, fun mbr _ hlt => by
      rw [List.getElem?_replicate, if_pos hlt]⟩
  rw [Finset.length_sort, ← ht.numMembers] at hloop
  have hresize : new.actionEntries.take t.actionEntries.length ++
      List.replicate (t.actionEntries.length - new.actionEntries.length) ({} : ActionEntry) =
      List.replicate t.actionEntries.length ({} : ActionEntry) := by
    rw [hentries, List.take_nil, List.nil_append, List.length_nil, Nat.sub_zero]
  refine ⟨{ s with indexRefCount := t.indexRefCount }, ?_, ?_⟩
  · rw [flatten_of_mapM hmembers]
    refine hreads.bind ((reads_flag t.defaultSet).bind (hdefault.bind ?_))
    refine (reads_nat t.actionEntries.length).bind ((reads_nat t.numMembers).bind ?_)
    rw [hresize]
    exact hloop.bind ((IndirectIndexRefCount.reads t.indexRefCount).bind_pure rfl)
  · have hbase := hs.base
    have hmbrHandles : s.mbrHandles = t.mbrHandles := by
      rw [hs.mbrHandles]
      ext i
      rw [List.mem_toFinset, hmem]
    refine ⟨?_, ?_, ?_, ?_, fun h => ?_, hmbrHandles, ?_, fun mbr hmbr => hs.old mbr ((hmem mbr).mpr hmbr), hs.length,
      rfl⟩
    · rw [hbase]
      exact hrestored
    · rw [hbase]
    · rw [hbase]
    · rw [hbase]
    · rw [hbase]
      exact hindex h
    · rw [hbase]

end MatchTableIndirect

/-! ## Groups -/

/-- A list of handles in increasing order: it has no gaps, or there is a first one. -/
theorem range_or_gap (l : List ℕ) (m : ℕ) (hsorted : l.Pairwise (· < ·)) (hle : ∀ i ∈ l, m ≤ i) :
    l = List.range' m l.length ∨ ∃ n g todo, l = List.range' m n ++ g :: todo ∧ m + n < g := by
  induction l generalizing m with
  | nil => exact .inl rfl
  | cons a l ih =>
    obtain ⟨hlt, hrest⟩ := List.pairwise_cons.mp hsorted
    have ha := hle a List.mem_cons_self
    by_cases hm : m = a
    · subst hm
      rcases ih (m + 1) hrest (fun i hi => hlt i hi) with hrange | ⟨n, g, todo, hl, hgap⟩
      · refine .inl ?_
        rw [List.length_cons, List.range'_succ, ← hrange]
      · refine .inr ⟨n + 1, g, todo, ?_, by omega⟩
        rw [List.range'_succ, hl, List.cons_append]
    · exact .inr ⟨0, a, l, rfl, by omega⟩

namespace MatchTableIndirectWS

theorem reads_group (mbrs : Finset ℕ) : Reads (readGroup ∅) (writeGroup mbrs) mbrs := by
  obtain ⟨s, hreads, hs⟩ := Reads.loop (fun mbrs => do
      let mbr ← nat
      pure (insert mbr mbrs)) (fun mbr => line (Nat.toDigits 10 mbr))
    (I := fun done (s : Finset ℕ) => s = done.toFinset) (s := ∅) (mbrs.sort (· ≤ ·))
    (fun done mbr todo s _ hs => ⟨_, (reads_nat mbr).bind_pure rfl, by
      rw [List.toFinset_append, hs, Finset.insert_eq, Finset.union_comm]
      rfl⟩) rfl
  rw [Finset.length_sort, hs, Finset.sort_toFinset] at hreads
  exact (reads_nat mbrs.card).bind hreads

/-- What a dump makes of a new table, from which the next node of a miss comes. -/
structure Restored (fs : List KeyField) (t new t' : MatchTableIndirectWS K S) : Prop
    extends t.toMatchTableIndirect.Restored fs new.toMatchTableIndirect t'.toMatchTableIndirect where
  grpHandles : t'.grpHandles = t.grpHandles
  numGroups : t'.numGroups = t.numGroups
  groups : ∀ grp ∈ t.grpHandles, t'.groups[grp]? = t.groups[grp]?

/-- What has been read of the groups when those below `n` have been. -/
structure GroupsRead (t base : MatchTableIndirectWS K S) (n : ℕ) (s : MatchTableIndirectWS K S) : Prop where
  base : s = { base with grpHandles := s.grpHandles, groups := s.groups }
  grpHandles : s.grpHandles = Finset.range n
  length : s.groups.length = n
  groups : ∀ g < n, s.groups[g]? = t.groups[g]?

omit [MatchKey K] [LookupStructure K S] [LawfulLookup K S] [DumpKey K] [DumpedLookup K S] in
/-- **Step lemma**: the next group is read. -/
theorem GroupsRead.step {t base s : MatchTableIndirectWS K S} {n : ℕ} (h : GroupsRead t base n s) {mbrs : Finset ℕ}
    (hmbrs : t.groups[n]? = some mbrs) : ∃ s', Reads (deserializeGroup s) ((t.serializeGroup n).getD []) s' ∧
      GroupsRead t base (n + 1) s' := by
  refine ⟨{ s with grpHandles := insert n s.grpHandles, groups := (s.groups ++ [∅]).set n mbrs }, ?_, ?_⟩
  · rw [serializeGroup, hmbrs]
    refine (reads_nat n).bind ?_
    rw [if_neg (by rw [h.grpHandles, Finset.mem_range]; omega)]
    have hput : putAt s.groups n ∅ = some (s.groups ++ [∅]) := by
      rw [putAt, h.length, if_pos le_rfl, if_pos rfl]
    have hget : (s.groups ++ [∅])[n]? = some ∅ := by
      rw [List.getElem?_append_right h.length.le, h.length, Nat.sub_self]
      rfl
    exact Reads.of_lift hput (Reads.of_lift hget ((reads_group mbrs).bind_pure rfl))
  · have hlen : (s.groups ++ [∅]).length = n + 1 := by rw [List.length_append, h.length, List.length_singleton]
    refine ⟨?_, ?_, List.length_set.trans hlen, fun g hg => ?_⟩
    · rw [h.base]
    · rw [h.grpHandles, Finset.range_add_one]
    · by_cases hgn : g = n
      · subst hgn
        rw [hmbrs]
        exact List.getElem?_set_self (hlen.symm ▸ hg)
      · rw [← h.groups g (by omega)]
        exact (List.getElem?_set_ne (Ne.symm hgn)).trans (List.getElem?_append_left (by rw [h.length]; omega))

omit [MatchKey K] [LookupStructure K S] [LawfulLookup K S] [DumpKey K] [DumpedLookup K S] in
/-- A group behind a gap cannot be read. -/
theorem GroupsRead.fails {t base s : MatchTableIndirectWS K S} {n : ℕ} (h : GroupsRead t base n s) {g : ℕ}
    (hgap : n < g) {mbrs : Finset ℕ} (hmbrs : t.groups[g]? = some mbrs) :
    Fails (deserializeGroup s) ((t.serializeGroup g).getD []) := by
  rw [serializeGroup, hmbrs]
  refine (reads_nat g).bind_fails ?_
  rw [if_neg (by rw [h.grpHandles, Finset.mem_range]; omega)]
  exact fails_lift (by rw [putAt, h.length, if_neg (by omega)]) _ _

/-- **A dump of a table of groups** is read back by a new table, as long as the handles of the groups have no
gaps; otherwise it cannot be read. -/
theorem deserialize_restores {t new : MatchTableIndirectWS K S} (hinv : t.matchUnit.Inv fs)
    (hversions : t.matchUnit.VersionsMatch) (ht : t.toMatchTableIndirect.Stored names)
    (hnum : t.numGroups = t.grpHandles.card) (hnew : new.matchUnit.IsFresh fs)
    (hshape : MatchUnit.SameShape t.matchUnit new.matchUnit) (hpos : 0 < t.matchUnit.nbytesKey)
    (hhandles : new.mbrHandles = ∅) (hentries : new.actionEntries = []) (hgrpHandles : new.grpHandles = ∅)
    (hgroups : new.groups = []) {text : List Char} (htext : t.serialize_ names = some text) (now : ℕ → ℕ) :
    (t.grpHandles = Finset.range t.numGroups →
      ∃ t', Reads (new.deserialize_ names now) text t' ∧ t.Restored fs new t') ∧
    (t.grpHandles ≠ Finset.range t.numGroups → Fails (new.deserialize_ names now) text) := by
  obtain ⟨base, hbase, htext⟩ := Option.bind_eq_some_iff.mp htext
  obtain ⟨groups, hwrite, htext⟩ := Option.bind_eq_some_iff.mp htext
  cases htext
  obtain ⟨b, hreads, hrestored⟩ := MatchTableIndirect.deserialize_restores hinv hversions ht hnew hshape hpos
    hhandles hentries hbase now
  obtain ⟨-, hmem⟩ := MatchUnit.sort_handles t.grpHandles
  have hexists : ∀ g ∈ t.grpHandles.sort (· ≤ ·), ∃ mbrs, t.groups[g]? = some mbrs := fun g hg => by
    obtain ⟨text, htext⟩ := Option.isSome_iff_exists.mp (isSome_mapM_iff.mp (by rw [hwrite]; rfl) g hg)
    obtain ⟨mbrs, hmbrs, -⟩ := Option.bind_eq_some_iff.mp htext
    exact ⟨mbrs, hmbrs⟩
  let start : MatchTableIndirectWS K S := { new with toMatchTableIndirect := b, numGroups := t.numGroups }
  have hstart : GroupsRead t start 0 start :=
    ⟨rfl, hgrpHandles, by rw [show start.groups = [] from hgroups]; rfl, fun g hg => absurd hg (Nat.not_lt_zero g)⟩
  -- the groups below `n` can be read when they are the first ones
  have hprefix : ∀ n, (∀ g < n, ∃ mbrs, t.groups[g]? = some mbrs) → ∃ s, Reads (loop deserializeGroup n start)
      ((List.range' 0 n).flatMap fun g => (t.serializeGroup g).getD []) s ∧ GroupsRead t start n s := by
    intro n hn
    obtain ⟨s, hloop, hs⟩ := Reads.loop deserializeGroup (fun g => (t.serializeGroup g).getD [])
      (I := fun done s => GroupsRead t start done.length s) (s := start) (List.range' 0 n)
      (fun done g todo s heq hs => by
        have hlt : done.length < n := by
          have := congrArg List.length heq
          rw [List.length_range', List.length_append, List.length_cons] at this
          omega
        have hg : g = done.length := by
          have hget := congrArg (fun l : List ℕ => l[done.length]?) heq
          simpa [hlt] using hget.symm
        obtain ⟨mbrs, hmbrs⟩ := hn _ hlt
        obtain ⟨s', hread, hs'⟩ := hs.step hmbrs
        refine ⟨s', hg ▸ hread, ?_⟩
        rwa [List.length_append, List.length_singleton]) hstart
    rw [List.length_range'] at hloop hs
    exact ⟨s, hloop, hs⟩
  rw [flatten_of_mapM hwrite]
  have hnumGroups : t.numGroups = (t.grpHandles.sort (· ≤ ·)).length := by rw [hnum, Finset.length_sort]
  constructor
  · intro hrange
    have hsort : t.grpHandles.sort (· ≤ ·) = List.range' 0 t.numGroups := by
      rw [hrange, Finset.sort_range, List.range_eq_range']
    obtain ⟨s, hloop, hs⟩ := hprefix t.numGroups fun g hg => hexists g (by
      rw [hmem, hrange]
      exact Finset.mem_range.mpr hg)
    refine ⟨s, ?_, ?_⟩
    · rw [hsort]
      exact hreads.bind ((reads_nat t.numGroups).bind hloop)
    · have hbase := hs.base
      refine ⟨?_, by rw [hs.grpHandles, hrange], by rw [hbase], fun g hg => hs.groups g ?_⟩
      · rw [hbase]
        exact hrestored
      · rw [hrange] at hg
        exact Finset.mem_range.mp hg
  · intro hne
    rcases range_or_gap (t.grpHandles.sort (· ≤ ·)) 0 (Finset.sortedLT_sort t.grpHandles).pairwise
        (fun i _ => Nat.zero_le i) with hrange | ⟨n, g, todo, hsort, hgap⟩
    · refine absurd ?_ hne
      ext g
      rw [← hmem, hrange, ← hnumGroups, Finset.mem_range, List.mem_range'_1]
      omega
    · obtain ⟨s, hloop, hs⟩ := hprefix n fun g hg => hexists g (by
        rw [hsort]
        simp [hg])
      obtain ⟨mbrs, hmbrs⟩ := hexists g (by rw [hsort]; simp)
      have hfails := @Fails.loop _ _ deserializeGroup (fun g => (t.serializeGroup g).getD []) (List.range' 0 n) todo _
        _ g (by rwa [List.length_range'])
        (hs.fails (by omega) hmbrs)
      rw [← hsort, ← hnumGroups] at hfails
      exact hreads.bind_fails ((reads_nat t.numGroups).bind_fails hfails)

end MatchTableIndirectWS

end Restores

end Bm
