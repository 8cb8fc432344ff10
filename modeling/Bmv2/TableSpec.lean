/-
# What operations on a table do to its match unit

An operation on a table of any of the three classes adds an entry, deletes one, empties the
table, or leaves the slots in use as they are.
-/
import Bmv2.MatchUnitSpec
import Bmv2.IndirectTables

namespace Bm

/-- What an operation has done to the slots in use. -/
inductive EntryEvent where
  | none
  | added (handle : ℕ)
  | deleted (handle : ℕ)
  | reset
  deriving DecidableEq

/-- What the result of adding an entry tells. -/
def EntryEvent.ofAdd : Except MatchErrorCode ℕ → EntryEvent
  | .ok handle => .added handle
  | .error _ => .none

/-- What the result of deleting an entry tells. -/
def EntryEvent.ofDelete (handle : ℕ) : Except MatchErrorCode Unit → EntryEvent
  | .ok _ => .deleted handle
  | .error _ => .none

/-- The event that an operation on a match unit tells of. -/
def UnitOp.event {V : Type} : UnitOp V → UnitResult V → EntryEvent
  | .addEntry .., .handle res => .ofAdd res
  | .deleteEntry handle, .done res => .ofDelete handle res
  | .resetState, _ => .reset
  | _, _ => .none

/-- The event that an operation on a `MatchTable` tells of. -/
def MatchTableOp.event : MatchTableOp → TableResult → EntryEvent
  | .addEntry .., .handle res => .ofAdd res
  | .deleteEntry handle, .done res => .ofDelete handle res
  | .resetState, _ => .reset
  | _, _ => .none

/-- The event that an operation on members and entries tells of. -/
def MemberOp.event : MemberOp → TableResult → EntryEvent
  | .addEntry .., .handle res => .ofAdd res
  | .deleteEntry handle, .done res => .ofDelete handle res
  | _, _ => .none

/-- The event that an operation on a `MatchTableIndirect` tells of. -/
def IndirectOp.event : IndirectOp → TableResult → EntryEvent
  | .mbr op, res => op.event res
  | .resetState, _ => .reset
  | _, _ => .none

/-- The event that an operation on a `MatchTableIndirectWS` tells of. -/
def IndirectWSOp.event : IndirectWSOp → TableResult → EntryEvent
  | .mbr op, res => op.event res
  | .addEntryWS .., .handle res => .ofAdd res
  | .resetState, _ => .reset
  | _, _ => .none

variable {K V S : Type}

namespace MatchUnit

variable [Inhabited K] [MatchKey K] [LookupStructure K S]

/-- The unit has gone through an event. -/
def Undergoes [Inhabited V] (mu mu' : MatchUnit K V S) (event : EntryEvent) : Prop :=
  mu'.Slots ∧ ∃ op r, Effect mu mu' op r ∧ op.event r = event

variable [Inhabited V] {mu mu' : MatchUnit K V S}

theorem Slots.undergoes_same (h : mu.Slots) (hsame : SameEntries mu mu') :
    mu.Undergoes mu' .none := by
  have hquiet : (UnitOp.resetCounters (V := V)).Quiet (.done (.ok ())) := trivial
  obtain ⟨-, hslots, heffect⟩ := hsame.effect h hquiet
  exact ⟨hslots, _, _, heffect, rfl⟩

theorem Slots.undergoes_addEntry (h : mu.Slots) {matchKey : List MatchKeyParam} {value : V}
    {priority : Int32} {now : ℕ} {r : Except MatchErrorCode ℕ}
    (hadd : mu.addEntry matchKey value priority now = some (r, mu')) :
    mu.Undergoes mu' (.ofAdd r) := by
  obtain ⟨-, hslots, heffect⟩ := h.addEntry_effect hadd
  exact ⟨hslots, _, _, heffect, rfl⟩

theorem Slots.undergoes_deleteEntry (h : mu.Slots) {handle : ℕ} {r : Except MatchErrorCode Unit}
    (hdelete : mu.deleteEntry handle = some (r, mu')) :
    mu.Undergoes mu' (.ofDelete handle r) := by
  obtain ⟨-, hslots, heffect⟩ := h.deleteEntry_effect hdelete
  exact ⟨hslots, _, _, heffect, rfl⟩

theorem Slots.undergoes_modifyEntry (h : mu.Slots) {handle : ℕ} {value : V}
    {r : Except MatchErrorCode Unit} (hmodify : mu.modifyEntry handle value = some (r, mu')) :
    mu.Undergoes mu' .none := by
  obtain ⟨-, hslots, heffect⟩ := h.modifyEntry_effect hmodify
  exact ⟨hslots, _, _, heffect, rfl⟩

theorem undergoes_resetState (hreset : mu.resetState = some mu') : mu.Undergoes mu' .reset := by
  obtain ⟨-, hslots, heffect⟩ := resetState_effect (r := .done (.ok ())) hreset
  exact ⟨hslots, _, _, heffect, rfl⟩

end MatchUnit

open MatchUnit

/-- What all tables share leaves the entries alone. -/
theorem MatchTableAbstract.exec_same {t t' : MatchTableAbstract K V S} {op : AbstractOp}
    {r : TableResult} (hexec : t.exec op = some (r, t')) : SameEntries t.matchUnit t'.matchUnit := by
  cases op with
  | setDirectMeters meterArray =>
    obtain ⟨t₀, hset, heq⟩ := Option.map_eq_some_iff.mp hexec
    cases heq
    obtain ⟨mu, hmu, hset⟩ := Option.bind_eq_some_iff.mp hset
    cases hset
    exact setDirectMeters_same hmu
  | resetCounters =>
    cases hexec
    show SameEntries t.matchUnit t.resetCounters.2.matchUnit
    rw [resetCounters]
    split
    · exact .rfl'
    · exact resetCounters_same _
  | writeCounters handle bytes packets =>
    obtain ⟨⟨r₀, t₀⟩, hwrite, heq⟩ := Option.map_eq_some_iff.mp hexec
    cases heq
    rw [writeCounters] at hwrite
    split at hwrite
    · cases hwrite
      exact .rfl'
    · split at hwrite
      · cases hwrite
        exact .rfl'
      · obtain ⟨m, -, hwrite⟩ := Option.bind_eq_some_iff.mp hwrite
        cases hwrite
        exact .of_meta List.length_set _
  | setMeterRates handle configs =>
    obtain ⟨⟨r₀, t₀⟩, hset, heq⟩ := Option.map_eq_some_iff.mp hexec
    cases heq
    rw [setMeterRates] at hset
    split at hset
    · cases hset
      exact .rfl'
    · split at hset
      · cases hset
        exact .rfl'
      · obtain ⟨m, -, hset⟩ := Option.bind_eq_some_iff.mp hset
        cases hset
        exact .of_meta rfl _
  | setEntryTtl handle ttlMs now =>
    obtain ⟨⟨r₀, t₀⟩, hset, heq⟩ := Option.map_eq_some_iff.mp hexec
    cases heq
    rw [setEntryTtl] at hset
    split at hset
    · cases hset
      exact .rfl'
    · obtain ⟨⟨r, mu⟩, hmu, hset⟩ := Option.bind_eq_some_iff.mp hset
      cases hset
      exact setEntryTtl_same hmu

/-! ## Tables of actions -/

variable [Inhabited K] [MatchKey K] [LookupStructure K S]

theorem MatchTable.exec_undergoes {t t' : MatchTable K S} (h : t.matchUnit.Slots) {op : MatchTableOp}
    {r : TableResult} (hexec : t.exec op = some (r, t')) :
    t.matchUnit.Undergoes t'.matchUnit (op.event r) := by
  cases op with
  | abstract op =>
    obtain ⟨⟨r₀, base⟩, hbase, heq⟩ := Option.map_eq_some_iff.mp hexec
    cases heq
    exact h.undergoes_same (MatchTableAbstract.exec_same hbase)
  | lookup phv ingressLength ingressTsMs =>
    obtain ⟨⟨⟨actionEntry, handle⟩, t₀⟩, hlookup, heq⟩ := Option.map_eq_some_iff.mp hexec
    cases heq
    obtain ⟨⟨res, mu⟩, hmu, hlookup⟩ := Option.bind_eq_some_iff.mp hlookup
    cases res <;> cases hlookup <;> exact h.undergoes_same (lookup_same hmu)
  | addEntry matchKey actionFn actionData priority now =>
    obtain ⟨⟨res, t₀⟩, hadd, heq⟩ := Option.map_eq_some_iff.mp hexec
    cases heq
    obtain ⟨nextNode, -, hadd⟩ := Option.bind_eq_some_iff.mp hadd
    obtain ⟨⟨res, mu⟩, hmu, hadd⟩ := Option.bind_eq_some_iff.mp hadd
    cases hadd
    exact h.undergoes_addEntry hmu
  | deleteEntry handle =>
    obtain ⟨⟨res, t₀⟩, hdelete, heq⟩ := Option.map_eq_some_iff.mp hexec
    cases heq
    obtain ⟨⟨res, mu⟩, hmu, hdelete⟩ := Option.bind_eq_some_iff.mp hdelete
    cases hdelete
    exact h.undergoes_deleteEntry hmu
  | modifyEntry handle actionFn actionData =>
    obtain ⟨⟨res, t₀⟩, hmodify, heq⟩ := Option.map_eq_some_iff.mp hexec
    cases heq
    obtain ⟨nextNode, -, hmodify⟩ := Option.bind_eq_some_iff.mp hmodify
    obtain ⟨⟨res, mu⟩, hmu, hmodify⟩ := Option.bind_eq_some_iff.mp hmodify
    cases hmodify
    exact h.undergoes_modifyEntry hmu
  | setDefaultAction actionFn actionData =>
    obtain ⟨⟨res, t₀⟩, hset, heq⟩ := Option.map_eq_some_iff.mp hexec
    cases heq
    refine h.undergoes_same ?_
    rw [setDefaultAction] at hset
    split at hset
    · cases hset
      exact .rfl'
    · split at hset
      · cases hset
        exact .rfl'
      · obtain ⟨nextNode, -, hset⟩ := Option.bind_eq_some_iff.mp hset
        cases hset
        exact .rfl'
  | resetState =>
    obtain ⟨t₀, hreset, heq⟩ := Option.map_eq_some_iff.mp hexec
    cases heq
    obtain ⟨mu, hmu, hreset⟩ := Option.bind_eq_some_iff.mp hreset
    cases hreset
    exact undergoes_resetState hmu

end Bm
