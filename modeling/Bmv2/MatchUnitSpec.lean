/-
# What a match unit holds

The entries at the slots in use, what each operation does to them, and the invariant
that ties the slots in use, the entries and the lookup structure together.
-/
import Bmv2.Lib.Runs
import Bmv2.LookupSpec
import Bmv2.MatchUnits

namespace Bm

variable {K V S : Type}

namespace MatchUnit

/-! ## Entries at the slots in use -/

/-- The entry at a slot in use. -/
def live (mu : MatchUnit K V S) (i : ℕ) : Option (Entry K V) :=
  if i ∈ mu.handles then mu.entries[i]? else none

/-- The keys of the entries at the slots in use. -/
def keys (mu : MatchUnit K V S) (i : ℕ) : Option K := (mu.live i).map Entry.key

theorem live_eq_some {mu : MatchUnit K V S} {i : ℕ} {e : Entry K V} :
    mu.live i = some e ↔ i ∈ mu.handles ∧ mu.entries[i]? = some e := by
  rw [live]
  split <;> simp_all

theorem keys_eq_some {mu : MatchUnit K V S} {i : ℕ} {k : K} :
    mu.keys i = some k ↔ ∃ e, mu.live i = some e ∧ e.key = k := Option.map_eq_some_iff

theorem live_of_handles {mu : MatchUnit K V S} (h : mu.handles = ∅) : mu.live = fun _ => none :=
  funext fun _ => if_neg (by simp [h])

/-- The keys follow the entries. -/
theorem keys_update {mu mu' : MatchUnit K V S} {i : ℕ} {x : Option (Entry K V)}
    (h : mu'.live = Function.update mu.live i x) :
    mu'.keys = Function.update mu.keys i (x.map Entry.key) := by
  funext j
  rw [keys, h]
  by_cases hji : j = i
  · rw [hji, Function.update_self, Function.update_self]
  · rw [Function.update_of_ne hji, Function.update_of_ne hji, keys]

/-- The entries at the slots in use after the entry at one slot has been written. -/
theorem live_set {mu mu' : MatchUnit K V S} {i : ℕ} {e : Entry K V} (hlt : i < mu.entries.length)
    (hentries : mu'.entries = mu.entries.set i e) (hi : i ∈ mu'.handles)
    (hhandles : ∀ j ≠ i, j ∈ mu'.handles ↔ j ∈ mu.handles) :
    mu'.live = Function.update mu.live i (some e) := by
  funext j
  by_cases hji : j = i
  · subst hji
    rw [Function.update_self, live_eq_some, hentries, List.getElem?_set_self hlt]
    exact ⟨hi, rfl⟩
  · rw [Function.update_of_ne hji, live, live, hentries, List.getElem?_set_ne (Ne.symm hji)]
    simp only [hhandles j hji]

/-! ## Slots -/

/-- The slots in use are as many as the unit counts, and every one has an entry. -/
structure Slots (mu : MatchUnit K V S) : Prop where
  card : mu.handles.card = mu.numEntries
  lt : ∀ i ∈ mu.handles, i < mu.size ∧ i < 2 ^ 64
  length_entries : mu.entries.length = mu.size
  length_entryMeta : mu.entryMeta.length = mu.size

theorem live_congr {mu mu' : MatchUnit K V S} (hhandles : mu'.handles = mu.handles) (hentries : mu'.entries = mu.entries) :
    mu'.live = mu.live := by
  funext i
  rw [live, live, hhandles, hentries]

theorem live_added {mu mu' : MatchUnit K V S} (h : mu.Slots) {e : Entry K V} (hlt : lowestFree mu.handles < mu.size)
    (hhandles : mu'.handles = insert (lowestFree mu.handles) mu.handles)
    (hentries : mu'.entries = mu.entries.set (lowestFree mu.handles) e) :
    mu'.live = Function.update mu.live (lowestFree mu.handles) (some e) := by
  refine live_set (by rw [h.length_entries]; exact hlt) hentries (by simp [hhandles]) fun j hj => ?_
  rw [hhandles, Finset.mem_insert, or_iff_right hj]

theorem live_deleted {mu mu' : MatchUnit K V S} {i : ℕ} {e : Entry K V} (hhandles : mu'.handles = mu.handles.erase i)
    (hentries : mu'.entries = mu.entries.set i e) : mu'.live = Function.update mu.live i none := by
  funext j
  by_cases hji : j = i
  · subst hji
    rw [Function.update_self]
    exact if_neg (by simp [hhandles])
  · rw [Function.update_of_ne hji, live, live, hhandles, hentries, List.getElem?_set_ne (Ne.symm hji)]
    simp [hji]

theorem live_modified {mu mu' : MatchUnit K V S} (h : mu.Slots) {i : ℕ} {e : Entry K V} (hi : i ∈ mu.handles)
    (hhandles : mu'.handles = mu.handles) (hentries : mu'.entries = mu.entries.set i e) :
    mu'.live = Function.update mu.live i (some e) :=
  live_set (by rw [h.length_entries]; exact (h.lt i hi).1) hentries (hhandles ▸ hi)
    fun _ _ => by rw [hhandles]

namespace Slots

variable {mu mu' : MatchUnit K V S}

theorem isSome_live (h : mu.Slots) {i : ℕ} : (mu.live i).isSome ↔ i ∈ mu.handles := by
  rw [live]
  split
  · rename_i hi
    rw [List.getElem?_eq_getElem (by rw [h.length_entries]; exact (h.lt i hi).1)]
    simpa using hi
  · rename_i hi
    simpa using hi

theorem isSome_keys (h : mu.Slots) {i : ℕ} : (mu.keys i).isSome ↔ i ∈ mu.handles := by
  rw [keys, Option.isSome_map, h.isSome_live]

theorem exists_live (h : mu.Slots) {i : ℕ} (hi : i ∈ mu.handles) : ∃ e, mu.live i = some e :=
  Option.isSome_iff_exists.mp (h.isSome_live.mpr hi)

/-- An operation on a handle goes on exactly when the slot is in use and has the version
of the handle. -/
theorem checkHandle_eq (h : mu.Slots) (handle : ℕ) :
    mu.checkHandle handle = some (match mu.live (handleInternal handle) with
      | none => .error .invalidHandle
      | some e => if handleVersion handle = e.version then .ok e else .error .expiredHandle) := by
  rw [checkHandle, validHandle]
  by_cases hmem : handleInternal handle ∈ mu.handles
  · obtain ⟨e, he⟩ := h.exists_live hmem
    rw [he, if_pos (by simpa using hmem), (live_eq_some.mp he).2]
    simp only [Option.bind_eq_bind, Option.bind_some]
    split <;> simp_all
  · rw [if_neg (by simpa using hmem), live, if_neg hmem]

theorem checkHandle_eq_ok (h : mu.Slots) {handle : ℕ} {e : Entry K V} :
    mu.checkHandle handle = some (.ok e) ↔
      mu.live (handleInternal handle) = some e ∧ handleVersion handle = e.version := by
  rw [h.checkHandle_eq]
  cases mu.live (handleInternal handle) with
  | none => simp
  | some e' =>
    simp only [Option.some.injEq]
    split
    · rename_i hver
      simp only [Except.ok.injEq]
      exact ⟨fun heq => ⟨heq, heq ▸ hver⟩, fun heq => heq.1⟩
    · rename_i hver
      refine iff_of_false (by simp) ?_
      rintro ⟨rfl, hver'⟩
      exact hver hver'

end Slots

/-- What no operation changes. -/
structure SameShape (mu mu' : MatchUnit K V S) : Prop where
  size : mu'.size = mu.size
  nbytesKey : mu'.nbytesKey = mu.nbytesKey
  matchKeyBuilder : mu'.matchKeyBuilder = mu.matchKeyBuilder

theorem SameShape.rfl' {mu : MatchUnit K V S} : SameShape mu mu := ⟨rfl, rfl, rfl⟩

/-- Nothing but meta data and meters differs. -/
structure SameEntries (mu mu' : MatchUnit K V S) : Prop extends SameShape mu mu' where
  numEntries : mu'.numEntries = mu.numEntries
  handles : mu'.handles = mu.handles
  entries : mu'.entries = mu.entries
  lookupStructure : mu'.lookupStructure = mu.lookupStructure
  length_entryMeta : mu'.entryMeta.length = mu.entryMeta.length

theorem SameEntries.rfl' {mu : MatchUnit K V S} : SameEntries mu mu :=
  ⟨.rfl', rfl, rfl, rfl, rfl, rfl⟩

theorem SameEntries.of_meta {mu : MatchUnit K V S} {m : List EntryMeta}
    (hm : m.length = mu.entryMeta.length) (meters : Option (List Meter)) :
    SameEntries mu { mu with entryMeta := m, directMeters := meters } :=
  ⟨⟨rfl, rfl, rfl⟩, rfl, rfl, rfl, rfl, hm⟩

theorem Slots.of_sameEntries {mu mu' : MatchUnit K V S} (h : mu.Slots) (hsame : SameEntries mu mu') :
    mu'.Slots where
  card := by rw [hsame.handles, hsame.numEntries, h.card]
  lt := by rw [hsame.handles, hsame.size]; exact h.lt
  length_entries := by rw [hsame.entries, hsame.size, h.length_entries]
  length_entryMeta := by rw [hsame.length_entryMeta, hsame.size, h.length_entryMeta]

theorem setEntryTtl_same {mu mu' : MatchUnit K V S} {handle ttlMs now : ℕ}
    {r : Except MatchErrorCode Unit} (hset : mu.setEntryTtl handle ttlMs now = some (r, mu')) :
    SameEntries mu mu' := by
  rw [setEntryTtl] at hset
  split at hset
  · obtain ⟨m, -, hset⟩ := Option.bind_eq_some_iff.mp hset
    cases hset
    exact .of_meta List.length_set _
  · cases hset
    exact .rfl'

theorem resetCounters_same (mu : MatchUnit K V S) : SameEntries mu mu.resetCounters :=
  .of_meta (List.length_map _) _

theorem setDirectMeters_same {mu mu' : MatchUnit K V S} {meterArray : List Meter}
    (hset : mu.setDirectMeters meterArray = some mu') : SameEntries mu mu' := by
  rw [setDirectMeters] at hset
  split at hset
  · cases hset
    exact .of_meta rfl _
  · cases hset

theorem lookup_same [LookupStructure K S] {mu mu' : MatchUnit K V S} {phv : PHV}
    {ingressLength ingressTsMs : ℕ} {res : Option (MatchUnitLookup V)}
    (hlookup : mu.lookup phv ingressLength ingressTsMs = some (res, mu')) : SameEntries mu mu' := by
  obtain ⟨key, -, hlookup⟩ := Option.bind_eq_some_iff.mp hlookup
  obtain ⟨found, -, hlookup⟩ := Option.bind_eq_some_iff.mp hlookup
  cases found with
  | none =>
    cases hlookup
    exact .rfl'
  | some found =>
    obtain ⟨m, -, hlookup⟩ := Option.bind_eq_some_iff.mp hlookup
    cases hlookup
    exact .of_meta List.length_set _

end MatchUnit

/-! ## Operations -/

/-- The operations that change a match unit. -/
inductive UnitOp (V : Type) where
  | addEntry (matchKey : List MatchKeyParam) (value : V) (priority : Int32) (now : ℕ)
  | deleteEntry (handle : ℕ)
  | modifyEntry (handle : ℕ) (value : V)
  | setEntryTtl (handle ttlMs now : ℕ)
  | lookup (phv : PHV) (ingressLength ingressTsMs : ℕ)
  | resetCounters
  | setDirectMeters (meterArray : List Meter)
  | resetState

/-- What an operation returns. -/
inductive UnitResult (V : Type) where
  | handle (res : Except MatchErrorCode ℕ)
  | done (res : Except MatchErrorCode Unit)
  | found (res : Option (MatchUnitLookup V))

/-- With this result the operation has left the entries alone. -/
def UnitOp.Quiet {V : Type} : UnitOp V → UnitResult V → Prop
  | .addEntry .., .handle (.ok _) => False
  | .deleteEntry _, .done (.ok _) => False
  | .modifyEntry .., .done (.ok _) => False
  | .resetState, _ => False
  | _, _ => True

namespace MatchUnit

variable [Inhabited K] [Inhabited V] [MatchKey K] [LookupStructure K S]

/-- One operation on the unit. -/
def exec (mu : MatchUnit K V S) : UnitOp V → Option (UnitResult V × MatchUnit K V S)
  | .addEntry matchKey value priority now =>
      (mu.addEntry matchKey value priority now).map fun (res, mu) => (.handle res, mu)
  | .deleteEntry handle => (mu.deleteEntry handle).map fun (res, mu) => (.done res, mu)
  | .modifyEntry handle value => (mu.modifyEntry handle value).map fun (res, mu) => (.done res, mu)
  | .setEntryTtl handle ttlMs now =>
      (mu.setEntryTtl handle ttlMs now).map fun (res, mu) => (.done res, mu)
  | .lookup phv ingressLength ingressTsMs =>
      (mu.lookup phv ingressLength ingressTsMs).map fun (res, mu) => (.found res, mu)
  | .resetCounters => some (.done (.ok ()), mu.resetCounters)
  | .setDirectMeters meterArray => (mu.setDirectMeters meterArray).map fun mu => (.done (.ok ()), mu)
  | .resetState => mu.resetState.map fun mu => (.done (.ok ()), mu)

/-- The state that an operation leaves. -/
def step (mu : MatchUnit K V S) (op : UnitOp V) : Option (MatchUnit K V S) :=
  (mu.exec op).map Prod.snd

/-- What an operation does to the slots in use, the entries and the lookup structure. -/
inductive Effect (mu mu' : MatchUnit K V S) : UnitOp V → UnitResult V → Prop
  | quiet {op r} (hquiet : op.Quiet r) (hhandles : mu'.handles = mu.handles)
      (hentries : mu'.entries = mu.entries) (hlookup : mu'.lookupStructure = mu.lookupStructure) :
      Effect mu mu' op r
  | added {matchKey value priority now} (k : K) (old : Entry K V)
      (hbuild : mu.buildEntryFromMatchKey matchKey priority = some (.ok k))
      (hnew : LookupStructure.entryExists mu.lookupStructure k = some false)
      (hlt : lowestFree mu.handles < mu.size) (hlt64 : lowestFree mu.handles < 2 ^ 64)
      (hold : mu.entries[lowestFree mu.handles]? = some old)
      (hhandles : mu'.handles = insert (lowestFree mu.handles) mu.handles)
      (hentries : mu'.entries = mu.entries.set (lowestFree mu.handles) ⟨k, old.version, value⟩)
      (hlookup : LookupStructure.addEntry mu.lookupStructure k (lowestFree mu.handles) =
        some mu'.lookupStructure) :
      Effect mu mu' (.addEntry matchKey value priority now)
        (.handle (.ok (handleSet old.version (lowestFree mu.handles))))
  | deleted {handle} (e : Entry K V) (hcheck : mu.checkHandle handle = some (.ok e))
      (hhandles : mu'.handles = mu.handles.erase (handleInternal handle))
      (hentries : mu'.entries =
        mu.entries.set (handleInternal handle) { e with version := (e.version + 1) % 2 ^ 32 })
      (hlookup : LookupStructure.deleteEntry mu.lookupStructure e.key = some mu'.lookupStructure) :
      Effect mu mu' (.deleteEntry handle) (.done (.ok ()))
  | modified {handle value} (e : Entry K V) (hcheck : mu.checkHandle handle = some (.ok e))
      (hhandles : mu'.handles = mu.handles)
      (hentries : mu'.entries = mu.entries.set (handleInternal handle) { e with value })
      (hlookup : mu'.lookupStructure = mu.lookupStructure) :
      Effect mu mu' (.modifyEntry handle value) (.done (.ok ()))
  | reset {r} (hhandles : mu'.handles = ∅)
      (hentries : mu'.entries = List.replicate mu.size { key := default, value := default })
      (hlookup : LookupStructure.clear K mu.lookupStructure = some mu'.lookupStructure) :
      Effect mu mu' .resetState r

section Effects

variable {mu mu' : MatchUnit K V S}

theorem SameEntries.effect (hsame : SameEntries mu mu') (h : mu.Slots) {op : UnitOp V}
    {r : UnitResult V} (hquiet : op.Quiet r) : SameShape mu mu' ∧ mu'.Slots ∧ Effect mu mu' op r :=
  ⟨hsame.toSameShape, h.of_sameEntries hsame,
    .quiet hquiet hsame.handles hsame.entries hsame.lookupStructure⟩

/-- `add_entry` fails and changes nothing, or it takes the lowest free slot. -/
theorem Slots.addEntry_effect (h : mu.Slots) {matchKey : List MatchKeyParam} {value : V}
    {priority : Int32} {now : ℕ} {r : Except MatchErrorCode ℕ}
    (hadd : mu.addEntry matchKey value priority now = some (r, mu')) :
    SameShape mu mu' ∧ mu'.Slots ∧ Effect mu mu' (.addEntry matchKey value priority now) (.handle r) := by
  obtain ⟨⟨r₀, mu₀⟩, hadd', hadd⟩ := Option.bind_eq_some_iff.mp hadd
  obtain ⟨res, hbuild, hadd'⟩ := Option.bind_eq_some_iff.mp hadd'
  have herror : ∀ code, some (Except.error code, mu) = some (r₀, mu₀) → SameShape mu mu' ∧ mu'.Slots ∧
      Effect mu mu' (.addEntry matchKey value priority now) (.handle r) := by
    intro code heq
    cases heq
    obtain ⟨rfl, rfl⟩ := Prod.mk.inj (Option.some.inj hadd)
    exact ⟨.rfl', h, .quiet trivial rfl rfl rfl⟩
  cases res with
  | error code => exact herror code hadd'
  | ok k =>
    obtain ⟨b, hb, hadd'⟩ := Option.bind_eq_some_iff.mp hadd'
    cases b with
    | true => exact herror _ hadd'
    | false =>
      rw [if_neg (by simp), getAndSetHandle] at hadd'
      by_cases hfull : mu.size ≤ mu.numEntries
      · rw [if_pos hfull] at hadd'
        exact herror _ hadd'
      · rw [if_neg hfull, HandleMgr.getHandle] at hadd'
        by_cases hfree : lowestFree mu.handles < 2 ^ 64
        · rw [if_pos hfree] at hadd'
          obtain ⟨old, hold, hadd'⟩ := Option.bind_eq_some_iff.mp hadd'
          obtain ⟨s, hs, hadd'⟩ := Option.bind_eq_some_iff.mp hadd'
          obtain ⟨rfl, rfl⟩ := Prod.mk.inj (Option.some.inj hadd')
          obtain ⟨m, hm, hadd⟩ := Option.bind_eq_some_iff.mp hadd
          obtain ⟨rfl, rfl⟩ := Prod.mk.inj (Option.some.inj hadd)
          have hlt : lowestFree mu.handles < mu.size := lowestFree_lt (by rw [h.card]; omega)
          refine ⟨⟨rfl, rfl, rfl⟩, ⟨?_, fun i hi => ?_, ?_, ?_⟩,
            .added k old hbuild hb hlt hfree hold rfl rfl hs⟩
          · exact (Finset.card_insert_of_notMem (lowestFree_notMem _)).trans (congrArg (· + 1) h.card)
          · rcases Finset.mem_insert.mp hi with rfl | hi
            · exact ⟨hlt, hfree⟩
            · exact h.lt i hi
          · exact List.length_set.trans h.length_entries
          · exact List.length_set.trans h.length_entryMeta
        · rw [if_neg hfree] at hadd'
          exact herror _ hadd'

/-- `delete_entry` fails on a handle that does not check out and changes nothing, or it
takes the entry out. -/
theorem Slots.deleteEntry_effect (h : mu.Slots) {handle : ℕ} {r : Except MatchErrorCode Unit}
    (hdelete : mu.deleteEntry handle = some (r, mu')) :
    SameShape mu mu' ∧ mu'.Slots ∧ Effect mu mu' (.deleteEntry handle) (.done r) := by
  obtain ⟨res, hcheck, hdelete⟩ := Option.bind_eq_some_iff.mp hdelete
  cases res with
  | error code =>
    cases hdelete
    exact ⟨.rfl', h, .quiet trivial rfl rfl rfl⟩
  | ok e =>
    obtain ⟨hmem, -⟩ := live_eq_some.mp (h.checkHandle_eq_ok.mp hcheck).1
    obtain ⟨s, hs, hdelete⟩ := Option.bind_eq_some_iff.mp hdelete
    simp only [unsetHandle, HandleMgr.releaseHandle, if_pos hmem] at hdelete
    cases hdelete
    refine ⟨⟨rfl, rfl, rfl⟩, ⟨?_, fun i hi => h.lt i (Finset.mem_of_mem_erase hi), ?_,
      h.length_entryMeta⟩, .deleted e hcheck rfl rfl hs⟩
    · exact (Finset.card_erase_of_mem hmem).trans (congrArg (· - 1) h.card)
    · exact List.length_set.trans h.length_entries

/-- `modify_entry` fails on a handle that does not check out and changes nothing, or it
writes the value of the entry. -/
theorem Slots.modifyEntry_effect (h : mu.Slots) {handle : ℕ} {value : V}
    {r : Except MatchErrorCode Unit} (hmodify : mu.modifyEntry handle value = some (r, mu')) :
    SameShape mu mu' ∧ mu'.Slots ∧ Effect mu mu' (.modifyEntry handle value) (.done r) := by
  obtain ⟨res, hcheck, hmodify⟩ := Option.bind_eq_some_iff.mp hmodify
  cases res with
  | error code =>
    cases hmodify
    exact ⟨.rfl', h, .quiet trivial rfl rfl rfl⟩
  | ok e =>
    cases hmodify
    exact ⟨⟨rfl, rfl, rfl⟩, ⟨h.card, h.lt, List.length_set.trans h.length_entries, h.length_entryMeta⟩,
      .modified e hcheck rfl rfl rfl⟩

/-- `reset_state` empties the unit. -/
theorem resetState_effect {r : UnitResult V} (hreset : mu.resetState = some mu') :
    SameShape mu mu' ∧ mu'.Slots ∧ Effect mu mu' .resetState r := by
  obtain ⟨s, hs, hreset⟩ := Option.bind_eq_some_iff.mp hreset
  cases hreset
  exact ⟨⟨rfl, rfl, rfl⟩, ⟨rfl, by simp, List.length_replicate, List.length_replicate⟩,
    .reset rfl rfl hs⟩

/-- **What one operation does.**  It never changes the shape of the unit, and its effect
on the entries is one of five. -/
theorem Slots.exec_effect (h : mu.Slots) {op : UnitOp V} {r : UnitResult V}
    (hexec : mu.exec op = some (r, mu')) : SameShape mu mu' ∧ mu'.Slots ∧ Effect mu mu' op r := by
  cases op with
  | addEntry matchKey value priority now =>
    obtain ⟨⟨r₀, mu₀⟩, hadd, heq⟩ := Option.map_eq_some_iff.mp hexec
    cases heq
    exact h.addEntry_effect hadd
  | deleteEntry handle =>
    obtain ⟨⟨r₀, mu₀⟩, hdelete, heq⟩ := Option.map_eq_some_iff.mp hexec
    cases heq
    exact h.deleteEntry_effect hdelete
  | modifyEntry handle value =>
    obtain ⟨⟨r₀, mu₀⟩, hmodify, heq⟩ := Option.map_eq_some_iff.mp hexec
    cases heq
    exact h.modifyEntry_effect hmodify
  | setEntryTtl handle ttlMs now =>
    obtain ⟨⟨r₀, mu₀⟩, hset, heq⟩ := Option.map_eq_some_iff.mp hexec
    cases heq
    exact (setEntryTtl_same hset).effect h trivial
  | lookup phv ingressLength ingressTsMs =>
    obtain ⟨⟨r₀, mu₀⟩, hlookup, heq⟩ := Option.map_eq_some_iff.mp hexec
    cases heq
    exact (lookup_same hlookup).effect h trivial
  | resetCounters =>
    cases hexec
    exact (resetCounters_same mu).effect h trivial
  | setDirectMeters meterArray =>
    obtain ⟨mu₀, hset, heq⟩ := Option.map_eq_some_iff.mp hexec
    cases heq
    exact (setDirectMeters_same hset).effect h trivial
  | resetState =>
    obtain ⟨mu₀, hreset, heq⟩ := Option.map_eq_some_iff.mp hexec
    cases heq
    exact resetState_effect hreset

end Effects

end MatchUnit

end Bm
