/-
# Handles of live entries

A client remembers, for every entry it has added and not deleted since, the handle it
was given.  Next to the unit a run keeps that record, and the handles in it work: they
are distinct, and every operation through one of them reaches its own entry.

For that the handle of a new entry must hold its slot and the version of the slot, which
it does below 2^24 slots and 256 deletions, and the lookup structure must stay exact.
-/
import Bmv2.PriorityLookup

namespace Bm

/-- What a client remembers of an entry it has added. -/
structure LiveEntry (V : Type) where
  handle : ℕ
  matchKey : List MatchKeyParam
  priority : Int32
  value : V

/-- What a client remembers after an operation and its result. -/
def UnitOp.record {V : Type} : UnitOp V → UnitResult V → List (LiveEntry V) → List (LiveEntry V)
  | .addEntry matchKey value priority _, .handle (.ok handle), es =>
      ⟨handle, matchKey, priority, value⟩ :: es
  | .deleteEntry handle, .done (.ok _), es => es.filter fun e => e.handle ≠ handle
  | .modifyEntry handle value, .done (.ok _), es =>
      es.map fun e => if e.handle = handle then { e with value } else e
  | .resetState, _, _ => []
  | _, _, es => es

theorem UnitOp.record_of_quiet {V : Type} {op : UnitOp V} {r : UnitResult V} (h : op.Quiet r)
    (es : List (LiveEntry V)) : op.record r es = es := by
  cases op <;> rcases r with (_ | _) | (_ | _) | _ <;> first | rfl | exact absurd h (by simp [Quiet])

namespace MatchUnit

variable {K V S : Type} [MatchKey K]

/-- Keys are built from the layout alone. -/
theorem buildEntry_congr {mu mu' : MatchUnit K V S} (h : mu'.matchKeyBuilder = mu.matchKeyBuilder)
    (matchKey : List MatchKeyParam) (priority : Int32) :
    mu'.buildEntryFromMatchKey matchKey priority = mu.buildEntryFromMatchKey matchKey priority := by
  rw [buildEntryFromMatchKey, buildEntryFromMatchKey, h]

variable [LookupStructure K S]

/-- Every handle in the record reaches its own entry, and no two are equal. -/
structure HandlesWork [LawfulLookup K S] (mu : MatchUnit K V S) (es : List (LiveEntry V)) : Prop where
  nodup : (es.map LiveEntry.handle).Nodup
  getValue : ∀ e ∈ es, mu.getValue e.handle = some (.ok e.value)
  getEntry : ∀ e ∈ es, ∃ k params, mu.buildEntryFromMatchKey e.matchKey e.priority = some (.ok k) ∧
    MatchKey.entryToMatchParams mu.matchKeyBuilder k = some params ∧
    mu.getEntry e.handle = some (.ok (params, e.value, MatchKey.getPriority k))
  modifyEntry : ∀ e ∈ es, ∀ value, ∃ mu', mu.modifyEntry e.handle value = some (.ok (), mu') ∧
    mu'.getValue e.handle = some (.ok value)
  retrieveHandle : ∀ e ∈ es, mu.retrieveHandle e.matchKey e.priority = some (.ok e.handle)
  lookup : ∀ e ∈ es, ∀ key, key.length = mu.nbytesKey →
    LawfulLookup.Selects mu.keys key (handleInternal e.handle) →
    mu.lookupKey key = some (some ⟨e.handle, handleInternal e.handle, e.value⟩)
  lookup_hit : ∀ key found, key.length = mu.nbytesKey → mu.lookupKey key = some (some found) →
    ∃ e ∈ es, found.handle = e.handle ∧ found.value = e.value
  deleteEntry : ∀ e ∈ es, ∃ mu', mu.deleteEntry e.handle = some (.ok (), mu')

/-! ## The invariant -/

/-- The record agrees with the entries at the slots in use. -/
structure Tracks [LawfulLookup K S] (fs : List KeyField) (mu : MatchUnit K V S)
    (es : List (LiveEntry V)) : Prop where
  inv : mu.Inv fs
  exact' : LawfulLookup.Exact mu.keys
  nodup : (es.map fun e => handleInternal e.handle).Nodup
  entry : ∀ e ∈ es, ∃ k, mu.buildEntryFromMatchKey e.matchKey e.priority = some (.ok k) ∧
    mu.live (handleInternal e.handle) = some ⟨k, handleVersion e.handle, e.value⟩
  handle : ∀ e ∈ es, handleSet (handleVersion e.handle) (handleInternal e.handle) = e.handle
  covers : ∀ i x, mu.live i = some x → ∃ e ∈ es, handleInternal e.handle = i

/-- What an operation needs for the handles to keep working: a new handle holds its slot
and the version of the slot, and the lookup structure stays exact. -/
def KeepsHandles [LawfulLookup K S] (mu : MatchUnit K V S) : UnitOp V → Prop
  | .addEntry matchKey _ priority _ => lowestFree mu.handles < 2 ^ 24 ∧
      (∀ old, mu.entries[lowestFree mu.handles]? = some old → old.version < 256) ∧
      ∀ k, mu.buildEntryFromMatchKey matchKey priority = some (.ok k) →
        LawfulLookup.Exact (Function.update mu.keys (lowestFree mu.handles) (some k))
  | .deleteEntry handle => ∀ e, mu.checkHandle handle = some (.ok e) →
      LawfulLookup.DeletesSafely mu.lookupStructure e.key ∧
        LawfulLookup.Exact (Function.update mu.keys (handleInternal handle) none)
  | _ => True

section Spec

variable [LawfulLookup K S] {fs : List KeyField} {mu mu' : MatchUnit K V S} {es : List (LiveEntry V)}

/-- Two entries of the record at one slot are one. -/
theorem Tracks.eq_of_slot (h : Tracks fs mu es) {e e' : LiveEntry V} (he : e ∈ es) (he' : e' ∈ es)
    (hslot : handleInternal e.handle = handleInternal e'.handle) : e = e' :=
  List.inj_on_of_nodup_map h.nodup he he' hslot

/-- A handle that checks out is the handle of the entry of the record at its slot, if it
is a handle of 32 bits. -/
theorem Tracks.handle_eq_iff (h : Tracks fs mu es) {e : LiveEntry V} (he : e ∈ es) {handle : ℕ}
    {x : Entry K V} (hcheck : mu.checkHandle handle = some (.ok x)) :
    handleInternal e.handle = handleInternal handle ↔ e.handle = handle := by
  refine ⟨fun hslot => ?_, fun heq => by rw [heq]⟩
  obtain ⟨k, -, hlive⟩ := h.entry e he
  obtain ⟨hlive', hver⟩ := h.inv.checkHandle_eq_ok.mp hcheck
  rw [← hslot, hlive, Option.some.injEq] at hlive'
  have hver' : handleVersion handle = handleVersion e.handle := by rw [hver, ← hlive']
  rw [handleVersion_eq_div, handleVersion_eq_div] at hver'
  rw [handleInternal_eq_mod, handleInternal_eq_mod] at hslot
  omega

theorem tracks_added (h : Tracks fs mu es) (hinv : mu'.Inv fs)
    (hkb : mu'.matchKeyBuilder = mu.matchKeyBuilder) {matchKey : List MatchKeyParam} {value : V}
    {priority : Int32} {k : K} {old : Entry K V}
    (hbuild : mu.buildEntryFromMatchKey matchKey priority = some (.ok k))
    (hlive : mu'.live =
      Function.update mu.live (lowestFree mu.handles) (some ⟨k, old.version, value⟩))
    (hslot : lowestFree mu.handles < 2 ^ 24) (hver : old.version < 256)
    (hexact : LawfulLookup.Exact (Function.update mu.keys (lowestFree mu.handles) (some k))) :
    Tracks fs mu' (⟨handleSet old.version (lowestFree mu.handles), matchKey, priority, value⟩ :: es) := by
  have hint := handleInternal_handleSet (v := old.version) hslot
  have hversion : handleVersion (handleSet old.version (lowestFree mu.handles)) = old.version := by
    rw [handleVersion_handleSet hslot]
    omega
  have hfresh : ∀ e ∈ es, handleInternal e.handle ≠ lowestFree mu.handles := by
    intro e he heq
    obtain ⟨k', -, hk'⟩ := h.entry e he
    rw [heq, live_eq_some] at hk'
    exact lowestFree_notMem mu.handles hk'.1
  refine ⟨hinv, ?_, ?_, ?_, ?_, ?_⟩
  · rw [keys_update hlive]
    exact hexact
  · rw [List.map_cons, List.nodup_cons, hint]
    refine ⟨fun hmem => ?_, h.nodup⟩
    obtain ⟨e, he, heq⟩ := List.mem_map.mp hmem
    exact hfresh e he heq
  · intro e he
    rw [buildEntry_congr hkb, hlive]
    rcases List.mem_cons.mp he with rfl | he
    · exact ⟨k, hbuild, by simp only [hint, hversion, Function.update_self]⟩
    · obtain ⟨k', hbuild', hlive'⟩ := h.entry e he
      exact ⟨k', hbuild', by rw [Function.update_of_ne (hfresh e he), hlive']⟩
  · intro e he
    rcases List.mem_cons.mp he with rfl | he
    · simp only [hint, hversion]
    · exact h.handle e he
  · intro i x hx
    rw [hlive] at hx
    by_cases hi : i = lowestFree mu.handles
    · exact ⟨_, List.mem_cons_self, hint.trans hi.symm⟩
    · rw [Function.update_of_ne hi] at hx
      obtain ⟨e, he, hslot'⟩ := h.covers i x hx
      exact ⟨e, List.mem_cons_of_mem _ he, hslot'⟩

theorem tracks_deleted (h : Tracks fs mu es) (hinv : mu'.Inv fs)
    (hkb : mu'.matchKeyBuilder = mu.matchKeyBuilder) {handle : ℕ} {x : Entry K V}
    (hcheck : mu.checkHandle handle = some (.ok x))
    (hlive : mu'.live = Function.update mu.live (handleInternal handle) none)
    (hexact : LawfulLookup.Exact (Function.update mu.keys (handleInternal handle) none)) :
    Tracks fs mu' (es.filter fun e => e.handle ≠ handle) := by
  have hslot : ∀ e ∈ es, e.handle ≠ handle → handleInternal e.handle ≠ handleInternal handle :=
    fun e he hne heq => hne ((h.handle_eq_iff he hcheck).mp heq)
  refine ⟨hinv, ?_, (List.filter_sublist.map _).nodup h.nodup, ?_, ?_, ?_⟩
  · rw [keys_update hlive]
    exact hexact
  · intro e he
    obtain ⟨he, hne⟩ := List.mem_filter.mp he
    obtain ⟨k, hbuild, hk⟩ := h.entry e he
    refine ⟨k, (buildEntry_congr hkb _ _).trans hbuild, ?_⟩
    rw [hlive, Function.update_of_ne (hslot e he (by simpa using hne)), hk]
  · intro e he
    exact h.handle e (List.mem_of_mem_filter he)
  · intro i y hy
    rw [hlive] at hy
    have hi : i ≠ handleInternal handle := by
      rintro rfl
      simp at hy
    rw [Function.update_of_ne hi] at hy
    obtain ⟨e, he, rfl⟩ := h.covers i y hy
    refine ⟨e, List.mem_filter.mpr ⟨he, ?_⟩, rfl⟩
    have hne : e.handle ≠ handle := fun heq => hi (by rw [heq])
    simpa using hne

theorem tracks_modified (h : Tracks fs mu es) (hinv : mu'.Inv fs)
    (hkb : mu'.matchKeyBuilder = mu.matchKeyBuilder) {handle : ℕ} {x : Entry K V} {value : V}
    (hcheck : mu.checkHandle handle = some (.ok x))
    (hlive : mu'.live = Function.update mu.live (handleInternal handle) (some { x with value })) :
    Tracks fs mu' (es.map fun e => if e.handle = handle then { e with value } else e) := by
  have hfields : ∀ e : LiveEntry V, (if e.handle = handle then { e with value } else e).handle =
      e.handle := fun e => by split <;> rfl
  obtain ⟨hx, -⟩ := h.inv.checkHandle_eq_ok.mp hcheck
  refine ⟨hinv, ?_, ?_, ?_, ?_, ?_⟩
  · have hkey : mu.keys (handleInternal handle) = some x.key := keys_eq_some.mpr ⟨x, hx, rfl⟩
    rw [keys_update hlive, Option.map_some, ← hkey, Function.update_eq_self]
    exact h.exact'
  · rw [List.map_map]
    have hmap : (fun e : LiveEntry V => handleInternal e.handle) ∘
        (fun e => if e.handle = handle then { e with value } else e) =
        fun e => handleInternal e.handle := funext fun e => congrArg handleInternal (hfields e)
    rw [hmap]
    exact h.nodup
  · intro e' he'
    obtain ⟨e, he, rfl⟩ := List.mem_map.mp he'
    obtain ⟨k, hbuild, hk⟩ := h.entry e he
    by_cases heq : e.handle = handle
    · rw [if_pos heq]
      refine ⟨k, (buildEntry_congr hkb _ _).trans hbuild, ?_⟩
      rw [heq, hx, Option.some.injEq] at hk
      rw [hlive, heq, Function.update_self, hk]
    · rw [if_neg heq]
      refine ⟨k, (buildEntry_congr hkb _ _).trans hbuild, ?_⟩
      rw [hlive, Function.update_of_ne (fun hslot => heq ((h.handle_eq_iff he hcheck).mp hslot)), hk]
  · intro e' he'
    obtain ⟨e, he, rfl⟩ := List.mem_map.mp he'
    rw [hfields]
    exact h.handle e he
  · intro i y hy
    obtain ⟨y', hy'⟩ : ∃ y', mu.live i = some y' := by
      rw [hlive] at hy
      by_cases hi : i = handleInternal handle
      · exact ⟨x, hi ▸ hx⟩
      · exact ⟨y, by rwa [Function.update_of_ne hi] at hy⟩
    obtain ⟨e, he, hslot⟩ := h.covers i y' hy'
    exact ⟨_, List.mem_map_of_mem he, by rw [hfields, hslot]⟩

/-- The record goes on to agree with the unit. -/
theorem Tracks.of_live (h : Tracks fs mu es) (hinv : mu'.Inv fs)
    (hkb : mu'.matchKeyBuilder = mu.matchKeyBuilder) (hlive : mu'.live = mu.live) :
    Tracks fs mu' es := by
  have hkeys : mu'.keys = mu.keys := funext fun i => by rw [keys, keys, hlive]
  refine ⟨hinv, hkeys ▸ h.exact', h.nodup, fun e he => ?_, h.handle, fun i x hx => ?_⟩
  · obtain ⟨k, hbuild, hk⟩ := h.entry e he
    exact ⟨k, (buildEntry_congr hkb _ _).trans hbuild, hlive ▸ hk⟩
  · exact h.covers i x (hlive ▸ hx)

/-! ## What the invariant gives -/

theorem Tracks.checkHandle (h : Tracks fs mu es) {e : LiveEntry V} (he : e ∈ es) :
    ∃ k, mu.buildEntryFromMatchKey e.matchKey e.priority = some (.ok k) ∧
      mu.live (handleInternal e.handle) = some ⟨k, handleVersion e.handle, e.value⟩ ∧
      mu.checkHandle e.handle = some (.ok ⟨k, handleVersion e.handle, e.value⟩) := by
  obtain ⟨k, hbuild, hk⟩ := h.entry e he
  exact ⟨k, hbuild, hk, h.inv.checkHandle_eq_ok.mpr ⟨hk, rfl⟩⟩

/-- **Handles of live entries work** in every state that agrees with the record. -/
theorem Tracks.handlesWork (h : Tracks fs mu es) (hadmits : LawfulLookup.Admits K fs) :
    mu.HandlesWork es where
  nodup := by
    have hslots := h.nodup
    rw [show (fun e : LiveEntry V => handleInternal e.handle) = handleInternal ∘ LiveEntry.handle
      from rfl, ← List.map_map] at hslots
    exact hslots.of_map _
  getValue e he := by
    obtain ⟨k, -, -, hcheck⟩ := h.checkHandle he
    rw [getValue, hcheck]
    rfl
  getEntry e he := by
    obtain ⟨k, hbuild, hlive, hcheck⟩ := h.checkHandle he
    obtain ⟨params, hparams⟩ := Option.isSome_iff_exists.mp
      (LawfulLookup.isSome_entryToMatchParams h.inv.built hadmits (h.inv.nbytesKey ▸ h.inv.keyOk hbuild))
    refine ⟨k, params, hbuild, hparams, ?_⟩
    rw [getEntry, hcheck]
    simp only [Option.bind_eq_bind, Option.bind_some, hparams]
    rfl
  modifyEntry e he value := by
    obtain ⟨k, -, hlive, hcheck⟩ := h.checkHandle he
    have hmodify : mu.modifyEntry e.handle value = some (.ok (), { mu with
        entries := mu.entries.set (handleInternal e.handle) ⟨k, handleVersion e.handle, value⟩ }) := by
      rw [modifyEntry, hcheck]
      rfl
    have hslots : Slots { mu with
        entries := mu.entries.set (handleInternal e.handle) ⟨k, handleVersion e.handle, value⟩ } :=
      ⟨h.inv.card, h.inv.lt, List.length_set.trans h.inv.length_entries, h.inv.length_entryMeta⟩
    have hlive' : live { mu with
        entries := mu.entries.set (handleInternal e.handle) ⟨k, handleVersion e.handle, value⟩ } =
        Function.update mu.live (handleInternal e.handle) (some ⟨k, handleVersion e.handle, value⟩) :=
      live_modified h.inv.toSlots (live_eq_some.mp hlive).1 rfl rfl
    refine ⟨_, hmodify, ?_⟩
    rw [getValue, hslots.checkHandle_eq_ok.mpr ⟨by rw [hlive', Function.update_self], rfl⟩]
    rfl
  retrieveHandle e he := by
    obtain ⟨k, hbuild, hlive, -⟩ := h.checkHandle he
    have hret := LawfulLookup.retrieveHandle_eq h.inv.holds h.exact' (keys_eq_some.mpr ⟨_, hlive, rfl⟩)
    rw [retrieveHandle, hbuild]
    simp only [Option.bind_eq_bind, Option.bind_some, hret, (live_eq_some.mp hlive).2, h.handle e he]
    rfl
  lookup e he key hlen hselects := by
    obtain ⟨k, -, hlive, -⟩ := h.checkHandle he
    obtain ⟨r, hr, hiff⟩ := LawfulLookup.lookup_iff h.inv.holds h.exact' hlen
    rw [(hiff _).mpr hselects] at hr
    rw [lookupKey_of_some hr (live_eq_some.mp hlive).2, h.handle e he]
  lookup_hit key found hlen hfound := by
    obtain ⟨r, hr, hiff⟩ := LawfulLookup.lookup_iff h.inv.holds h.exact' hlen
    cases r with
    | none => rw [lookupKey_of_none hr] at hfound; cases hfound
    | some i =>
      obtain ⟨x, hx⟩ := Option.isSome_iff_exists.mp
        (LawfulLookup.isSome_of_selects ((hiff i).mp rfl))
      obtain ⟨y, hy, -⟩ := keys_eq_some.mp hx
      obtain ⟨e, he, rfl⟩ := h.covers i y hy
      obtain ⟨k, -, hlive, -⟩ := h.checkHandle he
      rw [lookupKey_of_some hr (live_eq_some.mp hlive).2, h.handle e he] at hfound
      cases hfound
      exact ⟨e, he, rfl, rfl⟩
  deleteEntry e he := by
    obtain ⟨k, -, -, hcheck⟩ := h.checkHandle he
    exact h.inv.exists_deleteEntry hcheck

end Spec

/-! ## Runs -/

section Runs

variable [Inhabited K] [Inhabited V]

/-- One operation on the unit and the record of the client. -/
def trackedStep (s : MatchUnit K V S × List (LiveEntry V)) (op : UnitOp V) :
    Option (MatchUnit K V S × List (LiveEntry V)) :=
  (s.1.exec op).map fun (r, mu) => (mu, op.record r s.2)

variable [LawfulLookup K S] {fs : List KeyField} {mu mu' : MatchUnit K V S} {es : List (LiveEntry V)}

/-- An operation that keeps handles keeps the record in step with the unit. -/
theorem Tracks.step (h : Tracks fs mu es) {op : UnitOp V} {r : UnitResult V}
    (hkeeps : mu.KeepsHandles op) (hexec : mu.exec op = some (r, mu')) :
    Tracks fs mu' (op.record r es) := by
  obtain ⟨hshape, hslots, heffect⟩ := h.inv.toSlots.exec_effect hexec
  have hsafe : mu.DeletesSafely op := by
    cases op with
    | deleteEntry handle => exact fun e he => (hkeeps e he).1
    | _ => trivial
  have hinv := h.inv.of_effect hshape hslots heffect hsafe
  have hkb := hshape.matchKeyBuilder
  cases heffect with
  | quiet hquiet hhandles hentries _ =>
    rw [UnitOp.record_of_quiet hquiet]
    exact h.of_live hinv hkb (live_congr hhandles hentries)
  | added k old hbuild _ hlt _ hold hhandles hentries _ =>
    exact tracks_added h hinv hkb hbuild (live_added h.inv.toSlots hlt hhandles hentries) hkeeps.1
      (hkeeps.2.1 old hold) (hkeeps.2.2 k hbuild)
  | deleted e hcheck hhandles hentries _ =>
    exact tracks_deleted h hinv hkb hcheck (live_deleted hhandles hentries) (hkeeps e hcheck).2
  | modified e hcheck hhandles hentries _ =>
    have hmem := (live_eq_some.mp (h.inv.checkHandle_eq_ok.mp hcheck).1).1
    exact tracks_modified h hinv hkb hcheck (live_modified h.inv.toSlots hmem hhandles hentries)
  | reset hhandles _ _ =>
    have hlive := live_of_handles hhandles
    have hkeys : mu'.keys = fun _ => none := funext fun i => by rw [keys, hlive]; rfl
    refine ⟨hinv, hkeys ▸ LawfulLookup.exact_empty, List.nodup_nil, ?_, ?_, ?_⟩
    · exact fun e he => absurd he List.not_mem_nil
    · exact fun e he => absurd he List.not_mem_nil
    · intro i x hx
      rw [hlive] at hx
      cases hx

/-- In a run from an empty unit whose operations meet a condition that keeps handles, the
handles of the live entries work in every state reached. -/
theorem handlesWork_of_run {C : MatchUnit K V S → UnitOp V → Prop}
    (hkeeps : ∀ (mu : MatchUnit K V S) op, mu.Inv fs → LawfulLookup.Exact mu.keys → C mu op →
      mu.KeepsHandles op) (hadmits : LawfulLookup.Admits K fs) {size : ℕ} {kb : MatchKeyBuilder}
    (hfs : MatchKeyBuilder.ofFields fs = some kb) {mu₀ : MatchUnit K V S}
    (hcreate : create size kb = some mu₀) {ops : List (UnitOp V)}
    (hops : RunMeets trackedStep (fun s op => C s.1 op) (mu₀, []) ops)
    (hrun : runFrom trackedStep (mu₀, []) ops = some (mu, es)) : mu.HandlesWork es := by
  obtain ⟨hinv, hlive⟩ := inv_create hfs hcreate
  have hkeys : mu₀.keys = fun _ => none := funext fun i => by rw [keys, hlive]; rfl
  have hstart : Tracks fs mu₀ [] := by
    refine ⟨hinv, hkeys ▸ LawfulLookup.exact_empty, List.nodup_nil, by simp, by simp, ?_⟩
    intro i x hx
    rw [hlive] at hx
    cases hx
  have hend : Tracks fs mu es := by
    refine runFrom_invariant_of_meets (I := fun s => Tracks fs s.1 s.2)
      (fun s op s' htracks hC hs' => ?_) hstart hops hrun
    obtain ⟨⟨r, mu₁⟩, hexec, rfl⟩ := Option.map_eq_some_iff.mp hs'
    exact htracks.step (hkeeps s.1 op htracks.inv htracks.exact' hC) hexec
  exact hend.handlesWork hadmits

end Runs

/-! ## Conditions on the operations -/

/-- The handle of a new entry holds its slot and the version of the slot. -/
def HandleFits (mu : MatchUnit K V S) : UnitOp V → Prop
  | .addEntry .. => lowestFree mu.handles < 2 ^ 24 ∧
      ∀ old, mu.entries[lowestFree mu.handles]? = some old → old.version < 256
  | _ => True

end MatchUnit

namespace MatchUnit

variable {K V : Type} [MatchKey K] [ListKey K] [ListKeySpec K]

/-- A key of an entry list gets the priority it is added with. -/
theorem priority_of_build {mu : MatchUnit K V (EntryMap K)}
    {matchKey : List MatchKeyParam} {priority : Int32} {k : K}
    (h : mu.buildEntryFromMatchKey matchKey priority = some (.ok k)) :
    PriorityKey.priority k = priority := by
  rw [buildEntryFromMatchKey] at h
  split at h
  · obtain ⟨key, -, h⟩ := Option.bind_eq_some_iff.mp h
    obtain ⟨data, -, h⟩ := Option.bind_eq_some_iff.mp h
    cases h
    exact ListKeySpec.priority_setPriority _ _
  · cases h

/-- An entry list stays exact: no entry gets the largest priority, and slot 0 is not freed
while another slot is in use. -/
def ListStaysExact (mu : MatchUnit K V (EntryMap K)) : UnitOp V → Prop
  | .addEntry _ _ priority _ => priority ≠ Int32.maxValue
  | .deleteEntry handle => (∃ e, mu.checkHandle handle = some (.ok e)) → handleInternal handle = 0 →
      mu.handles ⊆ {0}
  | _ => True

/-- Keys of an entry list that stay exact under an operation. -/
theorem keepsHandles_of_list {fs : List KeyField}
    {mu : MatchUnit K V (EntryMap K)} {op : UnitOp V} (hinv : mu.Inv fs)
    (hexact : ListExact mu.keys) (hfits : mu.HandleFits op) (hlist : mu.ListStaysExact op) :
    mu.KeepsHandles op := by
  have hzero : ∀ i ∈ mu.handles, 0 ∈ mu.handles := by
    intro i hi
    obtain ⟨k, hk⟩ := Option.isSome_iff_exists.mp (hinv.isSome_keys.mpr hi)
    exact hinv.isSome_keys.mp (hexact.slot_zero i k hk)
  cases op with
  | addEntry matchKey value priority now =>
    refine ⟨hfits.1, hfits.2, fun k hbuild => ⟨fun i k' _ => ?_, fun i k' hk' => ?_⟩⟩
    · by_cases h0 : 0 ∈ mu.handles
      · rw [Function.update_of_ne (ne_lowestFree h0)]
        exact hinv.isSome_keys.mpr h0
      · have hempty : mu.handles = ∅ := Finset.eq_empty_of_forall_notMem fun i hi => h0 (hzero i hi)
        have hfree : lowestFree mu.handles = 0 := by rw [hempty]; rfl
        simp [hfree]
    · by_cases hi : i = lowestFree mu.handles
      · rw [hi, Function.update_self, Option.some.injEq] at hk'
        rw [← hk', priority_of_build hbuild]
        exact hlist
      · rw [Function.update_of_ne hi] at hk'
        exact hexact.priority i k' hk'
  | deleteEntry handle =>
    intro e hcheck
    refine ⟨trivial, fun i k hk => ?_, fun i k hk => ?_⟩
    all_goals
      have hi : i ≠ handleInternal handle := by
        rintro rfl
        simp at hk
      rw [Function.update_of_ne hi] at hk
    · have hi' : i ∈ mu.handles := hinv.isSome_keys.mp (by simp [hk])
      have hne : (0 : ℕ) ≠ handleInternal handle := by
        intro h0
        have hsub := hlist ⟨e, hcheck⟩ h0.symm hi'
        exact hi (by rw [← h0]; simpa using hsub)
      rw [Function.update_of_ne hne]
      exact hinv.isSome_keys.mpr (hzero i hi')
    · exact hexact.priority i k hk
  | _ => trivial

end MatchUnit

open MatchUnit

/-- **A handle keeps identifying its entry.**  In every run from an empty unit of any kind
whose operations meet the condition of the kind, the handles of the live entries work in
every state reached. -/
theorem handles_identify {V : Type} [Inhabited V] {fs : List KeyField} {kb : MatchKeyBuilder}
    (hfs : MatchKeyBuilder.ofFields fs = some kb) (size : ℕ) (ops : List (UnitOp V)) :
    ((∀ f ∈ fs, f.mtype = .exact ∨ f.mtype = .valid) →
      ∀ (mu₀ mu : MatchUnit ExactMatchKey V ExactMap) es, create size kb = some mu₀ →
        RunMeets trackedStep (fun s op => s.1.HandleFits op) (mu₀, []) ops →
        runFrom trackedStep (mu₀, []) ops = some (mu, es) → mu.HandlesWork es) ∧
    (fs ≠ [] → (∀ f ∈ fs, f.mtype = .exact ∨ f.mtype = .valid ∨ f.mtype = .lpm) →
      ∀ (mu₀ mu : MatchUnit LPMMatchKey V LPMTrieStructure) es, create size kb = some mu₀ →
        RunMeets trackedStep (fun s op => s.1.HandleFits op ∧ s.1.DeletesSafely op) (mu₀, []) ops →
        runFrom trackedStep (mu₀, []) ops = some (mu, es) → mu.HandlesWork es) ∧
    (∀ (mu₀ mu : MatchUnit TernaryMatchKey V TernaryMap) es, create size kb = some mu₀ →
        RunMeets trackedStep (fun s op => s.1.HandleFits op ∧ s.1.ListStaysExact op) (mu₀, []) ops →
        runFrom trackedStep (mu₀, []) ops = some (mu, es) → mu.HandlesWork es) ∧
    (∀ (mu₀ mu : MatchUnit RangeMatchKey V RangeMap) es, create size kb = some mu₀ →
        RunMeets trackedStep (fun s op => s.1.HandleFits op ∧ s.1.ListStaysExact op) (mu₀, []) ops →
        runFrom trackedStep (mu₀, []) ops = some (mu, es) → mu.HandlesWork es) := by
  refine ⟨fun hadmits mu₀ mu es hcreate hops hrun => ?_,
    fun hne hadmits mu₀ mu es hcreate hops hrun => ?_, fun mu₀ mu es hcreate hops hrun => ?_,
    fun mu₀ mu es hcreate hops hrun => ?_⟩
  · refine handlesWork_of_run (fun mu op _ _ hfits => ?_) hadmits hfs hcreate hops hrun
    cases op with
    | addEntry => exact ⟨hfits.1, hfits.2, fun _ _ => trivial⟩
    | deleteEntry => exact fun _ _ => ⟨trivial, trivial⟩
    | _ => trivial
  · refine handlesWork_of_run (C := fun mu op => mu.HandleFits op ∧ mu.DeletesSafely op)
      (fun mu op _ _ hC => ?_) ⟨hne, hadmits⟩ hfs hcreate hops hrun
    cases op with
    | addEntry => exact ⟨hC.1.1, hC.1.2, fun _ _ => trivial⟩
    | deleteEntry => exact fun e he => ⟨hC.2 e he, trivial⟩
    | _ => trivial
  · exact handlesWork_of_run (C := fun mu op => mu.HandleFits op ∧ mu.ListStaysExact op)
      (fun mu op hinv hexact hC => keepsHandles_of_list hinv hexact hC.1 hC.2) trivial hfs hcreate
      hops hrun
  · exact handlesWork_of_run (C := fun mu op => mu.HandleFits op ∧ mu.ListStaysExact op)
      (fun mu op hinv hexact hC => keepsHandles_of_list hinv hexact hC.1 hC.2) trivial hfs hcreate
      hops hrun

theorem handles_identify_reused_slot :
    ∃ kb, ∃ mu₀ mu : MatchUnit ExactMatchKey ℕ ExactMap, ∃ es,
      MatchKeyBuilder.ofFields [⟨0, 0, .exact, 8, none⟩] = some kb ∧ create 1 kb = some mu₀ ∧
      runFrom trackedStep (mu₀, []) [.addEntry [⟨.exact, [1], [], 0⟩] 10 0 0, .deleteEntry 0,
        .addEntry [⟨.exact, [2], [], 0⟩] 20 0 0] = some (mu, es) ∧ es ≠ [] ∧ mu.HandlesWork es := by
  refine ⟨_, _, _, _, rfl, rfl, rfl, by simp [UnitOp.record], ?_⟩
  have hfs : MatchKeyBuilder.ofFields [⟨0, 0, .exact, 8, none⟩] = some _ := rfl
  refine (handles_identify hfs 1 [.addEntry [⟨.exact, [1], [], 0⟩] 10 0 0, .deleteEntry 0,
    .addEntry [⟨.exact, [2], [], 0⟩] 20 0 0]).1 (by simp) _ _ _ rfl ?_ rfl
  refine ⟨⟨by decide, ?_⟩, fun s₁ h₁ => ?_⟩
  · intro old hold
    cases hold
    decide
  cases h₁
  refine ⟨trivial, fun s₂ h₂ => ?_⟩
  cases h₂
  refine ⟨⟨by decide, ?_⟩, fun _ _ => trivial⟩
  intro old hold
  cases hold
  decide

/-- Once slot 0 has been freed, `retrieve_handle` returns the handle of the freed slot. -/
theorem retrieveHandle_after_delete :
    ∃ kb, ∃ mu₀ mu : MatchUnit TernaryMatchKey ℕ TernaryMap, ∃ es,
      MatchKeyBuilder.ofFields [⟨0, 0, .ternary, 8, none⟩] = some kb ∧ create 2 kb = some mu₀ ∧
      runFrom trackedStep (mu₀, []) [.addEntry [⟨.ternary, [1], [0xff], 0⟩] 10 1 0,
        .addEntry [⟨.ternary, [2], [0xff], 0⟩] 20 1 0, .deleteEntry 0] = some (mu, es) ∧
      ¬ mu.HandlesWork es := by
  refine ⟨_, _, _, [⟨1, [⟨.ternary, [2], [0xff], 0⟩], 1, 20⟩], rfl, rfl, rfl, fun hwork => ?_⟩
  have hret : (some (.ok 0x1000000) : Option (Except MatchErrorCode ℕ)) = some (.ok 1) :=
    hwork.retrieveHandle _ (List.mem_singleton_self _)
  cases hret

end Bm
