/-
# Operations through stale handles

A handle is stale once its entry has been deleted.  The slot has then another version, which
only some of the operations on a handle look at: the others go by the slot alone, and reach
the entry that has taken it since.

The development is generic in the class of the table: `EntryTable` lists the operations on a
handle, `LawfulEntryTable` what is proved of them for each class.
-/
import Bmv2.Lib.Runs
import Bmv2.IndirectSpec

namespace Bm

open MatchUnit

/-! ## Tables and their operations on a handle -/

/-- A table of one of the three classes, with the operations `Op` on it.  What an entry is
changed to is an `A`. -/
class EntryTable (T : Type) (K V S Op A : outParam Type) where
  base : T → MatchTableAbstract K V S
  withBase : T → MatchTableAbstract K V S → T
  exec : T → Op → Option (TableResult × T)
  event : Op → TableResult → EntryEvent
  deleteEntry : T → ℕ → Option (Except MatchErrorCode Unit × T)
  modifyEntry : T → ℕ → A → Option (Except MatchErrorCode Unit × T)
  getEntry : T → ℕ → ℕ → Option (Except MatchErrorCode Unit)
  /-- The table knows the action, if it is changed to one. -/
  Known : T → A → Prop

variable {K S : Type} [Inhabited K] [MatchKey K] [LookupStructure K S]

instance : EntryTable (MatchTable K S) K ActionEntry S MatchTableOp (ℕ × List ℕ) where
  base := MatchTable.toMatchTableAbstract
  withBase t base := { t with toMatchTableAbstract := base }
  exec := MatchTable.exec
  event := MatchTableOp.event
  deleteEntry := MatchTable.deleteEntry
  modifyEntry t handle action := t.modifyEntry handle action.1 action.2
  getEntry t handle now := (t.getEntry handle now).map (·.map fun _ => ())
  Known t action := (t.getNextNode action.1).isSome

instance : EntryTable (MatchTableIndirect K S) K IndirectIndex S IndirectOp ℕ where
  base := MatchTableIndirect.toMatchTableAbstract
  withBase t base := { t with toMatchTableAbstract := base }
  exec t op := t.exec op
  event := IndirectOp.event
  deleteEntry := MatchTableIndirect.deleteEntry
  modifyEntry := MatchTableIndirect.modifyEntry
  getEntry t handle now := (t.getEntry handle now).map (·.map fun _ => ())
  Known _ _ := True

instance : EntryTable (MatchTableIndirectWS K S) K IndirectIndex S IndirectWSOp Target where
  base t := t.toMatchTableAbstract
  withBase t base := { t with toMatchTableAbstract := base }
  exec := MatchTableIndirectWS.exec
  event := IndirectWSOp.event
  deleteEntry t handle := (t.toMatchTableIndirect.deleteEntry handle).map fun (r, base) =>
    (r, { t with toMatchTableIndirect := base })
  modifyEntry t handle target :=
    match target with
    | .mbr mbr => (t.toMatchTableIndirect.modifyEntry handle mbr).map fun (r, base) =>
        (r, { t with toMatchTableIndirect := base })
    | .grp grp => t.modifyEntryWS handle grp
  getEntry t handle now := (t.getEntry handle now).map (·.map fun _ => ())
  Known _ _ := True

/-- The operations that take the handle of an entry. -/
inductive HandleOp (A : Type) where
  | deleteEntry
  | modifyEntry (arg : A)
  | getEntry (now : ℕ)
  | setEntryTtl (ttlMs now : ℕ)
  | queryCounters
  | writeCounters (bytes packets : ℕ)
  | setMeterRates (configs : List RateConfig)
  | getMeterRates

namespace HandleOp

variable {T V Op A : Type} [EntryTable T K V S Op A]

/-- One operation on a handle; what it reads besides the code is left out. -/
def run (t : T) (handle : ℕ) : HandleOp A → Option (Except MatchErrorCode Unit × T)
  | deleteEntry => EntryTable.deleteEntry t handle
  | modifyEntry arg => EntryTable.modifyEntry t handle arg
  | getEntry now => (EntryTable.getEntry t handle now).map fun r => (r, t)
  | setEntryTtl ttlMs now => ((EntryTable.base t).setEntryTtl handle ttlMs now).map fun (r, base) =>
      (r, EntryTable.withBase t base)
  | queryCounters => ((EntryTable.base t).queryCounters handle).map fun r => (r.map fun _ => (), t)
  | writeCounters bytes packets =>
      ((EntryTable.base t).writeCounters handle bytes packets).map fun (r, base) =>
        (r, EntryTable.withBase t base)
  | setMeterRates configs => ((EntryTable.base t).setMeterRates handle configs).map fun (r, base) =>
      (r, EntryTable.withBase t base)
  | getMeterRates => ((EntryTable.base t).getMeterRates handle).map fun r => (r.map fun _ => (), t)

/-- The operation returns an error and changes nothing. -/
def Rejects (t : T) (handle : ℕ) (op : HandleOp A) : Prop :=
  ∃ code, op.run t handle = some (.error code, t)

end HandleOp

/-- The slot of a handle is in use, and has the version of the handle. -/
def MatchUnit.ChecksOut {K V S : Type} (mu : MatchUnit K V S) (handle : ℕ) : Prop :=
  ∃ e, mu.live (handleInternal handle) = some e ∧ handleVersion handle = e.version

/-- When an operation on a handle turns it away: three go by slot and version; the others go
by the slot alone, once their feature is on. -/
def HandleOp.TurnsAway {T V Op A : Type} [EntryTable T K V S Op A] (t : T) (handle : ℕ) :
    HandleOp A → Prop
  | deleteEntry => ¬ (EntryTable.base t).matchUnit.ChecksOut handle
  | modifyEntry arg => EntryTable.Known t arg ∧ ¬ (EntryTable.base t).matchUnit.ChecksOut handle
  | getEntry _ => ¬ (EntryTable.base t).matchUnit.ChecksOut handle
  | setEntryTtl _ _ => (EntryTable.base t).withAgeing = false ∨
      handleInternal handle ∉ (EntryTable.base t).matchUnit.handles
  | queryCounters => (EntryTable.base t).withCounters = false ∨
      handleInternal handle ∉ (EntryTable.base t).matchUnit.handles
  | writeCounters _ _ => (EntryTable.base t).withCounters = false ∨
      handleInternal handle ∉ (EntryTable.base t).matchUnit.handles
  | setMeterRates configs => (EntryTable.base t).withMeters = false ∨
      handleInternal handle ∉ (EntryTable.base t).matchUnit.handles ∨
      ∃ meter, (EntryTable.base t).matchUnit.getMeter handle = some meter ∧
        (meter.setRates configs).1 ≠ .success ∧ (meter.setRates configs).2 = meter
  | getMeterRates => (EntryTable.base t).withMeters = false ∨
      handleInternal handle ∉ (EntryTable.base t).matchUnit.handles

/-! ## Match units -/

namespace MatchUnit

variable {K V S : Type} [MatchKey K] [LookupStructure K S] {mu mu' : MatchUnit K V S}
  {handle : ℕ} {code : MatchErrorCode} {e : Entry K V}

section Check

omit [MatchKey K] [LookupStructure K S]

theorem Slots.checkHandle_of_checksOut (h : mu.Slots) (hout : mu.ChecksOut handle) :
    ∃ e, mu.checkHandle handle = some (.ok e) := by
  obtain ⟨e, he⟩ := hout
  exact ⟨e, h.checkHandle_eq_ok.mpr he⟩

theorem Slots.checkHandle_of_not (h : mu.Slots) (hout : ¬ mu.ChecksOut handle) :
    ∃ code, mu.checkHandle handle = some (.error code) := by
  have hcheck := h.checkHandle_eq handle
  cases hlive : mu.live (handleInternal handle) with
  | none => exact ⟨_, by rw [hcheck, hlive]⟩
  | some e =>
    refine ⟨.expiredHandle, ?_⟩
    rw [hcheck, hlive]
    simp only
    rw [if_neg fun hver => hout ⟨e, hlive, hver⟩]

theorem getValue_of_error (hcheck : mu.checkHandle handle = some (.error code)) :
    mu.getValue handle = some (.error code) := by
  rw [getValue, hcheck]
  rfl

theorem getValue_of_ok (hcheck : mu.checkHandle handle = some (.ok e)) :
    mu.getValue handle = some (.ok e.value) := by
  rw [getValue, hcheck]
  rfl

theorem modifyEntry_of_error (hcheck : mu.checkHandle handle = some (.error code)) (value : V) :
    mu.modifyEntry handle value = some (.error code, mu) := by
  rw [modifyEntry, hcheck]
  rfl

theorem modifyEntry_ok (hcheck : mu.checkHandle handle = some (.ok e)) {value : V}
    {r : Except MatchErrorCode Unit} (hmodify : mu.modifyEntry handle value = some (r, mu')) :
    r = .ok () := by
  rw [modifyEntry, hcheck] at hmodify
  cases hmodify
  rfl

end Check

omit [MatchKey K] in
theorem deleteEntry_of_error (hcheck : mu.checkHandle handle = some (.error code)) :
    mu.deleteEntry handle = some (.error code, mu) := by
  rw [deleteEntry, hcheck]
  rfl

omit [MatchKey K] in
theorem Slots.deleteEntry_ok (h : mu.Slots) (hcheck : mu.checkHandle handle = some (.ok e))
    {r : Except MatchErrorCode Unit} (hdelete : mu.deleteEntry handle = some (r, mu')) : r = .ok () := by
  obtain ⟨he, -⟩ := h.checkHandle_eq_ok.mp hcheck
  obtain ⟨res, hres, hdelete⟩ := Option.bind_eq_some_iff.mp hdelete
  cases Option.some.inj (hres.symm.trans hcheck)
  obtain ⟨s, -, hdelete⟩ := Option.bind_eq_some_iff.mp hdelete
  simp only [unsetHandle, HandleMgr.releaseHandle, if_pos (live_eq_some.mp he).1] at hdelete
  cases hdelete
  rfl

omit [LookupStructure K S] in
theorem getEntry_of_error (hcheck : mu.checkHandle handle = some (.error code)) :
    mu.getEntry handle = some (.error code) := by
  rw [getEntry, hcheck]
  rfl

omit [LookupStructure K S] in
theorem getEntry_ok (hcheck : mu.checkHandle handle = some (.ok e))
    {r : Except MatchErrorCode (List MatchKeyParam × V × Int32)}
    (hget : mu.getEntry handle = some r) : ∃ x, r = .ok x := by
  obtain ⟨res, hres, hget⟩ := Option.bind_eq_some_iff.mp hget
  cases Option.some.inj (hres.symm.trans hcheck)
  obtain ⟨matchKey, -, hget⟩ := Option.bind_eq_some_iff.mp hget
  cases hget
  exact ⟨_, rfl⟩

end MatchUnit

/-! ## The three classes -/

/-- The operations on a handle that go by slot and version do so, in a table of the class. -/
class LawfulEntryTable (T : Type) (K V S Op A : outParam Type) [Inhabited K] [Inhabited V] [MatchKey K]
    [LookupStructure K S] [EntryTable T K V S Op A] : Prop where
  withBase_eq_iff (t : T) (base : MatchTableAbstract K V S) :
    EntryTable.withBase t base = t ↔ base = EntryTable.base t
  exec_undergoes {t t' : T} {op : Op} {r : TableResult} (h : (EntryTable.base t).matchUnit.Slots)
    (hexec : EntryTable.exec t op = some (r, t')) :
    (EntryTable.base t).matchUnit.Undergoes (EntryTable.base t').matchUnit (EntryTable.event T op r)
  deleteEntry_iff {t : T} (h : (EntryTable.base t).matchUnit.Slots) (handle : ℕ) :
    (∃ code, EntryTable.deleteEntry t handle = some (.error code, t)) ↔
      ¬ (EntryTable.base t).matchUnit.ChecksOut handle
  modifyEntry_iff {t : T} (h : (EntryTable.base t).matchUnit.Slots) (handle : ℕ) (arg : A) :
    (∃ code, EntryTable.modifyEntry t handle arg = some (.error code, t)) ↔
      EntryTable.Known t arg ∧ ¬ (EntryTable.base t).matchUnit.ChecksOut handle
  getEntry_iff {t : T} (h : (EntryTable.base t).matchUnit.Slots) (handle now : ℕ) :
    (∃ code, EntryTable.getEntry t handle now = some (.error code)) ↔
      ¬ (EntryTable.base t).matchUnit.ChecksOut handle

/-- Something happens exactly on the handles that do not check out, if it happens on those
and on no others. -/
theorem iff_not_checksOut {K V S : Type} {mu : MatchUnit K V S} (h : mu.Slots) {handle : ℕ} {P : Prop}
    (herror : ∀ code, mu.checkHandle handle = some (.error code) → P)
    (hok : ∀ e, mu.checkHandle handle = some (.ok e) → ¬ P) : P ↔ ¬ mu.ChecksOut handle := by
  by_cases hout : mu.ChecksOut handle
  · obtain ⟨e, he⟩ := h.checkHandle_of_checksOut hout
    exact iff_of_false (hok e he) (not_not.mpr hout)
  · obtain ⟨code, hcode⟩ := h.checkHandle_of_not hout
    exact iff_of_true (herror code hcode) hout

/-- `get_entry` without what it reads. -/
theorem map_unit_eq_error {E : Type} {res : Option (Except MatchErrorCode E)} {code : MatchErrorCode} :
    res.map (·.map fun _ => ()) = some (.error code) ↔ res = some (.error code) := by
  rcases res with _ | ⟨_ | _⟩ <;> simp [Except.map]

instance : LawfulEntryTable (MatchTable K S) K ActionEntry S MatchTableOp (ℕ × List ℕ) where
  withBase_eq_iff t base := by
    cases t
    simp [EntryTable.withBase, EntryTable.base]
  exec_undergoes h hexec := MatchTable.exec_undergoes h hexec
  deleteEntry_iff {t} h handle := by
    refine iff_not_checksOut h (fun code hcheck => ⟨code, ?_⟩) fun e hcheck herror => ?_
    · show t.deleteEntry handle = _
      unfold MatchTable.deleteEntry
      rw [show t.matchUnit.deleteEntry handle = _ from deleteEntry_of_error hcheck]
      rfl
    · obtain ⟨code, herror⟩ := herror
      obtain ⟨⟨r, mu⟩, hmu, herror⟩ := Option.bind_eq_some_iff.mp herror
      cases h.deleteEntry_ok hcheck hmu
      cases herror
  modifyEntry_iff {t} h handle action := by
    constructor
    · rintro ⟨code, herror⟩
      obtain ⟨nextNode, hnext, herror⟩ := Option.bind_eq_some_iff.mp herror
      obtain ⟨⟨r, mu⟩, hmu, herror⟩ := Option.bind_eq_some_iff.mp herror
      refine ⟨Option.isSome_iff_exists.mpr ⟨nextNode, hnext⟩, fun hout => ?_⟩
      obtain ⟨e, hcheck⟩ := h.checkHandle_of_checksOut hout
      cases modifyEntry_ok hcheck hmu
      cases herror
    · rintro ⟨hknown, hout⟩
      obtain ⟨nextNode, hnext⟩ := Option.isSome_iff_exists.mp hknown
      obtain ⟨code, hcheck⟩ := h.checkHandle_of_not hout
      refine ⟨code, ?_⟩
      show t.modifyEntry handle action.1 action.2 = _
      unfold MatchTable.modifyEntry
      rw [hnext, Option.bind_eq_bind, Option.bind_some,
        show t.matchUnit.modifyEntry handle _ = _ from modifyEntry_of_error hcheck _]
      rfl
  getEntry_iff {t} h handle now := by
    refine iff_not_checksOut h (fun code hcheck => ⟨code, map_unit_eq_error.mpr ?_⟩) fun e hcheck herror => ?_
    · unfold MatchTable.getEntry
      rw [show t.matchUnit.getEntry handle = _ from getEntry_of_error hcheck]
      rfl
    · obtain ⟨code, herror⟩ := herror
      obtain ⟨r, hr, herror⟩ := Option.bind_eq_some_iff.mp (map_unit_eq_error.mp herror)
      obtain ⟨x, rfl⟩ := getEntry_ok hcheck hr
      obtain ⟨common, -, herror⟩ := Option.bind_eq_some_iff.mp herror
      cases herror

/-- Counting one reference less changes the counts. -/
theorem IndirectIndexRefCount.decrease_ne {rc rc' : IndirectIndexRefCount} {index : IndirectIndex}
    (h : rc.decrease index = some rc') : rc' ≠ rc := by
  obtain ⟨c, hc, heq⟩ := Option.bind_eq_some_iff.mp h
  cases heq
  intro heq
  have hcounts : ∀ v, (rc.withCounts index v).counts index = v := by
    intro v
    unfold withCounts counts
    split <;> simp
  have hget := congrArg (fun rc => (rc.counts index)[index.get]?) heq
  obtain ⟨hlt, hget'⟩ := List.getElem?_eq_some_iff.mp hc
  simp only [hcounts, List.getElem?_set_self hlt] at hget
  rw [List.getElem?_eq_getElem hlt, hget', Option.some.injEq] at hget
  omega

namespace MatchTableIndirect

variable {t : MatchTableIndirect K S} {handle : ℕ}

omit [Inhabited K] [MatchKey K] in
theorem deleteEntry_iff (h : t.matchUnit.Slots) :
    (∃ code, t.deleteEntry handle = some (.error code, t)) ↔ ¬ t.matchUnit.ChecksOut handle := by
  refine iff_not_checksOut h (fun code hcheck => ⟨code, ?_⟩) fun e hcheck herror => ?_
  · unfold deleteEntry
    rw [getValue_of_error hcheck]
    rfl
  · obtain ⟨code, herror⟩ := herror
    obtain ⟨res, hres, herror⟩ := Option.bind_eq_some_iff.mp herror
    cases Option.some.inj (hres.symm.trans (getValue_of_ok hcheck))
    obtain ⟨rc, -, herror⟩ := Option.bind_eq_some_iff.mp herror
    obtain ⟨⟨r, mu⟩, hmu, herror⟩ := Option.bind_eq_some_iff.mp herror
    cases h.deleteEntry_ok hcheck hmu
    cases herror

omit [Inhabited K] [MatchKey K] [LookupStructure K S] in
theorem modifyEntry_iff (h : t.matchUnit.Slots) (handle mbr : ℕ) :
    (∃ code, t.modifyEntry handle mbr = some (.error code, t)) ↔ ¬ t.matchUnit.ChecksOut handle := by
  refine iff_not_checksOut h (fun code hcheck => ⟨code, ?_⟩) fun e hcheck herror => ?_
  · unfold modifyEntry
    rw [getValue_of_error hcheck]
    rfl
  · obtain ⟨code, herror⟩ := herror
    obtain ⟨res, hres, herror⟩ := Option.bind_eq_some_iff.mp herror
    cases Option.some.inj (hres.symm.trans (getValue_of_ok hcheck))
    obtain ⟨rc, hdec, herror⟩ := Option.bind_eq_some_iff.mp herror
    split at herror
    · -- the error comes with a count that is one too low
      have hrc := congrArg (fun p => p.2.indexRefCount) (Option.some.inj herror)
      exact IndirectIndexRefCount.decrease_ne hdec hrc
    · obtain ⟨index, -, herror⟩ := Option.bind_eq_some_iff.mp herror
      obtain ⟨rc', -, herror⟩ := Option.bind_eq_some_iff.mp herror
      obtain ⟨⟨r, mu⟩, hmu, herror⟩ := Option.bind_eq_some_iff.mp herror
      cases modifyEntry_ok hcheck hmu
      cases herror

/-- A table with members goes through the event that the operation tells of. -/
theorem undergoes_of_effect {t t' : MatchTableIndirect K S} (h : t.matchUnit.Slots) {op : MemberOp}
    {r : TableResult} (heffect : MemberEffect t t' op r) :
    t.matchUnit.Undergoes t'.matchUnit (op.event r) := by
  cases heffect with
  | abstract hexec ht' => subst ht'; exact h.undergoes_same (MatchTableAbstract.exec_same hexec)
  | refused hevent ht' => subst ht'; rw [hevent]; exact h.undergoes_same .rfl'
  | entryAdded _ _ _ hadd ht' => subst ht'; exact h.undergoes_addEntry hadd
  | entryDeleted _ _ hdelete ht' => subst ht'; exact h.undergoes_deleteEntry hdelete
  | entryModified _ _ _ _ _ hmodify ht' => subst ht'; exact h.undergoes_modifyEntry hmodify
  | memberAdded _ _ _ _ ht' => subst ht'; exact h.undergoes_same .rfl'
  | memberDeleted _ _ ht' => subst ht'; exact h.undergoes_same .rfl'
  | memberModified _ ht' => subst ht'; exact h.undergoes_same .rfl'
  | entryLost _ _ _ ht' => subst ht'; exact h.undergoes_same .rfl'
  | defaultSet _ _ ht' => subst ht'; exact h.undergoes_same .rfl'

end MatchTableIndirect

instance : LawfulEntryTable (MatchTableIndirect K S) K IndirectIndex S IndirectOp ℕ where
  withBase_eq_iff t base := by
    cases t
    simp [EntryTable.withBase, EntryTable.base]
  exec_undergoes {t t' op r} h hexec := by
    cases op with
    | mbr op => exact t.undergoes_of_effect h (t.execMember_effect hexec)
    | lookup phv ingressLength ingressTsMs =>
      obtain ⟨⟨⟨actionEntry, handle⟩, t₀⟩, hlookup, heq⟩ := Option.map_eq_some_iff.mp hexec
      cases heq
      obtain ⟨mu, hsame, rfl⟩ := t.lookup_effect hlookup
      exact h.undergoes_same hsame
    | resetState =>
      obtain ⟨t₀, hreset, heq⟩ := Option.map_eq_some_iff.mp hexec
      cases heq
      obtain ⟨mu, hmu, hreset⟩ := Option.bind_eq_some_iff.mp hreset
      cases hreset
      exact undergoes_resetState hmu
  deleteEntry_iff {t} h handle := t.deleteEntry_iff h
  modifyEntry_iff {t} h handle mbr := (t.modifyEntry_iff h handle mbr).trans (and_iff_right trivial).symm
  getEntry_iff {t} h handle now := by
    refine iff_not_checksOut h (fun code hcheck => ⟨code, map_unit_eq_error.mpr ?_⟩) fun e hcheck herror => ?_
    · unfold MatchTableIndirect.getEntry
      rw [show t.matchUnit.getEntry handle = _ from getEntry_of_error hcheck]
      rfl
    · obtain ⟨code, herror⟩ := herror
      obtain ⟨r, hr, herror⟩ := Option.bind_eq_some_iff.mp (map_unit_eq_error.mp herror)
      obtain ⟨x, rfl⟩ := getEntry_ok hcheck hr
      obtain ⟨mbr, -, herror⟩ := Option.bind_eq_some_iff.mp herror
      obtain ⟨common, -, herror⟩ := Option.bind_eq_some_iff.mp herror
      cases herror

namespace MatchTableIndirectWS

variable {t : MatchTableIndirectWS K S} {handle : ℕ}

omit [Inhabited K] [MatchKey K] [LookupStructure K S] in
/-- An operation of the table below rejects when it does so in the table below. -/
theorem map_base_eq_error {res : Option (Except MatchErrorCode Unit × MatchTableIndirect K S)}
    {code : MatchErrorCode} :
    (res.map fun (r, base) => (r, ({ t with toMatchTableIndirect := base } : MatchTableIndirectWS K S))) =
      some (.error code, t) ↔ res = some (.error code, t.toMatchTableIndirect) := by
  rcases res with _ | ⟨r, base⟩
  · simp
  · cases t
    simp

omit [Inhabited K] [MatchKey K] [LookupStructure K S] in
theorem modifyEntryWS_iff (h : t.matchUnit.Slots) {grp : ℕ} :
    (∃ code, t.modifyEntryWS handle grp = some (.error code, t)) ↔ ¬ t.matchUnit.ChecksOut handle := by
  refine iff_not_checksOut h (fun code hcheck => ⟨code, ?_⟩) fun e hcheck herror => ?_
  · unfold modifyEntryWS
    rw [getValue_of_error hcheck]
    rfl
  · obtain ⟨code, herror⟩ := herror
    obtain ⟨res, hres, herror⟩ := Option.bind_eq_some_iff.mp herror
    cases Option.some.inj (hres.symm.trans (getValue_of_ok hcheck))
    obtain ⟨rc, hdec, herror⟩ := Option.bind_eq_some_iff.mp herror
    -- an error comes with a count that is one too low
    have hlost : ∀ c : MatchErrorCode, (some (.error c, { t with indexRefCount := rc }) :
        Option (Except MatchErrorCode Unit × MatchTableIndirectWS K S)) ≠ some (.error code, t) := by
      intro c heq
      have hrc := congrArg (fun p => p.2.indexRefCount) (Option.some.inj heq)
      exact IndirectIndexRefCount.decrease_ne hdec hrc
    split at herror
    · exact hlost _ herror
    · obtain ⟨n, -, herror⟩ := Option.bind_eq_some_iff.mp herror
      split at herror
      · exact hlost _ herror
      · obtain ⟨index, -, herror⟩ := Option.bind_eq_some_iff.mp herror
        obtain ⟨rc', -, herror⟩ := Option.bind_eq_some_iff.mp herror
        obtain ⟨⟨r, mu⟩, hmu, herror⟩ := Option.bind_eq_some_iff.mp herror
        cases modifyEntry_ok hcheck hmu
        cases herror

/-- A table with groups goes through the event that the operation tells of. -/
theorem undergoes_of_effect {t t' : MatchTableIndirectWS K S} (h : t.matchUnit.Slots)
    {op : IndirectWSOp} {r : TableResult} (heffect : GroupEffect t t' op r) :
    t.matchUnit.Undergoes t'.matchUnit (op.event r) := by
  cases heffect with
  | mbr heffect ht' => subst ht'; exact t.toMatchTableIndirect.undergoes_of_effect h heffect
  | refused hevent ht' => subst ht'; rw [hevent]; exact h.undergoes_same .rfl'
  | entryAdded _ _ _ _ _ hadd ht' => subst ht'; exact h.undergoes_addEntry hadd
  | entryModified _ _ _ _ _ _ _ hmodify ht' => subst ht'; exact h.undergoes_modifyEntry hmodify
  | lookup hsame ht' => subst ht'; exact h.undergoes_same hsame
  | reset hreset ht' =>
    subst ht'
    obtain ⟨mu, hmu, hreset⟩ := Option.bind_eq_some_iff.mp hreset
    cases hreset
    exact undergoes_resetState hmu
  | groupCreated _ _ _ _ ht' => subst ht'; exact h.undergoes_same .rfl'
  | groupDeleted _ _ _ _ ht' => subst ht'; exact h.undergoes_same .rfl'
  | mbrPut _ _ _ _ _ _ ht' => subst ht'; exact h.undergoes_same .rfl'
  | mbrTaken _ _ _ _ _ _ ht' => subst ht'; exact h.undergoes_same .rfl'
  | entryLost _ _ _ ht' => subst ht'; exact h.undergoes_same .rfl'
  | defaultSet _ _ ht' => subst ht'; exact h.undergoes_same .rfl'

end MatchTableIndirectWS

instance : LawfulEntryTable (MatchTableIndirectWS K S) K IndirectIndex S IndirectWSOp Target where
  withBase_eq_iff t base := by
    obtain ⟨⟨t₀, _⟩, _⟩ := t
    simp [EntryTable.withBase, EntryTable.base]
  exec_undergoes {t t' op r} h hexec := t.undergoes_of_effect h (t.exec_effect hexec)
  deleteEntry_iff {t} h handle := by
    refine Iff.trans ?_ (t.toMatchTableIndirect.deleteEntry_iff h)
    exact exists_congr fun code => MatchTableIndirectWS.map_base_eq_error
  modifyEntry_iff {t} h handle target := by
    refine Iff.trans ?_ (and_iff_right trivial).symm
    cases target with
    | mbr mbr =>
      have hbase := t.toMatchTableIndirect.modifyEntry_iff h handle mbr
      exact Iff.trans (exists_congr fun code => MatchTableIndirectWS.map_base_eq_error) hbase
    | grp grp => exact t.modifyEntryWS_iff h
  getEntry_iff {t} h handle now := by
    refine iff_not_checksOut h (fun code hcheck => ⟨code, map_unit_eq_error.mpr ?_⟩) fun e hcheck herror => ?_
    · unfold MatchTableIndirectWS.getEntry
      rw [show t.matchUnit.getEntry handle = _ from getEntry_of_error hcheck]
      rfl
    · obtain ⟨code, herror⟩ := herror
      obtain ⟨r, hr, herror⟩ := Option.bind_eq_some_iff.mp (map_unit_eq_error.mp herror)
      obtain ⟨x, rfl⟩ := getEntry_ok hcheck hr
      obtain ⟨p, -, herror⟩ := Option.bind_eq_some_iff.mp herror
      obtain ⟨common, -, herror⟩ := Option.bind_eq_some_iff.mp herror
      cases herror

/-! ## What an operation turns away -/

namespace MatchTableAbstract

variable {K V S : Type} {t : MatchTableAbstract K V S} {handle : ℕ}

theorem isValidHandle_eq (t : MatchTableAbstract K V S) (handle : ℕ) :
    (!t.isValidHandle handle) = true ↔ handleInternal handle ∉ t.matchUnit.handles := by
  simp [isValidHandle, validHandle]

theorem setEntryTtl_iff (ttlMs now : ℕ) :
    (∃ code, t.setEntryTtl handle ttlMs now = some (.error code, t)) ↔
      t.withAgeing = false ∨ handleInternal handle ∉ t.matchUnit.handles := by
  unfold setEntryTtl
  by_cases hageing : t.withAgeing = false
  · simp [hageing]
  · rw [if_neg (by simpa using hageing)]
    by_cases hmem : handleInternal handle ∈ t.matchUnit.handles
    · refine iff_of_false ?_ (by simp [hageing, hmem])
      rintro ⟨code, h⟩
      obtain ⟨⟨r, mu⟩, hset, h⟩ := Option.bind_eq_some_iff.mp h
      rw [MatchUnit.setEntryTtl, if_pos (by simpa [validHandle] using hmem)] at hset
      obtain ⟨m, -, hset⟩ := Option.bind_eq_some_iff.mp hset
      cases hset
      cases h
    · refine iff_of_true ⟨.invalidHandle, ?_⟩ (.inr hmem)
      rw [MatchUnit.setEntryTtl, if_neg (by simpa [validHandle] using hmem)]
      rfl

theorem queryCounters_iff : (∃ code, t.queryCounters handle = some (.error code)) ↔
    t.withCounters = false ∨ handleInternal handle ∉ t.matchUnit.handles := by
  unfold queryCounters
  by_cases hcounters : t.withCounters = false
  · simp [hcounters]
  · rw [if_neg (by simpa using hcounters)]
    split
    · rename_i hmem
      rw [isValidHandle_eq] at hmem
      exact iff_of_true ⟨_, rfl⟩ (.inr hmem)
    · rename_i hmem
      rw [isValidHandle_eq] at hmem
      refine iff_of_false ?_ (by simpa [hcounters] using hmem)
      rintro ⟨code, h⟩
      obtain ⟨m, -, h⟩ := Option.bind_eq_some_iff.mp h
      cases h

theorem writeCounters_iff (bytes packets : ℕ) :
    (∃ code, t.writeCounters handle bytes packets = some (.error code, t)) ↔
      t.withCounters = false ∨ handleInternal handle ∉ t.matchUnit.handles := by
  unfold writeCounters
  by_cases hcounters : t.withCounters = false
  · simp [hcounters]
  · rw [if_neg (by simpa using hcounters)]
    split
    · rename_i hmem
      rw [isValidHandle_eq] at hmem
      exact iff_of_true ⟨_, rfl⟩ (.inr hmem)
    · rename_i hmem
      rw [isValidHandle_eq] at hmem
      refine iff_of_false ?_ (by simpa [hcounters] using hmem)
      rintro ⟨code, h⟩
      obtain ⟨m, -, h⟩ := Option.bind_eq_some_iff.mp h
      cases h

/-- The rates of a meter are refused without a trace, or they are not. -/
theorem setMeterRates_iff (configs : List RateConfig) :
    (∃ code, t.setMeterRates handle configs = some (.error code, t)) ↔
      t.withMeters = false ∨ handleInternal handle ∉ t.matchUnit.handles ∨
        ∃ meter, t.matchUnit.getMeter handle = some meter ∧
          (meter.setRates configs).1 ≠ .success ∧ (meter.setRates configs).2 = meter := by
  unfold setMeterRates
  by_cases hmeters : t.withMeters = false
  · simp [hmeters]
  · rw [if_neg (by simpa using hmeters)]
    split
    · rename_i hmem
      rw [isValidHandle_eq] at hmem
      exact iff_of_true ⟨_, rfl⟩ (.inr (.inl hmem))
    · rename_i hmem
      rw [isValidHandle_eq, not_not] at hmem
      cases hget : t.matchUnit.getMeter handle with
      | none => simp [hmeters, hmem]
      | some meter =>
        obtain ⟨meters, hmeters', hmeter⟩ := Option.bind_eq_some_iff.mp hget
        obtain ⟨hlt, hmeter'⟩ := List.getElem?_eq_some_iff.mp hmeter
        have hset : ∀ m, { t with matchUnit := { t.matchUnit with
            directMeters := t.matchUnit.directMeters.map (·.set (handleInternal handle) m) } } = t ↔
            m = meter := by
          intro m
          constructor
          · intro heq
            have hread := congrArg (fun t => t.matchUnit.getMeter handle) heq
            simp only [getMeter, hmeters', Option.map_some, Option.bind_eq_bind, Option.bind_some,
              List.getElem?_set_self hlt, hmeter] at hread
            exact Option.some.inj hread
          · rintro rfl
            rw [hmeters', Option.map_some, ← hmeter', List.set_getElem_self, ← hmeters']
        constructor
        · rintro ⟨code, h⟩
          obtain ⟨hcode, ht⟩ := Prod.mk.inj (Option.some.inj h)
          replace hcode : (if (meter.setRates configs).1 = .success then (.ok () : Except _ Unit)
            else .error .error) = .error code := hcode
          refine .inr (.inr ⟨meter, rfl, fun hsuccess => ?_, (hset _).mp ht⟩)
          rw [if_pos hsuccess] at hcode
          cases hcode
        · rintro (h | h | ⟨m, hm, hne, heq⟩)
          · exact absurd h hmeters
          · exact absurd hmem h
          · cases hm
            exact ⟨.error, congrArg some (Prod.ext (if_neg hne) ((hset _).mpr heq))⟩

theorem getMeterRates_iff : (∃ code, t.getMeterRates handle = some (.error code)) ↔
    t.withMeters = false ∨ handleInternal handle ∉ t.matchUnit.handles := by
  unfold getMeterRates
  by_cases hmeters : t.withMeters = false
  · simp [hmeters]
  · rw [if_neg (by simpa using hmeters)]
    split
    · rename_i hmem
      rw [isValidHandle_eq] at hmem
      exact iff_of_true ⟨_, rfl⟩ (.inr hmem)
    · rename_i hmem
      rw [isValidHandle_eq] at hmem
      refine iff_of_false ?_ (by simpa [hmeters] using hmem)
      rintro ⟨code, h⟩
      obtain ⟨m, -, h⟩ := Option.bind_eq_some_iff.mp h
      cases h

end MatchTableAbstract

section Rejects

variable {T K V S Op A : Type} [Inhabited K] [Inhabited V] [MatchKey K] [LookupStructure K S]
  [EntryTable T K V S Op A] [LawfulEntryTable T K V S Op A]

/-- What all tables share rejects in a table when it rejects by itself. -/
theorem exists_map_withBase {t : T}
    {res : Option (Except MatchErrorCode Unit × MatchTableAbstract K V S)} :
    (∃ code, (res.map fun (r, base) => (r, EntryTable.withBase t base)) = some (.error code, t)) ↔
      ∃ code, res = some (.error code, EntryTable.base t) := by
  refine exists_congr fun code => ?_
  rcases res with _ | ⟨r, base⟩
  · simp
  · simp [LawfulEntryTable.withBase_eq_iff t base]

/-- **An operation on a handle rejects exactly when it turns the handle away.** -/
theorem HandleOp.rejects_iff {t : T} (h : (EntryTable.base t).matchUnit.Slots) (handle : ℕ)
    (op : HandleOp A) : op.Rejects t handle ↔ op.TurnsAway t handle := by
  cases op with
  | deleteEntry => exact LawfulEntryTable.deleteEntry_iff h handle
  | modifyEntry arg => exact LawfulEntryTable.modifyEntry_iff h handle arg
  | getEntry now =>
    refine Iff.trans (exists_congr fun code => ?_) (LawfulEntryTable.getEntry_iff h handle now)
    show (EntryTable.getEntry t handle now).map _ = _ ↔ _
    rcases EntryTable.getEntry t handle now with _ | r <;> simp
  | setEntryTtl ttlMs now => exact exists_map_withBase.trans (MatchTableAbstract.setEntryTtl_iff ttlMs now)
  | queryCounters =>
    refine Iff.trans (exists_congr fun code => ?_) MatchTableAbstract.queryCounters_iff
    show ((EntryTable.base t).queryCounters handle).map _ = _ ↔ _
    rcases (EntryTable.base t).queryCounters handle with _ | _ | _ <;> simp [Except.map]
  | writeCounters bytes packets =>
    exact exists_map_withBase.trans (MatchTableAbstract.writeCounters_iff bytes packets)
  | setMeterRates configs =>
    exact exists_map_withBase.trans (MatchTableAbstract.setMeterRates_iff configs)
  | getMeterRates =>
    refine Iff.trans (exists_congr fun code => ?_) MatchTableAbstract.getMeterRates_iff
    show ((EntryTable.base t).getMeterRates handle).map _ = _ ↔ _
    rcases (EntryTable.base t).getMeterRates handle with _ | _ | _ <;> simp [Except.map]

end Rejects

/-! ## The handles given out -/

/-- A handle that `add_entry` has returned: the slot of its entry, how often the slot has been
freed by a deletion since, and whether the table has been reset since. -/
structure Issued where
  handle : ℕ
  slot : ℕ
  deletions : ℕ := 0
  reset : Bool := false
  deriving DecidableEq

/-- The entry of the handle has been deleted. -/
def Issued.Stale (s : Issued) : Prop := 0 < s.deletions ∨ s.reset

/-- The handles given out after an event; `slot` is the lowest slot that was free before. -/
def EntryEvent.record (slot : ℕ) : EntryEvent → List Issued → List Issued
  | .none, issued => issued
  | .added handle, issued => { handle, slot } :: issued
  | .deleted handle, issued => issued.map fun s =>
      if s.slot = handleInternal handle then { s with deletions := s.deletions + 1 } else s
  | .reset, issued => issued.map fun s => { s with reset := true }

/-- One operation on a table and on the record of the handles it has given out. -/
def recordedStep {T K V S Op A : Type} [EntryTable T K V S Op A] (s : T × List Issued) (op : Op) :
    Option (T × List Issued) :=
  (EntryTable.exec s.1 op).map fun (r, t) =>
    (t, (EntryTable.event T op r).record (lowestFree (EntryTable.base s.1).matchUnit.handles) s.2)

/-- The version of a slot counts the deletions since a handle was given out, modulo 256. -/
def VersionCounts {K V S : Type} (mu : MatchUnit K V S) (s : Issued) : Prop :=
  s.reset = false → (0 < s.deletions → s.slot < 2 ^ 24) ∧
    (s.slot < 2 ^ 24 → handleInternal s.handle = s.slot ∧
      ∃ e, mu.entries[s.slot]? = some e ∧
        e.version % 256 = (handleVersion s.handle + s.deletions) % 256)

namespace MatchUnit

variable {K V S : Type} [Inhabited K] [Inhabited V] [MatchKey K] [LookupStructure K S]
  {mu mu' : MatchUnit K V S} {issued : List Issued}

omit [Inhabited K] [Inhabited V] [MatchKey K] [LookupStructure K S] in
/-- Versions alone matter. -/
theorem versionCounts_of_versions {s : Issued} (h : VersionCounts mu s)
    (hentries : ∀ (i : ℕ) (e : Entry K V), mu.entries[i]? = some e →
      ∃ e' : Entry K V, mu'.entries[i]? = some e' ∧ e'.version = e.version) :
    VersionCounts mu' s := by
  intro hreset
  obtain ⟨hpos, hslot⟩ := h hreset
  refine ⟨hpos, fun hlt => ?_⟩
  obtain ⟨hinternal, e, he, hver⟩ := hslot hlt
  obtain ⟨e', he', hver'⟩ := hentries _ _ he
  exact ⟨hinternal, e', he', hver'.symm ▸ hver⟩

/-- **Versions keep counting** through every event. -/
theorem versionCounts_record (hslots : mu.Slots) {event : EntryEvent} (h : mu.Undergoes mu' event)
    (hcounts : ∀ s ∈ issued, VersionCounts mu s) :
    ∀ s ∈ event.record (lowestFree mu.handles) issued, VersionCounts mu' s := by
  obtain ⟨-, op, r, heffect, rfl⟩ := h
  cases heffect with
  | quiet hquiet _ hentries _ =>
    have hnone : op.event r = .none := by
      rcases op with _ | _ | _ | _ | _ | _ | _ | _ <;> rcases r with (_ | _) | (_ | _) | _ <;>
        first | rfl | exact hquiet.elim
    rw [hnone]
    intro s hs
    exact versionCounts_of_versions (hcounts s hs) fun i e he => ⟨e, hentries ▸ he, rfl⟩
  | @added matchKey value priority now k old _ _ _ _ hold _ hentries _ =>
    intro s hs
    rcases List.mem_cons.mp hs with rfl | hs
    · refine fun _ => ⟨fun hpos => absurd hpos (lt_irrefl 0), fun hlt =>
        ⟨handleInternal_handleSet hlt, ⟨k, old.version, value⟩, ?_, ?_⟩⟩
      · obtain ⟨hlen, -⟩ := List.getElem?_eq_some_iff.mp hold
        rw [hentries]
        exact List.getElem?_set_self hlen
      · rw [handleVersion_handleSet hlt, Nat.add_zero, Nat.mod_mod]
    · refine versionCounts_of_versions (hcounts s hs) fun i e he => ?_
      rw [hentries]
      by_cases hi : i = lowestFree mu.handles
      · subst hi
        obtain rfl := Option.some.inj (hold.symm.trans he)
        obtain ⟨hlen, -⟩ := List.getElem?_eq_some_iff.mp hold
        exact ⟨_, List.getElem?_set_self hlen, rfl⟩
      · exact ⟨e, by rw [List.getElem?_set_ne (Ne.symm hi)]; exact he, rfl⟩
  | @deleted handle e hcheck _ hentries _ =>
    intro s hs
    obtain ⟨s₀, hs₀, rfl⟩ := List.mem_map.mp hs
    obtain ⟨hlive, -⟩ := hslots.checkHandle_eq_ok.mp hcheck
    obtain ⟨-, he⟩ := live_eq_some.mp hlive
    obtain ⟨hlen, -⟩ := List.getElem?_eq_some_iff.mp he
    intro hreset
    by_cases hslot : s₀.slot = handleInternal handle
    · -- the slot is the one freed: both the version and the count go up by one
      rw [if_pos hslot] at hreset ⊢
      have hlt : s₀.slot < 2 ^ 24 := hslot ▸ handleInternal_lt handle
      obtain ⟨hinternal, e₀, he₀, hver⟩ := (hcounts s₀ hs₀ hreset).2 hlt
      obtain rfl : e₀ = e := Option.some.inj (he₀.symm.trans (hslot ▸ he))
      refine ⟨fun _ => hlt, fun _ =>
        ⟨hinternal, { e₀ with version := (e₀.version + 1) % 2 ^ 32 }, ?_, ?_⟩⟩
      · rw [hentries]
        show (mu.entries.set (handleInternal handle) _)[s₀.slot]? = _
        rw [hslot, List.getElem?_set_self hlen]
      · show (e₀.version + 1) % 2 ^ 32 % 256 = (handleVersion s₀.handle + (s₀.deletions + 1)) % 256
        omega
    · rw [if_neg hslot] at hreset ⊢
      obtain ⟨hpos, hin⟩ := hcounts s₀ hs₀ hreset
      refine ⟨hpos, fun hlt => ?_⟩
      obtain ⟨hinternal, e₀, he₀, hver⟩ := hin hlt
      exact ⟨hinternal, e₀, by rw [hentries, List.getElem?_set_ne (Ne.symm hslot)]; exact he₀, hver⟩
  | @modified handle value e hcheck _ hentries _ =>
    obtain ⟨hlive, -⟩ := hslots.checkHandle_eq_ok.mp hcheck
    obtain ⟨-, he⟩ := live_eq_some.mp hlive
    obtain ⟨hlen, -⟩ := List.getElem?_eq_some_iff.mp he
    intro s hs
    refine versionCounts_of_versions (hcounts s hs) fun i e₀ he₀ => ?_
    rw [hentries]
    by_cases hi : i = handleInternal handle
    · subst hi
      obtain rfl : e₀ = e := Option.some.inj (he₀.symm.trans he)
      exact ⟨_, List.getElem?_set_self hlen, rfl⟩
    · exact ⟨e₀, by rw [List.getElem?_set_ne (Ne.symm hi)]; exact he₀, rfl⟩
  | reset _ _ _ =>
    intro s hs
    obtain ⟨s₀, -, rfl⟩ := List.mem_map.mp hs
    intro hreset
    cases hreset

omit [Inhabited K] [Inhabited V] [MatchKey K] [LookupStructure K S] in
/-- A slot freed fewer than 256 times since has another version than the handle. -/
theorem not_checksOut {s : Issued} (h : VersionCounts mu s) (hreset : s.reset = false)
    (hstale : s.Stale) (hfew : s.deletions < 256) : ¬ mu.ChecksOut s.handle := by
  have hpos : 0 < s.deletions := hstale.resolve_right (by simp [hreset])
  obtain ⟨hlt, hslot⟩ := h hreset
  obtain ⟨hinternal, e, he, hver⟩ := hslot (hlt hpos)
  rintro ⟨e', hlive, hver'⟩
  obtain ⟨-, he'⟩ := live_eq_some.mp hlive
  obtain rfl : e' = e := Option.some.inj (he'.symm.trans (hinternal ▸ he))
  rw [← hver'] at hver
  omega

end MatchUnit

/-- The operations through the stale handles of a table reject exactly when they turn the
handle away; and unless the table was reset, its version gives the handle away. -/
def RejectsStale {T K V S Op A : Type} [EntryTable T K V S Op A] (t : T) (issued : List Issued) : Prop :=
  ∀ s ∈ issued, s.Stale → s.deletions < 256 →
    (∀ op : HandleOp A, op.Rejects t s.handle ↔ op.TurnsAway t s.handle) ∧
      (s.reset = false → ¬ (EntryTable.base t).matchUnit.ChecksOut s.handle)

/-- In every run from an empty table of one class. -/
theorem rejectsStale_of_run {T K V S Op A : Type} [Inhabited K] [Inhabited V] [MatchKey K]
    [LookupStructure K S] [EntryTable T K V S Op A] [LawfulEntryTable T K V S Op A] {size : ℕ}
    {kb : MatchKeyBuilder} {t₀ t : T} {issued : List Issued}
    (hnew : MatchUnit.create size kb = some (EntryTable.base t₀).matchUnit) {ops : List Op}
    (hrun : runFrom recordedStep (t₀, []) ops = some (t, issued)) : RejectsStale t issued := by
  have hstart : (EntryTable.base t₀).matchUnit.Slots := by
    obtain ⟨s, -, hmu⟩ := Option.bind_eq_some_iff.mp hnew
    have heq := Option.some.inj hmu
    rw [← heq]
    exact ⟨rfl, by simp, List.length_replicate, List.length_replicate⟩
  have hend : (EntryTable.base t).matchUnit.Slots ∧
      ∀ s ∈ issued, VersionCounts (EntryTable.base t).matchUnit s := by
    refine runFrom_invariant (I := fun s : T × List Issued => (EntryTable.base s.1).matchUnit.Slots ∧
      ∀ i ∈ s.2, VersionCounts (EntryTable.base s.1).matchUnit i) (fun s op s' hs hs' => ?_)
      ⟨hstart, by simp⟩ hrun
    obtain ⟨⟨r, t'⟩, hexec, rfl⟩ := Option.map_eq_some_iff.mp hs'
    have hundergoes := LawfulEntryTable.exec_undergoes hs.1 hexec
    exact ⟨hundergoes.1, versionCounts_record hs.1 hundergoes hs.2⟩
  intro s hs hstale hfew
  exact ⟨fun op => op.rejects_iff hend.1 s.handle,
    fun hreset => not_checksOut (hend.2 s hs) hreset hstale hfew⟩

/-- **Stale handles.**  In every run from an empty table of any of the three classes, every
operation through a stale handle rejects exactly when it turns the handle away. -/
theorem stale_handle_rejects_iff {K S : Type} [Inhabited K] [MatchKey K] [LookupStructure K S]
    (size : ℕ) (kb : MatchKeyBuilder) :
    (∀ (t₀ t : MatchTable K S) ops issued, MatchUnit.create size kb = some t₀.matchUnit →
      runFrom recordedStep (t₀, []) ops = some (t, issued) → RejectsStale t issued) ∧
    (∀ (t₀ t : MatchTableIndirect K S) ops issued, MatchUnit.create size kb = some t₀.matchUnit →
      runFrom recordedStep (t₀, []) ops = some (t, issued) → RejectsStale t issued) ∧
    (∀ (t₀ t : MatchTableIndirectWS K S) ops issued, MatchUnit.create size kb = some t₀.matchUnit →
      runFrom recordedStep (t₀, []) ops = some (t, issued) → RejectsStale t issued) :=
  ⟨fun _ _ _ _ hnew hrun => rejectsStale_of_run hnew hrun,
    fun _ _ _ _ hnew hrun => rejectsStale_of_run hnew hrun,
    fun _ _ _ _ hnew hrun => rejectsStale_of_run hnew hrun⟩

theorem stale_handle_rejects_iff_reused_slot :
    ∃ kb, ∃ t₀ t : MatchTable ExactMatchKey ExactMap, ∃ issued,
      MatchKeyBuilder.ofFields [⟨0, 0, .exact, 8, none⟩] = some kb ∧
      MatchUnit.create 1 kb = some t₀.matchUnit ∧
      runFrom recordedStep (t₀, []) [.addEntry [⟨.exact, [1], [], 0⟩] 7 [] 0 0, .deleteEntry 0,
        .addEntry [⟨.exact, [2], [], 0⟩] 7 [] 0 0] = some (t, issued) ∧
      issued = [⟨0x1000000, 0, 0, false⟩, ⟨0, 0, 1, false⟩] ∧ RejectsStale t issued := by
  refine ⟨_, { matchUnit := _, withCounters := true, withAgeing := true, nextNodes := fun _ => some none },
    _, _, rfl, rfl, rfl, rfl, ?_⟩
  exact (stale_handle_rejects_iff 1 (MatchKeyBuilder.pushBackField {} 0 0 8 .exact)).1
    { matchUnit := _, withCounters := true, withAgeing := true, nextNodes := fun _ => some none } _
    [.addEntry [⟨.exact, [1], [], 0⟩] 7 [] 0 0, .deleteEntry 0, .addEntry [⟨.exact, [2], [], 0⟩] 7 [] 0 0]
    _ rfl rfl

/-- Through the handle of a deleted entry the counters of the entry in its slot are read and
written, and its timeout is set. -/
theorem stale_handle_reaches_new_entry :
    ∃ kb, ∃ t₀ t : MatchTable ExactMatchKey ExactMap, ∃ issued,
      MatchKeyBuilder.ofFields [⟨0, 0, .exact, 8, none⟩] = some kb ∧
      MatchUnit.create 1 kb = some t₀.matchUnit ∧
      runFrom recordedStep (t₀, []) [.addEntry [⟨.exact, [1], [], 0⟩] 7 [] 0 0, .deleteEntry 0,
        .addEntry [⟨.exact, [2], [], 0⟩] 7 [] 0 0] = some (t, issued) ∧
      ∃ s ∈ issued, s.Stale ∧ s.deletions < 256 ∧
        ∀ op ∈ ([.setEntryTtl 100 5, .queryCounters, .writeCounters 3 4] : List (HandleOp (ℕ × List ℕ))),
          ¬ op.Rejects t s.handle := by
  refine ⟨_, { matchUnit := _, withCounters := true, withAgeing := true, nextNodes := fun _ => some none },
    _, _, rfl, rfl, rfl, ⟨0, 0, 1, false⟩, List.mem_cons_of_mem _ (List.mem_singleton_self _),
    .inl (by decide), by decide, ?_⟩
  intro op hop
  simp only [List.mem_cons, List.not_mem_nil, or_false] at hop
  rcases hop with rfl | rfl | rfl <;> rintro ⟨code, h⟩ <;> cases h

end Bm
