/-
# Ageing

`AgeingMonitor` (`ageing.cpp`): a sweep goes over the tables with ageing, asks each
one for the entries that have been idle for too long, and sends a message with those
that were not in the message of the sweep before.

* `notified`: the sets that should be notified, given those that have expired;
* `ReachableBy.timed`: the meta data of a match unit, whatever was done to it;
* `sweepEntries_eq`: what a table answers;
* `sweepTable_spec`: what is sent for one table, from buffers that are empty;
* `doSweep_spec`: one sweep;
* `ageing_law`: all sweeps.
-/
import Bmv2.MatchUnitSpec

namespace Bm

/-! ## Tables -/

/-- What a sweep reads of the match unit of a table. -/
structure TableView where
  handles : HandleMgr
  entryMeta : List EntryMeta
  deriving DecidableEq

/-- An entry has a timeout, and has been idle for that long. -/
def EntryMeta.Aged (m : EntryMeta) (now : ℕ) : Prop := 0 < m.timeoutMs ∧ m.timeoutMs ≤ now - m.ts

instance (m : EntryMeta) (now : ℕ) : Decidable (m.Aged now) := inferInstanceAs (Decidable (_ ∧ _))

/-- The loop of `sweep_entries`; it asserts that no time stamp is in the future. -/
def TableView.sweepLoop (v : TableView) (now : ℕ) : List ℕ → List ℕ → Option (List ℕ)
  | [], entries => some entries
  | slot :: slots, entries => do
      let entryMeta ← v.entryMeta[slot]?
      if now < entryMeta.ts then none
      else if entryMeta.Aged now then
        v.sweepLoop now slots (entries ++ [handleSet entryMeta.version slot])
      else v.sweepLoop now slots entries

/-- `sweep_entries`: the handles are appended to `entries`. -/
def TableView.sweepEntries (v : TableView) (now : ℕ) (entries : List ℕ) : Option (List ℕ) :=
  v.sweepLoop now (v.handles.sort (· ≤ ·)) entries

/-- The match unit, for a sweep. -/
def MatchUnit.view {K V S : Type} (mu : MatchUnit K V S) : TableView := ⟨mu.handles, mu.entryMeta⟩

/-! ## The monitor -/

/-- `msg_hdr_t` with the handles that follow it. -/
structure AgeingMsg where
  subTopic : String
  switchId : ℤ
  cxtId : ℤ
  bufferId : BitVec 64
  tableId : ℤ
  numEntries : ℕ
  handles : List ℕ
  deriving DecidableEq

/-- What the sweeps of all tables share. -/
structure SweepBuffers where
  entries : List ℕ := []
  entriesTmp : List ℕ := []
  bufferId : BitVec 64 := 0
  deriving DecidableEq

/-- `AgeingMonitor`; `tables_with_ageing` is a map from the ids of the tables to the handles of the
sweep before. -/
structure AgeingMonitor where
  deviceId : ℤ
  cxtId : ℤ
  tablesWithAgeing : Finset ℤ := ∅
  prevSweepEntries : ℤ → Finset ℕ := fun _ => ∅
  buffers : SweepBuffers := {}

namespace AgeingMonitor

/-- `add_table`: a table that is there already is kept as it is. -/
def addTable (m : AgeingMonitor) (id : ℤ) : AgeingMonitor :=
  if id ∈ m.tablesWithAgeing then m
  else { m with
    tablesWithAgeing := insert id m.tablesWithAgeing
    prevSweepEntries := Function.update m.prevSweepEntries id ∅ }

/-- `reset_state`. -/
def resetState (m : AgeingMonitor) : AgeingMonitor :=
  { m with buffers := {}, prevSweepEntries := fun _ => ∅ }

/-- The message for the handles in `entries`: the sizes are numbers of 32 bits, and a handle takes
four bytes. -/
def message (m : AgeingMonitor) (id : ℤ) (bufferId : BitVec 64) (entries : List ℕ) : AgeingMsg where
  subTopic := "AGE|"
  switchId := m.deviceId
  cxtId := m.cxtId
  bufferId
  tableId := id
  numEntries := entries.length % 2 ^ 32
  handles := entries.take (entries.length % 2 ^ 32 * 4 % 2 ^ 32 / 4)

/-- The body of the loop of `do_sweep`: the buffers, the handles to remember for the table, and the
message. -/
def sweepTable (m : AgeingMonitor) (b : SweepBuffers) (id : ℤ) (prev : Finset ℕ) (v : TableView)
    (now : ℕ) : Option (SweepBuffers × Finset ℕ × Option AgeingMsg) := do
  let entriesTmp ← v.sweepEntries now b.entriesTmp
  if entriesTmp = [] then pure ({ b with entriesTmp }, ∅, none)
  else
    let entries := b.entries ++ entriesTmp.filter fun handle => handle ∉ prev
    if entries = [] then pure ({ b with entries, entriesTmp := [] }, ∅, none)
    else pure ({ entries := [], entriesTmp := [], bufferId := b.bufferId + 1 },
      entries.toFinset, some (m.message id b.bufferId entries))

/-- The loop of `do_sweep`; `tables` gives for every table its state and the time when it is
swept. -/
def sweepLoop (m : AgeingMonitor) (tables : ℤ → TableView × ℕ) :
    List ℤ → SweepBuffers → (ℤ → Finset ℕ) →
      Option (SweepBuffers × (ℤ → Finset ℕ) × List AgeingMsg)
  | [], b, prev => some (b, prev, [])
  | id :: ids, b, prev => do
      let (b, next, msg) ← m.sweepTable b id (prev id) (tables id).1 (tables id).2
      let (b, prev, msgs) ← m.sweepLoop tables ids b (Function.update prev id next)
      pure (b, prev, msg.toList ++ msgs)

/-- `do_sweep`. -/
def doSweep (m : AgeingMonitor) (tables : ℤ → TableView × ℕ) :
    Option (AgeingMonitor × List AgeingMsg) := do
  let (buffers, prevSweepEntries, msgs) ← m.sweepLoop tables (m.tablesWithAgeing.sort (· ≤ ·))
    m.buffers m.prevSweepEntries
  pure ({ m with buffers, prevSweepEntries }, msgs)

/-- Sweeps one after another, with the messages of each. -/
def run : AgeingMonitor → List (ℤ → TableView × ℕ) → Option (AgeingMonitor × List (List AgeingMsg))
  | m, [] => some (m, [])
  | m, tables :: sweeps => do
      let (m, msgs) ← m.doSweep tables
      let (m, out) ← m.run sweeps
      pure (m, msgs :: out)

end AgeingMonitor

/-! ## What should be notified -/

section Notified

variable {α : Type} [DecidableEq α] (prev : Finset α) (expired : ℕ → Finset α)

/-- What has expired at a sweep and was not notified at the one before. -/
def notified : ℕ → Finset α
  | 0 => expired 0 \ prev
  | k + 1 => expired (k + 1) \ notified k

/-- The sweeps after the first one. -/
theorem notified_succ (k : ℕ) :
    notified prev expired (k + 1) = notified (notified prev expired 0) (fun k => expired (k + 1)) k := by
  induction k with
  | zero => rfl
  | succ k ih => exact congrArg (expired (k + 2) \ ·) ih

theorem notified_subset (k : ℕ) : notified prev expired k ⊆ expired k := by
  cases k with
  | zero => exact Finset.sdiff_subset
  | succ k => exact Finset.sdiff_subset

/-- Nothing is notified twice in a row. -/
theorem disjoint_notified (k : ℕ) :
    Disjoint (notified prev expired k) (notified prev expired (k + 1)) := Finset.disjoint_sdiff

/-- What has expired at two sweeps is notified at one of them. -/
theorem inter_subset_notified (k : ℕ) :
    expired k ∩ expired (k + 1) ⊆ notified prev expired k ∪ notified prev expired (k + 1) := by
  intro a ha
  rw [Finset.mem_union, notified, Finset.mem_sdiff]
  by_cases hk : a ∈ notified prev expired k
  · exact .inl hk
  · exact .inr ⟨(Finset.mem_inter.mp ha).2, hk⟩

end Notified

/-! ## The tables between two sweeps -/

/-- The times that an operation leaves as time stamps are not after `now`. -/
def UnitOp.StampedBy {V : Type} (now : ℕ) : UnitOp V → Prop
  | .addEntry _ _ _ ts => ts ≤ now
  | .setEntryTtl _ _ ts => ts ≤ now
  | .lookup _ _ ts => ts ≤ now
  | _ => True

namespace MatchUnit

variable {K V S : Type} [Inhabited K] [Inhabited V] [MatchKey K] [LookupStructure K S]

/-- What may have been done to a match unit at the time `now`: the operations on it, those that
write counters and meters, and the restoring of a dump of a unit `src`. -/
inductive ReachableBy (now : ℕ) : MatchUnit K V S → Prop
  | create {size : ℕ} {kb : MatchKeyBuilder} {mu : MatchUnit K V S}
      (h : MatchUnit.create size kb = some mu) : ReachableBy now mu
  | step {mu mu' : MatchUnit K V S} {op : UnitOp V} (h : ReachableBy now mu)
      (hop : op.StampedBy now) (hstep : mu.step op = some mu') : ReachableBy now mu'
  | writeCounter {mu : MatchUnit K V S} {slot : ℕ} {m : EntryMeta} (h : ReachableBy now mu)
      (hm : mu.entryMeta[slot]? = some m) (counter : Counter) :
      ReachableBy now { mu with entryMeta := mu.entryMeta.set slot { m with counter } }
  | writeMeters {mu : MatchUnit K V S} (h : ReachableBy now mu) (directMeters : Option (List Meter)) :
      ReachableBy now { mu with directMeters }
  | restore {mu src : MatchUnit K V S} (hsrc : ReachableBy now src)
      (hhandles : mu.handles = src.handles) (hnum : mu.numEntries = src.numEntries)
      (hlt : ∀ slot ∈ src.handles, slot < mu.size) (hentries : mu.entries.length = mu.size)
      (hlen : mu.entryMeta.length = mu.size)
      (hmeta : ∀ (slot : ℕ) (m : EntryMeta), mu.entryMeta[slot]? = some m → m.ts ≤ now ∧
        (m.timeoutMs = 0 ∨ ∃ m', src.entryMeta[slot]? = some m' ∧ m.timeoutMs = m'.timeoutMs)) :
      ReachableBy now mu

end MatchUnit

/-- Time stamps are not in the future, and only an entry that a handle can name has a timeout. -/
def Stamped (now : ℕ) (entryMeta : List EntryMeta) : Prop :=
  ∀ (slot : ℕ) (m : EntryMeta), entryMeta[slot]? = some m →
    m.ts ≤ now ∧ (0 < m.timeoutMs → slot < 2 ^ 24)

namespace Stamped

variable {now : ℕ} {ms : List EntryMeta}

theorem replicate (n : ℕ) : Stamped now (List.replicate n {}) := by
  intro slot m hm
  obtain rfl := List.eq_of_mem_replicate (List.mem_of_getElem? hm)
  exact ⟨Nat.zero_le _, fun h => absurd h (lt_irrefl _)⟩

theorem set (h : Stamped now ms) {slot : ℕ} {m : EntryMeta} (hts : m.ts ≤ now)
    (hslot : 0 < m.timeoutMs → slot < 2 ^ 24) : Stamped now (ms.set slot m) := by
  intro i m' hm'
  by_cases hi : slot = i
  · subst hi
    have hlt : slot < (ms.set slot m).length := (List.getElem?_eq_some_iff.mp hm').1
    rw [List.getElem?_set_self (by simpa using hlt)] at hm'
    obtain rfl := Option.some.inj hm'
    exact ⟨hts, hslot⟩
  · rw [List.getElem?_set_ne hi] at hm'
    exact h i m' hm'

/-- The counters do not matter. -/
theorem map (h : Stamped now ms) {f : EntryMeta → EntryMeta}
    (hf : ∀ m, (f m).ts = m.ts ∧ (f m).timeoutMs = m.timeoutMs) : Stamped now (ms.map f) := by
  intro slot m hm
  rw [List.getElem?_map] at hm
  obtain ⟨m₀, hm₀, rfl⟩ := Option.map_eq_some_iff.mp hm
  rw [(hf m₀).1, (hf m₀).2]
  exact h slot m₀ hm₀

end Stamped

namespace MatchUnit

variable {K V S : Type} {now : ℕ} {mu mu' : MatchUnit K V S}

theorem entryMeta_modifyEntry {handle : ℕ} {value : V} {r : Except MatchErrorCode Unit}
    (hmodify : mu.modifyEntry handle value = some (r, mu')) : mu'.entryMeta = mu.entryMeta := by
  obtain ⟨res, -, hmodify⟩ := Option.bind_eq_some_iff.mp hmodify
  cases res with
  | error code =>
    cases hmodify
    rfl
  | ok e =>
    cases hmodify
    rfl

theorem stamped_setEntryTtl (h : Stamped now mu.entryMeta) {handle ttlMs ts : ℕ} (hts : ts ≤ now)
    {r : Except MatchErrorCode Unit} (hset : mu.setEntryTtl handle ttlMs ts = some (r, mu')) :
    Stamped now mu'.entryMeta := by
  rw [setEntryTtl] at hset
  split at hset
  · obtain ⟨m, -, hset⟩ := Option.bind_eq_some_iff.mp hset
    cases hset
    exact h.set hts fun _ => handleInternal_lt handle
  · cases hset
    exact h

variable [LookupStructure K S]

theorem entryMeta_deleteEntry {handle : ℕ} {r : Except MatchErrorCode Unit}
    (hdelete : mu.deleteEntry handle = some (r, mu')) : mu'.entryMeta = mu.entryMeta := by
  obtain ⟨res, -, hdelete⟩ := Option.bind_eq_some_iff.mp hdelete
  cases res with
  | error code =>
    cases hdelete
    rfl
  | ok e =>
    obtain ⟨s, -, hdelete⟩ := Option.bind_eq_some_iff.mp hdelete
    dsimp only [unsetHandle] at hdelete
    cases hrel : mu.handles.releaseHandle (handleInternal handle) with
    | none =>
      rw [hrel] at hdelete
      cases hdelete
      rfl
    | some handles =>
      rw [hrel] at hdelete
      cases hdelete
      rfl

theorem stamped_lookup (h : Stamped now mu.entryMeta) {phv : PHV} {ingressLength ts : ℕ} (hts : ts ≤ now)
    {res : Option (MatchUnitLookup V)} (hlookup : mu.lookup phv ingressLength ts = some (res, mu')) :
    Stamped now mu'.entryMeta := by
  obtain ⟨key, -, hlookup⟩ := Option.bind_eq_some_iff.mp hlookup
  obtain ⟨found, -, hlookup⟩ := Option.bind_eq_some_iff.mp hlookup
  cases found with
  | none =>
    cases hlookup
    exact h
  | some found =>
    obtain ⟨m, -, hlookup⟩ := Option.bind_eq_some_iff.mp hlookup
    cases hlookup
    exact h.set hts fun _ => handleInternal_lt found.handle

variable [MatchKey K]

/-- A new entry has its place before its meta data are written. -/
theorem entryMeta_addEntry {matchKey : List MatchKeyParam} {value : V} {priority : Int32}
    {r : Except MatchErrorCode ℕ} (hadd : mu.addEntry_ matchKey value priority = some (r, mu')) :
    mu'.entryMeta = mu.entryMeta := by
  obtain ⟨res, -, hadd⟩ := Option.bind_eq_some_iff.mp hadd
  cases res with
  | error code =>
    cases hadd
    rfl
  | ok key =>
    obtain ⟨b, -, hadd⟩ := Option.bind_eq_some_iff.mp hadd
    cases b with
    | true =>
      cases hadd
      rfl
    | false =>
      rw [if_neg (by simp)] at hadd
      cases hget : mu.getAndSetHandle with
      | error code =>
        rw [hget] at hadd
        cases hadd
        rfl
      | ok res =>
        obtain ⟨slot, mu₁⟩ := res
        rw [hget] at hadd
        obtain ⟨old, -, hadd⟩ := Option.bind_eq_some_iff.mp hadd
        obtain ⟨s, -, hadd⟩ := Option.bind_eq_some_iff.mp hadd
        cases hadd
        show mu₁.entryMeta = mu.entryMeta
        unfold getAndSetHandle at hget
        split at hget
        · cases hget
        · split at hget
          · cases hget
          · cases hget
            rfl

theorem stamped_addEntry (h : Stamped now mu.entryMeta) {matchKey : List MatchKeyParam} {value : V}
    {priority : Int32} {ts : ℕ} (hts : ts ≤ now) {r : Except MatchErrorCode ℕ}
    (hadd : mu.addEntry matchKey value priority ts = some (r, mu')) : Stamped now mu'.entryMeta := by
  obtain ⟨⟨r₀, mu₀⟩, hadd', hadd⟩ := Option.bind_eq_some_iff.mp hadd
  have hsame : mu₀.entryMeta = mu.entryMeta := entryMeta_addEntry hadd'
  cases r₀ with
  | error code =>
    obtain ⟨rfl, rfl⟩ := Prod.mk.inj (Option.some.inj hadd)
    rwa [hsame]
  | ok handle =>
    obtain ⟨m, -, hadd⟩ := Option.bind_eq_some_iff.mp hadd
    obtain ⟨rfl, rfl⟩ := Prod.mk.inj (Option.some.inj hadd)
    exact Stamped.set (hsame ▸ h) hts fun _ => handleInternal_lt handle

variable [Inhabited K] [Inhabited V]

/-- One operation. -/
theorem stamped_step (h : Stamped now mu.entryMeta) {op : UnitOp V} (hop : op.StampedBy now)
    {r : UnitResult V} (hexec : mu.exec op = some (r, mu')) : Stamped now mu'.entryMeta := by
  cases op with
  | addEntry matchKey value priority ts =>
    obtain ⟨⟨r₀, mu₀⟩, hadd, heq⟩ := Option.map_eq_some_iff.mp hexec
    cases heq
    exact stamped_addEntry h hop hadd
  | deleteEntry handle =>
    obtain ⟨⟨r₀, mu₀⟩, hdelete, heq⟩ := Option.map_eq_some_iff.mp hexec
    cases heq
    rwa [entryMeta_deleteEntry hdelete]
  | modifyEntry handle value =>
    obtain ⟨⟨r₀, mu₀⟩, hmodify, heq⟩ := Option.map_eq_some_iff.mp hexec
    cases heq
    rwa [entryMeta_modifyEntry hmodify]
  | setEntryTtl handle ttlMs ts =>
    obtain ⟨⟨r₀, mu₀⟩, hset, heq⟩ := Option.map_eq_some_iff.mp hexec
    cases heq
    exact stamped_setEntryTtl h hop hset
  | lookup phv ingressLength ts =>
    obtain ⟨⟨r₀, mu₀⟩, hlookup, heq⟩ := Option.map_eq_some_iff.mp hexec
    cases heq
    exact stamped_lookup h hop hlookup
  | resetCounters =>
    cases hexec
    exact h.map fun m => ⟨rfl, rfl⟩
  | setDirectMeters meterArray =>
    obtain ⟨mu₀, hset, heq⟩ := Option.map_eq_some_iff.mp hexec
    cases heq
    rw [setDirectMeters] at hset
    split at hset
    · cases hset
      exact h
    · cases hset
  | resetState =>
    obtain ⟨mu₀, hreset, heq⟩ := Option.map_eq_some_iff.mp hexec
    cases heq
    obtain ⟨s, -, hreset⟩ := Option.bind_eq_some_iff.mp hreset
    cases hreset
    exact .replicate mu.size

/-- Whatever was done to a unit, its slots have meta data, and these are stamped. -/
theorem ReachableBy.timed (h : ReachableBy now mu) : mu.Slots ∧ Stamped now mu.entryMeta := by
  induction h with
  | create h =>
    obtain ⟨s, -, hmu⟩ := Option.bind_eq_some_iff.mp h
    cases hmu
    exact ⟨⟨rfl, by simp, List.length_replicate, List.length_replicate⟩, .replicate _⟩
  | step _ hop hstep ih =>
    obtain ⟨⟨r, mu₁⟩, hexec, rfl⟩ := Option.map_eq_some_iff.mp hstep
    exact ⟨(ih.1.exec_effect hexec).2.1, stamped_step ih.2 hop hexec⟩
  | writeCounter _ hm counter ih =>
    have hold := ih.2 _ _ hm
    exact ⟨ih.1.of_sameEntries (.of_meta List.length_set _), ih.2.set hold.1 hold.2⟩
  | writeMeters _ directMeters ih => exact ⟨ih.1.of_sameEntries (.of_meta rfl _), ih.2⟩
  | restore _ hhandles hnum hlt hentries hlen hmeta ih =>
    refine ⟨⟨by rw [hhandles, hnum, ih.1.card], fun i hi => ?_, hentries, hlen⟩, fun slot m hm => ?_⟩
    · rw [hhandles] at hi
      exact ⟨hlt i hi, (ih.1.lt i hi).2⟩
    · obtain ⟨hts, hzero | ⟨m', hm', heq⟩⟩ := hmeta slot m hm
      · exact ⟨hts, fun hpos => absurd hzero hpos.ne'⟩
      · exact ⟨hts, fun hpos => (ih.2 slot m' hm').2 (heq ▸ hpos)⟩

end MatchUnit

/-! ## What a table answers -/

namespace TableView

/-- The table of a match unit that something was done to. -/
def ReachableBy (now : ℕ) (v : TableView) : Prop :=
  ∃ (K V S : Type) (_ : Inhabited K) (_ : Inhabited V) (_ : MatchKey K) (_ : LookupStructure K S)
    (mu : MatchUnit K V S), mu.ReachableBy now ∧ mu.view = v

variable (v : TableView) (now : ℕ)

def metaAt (slot : ℕ) : EntryMeta := v.entryMeta[slot]?.getD {}

def handleAt (slot : ℕ) : ℕ := handleSet (v.metaAt slot).version slot

/-- The handles of the entries that have been idle for as long as their timeout. -/
def expired : Finset ℕ := (v.handles.filter fun slot => (v.metaAt slot).Aged now).image v.handleAt

variable {v now}

theorem sweepLoop_eq {slots : List ℕ} (hlt : ∀ slot ∈ slots, slot < v.entryMeta.length)
    (hts : ∀ slot ∈ slots, (v.metaAt slot).ts ≤ now) (entries : List ℕ) :
    v.sweepLoop now slots entries =
      some (entries ++ (slots.filter fun slot => (v.metaAt slot).Aged now).map v.handleAt) := by
  induction slots generalizing entries with
  | nil => simp [sweepLoop]
  | cons slot slots ih =>
    have hget : v.entryMeta[slot]? = some (v.metaAt slot) := by
      rw [metaAt, List.getElem?_eq_getElem (hlt slot (by simp)), Option.getD_some]
    have hnow : ¬ now < (v.metaAt slot).ts := not_lt.mpr (hts slot (by simp))
    have hih := ih (fun i hi => hlt i (by simp [hi])) fun i hi => hts i (by simp [hi])
    rw [sweepLoop, hget]
    simp only [Option.bind_eq_bind, Option.bind_some, if_neg hnow]
    by_cases haged : (v.metaAt slot).Aged now
    · rw [if_pos haged, hih, List.filter_cons_of_pos (by simpa using haged), List.map_cons,
        List.append_assoc]
      rfl
    · rw [if_neg haged, hih, List.filter_cons_of_neg (by simpa using haged)]

/-- Each expired entry is named once. -/
theorem sweepEntries_eq (hv : v.ReachableBy now) :
    ∃ hs : List ℕ, hs.Nodup ∧ hs.toFinset = v.expired now ∧ hs.length ≤ 2 ^ 24 ∧
      ∀ entries, v.sweepEntries now entries = some (entries ++ hs) := by
  obtain ⟨K, V, S, _, _, _, _, mu, hmu, rfl⟩ := hv
  obtain ⟨hslots, hstamped⟩ := hmu.timed
  have hlt (slot : ℕ) (hslot : slot ∈ mu.handles) : slot < mu.entryMeta.length :=
    (hslots.lt slot hslot).1.trans_eq hslots.length_entryMeta.symm
  have hget (slot : ℕ) (hslot : slot ∈ mu.handles) :
      mu.entryMeta[slot]? = some (mu.view.metaAt slot) := by
    show _ = some (mu.entryMeta[slot]?.getD {})
    rw [List.getElem?_eq_getElem (hlt slot hslot), Option.getD_some]
  let slots := (mu.handles.sort (· ≤ ·)).filter fun slot => (mu.view.metaAt slot).Aged now
  have hmem {slot : ℕ} (hslot : slot ∈ slots) :
      slot ∈ mu.handles ∧ (mu.view.metaAt slot).Aged now := by
    simpa [slots] using hslot
  have hsmall {slot : ℕ} (hslot : slot ∈ slots) : slot < 2 ^ 24 :=
    (hstamped slot _ (hget slot (hmem hslot).1)).2 (hmem hslot).2.1
  have hnodup : slots.Nodup := (Finset.sort_nodup _ _).filter _
  refine ⟨slots.map mu.view.handleAt, hnodup.map_on fun i hi j hj heq => ?_, ?_, ?_, fun entries => ?_⟩
  · have hinternal := congrArg handleInternal heq
    rwa [handleAt, handleAt, handleInternal_handleSet (hsmall hi),
      handleInternal_handleSet (hsmall hj)] at hinternal
  · have hview : mu.view.handles = mu.handles := rfl
    ext handle
    simp [slots, expired, hview]
  · rw [List.length_map, ← List.toFinset_card_of_nodup hnodup, ← Finset.card_range (2 ^ 24)]
    refine Finset.card_le_card fun slot hslot => Finset.mem_range.mpr (hsmall ?_)
    exact List.mem_toFinset.mp hslot
  · refine sweepLoop_eq (fun slot hslot => hlt slot ?_) (fun slot hslot => ?_) entries
    · exact (Finset.mem_sort _).mp hslot
    · exact (hstamped slot _ (hget slot ((Finset.mem_sort _).mp hslot))).1

end TableView

/-! ## One sweep -/

/-- The message of the monitor `m` that reports the handles in `reported`. -/
structure AgeingMsg.Reports (m : AgeingMonitor) (reported : Finset ℕ) (msg : AgeingMsg) : Prop where
  subTopic : msg.subTopic = "AGE|"
  switchId : msg.switchId = m.deviceId
  cxtId : msg.cxtId = m.cxtId
  nodup : msg.handles.Nodup
  handles : msg.handles.toFinset = reported
  numEntries : msg.numEntries = msg.handles.length

/-- The ids of the messages follow one another. -/
def Consecutive (bufferId : BitVec 64) (msgs : List AgeingMsg) : Prop :=
  ∀ (i : ℕ) (msg : AgeingMsg), msgs[i]? = some msg → msg.bufferId = bufferId + BitVec.ofNat 64 i

theorem Consecutive.append {bufferId : BitVec 64} {msgs msgs' : List AgeingMsg}
    (h : Consecutive bufferId msgs)
    (h' : Consecutive (bufferId + BitVec.ofNat 64 msgs.length) msgs') :
    Consecutive bufferId (msgs ++ msgs') := by
  intro i msg hmsg
  by_cases hi : i < msgs.length
  · rw [List.getElem?_append_left hi] at hmsg
    exact h i msg hmsg
  · rw [List.getElem?_append_right (not_lt.mp hi)] at hmsg
    rw [h' _ msg hmsg, BitVec.add_assoc, ← BitVec.ofNat_add, Nat.add_sub_cancel' (not_lt.mp hi)]

/-- Exactly the tables among `ids` with something to report have sent one message each. -/
structure SentFor (m : AgeingMonitor) (ids : List ℤ) (reported : ℤ → Finset ℕ)
    (msgs : List AgeingMsg) : Prop where
  tables : msgs.map (·.tableId) = ids.filter fun id => reported id ≠ ∅
  reports : ∀ msg ∈ msgs, msg.Reports m (reported msg.tableId)

namespace SentFor

variable {m : AgeingMonitor} {ids ids' : List ℤ} {reported reported' : ℤ → Finset ℕ}
  {msgs msgs' : List AgeingMsg}

/-- Only the sets of the tables matter. -/
theorem congr (h : SentFor m ids reported msgs) (heq : ∀ id ∈ ids, reported' id = reported id) :
    SentFor m ids reported' msgs := by
  have htables : msgs.map (·.tableId) = ids.filter fun id => reported' id ≠ ∅ := by
    rw [h.tables]
    refine List.filter_congr fun id hid => ?_
    rw [heq id hid]
  refine ⟨htables, fun msg hmsg => ?_⟩
  have hid : msg.tableId ∈ ids.filter fun id => reported' id ≠ ∅ :=
    htables ▸ List.mem_map_of_mem hmsg
  rw [heq _ (List.mem_of_mem_filter hid)]
  exact h.reports msg hmsg

/-- The messages tell the device and the context only. -/
theorem of_same {m' : AgeingMonitor} (h : SentFor m' ids reported msgs)
    (hdevice : m'.deviceId = m.deviceId) (hcxt : m'.cxtId = m.cxtId) : SentFor m ids reported msgs :=
  ⟨h.tables, fun msg hmsg => { h.reports msg hmsg with
    switchId := hdevice ▸ (h.reports msg hmsg).switchId
    cxtId := hcxt ▸ (h.reports msg hmsg).cxtId }⟩

theorem append (h : SentFor m ids reported msgs) (h' : SentFor m ids' reported msgs') :
    SentFor m (ids ++ ids') reported (msgs ++ msgs') := by
  refine ⟨by rw [List.map_append, List.filter_append, h.tables, h'.tables], fun msg hmsg => ?_⟩
  rcases List.mem_append.mp hmsg with hmsg | hmsg
  · exact h.reports msg hmsg
  · exact h'.reports msg hmsg

end SentFor

namespace AgeingMonitor

variable {m : AgeingMonitor}

/-- A message about few enough handles is complete. -/
theorem message_reports {id : ℤ} {bufferId : BitVec 64} {entries : List ℕ} (hnodup : entries.Nodup)
    (hlen : entries.length ≤ 2 ^ 24) :
    (m.message id bufferId entries).Reports m entries.toFinset := by
  have hmod : entries.length % 2 ^ 32 = entries.length := by omega
  have hall : (m.message id bufferId entries).handles = entries := by
    show entries.take (entries.length % 2 ^ 32 * 4 % 2 ^ 32 / 4) = entries
    rw [hmod, show entries.length * 4 % 2 ^ 32 / 4 = entries.length by omega, List.take_length]
  exact ⟨rfl, rfl, rfl, hall.symm ▸ hnodup, congrArg List.toFinset hall,
    hmod.trans (congrArg List.length hall).symm⟩

/-- One table, from empty buffers. -/
theorem sweepTable_spec (bufferId : BitVec 64) (id : ℤ) (prev : Finset ℕ) {v : TableView} {now : ℕ}
    (hv : v.ReachableBy now) :
    ∃ msg : Option AgeingMsg, m.sweepTable { bufferId } id prev v now =
        some ({ bufferId := bufferId + BitVec.ofNat 64 msg.toList.length }, v.expired now \ prev, msg) ∧
      SentFor m [id] (fun _ => v.expired now \ prev) msg.toList ∧
      Consecutive bufferId msg.toList := by
  obtain ⟨hs, hnodup, hset, hlen, hsweep⟩ := TableView.sweepEntries_eq hv
  have hnew : (hs.filter fun handle => handle ∉ prev).toFinset = v.expired now \ prev := by
    rw [← hset]
    ext handle
    simp
  have hnodup' := hnodup.filter fun handle => decide (handle ∉ prev)
  have hlen' := (List.length_filter_le (fun handle => decide (handle ∉ prev)) hs).trans hlen
  have hnil : hs = [] → (hs.filter fun handle => handle ∉ prev) = [] := by
    rintro rfl
    rfl
  unfold sweepTable
  rw [hsweep, ← hnew]
  simp only [Option.bind_eq_bind, Option.bind_some, List.nil_append]
  generalize (hs.filter fun handle => decide (handle ∉ prev)) = new at *
  by_cases hempty : new = []
  · subst hempty
    refine ⟨none, ?_, ⟨by simp, by simp⟩, by simp [Consecutive]⟩
    by_cases hnone : hs = []
    · rw [if_pos hnone, hnone]
      simp
    · rw [if_neg hnone, if_pos rfl]
      simp
  · rw [if_neg fun h => hempty (hnil h), if_neg hempty]
    refine ⟨some (m.message id bufferId new), rfl, ⟨?_, fun msg hmsg => ?_⟩, fun i msg hmsg => ?_⟩
    · have hsome : new.toFinset ≠ ∅ := by simpa using hempty
      rw [List.filter_cons_of_pos (by simpa using hsome)]
      rfl
    · obtain rfl := List.mem_singleton.mp hmsg
      exact message_reports hnodup' hlen'
    · cases i with
      | zero =>
        obtain rfl := Option.some.inj hmsg
        exact (BitVec.add_zero bufferId).symm
      | succ i => cases hmsg

/-- The loop over the tables. -/
theorem sweepLoop_spec {tables : ℤ → TableView × ℕ} {ids : List ℤ} (hids : ids.Nodup)
    (hv : ∀ id ∈ ids, (tables id).1.ReachableBy (tables id).2) (bufferId : BitVec 64)
    (prev : ℤ → Finset ℕ) :
    ∃ prev' msgs, m.sweepLoop tables ids { bufferId } prev =
        some ({ bufferId := bufferId + BitVec.ofNat 64 msgs.length }, prev', msgs) ∧
      (∀ id, prev' id = if id ∈ ids then (tables id).1.expired (tables id).2 \ prev id else prev id) ∧
      SentFor m ids (fun id => (tables id).1.expired (tables id).2 \ prev id) msgs ∧
      Consecutive bufferId msgs := by
  induction ids generalizing bufferId prev with
  | nil => exact ⟨prev, [], by simp [sweepLoop], by simp, ⟨rfl, by simp⟩, by simp [Consecutive]⟩
  | cons id ids ih =>
    obtain ⟨hid, hids⟩ := List.nodup_cons.mp hids
    obtain ⟨msg, hrun, hsent, hconsec⟩ :=
      m.sweepTable_spec bufferId id (prev id) (hv id (by simp))
    obtain ⟨prev', msgs, hloop, hprev, hsent', hconsec'⟩ := ih hids
      (fun i hi => hv i (by simp [hi])) (bufferId + BitVec.ofNat 64 msg.toList.length)
      (Function.update prev id ((tables id).1.expired (tables id).2 \ prev id))
    have hne {i : ℤ} (hi : i ∈ ids) : i ≠ id := fun h => hid (h ▸ hi)
    refine ⟨prev', msg.toList ++ msgs, ?_, fun i => ?_, ?_, hconsec.append hconsec'⟩
    · rw [sweepLoop]
      simp only [hrun, Option.bind_eq_bind, Option.bind_some, hloop]
      rw [List.length_append, BitVec.ofNat_add, ← BitVec.add_assoc]
      rfl
    · rw [hprev]
      by_cases hi : i = id
      · subst hi
        simp [hid]
      · rw [Function.update_of_ne hi]
        simp [hi]
    · have hone : SentFor m [id] (fun id => (tables id).1.expired (tables id).2 \ prev id) msg.toList :=
        hsent.congr fun i hi => by rw [List.mem_singleton.mp hi]
      exact hone.append (hsent'.congr fun i hi => by rw [Function.update_of_ne (hne hi)])

/-- The tables share empty buffers. -/
def Idle (m : AgeingMonitor) : Prop := m.buffers = { bufferId := m.buffers.bufferId }

/-- A sweep leaves the handles that it has reported. -/
theorem doSweep_spec (hm : m.Idle) {tables : ℤ → TableView × ℕ}
    (hv : ∀ id ∈ m.tablesWithAgeing, (tables id).1.ReachableBy (tables id).2) :
    ∃ prevSweepEntries msgs,
      m.doSweep tables = some ({ m with
        buffers := { bufferId := m.buffers.bufferId + BitVec.ofNat 64 msgs.length }
        prevSweepEntries }, msgs) ∧
      (∀ id ∈ m.tablesWithAgeing,
        prevSweepEntries id = (tables id).1.expired (tables id).2 \ m.prevSweepEntries id) ∧
      SentFor m (m.tablesWithAgeing.sort (· ≤ ·))
        (fun id => (tables id).1.expired (tables id).2 \ m.prevSweepEntries id) msgs ∧
      Consecutive m.buffers.bufferId msgs := by
  obtain ⟨prev', msgs, hloop, hprev, hsent, hconsec⟩ := m.sweepLoop_spec
    (Finset.sort_nodup (r := (· ≤ ·)) m.tablesWithAgeing)
    (fun id hid => hv id ((Finset.mem_sort _).mp hid)) m.buffers.bufferId m.prevSweepEntries
  refine ⟨prev', msgs, ?_, fun id hid => ?_, hsent, hconsec⟩
  · unfold doSweep
    rw [hm, hloop]
    rfl
  · rw [hprev, if_pos ((Finset.mem_sort _).mpr hid)]

/-- The monitors that there are. -/
inductive Reachable : AgeingMonitor → Prop
  | new (deviceId cxtId : ℤ) : Reachable { deviceId, cxtId }
  | addTable {m : AgeingMonitor} (h : Reachable m) (id : ℤ) : Reachable (m.addTable id)
  | resetState {m : AgeingMonitor} (h : Reachable m) : Reachable m.resetState
  | doSweep {m m' : AgeingMonitor} {tables : ℤ → TableView × ℕ} {msgs : List AgeingMsg}
      (h : Reachable m)
      (hv : ∀ id ∈ m.tablesWithAgeing, (tables id).1.ReachableBy (tables id).2)
      (hsweep : m.doSweep tables = some (m', msgs)) : Reachable m'

theorem Reachable.idle (h : m.Reachable) : m.Idle := by
  induction h with
  | new deviceId cxtId => rfl
  | @addTable m _ id ih =>
    unfold AgeingMonitor.addTable
    split
    · exact ih
    · exact ih
  | resetState _ _ => rfl
  | doSweep _ hv hsweep ih =>
    obtain ⟨prev', msgs', hsweep', -⟩ := doSweep_spec ih hv
    obtain ⟨rfl, -⟩ := Prod.mk.inj (Option.some.inj (hsweep.symm.trans hsweep'))
    rfl

/-! ## All sweeps -/

/-- What has expired in the table `id` at the sweep `k`. -/
def expiredAt (tables : ℕ → ℤ → TableView × ℕ) (id : ℤ) (k : ℕ) : Finset ℕ :=
  (tables k id).1.expired (tables k id).2

/-- What should be notified for the table `id` at the sweep `k`. -/
def notifiedAt (m : AgeingMonitor) (tables : ℕ → ℤ → TableView × ℕ) (id : ℤ) (k : ℕ) : Finset ℕ :=
  notified (m.prevSweepEntries id) (expiredAt tables id) k

/-- The sweeps one after another. -/
theorem run_spec (hm : m.Idle) (tables : ℕ → ℤ → TableView × ℕ) (n : ℕ)
    (hv : ∀ k < n, ∀ id ∈ m.tablesWithAgeing, (tables k id).1.ReachableBy (tables k id).2) :
    ∃ m' out, m.run ((List.range n).map tables) = some (m', out) ∧ out.length = n ∧
      (∀ (k : ℕ) (msgs : List AgeingMsg), out[k]? = some msgs →
        SentFor m (m.tablesWithAgeing.sort (· ≤ ·)) (fun id => m.notifiedAt tables id k) msgs) ∧
      Consecutive m.buffers.bufferId out.flatten := by
  induction n generalizing m tables with
  | zero => exact ⟨m, [], rfl, rfl, by simp, by simp [Consecutive]⟩
  | succ n ih =>
    obtain ⟨prev', msgs, hsweep, hprev, hsent, hconsec⟩ := doSweep_spec hm (hv 0 (Nat.succ_pos n))
    obtain ⟨m', out, hrun, hlen, hsent', hconsec'⟩ := @ih { m with
        buffers := { bufferId := m.buffers.bufferId + BitVec.ofNat 64 msgs.length }
        prevSweepEntries := prev' } rfl (fun k => tables (k + 1)) fun k hk => hv (k + 1) (by omega)
    refine ⟨m', msgs :: out, ?_, by rw [List.length_cons, hlen], fun k msgs' hmsgs' => ?_,
      hconsec.append hconsec'⟩
    · have hrest : run _ ((List.range n).map (tables ∘ Nat.succ)) = some (m', out) := hrun
      rw [List.range_succ_eq_map, List.map_cons, List.map_map, run, hsweep]
      simp only [Option.bind_eq_bind, Option.bind_some, hrest]
      rfl
    · cases k with
      | zero =>
        obtain rfl := Option.some.inj hmsgs'
        exact hsent
      | succ k =>
        refine (SentFor.of_same (m := m) (hsent' k msgs' hmsgs') rfl rfl).congr fun id hid => ?_
        have hfirst := hprev id ((Finset.mem_sort _).mp hid)
        show notified (m.prevSweepEntries id) (expiredAt tables id) (k + 1) =
          notified (prev' id) (fun k => expiredAt tables id (k + 1)) k
        rw [notified_succ, hfirst]
        rfl

/-- The handles that have expired and were not notified at the sweep before are notified, each in
the message of its table; so none is notified twice in a row, and none that has expired at two
sweeps is left out of both. -/
theorem ageing_law (hm : m.Reachable) (tables : ℕ → ℤ → TableView × ℕ) (n : ℕ)
    (hv : ∀ k < n, ∀ id ∈ m.tablesWithAgeing, (tables k id).1.ReachableBy (tables k id).2) :
    (∃ m' out, m.run ((List.range n).map tables) = some (m', out) ∧ out.length = n ∧
      (∀ (k : ℕ) (msgs : List AgeingMsg), out[k]? = some msgs →
        SentFor m (m.tablesWithAgeing.sort (· ≤ ·)) (fun id => m.notifiedAt tables id k) msgs) ∧
      Consecutive m.buffers.bufferId out.flatten) ∧
    ∀ (id : ℤ) (k : ℕ), m.notifiedAt tables id k ⊆ expiredAt tables id k ∧
      Disjoint (m.notifiedAt tables id k) (m.notifiedAt tables id (k + 1)) ∧
      expiredAt tables id k ∩ expiredAt tables id (k + 1) ⊆
        m.notifiedAt tables id k ∪ m.notifiedAt tables id (k + 1) :=
  ⟨run_spec hm.idle tables n hv, fun _ k =>
    ⟨notified_subset _ _ k, disjoint_notified _ _ k, inter_subset_notified _ _ k⟩⟩

/-- An entry with a timeout of ten milliseconds that is never hit. -/
theorem ageing_law_one_entry :
    ∃ kb, ∃ mu₀ mu : MatchUnit ExactMatchKey ℕ ExactMap,
      MatchKeyBuilder.ofFields [⟨0, 0, .exact, 8, none⟩] = some kb ∧
      MatchUnit.create 1 kb = some mu₀ ∧
      runFrom MatchUnit.step mu₀ [.addEntry [⟨.exact, [1], [], 0⟩] 7 0 20, .setEntryTtl 0 10 30] =
        some mu ∧ mu.view.expired 100 = {0} ∧
      ∃ m' out, (({ deviceId := 0, cxtId := 0 } : AgeingMonitor).addTable 5).run
          ((List.range 3).map fun _ _ => (mu.view, 100)) = some (m', out) ∧ out.length = 3 := by
  refine ⟨_, _, _, rfl, rfl, rfl, by decide, ?_⟩
  have hcreate : MatchUnit.ReachableBy 100 _ :=
    .create (show MatchUnit.create (K := ExactMatchKey) (V := ℕ) (S := ExactMap) 1
      (MatchKeyBuilder.pushBackField {} 0 0 8 .exact) = some _ from rfl)
  have hadd : MatchUnit.ReachableBy 100 _ := hcreate.step
    (show (UnitOp.addEntry [⟨.exact, [1], [], 0⟩] 7 0 20).StampedBy 100 from show 20 ≤ 100 by decide) rfl
  have hset : MatchUnit.ReachableBy 100 _ := hadd.step
    (show (UnitOp.setEntryTtl 0 10 30).StampedBy 100 from show 30 ≤ 100 by decide) rfl
  obtain ⟨m', out, hrun, hlen, -⟩ := (ageing_law (.addTable (.new 0 0) 5)
    (fun _ _ => (_, 100)) 3 fun _ _ _ _ => ⟨_, _, _, _, _, _, _, _, hset, rfl⟩).1
  exact ⟨m', out, hrun, hlen⟩

end AgeingMonitor

end Bm
