/-
# Lookups in ternary and range tables

A ternary or range unit answers a packet key right exactly when no entry matches it, or
when slot 0 is in use and some matching entry has a priority below the largest one: the
entry list measures handles from the head of the list, and starts the search for the
least priority at the largest one.
-/
import Bmv2.MatchUnitInv

namespace Bm

namespace MatchUnit

variable {K V : Type} [MatchKey K] [ListKey K] [ListKeySpec K]

/-- The lookup of a key hits exactly when some entry matches, and then it returns the
slot, the handle and the value of the winner. -/
def LookupCorrect (mu : MatchUnit K V (EntryMap K)) (key : ByteContainer) : Prop :=
  ∃ res, mu.lookupKey key = some res ∧ (res.isSome ↔ ∃ i, MatchesAt mu.keys key i) ∧
    ∀ found, res = some found → Wins mu.keys key found.slot ∧
      ∃ e, mu.live found.slot = some e ∧ found.handle = handleSet e.version found.slot ∧
        found.value = e.value

/-- The condition under which the lookup of a key is correct. -/
def LookupSafe (mu : MatchUnit K V (EntryMap K)) (key : ByteContainer) : Prop :=
  (∀ i, ¬ MatchesAt mu.keys key i) ∨ 0 ∈ mu.handles ∧
    ∃ i, MatchesAt mu.keys key i ∧ EntryList.prioOf mu.keys i < Int32.maxValue.toInt

variable {fs : List KeyField} {mu : MatchUnit K V (EntryMap K)} {key : ByteContainer}

/-- In a state with the invariant, a lookup is correct exactly when it is safe. -/
theorem Inv.lookupCorrect_iff (h : mu.Inv fs) (hlen : key.length = mu.nbytesKey) :
    mu.LookupCorrect key ↔ mu.LookupSafe key := by
  have hholds : mu.lookupStructure.Holds mu.size mu.nbytesKey mu.keys := h.holds
  obtain ⟨r, hr, hnone, hsome⟩ := hholds.lookup_spec hlen
  have hprio : ∀ i, MatchesAt mu.keys key i →
      EntryList.prioOf mu.keys i ≤ Int32.maxValue.toInt := by
    rintro i ⟨k, hk, -⟩
    exact EntryList.prioOf_le mu.keys (by simp [hk])
  by_cases hmatch : ∃ i, MatchesAt mu.keys key i
  · by_cases hlow : ∃ i, MatchesAt mu.keys key i ∧ EntryList.prioOf mu.keys i < Int32.maxValue.toInt
    · -- the list finds the winner, and measures its slot from the lowest slot in use
      obtain ⟨i, low, hwins, hle, hzero, rfl⟩ := hsome hlow
      have hi : i ∈ mu.handles := h.isSome_keys.mp hwins.mem
      obtain ⟨e, he⟩ := h.exists_live hi
      constructor
      · rintro ⟨res, hres, -, hfound⟩
        obtain ⟨entry, hentry⟩ : ∃ entry, mu.entries[i - low]? = some entry :=
          ⟨_, List.getElem?_eq_getElem (by rw [h.length_entries]; have := (h.lt i hi).1; omega)⟩
        rw [lookupKey_of_some hr hentry, Option.some.injEq] at hres
        obtain ⟨hwins', -⟩ := hfound _ hres.symm
        have hsub : i = i - low := hwins.unique hwins'
        have hlow0 : low = 0 := by omega
        exact Or.inr ⟨h.isSome_keys.mp (hzero.mp hlow0), hlow⟩
      · rintro (hno | ⟨h0, -⟩)
        · exact absurd hmatch (by push Not; exact hno)
        · have hlow0 : low = 0 := hzero.mpr (h.isSome_keys.mpr h0)
          subst hlow0
          refine ⟨_, lookupKey_of_some hr (live_eq_some.mp he).2, iff_of_true rfl hmatch, ?_⟩
          rintro found heq
          cases heq
          exact ⟨hwins, e, he, rfl, rfl⟩
    · -- every matching entry has the largest priority: the list finds none
      have hmiss : r = none := hnone fun i hi =>
        le_antisymm (hprio i hi) (not_lt.mp fun hlt => hlow ⟨i, hi, hlt⟩)
      subst hmiss
      refine iff_of_false ?_ ?_
      · rintro ⟨res, hres, hiff, -⟩
        rw [lookupKey_of_none hr, Option.some.injEq] at hres
        simpa [← hres] using hiff.mpr hmatch
      · rintro (hno | ⟨-, hlow'⟩)
        · exact absurd hmatch (by push Not; exact hno)
        · exact hlow hlow'
  · push Not at hmatch
    have hmiss : r = none := hnone fun i hi => absurd hi (hmatch i)
    subst hmiss
    refine iff_of_true ⟨none, lookupKey_of_none hr, iff_of_false (by simp) (by push Not; exact hmatch), ?_⟩
      (Or.inl hmatch)
    simp

/-- The slot computed from the node of an entry is its own slot exactly when slot 0 is in
use. -/
theorem Inv.handleFromEntry_iff (h : mu.Inv fs) {i : ℕ} (hi : i ∈ mu.handles) :
    mu.lookupStructure.entryList.handleFromEntry i = some i ↔ 0 ∈ mu.handles := by
  have hholds : mu.lookupStructure.Holds mu.size mu.nbytesKey mu.keys := h.holds
  obtain ⟨is, his⟩ := hholds.holds
  rw [his.handleFromEntry_eq_iff ((his.mem_iff i).mpr (h.isSome_keys.mpr hi)), his.mem_iff,
    h.isSome_keys]

variable [Inhabited K] [Inhabited V]

/-- Every run from an empty unit ends in a state with the invariant: nothing can go wrong
when a list deletes. -/
theorem inv_of_run {size : ℕ} {kb : MatchKeyBuilder} {mu₀ : MatchUnit K V (EntryMap K)}
    {ops : List (UnitOp V)} (hfs : MatchKeyBuilder.ofFields fs = some kb)
    (hcreate : create size kb = some mu₀) (hrun : runFrom step mu₀ ops = some mu) : mu.Inv fs := by
  refine runFrom_invariant (I := fun mu => mu.Inv fs) (fun mu op mu' hinv hstep => ?_)
    (inv_create hfs hcreate).1 hrun
  obtain ⟨⟨r, mu₁⟩, hexec, rfl⟩ := Option.map_eq_some_iff.mp hstep
  refine hinv.exec ?_ hexec
  cases op with
  | deleteEntry handle => exact fun _ _ => trivial
  | _ => trivial

end MatchUnit

open MatchUnit

/-- **Lookups in ternary and range units.**  In every state that a run reaches from an
empty unit, the lookup of a packet key is correct exactly when no entry matches it, or
slot 0 is in use and a matching entry has a priority below the largest one; and the slot
computed from the node of an entry is its own exactly when slot 0 is in use. -/
theorem priorityLookup_correct_iff {V : Type} [Inhabited V] {fs : List KeyField} {kb : MatchKeyBuilder}
    (hfs : MatchKeyBuilder.ofFields fs = some kb) (size : ℕ) (ops : List (UnitOp V)) :
    (∀ mu₀ mu : MatchUnit TernaryMatchKey V TernaryMap, create size kb = some mu₀ →
      runFrom step mu₀ ops = some mu →
      (∀ key, key.length = mu.nbytesKey → (mu.LookupCorrect key ↔ mu.LookupSafe key)) ∧
        ∀ i ∈ mu.handles, mu.lookupStructure.entryList.handleFromEntry i = some i ↔
          0 ∈ mu.handles) ∧
    (∀ mu₀ mu : MatchUnit RangeMatchKey V RangeMap, create size kb = some mu₀ →
      runFrom step mu₀ ops = some mu →
      (∀ key, key.length = mu.nbytesKey → (mu.LookupCorrect key ↔ mu.LookupSafe key)) ∧
        ∀ i ∈ mu.handles, mu.lookupStructure.entryList.handleFromEntry i = some i ↔
          0 ∈ mu.handles) := by
  constructor
  · intro mu₀ mu hcreate hrun
    have hinv := inv_of_run hfs hcreate hrun
    exact ⟨fun key hlen => hinv.lookupCorrect_iff hlen, fun i hi => hinv.handleFromEntry_iff hi⟩
  · intro mu₀ mu hcreate hrun
    have hinv := inv_of_run hfs hcreate hrun
    exact ⟨fun key hlen => hinv.lookupCorrect_iff hlen, fun i hi => hinv.handleFromEntry_iff hi⟩

theorem priorityLookup_correct_iff_two_entries :
    ∃ kb, ∃ mu₀ mu : MatchUnit TernaryMatchKey ℕ TernaryMap,
      MatchKeyBuilder.ofFields [⟨0, 0, .ternary, 8, none⟩] = some kb ∧ create 2 kb = some mu₀ ∧
      runFrom step mu₀ [.addEntry [⟨.ternary, [1], [0xff], 0⟩] 10 1 0,
        .addEntry [⟨.ternary, [2], [0xff], 0⟩] 20 1 0, .deleteEntry 0] = some mu ∧
      (∀ key, key.length = mu.nbytesKey → (mu.LookupCorrect key ↔ mu.LookupSafe key)) ∧
        ∀ i ∈ mu.handles, mu.lookupStructure.entryList.handleFromEntry i = some i ↔
          0 ∈ mu.handles := by
  refine ⟨_, _, _, rfl, rfl, rfl, ?_⟩
  have hfs : MatchKeyBuilder.ofFields [⟨0, 0, .ternary, 8, none⟩] = some _ := rfl
  exact (priorityLookup_correct_iff hfs 2 [.addEntry [⟨.ternary, [1], [0xff], 0⟩] 10 1 0, .addEntry [⟨.ternary, [2], [0xff], 0⟩] 20 1 0,
      .deleteEntry 0]).1 _ _ rfl rfl

/-- Once slot 0 has been freed, a lookup returns the freed slot. -/
theorem priorityLookup_after_delete :
    ∃ kb, ∃ mu₀ mu : MatchUnit TernaryMatchKey ℕ TernaryMap,
      MatchKeyBuilder.ofFields [⟨0, 0, .ternary, 8, none⟩] = some kb ∧ create 2 kb = some mu₀ ∧
      runFrom step mu₀ [.addEntry [⟨.ternary, [1], [0xff], 0⟩] 10 1 0,
        .addEntry [⟨.ternary, [2], [0xff], 0⟩] 20 1 0, .deleteEntry 0] = some mu ∧
      mu.nbytesKey = 1 ∧ ¬ mu.LookupCorrect [2] := by
  refine ⟨_, _, _, rfl, rfl, rfl, rfl, ?_⟩
  rintro ⟨res, hres, -, hfound⟩
  cases hres
  obtain ⟨-, e, he, -⟩ := hfound _ rfl
  cases he

end Bm
