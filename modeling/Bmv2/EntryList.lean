/-
# Entry lists

`EntryList` (`lookup_structures.cpp`), which ternary and range tables search: a
doubly linked list threaded through an array with one node per slot of the table.
Entries are linked in the order of their slots.

A lookup returns the handle of the entry it found, which it computes as the distance
of the entry's node from the node at the *head of the list*; see `lookup_eq`.
-/
import Bmv2.Lib.FirstMin
import Bmv2.Lib.LinkedSlots
import Bmv2.Handles

namespace Bm

open LinkedSlots

/-- What a list asks of its keys: the priority, and `operator==`, which leaves the
priority out. -/
class PriorityKey (K : Type) where
  priority : K → Int32
  same : K → K → Bool
  eq_iff : ∀ k k', k = k' ↔ priority k = priority k' ∧ same k k' = true

open PriorityKey

variable {K : Type} [PriorityKey K]

/-- What a node carries besides its links: the pointer to the key is null until the
slot is first used. -/
structure EntryItem (K : Type) where
  priority : Int32 := 0
  key : Option K := none
  deriving DecidableEq

/-- `EntryList<K>`. -/
structure EntryList (K : Type) where
  head : Option ℕ := none
  entries : List (Node (EntryItem K))

namespace EntryList

/-- `EntryList(size)`. -/
def create (size : ℕ) : EntryList K where
  entries := List.replicate size ⟨{}, none, none⟩

/-- `handle_from_entry`: the distance from the head of the list, as a 64-bit number. -/
def handleFromEntry (l : EntryList K) (entry : ℕ) : Option ℕ :=
  l.head.map fun head => (((entry : ℤ) - head) % 2 ^ 64).toNat

/-- The loop of `lookup`, from the node `entry` on. -/
def lookupFrom (l : EntryList K) (cmp : K → Option Bool) :
    ℕ → Option ℕ → Int32 → Option ℕ → Option (Option ℕ)
  | _, none, _, minHandle => some minHandle
  | 0, some _, _, _ => none
  | fuel + 1, some entry, minPriority, minHandle => do
      let node ← l.entries[entry]?
      if minPriority ≤ node.item.priority then
        l.lookupFrom cmp fuel node.next minPriority minHandle
      else
        let key ← node.item.key
        if ← cmp key then
          let handle ← l.handleFromEntry entry
          l.lookupFrom cmp fuel node.next node.item.priority (some handle)
        else l.lookupFrom cmp fuel node.next minPriority minHandle

/-- `lookup`: the first entry of the least priority among those that `cmp` accepts. -/
def lookup (l : EntryList K) (cmp : K → Option Bool) : Option (Option ℕ) :=
  l.lookupFrom cmp l.entries.length l.head Int32.maxValue none

/-- The loop of `find_entry`. -/
def findEntryFrom (l : EntryList K) (key : K) : ℕ → Option ℕ → Option (Option ℕ)
  | _, none => some none
  | 0, some _ => none
  | fuel + 1, some entry => do
      let node ← l.entries[entry]?
      if node.item.priority ≠ priority key then l.findEntryFrom key fuel node.next
      else
        let key' ← node.item.key
        if same key' key then some (some entry) else l.findEntryFrom key fuel node.next

/-- `find_entry`. -/
def findEntry (l : EntryList K) (key : K) : Option (Option ℕ) :=
  l.findEntryFrom key l.entries.length l.head

/-- `exists`. -/
def exists' (l : EntryList K) (key : K) : Option Bool := (l.findEntry key).map Option.isSome

/-- `retrieve_handle`. -/
def retrieveHandle (l : EntryList K) (key : K) : Option (Option ℕ) := do
  match ← l.findEntry key with
  | none => some none
  | some entry => (l.handleFromEntry entry).map some

/-- `add`: the entry goes behind the entry of the slot before it, which is in use
because slots are handed out lowest first. -/
def add (l : EntryList K) (key : K) (handle : ℕ) : Option (EntryList K) :=
  if l.entries.length ≤ handle then none
  else if handle = 0 then
    some { head := some 0, entries := pushFront l.entries l.head 0 ⟨priority key, some key⟩ }
  else if l.head = some handle then none
  else do
    let entries ← insertAfter l.entries (handle - 1) handle ⟨priority key, some key⟩
    pure { l with entries }

/-- `delete_entry`. -/
def deleteEntry (l : EntryList K) (key : K) : Option (EntryList K) := do
  let entry ← ← l.findEntry key
  let node ← l.entries[entry]?
  let entries ← unlink l.entries entry
  pure { head := if node.prev.isSome then l.head else node.next, entries }

/-- `clear`. -/
def clear (l : EntryList K) : EntryList K := { l with head := none }

/-! ## What a list holds -/

/-- The list holds the keys `keys`, by slot: its nodes are those of the slots in use,
in increasing order, and each carries the key of its slot. -/
structure Holds (l : EntryList K) (keys : ℕ → Option K) (is : List ℕ) : Prop where
  sorted : is.Pairwise (· < ·)
  mem_iff : ∀ i, i ∈ is ↔ (keys i).isSome
  segment : ∃ last, Segment l.entries none l.head is last none
  item : ∀ i k, keys i = some k → l.entries[i]?.map Node.item = some ⟨priority k, some k⟩
  lt : ∀ i ∈ is, i < 2 ^ 64

variable {l : EntryList K} {keys : ℕ → Option K} {is : List ℕ}

theorem Holds.nodup (h : l.Holds keys is) : is.Nodup :=
  h.sorted.imp fun hlt => hlt.ne

theorem Holds.head_eq (h : l.Holds keys is) : l.head = is.head? := by
  obtain ⟨last, hseg⟩ := h.segment
  simpa using hseg.start_eq

theorem Holds.length_le (h : l.Holds keys is) : is.length ≤ l.entries.length := by
  obtain ⟨last, hseg⟩ := h.segment
  have hsub : is ⊆ List.range l.entries.length := fun i hi =>
    List.mem_range.mpr (hseg.lt_length hi)
  simpa using (h.nodup.subperm hsub).length_le

theorem holds_create (size : ℕ) : (create size : EntryList K).Holds (fun _ => none) [] where
  sorted := List.Pairwise.nil
  mem_iff := by simp
  segment := ⟨none, rfl, rfl⟩
  item := by simp
  lt := by simp

theorem holds_clear (l : EntryList K) : l.clear.Holds (fun _ => none) [] where
  sorted := List.Pairwise.nil
  mem_iff := by simp
  segment := ⟨none, rfl, rfl⟩
  item := by simp
  lt := by simp

/-- The handle that the list computes for a node is its distance from the lowest slot
in use. -/
theorem Holds.handleFromEntry (h : l.Holds keys is) {i : ℕ} (hi : i ∈ is) :
    ∃ low ∈ is.head?, low ≤ i ∧ l.handleFromEntry i = some (i - low) := by
  cases is with
  | nil => simp at hi
  | cons low is =>
    have hle : low ≤ i := by
      rcases List.mem_cons.mp hi with rfl | hi
      · exact le_rfl
      · exact ((List.pairwise_cons.mp h.sorted).1 i hi).le
    refine ⟨low, rfl, hle, ?_⟩
    rw [EntryList.handleFromEntry, h.head_eq]
    have hlt := h.lt i hi
    simp only [List.head?_cons, Option.map_some, Option.some.injEq]
    omega

/-- **The handle of a node is the slot it was added under exactly when slot 0 is in
use.** -/
theorem Holds.handleFromEntry_eq_iff (h : l.Holds keys is) {i : ℕ} (hi : i ∈ is) :
    l.handleFromEntry i = some i ↔ 0 ∈ is := by
  obtain ⟨low, hlow, hle, heq⟩ := h.handleFromEntry hi
  obtain ⟨rest, rfl⟩ : ∃ rest, is = low :: rest := by
    cases is with
    | nil => simp at hlow
    | cons a rest => exact ⟨rest, by rw [show a = low by simpa using hlow]⟩
  rw [heq, Option.some.injEq]
  constructor
  · intro hsub
    rcases Nat.eq_zero_or_pos low with rfl | hpos
    · simp
    · omega
  · intro hzero
    rcases List.mem_cons.mp hzero with rfl | hzero
    · omega
    · have := (List.pairwise_cons.mp h.sorted).1 0 hzero
      omega

/-! ## Lookup -/

/-- The priority at a slot. -/
def prioOf (keys : ℕ → Option K) (i : ℕ) : ℤ := ((keys i).map fun k => (priority k).toInt).getD 0

theorem prioOf_le (keys : ℕ → Option K) {i : ℕ} (hi : (keys i).isSome) :
    prioOf keys i ≤ Int32.maxValue.toInt := by
  obtain ⟨k, hk⟩ := Option.isSome_iff_exists.mp hi
  rw [prioOf, hk]
  exact Int32.le_iff_toInt_le.mp (Int32.le_maxValue _)

/-- `cmp` accepts the key at a slot. -/
def accepts (cmp : K → Option Bool) (keys : ℕ → Option K) (i : ℕ) : Prop :=
  ∃ k ∈ keys i, cmp k = some true

instance (cmp : K → Option Bool) (keys : ℕ → Option K) : DecidablePred (accepts cmp keys) := fun i =>
  match h : keys i with
  | none => .isFalse (by simp [accepts, h])
  | some k => decidable_of_iff (cmp k = some true) (by simp [accepts, h])

theorem lookupFrom_eq (h : l.Holds keys is) {cmp : K → Option Bool}
    (hcmp : ∀ i k, keys i = some k → (cmp k).isSome) {low : ℕ} (hlow : low ∈ is.head?)
    {js : List ℕ} (hjs : js ⊆ is) {before p last : Option ℕ}
    (hseg : Segment l.entries before p js last none) {fuel : ℕ} (hfuel : js.length ≤ fuel)
    (minPriority : Int32) (best : Option ℕ) :
    l.lookupFrom cmp fuel p minPriority (best.map (· - low)) =
      some ((firstMin (prioOf keys) (accepts cmp keys) minPriority.toInt best js).map (· - low)) := by
  induction js generalizing before p fuel minPriority best with
  | nil =>
    obtain ⟨-, rfl⟩ := hseg
    cases fuel <;> rfl
  | cons j js ih =>
    obtain ⟨rfl, node, hnode, -, hrest⟩ := hseg
    obtain ⟨fuel, rfl⟩ : ∃ f, fuel = f + 1 := ⟨fuel - 1, by simp at hfuel; omega⟩
    have hfuel' : js.length ≤ fuel := by simpa using hfuel
    have hjs' : js ⊆ is := fun i hi => hjs (by simp [hi])
    obtain ⟨k, hk⟩ := Option.isSome_iff_exists.mp ((h.mem_iff j).mp (hjs (by simp)))
    have hitem : node.item = ⟨priority k, some k⟩ := by
      have := h.item j k hk
      rwa [hnode, Option.map_some, Option.some.injEq] at this
    have hprio : prioOf keys j = (priority k).toInt := by simp [prioOf, hk]
    have hacc : accepts cmp keys j ↔ cmp k = some true := by simp [accepts, hk]
    obtain ⟨low', hlow', -, hhandle⟩ := h.handleFromEntry (hjs (by simp : j ∈ j :: js))
    obtain rfl : low' = low := Option.mem_unique hlow' hlow
    rw [lookupFrom, hnode, firstMin, hprio]
    simp only [Option.bind_eq_bind, Option.bind_some, hitem, Int32.le_iff_toInt_le]
    by_cases hle : minPriority.toInt ≤ (priority k).toInt
    · rw [if_pos hle, if_neg fun hboth => absurd hboth.1 (by omega)]
      exact ih hjs' hrest hfuel' minPriority best
    · rw [if_neg hle]
      obtain ⟨b, hb⟩ := Option.isSome_iff_exists.mp (hcmp j k hk)
      rw [hb, Option.bind_some]
      cases b with
      | true =>
        rw [if_pos rfl, if_pos ⟨by omega, hacc.mpr hb⟩, hhandle, Option.bind_some]
        exact ih hjs' hrest hfuel' (priority k) (some j)
      | false =>
        rw [if_neg (by simp), if_neg fun hboth => by simpa [hb] using hacc.mp hboth.2]
        exact ih hjs' hrest hfuel' minPriority best

/-- A lookup returns the distance of the best entry from the lowest slot in use;
entries of the largest priority value are never found. -/
theorem lookup_eq (h : l.Holds keys is) {cmp : K → Option Bool}
    (hcmp : ∀ i k, keys i = some k → (cmp k).isSome) :
    l.lookup cmp = some ((firstMin (prioOf keys) (accepts cmp keys) Int32.maxValue.toInt none is).map
      (· - is.head?.getD 0)) := by
  obtain ⟨last, hseg⟩ := h.segment
  cases hhead : is.head? with
  | none =>
    obtain rfl : is = [] := List.head?_eq_none_iff.mp hhead
    rw [lookup, hseg.2.symm]
    cases l.entries.length <;> rfl
  | some low => exact lookupFrom_eq h hcmp hhead (List.Subset.refl _) hseg h.length_le _ none

/-! ## Finding the entry of a key -/

/-- No key is held twice. -/
def Distinct (keys : ℕ → Option K) : Prop := ∀ i j k, keys i = some k → keys j = some k → i = j

theorem findEntryFrom_eq (h : l.Holds keys is) (key : K) {js : List ℕ} (hjs : js ⊆ is)
    {before p last : Option ℕ} (hseg : Segment l.entries before p js last none) {fuel : ℕ}
    (hfuel : js.length ≤ fuel) :
    ∃ r, l.findEntryFrom key fuel p = some r ∧
      match r with
      | none => ∀ j ∈ js, keys j ≠ some key
      | some i => i ∈ js ∧ keys i = some key := by
  induction js generalizing before p fuel with
  | nil =>
    obtain ⟨-, rfl⟩ := hseg
    exact ⟨none, by cases fuel <;> rfl, by simp⟩
  | cons j js ih =>
    obtain ⟨rfl, node, hnode, -, hrest⟩ := hseg
    obtain ⟨fuel, rfl⟩ : ∃ f, fuel = f + 1 := ⟨fuel - 1, by simp at hfuel; omega⟩
    obtain ⟨r, hr, hspec⟩ := ih (fun i hi => hjs (by simp [hi])) hrest
      (show js.length ≤ fuel by simpa using hfuel)
    obtain ⟨k, hk⟩ := Option.isSome_iff_exists.mp ((h.mem_iff j).mp (hjs (by simp)))
    have hitem : node.item = ⟨priority k, some k⟩ := by
      have := h.item j k hk
      rwa [hnode, Option.map_some, Option.some.injEq] at this
    rw [findEntryFrom, hnode]
    simp only [Option.bind_eq_bind, Option.bind_some, hitem]
    by_cases heq : k = key
    · obtain ⟨hprio, hsame⟩ := (eq_iff k key).mp heq
      exact ⟨some j, by simp [hprio, hsame], by simp, heq ▸ hk⟩
    · have hskip : l.findEntryFrom key fuel node.next = some r := hr
      refine ⟨r, ?_, ?_⟩
      · by_cases hprio : priority k = priority key
        · have hsame : same k key = false := by
            simpa using fun hsame => heq ((eq_iff k key).mpr ⟨hprio, hsame⟩)
          simp [hprio, hsame, hskip]
        · simp [hprio, hskip]
      · cases r with
        | none =>
          intro i hi
          rcases List.mem_cons.mp hi with rfl | hi
          · rw [hk]
            simpa using heq
          · exact hspec i hi
        | some i => exact ⟨by simp [hspec.1], hspec.2⟩

/-- `find_entry` returns the slot that holds the key. -/
theorem findEntry_eq (h : l.Holds keys is) (key : K) :
    ∃ r, l.findEntry key = some r ∧
      match r with
      | none => ∀ j, keys j ≠ some key
      | some i => keys i = some key := by
  obtain ⟨last, hseg⟩ := h.segment
  obtain ⟨r, hr, hspec⟩ := findEntryFrom_eq h key (List.Subset.refl _) hseg h.length_le
  refine ⟨r, hr, ?_⟩
  cases r with
  | none => exact fun j hj => hspec j ((h.mem_iff j).mpr (by simp [hj])) hj
  | some i => exact hspec.2

theorem findEntry_of_key (h : l.Holds keys is) (hdistinct : Distinct keys) {i : ℕ} {key : K}
    (hkey : keys i = some key) : l.findEntry key = some (some i) := by
  obtain ⟨r, hr, hspec⟩ := findEntry_eq h key
  cases r with
  | none => exact absurd hkey (hspec i)
  | some j => rw [hr, hdistinct i j key hkey hspec]

/-! ## Adding and deleting -/

/-- The nodes of the slots in use carry the keys after one slot has been filled. -/
theorem Holds.item_update (h : l.Holds keys is) {i : ℕ} {k : K} {nodes : List (Node (EntryItem K))}
    (hitems : ∀ j, nodes[j]?.map Node.item =
      if j = i then some ⟨priority k, some k⟩ else l.entries[j]?.map Node.item) :
    ∀ j k', Function.update keys i (some k) j = some k' →
      nodes[j]?.map Node.item = some ⟨priority k', some k'⟩ := by
  intro j k' hk'
  rw [hitems]
  by_cases hji : j = i
  · rw [hji, Function.update_self, Option.some.injEq] at hk'
    rw [if_pos hji, hk']
  · rw [Function.update_of_ne hji] at hk'
    rw [if_neg hji, h.item j k' hk']

/-- `add` links a new entry in, provided all slots below its own are in use. -/
theorem holds_add (h : l.Holds keys is) {i : ℕ} (k : K) (hfree : keys i = none)
    (hbelow : ∀ j < i, (keys j).isSome) (hlen : i < l.entries.length) (hlt : i < 2 ^ 64) :
    ∃ l' is', l.add k i = some l' ∧ l'.Holds (Function.update keys i (some k)) is' ∧
      l'.entries.length = l.entries.length := by
  obtain ⟨last, hseg⟩ := h.segment
  have hfresh : i ∉ is := fun hi => by simpa [hfree] using (h.mem_iff i).mp hi
  have hmem_iff : ∀ {is' : List ℕ}, (∀ j, j ∈ is' ↔ j = i ∨ j ∈ is) →
      ∀ j, j ∈ is' ↔ (Function.update keys i (some k) j).isSome := by
    intro is' his' j
    rw [his', h.mem_iff]
    by_cases hji : j = i
    · simp [hji]
    · rw [Function.update_of_ne hji]
      simp [hji]
  have hlt' : ∀ {is' : List ℕ}, (∀ j, j ∈ is' ↔ j = i ∨ j ∈ is) → ∀ j ∈ is', j < 2 ^ 64 := by
    intro is' his' j hj
    rcases (his' j).mp hj with rfl | hj
    · exact hlt
    · exact h.lt j hj
  by_cases hzero : i = 0
  · -- slot 0 goes in front
    subst hzero
    obtain ⟨last', hseg'⟩ := segment_pushFront (a := (⟨priority k, some k⟩ : EntryItem K)) hseg
      h.nodup hlen hfresh
    have hmem : ∀ j, j ∈ 0 :: is ↔ j = 0 ∨ j ∈ is := fun j => List.mem_cons
    refine ⟨_, 0 :: is, by rw [add, if_neg (by omega), if_pos rfl], ?_, length_pushFront ..⟩
    refine ⟨List.pairwise_cons.mpr ⟨fun j hj => ?_, h.sorted⟩, hmem_iff hmem, ⟨last', hseg'⟩,
      h.item_update (item_pushFront hlen), hlt' hmem⟩
    exact Nat.pos_of_ne_zero fun hj0 => hfresh (hj0 ▸ hj)
  · -- any other slot goes behind its lower neighbour
    obtain ⟨as, bs, rfl⟩ := List.append_of_mem ((h.mem_iff (i - 1)).mpr (hbelow (i - 1) (by omega)))
    obtain ⟨nodes', last', hins, hseg'⟩ := segment_insertAfter
      (a := (⟨priority k, some k⟩ : EntryItem K)) hseg h.nodup hlen hfresh
    have hmem : ∀ j, j ∈ as ++ (i - 1) :: i :: bs ↔ j = i ∨ j ∈ as ++ (i - 1) :: bs := by
      intro j
      simp only [List.mem_append, List.mem_cons]
      tauto
    have hhead : l.head ≠ some i := by
      rw [h.head_eq]
      exact fun hh => hfresh (List.mem_of_mem_head? hh)
    refine ⟨{ l with entries := nodes' }, as ++ (i - 1) :: i :: bs, ?_, ?_, length_insertAfter hins⟩
    · rw [add, if_neg (by omega), if_neg hzero, if_neg hhead, hins]
      rfl
    · refine ⟨?_, hmem_iff hmem, ⟨last', hseg'⟩, h.item_update (item_insertAfter hlen hins),
        hlt' hmem⟩
      obtain ⟨hfront, hback, hcross⟩ := List.pairwise_append.mp h.sorted
      obtain ⟨hafter, hback'⟩ := List.pairwise_cons.mp hback
      have hbs : ∀ b ∈ bs, i < b := fun b hb => by
        have hlow := hafter b hb
        have hne : b ≠ i := fun hbi => hfresh (by simp [← hbi, hb])
        omega
      refine List.pairwise_append.mpr ⟨hfront, List.pairwise_cons.mpr ⟨fun b hb => ?_,
        List.pairwise_cons.mpr ⟨hbs, hback'⟩⟩, fun a ha b hb => ?_⟩
      · rcases List.mem_cons.mp hb with rfl | hb
        · omega
        · exact hafter b hb
      · have hlow := hcross a ha (i - 1) (by simp)
        rcases List.mem_cons.mp hb with rfl | hb
        · exact hlow
        · rcases List.mem_cons.mp hb with rfl | hb
          · omega
          · exact hcross a ha b (by simp [hb])

/-- `delete_entry` takes the entry of the key out of the list. -/
theorem holds_deleteEntry (h : l.Holds keys is) (hdistinct : Distinct keys) {i : ℕ} {k : K}
    (hk : keys i = some k) :
    ∃ l' is', l.deleteEntry k = some l' ∧ l'.Holds (Function.update keys i none) is' ∧
      l'.entries.length = l.entries.length := by
  obtain ⟨last, hseg⟩ := h.segment
  obtain ⟨as, bs, rfl⟩ := List.append_of_mem ((h.mem_iff i).mpr (by simp [hk]))
  obtain ⟨node, nodes', last', hnode, hprev, hnext, hunlink, hseg'⟩ := segment_unlink hseg h.nodup
  obtain ⟨hnodup₁, hnodup₂, hdisj⟩ := List.nodup_append.mp h.nodup
  have hnotin : i ∉ as ++ bs := by
    rw [List.mem_append]
    rintro (hi | hi)
    · exact hdisj i hi i (by simp) rfl
    · exact (List.nodup_cons.mp hnodup₂).1 hi
  have hhead : (if node.prev.isSome then l.head else node.next) =
      if as = [] then bs.head? else l.head := by
    rw [hprev, hnext]
    cases as using List.reverseRecOn with
    | nil => rfl
    | append_singleton as a => simp
  have hmem : ∀ j, j ∈ as ++ bs ↔ (Function.update keys i none j).isSome := by
    intro j
    by_cases hji : j = i
    · rw [hji, Function.update_self]
      simpa using hnotin
    · rw [Function.update_of_ne hji, ← h.mem_iff]
      simp [hji]
  refine ⟨⟨if node.prev.isSome then l.head else node.next, nodes'⟩, as ++ bs, ?_, ⟨h.sorted.sublist (by simp), hmem, ⟨last', ?_⟩, ?_, ?_⟩,
    length_unlink hunlink⟩
  · simp only [deleteEntry, findEntry_of_key h hdistinct hk, hnode, hunlink, Option.bind_eq_bind,
      Option.bind_some]
    rfl
  · rw [hhead]
    exact hseg'
  · intro j k' hk'
    have hji : j ≠ i := fun hji => by simp [hji] at hk'
    rw [Function.update_of_ne hji] at hk'
    rw [item_unlink hunlink, h.item j k' hk']
  · exact fun j hj => h.lt j (by simp at hj ⊢; tauto)

end EntryList

end Bm
