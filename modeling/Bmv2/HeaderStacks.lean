/-
# Header stacks

`HeaderStack` (`header_stacks.h`) with the headers that it refers to: one header pushed or popped at
a time, and many at once by swaps in place.

* `Pushed`, `Popped`: what `n` headers pushed or popped in front make of a stack;
* `pushFront_pushed`, `popFront_popped`: the bulk operations do that;
* `repeat_pushFrontOne`, `repeat_popFrontOne`: so do `n` single ones;
* `bulk_eq_singles`: on every stack that a run reaches, and the invariant that the valid headers are
  those below the occupancy.
-/
import Bmv2.Lib.Shifts
import Bmv2.PacketLength

namespace Bm

/-- What a field has from its header type. -/
def DataField.format (f : DataField) : ℕ × Bool × Bool × Bool :=
  (f.nbits, f.hidden, f.isSigned, f.arith)

/-- What the headers of one type, all of fixed width, have in common. -/
def DataHeader.format (h : DataHeader) : List (ℕ × Bool × Bool × Bool) × Bool × ℕ × Option ℕ :=
  (h.fields.map DataField.format, h.metadata, h.nbytesPacket, h.vlOffset)

/-- `HeaderStack`, with the headers in place of the references; `next` is the occupancy. -/
structure StackedHeaders where
  headers : List DataHeader
  next : ℕ
  deriving DecidableEq

namespace StackedHeaders

/-- A new stack of headers that have just been created. -/
def create (depth : ℕ) (h : DataHeader) : StackedHeaders := ⟨List.replicate depth h, 0⟩

/-- `headers[i].get().swap_values(&headers[j].get())`. -/
def swapPlaces (headers : List DataHeader) (i j : ℕ) : Option (List DataHeader) := do
  let h ← headers[i]?
  let g ← headers[j]?
  pure ((headers.set i (h.takeValues g)).set j (g.takeValues h))

/-- `headers[i].get().mark_valid()`, or `mark_invalid()`. -/
def modifyPlace (f : DataHeader → DataHeader) (headers : List DataHeader) (i : ℕ) :
    Option (List DataHeader) := do
  let h ← headers[i]?
  pure (headers.set i (f h))

/-- `pop_front()`, with the number that it returns. -/
def popFrontOne (s : StackedHeaders) : Option (StackedHeaders × ℕ) :=
  if s.next = 0 then some (s, 0)
  else do
    let next := s.next - 1
    let headers ← (List.range next).foldlM (fun headers i => swapPlaces headers i (i + 1)) s.headers
    let headers ← modifyPlace DataHeader.markInvalid headers next
    pure (⟨headers, next⟩, 1)

/-- `pop_front(num)`. -/
def popFront (s : StackedHeaders) (num : ℕ) : Option (StackedHeaders × ℕ) :=
  if num = 0 then some (s, 0)
  else do
    let popped := min s.next num
    let next := s.next - popped
    let headers ← (List.range next).foldlM (fun headers i => swapPlaces headers i (i + num)) s.headers
    let headers ← (List.range' next popped).foldlM (modifyPlace DataHeader.markInvalid) headers
    pure (⟨headers, next⟩, popped)

/-- `push_front()`; in a stack of no headers `next - 1` wraps around. -/
def pushFrontOne (s : StackedHeaders) : Option (StackedHeaders × ℕ) :=
  let next := if s.next < s.headers.length then s.next + 1 else s.next
  if next = 0 then none
  else do
    -- `for (size_t i = next - 1; i > 0; i--)`
    let headers ← (List.range' 1 (next - 1)).reverse.foldlM
      (fun headers i => swapPlaces headers i (i - 1)) s.headers
    let headers ← modifyPlace DataHeader.markValid headers 0
    pure (⟨headers, next⟩, 1)

/-- `push_front(num)`; the sum is a `size_t`. -/
def pushFront (s : StackedHeaders) (num : ℕ) : Option (StackedHeaders × ℕ) :=
  if num = 0 then some (s, 0)
  else
    let next := min s.headers.length ((s.next + num) % 2 ^ 64)
    if next = 0 then none
    else do
      -- `for (size_t i = next - 1; i > num - 1; i--)`
      let headers ← (List.range' num (next - num)).reverse.foldlM
        (fun headers i => swapPlaces headers i (i - num)) s.headers
      let pushed := min s.headers.length num
      let headers ← (List.range pushed).foldlM (modifyPlace DataHeader.markValid) headers
      pure (⟨headers, next⟩, pushed)

/-- `pop_back`. -/
def popBack (s : StackedHeaders) : Option (StackedHeaders × ℕ) :=
  if s.next = 0 then some (s, 0)
  else do
    let headers ← modifyPlace DataHeader.markInvalid s.headers (s.next - 1)
    pure (⟨headers, s.next - 1⟩, 1)

/-- `push_back`. -/
def pushBack (s : StackedHeaders) : Option (StackedHeaders × ℕ) :=
  if s.next = s.headers.length then some (s, 0)
  else do
    let headers ← modifyPlace DataHeader.markValid s.headers s.next
    pure (⟨headers, s.next + 1⟩, 1)

/-- `HeaderStack::reset`. -/
def reset (s : StackedHeaders) : StackedHeaders := { s with next := 0 }

/-- A field of one of the headers is set. -/
def setField (s : StackedHeaders) (place field : ℕ) (value : ℤ) : Option StackedHeaders :=
  (modifyPlace (fun h => { h with fields := h.fields.modify field (·.set value) }) s.headers place).map
    fun headers => { s with headers }

/-- The same call `n` times. -/
def repeatCall (call : StackedHeaders → Option (StackedHeaders × ℕ)) :
    ℕ → StackedHeaders → Option StackedHeaders
  | 0, s => some s
  | n + 1, s => (call s).bind fun p => repeatCall call n p.1

/-- The calls on a stack. -/
inductive Op where
  | pushFrontOne
  | pushFront (num : ℕ)
  | popFrontOne
  | popFront (num : ℕ)
  | pushBack
  | popBack
  | reset
  | setField (place field : ℕ) (value : ℤ)

/-- One call. -/
def step (s : StackedHeaders) : Op → Option StackedHeaders
  | .pushFrontOne => s.pushFrontOne.map Prod.fst
  | .pushFront num => (s.pushFront num).map Prod.fst
  | .popFrontOne => s.popFrontOne.map Prod.fst
  | .popFront num => (s.popFront num).map Prod.fst
  | .pushBack => s.pushBack.map Prod.fst
  | .popBack => s.popBack.map Prod.fst
  | .reset => some s.reset
  | .setField place field value => s.setField place field value

/-! ## What the operations should do -/

/-- `n` headers are pushed in front of those of `s`; what goes over the end is lost. -/
structure Pushed (n : ℕ) (s s' : StackedHeaders) : Prop where
  length : s'.headers.length = s.headers.length
  next : s'.next = min s.headers.length (s.next + n)
  new : ∀ i < n, ∀ h : DataHeader, s'.headers[i]? = some h → h.valid = true
  old : ∀ i, n ≤ i → i < s'.next → s'.headers[i]? = s.headers[i - n]?
  rest : ∀ i, s'.next ≤ i → s'.headers[i]? = s.headers[i]?

/-- The first `n` headers of `s` are popped. -/
structure Popped (n : ℕ) (s s' : StackedHeaders) : Prop where
  length : s'.headers.length = s.headers.length
  next : s'.next = s.next - n
  old : ∀ i < s'.next, s'.headers[i]? = s.headers[i + n]?
  gone : ∀ i, s'.next ≤ i → i < s.next → ∀ h : DataHeader, s'.headers[i]? = some h → h.valid = false
  rest : ∀ i, s.next ≤ i → s'.headers[i]? = s.headers[i]?

/-- The stacks have the same occupancy, their headers the same validity, and those from `n` up to
the occupancy the same contents. -/
structure SameFrom (n : ℕ) (s s' : StackedHeaders) : Prop where
  next : s.next = s'.next
  valid : ∀ i : ℕ, s.headers[i]?.map DataHeader.valid = s'.headers[i]?.map DataHeader.valid
  contents : ∀ i, n ≤ i → i < s.next → s.headers[i]? = s'.headers[i]?

/-- The valid headers are those below the occupancy. -/
def ValidBelow (s : StackedHeaders) : Prop :=
  ∀ i, ∀ h : DataHeader, s.headers[i]? = some h → (h.valid = true ↔ i < s.next)

/-- A stack is reset when none of its headers is valid, as after `PHV::reset`, and the occupancy
that a push computes is a `size_t`. -/
def Regular (s : StackedHeaders) : Op → Prop
  | .pushFront num => s.next + num < 2 ^ 64
  | .reset => ∀ h ∈ s.headers, h.valid = false
  | _ => True

/-- The headers have one type, and the occupancy is within the depth. -/
structure Inv (s : StackedHeaders) : Prop where
  next_le : s.next ≤ s.headers.length
  sameType : ∀ h ∈ s.headers, ∀ g ∈ s.headers, h.format = g.format

end StackedHeaders

/-! ## Headers of one type -/

theorem DataField.copyValue_of_format {f g : DataField} (h : f.format = g.format) :
    f.copyValue g = g := by
  obtain ⟨⟨nbits, bytes, hidden⟩, isSigned, arith, value⟩ := f
  obtain ⟨⟨nbits', bytes', hidden'⟩, isSigned', arith', value'⟩ := g
  simp only [DataField.format, Prod.mk.injEq] at h
  obtain ⟨rfl, rfl, rfl, rfl⟩ := h
  rfl

namespace DataHeader

/-- A header that takes the values of one of its type becomes that one. -/
theorem takeValues_of_format {h g : DataHeader} (hformat : h.format = g.format) :
    h.takeValues g = g := by
  obtain ⟨fields, valid, metadata, nbytesPacket, vlOffset⟩ := h
  obtain ⟨fields', valid', metadata', nbytesPacket', vlOffset'⟩ := g
  simp only [format, Prod.mk.injEq] at hformat
  obtain ⟨hfields, rfl, rfl, rfl⟩ := hformat
  have hcopy : List.zipWith DataField.copyValue fields fields' = fields' := by
    induction fields generalizing fields' with
    | nil => rw [List.map_nil] at hfields; rw [List.map_eq_nil_iff.mp hfields.symm]; rfl
    | cons f fields ih =>
      obtain _ | ⟨f', fields'⟩ := fields'
      · simp at hfields
      · rw [List.map_cons, List.map_cons, List.cons.injEq] at hfields
        rw [List.zipWith_cons_cons, DataField.copyValue_of_format hfields.1, ih fields' hfields.2]
  rw [takeValues, copyFields]
  dsimp only
  rw [hcopy]

theorem format_modify (h : DataHeader) (field : ℕ) (value : ℤ) (valid : Bool) :
    ({ h with valid, fields := h.fields.modify field (·.set value) } : DataHeader).format =
      h.format := by
  have hset (f : DataField) : (f.set value).format = f.format := by
    have harith : (f.set value).arith = f.arith := by
      unfold DataField.set DataField.exportBytes
      dsimp only
      repeat' split
      all_goals rfl
    rw [DataField.format, DataField.set_nbits, DataField.set_hidden, DataField.set_isSigned, harith]
    rfl
  have hfields : (h.fields.modify field (·.set value)).map DataField.format =
      h.fields.map DataField.format := by
    apply List.ext_getElem?
    intro i
    rw [List.getElem?_map, List.getElem?_map, List.getElem?_modify]
    cases h.fields[i]? with
    | none => rfl
    | some f =>
      by_cases hi : field = i
      · simp [hi, hset]
      · simp [hi]
  rw [format, hfields]
  rfl

end DataHeader

namespace StackedHeaders

/-- The headers have one type. -/
def SameType (headers : List DataHeader) : Prop :=
  ∀ h ∈ headers, ∀ g ∈ headers, h.format = g.format

theorem SameType.of_format {headers headers' : List DataHeader} (h : SameType headers)
    (hmem : ∀ g ∈ headers', ∃ g' ∈ headers, g.format = g'.format) : SameType headers' := by
  intro a ha b hb
  obtain ⟨a', ha', heqa⟩ := hmem a ha
  obtain ⟨b', hb', heqb⟩ := hmem b hb
  rw [heqa, heqb, h a' ha' b' hb']

theorem SameType.of_subset {headers headers' : List DataHeader} (h : SameType headers)
    (hsub : headers' ⊆ headers) : SameType headers' :=
  h.of_format fun g hg => ⟨g, hsub hg, rfl⟩

/-! ## The loops -/

theorem swapPlaces_eq_swapAt {headers : List DataHeader} (h : SameType headers) (i j : ℕ) :
    swapPlaces headers i j = swapAt headers i j := by
  rw [swapPlaces, swapAt]
  cases hi : headers[i]? with
  | none => rfl
  | some a =>
    cases hj : headers[j]? with
    | none => rfl
    | some b =>
      have hab := h a (List.mem_of_getElem? hi) b (List.mem_of_getElem? hj)
      simp only [Option.bind_eq_bind, Option.bind_some, DataHeader.takeValues_of_format hab,
        DataHeader.takeValues_of_format hab.symm]

/-- A loop of swaps. -/
theorem foldlM_swapPlaces {headers : List DataHeader} (h : SameType headers) (other : ℕ → ℕ)
    (places : List ℕ) :
    places.foldlM (fun headers i => swapPlaces headers i (other i)) headers =
      places.foldlM (fun headers i => swapAt headers i (other i)) headers :=
  foldlM_congr_invariant (I := SameType) (fun _ i hI => swapPlaces_eq_swapAt hI i (other i))
    (fun _ _ _ hI hstep => hI.of_subset (swapAt_subset hstep)) h places

theorem modifyPlace_spec (f : DataHeader → DataHeader) {headers : List DataHeader} {i : ℕ}
    (hi : i < headers.length) :
    modifyPlace f headers i = some (headers.modify i f) := by
  rw [modifyPlace, List.modify_eq_set_getElem?, List.getElem?_eq_getElem hi]
  rfl

/-- A loop over some places in a row. -/
theorem foldlM_modifyPlace (f : DataHeader → DataHeader) (headers : List DataHeader) (lo m : ℕ)
    (hlen : lo + m ≤ headers.length) :
    ∃ headers', (List.range' lo m).foldlM (modifyPlace f) headers = some headers' ∧
      headers'.length = headers.length ∧
      ∀ i, headers'[i]? = if lo ≤ i ∧ i < lo + m then headers[i]?.map f else headers[i]? := by
  induction m with
  | zero => exact ⟨headers, rfl, rfl, fun i => by rw [if_neg (by omega)]⟩
  | succ m ih =>
    obtain ⟨headers₁, hloop, hlen₁, hget₁⟩ := ih (by omega)
    refine ⟨headers₁.modify (lo + m) f, ?_, by simp [hlen₁], fun i => ?_⟩
    · rw [List.range'_1_concat, List.foldlM_append, hloop, Option.bind_eq_bind, Option.bind_some,
        List.foldlM_cons, modifyPlace_spec f (by omega)]
      rfl
    · rw [List.getElem?_modify, hget₁]
      by_cases hi : lo + m = i
      · rw [if_neg (by omega), if_pos (by omega)]
        simp [hi]
      · by_cases hin : lo ≤ i ∧ i < lo + m
        · rw [if_pos hin, if_pos (by omega)]
          simp [hi]
        · rw [if_neg hin, if_neg (by omega)]
          simp [hi]

/-- The loop marks headers and keeps their type. -/
theorem sameType_of_marked {f : DataHeader → DataHeader} (hf : ∀ h, (f h).format = h.format)
    {headers headers' : List DataHeader} {lo hi : ℕ} (hsame : SameType headers)
    (hget : ∀ i : ℕ, headers'[i]? =
      if lo ≤ i ∧ i < hi then headers[i]?.map f else headers[i]?) : SameType headers' := by
  apply hsame.of_format
  intro g hg
  obtain ⟨i, hi⟩ := List.mem_iff_getElem?.mp hg
  rw [hget] at hi
  split at hi
  · obtain ⟨h, hh, rfl⟩ := Option.map_eq_some_iff.mp hi
    exact ⟨h, List.mem_of_getElem? hh, hf h⟩
  · exact ⟨g, List.mem_of_getElem? hi, rfl⟩

theorem format_markValid (h : DataHeader) : h.markValid.format = h.format :=
  h.format_modify _ 1 true

theorem format_markInvalid (h : DataHeader) : h.markInvalid.format = h.format :=
  h.format_modify _ 0 false

/-! ## One operation -/

variable {s s' s₁ s₂ : StackedHeaders} {n m : ℕ}

/-- The bulk push, up to the number that it returns. -/
theorem pushLoop (hs : s.Inv) (hn : 0 < n) :
    ∃ headers headers',
      (List.range' n (min s.headers.length (s.next + n) - n)).reverse.foldlM
        (fun headers i => swapPlaces headers i (i - n)) s.headers = some headers ∧
      (List.range (min s.headers.length n)).foldlM (modifyPlace DataHeader.markValid) headers =
        some headers' ∧
      Pushed n s ⟨headers', min s.headers.length (s.next + n)⟩ ∧ SameType headers' := by
  have hle := hs.next_le
  have hshift : ∃ headers, shiftUp s.headers n (min s.headers.length (s.next + n) - n) = some headers ∧
      headers.length = s.headers.length ∧ headers ⊆ s.headers ∧
      (∀ i, n ≤ i → i < min s.headers.length (s.next + n) → headers[i]? = s.headers[i - n]?) ∧
      ∀ i, min s.headers.length (s.next + n) ≤ i → headers[i]? = s.headers[i]? := by
    by_cases hover : s.headers.length ≤ n
    · refine ⟨s.headers, ?_, rfl, fun _ h => h, fun i hi hlt => by omega, fun i hi => rfl⟩
      rw [show min s.headers.length (s.next + n) - n = 0 by omega]
      rfl
    · obtain ⟨headers, hrun, hlen, hsub, hup, hrest⟩ := shiftUp_spec (l := s.headers) hn
        (m := min s.headers.length (s.next + n) - n) (by omega)
      exact ⟨headers, hrun, hlen, hsub, fun i hi hlt => hup i hi (by omega),
        fun i hi => hrest i (by omega)⟩
  obtain ⟨headers, hrun, hlen, hsub, hup, hrest⟩ := hshift
  obtain ⟨headers', hmark, hlen', hget⟩ := foldlM_modifyPlace DataHeader.markValid headers
    0 (min s.headers.length n) (by omega)
  refine ⟨headers, headers', ?_, ?_, ⟨hlen'.trans hlen, rfl, fun i hi h hh => ?_, fun i hi hlt => ?_,
    fun i hi => ?_⟩, sameType_of_marked format_markValid (.of_subset hs.sameType hsub) hget⟩
  · rw [foldlM_swapPlaces hs.sameType]
    exact hrun
  · rw [List.range_eq_range']
    exact hmark
  · have hlt : i < s.headers.length := by
      have := (List.getElem?_eq_some_iff.mp hh).1
      dsimp only at this
      omega
    dsimp only at hh
    rw [hget, if_pos (by omega)] at hh
    obtain ⟨g, -, rfl⟩ := Option.map_eq_some_iff.mp hh
    rfl
  · dsimp only at hlt ⊢
    rw [hget, if_neg (by omega), hup i hi hlt]
  · dsimp only at hi ⊢
    rw [hget, if_neg (by omega), hrest i hi]

/-- **Many headers pushed.** -/
theorem pushFront_pushed (hs : s.Inv) (hdepth : 0 < s.headers.length) (hn : s.next + n < 2 ^ 64) :
    ∃ s', s.pushFront n = some (s', min n s.headers.length) ∧ Pushed n s s' ∧ s'.Inv := by
  have hle := hs.next_le
  by_cases hzero : n = 0
  · refine ⟨s, by simp [pushFront, hzero], ⟨rfl, by omega, fun i hi => by omega, fun i _ _ => ?_,
      fun _ _ => rfl⟩, hs⟩
    rw [hzero, Nat.sub_zero]
  · obtain ⟨headers, headers', hswap, hmark, hpushed, hsame⟩ := pushLoop hs (by omega : 0 < n)
    refine ⟨_, ?_, hpushed, ⟨?_, hsame⟩⟩
    · rw [pushFront, if_neg hzero, Nat.mod_eq_of_lt hn]
      dsimp only
      rw [if_neg (by omega), hswap, Option.bind_eq_bind, Option.bind_some, hmark, min_comm n]
      rfl
    · have hlen := hpushed.length
      dsimp only at hlen ⊢
      omega

/-- **One header pushed.** -/
theorem pushFrontOne_pushed (hs : s.Inv) (hdepth : 0 < s.headers.length) :
    ∃ s', s.pushFrontOne = some (s', 1) ∧ Pushed 1 s s' ∧ s'.Inv := by
  have hle := hs.next_le
  obtain ⟨headers, headers', hswap, hmark, hpushed, hsame⟩ := pushLoop hs one_pos
  refine ⟨_, ?_, hpushed, ⟨?_, hsame⟩⟩
  · have hnext : (if s.next < s.headers.length then s.next + 1 else s.next) =
        min s.headers.length (s.next + 1) := by
      split <;> omega
    rw [show min s.headers.length 1 = 1 by omega, show List.range 1 = [0] from rfl,
      List.foldlM_cons] at hmark
    obtain ⟨headers₁, hone, hnil⟩ := Option.bind_eq_some_iff.mp hmark
    obtain rfl := Option.some.inj hnil
    rw [pushFrontOne, hnext, if_neg (by omega), hswap, Option.bind_eq_bind, Option.bind_some, hone]
    rfl
  · have hlen := hpushed.length
    dsimp only at hlen ⊢
    omega

/-- The bulk pop, for a number that is not zero. -/
theorem popLoop (hs : s.Inv) (hn : 0 < n) :
    ∃ headers headers',
      (List.range (s.next - min s.next n)).foldlM (fun headers i => swapPlaces headers i (i + n))
        s.headers = some headers ∧
      (List.range' (s.next - min s.next n) (min s.next n)).foldlM
        (modifyPlace DataHeader.markInvalid) headers = some headers' ∧
      Popped n s ⟨headers', s.next - min s.next n⟩ ∧ SameType headers' := by
  have hle := hs.next_le
  have hshift : ∃ headers, shiftDown s.headers n (s.next - min s.next n) = some headers ∧
      headers.length = s.headers.length ∧ headers ⊆ s.headers ∧
      (∀ i < s.next - min s.next n, headers[i]? = s.headers[i + n]?) ∧
      ∀ i, s.next ≤ i → headers[i]? = s.headers[i]? := by
    by_cases hall : s.next ≤ n
    · refine ⟨s.headers, ?_, rfl, fun _ h => h, fun i hi => by omega, fun i hi => rfl⟩
      rw [show s.next - min s.next n = 0 by omega]
      rfl
    · obtain ⟨headers, hrun, hlen, hsub, hdown, hrest⟩ := shiftDown_spec (l := s.headers) hn
        (m := s.next - min s.next n) (by omega)
      exact ⟨headers, hrun, hlen, hsub, hdown, fun i hi => hrest i (by omega)⟩
  obtain ⟨headers, hrun, hlen, hsub, hdown, hrest⟩ := hshift
  obtain ⟨headers', hmark, hlen', hget⟩ := foldlM_modifyPlace DataHeader.markInvalid headers
    (s.next - min s.next n) (min s.next n) (by omega)
  refine ⟨headers, headers', ?_, hmark, ⟨hlen'.trans hlen, ?_, fun i hi => ?_,
    fun i hi hlt h hh => ?_, fun i hi => ?_⟩,
    sameType_of_marked format_markInvalid (.of_subset hs.sameType hsub) hget⟩
  · rw [foldlM_swapPlaces hs.sameType]
    exact hrun
  · dsimp only
    omega
  · dsimp only at hi ⊢
    rw [hget, if_neg (by omega), hdown i hi]
  · dsimp only at hi hh
    rw [hget, if_pos (by omega)] at hh
    obtain ⟨g, -, rfl⟩ := Option.map_eq_some_iff.mp hh
    rfl
  · dsimp only
    rw [hget, if_neg (by omega), hrest i hi]

/-- **Many headers popped.** -/
theorem popFront_popped (hs : s.Inv) (n : ℕ) :
    ∃ s', s.popFront n = some (s', min n s.next) ∧ Popped n s s' ∧ s'.Inv := by
  have hle := hs.next_le
  by_cases hzero : n = 0
  · refine ⟨s, by simp [popFront, hzero], ⟨rfl, by omega, fun i _ => ?_, fun i hi hlt => by omega,
      fun _ _ => rfl⟩, hs⟩
    rw [hzero, Nat.add_zero]
  · obtain ⟨headers, headers', hswap, hmark, hpopped, hsame⟩ := popLoop hs (by omega : 0 < n)
    refine ⟨_, ?_, hpopped, ⟨?_, hsame⟩⟩
    · rw [popFront, if_neg hzero]
      dsimp only
      rw [hswap, Option.bind_eq_bind, Option.bind_some, hmark, min_comm n]
      rfl
    · have hlen := hpopped.length
      dsimp only at hlen ⊢
      omega

/-- **One header popped.** -/
theorem popFrontOne_popped (hs : s.Inv) :
    ∃ s', s.popFrontOne = some (s', min 1 s.next) ∧ Popped 1 s s' ∧ s'.Inv := by
  have hle := hs.next_le
  by_cases hzero : s.next = 0
  · refine ⟨s, by simp [popFrontOne, hzero], ⟨rfl, by omega, fun i hi => by omega,
      fun i hi hlt => by omega, fun _ _ => rfl⟩, hs⟩
  · obtain ⟨headers, headers', hswap, hmark, hpopped, hsame⟩ := popLoop hs one_pos
    refine ⟨_, ?_, hpopped, ⟨?_, hsame⟩⟩
    · rw [show min s.next 1 = 1 by omega] at hswap hmark ⊢
      rw [show List.range' (s.next - 1) 1 = [s.next - 1] from rfl, List.foldlM_cons] at hmark
      obtain ⟨headers₁, hone, hnil⟩ := Option.bind_eq_some_iff.mp hmark
      obtain rfl := Option.some.inj hnil
      rw [popFrontOne, if_neg hzero]
      dsimp only
      rw [hswap, Option.bind_eq_bind, Option.bind_some, hone, show min 1 s.next = 1 by omega]
      rfl
    · have hlen := hpopped.length
      dsimp only at hlen ⊢
      omega

/-! ## Single operations in a row -/

theorem Pushed.trans (hle : s.next ≤ s.headers.length) (h₁ : Pushed 1 s s₁) (h₂ : Pushed n s₁ s₂) :
    Pushed (n + 1) s s₂ := by
  have hlen₁ := h₁.length
  have hlen₂ := h₂.length
  have hnext₁ := h₁.next
  have hnext₂ := h₂.next
  refine ⟨by omega, by omega, fun i hi h hh => ?_, fun i hi hlt => ?_, fun i hi => ?_⟩
  · have hlt := (List.getElem?_eq_some_iff.mp hh).1
    by_cases hin : i < n
    · exact h₂.new i hin h hh
    · rw [h₂.old i (by omega) (by omega), show i - n = 0 by omega] at hh
      exact h₁.new 0 one_pos h hh
  · rw [h₂.old i (by omega) hlt, h₁.old (i - n) (by omega) (by omega), Nat.sub_sub]
  · rw [h₂.rest i hi, h₁.rest i (by omega)]

theorem Popped.trans (h₁ : Popped 1 s s₁) (h₂ : Popped n s₁ s₂) : Popped (n + 1) s s₂ := by
  have hlen₁ := h₁.length
  have hlen₂ := h₂.length
  have hnext₁ := h₁.next
  have hnext₂ := h₂.next
  refine ⟨by omega, by omega, fun i hi => ?_, fun i hi hlt h hh => ?_, fun i hi => ?_⟩
  · rw [h₂.old i hi, h₁.old (i + n) (by omega), Nat.add_assoc]
  · by_cases hin : i < s₁.next
    · exact h₂.gone i hi hin h hh
    · rw [h₂.rest i (by omega)] at hh
      exact h₁.gone i (by omega) hlt h hh
  · rw [h₂.rest i (by omega), h₁.rest i hi]

theorem repeat_pushFrontOne (hs : s.Inv) (hdepth : 0 < s.headers.length) (n : ℕ) :
    ∃ s', repeatCall pushFrontOne n s = some s' ∧ Pushed n s s' := by
  induction n generalizing s with
  | zero =>
    have hle := hs.next_le
    exact ⟨s, rfl, rfl, by omega, fun i hi => by omega, fun _ _ _ => rfl, fun _ _ => rfl⟩
  | succ n ih =>
    obtain ⟨s₁, hone, hpushed₁, hs₁⟩ := pushFrontOne_pushed hs hdepth
    obtain ⟨s', hrest, hpushed⟩ := ih hs₁ (by rw [hpushed₁.length]; exact hdepth)
    refine ⟨s', ?_, hpushed₁.trans hs.next_le hpushed⟩
    rw [repeatCall, hone]
    exact hrest

theorem repeat_popFrontOne (hs : s.Inv) (n : ℕ) :
    ∃ s', repeatCall popFrontOne n s = some s' ∧ Popped n s s' := by
  induction n generalizing s with
  | zero =>
    exact ⟨s, rfl, rfl, by omega, fun _ _ => rfl, fun i hi hlt => by omega, fun _ _ => rfl⟩
  | succ n ih =>
    obtain ⟨s₁, hone, hpopped₁, hs₁⟩ := popFrontOne_popped hs
    obtain ⟨s', hrest, hpopped⟩ := ih hs₁
    refine ⟨s', ?_, hpopped₁.trans hpopped⟩
    rw [repeatCall, hone]
    exact hrest

/-! ## What the relations determine -/

theorem getElem?_length_eq {headers headers' : List DataHeader}
    (h : headers.length = headers'.length) (i : ℕ) :
    (headers[i]? = none ∧ headers'[i]? = none) ∨
      ∃ g g' : DataHeader, headers[i]? = some g ∧ headers'[i]? = some g' := by
  by_cases hi : i < headers.length
  · exact Or.inr ⟨_, _, List.getElem?_eq_getElem hi, List.getElem?_eq_getElem (h ▸ hi)⟩
  · exact Or.inl ⟨List.getElem?_eq_none (by omega), List.getElem?_eq_none (by omega)⟩

theorem Pushed.sameFrom (h₁ : Pushed n s s₁) (h₂ : Pushed n s s₂) : SameFrom n s₁ s₂ := by
  have hnext : s₁.next = s₂.next := by rw [h₁.next, h₂.next]
  refine ⟨hnext, fun i => ?_, fun i hi hlt => ?_⟩
  · by_cases hnew : i < n
    · rcases getElem?_length_eq (h₁.length.trans h₂.length.symm) i with
        ⟨hnone, hnone'⟩ | ⟨g, g', hg, hg'⟩
      · rw [hnone, hnone']
      · rw [hg, hg', Option.map_some, Option.map_some, h₁.new i hnew g hg, h₂.new i hnew g' hg']
    · by_cases hold : i < s₁.next
      · rw [h₁.old i (by omega) hold, h₂.old i (by omega) (hnext ▸ hold)]
      · rw [h₁.rest i (by omega), h₂.rest i (by omega)]
  · rw [h₁.old i hi hlt, h₂.old i hi (hnext ▸ hlt)]

theorem Popped.sameFrom (h₁ : Popped n s s₁) (h₂ : Popped n s s₂) : SameFrom 0 s₁ s₂ := by
  have hnext : s₁.next = s₂.next := by rw [h₁.next, h₂.next]
  refine ⟨hnext, fun i => ?_, fun i _ hlt => ?_⟩
  · by_cases hold : i < s₁.next
    · rw [h₁.old i hold, h₂.old i (hnext ▸ hold)]
    · by_cases hgone : i < s.next
      · rcases getElem?_length_eq (h₁.length.trans h₂.length.symm) i with
          ⟨hnone, hnone'⟩ | ⟨g, g', hg, hg'⟩
        · rw [hnone, hnone']
        · rw [hg, hg', Option.map_some, Option.map_some, h₁.gone i (by omega) hgone g hg,
            h₂.gone i (by omega) hgone g' hg']
      · rw [h₁.rest i (by omega), h₂.rest i (by omega)]
  · rw [h₁.old i hlt, h₂.old i (hnext ▸ hlt)]

theorem Pushed.validBelow (hs : s.ValidBelow) (h : Pushed n s s') : s'.ValidBelow := by
  intro i g hg
  have hlt := (List.getElem?_eq_some_iff.mp hg).1
  have hlen := h.length
  have hnext := h.next
  by_cases hnew : i < n
  · exact iff_of_true (h.new i hnew g hg) (by omega)
  · by_cases hold : i < s'.next
    · rw [h.old i (by omega) hold] at hg
      exact iff_of_true ((hs _ g hg).mpr (by omega)) hold
    · rw [h.rest i (by omega)] at hg
      rw [hs i g hg]
      omega

theorem Popped.validBelow (hs : s.ValidBelow) (h : Popped n s s') : s'.ValidBelow := by
  intro i g hg
  have hnext := h.next
  by_cases hold : i < s'.next
  · rw [h.old i hold] at hg
    exact iff_of_true ((hs _ g hg).mpr (by omega)) hold
  · refine iff_of_false ?_ hold
    by_cases hgone : i < s.next
    · rw [h.gone i (by omega) hgone g hg]
      exact Bool.false_ne_true
    · rw [h.rest i (by omega)] at hg
      rw [hs i g hg]
      exact hgone

/-! ## Runs -/

/-- As many headers, of one type. -/
def Kept (depth : ℕ) (headers : List DataHeader) : Prop :=
  headers.length = depth ∧ SameType headers

variable {depth : ℕ} {headers headers' : List DataHeader}

theorem Kept.swapPlaces {i j : ℕ} (h : Kept depth headers)
    (hswap : swapPlaces headers i j = some headers') : Kept depth headers' := by
  rw [swapPlaces_eq_swapAt h.2] at hswap
  refine ⟨?_, h.2.of_subset (swapAt_subset hswap)⟩
  obtain ⟨a, -, hswap⟩ := Option.bind_eq_some_iff.mp hswap
  obtain ⟨b, -, hswap⟩ := Option.bind_eq_some_iff.mp hswap
  obtain rfl := Option.some.inj hswap
  rw [List.length_set, List.length_set, h.1]

theorem Kept.modifyPlace {f : DataHeader → DataHeader} {i : ℕ} (h : Kept depth headers)
    (hf : ∀ g, (f g).format = g.format) (hmodify : modifyPlace f headers i = some headers') :
    Kept depth headers' := by
  obtain ⟨g, hg, hset⟩ := Option.bind_eq_some_iff.mp hmodify
  obtain rfl := Option.some.inj hset
  refine ⟨by rw [List.length_set, h.1], h.2.of_format fun a ha => ?_⟩
  rcases List.mem_or_eq_of_mem_set ha with ha | rfl
  · exact ⟨a, ha, rfl⟩
  · exact ⟨g, List.mem_of_getElem? hg, hf g⟩

theorem Kept.marked {f : DataHeader → DataHeader} {places : List ℕ} (h : Kept depth headers)
    (hf : ∀ g, (f g).format = g.format)
    (hloop : places.foldlM (StackedHeaders.modifyPlace f) headers = some headers') :
    Kept depth headers' :=
  foldlM_some_invariant (fun _ _ _ hI hstep => hI.modifyPlace hf hstep) h hloop

theorem Kept.swapped {other : ℕ → ℕ} {places : List ℕ} (h : Kept depth headers)
    (hloop : places.foldlM (fun headers i => StackedHeaders.swapPlaces headers i (other i)) headers =
      some headers') : Kept depth headers' :=
  foldlM_some_invariant (fun _ _ _ hI hstep => hI.swapPlaces hstep) h hloop

/-- What every call keeps. -/
theorem step_inv {op : Op} (hs : s.Inv) (h : s.step op = some s') :
    s'.Inv ∧ s'.headers.length = s.headers.length := by
  have hle := hs.next_le
  have hkept : Kept s.headers.length s.headers := ⟨rfl, hs.sameType⟩
  have hdone (next : ℕ) {headers : List DataHeader} (hnext : next ≤ s.headers.length)
      (hk : Kept s.headers.length headers) :
      (⟨headers, next⟩ : StackedHeaders).Inv ∧ headers.length = s.headers.length :=
    ⟨⟨by rw [hk.1]; exact hnext, hk.2⟩, hk.1⟩
  cases op with
  | pushFrontOne =>
    obtain ⟨p, hp, rfl⟩ := Option.map_eq_some_iff.mp h
    rcases Nat.eq_zero_or_pos s.headers.length with hzero | hdepth
    · have hnext : (if s.next < s.headers.length then s.next + 1 else s.next) = 0 := by
        split <;> omega
      rw [pushFrontOne, if_pos hnext] at hp
      cases hp
    · obtain ⟨s₁, hpush, hpushed, hs₁⟩ := pushFrontOne_pushed hs hdepth
      obtain rfl := Option.some.inj (hpush.symm.trans hp)
      exact ⟨hs₁, hpushed.length⟩
  | pushFront num =>
    obtain ⟨p, hp, rfl⟩ := Option.map_eq_some_iff.mp h
    rw [pushFront] at hp
    dsimp only at hp
    split at hp
    · obtain rfl := Option.some.inj hp
      exact ⟨hs, rfl⟩
    · split at hp
      · cases hp
      · obtain ⟨headers₁, hswap, hp⟩ := Option.bind_eq_some_iff.mp hp
        obtain ⟨headers₂, hmark, hp⟩ := Option.bind_eq_some_iff.mp hp
        obtain rfl := Option.some.inj hp
        exact hdone _ (min_le_left _ _) ((hkept.swapped hswap).marked format_markValid hmark)
  | popFrontOne =>
    obtain ⟨p, hp, rfl⟩ := Option.map_eq_some_iff.mp h
    obtain ⟨s₁, hpop, hpopped, hs₁⟩ := popFrontOne_popped hs
    obtain rfl := Option.some.inj (hpop.symm.trans hp)
    exact ⟨hs₁, hpopped.length⟩
  | popFront num =>
    obtain ⟨p, hp, rfl⟩ := Option.map_eq_some_iff.mp h
    obtain ⟨s₁, hpop, hpopped, hs₁⟩ := popFront_popped hs num
    obtain rfl := Option.some.inj (hpop.symm.trans hp)
    exact ⟨hs₁, hpopped.length⟩
  | pushBack =>
    obtain ⟨p, hp, rfl⟩ := Option.map_eq_some_iff.mp h
    rw [pushBack] at hp
    split at hp
    · obtain rfl := Option.some.inj hp
      exact ⟨hs, rfl⟩
    · obtain ⟨headers₁, hmark, hp⟩ := Option.bind_eq_some_iff.mp hp
      obtain rfl := Option.some.inj hp
      exact hdone _ (by omega) (hkept.modifyPlace format_markValid hmark)
  | popBack =>
    obtain ⟨p, hp, rfl⟩ := Option.map_eq_some_iff.mp h
    rw [popBack] at hp
    split at hp
    · obtain rfl := Option.some.inj hp
      exact ⟨hs, rfl⟩
    · obtain ⟨headers₁, hmark, hp⟩ := Option.bind_eq_some_iff.mp hp
      obtain rfl := Option.some.inj hp
      exact hdone _ (by omega) (hkept.modifyPlace format_markInvalid hmark)
  | reset =>
    obtain rfl := Option.some.inj h
    exact ⟨⟨Nat.zero_le _, hs.sameType⟩, rfl⟩
  | setField place field value =>
    obtain ⟨headers₁, hset, rfl⟩ := Option.map_eq_some_iff.mp h
    exact hdone _ hle (hkept.modifyPlace (fun g => g.format_modify field value g.valid) hset)

/-- A header next to the occupancy is marked, and the occupancy follows. -/
theorem ValidBelow.mark {f : DataHeader → DataHeader} {place next : ℕ} (hs : s.ValidBelow)
    (hmark : modifyPlace f s.headers place = some headers')
    (hf : ∀ g, (f g).valid = true ↔ place < next) (hother : ∀ i ≠ place, i < next ↔ i < s.next) :
    (⟨headers', next⟩ : StackedHeaders).ValidBelow := by
  obtain ⟨g, hg, hset⟩ := Option.bind_eq_some_iff.mp hmark
  obtain rfl := Option.some.inj hset
  intro i h hh
  dsimp only at hh ⊢
  by_cases hi : place = i
  · subst hi
    rw [List.getElem?_set_self (List.getElem?_eq_some_iff.mp hg).1] at hh
    obtain rfl := Option.some.inj hh
    exact hf g
  · rw [List.getElem?_set_ne hi] at hh
    rw [hs i h hh, hother i (Ne.symm hi)]

theorem step_validBelow {op : Op} (hs : s.Inv) (hdepth : 0 < s.headers.length) (hvalid : s.ValidBelow)
    (hop : s.Regular op) (h : s.step op = some s') : s'.ValidBelow := by
  have hle := hs.next_le
  cases op with
  | pushFrontOne =>
    obtain ⟨p, hp, rfl⟩ := Option.map_eq_some_iff.mp h
    obtain ⟨s₁, hpush, hpushed, -⟩ := pushFrontOne_pushed hs hdepth
    obtain rfl := Option.some.inj (hpush.symm.trans hp)
    exact hpushed.validBelow hvalid
  | pushFront num =>
    obtain ⟨p, hp, rfl⟩ := Option.map_eq_some_iff.mp h
    obtain ⟨s₁, hpush, hpushed, -⟩ := pushFront_pushed hs hdepth hop
    obtain rfl := Option.some.inj (hpush.symm.trans hp)
    exact hpushed.validBelow hvalid
  | popFrontOne =>
    obtain ⟨p, hp, rfl⟩ := Option.map_eq_some_iff.mp h
    obtain ⟨s₁, hpop, hpopped, -⟩ := popFrontOne_popped hs
    obtain rfl := Option.some.inj (hpop.symm.trans hp)
    exact hpopped.validBelow hvalid
  | popFront num =>
    obtain ⟨p, hp, rfl⟩ := Option.map_eq_some_iff.mp h
    obtain ⟨s₁, hpop, hpopped, -⟩ := popFront_popped hs num
    obtain rfl := Option.some.inj (hpop.symm.trans hp)
    exact hpopped.validBelow hvalid
  | pushBack =>
    obtain ⟨p, hp, rfl⟩ := Option.map_eq_some_iff.mp h
    rw [pushBack] at hp
    split at hp
    · obtain rfl := Option.some.inj hp
      exact hvalid
    · obtain ⟨headers₁, hmark, hp⟩ := Option.bind_eq_some_iff.mp hp
      obtain rfl := Option.some.inj hp
      exact hvalid.mark hmark (fun g => iff_of_true rfl (by omega)) fun i hi => by omega
  | popBack =>
    obtain ⟨p, hp, rfl⟩ := Option.map_eq_some_iff.mp h
    rw [popBack] at hp
    split at hp
    · obtain rfl := Option.some.inj hp
      exact hvalid
    · obtain ⟨headers₁, hmark, hp⟩ := Option.bind_eq_some_iff.mp hp
      obtain rfl := Option.some.inj hp
      exact hvalid.mark hmark (fun g => iff_of_false Bool.false_ne_true (by omega))
        fun i hi => by omega
  | reset =>
    obtain rfl := Option.some.inj h
    intro i g hg
    refine iff_of_false ?_ (Nat.not_lt_zero i)
    rw [hop g (List.mem_of_getElem? hg)]
    exact Bool.false_ne_true
  | setField place field value =>
    obtain ⟨headers₁, hset, rfl⟩ := Option.map_eq_some_iff.mp h
    obtain ⟨g, hg, hset⟩ := Option.bind_eq_some_iff.mp hset
    obtain rfl := Option.some.inj hset
    intro i a ha
    dsimp only at ha ⊢
    by_cases hi : place = i
    · subst hi
      rw [List.getElem?_set_self (List.getElem?_eq_some_iff.mp hg).1] at ha
      obtain rfl := Option.some.inj ha
      exact hvalid place g hg
    · rw [List.getElem?_set_ne hi] at ha
      exact hvalid i a ha

theorem inv_create (depth : ℕ) (h : DataHeader) : (create depth h).Inv := by
  refine ⟨Nat.zero_le _, fun a ha b hb => ?_⟩
  rw [List.eq_of_mem_replicate ha, List.eq_of_mem_replicate hb]

theorem validBelow_create (depth : ℕ) {h : DataHeader} (hinvalid : h.valid = false) :
    (create depth h).ValidBelow := by
  intro i g hg
  refine iff_of_false ?_ (Nat.not_lt_zero i)
  rw [List.eq_of_mem_replicate (List.mem_of_getElem? hg), hinvalid]
  exact Bool.false_ne_true

/-- **Bulk operations** on every stack that a run reaches: they return how many headers were pushed or
popped, and leave what as many single operations do.  If stacks are only reset without valid headers,
the valid headers are those below the occupancy. -/
theorem bulk_eq_singles (hdepth : 1 ≤ depth) {h : DataHeader} (hinvalid : h.valid = false)
    {ops : List Op} (hrun : runFrom step (create depth h) ops = some s) (n : ℕ) :
    (s.next + n < 2 ^ 64 → ∃ s₁ s₂, s.pushFront n = some (s₁, min n depth) ∧
      repeatCall pushFrontOne n s = some s₂ ∧ SameFrom n s₁ s₂ ∧ Pushed n s s₁ ∧
        (RunMeets step Regular (create depth h) ops → s₁.ValidBelow)) ∧
    (∃ s₁ s₂, s.popFront n = some (s₁, min n s.next) ∧
      repeatCall popFrontOne n s = some s₂ ∧ SameFrom 0 s₁ s₂ ∧ Popped n s s₁ ∧
        (RunMeets step Regular (create depth h) ops → s₁.ValidBelow)) ∧
    (RunMeets step Regular (create depth h) ops → s.ValidBelow) := by
  have hnew : (create depth h).Inv ∧ (create depth h).headers.length = depth :=
    ⟨inv_create depth h, List.length_replicate⟩
  obtain ⟨hs, hlen⟩ := runFrom_invariant
    (I := fun s : StackedHeaders => s.Inv ∧ s.headers.length = depth)
    (fun s op s' hI hstep => ⟨(step_inv hI.1 hstep).1, (step_inv hI.1 hstep).2.trans hI.2⟩) hnew hrun
  have hvalid (hregular : RunMeets step Regular (create depth h) ops) : s.ValidBelow := by
    refine (runFrom_invariant_of_meets
      (I := fun s : StackedHeaders => (s.Inv ∧ s.headers.length = depth) ∧ s.ValidBelow)
      (fun s op s' hI hop hstep => ?_) ⟨hnew, validBelow_create depth hinvalid⟩ hregular hrun).2
    obtain ⟨⟨hinv, hlen⟩, hbelow⟩ := hI
    exact ⟨⟨(step_inv hinv hstep).1, (step_inv hinv hstep).2.trans hlen⟩,
      step_validBelow hinv (by omega) hbelow hop hstep⟩
  refine ⟨fun hfits => ?_, ?_, hvalid⟩
  · obtain ⟨s₁, hbulk, hpushed, -⟩ := pushFront_pushed hs (by omega) hfits
    obtain ⟨s₂, hsingle, hpushed₂⟩ := repeat_pushFrontOne hs (by omega) n
    exact ⟨s₁, s₂, by rw [hbulk, hlen], hsingle, hpushed.sameFrom hpushed₂, hpushed,
      fun hregular => hpushed.validBelow (hvalid hregular)⟩
  · obtain ⟨s₁, hbulk, hpopped, -⟩ := popFront_popped hs n
    obtain ⟨s₂, hsingle, hpopped₂⟩ := repeat_popFrontOne hs n
    exact ⟨s₁, s₂, hbulk, hsingle, hpopped.sameFrom hpopped₂, hpopped,
      fun hregular => hpopped.validBelow (hvalid hregular)⟩

/-- A new header of one byte. -/
def byteHeader : DataHeader :=
  ⟨[⟨⟨8, [0], false⟩, false, true, 0⟩, ⟨⟨1, [0], true⟩, false, true, 0⟩], false, false, 1, none⟩

/-- Two headers in a stack of three, and five more pushed or popped. -/
theorem bulk_eq_singles_three : ∃ s,
    runFrom step (create 3 byteHeader) [.pushBack, .setField 0 0 7, .pushFront 1] = some s ∧
    (s.next + 5 < 2 ^ 64 → ∃ s₁ s₂, s.pushFront 5 = some (s₁, min 5 3) ∧
      repeatCall pushFrontOne 5 s = some s₂ ∧ SameFrom 5 s₁ s₂ ∧ Pushed 5 s s₁ ∧
        (RunMeets step Regular (create 3 byteHeader) [.pushBack, .setField 0 0 7, .pushFront 1] →
          s₁.ValidBelow)) ∧
    (∃ s₁ s₂, s.popFront 5 = some (s₁, min 5 s.next) ∧
      repeatCall popFrontOne 5 s = some s₂ ∧ SameFrom 0 s₁ s₂ ∧ Popped 5 s s₁ ∧
        (RunMeets step Regular (create 3 byteHeader) [.pushBack, .setField 0 0 7, .pushFront 1] →
          s₁.ValidBelow)) ∧
    (RunMeets step Regular (create 3 byteHeader) [.pushBack, .setField 0 0 7, .pushFront 1] →
      s.ValidBelow) :=
  ⟨_, rfl, bulk_eq_singles (by decide) rfl rfl 5⟩

/-- A stack that is reset keeps its valid headers; a push whose sum wraps around to zero leaves the
stack. -/
theorem reset_not_validBelow :
    (∃ s, runFrom step (create 2 byteHeader) [.pushBack, .reset] = some s ∧ ¬ s.ValidBelow) ∧
      ∃ s, runFrom step (create 2 byteHeader) [.pushBack] = some s ∧
        s.pushFront (2 ^ 64 - 1) = none := by
  refine ⟨⟨_, rfl, fun h => ?_⟩, _, rfl, by decide⟩
  exact absurd ((h 0 _ rfl).mp rfl) (Nat.not_lt_zero 0)

end StackedHeaders

end Bm
