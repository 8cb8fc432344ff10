/-
# The ledger of a learn list

What a learn list is for: every sample that is learnt gets a slot in the buffer that is being
filled, unless a slot of an equal sample has not been acknowledged.  Buffers are closed one after
the other, each is notified at most once, with all of its samples, and the samples of a notified
buffer are acknowledged one by one or together.
-/
import Bmv2.Learning

namespace Bm

/-- A sample that has been learnt, as the `serial`-th, in a buffer. -/
structure Slot where
  serial : ℕ
  buffer : ℕ
  sample : Sample
  deriving DecidableEq

/-- What a client sees of a list, and what it does to it. -/
inductive LearnEvent where
  | notified (bufferId : ℕ) (samples : List Sample)
  | acked (sample : Sample)

/-- The notifications of a sample since it was last acknowledged; the latest event comes first. -/
def sinceAck (x : Sample) : List LearnEvent → ℕ
  | [] => 0
  | .notified _ samples :: history => samples.count x + sinceAck x history
  | .acked sample :: history => if sample = x then 0 else sinceAck x history

/-- The slots of a list, those that have been acknowledged, and the buffer that is being filled. -/
structure Ledger where
  switchId : ℕ
  cxtId : ℕ
  listId : ℕ
  slots : List Slot := []
  acked : Finset ℕ := ∅
  current : ℕ := 0
  history : List LearnEvent := []

namespace Ledger

variable (l : Ledger)

/-- The slots that have not been acknowledged. -/
def pending : List Slot := l.slots.filter (·.serial ∉ l.acked)

/-- The slots of a buffer. -/
def carried (b : ℕ) : List Slot := l.slots.filter (·.buffer = b)

/-- The slots of a buffer that have not been acknowledged. -/
def unacked (b : ℕ) : List Slot := (l.carried b).filter (·.serial ∉ l.acked)

/-- The buffer has been notified. -/
def Notified (b : ℕ) : Prop := ∃ samples, LearnEvent.notified b samples ∈ l.history

/-- A sample is learnt, unless it is pending. -/
def learn (x : Sample) : Ledger :=
  if l.pending.any (·.sample = x) then l
  else { l with slots := l.slots ++ [⟨l.slots.length, l.current, x⟩] }

/-- The current buffer is closed, and the next one is filled. -/
def close : Ledger := { l with current := l.current + 1 }

/-- A slot is acknowledged, unless it has been. -/
def ackSlot (slot : Slot) : Ledger :=
  if slot.serial ∈ l.acked then l
  else { l with
    acked := insert slot.serial l.acked
    history := .acked slot.sample :: l.history }

/-- Slots are acknowledged. -/
def ackSlots (slots : List Slot) : Ledger := slots.foldl ackSlot l

/-- The slots of a buffer with these ids; ids out of range are ignored. -/
def named (b : ℕ) (sampleIds : List ℤ) : List Slot := sampleIds.filterMap (getInt? (l.carried b))

/-- The notification of a buffer. -/
def notification (b : ℕ) : LearnNotification where
  msgHdr := ⟨l.switchId, l.cxtId, l.listId, b, (l.carried b).length⟩
  samples := (l.carried b).flatMap Slot.sample

/-- A buffer is notified. -/
def notify (b : ℕ) : Ledger :=
  { l with history := .notified b ((l.carried b).map Slot.sample) :: l.history }

/-- What a step of a list may do. -/
def Step (op : LearnOp) (out : Option LearnNotification) (l' : Ledger) : Prop :=
  match op with
  | .addSample sample => out = none ∧ (l' = l.learn sample ∨ l' = (l.learn sample).close)
  | .ack bufferId sampleIds => out = none ∧ l' = l.ackSlots (l.named bufferId sampleIds)
  | .ackBuffer bufferId => out = none ∧ l' = l.ackSlots (l.carried bufferId)
  | .transmitSend => (out = none ∧ l' = l) ∨
      ∃ b < l.current, ¬ l.Notified b ∧ out = some (l.notification b) ∧ l' = l.notify b
  | _ => out = none ∧ (l' = l ∨ l' = l.close)

/-- Every step is possible. -/
theorem exists_step (op : LearnOp) : ∃ out l', l.Step op out l' := by
  cases op with
  | addSample sample => exact ⟨none, _, rfl, .inl rfl⟩
  | transmitSend => exact ⟨none, _, .inl ⟨rfl, rfl⟩⟩
  | ack bufferId sampleIds => exact ⟨none, _, rfl, rfl⟩
  | ackBuffer bufferId => exact ⟨none, _, rfl, rfl⟩
  | _ => exact ⟨none, _, rfl, .inl rfl⟩

variable {l}

/-! ## Acknowledgements -/

@[simp] theorem slots_ackSlot (slot : Slot) : (l.ackSlot slot).slots = l.slots := by
  unfold ackSlot
  split <;> rfl

@[simp] theorem current_ackSlot (slot : Slot) : (l.ackSlot slot).current = l.current := by
  unfold ackSlot
  split <;> rfl

@[simp] theorem carried_ackSlot (slot : Slot) (b : ℕ) :
    (l.ackSlot slot).carried b = l.carried b := by
  simp [carried]

theorem acked_ackSlot (slot : Slot) : (l.ackSlot slot).acked = insert slot.serial l.acked := by
  unfold ackSlot
  split
  · rename_i h
    rw [Finset.insert_eq_self.mpr h]
  · rfl

@[simp] theorem slots_ackSlots (slots : List Slot) : (l.ackSlots slots).slots = l.slots := by
  induction slots generalizing l with
  | nil => rfl
  | cons slot slots ih => exact ih.trans (slots_ackSlot slot)

@[simp] theorem current_ackSlots (slots : List Slot) :
    (l.ackSlots slots).current = l.current := by
  induction slots generalizing l with
  | nil => rfl
  | cons slot slots ih => exact ih.trans (current_ackSlot slot)

@[simp] theorem carried_ackSlots (slots : List Slot) (b : ℕ) :
    (l.ackSlots slots).carried b = l.carried b := by
  simp [carried]

theorem mem_acked_ackSlots {slots : List Slot} {n : ℕ} :
    n ∈ (l.ackSlots slots).acked ↔ n ∈ l.acked ∨ ∃ slot ∈ slots, slot.serial = n := by
  induction slots generalizing l with
  | nil => simp [ackSlots]
  | cons slot slots ih =>
    show n ∈ ((l.ackSlot slot).ackSlots slots).acked ↔ _
    rw [ih, acked_ackSlot, Finset.mem_insert, List.exists_mem_cons_iff, eq_comm]
    tauto

theorem ackSlot_of_mem {slot : Slot} (h : slot.serial ∈ l.acked) : l.ackSlot slot = l := if_pos h

theorem ackSlots_of_acked {slots : List Slot} (h : ∀ slot ∈ slots, slot.serial ∈ l.acked) :
    l.ackSlots slots = l := by
  induction slots with
  | nil => rfl
  | cons slot slots ih =>
    show (l.ackSlot slot).ackSlots slots = l
    rw [ackSlot_of_mem (h slot (by simp))]
    exact ih fun slot' hslot' => h slot' (by simp [hslot'])

/-- **To acknowledge twice is to acknowledge once.** -/
theorem ackSlots_ackSlots (slots : List Slot) :
    (l.ackSlots slots).ackSlots slots = l.ackSlots slots :=
  ackSlots_of_acked fun slot hslot => mem_acked_ackSlots.mpr (.inr ⟨slot, hslot, rfl⟩)

/-! ## Pending slots -/

theorem pending_ackSlot (slot : Slot) :
    (l.ackSlot slot).pending = l.pending.filter (·.serial ≠ slot.serial) := by
  rw [pending, pending, List.filter_filter, slots_ackSlot, acked_ackSlot]
  apply List.filter_congr
  intro slot' _
  simp [not_or]

theorem unacked_ackSlot (slot : Slot) (b : ℕ) :
    (l.ackSlot slot).unacked b = (l.unacked b).filter (·.serial ≠ slot.serial) := by
  rw [unacked, unacked, List.filter_filter, carried_ackSlot, acked_ackSlot]
  apply List.filter_congr
  intro slot' _
  simp [not_or]

theorem mem_pending {slot : Slot} : slot ∈ l.pending ↔ slot ∈ l.slots ∧ slot.serial ∉ l.acked := by
  simp [pending]

theorem mem_carried {slot : Slot} {b : ℕ} :
    slot ∈ l.carried b ↔ slot ∈ l.slots ∧ slot.buffer = b := by
  simp [carried]

theorem mem_unacked {slot : Slot} {b : ℕ} :
    slot ∈ l.unacked b ↔ slot ∈ l.pending ∧ slot.buffer = b := by
  simp only [unacked, carried, pending, List.mem_filter, decide_eq_true_eq]
  exact and_right_comm

theorem unacked_eq_filter (l : Ledger) (b : ℕ) : l.unacked b = l.pending.filter (·.buffer = b) := by
  rw [unacked, carried, pending, List.filter_comm]

/-- A sample that has been acknowledged is learnt again. -/
theorem learn_of_not_pending {x : Sample} (h : ∀ slot ∈ l.pending, slot.sample ≠ x) :
    (l.learn x).slots = l.slots ++ [⟨l.slots.length, l.current, x⟩] := by
  rw [learn, if_neg]
  simpa using h

end Ledger

end Bm
