/-
# Queues between the threads

`Queue` (`queue.h`) blocks the writer when it is full, and `QueueingLogicRL`
(`queueing.h`) drops the item.  The latter has one physical queue for each worker, from
which it takes the item with the earliest send time; the logical queues only count their
items and set the pace.

A call that has to wait is modelled by `none`, and it is made again later.  `at` throws
outside of a vector.
-/
import Mathlib

namespace Bm

/-! ## Bounded queues -/

/-- `Queue`, with blocking writes and reads. -/
structure Queue (T : Type) where
  capacity : ℕ
  queue : List T := []

namespace Queue

variable {T : Type} (q : Queue T)

/-- `is_not_full`. -/
def isNotFull : Bool := q.queue.length < q.capacity

/-- `push_front`; `none` while the writer waits. -/
def pushFront (item : T) : Option (Queue T) :=
  if q.isNotFull then some { q with queue := item :: q.queue } else none

/-- `pop_back`; `none` while the reader waits. -/
def popBack : Option (T × Queue T) :=
  q.queue.getLast?.map fun item => (item, { q with queue := q.queue.dropLast })

theorem pushFront_eq_some {q q' : Queue T} {item : T} : q.pushFront item = some q' ↔
    q.queue.length < q.capacity ∧ q' = { q with queue := item :: q.queue } := by
  rw [pushFront, isNotFull]
  split <;> simp_all [eq_comm]

theorem pushFront_eq_none {q : Queue T} {item : T} :
    q.pushFront item = none ↔ q.capacity ≤ q.queue.length := by
  rw [pushFront, isNotFull]
  split <;> simp_all

theorem popBack_eq_none {q : Queue T} : q.popBack = none ↔ q.queue = [] := by
  simp [popBack]

theorem capacity_of_popBack {q q' : Queue T} {item : T} (h : q.popBack = some (item, q')) :
    q'.capacity = q.capacity := by
  obtain ⟨item', -, heq⟩ := Option.map_eq_some_iff.mp h
  cases heq
  rfl

/-- What one call of a thread does to the queue. -/
def Moved (q q' : Queue T) : Prop :=
  q' = q ∨ (∃ item, q.pushFront item = some q') ∨ ∃ item, q.popBack = some (item, q')

theorem Moved.capacity {q q' : Queue T} (h : Moved q q') : q'.capacity = q.capacity := by
  rcases h with rfl | ⟨item, hpush⟩ | ⟨item, hpop⟩
  · rfl
  · rw [(pushFront_eq_some.mp hpush).2]
  · exact capacity_of_popBack hpop

end Queue

/-! ## Queues of the egress threads -/

/-- `QueueingLogicRL::QE`. -/
structure QE (T : Type) where
  e : T
  queueId : ℕ
  send : ℕ
  deriving DecidableEq

/-- `QueueingLogicRL::QueueInfo`, with times in ticks. -/
structure QueueInfo where
  size : ℕ := 0
  capacity : ℕ := 0
  pktDelayTicks : ℕ := 0
  lastSent : ℕ := 0
  deriving DecidableEq

/-- `QueueingLogicRL`; `map_to_worker` is the `EgressThreadMapper` of the switch. -/
structure QueueingLogicRL (T : Type) where
  nbWorkers : ℕ
  queuesInfo : List QueueInfo
  workersInfo : List (List (QE T))

namespace QueueingLogicRL

variable {T : Type} (q : QueueingLogicRL T)

/-- The constructor. -/
def create (nbQueues nbWorkers capacity now : ℕ) : QueueingLogicRL T where
  nbWorkers := nbWorkers
  queuesInfo := List.replicate nbQueues { capacity := capacity, lastSent := now }
  workersInfo := List.replicate nbWorkers []

/-- `EgressThreadMapper::operator()`. -/
def mapToWorker (queueId : ℕ) : ℕ := queueId % q.nbWorkers

/-- `get_next_tp`. -/
def getNextTp (qInfo : QueueInfo) (now : ℕ) : ℕ := max now (qInfo.lastSent + qInfo.pktDelayTicks)

/-- `push_front`: whether the item has been queued; `none` when `at` throws. -/
def pushFront (queueId : ℕ) (item : T) (now : ℕ) : Option (Bool × QueueingLogicRL T) := do
  let workerId := q.mapToWorker queueId
  let qInfo ← q.queuesInfo[queueId]?
  let queue ← q.workersInfo[workerId]?
  if qInfo.size ≥ qInfo.capacity then return (false, q)
  let lastSent := getNextTp qInfo now
  return (true, { q with
    workersInfo := q.workersInfo.set workerId (⟨item, queueId, lastSent⟩ :: queue)
    queuesInfo := q.queuesInfo.set queueId { qInfo with lastSent, size := qInfo.size + 1 } })

/-- `pop_back` of the item at place `i` of the queue of a worker, which has to be one with the
earliest send time; `none` while the reader waits. -/
def popBack (workerId i now : ℕ) : Option ((ℕ × T) × QueueingLogicRL T) := do
  let queue ← q.workersInfo[workerId]?
  let top ← queue[i]?
  if (∀ qe ∈ queue, top.send ≤ qe.send) ∧ top.send ≤ now then
    let qInfo ← q.queuesInfo[top.queueId]?
    return ((top.queueId, top.e), { q with
      workersInfo := q.workersInfo.set workerId (queue.eraseIdx i)
      queuesInfo := q.queuesInfo.set top.queueId { qInfo with size := qInfo.size - 1 } })
  else none

/-- `size`; `none` when `at` throws. -/
def size (queueId : ℕ) : Option ℕ := do
  let qInfo ← q.queuesInfo[queueId]?
  let _ ← q.workersInfo[q.mapToWorker queueId]?
  return qInfo.size

/-! ### The items that are queued -/

/-- The items in the queue of a worker. -/
def items (workerId : ℕ) : List (QE T) := (q.workersInfo[workerId]?).getD []

/-- There is a queue for every worker, and the items are in logical queues that exist, with the
worker of that queue. -/
structure Sound (q : QueueingLogicRL T) : Prop where
  pos : 0 < q.nbWorkers
  length_workersInfo : q.workersInfo.length = q.nbWorkers
  known : ∀ w, ∀ qe ∈ q.items w, qe.queueId < q.queuesInfo.length ∧ q.mapToWorker qe.queueId = w

theorem sound_create (nbQueues capacity now : ℕ) {nbWorkers : ℕ} (h : 0 < nbWorkers) :
    (create nbQueues nbWorkers capacity now : QueueingLogicRL T).Sound where
  pos := h
  length_workersInfo := List.length_replicate
  known w qe hqe := by
    simp only [items, create, List.getElem?_replicate] at hqe
    split at hqe
    · exact absurd hqe List.not_mem_nil
    · exact absurd hqe List.not_mem_nil

variable {q} {q' : QueueingLogicRL T} {queueId workerId i now : ℕ} {item : T}

theorem Sound.exists_worker (h : q.Sound) {w : ℕ} (hw : w < q.nbWorkers) :
    q.workersInfo[w]? = some (q.items w) := by
  rw [items, List.getElem?_eq_getElem (h.length_workersInfo ▸ hw), Option.getD_some]

/-- The queue of one worker is written. -/
theorem items_set {w : ℕ} (hw : w < q.workersInfo.length) {queue : List (QE T)}
    (h : q'.workersInfo = q.workersInfo.set w queue) :
    q'.items = Function.update q.items w queue := by
  funext v
  rw [items, h]
  by_cases hv : v = w
  · rw [hv, List.getElem?_set_self hw, Function.update_self, Option.getD_some]
  · rw [List.getElem?_set_ne (Ne.symm hv), Function.update_of_ne hv, items]

/-- The queue of one worker is written with items of its logical queues. -/
theorem Sound.setItems (h : q.Sound) {w : ℕ} {queue : List (QE T)} {qInfo : QueueInfo}
    (hqueue : ∀ qe ∈ queue, qe.queueId < q.queuesInfo.length ∧ q.mapToWorker qe.queueId = w) :
    { q with
      workersInfo := q.workersInfo.set w queue
      queuesInfo := q.queuesInfo.set queueId qInfo }.Sound where
  pos := h.pos
  length_workersInfo := List.length_set.trans h.length_workersInfo
  known v qe hqe := by
    by_cases hw : w < q.workersInfo.length
    · rw [items_set hw rfl] at hqe
      simp only [List.length_set]
      by_cases hv : v = w
      · rw [hv, Function.update_self] at hqe
        exact hv ▸ hqueue qe hqe
      · rw [Function.update_of_ne hv] at hqe
        exact h.known v qe hqe
    · rw [items, List.set_eq_of_length_le (not_lt.mp hw)] at hqe
      simp only [List.length_set]
      exact h.known v qe hqe

/-- An item is queued for the worker of its logical queue, unless that one is full. -/
theorem Sound.pushFront (h : q.Sound) (item : T) (now : ℕ)
    (hknown : queueId < q.queuesInfo.length) :
    q.pushFront queueId item now = some (false, q) ∨
    ∃ q' send, q.pushFront queueId item now = some (true, q') ∧ q'.Sound ∧
      q'.nbWorkers = q.nbWorkers ∧ q'.queuesInfo.length = q.queuesInfo.length ∧
      q'.items = Function.update q.items (queueId % q.nbWorkers)
        (⟨item, queueId, send⟩ :: q.items (queueId % q.nbWorkers)) := by
  have hlt : queueId % q.nbWorkers < q.nbWorkers := Nat.mod_lt _ h.pos
  rw [QueueingLogicRL.pushFront, mapToWorker, h.exists_worker hlt,
    List.getElem?_eq_getElem hknown]
  simp only [Option.bind_eq_bind, Option.bind_some]
  split
  · exact .inl rfl
  · refine .inr ⟨_, getNextTp q.queuesInfo[queueId] now, rfl, h.setItems fun qe hqe => ?_, rfl,
      List.length_set, items_set (h.length_workersInfo ▸ hlt) rfl⟩
    rcases List.mem_cons.mp hqe with rfl | hqe
    · exact ⟨hknown, rfl⟩
    · exact h.known _ qe hqe

/-- An unknown logical queue throws. -/
theorem pushFront_unknown (hunknown : q.queuesInfo.length ≤ queueId) :
    q.pushFront queueId item now = none := by
  rw [QueueingLogicRL.pushFront, List.getElem?_eq_none hunknown]
  rfl

/-- A worker takes an item of one of its logical queues. -/
theorem Sound.popBack (h : q.Sound) {port : ℕ}
    (hpop : q.popBack workerId i now = some ((port, item), q')) :
    q'.Sound ∧ q'.nbWorkers = q.nbWorkers ∧ q'.queuesInfo.length = q.queuesInfo.length ∧
      port < q.queuesInfo.length ∧ port % q.nbWorkers = workerId ∧
      (∃ send, (q.items workerId)[i]? = some ⟨item, port, send⟩) ∧
      q'.items = Function.update q.items workerId ((q.items workerId).eraseIdx i) := by
  obtain ⟨queue, hqueue, hpop⟩ := Option.bind_eq_some_iff.mp hpop
  obtain ⟨top, htop, hpop⟩ := Option.bind_eq_some_iff.mp hpop
  have hitems : q.items workerId = queue := by rw [items, hqueue, Option.getD_some]
  split at hpop
  · obtain ⟨qInfo, -, hpop⟩ := Option.bind_eq_some_iff.mp hpop
    cases hpop
    have hmem : top ∈ q.items workerId := hitems ▸ List.mem_of_getElem? htop
    obtain ⟨hknown, hworker⟩ := h.known workerId top hmem
    refine ⟨h.setItems fun qe hqe => ?_, rfl, List.length_set, hknown, hworker, ⟨top.send, ?_⟩, ?_⟩
    · exact h.known workerId qe (hitems ▸ List.mem_of_mem_eraseIdx hqe)
    · rw [hitems, htop]
    · rw [hitems]
      exact items_set (List.getElem?_eq_some_iff.mp hqueue).1 rfl
  · cases hpop

/-- What one call of a thread does to the queues. -/
def Moved (q q' : QueueingLogicRL T) : Prop :=
  q' = q ∨ (∃ queueId item now queued, q.pushFront queueId item now = some (queued, q')) ∨
    ∃ workerId i now r, q.popBack workerId i now = some (r, q')

theorem Sound.moved (h : q.Sound) (hmoved : q.Moved q') :
    q'.Sound ∧ q'.nbWorkers = q.nbWorkers ∧ q'.queuesInfo.length = q.queuesInfo.length := by
  rcases hmoved with rfl | ⟨queueId, item, now, queued, hpush⟩ | ⟨w, i, now, ⟨port, item⟩, hpop⟩
  · exact ⟨h, rfl, rfl⟩
  · have hknown : queueId < q.queuesInfo.length := by
      by_contra hnot
      rw [pushFront_unknown (not_lt.mp hnot)] at hpush
      cases hpush
    rcases h.pushFront item now hknown with
      heq | ⟨q', send, heq, hsound, hworkers, hlength, -⟩
    · cases hpush.symm.trans heq
      exact ⟨h, rfl, rfl⟩
    · cases hpush.symm.trans heq
      exact ⟨hsound, hworkers, hlength⟩
  · obtain ⟨hsound, hworkers, hlength, -⟩ := h.popBack hpop
    exact ⟨hsound, hworkers, hlength⟩

/-- A worker with an item does not wait for ever: from some time on it takes one. -/
theorem Sound.exists_popBack (h : q.Sound) {w : ℕ} (hne : q.items w ≠ []) :
    ∃ i now r, q.popBack w i now = some r := by
  obtain ⟨top, htop⟩ := Option.ne_none_iff_exists'.mp
    (mt (List.argmin_eq_none (f := QE.send)).mp hne)
  obtain ⟨i, hi⟩ := List.getElem?_of_mem (List.argmin_mem htop)
  have hqueue : q.workersInfo[w]? = some (q.items w) := by
    cases hget : q.workersInfo[w]? with
    | none => exact absurd (by rw [items, hget]; rfl) hne
    | some queue => rw [items, hget, Option.getD_some]
  have hknown := (h.known w top (List.argmin_mem htop)).1
  refine ⟨i, top.send, ?_⟩
  simp only [QueueingLogicRL.popBack, hqueue, Option.bind_eq_bind, Option.bind_some, hi]
  rw [if_pos ⟨fun qe hqe => List.le_of_mem_argmin hqe htop, le_refl _⟩,
    List.getElem?_eq_getElem hknown]
  exact ⟨_, rfl⟩

end QueueingLogicRL

end Bm
